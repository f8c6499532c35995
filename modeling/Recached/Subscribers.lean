import Recached.Connection
import Recached.Deliveries
import Recached.Lib.Distinct
import Recached.Lib.Runs

/-!
# Subscribers

The tables of the hub do not keep a connection from being registered twice, or from staying registered
when it is gone; the handlers do, with the sets of the subscriptions of their connections.  A handler works
through the names of a command one at a time, with a reply after each, and other connections go on in
between.  A reply that cannot be written ends the work on the command.
-/

namespace Recached

/-! ## Handlers and their steps -/

/-- What is left to do for a command. -/
inductive SubscriberWork where
  | subscribing (k : SubscriptionKind) (names : List String)
  | leaving (k : SubscriptionKind) (targets : List String)
  | done

/-- Where the handler of a connection stands. -/
inductive SubscriberPhase where
  | waiting
  | working (w : SubscriberWork)
  -- the name is in the set and not in the table yet
  | registering (k : SubscriptionKind) (name : String) (names : List String)
  | replying (w : SubscriberWork)
  -- the loop has ended, the registrations have not
  | closing (w : SubscriberWork)
  | closed

structure Subscriber where
  transport : Transport
  channels : List String := []
  patterns : List String := []
  phase : SubscriberPhase := .waiting

namespace SubscriberWork

/-- The names that have been taken out of the set and are still in the table. -/
def targets : SubscriberWork → List String
  | .leaving _ targets => targets
  | .subscribing .. | .done => []

/-- Those of one kind. -/
def left (k : SubscriptionKind) : SubscriberWork → List String
  | .leaving k' targets => if k' = k then targets else []
  | .subscribing .. | .done => []

theorem left_of_targets {w : SubscriberWork} (none : w.targets = []) (k : SubscriptionKind) :
    w.left k = [] := by
  cases w with
  | subscribing k names => rfl
  | leaving k' targets =>
    obtain rfl : targets = [] := none
    exact ite_self []
  | done => rfl

end SubscriberWork

namespace SubscriberPhase

def left (k : SubscriptionKind) : SubscriberPhase → List String
  | .working w | .replying w | .closing w => w.left k
  | .waiting | .registering .. | .closed => []

/-- The name that is about to be registered. -/
def entering (k : SubscriptionKind) : SubscriberPhase → Option String
  | .registering k' name _ => if k' = k then some name else none
  | _ => none

def isClosed : SubscriberPhase → Bool
  | .closed => true
  | _ => false

/-- Where a handler goes on that cannot write a reply: over WebSocket the failure ends only the loop over
the names, if there is one. -/
def afterFailure (transport : Transport) (w : SubscriberWork) : SubscriberPhase :=
  match transport, w with
  | .ws, .subscribing .. | .ws, .leaving .. => .waiting
  | .ws, .done | .tcp, _ => .closing w

end SubscriberPhase

namespace Subscriber

def names (c : Subscriber) : SubscriptionKind → List String
  | .channel => c.channels
  | .pattern => c.patterns

def setNames (k : SubscriptionKind) (names : List String) (c : Subscriber) : Subscriber :=
  match k with
  | .channel => { c with channels := names }
  | .pattern => { c with patterns := names }

/-- The subscriptions of the connection: from their registration to their end. -/
def held (c : Subscriber) (k : SubscriptionKind) : List String :=
  ((c.names k).filter fun name => c.phase.entering k ≠ some name) ++ c.phase.left k

/-- Go on with a command, as `conn_id`. -/
def advance (limit id : ℕ) (hub : PubSubHub) (c : Subscriber) : Option (Subscriber × PubSubHub) :=
  match c.phase with
  | .working (.subscribing k (name :: names)) =>
    if name ∉ c.names k && limit ≤ c.channels.length + c.patterns.length then
      some ({ c with phase := .replying (.subscribing k names) }, hub)
    else if name ∈ c.names k then some ({ c with phase := .replying (.subscribing k names) }, hub)
    else some ({ c.setNames k (c.names k ++ [name]) with phase := .registering k name names }, hub)
  | .registering k name names =>
    some ({ c with phase := .replying (.subscribing k names) }, hub.register k id name)
  | .working (.leaving k (name :: targets)) =>
    some ({ c with phase := .replying (.leaving k targets) }, hub.unregister k id name)
  | .working _ => some ({ c with phase := .waiting }, hub)
  | _ => none

/-- Take names out of the set; `order` is the order in which the set yields its elements. -/
def unsubscribe (k : SubscriptionKind) (names order : List String) (c : Subscriber) : Subscriber :=
  let targets := Session.targets names order
  { c.setNames k ((c.names k).filter (· ∉ targets)) with
    phase := if targets.isEmpty then .replying .done else .working (.leaving k targets) }

/-- A reply has been written, or cannot be. -/
def replied (written : Bool) (w : SubscriberWork) (c : Subscriber) : Subscriber :=
  { c with phase := if written then .working w else .afterFailure c.transport w }

/-- The end of the handler. -/
def close (id : ℕ) (hub : PubSubHub) (c : Subscriber) : Subscriber × PubSubHub :=
  ({ c with channels := [], patterns := [], phase := .closed },
    if c.channels.isEmpty && c.patterns.isEmpty then hub else hub.unsubscribeAll id)

end Subscriber

/-- The hub and the connections; the number of a connection is its place. -/
structure PubSubSystem where
  hub : PubSubHub := {}
  conns : List Subscriber := []

inductive PubSubAction where
  | open (transport : Transport)
  | subscribe (i : ℕ) (k : SubscriptionKind) (names : List String)
  | unsubscribe (i : ℕ) (k : SubscriptionKind) (names order : List String)
  | publish (channel : String) (message : Bytes)
  | advance (i : ℕ)
  | reply (i : ℕ) (written : Bool)
  | receive (i : ℕ)
  | stop (i : ℕ)
  | close (i : ℕ)

/-- Nothing can be sent to a connection whose handler has ended: its registrations for the channel go, and
those for patterns. -/
def PubSubHub.dropClosed (closed : ℕ → Bool) (channel : String) (hub : PubSubHub) : PubSubHub :=
  { hub with
    channelSubs := hub.channelSubs.map fun e =>
      if e.1 = channel then (e.1, e.2.filter fun id => !closed id) else e
    patternSubs := hub.patternSubs.filter fun e => !closed e.2 }

namespace PubSubSystem

-- the size of a queued delivery apart from its texts, and the limit of subscriptions per connection
variable (itemBytes limit : ℕ)

def isClosed (s : PubSubSystem) (id : ℕ) : Bool :=
  match s.conns[id]? with
  | some c => c.phase.isClosed
  | none => false

/-- Publish, directly or in a transaction; the reply. -/
def publish (channel : String) (message : Bytes) (s : PubSubSystem) : ℕ × PubSubSystem :=
  let (count, hub) := (s.hub.dropClosed s.isClosed channel).publish itemBytes channel message
  (count, { s with hub })

def step (s : PubSubSystem) : PubSubAction → Option PubSubSystem
  | .open transport => some { s with conns := s.conns ++ [{ transport }] }
  | .subscribe i k names =>
    s.conns[i]?.bind fun c =>
      match c.phase with
      | .waiting =>
        some { s with conns := s.conns.set i { c with phase := .working (.subscribing k names) } }
      | _ => none
  | .unsubscribe i k names order =>
    s.conns[i]?.bind fun c =>
      match c.phase with
      | .waiting =>
        if order.Perm (c.names k) then
          some { s with conns := s.conns.set i (c.unsubscribe k names order) }
        else none
      | _ => none
  | .publish channel message => some (s.publish itemBytes channel message).2
  | .advance i =>
    s.conns[i]?.bind fun c =>
      (c.advance limit i s.hub).map fun r => { hub := r.2, conns := s.conns.set i r.1 }
  | .reply i written =>
    s.conns[i]?.bind fun c =>
      match c.phase with
      | .replying w => some { s with conns := s.conns.set i (c.replied written w) }
      | _ => none
  | .receive i =>
    s.conns[i]?.bind fun c =>
      match c.phase, (s.hub.queues i).queue with
      | .waiting, _ :: queue =>
        if c.channels.isEmpty && c.patterns.isEmpty then none
        else
          some { s with hub := { s.hub with
            queues := Function.update s.hub.queues i { s.hub.queues i with queue } } }
      | _, _ => none
  | .stop i =>
    s.conns[i]?.bind fun c =>
      match c.phase with
      | .waiting => some { s with conns := s.conns.set i { c with phase := .closing .done } }
      | _ => none
  | .close i =>
    s.conns[i]?.bind fun c =>
      match c.phase with
      | .closing _ =>
        some { hub := (c.close i s.hub).2, conns := s.conns.set i (c.close i s.hub).1 }
      | _ => none

/-- What the connection is owed of a publication. -/
def owed (channel : String) (message : Bytes) (s : PubSubSystem) (id : ℕ) : List PubSubMsg :=
  match s.conns[id]? with
  | some c => PubSubHub.owed channel message (c.held .channel) (c.held .pattern)
  | none => []

end PubSubSystem

/-! ## One connection -/

namespace Subscriber

/-- The sets of a connection and what is left to do. -/
structure Sound (c : Subscriber) : Prop where
  distinct : ∀ k, (c.names k).Nodup
  targets : ∀ k, (c.phase.left k).Nodup
  apart : ∀ k, ∀ name ∈ c.phase.left k, name ∉ c.names k
  entering : ∀ k name, c.phase.entering k = some name → name ∈ c.names k
  covered : ∀ w, c.phase = .closing w → c.channels = [] → c.patterns = [] → w.targets = []
  ended : c.phase = .closed → ∀ k, c.names k = []

theorem Sound.fresh (transport : Transport) : Sound { transport } :=
  ⟨fun k => by cases k <;> exact List.nodup_nil, fun _ => List.nodup_nil, fun _ _ mem => (by cases mem),
    fun _ _ new => (by cases new), fun _ same => (by cases same), fun same => (by cases same)⟩

/-- The tables have of a connection what it holds. -/
def InStep (id : ℕ) (hub : PubSubHub) (c : Subscriber) : Prop :=
  ∀ k name, hub.Registered k id name ↔ name ∈ c.held k

variable {c c' : Subscriber} {hub hub' : PubSubHub} {limit id : ℕ}

theorem mem_held {k : SubscriptionKind} {name : String} : name ∈ c.held k ↔
    name ∈ c.names k ∧ c.phase.entering k ≠ some name ∨ name ∈ c.phase.left k := by
  simp [held]

theorem Sound.nodup_held (h : c.Sound) (k : SubscriptionKind) : (c.held k).Nodup := by
  refine List.nodup_append.mpr ⟨(h.distinct k).filter _, h.targets k, ?_⟩
  rintro name mem other mem' rfl
  exact h.apart k name mem' (List.mem_of_mem_filter mem)

/-- What a handler does goes for its own connection only, and keeps the sets and the tables in step. -/
structure Step (id : ℕ) (hub hub' : PubSubHub) (c' : Subscriber) : Prop where
  sound : c'.Sound
  wf : hub'.Wf
  inStep : c'.InStep id hub'
  others : ∀ k id' name, id' ≠ id → (hub'.Registered k id' name ↔ hub.Registered k id' name)

theorem names_setNames (k k' : SubscriptionKind) (names : List String) (phase : SubscriberPhase)
    (c : Subscriber) : ({ c.setNames k names with phase } : Subscriber).names k' =
      if k' = k then names else c.names k' := by
  cases k <;> cases k' <;> rfl

/-- A handler that is not at its end goes on to another place. -/
theorem Sound.goTo (h : c.Sound) {phase : SubscriberPhase} (targets : ∀ k, (phase.left k).Nodup)
    (apart : ∀ k, ∀ name ∈ phase.left k, name ∉ c.names k)
    (entering : ∀ k name, phase.entering k = some name → name ∈ c.names k)
    (runs : ∀ w, phase ≠ .closing w) (lives : phase ≠ .closed) : ({ c with phase } : Subscriber).Sound :=
  ⟨h.distinct, targets, apart, entering, fun w closing => absurd closing (runs w),
    fun closed => absurd closed lives⟩

/-- Nothing is left to do, and nothing is about to be registered. -/
def Rests (phase : SubscriberPhase) : Prop := ∀ k, phase.left k = [] ∧ phase.entering k = none

theorem Sound.rest (h : c.Sound) {phase : SubscriberPhase} (rests : Rests phase)
    (runs : ∀ w, phase ≠ .closing w) (lives : phase ≠ .closed) : ({ c with phase } : Subscriber).Sound := by
  refine h.goTo (fun k => ?_) (fun k name mem => ?_) (fun k name entering => ?_) runs lives
  · rw [(rests k).1]
    exact List.nodup_nil
  · rw [(rests k).1] at mem
    cases mem
  · rw [(rests k).2] at entering
    cases entering

theorem held_of_rests (k : SubscriptionKind) (rests : Rests c.phase) : c.held k = c.names k := by
  simp [held, rests k]

/-- A name that is new in the set and not registered yet is not held. -/
theorem Sound.insert (h : c.Sound) {k : SubscriptionKind} {name : String} (resting : Rests c.phase)
    (new : name ∉ c.names k) (names : List String) :
    let c' : Subscriber :=
      { c.setNames k (c.names k ++ [name]) with phase := .registering k name names }
    c'.Sound ∧ ∀ k' other, other ∈ c'.held k' ↔ other ∈ c.held k' := by
  intro c'
  have sets (k' : SubscriptionKind) : c'.names k' = if k' = k then c.names k ++ [name] else c.names k' :=
    names_setNames ..
  have entering (k' : SubscriptionKind) : c'.phase.entering k' = if k = k' then some name else none := rfl
  have left (k' : SubscriptionKind) : c'.phase.left k' = [] := rfl
  refine ⟨⟨fun k' => ?_, fun k' => ?_, fun k' other mem => ?_, fun k' other first => ?_, fun w closing => ?_,
    fun closed => ?_⟩, fun k' other => ?_⟩
  · rw [sets]
    split_ifs
    · exact List.nodup_append_comm.mp (List.nodup_cons.mpr ⟨new, h.distinct k⟩)
    · exact h.distinct k'
  · rw [left]
    exact List.nodup_nil
  · rw [left] at mem
    cases mem
  · rw [entering] at first
    split_ifs at first with kind
    obtain rfl := Option.some.inj first
    simp [sets, kind]
  · cases closing
  · cases closed
  · rw [held_of_rests k' resting, mem_held, sets, entering, left]
    by_cases kind : k' = k
    · subst kind
      simp only [if_true, List.mem_append, List.mem_singleton, ne_eq, Option.some.injEq, List.not_mem_nil,
        or_false]
      constructor
      · rintro ⟨old | rfl, other⟩
        · exact old
        · exact absurd rfl other
      · intro old
        exact ⟨.inl old, fun same => new (same ▸ old)⟩
    · simp [kind, Ne.symm kind]

theorem Sound.advance (h : c.Sound) (wf : hub.Wf) (inStep : c.InStep id hub)
    (next : c.advance limit id hub = some (c', hub')) : Step id hub hub' c' := by
  have same : ∀ k id' name, id' ≠ id → (hub.Registered k id' name ↔ hub.Registered k id' name) :=
    fun _ _ _ _ => Iff.rfl
  unfold Subscriber.advance at next
  split at next
  · next k name names phase =>
    have rests : Rests (.replying (.subscribing k names)) := fun _ => ⟨rfl, rfl⟩
    have resting : Rests c.phase := by
      rw [phase]
      exact fun _ => ⟨rfl, rfl⟩
    split_ifs at next with full known
    · cases next
      refine ⟨h.rest rests (fun w => by simp) (by simp), wf, fun k name => ?_, same⟩
      rw [inStep k name, held_of_rests k resting, held_of_rests k rests]
      rfl
    · cases next
      refine ⟨h.rest rests (fun w => by simp) (by simp), wf, fun k name => ?_, same⟩
      rw [inStep k name, held_of_rests k resting, held_of_rests k rests]
      rfl
    · cases next
      obtain ⟨sound, held⟩ := h.insert resting known names
      exact ⟨sound, wf, fun k' other => (inStep k' other).trans (held k' other).symm, same⟩
  · next k name names phase =>
    cases next
    have rests : Rests (.replying (.subscribing k names)) := fun _ => ⟨rfl, rfl⟩
    have entering (k' : SubscriptionKind) : c.phase.entering k' = if k = k' then some name else none := by
      rw [phase]
      rfl
    have left (k' : SubscriptionKind) : c.phase.left k' = [] := by
      rw [phase]
      rfl
    have inSet : name ∈ c.names k := h.entering k name (by simp [entering])
    have new : ¬hub.Registered k id name := by
      rw [inStep k name, mem_held, entering, left]
      simp
    refine ⟨h.rest rests (fun w => by simp) (by simp), wf.register new, fun k' other => ?_, ?_⟩
    · have now : ({ c with phase := .replying (.subscribing k names) } : Subscriber).held k' =
        c.names k' := held_of_rests k' rests
      rw [PubSubHub.registered_register, inStep k' other, now, mem_held, entering, left]
      by_cases kind : k' = k
      · subst kind
        simp only [if_true, ne_eq, Option.some.injEq, List.not_mem_nil, or_false, true_and]
        constructor
        · rintro (⟨mem, -⟩ | rfl)
          · exact mem
          · exact inSet
        · intro mem
          by_cases same : other = name
          · exact .inr same
          · exact .inl ⟨mem, Ne.symm same⟩
      · simp [kind, Ne.symm kind]
    · intro k' id' other apart
      rw [PubSubHub.registered_register]
      simp [apart]
  · next k name targets phase =>
    cases next
    have entering (k' : SubscriptionKind) : c.phase.entering k' = none := by
      rw [phase]
      rfl
    have left (k' : SubscriptionKind) : c.phase.left k' = if k = k' then name :: targets else [] := by
      rw [phase]
      rfl
    have distinct := h.targets k
    have gone := h.apart k
    rw [left, if_pos rfl] at distinct gone
    obtain ⟨once, distinct⟩ := List.nodup_cons.mp distinct
    have left' (k' : SubscriptionKind) : (SubscriberPhase.replying (.leaving k targets)).left k' =
      if k = k' then targets else [] := rfl
    refine ⟨h.goTo (fun k' => ?_) (fun k' other mem => ?_) (fun k' other first => ?_) (fun w => by simp)
      (by simp), wf.unregister k id name, fun k' other => ?_, ?_⟩
    · rw [left']
      split_ifs
      · exact distinct
      · exact List.nodup_nil
    · rw [left'] at mem
      split_ifs at mem with kind
      · subst kind
        exact gone other (List.mem_cons_of_mem _ mem)
      · cases mem
    · cases first
    · rw [PubSubHub.registered_unregister, inStep k' other, mem_held, mem_held, entering, left]
      show _ ↔ other ∈ c.names k' ∧ (none : Option String) ≠ some other ∨ _
      rw [left']
      by_cases kind : k' = k
      · subst kind
        have away := gone name List.mem_cons_self
        simp only [if_true, ne_eq, reduceCtorEq, not_false_eq_true, and_true, List.mem_cons, true_and]
        constructor
        · rintro ⟨mem | rfl | mem, other⟩
          · exact .inl mem
          · exact absurd rfl other
          · exact .inr mem
        · rintro (mem | mem)
          · exact ⟨.inl mem, fun same => away (same ▸ mem)⟩
          · exact ⟨.inr (.inr mem), fun same => once (same ▸ mem)⟩
      · simp [kind, Ne.symm kind]
    · intro k' id' other apart
      rw [PubSubHub.registered_unregister]
      simp [apart]
  · next w more more' phase =>
    cases next
    have none : w.targets = [] := by
      cases w with
      | leaving k' targets =>
        cases targets with
        | nil => rfl
        | cons name targets => exact (more' k' name targets rfl).elim
      | subscribing k names => rfl
      | done => rfl
    have resting : Rests c.phase := by
      rw [phase]
      exact fun k => ⟨w.left_of_targets none k, rfl⟩
    have rests : Rests .waiting := fun _ => ⟨rfl, rfl⟩
    refine ⟨h.rest rests (fun w => by simp) (by simp), wf, fun k name => ?_, same⟩
    rw [inStep k name, held_of_rests k resting, held_of_rests k rests]
    rfl
  · cases next

/-- The handler has gone on without the tables, and holds what it held. -/
def Stays (c c' : Subscriber) : Prop := c'.Sound ∧ ∀ k name, name ∈ c'.held k ↔ name ∈ c.held k

theorem Stays.step (h : c.Stays c') (wf : hub.Wf) (inStep : c.InStep id hub) : Step id hub hub c' :=
  ⟨h.1, wf, fun k name => (inStep k name).trans (h.2 k name).symm, fun _ _ _ _ => Iff.rfl⟩

theorem Sound.begin (h : c.Sound) (waiting : c.phase = .waiting) (k : SubscriptionKind)
    (names : List String) : c.Stays { c with phase := .working (.subscribing k names) } := by
  have rests : Rests (.working (.subscribing k names)) := fun _ => ⟨rfl, rfl⟩
  have resting : Rests c.phase := by
    rw [waiting]
    exact fun _ => ⟨rfl, rfl⟩
  refine ⟨h.rest rests (fun w => by simp) (by simp), fun k' name => ?_⟩
  rw [held_of_rests k' resting]
  exact iff_of_eq (congrArg (name ∈ ·) (held_of_rests k' rests))

theorem nodup_targets {held : List String} (distinct : held.Nodup) (names : List String) :
    (Session.targets names held).Nodup := by
  unfold Session.targets
  split_ifs
  · exact distinct
  · exact (Distinct.nodup_eraseDups names).filter _

theorem mem_of_mem_targets {held names : List String} {name : String}
    (mem : name ∈ Session.targets names held) : name ∈ held := by
  unfold Session.targets at mem
  split_ifs at mem
  · exact mem
  · exact of_decide_eq_true (List.mem_filter.mp mem).2

theorem Sound.unsubscribe (h : c.Sound) (waiting : c.phase = .waiting) (k : SubscriptionKind)
    (names : List String) {order : List String} (listed : order.Perm (c.names k)) :
    c.Stays (c.unsubscribe k names order) := by
  have distinct := nodup_targets (listed.nodup_iff.mpr (h.distinct k)) names
  have inside : ∀ name ∈ Session.targets names order, name ∈ c.names k :=
    fun name mem => listed.mem_iff.mp (mem_of_mem_targets mem)
  have resting : Rests c.phase := by
    rw [waiting]
    exact fun _ => ⟨rfl, rfl⟩
  have sets (k' : SubscriptionKind) : (c.unsubscribe k names order).names k' =
      if k' = k then (c.names k).filter (· ∉ Session.targets names order) else c.names k' :=
    names_setNames ..
  have entering (k' : SubscriptionKind) : (c.unsubscribe k names order).phase.entering k' = none := by
    unfold Subscriber.unsubscribe
    dsimp only
    split_ifs <;> rfl
  have left (k' : SubscriptionKind) : (c.unsubscribe k names order).phase.left k' =
      if k = k' then Session.targets names order else [] := by
    unfold Subscriber.unsubscribe
    dsimp only
    split_ifs with none kind kind
    · exact (List.isEmpty_iff.mp none).symm
    · rfl
    · exact if_pos kind
    · exact if_neg kind
  have open' : (∀ w, (c.unsubscribe k names order).phase ≠ .closing w) ∧
      (c.unsubscribe k names order).phase ≠ .closed := by
    unfold Subscriber.unsubscribe
    dsimp only
    split_ifs <;> simp
  refine ⟨⟨fun k' => ?_, fun k' => ?_, fun k' name mem => ?_, fun k' name new => ?_,
    fun w closing => absurd closing (open'.1 w), fun closed => absurd closed open'.2⟩, fun k' name => ?_⟩
  · rw [sets]
    split_ifs
    · exact (h.distinct k).filter _
    · exact h.distinct k'
  · rw [left]
    split_ifs
    · exact distinct
    · exact List.nodup_nil
  · rw [left] at mem
    split_ifs at mem with kind
    · rw [sets, if_pos kind.symm]
      simp [mem]
    · cases mem
  · rw [entering] at new
    cases new
  · rw [held_of_rests k' resting, mem_held, sets, entering, left]
    by_cases kind : k' = k
    · subst kind
      simp only [if_true, List.mem_filter, decide_eq_true_eq, ne_eq, reduceCtorEq, not_false_eq_true,
        and_true]
      constructor
      · rintro (⟨mem, -⟩ | mem)
        · exact mem
        · exact inside name mem
      · intro mem
        by_cases target : name ∈ Session.targets names order
        · exact .inr target
        · exact .inl ⟨mem, target⟩
    · simp [kind, Ne.symm kind]

theorem Sound.replied (h : c.Sound) {w : SubscriberWork} (replying : c.phase = .replying w)
    {written : Bool} (careful : written = false → w.targets = [] ∨
      c.transport = .tcp ∧ ¬(c.channels = [] ∧ c.patterns = [])) : c.Stays (c.replied written w) := by
  have now (k : SubscriptionKind) : c.phase.left k = w.left k ∧ c.phase.entering k = none := by
    rw [replying]
    exact ⟨rfl, rfl⟩
  have targets (k : SubscriptionKind) : (w.left k).Nodup := (now k).1 ▸ h.targets k
  have apart (k : SubscriptionKind) : ∀ name ∈ w.left k, name ∉ c.names k := (now k).1 ▸ h.apart k
  -- what is left stays the same, unless the work ends with nothing left
  have goesOn (phase : SubscriberPhase) (left : ∀ k, phase.left k = w.left k)
      (entering : ∀ k, phase.entering k = none)
      (covered : ∀ w', phase = .closing w' → c.channels = [] → c.patterns = [] → w'.targets = [])
      (lives : phase ≠ .closed) : c.Stays { c with phase } := by
    refine ⟨⟨h.distinct, fun k => left k ▸ targets k, fun k => left k ▸ apart k, fun k name new => ?_,
      covered, fun closed => absurd closed lives⟩, fun k name => ?_⟩
    · rw [entering] at new
      cases new
    · rw [mem_held, mem_held, left, entering, (now k).1, (now k).2]
      rfl
  cases written with
  | true => exact goesOn (.working w) (fun _ => rfl) (fun _ => rfl) (fun _ same => by cases same) (by simp)
  | false =>
    have careful := careful rfl
    have closes (covered : c.channels = [] → c.patterns = [] → w.targets = []) :
        c.Stays { c with phase := .closing w } :=
      goesOn _ (fun _ => rfl) (fun _ => rfl) (fun _ same => by cases same; exact covered) (by simp)
    have waits (none : w.targets = []) : c.Stays { c with phase := .waiting } :=
      goesOn _ (fun k => (w.left_of_targets none k).symm) (fun _ => rfl) (fun _ same => by cases same)
        (by simp)
    have phase : c.replied false w = { c with phase := .afterFailure c.transport w } := rfl
    rw [phase]
    cases transport : c.transport with
    | tcp =>
      have ends := closes fun channels patterns =>
        careful.resolve_right fun some => some.2 ⟨channels, patterns⟩
      rwa [transport] at ends
    | ws =>
      have none : w.targets = [] := careful.resolve_right fun tcp => by
        rw [transport] at tcp
        cases tcp.1
      have ends := closes fun _ _ => none
      have still := waits none
      rw [transport] at ends still
      cases w with
      | subscribing k names => exact still
      | leaving k targets => exact still
      | done => exact ends

theorem Sound.stop (h : c.Sound) (waiting : c.phase = .waiting) :
    c.Stays { c with phase := .closing .done } := by
  have resting : Rests c.phase := by
    rw [waiting]
    exact fun _ => ⟨rfl, rfl⟩
  have rests : Rests (.closing .done) := fun _ => ⟨rfl, rfl⟩
  refine ⟨⟨h.distinct, fun _ => List.nodup_nil, fun _ _ mem => (by cases mem), fun _ _ new => (by cases new),
    fun w same _ _ => ?_, fun closed => (by cases closed)⟩, fun k name => ?_⟩
  · cases same
    rfl
  · rw [held_of_rests k resting]
    exact iff_of_eq (congrArg (name ∈ ·) (held_of_rests k rests))

theorem Sound.close (h : c.Sound) {w : SubscriberWork} (closing : c.phase = .closing w) (wf : hub.Wf)
    (inStep : c.InStep id hub) : Step id hub (c.close id hub).2 (c.close id hub).1 := by
  have nothing (k : SubscriptionKind) (name : String) : name ∉ (c.close id hub).1.held k := by
    cases k <;> exact List.not_mem_nil
  have sound : (c.close id hub).1.Sound :=
    ⟨fun k => by cases k <;> exact List.nodup_nil, fun _ => List.nodup_nil,
      fun _ _ mem => (by cases mem), fun _ _ new => (by cases new), fun _ same => (by cases same),
      fun _ k => by cases k <;> rfl⟩
  unfold Subscriber.close at nothing sound ⊢
  dsimp only at nothing sound ⊢
  split_ifs with empty
  · obtain ⟨channels, patterns⟩ : c.channels = [] ∧ c.patterns = [] := by simpa using empty
    have none := h.covered w closing channels patterns
    refine ⟨sound, wf, fun k name => ?_, fun _ _ _ _ => Iff.rfl⟩
    rw [inStep k name]
    refine iff_of_false (fun held => ?_) (nothing k name)
    have noName : c.names k = [] := by cases k <;> assumption
    rw [mem_held, noName, closing] at held
    have left : w.left k = [] := w.left_of_targets none k
    simp [SubscriberPhase.left, left] at held
  · refine ⟨sound, wf.unsubscribeAll id, fun k name => ?_, fun k id' name apart => ?_⟩
    · rw [PubSubHub.registered_unsubscribeAll]
      exact iff_of_false (fun both => both.2 rfl) (nothing k name)
    · rw [PubSubHub.registered_unsubscribeAll, and_iff_left apart]

end Subscriber

/-! ## Every run -/

namespace PubSubSystem

variable {itemBytes limit : ℕ} {s s' : PubSubSystem}

/-- No queue overflows; and no reply fails between the names of an UNSUBSCRIBE, unless the handler goes on
to its end and finds a subscription to end there. -/
def Careful (itemBytes : ℕ) (s : PubSubSystem) : PubSubAction → Prop
  | .publish channel message => ∀ id, PubSubHub.Fits itemBytes
      ((s.hub.queues id).queue ++ s.owed channel message id)
  | .reply i false => ∀ c w, s.conns[i]? = some c → c.phase = .replying w →
      w.targets = [] ∨ c.transport = .tcp ∧ ¬(c.channels = [] ∧ c.patterns = [])
  | _ => True

/-- The tables and the handlers are in step. -/
structure Sound (s : PubSubSystem) : Prop where
  wf : s.hub.Wf
  conns : ∀ (id : ℕ) (c : Subscriber), s.conns[id]? = some c → c.Sound ∧ c.InStep id s.hub
  strangers : ∀ id : ℕ, s.conns[id]? = none → ∀ k name, ¬s.hub.Registered k id name

theorem sound_empty : ({} : PubSubSystem).Sound :=
  ⟨PubSubHub.wf_empty, fun _ _ found => (by cases found), fun _ _ _ _ => PubSubHub.not_registered_empty⟩

/-- A handler has gone on. -/
theorem Sound.handler (h : s.Sound) {i : ℕ} {c c' : Subscriber} {hub : PubSubHub}
    (found : s.conns[i]? = some c) (step : Subscriber.Step i s.hub hub c') :
    Sound { hub, conns := s.conns.set i c' } := by
  refine ⟨step.wf, fun id other here => ?_, fun id away k name => ?_⟩
  · dsimp only at here
    rw [List.getElem?_set] at here
    split_ifs at here with same within
    · obtain rfl := Option.some.inj here
      subst same
      exact ⟨step.sound, step.inStep⟩
    · obtain ⟨sound, inStep⟩ := h.conns id other here
      exact ⟨sound, fun k name => (step.others k id name (Ne.symm same)).trans (inStep k name)⟩
  · dsimp only at away
    have apart : id ≠ i := by
      rintro rfl
      obtain ⟨within, -⟩ := List.getElem?_eq_some_iff.mp found
      rw [List.getElem?_set_self within] at away
      cases away
    rw [List.getElem?_set_ne (Ne.symm apart)] at away
    rw [step.others k id name apart]
    exact h.strangers id away k name

theorem Sound.closed (h : s.Sound) {id : ℕ} {c : Subscriber} (found : s.conns[id]? = some c)
    (closed : c.phase = .closed) (k : SubscriptionKind) (name : String) : ¬s.hub.Registered k id name := by
  obtain ⟨sound, inStep⟩ := h.conns id c found
  rw [inStep k name, Subscriber.mem_held, sound.ended closed k, closed]
  simp [SubscriberPhase.left]

theorem Sound.not_isClosed (h : s.Sound) {k : SubscriptionKind} {id : ℕ} {name : String}
    (registered : s.hub.Registered k id name) : s.isClosed id = false := by
  unfold isClosed
  cases found : s.conns[id]? with
  | none => rfl
  | some c =>
    dsimp only
    cases phase : c.phase with
    | closed => exact absurd registered (h.closed found phase k name)
    | waiting | working w | registering k name names | replying w | closing w => rfl

/-- Nobody whose handler has ended is registered, so nobody is dropped. -/
theorem Sound.dropClosed (h : s.Sound) (channel : String) :
    s.hub.dropClosed s.isClosed channel = s.hub := by
  have channels : (s.hub.channelSubs.map fun e =>
      if e.1 = channel then (e.1, e.2.filter fun id => !s.isClosed id) else e) = s.hub.channelSubs := by
    refine (List.map_congr_left fun e entry => ?_).trans (List.map_id _)
    split_ifs
    · refine Prod.ext rfl (List.filter_eq_self.mpr fun id mem => ?_)
      rw [h.not_isClosed (k := .channel) ⟨e.2, entry, mem⟩]
      rfl
    · rfl
  have patterns : (s.hub.patternSubs.filter fun e => !s.isClosed e.2) = s.hub.patternSubs := by
    refine List.filter_eq_self.mpr fun e mem => ?_
    rw [h.not_isClosed (k := .pattern) mem]
    rfl
  rw [PubSubHub.dropClosed, channels, patterns]

/-- What is sent of a publication is what the connections are owed. -/
theorem Sound.addressed (h : s.Sound) (channel : String) (message : Bytes) (id : ℕ) :
    (PubSubHub.addressed (s.hub.sends channel message) id).Perm (s.owed channel message id) := by
  unfold owed
  cases found : s.conns[id]? with
  | none =>
    have away (k : SubscriptionKind) (name : String) : s.hub.Registered k id name ↔ name ∈ [] :=
      iff_of_false (h.strangers id found k name) List.not_mem_nil
    exact PubSubHub.addressed_sends h.wf (away .channel) List.nodup_nil (away .pattern) List.nodup_nil
      channel message
  | some c =>
    obtain ⟨sound, inStep⟩ := h.conns id c found
    exact PubSubHub.addressed_sends h.wf (inStep .channel) (sound.nodup_held .channel) (inStep .pattern)
      (sound.nodup_held .pattern) channel message

/-- A publication for which every queue has room. -/
theorem Sound.publish (h : s.Sound) {channel : String} {message : Bytes}
    (room : ∀ id, PubSubHub.Fits itemBytes ((s.hub.queues id).queue ++ s.owed channel message id)) :
    s.publish itemBytes channel message = ((s.hub.sends channel message).length,
      { s with hub := s.hub.delivered (s.hub.sends channel message) }) := by
  have fits (id : ℕ) : PubSubHub.Fits itemBytes ((s.hub.queues id).queue ++
      PubSubHub.addressed (s.hub.sends channel message) id) :=
    (room id).perm ((h.addressed channel message id).symm.append_left _)
  unfold PubSubSystem.publish
  rw [h.dropClosed, PubSubHub.publish_of_fits h.wf fits]

theorem Sound.step (h : s.Sound) {a : PubSubAction} (careful : s.Careful itemBytes a)
    (next : s.step itemBytes limit a = some s') : s'.Sound := by
  cases a with
  | «open» transport =>
    cases next
    refine ⟨h.wf, fun id c found => ?_, fun id away => ?_⟩
    · dsimp only at found
      rw [List.getElem?_append] at found
      split_ifs at found with within
      · exact h.conns id c found
      · obtain rfl := List.mem_singleton.mp (List.mem_of_getElem? found)
        have new : s.conns[id]? = none := List.getElem?_eq_none (not_lt.mp within)
        refine ⟨.fresh transport, fun k name => iff_of_false (h.strangers id new k name) ?_⟩
        cases k <;> exact List.not_mem_nil
    · dsimp only at away
      rw [List.getElem?_eq_none_iff, List.length_append] at away
      exact h.strangers id (List.getElem?_eq_none (by omega))
  | subscribe i k names =>
    simp only [PubSubSystem.step, Option.bind_eq_some_iff] at next
    obtain ⟨c, found, next⟩ := next
    obtain ⟨sound, inStep⟩ := h.conns i c found
    split at next
    · next waiting =>
      cases next
      exact h.handler found ((sound.begin waiting k names).step h.wf inStep)
    · cases next
  | unsubscribe i k names order =>
    simp only [PubSubSystem.step, Option.bind_eq_some_iff] at next
    obtain ⟨c, found, next⟩ := next
    obtain ⟨sound, inStep⟩ := h.conns i c found
    split at next
    · next waiting =>
      split_ifs at next with listed
      cases next
      exact h.handler found ((sound.unsubscribe waiting k names listed).step h.wf inStep)
    · cases next
  | publish channel message =>
    cases next
    rw [h.publish careful]
    exact ⟨⟨h.wf.channels, h.wf.patterns⟩, h.conns, h.strangers⟩
  | advance i =>
    simp only [PubSubSystem.step, Option.bind_eq_some_iff, Option.map_eq_some_iff] at next
    obtain ⟨c, found, ⟨c', hub⟩, next, rfl⟩ := next
    obtain ⟨sound, inStep⟩ := h.conns i c found
    exact h.handler found (sound.advance h.wf inStep next)
  | reply i written =>
    simp only [PubSubSystem.step, Option.bind_eq_some_iff] at next
    obtain ⟨c, found, next⟩ := next
    obtain ⟨sound, inStep⟩ := h.conns i c found
    split at next
    · next w replying =>
      cases next
      refine h.handler found ((sound.replied replying fun failed => ?_).step h.wf inStep)
      subst failed
      exact careful c w found replying
    · cases next
  | receive i =>
    simp only [PubSubSystem.step, Option.bind_eq_some_iff] at next
    obtain ⟨c, found, next⟩ := next
    split at next
    · split_ifs at next
      cases next
      exact ⟨⟨h.wf.channels, h.wf.patterns⟩, h.conns, h.strangers⟩
    · cases next
  | stop i =>
    simp only [PubSubSystem.step, Option.bind_eq_some_iff] at next
    obtain ⟨c, found, next⟩ := next
    obtain ⟨sound, inStep⟩ := h.conns i c found
    split at next
    · next waiting =>
      cases next
      exact h.handler found ((sound.stop waiting).step h.wf inStep)
    · cases next
  | close i =>
    simp only [PubSubSystem.step, Option.bind_eq_some_iff] at next
    obtain ⟨c, found, next⟩ := next
    obtain ⟨sound, inStep⟩ := h.conns i c found
    split at next
    · next w closing =>
      cases next
      exact h.handler found (sound.close closing h.wf inStep)
    · cases next

/-- Delivery is exact: the tables have what the connections hold, each once; a publication for which there
is room sends every connection what it is owed, and its reply counts that; and nothing is registered for a
connection whose handler has ended. -/
structure Exact (itemBytes : ℕ) (s : PubSubSystem) : Prop where
  registered : ∀ k id name, s.hub.Registered k id name ↔
    ∃ c : Subscriber, s.conns[id]? = some c ∧ name ∈ c.held k
  once : ∀ c ∈ s.conns, ∀ k, (c.held k).Nodup
  settled : ∀ c ∈ s.conns, c.phase = .waiting → ∀ k, c.held k = c.names k
  delivered : ∀ channel message,
    (∀ id, PubSubHub.Fits itemBytes ((s.hub.queues id).queue ++ s.owed channel message id)) →
      (∀ id, ∃ sent, sent.Perm (s.owed channel message id) ∧
        ((s.publish itemBytes channel message).2.hub.queues id).queue = (s.hub.queues id).queue ++ sent) ∧
      (s.publish itemBytes channel message).1 =
        ∑ id ∈ Finset.range s.conns.length, (s.owed channel message id).length
  closed : ∀ (id : ℕ) (c : Subscriber), s.conns[id]? = some c → c.phase = .closed →
    ∀ k name, ¬s.hub.Registered k id name

theorem Sound.exact (h : s.Sound) : s.Exact itemBytes := by
  refine ⟨fun k id name => ?_, fun c mem k => ?_, fun c mem waiting k => ?_, fun channel message room => ?_,
    fun id c found closed => h.closed found closed⟩
  · constructor
    · intro registered
      cases found : s.conns[id]? with
      | none => exact absurd registered (h.strangers id found k name)
      | some c => exact ⟨c, rfl, ((h.conns id c found).2 k name).mp registered⟩
    · rintro ⟨c, found, held⟩
      exact ((h.conns id c found).2 k name).mpr held
  · obtain ⟨id, found⟩ := List.mem_iff_getElem?.mp mem
    exact (h.conns id c found).1.nodup_held k
  · refine Subscriber.held_of_rests k ?_
    rw [waiting]
    exact fun _ => ⟨rfl, rfl⟩
  · rw [h.publish room]
    refine ⟨fun id => ⟨_, h.addressed channel message id, rfl⟩, ?_⟩
    have within : ∀ e ∈ s.hub.sends channel message, e.1 < s.conns.length := by
      intro e mem
      obtain ⟨k, name, registered⟩ := PubSubHub.registered_of_mem_sends h.wf mem
      by_contra beyond
      exact h.strangers e.1 (List.getElem?_eq_none (not_lt.mp beyond)) k name registered
    exact (PubSubHub.length_eq_sum_addressed within).trans
      (Finset.sum_congr rfl fun id _ => (h.addressed channel message id).length_eq)

end PubSubSystem

/-- In every run without an overflow in which no handler gives up in the middle of an UNSUBSCRIBE, delivery
is exact in every state. -/
theorem delivery_exact {itemBytes limit : ℕ} {as : List PubSubAction} {s : PubSubSystem}
    (run : Runs.exec (PubSubSystem.step itemBytes limit) {} as = some s)
    (careful : Runs.Each (PubSubSystem.step itemBytes limit) (PubSubSystem.Careful itemBytes) {} as) :
    s.Exact itemBytes :=
  (Runs.invariant (fun _ _ _ h careful next => h.step careful next) run careful
    PubSubSystem.sound_empty).exact

/-- A connection subscribes and is sent a message. -/
theorem delivery_exact_subscribed :
    let actions : List PubSubAction := [.open .tcp, .subscribe 0 .channel ["a"], .advance 0, .advance 0,
      .reply 0 true, .publish "a" [7]]
    ∃ s, Runs.exec (PubSubSystem.step 72 100) {} actions = some s ∧ s.Exact 72 := by
  intro actions
  obtain ⟨s, run⟩ : ∃ s, Runs.exec (PubSubSystem.step 72 100) {} actions = some s := ⟨_, rfl⟩
  refine ⟨s, run, delivery_exact run ⟨trivial, ?_⟩⟩
  rintro s ⟨⟩
  refine ⟨trivial, ?_⟩
  rintro s ⟨⟩
  refine ⟨trivial, ?_⟩
  rintro s ⟨⟩
  refine ⟨trivial, ?_⟩
  rintro s ⟨⟩
  refine ⟨trivial, ?_⟩
  rintro s ⟨⟩
  refine ⟨fun id => ?_, fun _ _ => trivial⟩
  cases id with
  | zero => exact ⟨by decide, by decide⟩
  | succ id => exact ⟨Nat.zero_le _, Nat.zero_le _⟩

/-- A connection that subscribes to two channels and unsubscribes from all, with a reply that fails. -/
def PubSubAction.cutUnsubscribe (transport : Transport) : List PubSubAction :=
  [.open transport, .subscribe 0 .channel ["a", "b"], .advance 0, .advance 0, .reply 0 true, .advance 0,
    .advance 0, .reply 0 true, .advance 0, .unsubscribe 0 .channel [] ["a", "b"], .advance 0,
    .reply 0 false]

/-- The reply to the first of two channels fails.  Over TCP the handler ends at once, and over WebSocket it
waits for the end of the connection; in both cases it finds no subscription and leaves the other channel in
the table.  Over WebSocket a publication still goes to the connection in between. -/
theorem unsubscribe_cut_short :
    (∃ s, Runs.exec (PubSubSystem.step 72 100) {} (PubSubAction.cutUnsubscribe .tcp ++ [.close 0]) =
        some s ∧
      s.conns.map (fun c => c.phase.isClosed) = [true] ∧ s.hub.channelSubs = [("b", [0])] ∧
      ¬s.Exact 72) ∧
    ∃ s, Runs.exec (PubSubSystem.step 72 100) {} (PubSubAction.cutUnsubscribe .ws) = some s ∧
      s.conns.map (fun c => (c.channels, c.patterns)) = [([], [])] ∧ s.owed "b" [] 0 = [] ∧
      (s.publish 72 "b" []).1 = 1 ∧ ¬s.Exact 72 ∧
      ∃ s', Runs.exec (PubSubSystem.step 72 100) s [.stop 0, .close 0] = some s' ∧
        s'.conns.map (fun c => c.phase.isClosed) = [true] ∧ s'.hub.channelSubs = [("b", [0])] := by
  constructor
  · refine ⟨_, rfl, rfl, rfl, fun exact => ?_⟩
    exact exact.closed 0 _ rfl rfl .channel "b" ⟨[0], List.mem_cons_self, List.mem_cons_self⟩
  · refine ⟨_, rfl, rfl, rfl, rfl, fun exact => ?_, _, rfl, rfl, rfl⟩
    obtain ⟨c, found, held⟩ := (exact.registered .channel 0 "b").mp
      ⟨[0], List.mem_cons_self, List.mem_cons_self⟩
    cases found
    cases held

end Recached
