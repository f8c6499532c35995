import Mathlib.Algebra.BigOperators.Group.Finset.Basic
import Mathlib.Algebra.Order.BigOperators.Group.List
import Recached.Info
import Recached.Lib.Multimap

/-!
# Deliveries

The hub has two tables of registrations, of channels and of patterns.  As long as no queue overflows a
publication sends one message for every registration that it matches, each to the queue of the connection
that is registered, and leaves the tables as they are.
-/

namespace Recached

open Text

/-- What a connection subscribes to: a channel, or the channels that match a pattern. -/
inductive SubscriptionKind where
  | channel
  | pattern
deriving DecidableEq

namespace PubSubHub

/-! ## Registrations -/

section

variable (hub : PubSubHub)

def register (k : SubscriptionKind) (id : ℕ) (name : String) : PubSubHub :=
  match k with
  | .channel => hub.subscribe id name
  | .pattern => hub.pSubscribe id name

def unregister (k : SubscriptionKind) (id : ℕ) (name : String) : PubSubHub :=
  match k with
  | .channel => hub.unsubscribe id name
  | .pattern => hub.pUnsubscribe id name

def unsubscribeAll (id : ℕ) : PubSubHub :=
  { hub with
    channelSubs := (hub.channelSubs.map fun e => (e.1, e.2.filter (· != id))).filter
      fun e => !e.2.isEmpty
    patternSubs := hub.patternSubs.filter fun e => e.2 != id }

/-- The connection is in the table, under the name. -/
def Registered : SubscriptionKind → ℕ → String → Prop
  | .channel, id, name => Multimap.Lists hub.channelSubs name id
  | .pattern, id, name => (name, id) ∈ hub.patternSubs

/-- No registration is in a table twice. -/
structure Wf : Prop where
  channels : Multimap.Wf hub.channelSubs
  patterns : hub.patternSubs.Nodup

end

variable {hub : PubSubHub} {k k' : SubscriptionKind} {id id' : ℕ} {name name' : String}

theorem wf_empty : ({} : PubSubHub).Wf := ⟨Multimap.wf_nil, List.nodup_nil⟩

theorem not_registered_empty : ¬({} : PubSubHub).Registered k id name := by
  cases k with
  | channel => exact Multimap.not_lists_nil
  | pattern => exact List.not_mem_nil

theorem registered_register : (hub.register k id name).Registered k' id' name' ↔
    hub.Registered k' id' name' ∨ k' = k ∧ id' = id ∧ name' = name := by
  cases k with
  | channel =>
    cases k' with
    | channel =>
      simp only [true_and, and_comm (a := id' = id)]
      exact Multimap.lists_add
    | pattern => simp [register, subscribe, Registered]
  | pattern =>
    cases k' with
    | channel => simp [register, pSubscribe, Registered]
    | pattern => simp [register, pSubscribe, Registered, and_comm]

theorem Wf.register (h : hub.Wf) (new : ¬hub.Registered k id name) : (hub.register k id name).Wf := by
  cases k with
  | channel => exact ⟨h.channels.add new, h.patterns⟩
  | pattern =>
    refine ⟨h.channels, ?_⟩
    exact List.nodup_append_comm.mp (List.nodup_cons.mpr ⟨new, h.patterns⟩)

theorem registered_unregister : (hub.unregister k id name).Registered k' id' name' ↔
    hub.Registered k' id' name' ∧ ¬(k' = k ∧ id' = id ∧ name' = name) := by
  cases k with
  | channel =>
    cases k' with
    | channel =>
      simp only [true_and, and_comm (a := id' = id)]
      exact Multimap.lists_remove
    | pattern => simp [unregister, unsubscribe, Registered]
  | pattern =>
    cases k' with
    | channel => simp [unregister, pUnsubscribe, Registered]
    | pattern =>
      simp only [unregister, pUnsubscribe, Registered, List.mem_filter, Bool.not_eq_true',
        Bool.and_eq_false_imp, decide_eq_true_eq, decide_eq_false_iff_not, true_and]
      tauto

theorem Wf.unregister (h : hub.Wf) (k : SubscriptionKind) (id : ℕ) (name : String) :
    (hub.unregister k id name).Wf := by
  cases k with
  | channel => exact ⟨h.channels.remove name id, h.patterns⟩
  | pattern => exact ⟨h.channels, h.patterns.filter _⟩

theorem registered_unsubscribeAll : (hub.unsubscribeAll id).Registered k id' name ↔
    hub.Registered k id' name ∧ id' ≠ id := by
  cases k with
  | channel => exact Multimap.lists_removeAll
  | pattern => simp [unsubscribeAll, Registered]

theorem Wf.unsubscribeAll (h : hub.Wf) (id : ℕ) : (hub.unsubscribeAll id).Wf :=
  ⟨h.channels.removeAll id, h.patterns.filter _⟩

/-! ## Messages -/

-- the size of a queued delivery apart from its texts
variable (itemBytes : ℕ)

/-- The deliveries are within the bounds of a queue. -/
def Fits (queue : List PubSubMsg) : Prop :=
  (queue.map fun m => m.bytes + itemBytes).sum ≤ pubSubQueueBytes ∧ queue.length ≤ pubSubQueueItems

/-- The messages for a connection. -/
def addressed (sends : List (ℕ × PubSubMsg)) (id : ℕ) : List PubSubMsg :=
  (sends.filter fun e => e.1 = id).map Prod.snd

/-- The hub after messages have been queued. -/
def delivered (sends : List (ℕ × PubSubMsg)) (hub : PubSubHub) : PubSubHub :=
  { hub with
    queues := fun id => { hub.queues id with queue := (hub.queues id).queue ++ addressed sends id } }

/-- What a publication sends. -/
def sends (channel : String) (message : Bytes) (hub : PubSubHub) : List (ℕ × PubSubMsg) :=
  (Multimap.holders channel hub.channelSubs).map (fun id => (id, .message channel message)) ++
    (hub.patternSubs.filter fun e => globMatch e.1 channel).map
      fun e => (e.2, .pMessage e.1 channel message)

variable {itemBytes} {sends' : List (ℕ × PubSubMsg)}

theorem addressed_cons (id' : ℕ) (m : PubSubMsg) (sends : List (ℕ × PubSubMsg)) (id : ℕ) :
    addressed ((id', m) :: sends) id = if id' = id then m :: addressed sends id else addressed sends id := by
  unfold addressed
  rw [List.filter_cons]
  simp only [decide_eq_true_eq]
  split_ifs
  · rfl
  · rfl

theorem addressed_append (sends sends' : List (ℕ × PubSubMsg)) (id : ℕ) :
    addressed (sends ++ sends') id = addressed sends id ++ addressed sends' id := by
  simp [addressed]

theorem Fits.of_append {queue more : List PubSubMsg} (h : Fits itemBytes (queue ++ more)) :
    Fits itemBytes queue := by
  obtain ⟨bytes, items⟩ := h
  rw [List.map_append, List.sum_append] at bytes
  rw [List.length_append] at items
  exact ⟨by omega, by omega⟩

theorem Fits.perm {queue queue' : List PubSubMsg} (h : Fits itemBytes queue)
    (same : queue.Perm queue') : Fits itemBytes queue' :=
  ⟨(same.map fun m => m.bytes + itemBytes).sum_eq ▸ h.1, same.length_eq ▸ h.2⟩

theorem send_of_fits {m : PubSubMsg} (room : Fits itemBytes ((hub.queues id).queue ++ [m])) :
    hub.send itemBytes id m = (true, hub.delivered [(id, m)]) := by
  have fits : ((hub.queues id).queue.map fun m => m.bytes + itemBytes).sum + (m.bytes + itemBytes) ≤
      pubSubQueueBytes ∧ (hub.queues id).queue.length < pubSubQueueItems := by
    obtain ⟨bytes, items⟩ := room
    rw [List.map_append, List.sum_append, List.map_singleton, List.sum_singleton] at bytes
    rw [List.length_append, List.length_singleton] at items
    exact ⟨bytes, items⟩
  unfold send
  rw [if_pos fits]
  refine congrArg (Prod.mk true) (congrArg (fun queues => { hub with queues }) ?_)
  funext other
  by_cases same : other = id
  · subst same
    simp [addressed]
  · rw [Function.update_of_ne same]
    simp [addressed, Ne.symm same]

theorem delivered_delivered (sends sends' : List (ℕ × PubSubMsg)) :
    (hub.delivered sends).delivered sends' = hub.delivered (sends ++ sends') := by
  simp only [delivered, addressed_append, List.append_assoc]

@[simp] theorem delivered_nil : hub.delivered [] = hub := by
  simp [delivered, addressed]

/-- Room for messages is room for the first and then for the others. -/
theorem room_cons {e : ℕ × PubSubMsg} {sends : List (ℕ × PubSubMsg)}
    (room : ∀ id, Fits itemBytes ((hub.queues id).queue ++ addressed (e :: sends) id)) :
    Fits itemBytes ((hub.queues e.1).queue ++ [e.2]) ∧
      ∀ id, Fits itemBytes (((hub.delivered [e]).queues id).queue ++ addressed sends id) := by
  constructor
  · have first := room e.1
    rw [addressed_cons, if_pos rfl, ← List.singleton_append, ← List.append_assoc] at first
    exact first.of_append
  · intro id
    have both := room id
    rw [← List.singleton_append, addressed_append, ← List.append_assoc] at both
    exact both

theorem sendEach_of_fits {m : PubSubMsg} {ids : List ℕ}
    (room : ∀ id, Fits itemBytes ((hub.queues id).queue ++ addressed (ids.map fun id => (id, m)) id)) :
    hub.sendEach itemBytes m ids = (ids, hub.delivered (ids.map fun id => (id, m))) := by
  induction ids generalizing hub with
  | nil => simp [sendEach]
  | cons id ids ih =>
    rw [List.map_cons] at room
    obtain ⟨first, others⟩ := room_cons room
    rw [sendEach, send_of_fits first]
    simp only [ih others, if_true, delivered_delivered, List.singleton_append, List.map_cons]

theorem sendPatterns_of_fits {channel : String} {message : Bytes} {subs : List (String × ℕ)}
    (room : ∀ id, Fits itemBytes ((hub.queues id).queue ++
      addressed (subs.map fun e => (e.2, .pMessage e.1 channel message)) id)) :
    hub.sendPatterns itemBytes channel message subs =
      (subs.length, hub.delivered (subs.map fun e => (e.2, .pMessage e.1 channel message))) := by
  induction subs generalizing hub with
  | nil => simp [sendPatterns]
  | cons sub subs ih =>
    obtain ⟨pattern, id⟩ := sub
    rw [List.map_cons] at room
    obtain ⟨first, others⟩ := room_cons room
    rw [sendPatterns, send_of_fits first]
    simp only [ih others, if_true, delivered_delivered, List.singleton_append, List.map_cons,
      List.length_cons]

theorem publish_eq (channel : String) (message : Bytes) : hub.publish itemBytes channel message =
    let direct := hub.sendEach itemBytes (.message channel message)
      (Multimap.holders channel hub.channelSubs)
    let patterns := PubSubHub.sendPatterns itemBytes channel message
      (direct.2.patternSubs.filter fun e => globMatch e.1 channel)
      { direct.2 with channelSubs := Multimap.keep channel direct.1 direct.2.channelSubs }
    (direct.1.length + patterns.1, patterns.2) := rfl

/-- A publication for which every queue has room sends one message for each registration that matches and
counts them; the tables stay. -/
theorem publish_of_fits (h : hub.Wf) {channel : String} {message : Bytes}
    (room : ∀ id, Fits itemBytes ((hub.queues id).queue ++ addressed (hub.sends channel message) id)) :
    hub.publish itemBytes channel message =
      ((hub.sends channel message).length, hub.delivered (hub.sends channel message)) := by
  have split : ∀ id, Fits itemBytes ((hub.queues id).queue ++
      addressed ((Multimap.holders channel hub.channelSubs).map
        fun id => (id, .message channel message)) id ++
      addressed ((hub.patternSubs.filter fun e => globMatch e.1 channel).map
        fun e => (e.2, .pMessage e.1 channel message)) id) := by
    intro id
    have all := room id
    rwa [sends, addressed_append, ← List.append_assoc] at all
  have direct := sendEach_of_fits fun id => (split id).of_append
  have patterns := @sendPatterns_of_fits (hub.delivered
    ((Multimap.holders channel hub.channelSubs).map fun id => (id, .message channel message))) itemBytes
    channel message _ split
  have table : Multimap.keep channel (Multimap.holders channel hub.channelSubs) hub.channelSubs =
    hub.channelSubs := Multimap.keep_holders h.channels channel
  rw [publish_eq, direct]
  dsimp only [delivered] at patterns ⊢
  rw [table, patterns]
  refine Prod.ext ?_ ?_
  · simp [sends]
  · exact delivered_delivered _ _

/-- What a connection is owed of a publication: one message if it subscribes to the channel, and one for
each of its patterns that matches. -/
def owed (channel : String) (message : Bytes) (channels patterns : List String) : List PubSubMsg :=
  (channels.filter fun c => c = channel).map (fun c => .message c message) ++
    (patterns.filter fun p => globMatch p channel).map fun p => .pMessage p channel message

/-- A connection whose registrations are its subscriptions is sent what it is owed. -/
theorem addressed_sends (h : hub.Wf) {channels patterns : List String}
    (direct : ∀ name, hub.Registered .channel id name ↔ name ∈ channels) (distinct : channels.Nodup)
    (matching : ∀ name, hub.Registered .pattern id name ↔ name ∈ patterns) (distinct' : patterns.Nodup)
    (channel : String) (message : Bytes) :
    (addressed (hub.sends channel message) id).Perm (owed channel message channels patterns) := by
  rw [sends, addressed_append, owed]
  refine List.Perm.append (List.Perm.of_eq ?_) ?_
  · have once : (Multimap.holders channel hub.channelSubs).count id = channels.count channel := by
      rw [(Multimap.nodup_holders h.channels channel).count, distinct.count]
      exact if_congr ((Multimap.mem_holders h.channels).trans (direct channel)) rfl rfl
    simp only [addressed, List.filter_map, Function.comp_def, List.filter_eq, once,
      List.map_replicate]
  · have names : (((hub.patternSubs.filter fun e => globMatch e.1 channel).filter
        fun e => e.2 = id).map Prod.fst).Perm (patterns.filter fun p => globMatch p channel) := by
      refine (List.perm_ext_iff_of_nodup ?_ (distinct'.filter _)).mpr fun name => ?_
      · refine ((h.patterns.filter _).filter _).map_on fun e mem e' mem' same => ?_
        have own := of_decide_eq_true (List.mem_filter.mp mem).2
        have own' := of_decide_eq_true (List.mem_filter.mp mem').2
        exact Prod.ext same (own.trans own'.symm)
      · rw [List.mem_filter, ← matching name, List.mem_map]
        constructor
        · rintro ⟨e, mem, rfl⟩
          obtain ⟨mem, own⟩ := List.mem_filter.mp mem
          obtain ⟨mem, glob⟩ := List.mem_filter.mp mem
          exact ⟨(of_decide_eq_true own) ▸ mem, glob⟩
        · rintro ⟨mem, glob⟩
          refine ⟨(name, id), List.mem_filter.mpr ⟨List.mem_filter.mpr ⟨mem, glob⟩, ?_⟩, rfl⟩
          exact decide_eq_true rfl
    have messages := names.map fun p => PubSubMsg.pMessage p channel message
    simpa [addressed, List.filter_map, Function.comp_def] using messages

theorem registered_of_mem_sends (h : hub.Wf) {channel : String} {message : Bytes} {e : ℕ × PubSubMsg}
    (mem : e ∈ hub.sends channel message) : ∃ k name, hub.Registered k e.1 name := by
  rcases List.mem_append.mp mem with direct | matching
  · obtain ⟨id, holds, rfl⟩ := List.mem_map.mp direct
    exact ⟨.channel, channel, (Multimap.mem_holders h.channels).mp holds⟩
  · obtain ⟨sub, subscribed, rfl⟩ := List.mem_map.mp matching
    exact ⟨.pattern, sub.1, List.mem_of_mem_filter subscribed⟩

/-- Every message is for one connection. -/
theorem length_eq_sum_addressed {n : ℕ} {sends : List (ℕ × PubSubMsg)} (within : ∀ e ∈ sends, e.1 < n) :
    sends.length = ∑ id ∈ Finset.range n, (addressed sends id).length := by
  induction sends with
  | nil => simp [addressed]
  | cons e sends ih =>
    obtain ⟨first, others⟩ := List.forall_mem_cons.mp within
    have each : ∀ id, (addressed (e :: sends) id).length =
        (addressed sends id).length + if e.1 = id then 1 else 0 := by
      intro id
      rw [addressed_cons]
      split_ifs
      · rfl
      · rfl
    simp only [each, Finset.sum_add_distrib, Finset.sum_ite_eq, Finset.mem_range, first, if_true,
      ← ih others, List.length_cons]

end PubSubHub

end Recached
