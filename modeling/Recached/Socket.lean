import Recached.ByteStream

/-!
# A run of bytes is a run of messages

The system with bytes between the nodes and the one with messages, side by side.
-/

namespace Recached

open Text Words ExactReads

variable {rmp : RmpSerde} {codec : Codec}

/-- The step of the two nodes that a step on the bytes may come to. -/
def ByteAction.asMessage : ByteAction → Option ReplAction
  | .act action => some action
  | .read env => some (.receive env)
  | .hear => none

def ByteAction.Fits (rmp : RmpSerde) (s : ByteSystem) : ByteAction → Prop
  | .act action => action.Fits rmp s.system.hub
  | .read _ | .hear => True

/-- `rmp_serde` on the empty snapshot. -/
def RmpSerde.empty : RmpSerde where
  toVec _ := [144]
  fromSlice bytes := if bytes = [144] then some [] else none

theorem fits_empty {hub : ReplHub} (idle : hub.backlog = []) : (ReplAction.serve []).Fits .empty hub :=
  ⟨by decide, rfl, by rw [idle]; decide⟩

namespace ByteSystem

/-- The service of a connection whose request may still be on its way, and the one that has it. -/
def Asks (s : ByteSystem) (service service' : ReplService) : Prop :=
  s.up = [] ∧ s.asked = [] ∧ service' = service ∨
    service = .awaiting ∧ ∃ request : String × ℕ, service' = .requested request.1 request.2 ∧
      (asBytes request.1).length ≤ 128 ∧ request.2 < 2 ^ 64 ∧
      Pending writeRequest s.asked s.up [request]

structure LinkCarries (rmp : RmpSerde) (s : ByteSystem) (link link' : ReplLink) : Prop where
  runId : link'.runId = link.runId
  wire : link.wire = []
  stream : Pending (ReplMessage.encode rmp) s.collected s.down link'.wire
  service : s.Asks link.service link'.service

/-- The same nodes with messages in place of the bytes between them. -/
structure Carries (rmp : RmpSerde) (s : ByteSystem) (t : ReplSystem) : Prop where
  serving : s.ended = false
  nodes : t = { s.system with link := t.link }
  link : Option.Rel (s.LinkCarries rmp) s.system.link t.link

variable {s s' : ByteSystem} {t : ReplSystem} {system : ReplSystem} {link link' : ReplLink}

theorem flush_some (known : system.link = some link) : s.flush rmp system =
    { s with
      system := { system with link := some { link with wire := [] } }
      down := s.down ++ (writeAll rmp link.wire).1
      ended := s.ended || !(writeAll rmp link.wire).2 } := by
  unfold flush
  rw [known]

theorem flush_none (gone : system.link = none) : s.flush rmp system = { system } := by
  unfold flush
  rw [gone]

/-- A task that sends nothing writes nothing. -/
theorem flush_idle (known : system.link = some link) (idle : link.wire = []) :
    s.flush rmp system = { s with system } := by
  obtain ⟨hub, histories, here, node⟩ := system
  obtain ⟨runId, service, wire⟩ := link
  obtain rfl : wire = [] := idle
  obtain rfl : here = some ⟨runId, service, []⟩ := known
  rw [flush_some rfl, writeAll]
  dsimp only
  rw [List.append_nil, Bool.not_true, Bool.or_false]

/-- A step that leaves the connection alone. -/
theorem Carries.flushed (h : s.Carries rmp t) (same : system.link = s.system.link) :
    (s.flush rmp system).Carries rmp { system with link := t.link } := by
  obtain ⟨serving, -, link⟩ := h
  cases known : s.system.link with
  | none =>
    rw [flush_none (same.trans known)]
    rw [known] at link
    generalize t.link = link' at link
    cases link
    refine ⟨rfl, rfl, ?_⟩
    dsimp only
    rw [same, known]
    exact .none
  | some l =>
    rw [known] at link
    generalize t.link = link' at link
    cases link with
    | some carries =>
      rw [flush_idle (same.trans known) carries.wire]
      refine ⟨serving, rfl, ?_⟩
      dsimp only
      rw [same, known]
      exact .some ⟨carries.runId, carries.wire, carries.stream, carries.service⟩

/-- The actions of the nodes that do not look at the connection. -/
def Apart : ReplAction → Prop
  | .write _ | .restart _ _ | .wake | .refuse | .promote | .clientWrite _ _ _ => True
  | .offer | .serve _ | .connect | .receive _ | .drop => False

theorem step_apart {action : ReplAction} (apart : Apart action) {r r' : ReplSystem}
    (next : r.step codec action = some r') (link : Option ReplLink) :
    r'.link = r.link ∧
      ({ r with link } : ReplSystem).step codec action = some { r' with link } := by
  cases action with
  | offer | serve | connect | receive | drop => cases apart
  | write bytes | restart name bytes | wake | refuse | clientWrite env origin cmd =>
    simp only [ReplSystem.step] at next ⊢
    split_ifs at next ⊢
    all_goals
      obtain rfl := Option.some.inj next
      exact ⟨rfl, rfl⟩
  | promote =>
    obtain rfl := Option.some.inj next
    exact ⟨rfl, rfl⟩

theorem offer_keeps (f : ReplFrame) (link : ReplLink) :
    (link.offer f).runId = link.runId ∧ (link.offer f).wire = link.wire := by
  obtain ⟨runId, service, wire⟩ := link
  cases service <;> exact ⟨rfl, rfl⟩

theorem LinkCarries.offer (h : s.LinkCarries rmp link link') (f : ReplFrame) :
    s.LinkCarries rmp (link.offer f) (link'.offer f) := by
  obtain ⟨runId, service, wire⟩ := link
  obtain ⟨runId', service', wire'⟩ := link'
  obtain ⟨same, quiet, stream, asks⟩ := h
  obtain ⟨up, asked, eq⟩ | ⟨rfl, request, rfl, coming⟩ := asks
  · obtain rfl : runId' = runId := same
    obtain rfl : service' = service := eq
    obtain ⟨runs, wires⟩ := offer_keeps f ⟨runId', service', wire⟩
    obtain ⟨runs', wires'⟩ := offer_keeps f ⟨runId', service', wire'⟩
    refine ⟨runs'.trans runs.symm, wires.trans quiet, wires'.symm ▸ stream, .inl ⟨up, asked, ?_⟩⟩
    cases service' <;> rfl
  · exact ⟨same, quiet, stream, .inr ⟨rfl, request, rfl, coming⟩⟩

/-- The task that serves the replica does the same, whatever is on its way before. -/
theorem handleReplica_wire {hub : ReplHub} {entries : List SnapshotEntry} {runId : String}
    {service : ReplService} {wire : List ReplMessage} {served : ReplLink}
    (next : ReplLink.handleReplica hub entries ⟨runId, service, []⟩ = some served) :
    ReplLink.handleReplica hub entries ⟨runId, service, wire⟩ =
      some { served with wire := wire ++ served.wire } := by
  cases service with
  | awaiting => cases next
  | requested | bounded | loaded =>
    obtain rfl := Option.some.inj next
    exact congrArg some (congrArg _ (List.append_nil wire).symm)
  | collected sync =>
    obtain rfl := Option.some.inj next
    rfl
  | attached handle =>
    obtain ⟨queue, writing, registered, maxQueueBytes, capacity⟩ := handle
    cases writing with
    | some f =>
      obtain rfl := Option.some.inj next
      rfl
    | none =>
      cases queue with
      | nil => cases next
      | cons f queue =>
        obtain rfl := Option.some.inj next
        exact congrArg some (congrArg _ (List.append_nil wire).symm)

/-- The messages beside the bytes: the same nodes, and a connection where there is one. -/
theorem Carries.cases (h : s.Carries rmp t) :
    (s.system.link = none ∧ t = s.system) ∨ ∃ link link', s.system.link = some link ∧
      t = { s.system with link := some link' } ∧ s.LinkCarries rmp link link' := by
  obtain ⟨-, nodes, related⟩ := h
  generalize known : s.system.link = here at related
  generalize t.link = there at nodes related
  cases related with
  | none =>
    refine .inl ⟨rfl, nodes.trans ?_⟩
    rw [← known]
  | @some link link' carries => exact .inr ⟨link, link', rfl, nodes, carries⟩

/-- A connection that is gone has taken its bytes with it. -/
theorem carries_closed {system : ReplSystem} (gone : system.link = none) :
    ({ system } : ByteSystem).Carries rmp system :=
  ⟨rfl, rfl, by rw [gone]; exact .none⟩

/-- Bytes in front of other bytes carry messages in front of other messages. -/
theorem LinkCarries.sent (carries : s.LinkCarries rmp link link') {ms : List ReplMessage}
    (fits : ∀ m ∈ ms, m.Fits rmp) : Pending (ReplMessage.encode rmp) s.collected
      (s.down ++ (writeAll rmp ms).1) (link'.wire ++ ms) := by
  rw [writeAll_eq fits]
  exact carries.stream.append fun m mem => (fits m mem).encode_ne_nil

theorem Carries.offered (h : s.Carries rmp t)
    (stepped : s.system.step codec .offer = some system) :
    ∃ t', t.step codec .offer = some t' ∧ (s.flush rmp system).Carries rmp t' := by
  obtain ⟨f, unqueued, rfl⟩ := Option.map_eq_some_iff.mp stepped
  obtain ⟨gone, rfl⟩ | ⟨link, link', known, rfl, carries⟩ := h.cases
  · refine ⟨_, stepped, ?_⟩
    have gone' : s.system.link.map _ = none := congrArg (Option.map fun link =>
      if link.runId = s.system.hub.runId then link.offer f else link) gone
    rw [flush_none gone']
    exact carries_closed gone'
  · refine ⟨_, congrArg (Option.map _) unqueued, ?_⟩
    dsimp only
    rw [known, Option.map_some, Option.map_some, carries.runId]
    have offered : s.LinkCarries rmp
        (if link.runId = s.system.hub.runId then link.offer f else link)
        (if link.runId = s.system.hub.runId then link'.offer f else link') := by
      split_ifs
      · exact carries.offer f
      · exact carries
    rw [flush_idle rfl offered.wire]
    exact ⟨h.serving, rfl, .some ⟨offered.runId, offered.wire, offered.stream, offered.service⟩⟩

theorem Carries.served (h : s.Carries rmp t) (orderly : t.Orderly rmp) {entries : List SnapshotEntry}
    (fits : (ReplAction.serve entries).Fits rmp s.system.hub)
    (stepped : s.system.step codec (.serve entries) = some system) :
    ∃ t', t.step codec (.serve entries) = some t' ∧ (s.flush rmp system).Carries rmp t' := by
  obtain ⟨link, known, next⟩ := Option.bind_eq_some_iff.mp stepped
  obtain ⟨gone, -⟩ | ⟨link₁, link', known₁, rfl, carries⟩ := h.cases
  · cases gone.symm.trans known
  obtain rfl := Option.some.inj (known.symm.trans known₁)
  split_ifs at next with same
  obtain ⟨served, handled, rfl⟩ := Option.map_eq_some_iff.mp next
  obtain ⟨runId, service, wire⟩ := link
  obtain rfl : wire = [] := carries.wire
  obtain ⟨runId', service', wire'⟩ := link'
  obtain rfl : runId' = runId := carries.runId
  obtain ⟨up, asked, eq⟩ | ⟨eq, -⟩ := carries.service
  · obtain rfl : service' = service := eq
    have handled' := @handleReplica_wire s.system.hub entries runId' service' wire' served handled
    have onward := (orderly.link _ rfl).handleReplica orderly.hub fits handled'
    refine ⟨{ s.system with link := some { served with wire := wire' ++ served.wire } }, ?_, ?_⟩
    · rw [ReplSystem.step]
      dsimp only
      rw [Option.bind_some, if_pos same, handled']
      rfl
    · have written : ∀ m ∈ served.wire, m.Fits rmp :=
        fun m mem => onward.wire m (List.mem_append_right wire' mem)
      rw [flush_some rfl]
      refine ⟨?_, rfl, .some ⟨rfl, rfl, carries.sent written, .inl ⟨up, asked, rfl⟩⟩⟩
      dsimp only
      rw [h.serving, writeAll_eq written]
      rfl
  · obtain rfl : service = .awaiting := eq
    cases handled

/-- An action of the nodes does on the bytes what it does on the messages. -/
theorem Carries.act (h : s.Carries rmp t) (orderly : t.Orderly rmp) {action : ReplAction}
    (fits : action.Fits rmp s.system.hub) (next : s.step codec rmp (.act action) = some s') :
    ∃ t', t.step codec action = some t' ∧ s'.Carries rmp t' := by
  by_cases apart : Apart action
  · have mapped : (s.system.step codec action).map (s.flush rmp) = some s' := by
      cases action with
      | offer | serve | connect | receive | drop => cases apart
      | write | restart | wake | refuse | promote | clientWrite => exact next
    obtain ⟨system, stepped, rfl⟩ := Option.map_eq_some_iff.mp mapped
    obtain ⟨same, stepped'⟩ := step_apart apart stepped t.link
    rw [← h.nodes] at stepped'
    exact ⟨_, stepped', h.flushed same⟩
  cases action with
  | write | restart | wake | refuse | promote | clientWrite => exact absurd trivial apart
  | receive env => cases next
  | offer =>
    obtain ⟨system, stepped, rfl⟩ := Option.map_eq_some_iff.mp next
    exact h.offered stepped
  | serve entries =>
    unfold step at next
    dsimp only at next
    rw [h.serving, if_neg (by decide)] at next
    obtain ⟨system, stepped, rfl⟩ := Option.map_eq_some_iff.mp next
    exact h.served orderly fits stepped
  | connect =>
    obtain ⟨system, stepped, rfl⟩ := Option.map_eq_some_iff.mp next
    refine ⟨system, ?_, ?_⟩
    · rw [h.nodes, ← stepped]
      rfl
    · simp only [ReplSystem.step] at stepped
      split_ifs at stepped
      obtain rfl := Option.some.inj stepped
      have hello : ∀ m ∈ [ReplMessage.hello s.system.hub.runId], m.Fits rmp := by
        intro m mem
        obtain rfl := List.mem_singleton.mp mem
        have short := orderly.hub.runId
        rwa [h.nodes] at short
      rw [flush_some rfl]
      refine ⟨?_, rfl, .some ⟨rfl, rfl, ?_, .inl ⟨rfl, rfl, rfl⟩⟩⟩
      · dsimp only
        rw [writeAll_eq hello]
        rfl
      · dsimp only
        rw [writeAll_eq hello, List.nil_append]
        exact pending_whole fun m mem => (hello m mem).encode_ne_nil
  | drop =>
    obtain ⟨system, stepped, rfl⟩ := Option.map_eq_some_iff.mp next
    simp only [ReplSystem.step] at stepped
    split_ifs at stepped with here
    obtain rfl := Option.some.inj stepped
    refine ⟨_, ?_, carries_closed rfl⟩
    simp only [ReplSystem.step]
    rw [if_pos]
    · rw [h.nodes]
    · obtain ⟨gone, -⟩ | ⟨link, link', known, rfl, -⟩ := h.cases
      · rw [gone] at here
        cases here
      · rfl

theorem take_of_not_greeted {env : Env} {m : ReplMessage}
    (greeted : ∀ runId, ¬(s.system.node.phase = .greeting ∧ m = .hello runId)) :
    s.take codec rmp env link m = s.flush rmp (s.system.handle codec env link m) := by
  unfold take
  cases phase : s.system.node.phase with
  | greeting =>
    cases m with
    | hello runId => exact absurd ⟨phase, rfl⟩ (greeted runId)
    | full | resumed | frame => rfl
  | asleep | connecting | waiting | catchingUp | streaming | stopped => rfl

/-- The replica's request is on its way. -/
theorem Carries.greeted (h : s.Carries rmp t) (orderly : t.Orderly rmp) {env : Env} {name runId : String}
    {service : ReplService} {ms : List ReplMessage} {down : Bytes}
    (known : s.system.link = some link)
    (there : t = { s.system with link := some ⟨runId, service, .hello name :: ms⟩ })
    (carries : s.LinkCarries rmp link ⟨runId, service, .hello name :: ms⟩)
    (greeting : s.system.node.phase = .greeting)
    (rest : Pending (ReplMessage.encode rmp) [] down ms) :
    (({ s with down, collected := [] } : ByteSystem).take codec rmp env link (.hello name)).Carries rmp
      (t.handle codec env ⟨runId, service, ms⟩ (.hello name)) := by
  subst there
  obtain ⟨inStep, wires, -⟩ := orderly.link _ rfl
  have short : (asBytes name).length ≤ 128 := wires _ List.mem_cons_self
  dsimp only at inStep
  rw [greeting] at inStep
  obtain ⟨rfl, rfl⟩ : service = .awaiting ∧ ms = [] := by
    generalize wire : ReplMessage.hello name :: ms = all at inStep
    cases inStep with
    | greeting => exact ⟨rfl, (List.cons.inj wire).2⟩
    | following follows => cases follows
  obtain ⟨up, asked, awaiting⟩ | ⟨-, request, requested, -⟩ := carries.service
  · unfold take ReplSystem.handle
    dsimp only
    rw [greeting]
    refine ⟨h.serving, rfl, ?_⟩
    dsimp only
    rw [known]
    refine .some ⟨carries.runId, carries.wire, rest, .inr ⟨awaiting.symm,
      (if s.system.node.resume.runId = name then name else "", s.system.node.resume.offset), rfl, ?_,
      orderly.resume, ?_⟩⟩
    · split_ifs
      · exact short
      · exact Nat.zero_le _
    · rw [up, asked, List.nil_append, ← List.append_nil (writeRequest _)]
      refine @pending_whole _ _ writeRequest [_] ?_
      intro request mem none
      obtain rfl := List.mem_singleton.mp mem
      cases (List.append_eq_nil_iff.mp none).1
  · cases requested

/-- A byte that the replica reads changes nothing among the messages, or completes the first of them. -/
theorem Carries.read (h : s.Carries rmp t) (orderly : t.Orderly rmp) {env : Env}
    (next : s.step codec rmp (.read env) = some s') :
    (s'.Carries rmp t ∧ s'.down.length < s.down.length) ∨
      ∃ t', t.step codec (.receive env) = some t' ∧ s'.Carries rmp t' := by
  obtain ⟨link, known, next⟩ := Option.bind_eq_some_iff.mp next
  obtain ⟨gone, -⟩ | ⟨link₁, link', known₁, there, carries⟩ := h.cases
  · cases gone.symm.trans known
  obtain rfl := Option.some.inj (known.symm.trans known₁)
  obtain ⟨runId, service, wire⟩ := link'
  have stream := carries.stream
  cases coming : s.down with
  | nil =>
    rw [coming] at next
    cases next
  | cons b down =>
    rw [coming] at next stream
    cases wire with
    | nil => cases stream.2
    | cons m ms =>
      have orderly' : ReplLink.Orderly rmp s.system.node.phase ⟨runId, service, m :: ms⟩ := by
        subst there
        exact orderly.link _ rfl
      have fits := orderly'.wire m List.mem_cons_self
      have rest : ∀ m' ∈ ms, m'.encode rmp ≠ [] :=
        fun m' mem => (orderly'.wire m' (List.mem_cons_of_mem m mem)).encode_ne_nil
      dsimp only at next
      obtain ⟨size, wants, pending⟩ | ⟨done, pending⟩ :=
        Pending.next rest (steady_reader rmp _) (orderly'.inStep.reads fits) stream
      · rw [wants] at next
        obtain rfl := Option.some.inj next
        refine .inl ⟨⟨h.serving, h.nodes, ?_⟩, Nat.lt_succ_self _⟩
        subst there
        dsimp only
        rw [known]
        exact .some ⟨carries.runId, carries.wire, pending, carries.service⟩
      · rw [done] at next
        obtain rfl := Option.some.inj next
        refine .inr ⟨t.handle codec env ⟨runId, service, ms⟩ m, ?_, ?_⟩
        · subst there
          rfl
        by_cases greeted : ∃ name, s.system.node.phase = .greeting ∧ m = .hello name
        · obtain ⟨name, greeting, rfl⟩ := greeted
          exact h.greeted orderly known there carries greeting pending
        · rw [take_of_not_greeted (s := { s with down, collected := [] })
            fun name both => greeted ⟨name, both⟩]
          obtain ⟨⟨done, node⟩, proceeds⟩ := handle_proceeds codec env s.system.node m
            fun name both => greeted ⟨name, both⟩
          rw [proceeds s.system link rfl, proceeds t _ (by rw [there])]
          subst there
          cases done with
          | false =>
            rw [flush_none rfl]
            exact carries_closed rfl
          | true =>
            rw [flush_idle rfl carries.wire]
            exact ⟨h.serving, rfl, .some ⟨carries.runId, carries.wire, pending, carries.service⟩⟩

/-- A byte that the primary reads completes the request, or changes nothing. -/
theorem Carries.hear (h : s.Carries rmp t) (next : s.step codec rmp .hear = some s') :
    s'.Carries rmp t ∧ s'.up.length < s.up.length := by
  obtain ⟨link, known, next⟩ := Option.bind_eq_some_iff.mp next
  obtain ⟨gone, -⟩ | ⟨link₁, link', known₁, there, carries⟩ := h.cases
  · cases gone.symm.trans known
  obtain rfl := Option.some.inj (known.symm.trans known₁)
  obtain ⟨runId, service, wire⟩ := link
  cases coming : s.up with
  | nil =>
    rw [coming, h.serving] at next
    cases service <;> cases next
  | cons b up =>
    obtain ⟨none, -⟩ | ⟨awaiting, request, requested, short, fits, pending⟩ := carries.service
    · cases coming.symm.trans none
    · obtain rfl : service = .awaiting := awaiting
      rw [coming] at next pending
      rw [h.serving] at next
      dsimp only at next
      obtain ⟨size, wants, pending⟩ | ⟨done, pending⟩ := Pending.next
        (fun m mem => absurd mem List.not_mem_nil) steady_readResumeRequest (reads_request short fits) pending
      · rw [wants] at next
        obtain rfl := Option.some.inj next
        refine ⟨⟨rfl, h.nodes, ?_⟩, Nat.lt_succ_self _⟩
        subst there
        dsimp only
        rw [known]
        exact .some ⟨carries.runId, carries.wire, carries.stream,
          .inr ⟨rfl, request, requested, short, fits, pending⟩⟩
      · rw [done] at next
        obtain rfl := Option.some.inj next
        subst there
        exact ⟨⟨rfl, rfl, .some ⟨carries.runId, carries.wire, carries.stream,
          .inl ⟨pending.2, rfl, requested⟩⟩⟩, Nat.lt_succ_self _⟩

theorem Carries.step (h : s.Carries rmp t) (orderly : t.Orderly rmp) {action : ByteAction}
    (fits : action.Fits rmp s) (next : s.step codec rmp action = some s') : s'.Carries rmp t ∨
      ∃ b t', action.asMessage = some b ∧ t.step codec b = some t' ∧ s'.Carries rmp t' := by
  cases action with
  | act action =>
    obtain ⟨t', stepped, carries⟩ := h.act orderly fits next
    exact .inr ⟨action, t', rfl, stepped, carries⟩
  | read env =>
    obtain ⟨carries, -⟩ | ⟨t', stepped, carries⟩ := h.read orderly next
    · exact .inl carries
    · exact .inr ⟨_, t', rfl, stepped, carries⟩
  | hear => exact .inl (h.hear next).1

/-- A step on the bytes is a step on the messages or none, as long as what is sent fits. -/
theorem carries_follows (s : ByteSystem) (t : ReplSystem) (action : ByteAction) (s' : ByteSystem)
    (h : s.Carries rmp t ∧ t.Sound ∧ t.Orderly rmp) (fits : action.Fits rmp s)
    (next : s.step codec rmp action = some s') :
    (s'.Carries rmp t ∧ t.Sound ∧ t.Orderly rmp) ∨ ∃ b t', action.asMessage = some b ∧
      t.step codec b = some t' ∧ s'.Carries rmp t' ∧ t'.Sound ∧ t'.Orderly rmp := by
  obtain ⟨carries, sound, orderly⟩ := h
  obtain same | ⟨b, t', seen, stepped, carries'⟩ := carries.step orderly fits next
  · exact .inl ⟨same, sound, orderly⟩
  · refine .inr ⟨b, t', seen, stepped, carries', sound.step codec stepped, ?_⟩
    refine orderly.step codec sound ?_ stepped
    rw [carries.nodes]
    cases action with
    | act action =>
      obtain rfl := Option.some.inj seen
      exact fits
    | read env =>
      obtain rfl := Option.some.inj seen
      trivial
    | hear => cases seen

/-! ## Every message has its bytes -/

/-- The primary reads the request as it comes. -/
theorem Carries.heard (h : s.Carries rmp t) : ∃ n s',
    Runs.exec (ByteSystem.step codec rmp) s (.replicate n .hear) = some s' ∧ s'.Carries rmp t ∧
      (s'.up = [] ∨ s'.system.link = none) := by
  induction size : s.up.length using Nat.strong_induction_on generalizing s with
  | h size ih =>
    subst size
    cases coming : s.up with
    | nil => exact ⟨0, s, rfl, h, .inl coming⟩
    | cons b up =>
      obtain ⟨gone, -⟩ | ⟨link, link', known, -, carries⟩ := h.cases
      · exact ⟨0, s, rfl, h, .inr gone⟩
      obtain ⟨none, -⟩ | ⟨awaiting, -⟩ := carries.service
      · cases coming.symm.trans none
      obtain ⟨s₁, next⟩ : ∃ s₁, s.step codec rmp .hear = some s₁ := by
        unfold ByteSystem.step
        rw [known, Option.bind_some, awaiting, h.serving, coming]
        dsimp only
        cases readResumeRequest (s.asked ++ [b]) with
        | wants | refused | done => exact ⟨_, rfl⟩
      obtain ⟨carries₁, less⟩ := h.hear next
      obtain ⟨n, s', run, rest⟩ := ih _ less carries₁ rfl
      exact ⟨n + 1, s', Runs.exec_cons.mpr ⟨s₁, next, run⟩, rest⟩

/-- The replica reads the first message on its way. -/
theorem Carries.reads (h : s.Carries rmp t) (orderly : t.Orderly rmp) {env : Env} {t' : ReplSystem}
    (stepped : t.step codec (.receive env) = some t') : ∃ n s',
    Runs.exec (ByteSystem.step codec rmp) s (.replicate n (.read env)) = some s' ∧ s'.Carries rmp t' := by
  induction size : s.down.length using Nat.strong_induction_on generalizing s with
  | h size ih =>
    subst size
    obtain ⟨gone, rfl⟩ | ⟨link, link', known, there, carries⟩ := h.cases
    · rw [ReplSystem.step, gone] at stepped
      cases stepped
    · obtain ⟨runId, service, wire⟩ := link'
      cases wire with
      | nil =>
        rw [there] at stepped
        cases stepped
      | cons m ms =>
        obtain ⟨b, down, coming⟩ := List.exists_cons_of_ne_nil carries.stream.coming_ne_nil
        obtain ⟨s₁, next⟩ : ∃ s₁, s.step codec rmp (.read env) = some s₁ := by
          unfold ByteSystem.step
          rw [known, Option.bind_some, coming]
          dsimp only
          cases s.system.node.phase.reader rmp (s.collected ++ [b]) with
          | wants | refused | done => exact ⟨_, rfl⟩
        obtain ⟨carries₁, less⟩ | ⟨t₁, stepped₁, carries₁⟩ := h.read orderly next
        · obtain ⟨n, s', run, rest⟩ := ih _ less carries₁ rfl
          exact ⟨n + 1, s', Runs.exec_cons.mpr ⟨s₁, next, run⟩, rest⟩
        · obtain rfl := Option.some.inj (stepped.symm.trans stepped₁)
          exact ⟨1, s₁, Runs.exec_cons.mpr ⟨s₁, next, rfl⟩, carries₁⟩

theorem handleReplica_of_wire {hub : ReplHub} {entries : List SnapshotEntry} {runId : String}
    {service : ReplService} {wire : List ReplMessage} {served : ReplLink}
    (next : ReplLink.handleReplica hub entries ⟨runId, service, wire⟩ = some served) :
    ∃ served', ReplLink.handleReplica hub entries ⟨runId, service, []⟩ = some served' := by
  cases service with
  | awaiting => cases next
  | requested | bounded | loaded | collected => exact ⟨_, rfl⟩
  | attached handle =>
    obtain ⟨queue, writing, registered, maxQueueBytes, capacity⟩ := handle
    cases writing with
    | some f => exact ⟨_, rfl⟩
    | none =>
      cases queue with
      | nil => cases next
      | cons f queue => exact ⟨_, rfl⟩

/-- What the nodes can do with messages between them, they can do with bytes between them; to be served,
the request must have come. -/
theorem Carries.enabled (h : s.Carries rmp t) {action : ReplAction} (sent : ∀ env, action ≠ .receive env)
    (heard : s.up = [] ∨ s.system.link = none) {t' : ReplSystem} (stepped : t.step codec action = some t') :
    ∃ s', ByteSystem.step codec rmp s (.act action) = some s' := by
  have nodes : { t with link := s.system.link } = s.system := by rw [h.nodes]
  by_cases apart : Apart action
  · obtain ⟨-, alike⟩ := step_apart apart stepped s.system.link
    rw [nodes] at alike
    cases action with
    | offer | serve | connect | receive | drop => cases apart
    | write | restart | wake | refuse | promote | clientWrite => exact ⟨_, congrArg (Option.map _) alike⟩
  cases action with
  | write | restart | wake | refuse | promote | clientWrite => exact absurd trivial apart
  | receive env => exact absurd rfl (sent env)
  | offer =>
    obtain ⟨f, unqueued, -⟩ := Option.map_eq_some_iff.mp stepped
    rw [h.nodes] at unqueued
    exact ⟨_, congrArg (Option.map _) (congrArg (Option.map _) unqueued)⟩
  | connect =>
    simp only [ReplSystem.step] at stepped
    split_ifs at stepped with connecting
    rw [h.nodes] at connecting
    exact ⟨_, congrArg (Option.map _) (if_pos connecting)⟩
  | drop =>
    simp only [ReplSystem.step] at stepped
    split_ifs at stepped with here
    refine ⟨_, congrArg (Option.map _) (if_pos ?_)⟩
    obtain ⟨gone, rfl⟩ | ⟨link, link', known, -, -⟩ := h.cases
    · exact here
    · rw [known]
      rfl
  | serve entries =>
    obtain ⟨link', there, next⟩ := Option.bind_eq_some_iff.mp stepped
    obtain ⟨gone, rfl⟩ | ⟨link, link₁, known, rfl, carries⟩ := h.cases
    · cases gone.symm.trans there
    obtain rfl := Option.some.inj there
    split_ifs at next with same
    obtain ⟨served, handled, -⟩ := Option.map_eq_some_iff.mp next
    obtain ⟨runId, service, wire⟩ := link
    obtain rfl : wire = [] := carries.wire
    obtain ⟨runId', service', wire'⟩ := link₁
    obtain rfl : runId' = runId := carries.runId
    obtain ⟨-, -, eq⟩ | ⟨-, request, -, -, -, pending⟩ := carries.service
    · obtain rfl : service' = service := eq
      obtain ⟨served', handled'⟩ := handleReplica_of_wire handled
      unfold ByteSystem.step
      dsimp only
      rw [h.serving, if_neg (by decide), ReplSystem.step, known, Option.bind_some]
      dsimp only at same ⊢
      rw [if_pos same, handled']
      exact ⟨_, rfl⟩
    · obtain none | gone := heard
      · exact absurd none pending.coming_ne_nil
      · cases gone.symm.trans known

/-- A step on the messages is a run on the bytes. -/
theorem Carries.answers (h : s.Carries rmp t) (orderly : t.Orderly rmp) {action : ReplAction}
    (fits : action.Fits rmp t.hub) {t' : ReplSystem} (stepped : t.step codec action = some t') :
    ∃ actions s', Runs.exec (ByteSystem.step codec rmp) s actions = some s' ∧
      Runs.Each (ByteSystem.step codec rmp) (fun s a => a.Fits rmp s) s actions ∧ s'.Carries rmp t' := by
  by_cases received : ∃ env, action = .receive env
  · obtain ⟨env, rfl⟩ := received
    obtain ⟨n, s', run, carries⟩ := h.reads orderly stepped
    refine ⟨_, s', run, Runs.each_of_mem fun a mem s => ?_, carries⟩
    obtain rfl := List.eq_of_mem_replicate mem
    trivial
  · obtain ⟨n, s₁, run, carries, ready⟩ := @heard rmp codec s t h
    obtain ⟨s', next⟩ := carries.enabled (fun env eq => received ⟨env, eq⟩) ready stepped
    rw [carries.nodes] at fits
    obtain ⟨t₁, stepped₁, carries'⟩ := carries.act orderly fits next
    obtain rfl := Option.some.inj (stepped.symm.trans stepped₁)
    refine ⟨.replicate n .hear ++ [.act action], s', ?_, ?_, carries'⟩
    · exact Runs.exec_append.mpr ⟨s₁, run, Runs.exec_cons.mpr ⟨s', next, rfl⟩⟩
    · refine (Runs.each_append run).mpr ⟨Runs.each_of_mem fun a mem s => ?_, fits, fun _ _ => trivial⟩
      obtain rfl := List.eq_of_mem_replicate mem
      trivial

/-! ## Runs -/

/-- Every run of the two nodes with bytes between them, on messages that fit, is a run of the two nodes
with messages between them: the bytes on their way are always those of messages that were sent, the first
of them cut off where the replica has read it so far, and the replica acts on whole messages only. -/
theorem bytes_carry_messages {hub : ReplHub} {server : ServerState} {actions : List ByteAction}
    (named : hub.runId ≠ "") (short : (asBytes hub.runId).length ≤ 128)
    (run : Runs.exec (step codec rmp) (.start hub server) actions = some s)
    (fits : Runs.Each (step codec rmp) (fun s a => a.Fits rmp s) (.start hub server) actions) :
    ∃ visible t, visible.Sublist (actions.filterMap ByteAction.asMessage) ∧
      Runs.exec (ReplSystem.step codec) (.start hub server) visible = some t ∧ s.Carries rmp t := by
  have start : (ByteSystem.start hub server).Carries rmp (.start hub server) := carries_closed rfl
  obtain ⟨visible, t, sub, run', carries, -, -⟩ := Runs.stuttering carries_follows run fits
    ⟨start, ReplSystem.sound_start named server, .start short server⟩
  exact ⟨visible, t, sub, run', carries⟩

/-- A replica connects, and reads the greeting while its request comes in. -/
def greets : List ByteAction :=
  [.act .wake, .act .connect] ++ (.replicate 9 (.read (.fixed 0)) ++ .replicate 10 .hear)

/-- The primary sends a snapshot, and the replica reads it. -/
def synchronises : List ByteAction :=
  .replicate 4 (.act (.serve [])) ++ .replicate 14 (.read (.fixed 0))

theorem bytes_carry_messages_sync : ∃ (s : ByteSystem) (visible : List ReplAction) (t : ReplSystem),
    s.system.node.phase = .streaming ∧
      visible.Sublist ((greets ++ synchronises).filterMap ByteAction.asMessage) ∧
      Runs.exec (ReplSystem.step .literals) (.start (.fresh "run") { store := {} }) visible = some t ∧
      s.Carries .empty t := by
  obtain ⟨s, run, streaming⟩ : ∃ s, Runs.exec (step .literals .empty)
      (.start (.fresh "run") { store := {} }) (greets ++ synchronises) = some s ∧
        s.system.node.phase = .streaming := ⟨_, rfl, rfl⟩
  suffices fits : Runs.Each (step .literals .empty) (fun s a => a.Fits .empty s)
      (.start (.fresh "run") { store := {} }) (greets ++ synchronises) by
    obtain ⟨visible, t, carried⟩ := bytes_carry_messages (by decide) (by decide) run fits
    exact ⟨s, visible, t, streaming, carried⟩
  refine (@Runs.each_append _ _ _ _ _ _ _ _ rfl).mpr ⟨Runs.each_of_mem fun a mem s => ?_, ?_⟩
  · rw [greets, List.mem_append, List.mem_append] at mem
    obtain mem | mem | mem := mem
    · obtain rfl | mem := List.mem_cons.mp mem
      · trivial
      · obtain rfl := List.mem_singleton.mp mem
        trivial
    · obtain rfl := List.eq_of_mem_replicate mem
      trivial
    · obtain rfl := List.eq_of_mem_replicate mem
      trivial
  · refine ⟨fits_empty rfl, fun s₁ next => ?_⟩
    obtain rfl := Option.some.inj next
    refine ⟨fits_empty rfl, fun s₁ next => ?_⟩
    obtain rfl := Option.some.inj next
    refine ⟨fits_empty rfl, fun s₁ next => ?_⟩
    obtain rfl := Option.some.inj next
    refine ⟨fits_empty rfl, fun s₁ next => Runs.each_of_mem fun a mem s => ?_⟩
    obtain rfl := List.eq_of_mem_replicate mem
    trivial

/-- Nothing that was sent is held back: every run of the two nodes with messages between them, as long as
these fit, is carried by a run of the two nodes with bytes between them. -/
theorem messages_have_bytes {hub : ReplHub} {server : ServerState} {actions : List ReplAction}
    (named : hub.runId ≠ "") (short : (asBytes hub.runId).length ≤ 128)
    (run : Runs.exec (ReplSystem.step codec) (.start hub server) actions = some t)
    (fits : Runs.Each (ReplSystem.step codec) (fun t a => a.Fits rmp t.hub) (.start hub server) actions) :
    ∃ steps s, Runs.exec (step codec rmp) (.start hub server) steps = some s ∧
      Runs.Each (step codec rmp) (fun s a => a.Fits rmp s) (.start hub server) steps ∧
      s.Carries rmp t := by
  have start : (ByteSystem.start hub server).Carries rmp (.start hub server) := carries_closed rfl
  have sound := ReplSystem.sound_start named server
  have orderly : (ReplSystem.start hub server).Orderly rmp := .start short server
  generalize ByteSystem.start hub server = s at start ⊢
  generalize ReplSystem.start hub server = r at run fits start sound orderly
  induction actions generalizing r s with
  | nil =>
    obtain rfl := Option.some.inj run
    exact ⟨[], s, rfl, trivial, start⟩
  | cons action actions ih =>
    obtain ⟨r₁, next, run⟩ := Runs.exec_cons.mp run
    obtain ⟨steps₁, s₁, run₁, fits₁, carries₁⟩ := start.answers orderly fits.1 next
    obtain ⟨steps, s', run', fits', carries⟩ := ih s₁ r₁ run (fits.2 r₁ next) carries₁
      (sound.step codec next) (orderly.step codec sound fits.1 next)
    exact ⟨steps₁ ++ steps, s', Runs.exec_append.mpr ⟨s₁, run₁, run'⟩,
      (Runs.each_append run₁).mpr ⟨fits₁, fits'⟩, carries⟩

theorem messages_have_bytes_sync : ∃ (t : ReplSystem) (steps : List ByteAction) (s : ByteSystem),
    t.node.phase = .streaming ∧
      Runs.exec (step .literals .empty) (.start (.fresh "run") { store := {} }) steps = some s ∧
      s.Carries .empty t := by
  obtain ⟨t, run, streaming⟩ : ∃ t, Runs.exec (ReplSystem.step .literals)
      (.start (.fresh "run") { store := {} }) ReplAction.firstSync = some t ∧
        t.node.phase = .streaming := ⟨_, rfl, rfl⟩
  suffices fits : Runs.Each (ReplSystem.step .literals) (fun t a => a.Fits .empty t.hub)
      (.start (.fresh "run") { store := {} }) ReplAction.firstSync by
    obtain ⟨steps, s, run', -, carries⟩ := messages_have_bytes (by decide) (by decide) run fits
    exact ⟨t, steps, s, streaming, run', carries⟩
  refine ⟨trivial, fun t₁ next => ?_⟩
  obtain rfl := Option.some.inj next
  refine ⟨trivial, fun t₁ next => ?_⟩
  obtain rfl := Option.some.inj next
  refine ⟨trivial, fun t₁ next => ?_⟩
  obtain rfl := Option.some.inj next
  refine ⟨fits_empty rfl, fun t₁ next => ?_⟩
  obtain rfl := Option.some.inj next
  refine ⟨fits_empty rfl, fun t₁ next => ?_⟩
  obtain rfl := Option.some.inj next
  refine ⟨fits_empty rfl, fun t₁ next => ?_⟩
  obtain rfl := Option.some.inj next
  refine ⟨fits_empty rfl, fun t₁ next => ?_⟩
  obtain rfl := Option.some.inj next
  exact ⟨trivial, fun _ _ => trivial⟩

end ByteSystem

end Recached
