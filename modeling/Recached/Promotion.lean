import Recached.Stream

/-!
# Promotion

`REPLICAOF NO ONE` only clears the role of the node; the replication client looks at the role before
it connects, and nowhere else.  A node that is promoted while its client sleeps has left the old
primary: from then on its state comes from the writes of its own clients.  A session that is open at
the promotion goes on.
-/

namespace Recached

open Text

/-- The replication client has no session and is about to look at the role. -/
def ReplPhase.idle : ReplPhase → Bool
  | .asleep | .stopped => true
  | _ => false

/-- A promotion comes while the replication client is idle. -/
def ReplAction.QuietPromotion (s : ReplSystem) : ReplAction → Prop
  | .promote => s.node.phase.idle
  | _ => True

/-- The writes of the node's own clients, one after the other. -/
def ownWrites (codec : Codec) (actions : List ReplAction) (server : ServerState) : ServerState :=
  actions.foldl (fun server action => match action with
    | .clientWrite env origin cmd => (server.executeOrderedWrite codec env origin cmd).2
    | _ => server) server

namespace ReplSystem

/-- Promoted, without a session and with a client that will not connect again. -/
structure Independent (s : ReplSystem) : Prop where
  promoted : s.node.isReplica = false
  idle : s.node.phase.idle
  alone : s.link = none

variable {codec : Codec} {s s' : ReplSystem}

theorem Sound.alone (h : s.Sound) (idle : s.node.phase.idle) : s.link = none := by
  rw [← Option.not_isSome_iff_eq_none, h.attached]
  cases phase : s.node.phase with
  | asleep => simp [ReplPhase.inSession]
  | stopped => simp [ReplPhase.inSession]
  | _ => simp [phase, ReplPhase.idle] at idle

theorem Independent.step {action : ReplAction} (h : s.Independent)
    (next : s.step codec action = some s') :
    s'.Independent ∧ s'.node.server = ownWrites codec [action] s.node.server := by
  obtain ⟨promoted, idle, alone⟩ := h
  cases action with
  | write bytes =>
    simp only [ReplSystem.step] at next
    split_ifs at next
    · exact Option.some.inj next ▸ ⟨⟨promoted, idle, alone⟩, rfl⟩
    · exact Option.some.inj next ▸ ⟨⟨promoted, idle, alone⟩, rfl⟩
  | offer =>
    obtain ⟨f, unqueued, rfl⟩ := Option.map_eq_some_iff.mp next
    exact ⟨⟨promoted, idle, by simp [alone]⟩, rfl⟩
  | restart name backlogBytes =>
    simp only [ReplSystem.step] at next
    split_ifs at next
    exact Option.some.inj next ▸ ⟨⟨promoted, idle, alone⟩, rfl⟩
  | serve entries => simp [ReplSystem.step, alone] at next
  | wake =>
    simp only [ReplSystem.step, promoted, Bool.false_eq_true, if_false] at next
    split_ifs at next
    exact Option.some.inj next ▸ ⟨⟨rfl, rfl, alone⟩, rfl⟩
  | connect =>
    simp only [ReplSystem.step] at next
    split_ifs at next with connecting
    rw [connecting] at idle
    cases idle
  | refuse =>
    simp only [ReplSystem.step] at next
    split_ifs at next with connecting
    rw [connecting] at idle
    cases idle
  | receive env => simp [ReplSystem.step, alone] at next
  | drop => simp [ReplSystem.step, alone] at next
  | promote => exact Option.some.inj next ▸ ⟨⟨rfl, idle, alone⟩, rfl⟩
  | clientWrite env origin cmd =>
    simp only [ReplSystem.step, promoted] at next
    exact Option.some.inj next ▸ ⟨⟨rfl, idle, alone⟩, rfl⟩

theorem Independent.run {actions : List ReplAction} (h : s.Independent)
    (run : Runs.exec (ReplSystem.step codec) s actions = some s') :
    s'.node.server = ownWrites codec actions s.node.server := by
  induction actions generalizing s with
  | nil => exact Option.some.inj run ▸ rfl
  | cons action actions ih =>
    obtain ⟨s₁, next, rest⟩ := Runs.exec_cons.mp run
    obtain ⟨independent, server⟩ := h.step next
    rw [ih independent rest, server]
    rfl

end ReplSystem

/-- In every run whose promotions come while the replication client is idle, the state of a promoted
node is its state at the promotion and the writes of its own clients since. -/
theorem promoted_state_is_own {codec : Codec} {hub : ReplHub} {server : ServerState}
    {before after : List ReplAction} {s' : ReplSystem} (named : hub.runId ≠ "")
    (run : Runs.exec (ReplSystem.step codec) (.start hub server) (before ++ .promote :: after) =
      some s')
    (quiet : Runs.Each (ReplSystem.step codec) ReplAction.QuietPromotion (.start hub server)
      (before ++ .promote :: after)) :
    ∃ s, Runs.exec (ReplSystem.step codec) (.start hub server) before = some s ∧
      s'.node.server = ownWrites codec after s.node.server := by
  obtain ⟨s, first, rest⟩ := Runs.exec_append.mp run
  obtain ⟨s₁, promotion, rest⟩ := Runs.exec_cons.mp rest
  obtain rfl := Option.some.inj promotion
  have idle := ((Runs.each_append first).mp quiet).2.1
  have independent : ReplSystem.Independent { s with node := { s.node with isReplica := false } } :=
    ⟨rfl, idle, (ReplSystem.sound_of_run named first).alone idle⟩
  exact ⟨s, first, independent.run rest⟩

theorem promoted_state_is_own_refused :
    ∃ s s' : ReplSystem, s'.node.isReplica = false ∧
      Runs.exec (ReplSystem.step .literals) (.start (.fresh "run") { store := {} })
        [.wake, .refuse] = some s ∧
      s'.node.server =
        ownWrites .literals [.clientWrite (.fixed 0) 7 (.set "k" [118] {})] s.node.server := by
  obtain ⟨s', run, promoted⟩ : ∃ s' : ReplSystem, Runs.exec (ReplSystem.step .literals)
      (.start (.fresh "run") { store := {} })
      ([.wake, .refuse] ++ .promote :: [.clientWrite (.fixed 0) 7 (.set "k" [118] {})]) = some s' ∧
        s'.node.isReplica = false := ⟨_, rfl, rfl⟩
  have quiet : Runs.Each (ReplSystem.step .literals) ReplAction.QuietPromotion
      (.start (.fresh "run") { store := {} })
      ([.wake, .refuse] ++ .promote :: [.clientWrite (.fixed 0) 7 (.set "k" [118] {})]) := by
    refine ⟨trivial, fun s₁ wake => ⟨trivial, fun s₂ refuse => ?_⟩⟩
    obtain rfl := Option.some.inj wake
    obtain rfl := Option.some.inj refuse
    exact ⟨rfl, fun _ _ => ⟨trivial, fun _ _ => trivial⟩⟩
  obtain ⟨s, first, own⟩ := promoted_state_is_own (by decide) run quiet
  exact ⟨s, s', promoted, first, own⟩

/-- A replica promoted while it streams still takes the next frame of the old primary, and loses the
write it has acknowledged. -/
theorem promotion_overwritten :
    ∃ s s', Runs.exec (ReplSystem.step .literals) (.start (.fresh "run") { store := {} })
        ReplAction.firstSync = some s ∧
      Runs.exec (ReplSystem.step .literals) s (.promote ::
        .clientWrite (.fixed 0) 7 (.set "k" [118] {}) ::
        ReplAction.nextFrame (respPush [asBytes "FLUSHDB"])) = some s' ∧
      s'.node.isReplica = false ∧ s'.node.server.log.length = 2 ∧
      (s'.node.server.store.live 0 "k").isSome = false ∧
      (ownWrites .literals (.clientWrite (.fixed 0) 7 (.set "k" [118] {}) ::
        ReplAction.nextFrame (respPush [asBytes "FLUSHDB"])) s.node.server).log.length = 1 ∧
      ((ownWrites .literals (.clientWrite (.fixed 0) 7 (.set "k" [118] {}) ::
        ReplAction.nextFrame (respPush [asBytes "FLUSHDB"])) s.node.server).store.live 0
          "k").isSome = true :=
  ⟨_, _, rfl, rfl, rfl, rfl, rfl, rfl, rfl⟩

end Recached
