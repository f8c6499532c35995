import Recached.ReplWire

/-!
# Bytes from anyone

The replication port may be open and in plain text, so either side may be sent bytes that the other never
wrote.  Whatever they are, and however they come between the others, neither side collects more of them
than a frame with its header, or a request, before it acts on them or gives the connection up.
-/

namespace Recached

open Text Words ExactReads

variable {codec : Codec} {rmp : RmpSerde}

/-- The two nodes, and bytes that someone else sends them. -/
inductive HostileAction where
  | nodes (action : ByteAction)
  | toReplica (bytes : Bytes)
  | toPrimary (bytes : Bytes)

def ByteSystem.hostileStep (codec : Codec) (rmp : RmpSerde) (s : ByteSystem) :
    HostileAction → Option ByteSystem
  | .nodes action => s.step codec rmp action
  | .toReplica bytes => some { s with down := s.down ++ bytes }
  | .toPrimary bytes => some { s with up := s.up ++ bytes }

/-! ## What a reader collects -/

def maxRequestBytes : ℕ := 138

def maxMessageBytes : ℕ := maxReplFrameBytes + 13

/-- A piece whose length was read before, within the limit that was checked. -/
theorem within_piece {α : Type} {limit n : ℕ} (small : ¬limit < n) {next : Bytes → Reader UInt8 α}
    (after : ∀ piece, Within 0 (next piece)) : Within limit (exact n >>= next) :=
  ((within_exact n).bind after).mono (by omega)

theorem within_readRunId : Within 130 readRunId := by
  refine (within_exact 2).bind fun len => .ite (fun _ => within_refuse 128) fun small => ?_
  refine within_piece small fun piece => ?_
  cases fromUtf8 piece with
  | some runId => exact within_pure runId
  | none => exact within_refuse 0

theorem within_readResumeRequest : Within maxRequestBytes readResumeRequest :=
  within_readRunId.bind fun _ => (within_exact 8).bind fun _ => within_pure _

theorem within_readReplFrame : Within (8 + (4 + maxReplFrameBytes)) readReplFrame :=
  (within_exact 8).bind fun _ => (within_exact 4).bind fun _ =>
    .ite (fun _ => within_refuse _) fun small => within_piece small fun _ => within_pure _

theorem within_readSync (rmp : RmpSerde) : Within (1 + (8 + (4 + maxReplFrameBytes))) (readSync rmp) := by
  refine (within_exact 1).bind fun mode => (within_exact 8).bind fun boundary => .ite (fun _ => ?_)
    fun _ => .ite (fun _ => ?_) fun _ => within_refuse _
  · refine (within_exact 4).bind fun len => .ite (fun _ => within_refuse _) fun small => ?_
    refine within_piece small fun piece => ?_
    cases rmp.fromSlice piece with
    | some entries => exact within_pure _
    | none => exact within_refuse 0
  · exact ((within_exact 4).bind fun _ => within_pure _).mono (Nat.le_add_right 4 maxReplFrameBytes)

theorem within_reader (rmp : RmpSerde) (phase : ReplPhase) :
    Within maxMessageBytes (phase.reader rmp) := by
  cases phase with
  | greeting =>
    have hello : Within (4 + (130 + 0)) readHello := (within_exact 4).bind fun _ =>
      .ite (fun _ => within_refuse _) fun _ => within_readRunId.bind fun _ => within_pure _
    exact hello.mono (by decide)
  | waiting name => exact (within_readSync rmp).mono (by decide)
  | catchingUp name boundary remaining => exact within_readReplFrame.mono (by decide)
  | streaming => exact within_readReplFrame.mono (by decide)
  | asleep | connecting | stopped => exact within_refuse _

/-! ## Runs -/

namespace ByteSystem

variable {s s' : ByteSystem}

/-- What either side has collected and not acted on. -/
structure Bounded (s : ByteSystem) : Prop where
  collected : s.collected.length < maxMessageBytes
  asked : s.asked.length ≤ maxRequestBytes
  serving : s.ended = false → s.asked.length < maxRequestBytes

theorem bounded_fresh (system : ReplSystem) : ({ system } : ByteSystem).Bounded :=
  ⟨Nat.succ_pos _, Nat.zero_le _, fun _ => Nat.succ_pos _⟩

theorem Bounded.flush (h : s.Bounded) (system : ReplSystem) : (s.flush rmp system).Bounded := by
  unfold ByteSystem.flush
  cases system.link with
  | none => exact bounded_fresh system
  | some link => exact ⟨h.collected, h.asked, fun going => h.serving (Bool.or_eq_false_iff.mp going).1⟩

theorem Bounded.take (h : s.Bounded) (env : Env) (link : ReplLink) (m : ReplMessage) :
    (s.take codec rmp env link m).Bounded := by
  unfold ByteSystem.take
  split
  · exact ⟨h.collected, h.asked, h.serving⟩
  · exact h.flush _

theorem Bounded.act (h : s.Bounded) {action : ReplAction}
    (next : s.step codec rmp (.act action) = some s') : s'.Bounded := by
  cases action with
  | receive env => cases next
  | serve entries =>
    unfold ByteSystem.step at next
    dsimp only at next
    split_ifs at next
    obtain ⟨system, -, rfl⟩ := Option.map_eq_some_iff.mp next
    exact h.flush system
  | connect =>
    obtain ⟨system, -, rfl⟩ := Option.map_eq_some_iff.mp next
    exact (bounded_fresh s.system).flush system
  | promote =>
    obtain rfl := Option.some.inj next
    exact h.flush _
  | write | offer | restart | wake | refuse | drop | clientWrite =>
    obtain ⟨system, -, rfl⟩ := Option.map_eq_some_iff.mp next
    exact h.flush system

theorem Bounded.read (h : s.Bounded) {env : Env} (next : s.step codec rmp (.read env) = some s') :
    s'.Bounded := by
  obtain ⟨link, -, next⟩ := Option.bind_eq_some_iff.mp next
  cases coming : s.down with
  | nil =>
    rw [coming] at next
    cases next
  | cons b down =>
    rw [coming] at next
    dsimp only at next
    cases read : s.system.node.phase.reader rmp (s.collected ++ [b]) with
    | wants wanted =>
      rw [read] at next
      obtain rfl := Option.some.inj next
      exact ⟨(within_reader rmp _ _).1 wanted read, h.asked, h.serving⟩
    | refused =>
      rw [read] at next
      obtain rfl := Option.some.inj next
      exact bounded_fresh _
    | done m rest =>
      rw [read] at next
      obtain rfl := Option.some.inj next
      have emptied : ({ s with down, collected := [] } : ByteSystem).Bounded :=
        ⟨Nat.succ_pos _, h.asked, h.serving⟩
      exact emptied.take env link m

theorem Bounded.hear (h : s.Bounded) (next : s.step codec rmp .hear = some s') : s'.Bounded := by
  obtain ⟨link, -, next⟩ := Option.bind_eq_some_iff.mp next
  split at next
  · next b up _ serving _ =>
    have one_more : (s.asked ++ [b]).length ≤ maxRequestBytes := by
      rw [List.length_append]
      exact h.serving serving
    cases read : readResumeRequest (s.asked ++ [b]) with
    | wants wanted =>
      rw [read] at next
      obtain rfl := Option.some.inj next
      exact ⟨h.collected, one_more, fun _ => (within_readResumeRequest _).1 wanted read⟩
    | refused =>
      rw [read] at next
      obtain rfl := Option.some.inj next
      exact ⟨h.collected, one_more, fun going => by cases going⟩
    | done request rest =>
      rw [read] at next
      obtain rfl := Option.some.inj next
      exact ⟨h.collected, Nat.zero_le _, fun _ => Nat.succ_pos _⟩
  · cases next

/-- Whatever bytes come to either node, and whoever sends them: at every moment of every run the replica
has collected less than the largest frame and its header, and the primary no more than a request. -/
theorem buffers_bounded {hub : ReplHub} {server : ServerState} {actions : List HostileAction}
    (run : Runs.exec (hostileStep codec rmp) (.start hub server) actions = some s) :
    s.collected.length < maxReplFrameBytes + 13 ∧ s.asked.length ≤ 138 := by
  have bounded : s.Bounded := by
    refine Runs.invariant_of_step (fun s action s' h next => ?_) run (bounded_fresh _)
    cases action with
    | nodes action =>
      cases action with
      | act action => exact h.act next
      | read env => exact h.read next
      | hear => exact @Bounded.hear codec rmp s s' h next
    | toReplica bytes | toPrimary bytes =>
      obtain rfl := Option.some.inj next
      exact ⟨h.collected, h.asked, h.serving⟩
  exact ⟨bounded.collected, bounded.asked⟩

/-- A stranger answers the replica instead of the primary. -/
theorem buffers_bounded_stranger : ∃ s : ByteSystem,
    Runs.exec (hostileStep .literals ⟨fun _ => [], fun _ => none⟩)
      (.start (.fresh "run") { store := {} })
      [.nodes (.act .wake), .nodes (.act .connect), .toReplica [1, 2, 3], .nodes (.read (.fixed 0)),
        .toPrimary [255, 255], .nodes .hear, .nodes .hear] = some s ∧
      s.ended = true ∧ s.collected.length < maxReplFrameBytes + 13 ∧ s.asked.length ≤ 138 := by
  obtain ⟨s, run, ended⟩ : ∃ s, Runs.exec (hostileStep .literals ⟨fun _ => [], fun _ => none⟩)
      (.start (.fresh "run") { store := {} })
      [.nodes (.act .wake), .nodes (.act .connect), .toReplica [1, 2, 3], .nodes (.read (.fixed 0)),
        .toPrimary [255, 255], .nodes .hear, .nodes .hear] = some s ∧ s.ended = true := ⟨_, rfl, rfl⟩
  exact ⟨s, run, ended, buffers_bounded run⟩

end ByteSystem

end Recached
