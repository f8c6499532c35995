import Recached.Coverage
import Recached.Errors
import Recached.LateReplay
import Recached.Refusals

/-!
# The log of a server

A server logs the writes of its clients, and a deletion for each key that it evicts for them.  It starts
by executing its log, and only if no frame of the log is refused then.
-/

namespace Recached

open Text Lapse

variable {codec : Codec} {env : Env} {cmd : Command}

/-! ## The frames of a write -/

def deletionFrame (key : String) : Bytes := respPush (Mutation.del [key]).parts

/-- The frames of a write with these victims. -/
def framesOf (cmd : Command) (reply : Value) (now : ℕ) (victims : List String) : List Bytes :=
  (broadcastFor cmd reply now).toList ++ victims.map deletionFrame

theorem applyWriteEffects_log (st : ServerState) (now origin : ℕ) (cmd : Command) (reply : Value) :
    (st.applyWriteEffects now origin cmd reply).log = st.log ++ framesOf cmd reply now [] := by
  unfold ServerState.applyWriteEffects framesOf
  cases broadcastFor cmd reply now <;> simp

theorem applyEvictionEffects_log (st : ServerState) (now origin : ℕ) (victims : List String) :
    (st.applyEvictionEffects now origin victims).log = st.log ++ victims.map deletionFrame := by
  induction victims generalizing st with
  | nil => simp [ServerState.applyEvictionEffects]
  | cons key victims ih =>
    have first := applyWriteEffects_log st now origin (.del [key]) (.integer 1)
    refine (ih (st.applyWriteEffects now origin (.del [key]) (.integer 1))).trans ?_
    rw [first, List.append_assoc]
    rfl

theorem executeQueuedWrite_log (codec : Codec) (env : Env) (origin : ℕ) (cmd : Command)
    (st : ServerState) : (st.executeQueuedWrite codec env origin cmd).log =
      st.log ++ framesOf cmd (executeReporting codec env cmd st.store).1 env.now
        (executeReporting codec env cmd st.store).2.2 := by
  have evictions := applyEvictionEffects_log (ServerState.applyWriteEffects env.now origin cmd
    (executeReporting codec env cmd st.store).1
    { st with store := (executeReporting codec env cmd st.store).2.1 }) env.now origin
    (executeReporting codec env cmd st.store).2.2
  refine evictions.trans ?_
  rw [applyWriteEffects_log, framesOf, framesOf]
  simp

theorem commitWrite_log (st : ServerState) (origin : ℕ) (cmd : Command)
    (wrapper : Option (String × ℕ)) : (st.commitWrite origin cmd wrapper).log = st.log := by
  unfold ServerState.commitWrite
  split <;> split <;> rfl

/-- A write that the server executes for a connection changes the store and appends its frames. -/
theorem ServerState.Accepts.logs {st : ServerState} (accepts : st.Accepts cmd) (codec : Codec)
    (env : Env) (origin : ℕ) :
    (st.executeOrderedWrite codec env origin cmd).2.store =
        (executeReporting codec env (unwrapDedup cmd).1 st.store).2.1 ∧
      (st.executeOrderedWrite codec env origin cmd).2.log =
        st.log ++ framesOf (unwrapDedup cmd).1 (executeReporting codec env (unwrapDedup cmd).1 st.store).1
          env.now (executeReporting codec env (unwrapDedup cmd).1 st.store).2.2 := by
  have executes : st.Executes codec env origin (unwrapDedup cmd).1
      (st.executeOrderedWrite codec env origin cmd).2 := .ordered accepts
  refine ⟨executes.spec.1, ?_⟩
  obtain same | committed := accepts.executeOrderedWrite codec env origin
  · rw [same, executeQueuedWrite_log]
  · rw [committed, commitWrite_log, executeQueuedWrite_log]

/-! ## A server and its clients -/

/-- A server and the time of the last write. -/
structure LoggedServer where
  server : ServerState := { store := {} }
  clock : ℕ := 0

namespace LoggedServer

/-- A connection sends a write. -/
def step (codec : Codec) (s : LoggedServer) (write : Env × ℕ × Command) : Option LoggedServer :=
  if s.clock ≤ write.1.now ∧ isWriteCommand write.2.2 = true then
    some ⟨(s.server.executeOrderedWrite codec write.1 write.2.1 write.2.2).2, write.1.now⟩
  else none

/-- Every frame of the log is one command, and executing the log at any later time succeeds. -/
def Loadable (codec : Codec) (s : LoggedServer) : Prop :=
  (∀ frame ∈ s.server.log, (decodeFrame frame).isSome) ∧
    ∀ (envs : ℕ → Env) (checkpoint : ℕ), Monotone (fun i => (envs i).now) → s.clock ≤ (envs 0).now →
      ∃ r, replayAofFromCheckpoint codec envs s.server.log.flatten checkpoint {} = .ok r

/-- A command that the store refuses is not logged and leaves no trace; the frame of another one does
what the command did, and goes on doing that. -/
def Repeatable (codec : Codec) (env : Env) (cmd : Command) (s : KeyValueStore) : Prop :=
  if (execute codec env cmd s).1.isError then
    ignoresReply cmd = false ∧ ¬LeavesTrace codec cmd (s.live env.now)
  else Faithful codec env cmd (s.live env.now) ∧ ∀ m ∈ outcome codec env cmd (s.live env.now),
    ∀ later, env.now ≤ later → m.wire.Durable codec later (s.live env.now)

/-- The server executes only what can be repeated. -/
def Careful (codec : Codec) (s : LoggedServer) (write : Env × ℕ × Command) : Prop :=
  s.server.Accepts write.2.2 →
    Repeatable codec write.1 (ServerState.unwrapDedup write.2.2).1 s.server.store

structure Sound (codec : Codec) (s : LoggedServer) : Prop where
  uncapped : s.server.store.Uncapped
  behind : Behind codec s.clock s.server.log 0 (({} : KeyValueStore).live s.clock)
    (s.server.store.live s.clock)

theorem live_none (t : ℕ) : ({} : KeyValueStore).live t = fun _ => none := by
  funext k
  simp [KeyValueStore.live, Lapse.live]

theorem Sound.wait {s : LoggedServer} (h : s.Sound codec) {now : ℕ} (le : s.clock ≤ now) :
    Behind codec now s.server.log 0 (({} : KeyValueStore).live now) (s.server.store.live now) := by
  refine ((h.behind.wait le).from_same ?_).to_same ?_
  · rw [live_none, live_none]
  · rw [← live_later s.server.store le, LeadsTo.settle_later le_rfl]

/-- A store that executes what can be repeated stays ahead of its log. -/
theorem behind_execute {s : KeyValueStore} {log : List Bytes} {p : ℕ} {v : View}
    (uncapped : s.Uncapped) (write : isWriteCommand cmd = true)
    (repeatable : Repeatable codec env cmd s) (h : Behind codec env.now log p v (s.live env.now)) :
    Behind codec env.now
      (log ++ framesOf cmd (executeReporting codec env cmd s).1 env.now
        (executeReporting codec env cmd s).2.2) p v ((execute codec env cmd s).2.live env.now) := by
  have live : ∀ k, settle env.now (s.live env.now k) = s.live env.now k := fun k => settle_live _ _ k
  have same : (s.live env.now).settle env.now = s.live env.now := funext live
  obtain ⟨reply, view⟩ := execute_uncapped codec env cmd uncapped (direct_of_write write)
  have frames : framesOf cmd (executeReporting codec env cmd s).1 env.now
      (executeReporting codec env cmd s).2.2 =
      (broadcastFor cmd (execute codec env cmd s).1 env.now).toList := by
    rw [framesOf, (executeReporting_uncapped codec env cmd uncapped).evicted, List.map_nil,
      List.append_nil]
    rfl
  rw [frames, view]
  unfold Repeatable at repeatable
  cases refused : (execute codec env cmd s).1.isError with
  | true =>
    rw [refused, if_pos rfl] at repeatable
    obtain ⟨checked, noTrace⟩ := repeatable
    have silent : broadcastFor cmd (execute codec env cmd s).1 env.now = none := by
      cases answer : (execute codec env cmd s).1 with
      | error message => exact (broadcastFor_error cmd message env.now).mpr checked
      | _ => rw [answer] at refused; cases refused
    have kept := refused_unchanged_of_no_trace live write noTrace (reply ▸ refused)
    rwa [silent, kept, Option.toList_none, List.append_nil]
  | false =>
    rw [refused, if_neg Bool.false_ne_true] at repeatable
    obtain ⟨⟨decodable, kept⟩, durable⟩ := repeatable
    rw [frame_of_outcome uncapped write refused]
    have ok : (perform codec env cmd (s.live env.now)).1.isError = false := reply ▸ refused
    have mirrored := (mirrored_iff live write ok).mpr kept
    cases form : outcome codec env cmd (s.live env.now) with
    | none =>
      rw [Option.map_none, Option.toList_none, List.append_nil]
      exact h.to_same (((mirrored_none form).mp mirrored).symm.settle env.now)
    | some m =>
      have ok' := outcome_succeeds write ok form
      rw [m.wire.perform_eq] at ok'
      have sent := h.snoc (decodable m form) (m := m) (same.symm ▸ ⟨durable m form, ok'⟩)
      refine sent.to_same ?_
      rw [same, ← m.wire.perform_eq]
      exact ((mirrored_some form).mp mirrored).settle env.now

theorem step_sound {s s' : LoggedServer} {write : Env × ℕ × Command} (h : s.Sound codec)
    (careful : s.Careful codec write) (next : s.step codec write = some s') : s'.Sound codec := by
  obtain ⟨env, origin, cmd⟩ := write
  unfold step at next
  split_ifs at next with may
  obtain ⟨le, write⟩ := may
  obtain rfl := Option.some.inj next
  obtain same | ⟨accepts, executed⟩ := executeOrderedWrite_executed codec env origin cmd s.server
  · refine ⟨?_, ?_⟩
    · dsimp only
      rw [same]
      exact h.uncapped
    · dsimp only
      rw [same]
      exact h.wait le
  · obtain ⟨store, log⟩ := accepts.logs codec env origin
    refine ⟨?_, ?_⟩
    · dsimp only
      rw [store]
      exact (executeReporting_uncapped codec env _ h.uncapped).uncapped
    · dsimp only
      rw [store, log]
      exact behind_execute h.uncapped (isWriteCommand_unwrapDedup write) (careful accepts) (h.wait le)

theorem Sound.loadable {s : LoggedServer} (h : s.Sound codec) : s.Loadable codec := by
  refine ⟨fun frame logged => ?_, fun envs checkpoint clock le => ?_⟩
  · obtain ⟨-, sent, decodable, drop, -⟩ := h.behind
    rw [List.drop_zero] at drop
    rw [drop] at logged
    obtain ⟨m, hm, rfl⟩ := List.mem_map.mp logged
    exact Option.isSome_iff_exists.mpr ⟨_, (m.decodeFrame_parts _).mpr ⟨decodable m hm, rfl⟩⟩
  · obtain ⟨n, store, replayed, -⟩ := h.behind.replay ⟨rfl, rfl⟩ checkpoint clock le
    exact ⟨(n, store), replayed⟩

/-- In a run of writes that can be repeated, the log can be executed at every later time. -/
theorem log_loadable (codec : Codec) (writes : List (Env × ℕ × Command))
    (careful : Runs.Each (step codec) (Careful codec) {} writes) (s : LoggedServer)
    (run : Runs.exec (step codec) {} writes = some s) : s.Loadable codec := by
  have start : ({} : LoggedServer).Sound codec :=
    ⟨⟨rfl, rfl⟩, Behind.none_left codec [] (.refl _)⟩
  exact (Runs.invariant (fun _ _ _ h careful next => step_sound h careful next) run careful start).loadable

/-- A refused command that is not logged. -/
theorem log_loadable_refused :
    ∃ s, Runs.exec (step .literals) {} [(.fixed 0, 1, .set "k" [118] {}),
        (.fixed 1, 1, .sAdd "k" ["x"])] = some s ∧ s.Loadable .literals := by
  obtain ⟨s, run⟩ : ∃ s, Runs.exec (step .literals) {} [(.fixed 0, 1, .set "k" [118] {}),
      (.fixed 1, 1, .sAdd "k" ["x"])] = some s := ⟨_, rfl⟩
  refine ⟨s, run, log_loadable .literals _ ?_ s run⟩
  refine ⟨fun _ => ?_, ?_⟩
  · refine ⟨⟨?_, nofun⟩, ?_⟩
    · rintro m ⟨⟩
      exact ((Mutation.decodeFrame_parts _ _).mp rfl).1
    · rintro m ⟨⟩ later le key ⟨⟩
  · rintro s ⟨⟩
    exact ⟨fun _ => ⟨rfl, not_not.mpr trivial⟩, fun _ _ => trivial⟩

/-- A refused command that is logged. -/
theorem log_not_loadable :
    ∃ s, Runs.exec (step .literals) {} [(.fixed 0, 1, .set "k" [118] {}),
        (.fixed 1, 1, .lPush "k" [[97]])] = some s ∧ ¬s.Loadable .literals := by
  obtain ⟨s, run, le, refused⟩ : ∃ s, Runs.exec (step .literals) {} [(.fixed 0, 1, .set "k" [118] {}),
      (.fixed 1, 1, .lPush "k" [[97]])] = some s ∧ s.clock ≤ 1 ∧
        (replayAofFromCheckpoint .literals (fun _ => .fixed 1) s.server.log.flatten 0 {}).isOk = false :=
    ⟨_, rfl, le_rfl, rfl⟩
  refine ⟨s, run, fun loadable => ?_⟩
  obtain ⟨r, replayed⟩ := loadable.2 (fun _ => .fixed 1) 0 monotone_const le
  rw [replayed] at refused
  cases refused

end LoggedServer

end Recached
