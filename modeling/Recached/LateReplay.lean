import Recached.CatchUp
import Recached.Changes
import Recached.Lib.Runs

/-!
# Replay at a later time

The file is replayed when the clock has moved on.  A store that executes its frames then ends up with
what the primary shows then, as long as no frame builds on a cell that has lapsed in the meantime.
-/

namespace Recached

open Text Lapse

variable {codec : Codec} {env : Env} {cmd : Command} {m : Mutation} {v : View}

/-! ## The mutation of a write that succeeds -/

/-- The mutation is the same program as the command. -/
theorem succeeds_of_program (same : program codec env m.wire.toCommand = program codec env cmd)
    (ok : (perform codec env cmd v).1.isError = false) :
    (perform codec env m.wire.toCommand v).1.isError = false := by
  rw [perform, same]
  exact ok

theorem succeeds_set (key : String) (val : Bytes) (d : Deadline) :
    (perform codec env (Mutation.set key val d).wire.toCommand v).1.isError = false := by
  have one : program codec env (Mutation.set key val d).wire.toCommand =
      .one key (setAct env.now val { expiry := d.expiry }) := rfl
  rw [perform_one one, setAct_plain]
  rfl

theorem succeeds_pExpireAt (key : String) (ts : ℕ) :
    (perform codec env (Mutation.pExpireAt key ts).wire.toCommand v).1.isError = false := by
  have one : program codec env (Mutation.pExpireAt key ts).wire.toCommand = .one key (setExpiry ts) :=
    rfl
  rw [perform_one one]
  cases v key <;> rfl

/-- The value that the command has found is there for the mutation as well. -/
theorem succeeds_typedEntry {α : Type} {k : Kind α} {default : α} {f : α → α × Value} {key : String}
    (one : program codec env m.wire.toCommand = .one key (typedEntry k default f))
    (holds : Holds k (v key)) (total : ∀ x, (f x).2.isError = false) :
    (perform codec env m.wire.toCommand v).1.isError = false := by
  rw [perform_one one, (typedEntry_apply holds default f).2]
  exact total _

theorem holds_of_updateAs {α : Type} {k : Kind α} {absent : Value} {f : α → α × Value}
    {l : Option Cell} (ok : (updateAs k absent f l).2.isError = false) : Holds k l := by
  rintro c rfl
  cases kind : k.unwrap c.value with
  | none =>
    rw [updateAs_other kind] at ok
    exact absurd ok nofun
  | some x => rfl

theorem succeeds_updateAs {α : Type} {k : Kind α} {absent : Value} {f : α → α × Value} {key : String}
    (one : program codec env m.wire.toCommand = .one key (updateAs k absent f)) (holds : Holds k (v key))
    (plain : absent.isError = false) (total : ∀ x, (f x).2.isError = false) :
    (perform codec env m.wire.toCommand v).1.isError = false := by
  rw [perform_one one]
  cases there : v key with
  | none => exact plain
  | some c =>
    obtain ⟨x, kind⟩ := Option.isSome_iff_exists.mp (holds c there)
    rw [updateAs_held kind]
    exact total x

theorem addToScore_zero_succeeds {member : String} {z : ZSet}
    (ok : (addToScore Binary64.zero.negate member z).2.isError = false) :
    (addToScore .zero member z).2.isError = false := by
  have finite := finite_zero_of_addToScore ok
  simp only [addToScore, finite, Bool.false_eq_true, if_false]
  rfl

theorem succeeds_zIncrBy {key member : String} {delta : Binary64}
    (ok : (perform codec env (.zIncrBy key delta member) v).1.isError = false) :
    (perform codec env (Mutation.zIncrBy key delta member).wire.toCommand v).1.isError = false := by
  have one (d : Binary64) : program codec env (.zIncrBy key d member) =
      .one key (typedEntry .zset ∅ (addToScore d member)) := rfl
  have holds : Holds .zset (v key) := holds_of_typedEntry (f := addToScore delta member) ok
  have reply (d : Binary64) := (typedEntry_apply holds ∅ (addToScore d member)).2
  have stored : (addToScore delta member (zsetOf (v key))).2.isError = false := reply delta ▸ ok
  obtain nan | rfl | same := wireScore_cases delta
  · have finite := finite_of_addToScore stored
    rw [isNaN_add _ nan] at finite
    exact absurd finite nofun
  · have one' : program codec env (Mutation.zIncrBy key Binary64.zero.negate member).wire.toCommand =
        .one key (typedEntry .zset ∅ (addToScore .zero member)) := rfl
    rw [perform_one one', reply]
    exact addToScore_zero_succeeds stored
  · refine succeeds_of_program ?_ ok
    rw [Mutation.wire, same]
    rfl

/-- The mutation of a write that succeeds succeeds where the write did. -/
theorem outcome_succeeds (write : isWriteCommand cmd = true)
    (ok : (perform codec env cmd v).1.isError = false) (sent : outcome codec env cmd v = some m) :
    (perform codec env m.wire.toCommand v).1.isError = false := by
  cases cmd
  case eSet key val | setEx key secs val | pSetEx key ms val | getSet key val =>
    obtain rfl := Option.some.inj sent
    exact succeeds_set _ _ _
  case set key val opts | setNx key val =>
    obtain rfl := eq_of_when sent
    exact succeeds_set _ _ _
  case incr key | decr key | incrBy key delta | decrBy key delta =>
    unfold outcome absolute at sent
    dsimp only at sent
    split at sent
    · obtain rfl := Option.some.inj sent
      exact succeeds_set _ _ _
    · cases sent
  case expire key secs | pExpire key ms | expireAt key ts | pExpireAt key ts =>
    obtain rfl := eq_of_when sent
    exact succeeds_pExpireAt _ _
  case hIncrBy key field delta | hIncrByFloat key field delta =>
    have holds : Holds .hash (v key) := holds_of_typedEntry ok
    unfold outcome absolute at sent
    dsimp only at sent
    split at sent
    · obtain rfl := Option.some.inj sent
      exact succeeds_typedEntry rfl holds fun _ => rfl
    · cases sent
  case hSetNx key field val =>
    have holds : Holds .hash (v key) := holds_of_typedEntry ok
    obtain rfl := eq_of_when sent
    exact succeeds_typedEntry rfl holds fun _ => rfl
  case lPushX key vals | rPushX key vals =>
    have holds : Holds .list (v key) := holds_of_updateAs ok
    obtain rfl := eq_of_when sent
    exact succeeds_typedEntry rfl holds fun _ => rfl
  case sPop key count =>
    have holds : Holds .set (v key) := holds_of_updateAs ok
    obtain rfl := eq_of_when sent
    exact succeeds_updateAs rfl holds rfl fun _ => rfl
  case zAdd key opts pairs =>
    have holds : Holds .zset (v key) := holds_of_typedEntry ok
    obtain rfl := Option.some.inj sent
    exact succeeds_typedEntry rfl holds fun z => zAddExec_ok z _ _
  case zIncrBy key delta member =>
    obtain rfl := Option.some.inj sent
    exact succeeds_zIncrBy ok
  case del keys | unlink keys | mSet pairs | flushDb | hSet key pairs | lPush key vals | rPush key vals
      | lTrim key start stop | sInterStore dst keys | sUnionStore dst keys | sDiffStore dst keys
      | rlSet key limit windowSecs =>
    obtain rfl := Option.some.inj sent
    exact succeeds_of_program rfl ok
  case append key val | persist key | rename src dst | hDel key fields | lPop key count
      | rPop key count | lSet key idx val | lRem key count element | sAdd key members
      | sRem key members | sMove src dst member | zRem key members | jSet key path value
      | jMerge key patch =>
    obtain rfl := eq_of_when sent
    exact succeeds_of_program rfl ok
  all_goals cases sent

/-! ## A primary -/

/-- A primary: its store, the time of its last write, and the frames it has emitted. -/
structure Primary where
  store : KeyValueStore := {}
  clock : ℕ := 0
  frames : List Bytes := []

namespace Primary

/-- A write that succeeds, at its own time. -/
def step (codec : Codec) (s : Primary) (write : Env × Command) : Option Primary :=
  let result := execute codec write.1 write.2 s.store
  if s.clock ≤ write.1.now ∧ isWriteCommand write.2 = true ∧ result.1.isError = false then
    some ⟨result.2, write.1.now, s.frames ++ (broadcastFor write.2 result.1 write.1.now).toList⟩
  else none

/-- The frame of the write does what the write did, and no cell that the frame builds on has lapsed by
the later time. -/
def Replays (codec : Codec) (later : ℕ) (s : Primary) (write : Env × Command) : Prop :=
  Faithful codec write.1 write.2 (s.store.live write.1.now) ∧
    ∀ m ∈ outcome codec write.1 write.2 (s.store.live write.1.now),
      m.wire.Durable codec later (s.store.live write.1.now)

/-- The frames are those of mutations, and a store that executes them at the later time shows what the
primary shows then. -/
structure Replayed (codec : Codec) (later : Env) (s : Primary) : Prop where
  uncapped : s.store.Uncapped
  replica : ∃ sent : List Mutation, s.frames = sent.map (fun m => respPush m.parts) ∧
    (∀ m ∈ sent, m.Decodable) ∧ ∃ r,
      executeValues codec (fun _ => later) (sent.map fun m => Frame.value m.parts) 0 {} = some r ∧
        r.2.Uncapped ∧ SameView (r.2.live later.now) (s.store.live later.now)

variable {later : Env} {s s' : Primary}

theorem step_replayed {write : Env × Command} (h : s.Replayed codec later)
    (replays : s.Replays codec later.now write) (next : s.step codec write = some s')
    (le : s'.clock ≤ later.now) : s'.Replayed codec later := by
  obtain ⟨env, cmd⟩ := write
  unfold step at next
  dsimp only at next
  split_ifs at next with may
  obtain ⟨-, write, ok⟩ := may
  obtain rfl := Option.some.inj next
  obtain ⟨⟨decodable, kept⟩, durable⟩ := replays
  obtain ⟨uncapped, sent, frames, sentDecodable, r, executed, uncapped', same⟩ := h
  have live : ∀ k, settle env.now (s.store.live env.now k) = s.store.live env.now k :=
    fun k => settle_live _ _ k
  obtain ⟨reply, view⟩ := execute_uncapped codec env cmd uncapped (direct_of_write write)
  have frame := frame_of_outcome uncapped write ok
  rw [reply] at ok
  have mirrored := (mirrored_iff live write ok).mpr kept
  -- what the primary shows later is what is left of what it shows now
  have shown : (execute codec env cmd s.store).2.live later.now =
      (perform codec env cmd (s.store.live env.now)).2.settle later.now := by
    rw [← view, live_later _ le]
  refine ⟨(executeReporting_uncapped codec env cmd uncapped).uncapped, ?_⟩
  cases form : outcome codec env cmd (s.store.live env.now) with
  | none =>
    rw [form] at frame
    refine ⟨sent, ?_, sentDecodable, r, executed, uncapped', ?_⟩
    · rw [frame, frames]
      simp
    · rw [shown]
      have unchanged := SameView.settle ((mirrored_none form).mp mirrored).symm later.now
      rw [live_later _ le] at unchanged
      exact same.trans unchanged
  | some m =>
    rw [form] at frame
    have ok' := outcome_succeeds write ok form
    obtain ⟨delayed, still⟩ := perform_delayed le live (durable m form) ok'
    rw [live_later _ le] at delayed still
    obtain ⟨answer, view', uncapped''⟩ := execute_mutation codec later m.wire uncapped'
    rw [← m.wire.perform_eq codec later] at answer view'
    have replayed := replayCommand_parts codec later 0 (decodable m form) r.2 (by
      rw [answer, perform_isError_sameView codec later m.wire same (fun k => settle_live _ _ k)
        fun k => settle_live _ _ k]
      exact still)
    refine ⟨sent ++ [m], ?_, ?_, (r.1 + 1, (execute codec later m.wire.toCommand r.2).2), ?_,
      uncapped'', ?_⟩
    · rw [frame, frames]
      simp
    · intro m' mem
      obtain old | new := List.mem_append.mp mem
      · exact sentDecodable m' old
      · exact List.mem_singleton.mp new ▸ decodable m form
    · rw [List.map_append, executeValues_append, executed]
      simp only [Option.bind_some, List.map_cons, List.map_nil, executeValues, replayed]
      rfl
    · rw [view', shown]
      have effect := SameView.settle ((mirrored_some form).mp mirrored) later.now
      exact ((perform_sameView codec later _ same).trans delayed.symm).trans effect

theorem clock_le {write : Env × Command} (next : s.step codec write = some s') : s.clock ≤ s'.clock := by
  unfold step at next
  dsimp only at next
  split_ifs at next with may
  exact Option.some.inj next ▸ may.1

theorem replayed_start (codec : Codec) (later : Env) : ({} : Primary).Replayed codec later :=
  ⟨⟨rfl, rfl⟩, [], rfl, nofun, (0, {}), rfl, ⟨rfl, rfl⟩, .refl _⟩

/-- After a run of writes whose frames can be executed at the later time, a replay at that time succeeds
and shows what the primary shows then. -/
theorem replay_later (codec : Codec) (checkpoint : ℕ) {later : Env} {writes : List (Env × Command)}
    (run : Runs.exec (step codec) {} writes = some s) (le : s.clock ≤ later.now)
    (replays : Runs.Each (step codec) (Replays codec later.now) {} writes) :
    ∃ r, replayAofFromCheckpoint codec (fun _ => later) s.frames.flatten checkpoint {} = .ok r ∧
      SameView (r.2.live later.now) (s.store.live later.now) := by
  have replayed : s.clock ≤ later.now → s.Replayed codec later := by
    refine Runs.invariant (P := fun s => s.clock ≤ later.now → s.Replayed codec later) ?_ run replays
      fun _ => replayed_start codec later
    intro s write s' h replays next le
    exact step_replayed (h ((clock_le next).trans le)) replays next le
  obtain ⟨-, sent, frames, decodable, r, executed, -, same⟩ := replayed le
  have file : s.frames.flatten = fileOf (sent.map Mutation.parts) := by
    rw [frames, fileOf, List.flatMap_map, List.flatMap_def]
  have fits : ∀ f ∈ sent.map Mutation.parts, Fits f := by
    intro f hf
    obtain ⟨m, hm, rfl⟩ := List.mem_map.mp hf
    exact (decodable m hm).2
  have replay := replayAof_file codec (fun _ => later) checkpoint {} fits (.inl rfl)
  rw [resumed_parts, commandsOf_parts, executed, List.append_nil, ← file] at replay
  cases outcome : replayAofFromCheckpoint codec (fun _ => later) s.frames.flatten checkpoint {} with
  | error e =>
    rw [outcome] at replay
    cases replay
  | ok r' =>
    rw [outcome] at replay
    exact ⟨r', rfl, Option.some.inj replay ▸ same⟩

/-- A key with a deadline is appended to, and the replay comes before the deadline. -/
theorem replay_later_append :
    ∃ s, Runs.exec (step .literals) {} [(.fixed 0, .pSetEx "k" 100 [118]),
        (.fixed 50, .append "k" [120])] = some s ∧ ∃ r,
      replayAofFromCheckpoint .literals (fun _ => .fixed 60) s.frames.flatten 0 {} = .ok r ∧
        SameView (r.2.live 60) (s.store.live 60) := by
  obtain ⟨s, run, le⟩ : ∃ s, Runs.exec (step .literals) {} [(.fixed 0, .pSetEx "k" 100 [118]),
      (.fixed 50, .append "k" [120])] = some s ∧ s.clock ≤ (Env.fixed 60).now := ⟨_, rfl, by decide⟩
  refine ⟨s, run, replay_later .literals 0 run le ⟨⟨⟨?_, trivial⟩, ?_⟩, ?_⟩⟩
  · rintro m ⟨⟩
    exact ((Mutation.decodeFrame_parts _ _).mp rfl).1
  · rintro m ⟨⟩ key ⟨⟩
  · rintro s ⟨⟩
    refine ⟨⟨⟨?_, trivial⟩, ?_⟩, fun _ _ => trivial⟩
    · rintro m ⟨⟩
      exact ((Mutation.decodeFrame_parts _ _).mp rfl).1
    · rintro m ⟨⟩ key hk
      obtain rfl := List.mem_singleton.mp hk
      rfl

/-- What is appended to a key before its deadline is all that a replay after the deadline finds there. -/
theorem replay_after_deadline :
    ∃ s, Runs.exec (step .literals) {} [(.fixed 0, .pSetEx "k" 100 [118]),
        (.fixed 50, .append "k" [120])] = some s ∧ s.clock ≤ 1000 ∧ ∀ r,
      replayAofFromCheckpoint .literals (fun _ => .fixed 1000) s.frames.flatten 0 {} = .ok r →
        ¬SameView (r.2.live 1000) (s.store.live 1000) := by
  obtain ⟨s, run, le, found, gone⟩ : ∃ s, Runs.exec (step .literals) {}
      [(.fixed 0, .pSetEx "k" 100 [118]), (.fixed 50, .append "k" [120])] = some s ∧ s.clock ≤ 1000 ∧
        (replayAofFromCheckpoint .literals (fun _ => .fixed 1000) s.frames.flatten 0 {}).map
          (fun r => r.2.live 1000 "k") = .ok (some ⟨.str [120], none⟩) ∧
        s.store.live 1000 "k" = none := ⟨_, rfl, by decide, rfl, rfl⟩
  refine ⟨s, run, le, fun r replayed same => ?_⟩
  rw [replayed] at found
  have there : r.2.live 1000 "k" = some ⟨.str [120], none⟩ := Except.ok.inj found
  have differ := same "k"
  rw [there, gone] at differ
  cases differ

end Primary

end Recached
