import Recached.Bookkeeping
import Recached.Sync

/-!
# Stores without deadlines

A write that gives no deadline leaves none where there was none, and then it does not matter at what
time a mutation is replayed.
-/

namespace Recached

open Lapse Text

variable {codec : Codec} {env : Env} {cmd : Command}

/-- The command can give a key a deadline. -/
def givesDeadline : Command → Bool
  | .set _ _ opts =>
    match opts.expiry with
    | none | some .keepTtl => false
    | some _ => true
  | .setEx _ _ _ | .pSetEx _ _ _ | .expire _ _ | .pExpire _ _ | .expireAt _ _ | .pExpireAt _ _ => true
  | .rlCheck _ config => config.isSome
  | _ => false

def SetExpiry.deadline (now : ℕ) : SetExpiry → Option ℕ
  | .ex seconds => some (satAdd now (seconds * 1000))
  | .px ms => some (satAdd now ms)
  | .exAt seconds => some (satMul seconds 1000)
  | .pxAt ms => some ms
  | .keepTtl => none

/-- The deadline a check gives a limiter; one that was set without deadline stays without. -/
def limiterDeadline (now : ℕ) (l : Option Cell) (config : Option (ℕ × ℕ)) : Option ℕ :=
  if l.any fun c => c.expiresAtMs.isNone then none
  else
    match config with
    | some (_, windowSecs) => some (satAdd now (satMul windowSecs 1000))
    | none => (l.bind fun c => Kind.rateLimiter.unwrap c.value).map fun rl => satAdd now rl.windowMs

/-- The deadline a command gives the cell it finds, from its arguments and the clock. -/
def givenDeadline (now : ℕ) (l : Option Cell) : Command → Option ℕ
  | .set _ _ opts => opts.expiry.bind (SetExpiry.deadline now)
  | .setEx _ secs _ | .expire _ secs => some (satAdd now (satMul secs 1000))
  | .pSetEx _ ms _ | .pExpire _ ms => some (satAdd now ms)
  | .expireAt _ ts => some (satMul ts 1000)
  | .pExpireAt _ ts => some ts
  | .rlCheck _ config => limiterDeadline now l config
  | _ => none

/-! ## What programs leave -/

/-- The deadline of the cell, or its lack, is of a kind. -/
def Dated (P : Option ℕ → Prop) (c : Cell) : Prop := P c.expiresAtMs

section

variable {P : Option ℕ → Prop} {l : Option Cell}

theorem dated_updateAs {α : Type} (k : Kind α) (absent : Value) (f : α → α × Value)
    (h : Meets (Dated P) l) : Meets (Dated P) ((updateAs k absent f l).1.apply l) := by
  cases l with
  | none => exact h
  | some c =>
    unfold updateAs
    dsimp only
    split
    · exact .some (h c rfl)
    · exact h

theorem dated_typedEntry (lasting : P none) {α : Type} (k : Kind α) (default : α) (f : α → α × Value)
    (h : Meets (Dated P) l) : Meets (Dated P) ((typedEntry k default f l).1.apply l) := by
  cases l with
  | none => exact .some lasting
  | some c =>
    unfold typedEntry
    dsimp only
    split
    · exact .some (h c rfl)
    · exact h

theorem dated_setExpiry {ts : ℕ} (given : P (some ts)) (h : Meets (Dated P) l) :
    Meets (Dated P) ((setExpiry ts l).1.apply l) := by
  cases l with
  | none => exact h
  | some c => exact .some given

theorem dated_setAct (lasting : P none) (now : ℕ) (val : Bytes) {opts : SetOptions}
    (given : ∀ d ∈ opts.expiry.bind (SetExpiry.deadline now), P (some d)) (h : Meets (Dated P) l) :
    Meets (Dated P) ((setAct now val opts l).1.apply l) := by
  unfold setAct
  dsimp only
  split
  · exact h
  · split
    · exact h
    · cases deadline : setDeadline now (l.bind Lapse.Cell.expiresAtMs) opts.expiry with
      | error e => exact h
      | ok expiresAtMs =>
        refine .some ?_
        cases expiry : opts.expiry with
        | none =>
          rw [expiry] at deadline
          cases deadline
          exact lasting
        | some e =>
          rw [expiry] at deadline given
          cases e
          case keepTtl =>
            cases deadline
            cases l with
            | none => exact lasting
            | some c => exact h c rfl
          case ex seconds =>
            simp only [setDeadline] at deadline
            split_ifs at deadline
            cases deadline
            exact given _ rfl
          all_goals
            cases deadline
            exact given _ rfl

theorem dated_rlCheckAct {now : ℕ} {key : String} {config : Option (ℕ × ℕ)}
    (given : ∀ d ∈ limiterDeadline now l config, P (some d)) (h : Meets (Dated P) l) :
    Meets (Dated P) ((rlCheckAct now key config l).1.apply l) := by
  unfold rlCheckAct
  cases l with
  | none =>
    cases config with
    | none => exact h
    | some config => exact .some (given _ rfl)
  | some c =>
    dsimp only
    split
    · exact h
    next rl holds =>
      refine .some ?_
      have stays := h c rfl
      unfold Dated at stays ⊢
      cases dated : c.expiresAtMs with
      | none =>
        rw [dated] at stays
        exact stays
      | some d =>
        refine given _ ?_
        unfold limiterDeadline
        rw [Option.any_some, dated, Option.isNone_some, if_neg Bool.false_ne_true, Option.bind_some, holds]
        cases config <;> rfl

theorem dated_mSetPairs (lasting : P none) (pairs : List (String × Bytes)) :
    (mSetPairs pairs).Keeps (Dated P) := by
  induction pairs with
  | nil => trivial
  | cons pair pairs ih => exact ⟨fun _ _ => .some lasting, fun _ _ => ih⟩

theorem dated_delKeys (keys : List String) (n : ℕ) : (delKeys keys n).Keeps (Dated P) := by
  induction keys generalizing n with
  | nil => trivial
  | cons key keys ih =>
    refine ⟨fun l h => ?_, fun _ _ => ih _⟩
    cases l with
    | none => exact h
    | some c => exact .none

theorem dated_combineStore (lasting : P none) (dst : String) (keys : List String)
    (f : List (Option MemberSet) → MemberSet) : (combineStore dst keys f).Keeps (Dated P) := by
  refine (looks_readSets keys).keeps.bind fun sets => ?_
  cases sets with
  | error e => trivial
  | ok sets => exact .one fun _ _ => .some lasting

theorem dated_sMove (lasting : P none) (src dst member : String) :
    (sMove src dst member).Keeps (Dated P) := by
  refine ⟨fun _ h => h, fun s _ => ⟨fun _ h => h, fun d _ => ?_⟩⟩
  dsimp only
  split_ifs
  · trivial
  · refine ⟨fun l h => dated_updateAs .set nil _ h, fun l _ => ?_⟩
    dsimp only
    split_ifs
    · exact .one fun l h => dated_typedEntry lasting _ _ _ h
    · trivial

theorem dated_jSetAct (lasting : P none) (path value : String) (h : Meets (Dated P) l) :
    Meets (Dated P) ((jSetAct codec path value l).1.apply l) := by
  unfold jSetAct
  split
  · exact h
  · split
    · exact h
    · dsimp only
      split_ifs
      · exact h
      · exact dated_typedEntry lasting _ _ _ h

theorem dated_jMergeAct (lasting : P none) (patch : String) (h : Meets (Dated P) l) :
    Meets (Dated P) ((jMergeAct codec patch l).1.apply l) := by
  unfold jMergeAct
  split
  · exact h
  · split_ifs
    · exact .none
    · exact h
    · exact dated_typedEntry lasting _ _ _ h

/-- Every command leaves the deadlines that were there, takes them away or gives its own. -/
theorem program_dated (codec : Codec) (env : Env) (lasting : P none)
    (given : ∀ l, ∀ d ∈ givenDeadline env.now l cmd, Meets (Dated P) l → P (some d)) :
    (program codec env cmd).Keeps (Dated P) := by
  cases cmd
  case mSet pairs => exact dated_mSetPairs lasting pairs
  case del keys | unlink keys => exact (dated_delKeys keys 0).bind fun _ => trivial
  case rename src dst => exact fun _ => trivial
  case flushDb => trivial
  case sInterStore dst keys | sUnionStore dst keys | sDiffStore dst keys =>
    exact dated_combineStore lasting dst keys _
  case sMove src dst member => exact dated_sMove lasting src dst member
  case decrBy key delta =>
    simp only [program]
    split_ifs
    · trivial
    · exact .one fun l h => dated_typedEntry lasting _ _ _ h
  case eSet key val => exact .one fun l h => dated_setAct lasting _ val (by rintro _ ⟨⟩) h
  case set key val opts => exact .one fun l h => dated_setAct lasting _ val (given none · · .none) h
  case setEx key secs val | pSetEx key ms val => exact .one fun l h => .some (given l _ rfl h)
  case expire key ts | pExpire key ts | expireAt key ts | pExpireAt key ts =>
    exact .one fun l h => dated_setExpiry (given l _ rfl h) h
  case jSet key path value => exact .one fun l h => dated_jSetAct lasting path value h
  case jMerge key patch => exact .one fun l h => dated_jMergeAct lasting patch h
  case rlCheck key config => exact .one fun l h => dated_rlCheckAct (given l · · h) h
  case getSet key val =>
    refine .one fun l h => ?_
    unfold getSetAct
    split
    · exact .some lasting
    · split
      · exact .some lasting
      · exact h
  case setNx key val =>
    refine .one fun l h => ?_
    cases l with
    | none => exact .some lasting
    | some c => exact h
  case persist key =>
    refine .one fun l h => ?_
    unfold persistAct
    split
    · exact .some lasting
    · exact h
  case rlSet key limit windowSecs =>
    refine .one fun l h => ?_
    unfold rlSetAct
    cases l with
    | none => exact .some lasting
    | some c =>
      dsimp only
      split
      · exact .some lasting
      · exact h
  all_goals first
    | exact (program_looks codec env rfl).keeps
    | exact .one fun l h => dated_typedEntry lasting _ _ _ h
    | exact .one fun l h => dated_updateAs _ _ _ h
    | trivial

end

/-- A command that gives no deadline leaves none where there was none. -/
theorem program_timeless (codec : Codec) (env : Env) (timeless : givesDeadline cmd = false) :
    (program codec env cmd).Timeless := by
  refine Prog.timeless_iff_keeps.mpr (program_dated (P := (· = none)) codec env rfl fun l d mem lasts => ?_)
  cases cmd
  case rlCheck key config =>
    cases config with
    | some config => cases timeless
    | none =>
      cases l with
      | none => cases mem
      | some c =>
        have undated : c.expiresAtMs = none := lasts c rfl
        unfold givenDeadline limiterDeadline at mem
        rw [Option.any_some, undated] at mem
        cases mem
  case set key val opts =>
    simp only [givesDeadline] at timeless
    rw [givenDeadline] at mem
    cases expiry : opts.expiry with
    | none =>
      rw [expiry] at mem
      cases mem
    | some e =>
      rw [expiry] at mem timeless
      cases e <;> first | cases (timeless : true = false) | cases mem
  all_goals first
    | cases (timeless : true = false)
    | cases mem

/-! ## Replays -/

theorem isWriteCommand_of_replayable (replayable : isReplayableMutation cmd = true) :
    isWriteCommand cmd = true := by
  cases cmd <;> first | rfl | cases (replayable : false = true)

/-- A mutation that clients replay uses neither the clock nor chance, unless it gives a deadline. -/
theorem program_anytime (codec : Codec) (env env' : Env) (replayable : isReplayableMutation cmd = true)
    (timeless : givesDeadline cmd = false) : program codec env cmd = program codec env' cmd := by
  cases cmd
  case set key val opts =>
    have same : setAct env.now val opts = setAct env'.now val opts := by
      funext l
      unfold setAct
      cases given : opts.expiry with
      | none => rfl
      | some e =>
        cases e
        case keepTtl => rfl
        all_goals simp [givesDeadline, given] at timeless
    rw [program, program, same]
  case expire | pExpire | expireAt | pExpireAt => cases timeless
  all_goals first | cases (replayable : false = true) | rfl

/-- A write that uses neither the clock nor chance and gives no deadline. -/
structure Timeless (codec : Codec) (cmd : Command) : Prop where
  write : isWriteCommand cmd = true
  noDeadline : givesDeadline cmd = false
  anytime : ∀ env env', program codec env cmd = program codec env' cmd

theorem timeless_of_replayable (codec : Codec) (replayable : isReplayableMutation cmd = true)
    (timeless : givesDeadline cmd = false) : Timeless codec cmd :=
  ⟨isWriteCommand_of_replayable replayable, timeless, fun env env' =>
    program_anytime codec env env' replayable timeless⟩

/-- The effect of a command on live cells, at whatever time it is executed. -/
def replay (codec : Codec) (cmd : Command) (v : View) : View := (perform codec (.fixed 0) cmd v).2

theorem Timeless.perform (h : Timeless codec cmd) (env : Env) {v : View} (lasts : ∀ k, Lasts (v k)) :
    (perform codec env cmd v).2 = replay codec cmd v ∧ ∀ k, Lasts (replay codec cmd v k) := by
  have anytime := Prog.eval_timeless (program_timeless codec (.fixed 0) h.noDeadline) env.now 0 lasts
  have same : (Recached.perform codec env cmd v).2 = replay codec cmd v := by
    rw [Recached.perform, h.anytime env (.fixed 0), anytime.1]
    rfl
  refine ⟨same, fun k => ?_⟩
  rw [← same, Recached.perform, h.anytime env (.fixed 0)]
  exact anytime.2 k

/-- A write leaves the cells of all keys but its primary keys as they are. -/
theorem perform_frame (codec : Codec) (env : Env) (write : isWriteCommand cmd = true)
    (notFlush : cmd ≠ .flushDb) (notCheck : ∀ key config, cmd ≠ .rlCheck key config) {v : View}
    (live : ∀ k, Lapse.settle env.now (v k) = v k) {k : String} (hk : k ∉ primaryKeys cmd) :
    (perform codec env cmd v).2 k = v k := by
  have frame (listed : k ∉ (commandScope cmd).listed) : (perform codec env cmd v).2 k = v k :=
    Prog.eval_frame (program_on codec env notFlush) env.now v listed
  have combined (dst : String) (other : k ≠ dst) (keys : List String)
      (f : List (Option MemberSet) → MemberSet) :
      ((combineStore dst keys f).eval env.now v).2 k = v k := by
    rw [combineStore, Prog.eval_bind, eval_readSets live]
    cases ((readSets keys).eval env.now v).1 with
    | error e => rfl
    | ok sets => exact Function.update_of_ne other _ _
  cases cmd
  case flushDb => exact absurd rfl notFlush
  case rlCheck key config => exact absurd rfl (notCheck key config)
  case sInterStore dst keys | sUnionStore dst keys | sDiffStore dst keys =>
    exact combined dst (by simpa [primaryKeys] using hk) keys _
  case dedup client id inner => rfl
  all_goals first
    | cases (write : false = true)
    | exact frame hk

/-- A store without limits and without deadlines, as a client keeps it when it is told of none. -/
structure KeyValueStore.Plain (s : KeyValueStore) : Prop where
  uncapped : s.Uncapped
  noDeadlines : NoDeadlines s.data

namespace KeyValueStore.Plain

variable {s : KeyValueStore}

theorem lasts (h : s.Plain) (k : String) : Lasts (s.live 0 k) := h.noDeadlines.lasts 0 k

theorem live_eq (h : s.Plain) (now : ℕ) : s.live now = s.live 0 :=
  funext fun k => (h.noDeadlines.live now k).trans (h.noDeadlines.live 0 k).symm

theorem timeless (h : s.Plain) (env : Env) (timeless : Timeless codec cmd) :
    (Recached.execute codec env cmd s).2.Plain ∧
      (Recached.execute codec env cmd s).2.live 0 = replay codec cmd (s.live 0) := by
  have ran := executeReporting_uncapped codec env cmd h.uncapped
  have after : (Recached.execute codec env cmd s).2.Plain := by
    refine ⟨ran.uncapped, ?_⟩
    rw [show (Recached.execute codec env cmd s).2.data = _ from ran.data]
    exact Prog.run_timeless (program_timeless codec env timeless.noDeadline) env.now
      h.noDeadlines
  refine ⟨after, ?_⟩
  rw [← after.live_eq env.now,
    (execute_uncapped codec env cmd h.uncapped (direct_of_write timeless.write)).2, h.live_eq env.now]
  exact (timeless.perform env h.lasts).1

theorem execute (h : s.Plain) (codec : Codec) (env : Env) (cmd : Command)
    (replayable : isReplayableMutation cmd = true) (timeless : givesDeadline cmd = false) :
    (Recached.execute codec env cmd s).2.Plain ∧
      (Recached.execute codec env cmd s).2.live 0 = replay codec cmd (s.live 0) :=
  h.timeless env (timeless_of_replayable codec replayable timeless)

end KeyValueStore.Plain

end Recached
