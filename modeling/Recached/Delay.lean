import Recached.Attempts
import Recached.Telling

/-!
# Mutations that are carried out later

A mutation that is executed again at a later time finds that some cells have lapsed in the meantime.
It does the same again as long as the cells that it reads are still there: it may overwrite a cell that
has lapsed, and change it in place, but not build on it.
-/

namespace Recached

open Text Lapse

variable {codec : Codec} {env env' : Env} {m : Mutation} {v w : View}

namespace Mutation

/-- The keys on whose cells the mutation builds. -/
def reads (codec : Codec) : Mutation → List String
  | set key _ .keep | append key _ | pExpireAt key _ | persist key | rename key _ | hSet key _
  | lPush key _ | rPush key _ | lSet key _ _ | sAdd key _ | zAdd key _ _ | zIncrBy key _ _
  | jSet key _ _ => [key]
  | jMerge key patch =>
    match codec.fromStr patch with
    | .ok patch => if patch.isNull then [] else [key]
    | .error _ => []
  | sMove src dst _ => [src, dst]
  | sInterStore _ keys | sUnionStore _ keys | sDiffStore _ keys => keys
  | _ => []

/-- The cells that the mutation reads are still there at a later time; a deadline that is over by then
may be put on any cell. -/
def Durable (codec : Codec) (later : ℕ) (v : View) : Mutation → Prop
  | pExpireAt key ts => ts ≤ later ∨ settle later (v key) = v key
  | m => ∀ key ∈ m.reads codec, settle later (v key) = v key

/-- A mutation uses neither the clock nor chance. -/
theorem program_eq (codec : Codec) (env env' : Env) (m : Mutation) :
    program codec env m.toCommand = program codec env' m.toCommand := by
  cases m
  case set key val deadline => cases deadline <;> rfl
  all_goals rfl

end Mutation

/-! ## One key -/

/-- The act does the same to a cell and to what is left of it later. -/
structure Delays (later : ℕ) (act : Act) (l : Option Cell) : Prop where
  cell : SameConfig (settle later ((act l).1.apply l))
    (settle later ((act (settle later l)).1.apply (settle later l)))
  succeeds : (act l).2.isError = false → (act (settle later l)).2.isError = false

variable {t later : ℕ} {act : Act} {l : Option Cell}

theorem delays_of_lasting (lasting : settle later l = l) : Delays later act l := by
  constructor
  · rw [lasting]
    exact rfl
  · rw [lasting]
    exact id

/-- A cell that is overwritten need not last. -/
theorem delays_of_overwriting {c : Option Cell} {reply : Value}
    (same : ∀ l, (act l).1.apply l = c ∧ (act l).2 = reply) : Delays later act l := by
  constructor
  · rw [(same l).1, (same _).1]
    exact rfl
  · rw [(same l).2, (same _).2]
    exact id

/-- It is enough to look at cells that have lapsed by the later time. -/
theorem delays_of_lapsed (lapsed : ∀ c, l = some c → c.isExpired later = true →
    SameConfig (settle later ((act (some c)).1.apply (some c))) (settle later ((act none).1.apply none)) ∧
      ((act (some c)).2.isError = false → (act none).2.isError = false)) : Delays later act l := by
  cases l with
  | none => exact delays_of_lasting rfl
  | some c =>
    cases expired : c.isExpired later with
    | false => exact delays_of_lasting (settle_eq_some.mpr ⟨rfl, expired⟩)
    | true =>
      have gone : settle later (some c) = none := by simp [settle, Option.filter_some, expired]
      obtain ⟨cell, succeeds⟩ := lapsed c rfl expired
      exact ⟨gone ▸ cell, gone ▸ succeeds⟩

theorem settle_value {c : Cell} (lapsed : c.isExpired later = true) (value : EntryValue) :
    settle later (some { c with value }) = none := by
  have same : Cell.isExpired later { c with value } = true := lapsed
  simp [settle, Option.filter_some, same]

/-- A change in place keeps the deadline of the cell, so that what it changes lapses with it. -/
theorem delays_updateAs {α : Type} (k : Kind α) {absent : Value} (plain : absent.isError = false)
    (f : α → α × Value) : Delays later (updateAs k absent f) l := by
  refine delays_of_lapsed fun c _ lapsed => ⟨?_, fun _ => plain⟩
  cases kind : k.unwrap c.value with
  | none =>
    rw [updateAs_other kind]
    exact congrArg config (settle_value lapsed c.value)
  | some x =>
    rw [updateAs_held kind]
    exact congrArg config (settle_value lapsed _)

theorem delays_setExpiry {ts : ℕ} (durable : ts ≤ later ∨ settle later l = l) :
    Delays later (setExpiry ts) l := by
  obtain past | lasting := durable
  · refine delays_of_lapsed fun c _ _ => ⟨?_, fun _ => rfl⟩
    have gone : settle later (some { c with expiresAtMs := some ts }) = none := by
      simp [settle, Lapse.Cell.isExpired, past]
    exact congrArg config gone
  · exact delays_of_lasting lasting

theorem delays_rlSet (limit windowSecs : ℕ) (ok : (rlSetAct limit windowSecs l).2.isError = false) :
    Delays later (rlSetAct limit windowSecs) l := by
  refine delays_of_lapsed fun c held _ => ⟨?_, fun _ => rfl⟩
  subst held
  cases kind : Kind.rateLimiter.unwrap c.value with
  | none =>
    simp only [rlSetAct, kind] at ok
    cases ok
  | some rl =>
    simp only [rlSetAct, kind]
    rfl

theorem delays_jMerge {patch : String}
    (durable : ∀ p, codec.fromStr patch = .ok p → p.isNull = true ∨ settle later l = l) :
    Delays later (jMergeAct codec patch) l := by
  cases read : codec.fromStr patch with
  | error e =>
    refine delays_of_lapsed fun c _ lapsed => ⟨?_, ?_⟩
    · simp only [jMergeAct, read, Effect.apply_keep]
      exact congrArg config (settle_value lapsed c.value)
    · simp only [jMergeAct, read]
      exact id
  | ok p =>
    obtain null | lasting := durable p read
    · refine delays_of_lapsed fun c _ lapsed => ⟨?_, ?_⟩
      · simp only [jMergeAct, read, null, if_true]
        split_ifs
        · rfl
        · rfl
        · exact congrArg config (settle_value lapsed c.value)
        · exact congrArg config (settle_value lapsed c.value)
      · simp only [jMergeAct, read, null, if_true]
        exact fun _ => rfl
    · exact delays_of_lasting lasting

/-! ## Views -/

/-- The program does the same to a view and to what is left of it later, and succeeds again. -/
structure DelaysOn (t later : ℕ) (p : Prog Value) (v : View) : Prop where
  view : SameView ((p.eval t v).2.settle later) (p.eval later (v.settle later)).2
  succeeds : (p.eval t v).1.isError = false → (p.eval later (v.settle later)).1.isError = false

variable {key : String}

theorem delaysOn_one (le : t ≤ later) (delays : Delays later act (v key)) :
    DelaysOn t later (.one key act) v := by
  refine ⟨fun k => ?_, delays.succeeds⟩
  simp only [Prog.eval_one, View.settle]
  by_cases same : k = key
  · subst same
    rw [Function.update_self, Function.update_self, settle_settle le]
    exact delays.cell
  · rw [Function.update_of_ne same, Function.update_of_ne same]
    rfl

/-- A program on cells that are still there later does the same. -/
theorem delaysOn_of_steady {p : Prog Value} {keys : List String} (on : p.On {k | k ∈ keys})
    (steady : p.Steady t later) (lasting : ∀ k ∈ keys, settle later (v k) = v k) :
    DelaysOn t later p v := by
  obtain ⟨reply, view⟩ := Prog.eval_later on steady lasting
  exact ⟨view ▸ .refl _, reply ▸ id⟩

theorem delaysOn_mSetPairs (t later : ℕ) (pairs : List (String × Bytes)) (v : View) :
    DelaysOn t later (mSetPairs pairs) v := by
  refine ⟨?_, fun _ => by rw [eval_mSetPairs]; rfl⟩
  induction pairs generalizing v with
  | nil => exact fun k => rfl
  | cons pair pairs ih =>
    have same : View.settle later (Function.update v pair.1 (settle t (some ⟨.str pair.2, none⟩))) =
        Function.update (v.settle later) pair.1 (settle later (some ⟨.str pair.2, none⟩)) := by
      funext k
      by_cases eq : k = pair.1 <;> simp [View.settle, eq]
    simp only [mSetPairs, Prog.eval, Effect.apply_replace]
    rw [← same]
    exact ih _

theorem delaysOn_delKeys (later : ℕ) (keys : List String) (live : ∀ k, settle t (v k) = v k) :
    DelaysOn t later ((delKeys keys 0).bind fun n => .done (.integer n)) v := by
  constructor
  · intro k
    have alive (k : String) : settle later (v.settle later k) = v.settle later k := settle_self later (v k)
    simp only [Prog.eval_bind, Prog.eval_done, View.settle]
    rw [eval_delKeys t keys 0 v k live, eval_delKeys later keys 0 (v.settle later) k alive]
    split_ifs <;> rfl
  · intro _
    simp only [Prog.eval_bind, Prog.eval_done]
    rfl

theorem steady_readSets (le : t ≤ later) (keys : List String) : (readSets keys).Steady t later := by
  induction keys with
  | nil => trivial
  | cons key keys ih =>
    refine ⟨fun l live => (settle_of_settled le live).trans live.symm, fun l => ?_⟩
    cases l with
    | none => exact ih.bind fun _ => trivial
    | some c =>
      dsimp only
      split
      · exact ih.bind fun _ => trivial
      · trivial

theorem delaysOn_combineStore (le : t ≤ later) (dst : String) {keys : List String}
    (f : List (Option MemberSet) → MemberSet) (live : ∀ k, settle t (v k) = v k)
    (lasting : ∀ k ∈ keys, settle later (v k) = v k) :
    DelaysOn t later (combineStore dst keys f) v := by
  obtain ⟨reply, view⟩ := Prog.eval_later (readSets_on keys) (steady_readSets le keys) lasting
  have first : ((readSets keys).eval t v).2 = v := @eval_readSets (.fixed t) v live keys
  rw [first] at view
  constructor
  · simp only [combineStore, Prog.eval_bind]
    rw [← reply, ← view, first]
    cases ((readSets keys).eval t v).1 with
    | error e => exact .refl _
    | ok sets => exact (delaysOn_one le (delays_of_overwriting fun _ => ⟨rfl, rfl⟩)).view
  · simp only [combineStore, Prog.eval_bind]
    rw [← reply]
    cases ((readSets keys).eval t v).1 with
    | error e => exact id
    | ok sets => exact fun _ => rfl

theorem settled_updateAs {α : Type} (k : Kind α) (absent : Value) (f : α → α × Value)
    (live : settle later l = l) :
    settle later ((updateAs k absent f l).1.apply l) = (updateAs k absent f l).1.apply l := by
  cases l with
  | none => rfl
  | some c =>
    cases kind : k.unwrap c.value with
    | none =>
      rw [updateAs_other kind]
      exact live
    | some x =>
      rw [updateAs_held kind]
      exact settle_eq_some.mpr ⟨rfl, (settle_eq_some.mp live).2⟩

theorem settled_typedEntry {α : Type} (k : Kind α) (default : α) (f : α → α × Value)
    (live : settle later l = l) :
    settle later ((typedEntry k default f l).1.apply l) = (typedEntry k default f l).1.apply l := by
  cases l with
  | none => rfl
  | some c => exact settled_updateAs k nil f live

theorem steady_sMove (le : t ≤ later) (src dst member : String) :
    (sMove src dst member).Steady t later := by
  have settled {l : Option Cell} (live : settle later l = l) : settle t l = settle later l :=
    (settle_of_settled le live).trans live.symm
  refine ⟨fun _ => settled, fun s => ⟨fun _ => settled, fun d => ?_⟩⟩
  dsimp only
  split_ifs
  · trivial
  · refine ⟨fun l live => settled (settled_updateAs _ _ _ live), fun l => ?_⟩
    dsimp only
    split_ifs
    · exact ⟨fun l live => settled (settled_typedEntry _ _ _ live), fun _ => trivial⟩
    · trivial

theorem delaysOn_rename (t : ℕ) {src dst : String} (lasting : settle later (v src) = v src)
    (ok : ((program codec env (.rename src dst)).eval t v).1.isError = false) :
    DelaysOn t later (program codec env (.rename src dst)) v := by
  refine ⟨fun k => ?_, ?_⟩
  · simp only [program, Prog.eval, View.settle, lasting] at ok ⊢
    cases held : v src with
    | none =>
      rw [held] at ok
      cases ok
    | some c =>
      rw [held] at lasting
      simp only [Function.update_apply]
      split_ifs
      · exact congrArg config lasting
      · rfl
      · rfl
  · simp only [program, Prog.eval, View.settle, lasting]
    cases v src <;> exact id

/-- A mutation that succeeds does the same later, if it is durable. -/
theorem perform_delayed (le : env.now ≤ env'.now) (live : ∀ k, settle env.now (v k) = v k)
    (durable : m.Durable codec env'.now v)
    (ok : (perform codec env m.toCommand v).1.isError = false) :
    SameView ((perform codec env m.toCommand v).2.settle env'.now)
        (perform codec env' m.toCommand (v.settle env'.now)).2 ∧
      (perform codec env' m.toCommand (v.settle env'.now)).1.isError = false := by
  suffices delays : DelaysOn env.now env'.now (program codec env m.toCommand) v by
    rw [perform, perform, ← m.program_eq codec env env']
    exact ⟨delays.view, delays.succeeds ok⟩
  have lasting (keys : List String) (reads : m.reads codec = keys)
      (plain : m.Durable codec env'.now v = ∀ key ∈ m.reads codec, settle env'.now (v key) = v key) :
      ∀ key ∈ keys, settle env'.now (v key) = v key := by
    rw [plain, reads] at durable
    exact durable
  cases m
  case set key val deadline =>
    cases deadline with
    | none => exact delaysOn_one le (delays_of_overwriting fun _ => ⟨rfl, rfl⟩)
    | till ms => exact delaysOn_one le (delays_of_overwriting fun _ => ⟨rfl, rfl⟩)
    | keep => exact delaysOn_one le (delays_of_lasting (lasting [key] rfl rfl key List.mem_cons_self))
  case del keys => exact delaysOn_delKeys _ keys live
  case mSet pairs => exact delaysOn_mSetPairs _ _ pairs v
  case flushDb => exact ⟨fun k => rfl, fun _ => rfl⟩
  case pExpireAt key ts => exact delaysOn_one le (delays_setExpiry durable)
  case rename src dst => exact delaysOn_rename _ (lasting [src] rfl rfl src List.mem_cons_self) ok
  case hDel key fields | lPop key count | rPop key count | lRem key count element
      | lTrim key start stop | sRem key members | zRem key members =>
    exact delaysOn_one le (delays_updateAs _ (by first | rfl | (cases count <;> rfl)) _)
  case sMove src dst member =>
    exact delaysOn_of_steady (sMove_on src dst member) (steady_sMove le src dst member)
      (lasting [src, dst] rfl rfl)
  case sInterStore dst keys | sUnionStore dst keys | sDiffStore dst keys =>
    exact delaysOn_combineStore le dst _ live (lasting keys rfl rfl)
  case jMerge key patch =>
    refine delaysOn_one le (delays_jMerge fun p read => ?_)
    by_cases null : p.isNull = true
    · exact .inl null
    · have reads : (Mutation.jMerge key patch).reads codec = [key] := by
        simp only [Mutation.reads, read, if_neg null]
      exact .inr (lasting [key] reads rfl key List.mem_cons_self)
  case rlSet key limit windowSecs => exact delaysOn_one le (delays_rlSet limit windowSecs ok)
  -- the other mutations build on the cell of their key
  all_goals exact delaysOn_one le (delays_of_lasting (lasting [_] rfl rfl _ List.mem_cons_self))

/-! ## Recorded attempts -/

/-- Whether an act fails does not depend on recorded attempts if it fails on every limiter, or on none. -/
theorem isError_one {act : Act} {key : String}
    (same : ∀ rl rl' exp, (act (some ⟨.rateLimiter rl, exp⟩)).2.isError =
      (act (some ⟨.rateLimiter rl', exp⟩)).2.isError) (h : SameView v w) (t : ℕ) :
    ((Prog.one key act).eval t v).1.isError = ((Prog.one key act).eval t w).1.isError := by
  rw [Prog.eval_one, Prog.eval_one]
  obtain eq | ⟨rl, rl', exp, l, l', -⟩ := SameConfig.cases (h key)
  · rw [eq]
  · rw [l, l']
    exact same rl rl' exp

theorem reply_readSets (liveV : ∀ k, settle t (v k) = v k) (liveW : ∀ k, settle t (w k) = w k)
    (h : SameView v w) (keys : List String) :
    ((readSets keys).eval t v).1 = ((readSets keys).eval t w).1 := by
  induction keys with
  | nil => rfl
  | cons key keys ih =>
    simp only [readSets, Prog.read, Prog.eval, Effect.apply_keep, liveV, liveW, Function.update_eq_self]
    obtain eq | ⟨rl, rl', exp, l, l', -⟩ := SameConfig.cases (h key)
    · rw [eq]
      split
      · rw [Prog.eval_bind, Prog.eval_bind, ih]
        rfl
      · split
        · rw [Prog.eval_bind, Prog.eval_bind, ih]
          rfl
        · rfl
    · rw [l, l']
      rfl

theorem isError_combineStore (dst : String) {keys : List String}
    (f : List (Option MemberSet) → MemberSet) (liveV : ∀ k, settle t (v k) = v k)
    (liveW : ∀ k, settle t (w k) = w k) (h : SameView v w) :
    ((combineStore dst keys f).eval t v).1.isError = ((combineStore dst keys f).eval t w).1.isError := by
  rw [combineStore, Prog.eval_bind, Prog.eval_bind, reply_readSets liveV liveW h keys]
  cases ((readSets keys).eval t w).1 <;> rfl

/-- `SMOVE` fails if one of its keys holds something else than a set. -/
theorem isError_sMove (src dst member : String) (live : ∀ k, settle t (v k) = v k) :
    ((sMove src dst member).eval t v).1.isError = (notSet (v src) || notSet (v dst)) := by
  have keep (k : String) : Function.update v k (settle t (Effect.keep.apply (v k))) = v := by
    rw [Effect.apply_keep, live, Function.update_eq_self]
  simp only [sMove, Prog.read, Prog.eval, keep]
  cases kinds : notSet (v src) || notSet (v dst) with
  | true => rfl
  | false =>
    simp only [Bool.false_eq_true, if_false, Prog.eval]
    rw [Bool.or_eq_false_iff, ← holds_set_iff, ← holds_set_iff] at kinds
    split
    · have holds : Holds .set (Function.update v src (settle t
          ((updateAs .set nil (fun s => (s.erase member, nil)) (v src)).1.apply (v src))) dst) := by
        by_cases same : dst = src
        · subst same
          rw [Function.update_self]
          exact holds_updateAs kinds.1
        · rw [Function.update_of_ne same]
          exact kinds.2
      rw [Prog.eval_one, (typedEntry_apply holds _ _).2]
      rfl
    · rfl

theorem notSet_sameConfig {l l' : Option Cell} (h : SameConfig l l') : notSet l = notSet l' := by
  obtain rfl | ⟨rl, rl', exp, rfl, rfl, -⟩ := h.cases <;> rfl

/-- Whether a mutation fails does not depend on recorded attempts. -/
theorem perform_isError_sameView (codec : Codec) (env : Env) (m : Mutation) (h : SameView v w)
    (liveV : ∀ k, settle env.now (v k) = v k) (liveW : ∀ k, settle env.now (w k) = w k) :
    (perform codec env m.toCommand v).1.isError = (perform codec env m.toCommand w).1.isError := by
  unfold perform
  cases m
  case set key val deadline => cases deadline <;> exact isError_one (fun _ _ _ => rfl) h _
  case del keys =>
    simp only [Mutation.toCommand, program, Prog.eval_bind, Prog.eval_done]
    rfl
  case mSet pairs =>
    simp only [Mutation.toCommand, program, eval_mSetPairs]
  case flushDb => rfl
  case rename src dst =>
    have there := similar_sameConfig.isSome (h src)
    simp only [Mutation.toCommand, program, Prog.eval]
    cases held : v src with
    | none =>
      rw [held, Option.isSome_none] at there
      rw [Option.not_isSome_iff_eq_none.mp (Bool.eq_false_iff.mp there.symm)]
    | some c =>
      rw [held, Option.isSome_some] at there
      obtain ⟨c', held'⟩ := Option.isSome_iff_exists.mp there.symm
      rw [held']
  case sMove src dst member =>
    simp only [Mutation.toCommand, program, isError_sMove src dst member liveV,
      isError_sMove src dst member liveW, notSet_sameConfig (h src), notSet_sameConfig (h dst)]
  case sInterStore dst keys | sUnionStore dst keys | sDiffStore dst keys =>
    exact isError_combineStore dst _ liveV liveW h
  case persist key => exact isError_one (fun _ _ exp => by cases exp <;> rfl) h _
  case jSet key path value =>
    refine isError_one (fun _ _ _ => ?_) h _
    unfold jSetAct
    split
    · rfl
    · split <;> rfl
  case jMerge key patch =>
    refine isError_one (fun _ _ _ => ?_) h _
    unfold jMergeAct
    split <;> rfl
  all_goals exact isError_one (fun _ _ _ => rfl) h _

end Recached
