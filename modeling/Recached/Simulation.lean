import Recached.Effects
import Recached.Frames

/-!
# One step of propagation

A replica that executes the frame of a command is where the primary is after the command.
`mirrored_iff` says when, on views: the mutation must do what the command did, which only a
conditional `SET` with `GET`, an `SADD` without members, score flags and signs, and `RLCHECK` can
prevent.  `simulates_iff` is the same for stores and frames.
-/

namespace Recached

open Text Lapse

/-! ## Views up to the attempts of rate limiters -/

/-- A value without the attempts that a rate limiter has recorded. -/
def EntryValue.config : EntryValue → EntryValue
  | .rateLimiter rl => .rateLimiter { rl with buckets := [] }
  | v => v

def config (l : Option Cell) : Option Cell := l.map fun c => { c with value := c.value.config }

/-- The same live keys with the same values and deadlines, recorded attempts left aside. -/
def SameView (v w : View) : Prop := ∀ k, config (v k) = config (w k)

@[refl] theorem SameView.refl (v : View) : SameView v v := fun _ => rfl

theorem SameView.symm {v w : View} (h : SameView v w) : SameView w v := fun k => (h k).symm

theorem SameView.trans {u v w : View} (h : SameView u v) (h' : SameView v w) : SameView u w :=
  fun k => (h k).trans (h' k)

theorem sameView_update {v : View} {key : String} {a b : Option Cell} :
    SameView (Function.update v key a) (Function.update v key b) ↔ config a = config b := by
  constructor
  · intro h
    have := h key
    rwa [Function.update_self, Function.update_self] at this
  · intro h k
    by_cases same : k = key
    · subst same
      rwa [Function.update_self, Function.update_self]
    · rw [Function.update_of_ne same, Function.update_of_ne same]

theorem sameView_update_self {v : View} {key : String} {a : Option Cell} :
    SameView (Function.update v key a) v ↔ config a = config (v key) := by
  conv_lhs => rw [← Function.update_eq_self key v]
  rw [Function.update_idem, sameView_update]

/-! ## Commands on one key -/

/-- The cell of a key after a command on it. -/
def afterAct (now : ℕ) (act : Act) (l : Option Cell) : Option Cell :=
  Lapse.settle now ((act l).1.apply l)

theorem perform_one {codec : Codec} {env : Env} {cmd : Command} {key : String} {act : Act}
    (h : program codec env cmd = .one key act) (v : View) :
    perform codec env cmd v =
      ((act (v key)).2, Function.update v key (afterAct env.now act (v key))) := by
  rw [perform, h, Prog.eval_one]
  rfl

theorem updateAs_unchanged {α : Type} {k : Kind α} {absent : Value} {f : α → α × Value}
    (changed : Value → Bool) (fixed : ∀ x, changed (f x).2 = false → (f x).1 = x)
    {l : Option Cell} (h : changed (updateAs k absent f l).2 = false) :
    (updateAs k absent f l).1.apply l = l := by
  cases l with
  | none => rfl
  | some c =>
    cases held : k.unwrap c.value with
    | none =>
      rw [updateAs_other held]
      rfl
    | some x =>
      rw [updateAs_held held] at h ⊢
      rw [fixed x h, ← k.unwrap_eq_some.mp held]
      rfl

theorem typedEntry_unchanged {α : Type} {k : Kind α} {default : α} {f : α → α × Value}
    (changed : Value → Bool) (fixed : ∀ x, changed (f x).2 = false → (f x).1 = x)
    {l : Option Cell} (fresh : l = none → changed (f default).2 = true)
    (h : changed (typedEntry k default f l).2 = false) : (typedEntry k default f l).1.apply l = l := by
  cases l with
  | none => exact absurd (fresh rfl) (by rw [show changed (f default).2 = false from h]; decide)
  | some c =>
    cases held : k.unwrap c.value with
    | none =>
      rw [typedEntry_other held]
      rfl
    | some x =>
      rw [typedEntry_held held] at h ⊢
      rw [fixed x h, ← k.unwrap_eq_some.mp held]
      rfl

/-! ## The mutation and the command -/

/-- The absolute form of a command on a view. -/
def outcome (codec : Codec) (env : Env) (cmd : Command) (v : View) : Option Mutation :=
  absolute env.now (perform codec env cmd v).1 cmd

/-- The mutation that is sent does what the command did; if none is sent, the command did nothing. -/
def Mirrored (codec : Codec) (env : Env) (cmd : Command) (v : View) : Prop :=
  match outcome codec env cmd v with
  | some m => SameView (perform codec env m.wire.toCommand v).2 (perform codec env cmd v).2
  | none => SameView (perform codec env cmd v).2 v

variable {codec : Codec} {env : Env} {cmd : Command} {v : View}

theorem mirrored_some {m : Mutation} (form : outcome codec env cmd v = some m) :
    Mirrored codec env cmd v ↔
      SameView (perform codec env m.wire.toCommand v).2 (perform codec env cmd v).2 := by
  rw [Mirrored, form]

theorem mirrored_none (form : outcome codec env cmd v = none) :
    Mirrored codec env cmd v ↔ SameView (perform codec env cmd v).2 v := by
  rw [Mirrored, form]

/-- The mutation is the same program as the command. -/
theorem mirrored_of_program {m : Mutation} (form : outcome codec env cmd v = some m)
    (same : program codec env m.wire.toCommand = program codec env cmd) : Mirrored codec env cmd v := by
  rw [mirrored_some form, perform, perform, same]

/-- The command leaves the cell of its only key as it was. -/
theorem mirrored_of_unchanged {key : String} {act : Act} (form : outcome codec env cmd v = none)
    (one : program codec env cmd = .one key act) (live : Lapse.settle env.now (v key) = v key)
    (same : (act (v key)).1.apply (v key) = v key) : Mirrored codec env cmd v := by
  rw [mirrored_none form, perform_one one, sameView_update_self, afterAct, same, live]

/-- The command and the mutation treat the cell of their only key alike. -/
theorem mirrored_of_act {m : Mutation} {key : String} (act act' : Act)
    (form : outcome codec env cmd v = some m) (one : program codec env cmd = .one key act)
    (one' : program codec env m.wire.toCommand = .one key act') :
    Mirrored codec env cmd v ↔
      config (afterAct env.now act' (v key)) = config (afterAct env.now act (v key)) := by
  rw [mirrored_some form, perform_one one, perform_one one', sameView_update]

/-- A command that is sent as itself if its reply says that it changed something. -/
theorem mirrored_of_when (m : Mutation) {key : String} {act : Act} (changed : Value → Bool)
    (one : program codec env cmd = .one key act)
    (form : outcome codec env cmd v = when (changed (act (v key)).2) m)
    (same : program codec env m.wire.toCommand = program codec env cmd)
    (live : Lapse.settle env.now (v key) = v key)
    (unchanged : changed (act (v key)).2 = false → (act (v key)).1.apply (v key) = v key) :
    Mirrored codec env cmd v := by
  cases h : changed (act (v key)).2 with
  | true => exact mirrored_of_program (form.trans (by rw [h]; rfl)) same
  | false => exact mirrored_of_unchanged (form.trans (by rw [h]; rfl)) one live (unchanged h)

/-! ## What a mutation loses -/

/-- The new deadline of a key after a `SET`. -/
def Deadline.over (d : Deadline) (l : Option Cell) : Option ℕ :=
  match d with
  | none => Option.none
  | till ms => some ms
  | keep => l.bind Lapse.Cell.expiresAtMs

def zsetOf (l : Option Cell) : ZSet := (l.bind fun c => Kind.zset.unwrap c.value).getD ∅

/-- A check that records an attempt and otherwise leaves the limiter as it is configured. -/
def OnlyAttempts (now : ℕ) (config : Option (ℕ × ℕ)) : Option Cell → Prop
  | none => ∀ p ∈ config, satAdd now (satMul p.2 1000) ≤ now
  | some c => ∀ rl, c.value = .rateLimiter rl →
    (∀ p ∈ config, rl.limit = p.1 ∧ rl.windowMs = satMul p.2 1000) ∧
      ∀ d ∈ c.expiresAtMs, d = satAdd now rl.windowMs

/-- The mutation of a command keeps what the command did to this view: a `SET` with `GET` met its
condition or set what was there; `SADD` has members or the key lives; every member that `ZADD` lists
ends with the score that the pairs give it without `GT` and `LT` and as they are read back; `ZINCRBY`
does not add negative zero to negative zero; and `RLCHECK` records an attempt and nothing else. -/
def Kept (env : Env) (cmd : Command) (v : View) : Prop :=
  match cmd with
  | .set key val opts => opts.get = true → conditionMet (v key) opts.condition = false →
    Lapse.settle env.now
      (some ⟨.str val, (Deadline.ofExpiry env.now opts.expiry).over (v key)⟩) = v key
  | .sAdd key members => members = [] → (v key).isSome
  | .zAdd key opts pairs => ∀ m ∈ pairs.map Prod.snd,
    zScoreAfter opts (zsetOf (v key)) pairs m =
      zScoreAfter (wireOptions opts) (zsetOf (v key)) (wirePairs pairs) m
  | .zIncrBy key delta member => delta = Binary64.zero.negate →
    (zsetOf (v key))[member]? ≠ some Binary64.zero.negate
  | .rlCheck key config => OnlyAttempts env.now config (v key)
  | _ => True

theorem config_eq_iff {x l : Option Cell} (plain : ∀ c ∈ x, ∀ rl, c.value ≠ .rateLimiter rl) :
    config x = config l ↔ x = l := by
  refine ⟨fun h => ?_, fun h => h ▸ rfl⟩
  cases x with
  | none => cases l with
    | none => rfl
    | some c => exact absurd h nofun
  | some c => cases l with
    | none => exact absurd h nofun
    | some c' =>
      obtain ⟨value, exp⟩ := c
      obtain ⟨value', exp'⟩ := c'
      simp only [config, Option.map_some, Option.some.injEq, Lapse.Cell.mk.injEq] at h ⊢
      refine ⟨?_, h.2⟩
      have := plain _ rfl
      cases value <;> cases value' <;> simp_all [EntryValue.config]

/-! ### SET -/

theorem setAct_plain (now : ℕ) (val : Bytes) (d : Deadline) (l : Option Cell) :
    setAct now val { expiry := d.expiry } l = (.replace ⟨.str val, d.over l⟩, ok) := by
  cases d <;> rfl

theorem setDeadline_eq {now : ℕ} {existing : Option ℕ} {l : Option Cell}
    (h : existing = l.bind Lapse.Cell.expiresAtMs) {expiry : Option SetExpiry} {e : Option ℕ}
    (ok : setDeadline now existing expiry = .ok e) : e = (Deadline.ofExpiry now expiry).over l := by
  subst h
  unfold setDeadline at ok
  split at ok
  · exact (Except.ok.inj ok).symm
  · rename_i seconds
    split_ifs at ok with overflow
    have whole : satMul seconds 1000 = seconds * 1000 := by
      unfold satMul
      have : seconds * 1000 ≤ Decimal.u64Max := by omega
      exact min_eq_left this
    rw [← Except.ok.inj ok, ← whole]
    rfl
  · exact (Except.ok.inj ok).symm
  · exact (Except.ok.inj ok).symm
  · exact (Except.ok.inj ok).symm
  · exact (Except.ok.inj ok).symm

theorem setDeadline_error {now : ℕ} {existing : Option ℕ} {expiry : Option SetExpiry} {e : Value}
    (h : setDeadline now existing expiry = .error e) : e.isError = true := by
  unfold setDeadline at h
  split at h
  case h_2 =>
    split_ifs at h
    exact Except.error.inj h ▸ rfl
  all_goals exact absurd h nofun

theorem mirrored_set {key : String} {val : Bytes} {opts : SetOptions}
    (live : Lapse.settle env.now (v key) = v key)
    (ok : (perform codec env (.set key val opts) v).1.isError = false) :
    Mirrored codec env (.set key val opts) v ↔ Kept env (.set key val opts) v := by
  have one : program codec env (.set key val opts) = .one key (setAct env.now val opts) := rfl
  have one' : program codec env (Mutation.set key val (.ofExpiry env.now opts.expiry)).wire.toCommand =
      .one key (setAct env.now val { expiry := (Deadline.ofExpiry env.now opts.expiry).expiry }) := rfl
  have form : outcome codec env (.set key val opts) v =
      when (opts.get || !isNil (setAct env.now val opts (v key)).2)
        (.set key val (.ofExpiry env.now opts.expiry)) := rfl
  change (setAct env.now val opts (v key)).2.isError = false at ok
  by_cases wrong : opts.get && (v key).isSome && (existingStr (v key)).isNone
  · rw [setAct, if_pos wrong] at ok
    cases ok
  cases met : conditionMet (v key) opts.condition with
  | false =>
    have act : setAct env.now val opts (v key) =
        (.keep, if opts.get then .bulkString (existingStr (v key)) else nil) := by
      rw [setAct, if_neg wrong]
      simp [met]
    cases get : opts.get with
    | false =>
      have silent : Mirrored codec env (.set key val opts) v :=
        mirrored_of_unchanged (form.trans (by rw [act, get]; rfl)) one live (by rw [act]; rfl)
      exact iff_of_true silent fun h => absurd (get ▸ h) Bool.false_ne_true
    | true =>
      rw [mirrored_of_act _ _ (form.trans (by rw [get]; rfl)) one one', afterAct, afterAct, setAct_plain,
        act, Effect.apply_replace, Effect.apply_keep, live]
      rw [config_eq_iff]
      · simp [Kept, get, met]
      · intro c hc rl
        obtain ⟨new, -⟩ := Lapse.settle_eq_some.mp hc
        rw [← Option.some.inj new]
        rintro ⟨⟩
  | true =>
    cases deadline : setDeadline env.now ((v key).bind Lapse.Cell.expiresAtMs) opts.expiry with
    | error e =>
      have act : setAct env.now val opts (v key) = (.keep, e) := by
        rw [setAct, if_neg wrong, met, Bool.not_true, if_neg Bool.false_ne_true, deadline]
      rw [act] at ok
      exact absurd (setDeadline_error deadline) (by rw [show e.isError = false from ok]; decide)
    | ok e =>
      have act : setAct env.now val opts (v key) = (.replace ⟨.str val, e⟩,
          if opts.get then .bulkString (existingStr (v key)) else Recached.ok) := by
        rw [setAct, if_neg wrong, met, Bool.not_true, if_neg Bool.false_ne_true, deadline]
      have sent : (opts.get || !isNil (setAct env.now val opts (v key)).2) = true := by
        rw [act]
        cases opts.get <;> rfl
      rw [mirrored_of_act _ _ (form.trans (by rw [sent]; rfl)) one one', afterAct, afterAct, setAct_plain,
        act, setDeadline_eq rfl deadline]
      exact iff_of_true rfl fun _ unmet => absurd (met.symm.trans unmet) (by decide)

/-! ### Values that are created when they are not there -/

/-- The value of one kind that a key holds. -/
def held {α : Type} (k : Kind α) (l : Option Cell) : Option α := l.bind fun c => k.unwrap c.value

/-- The key does not hold another kind of value. -/
def Holds {α : Type} (k : Kind α) (l : Option Cell) : Prop := ∀ c ∈ l, (k.unwrap c.value).isSome

theorem holds_of_typedEntry {α : Type} {k : Kind α} {default : α} {f : α → α × Value}
    {l : Option Cell} (ok : (typedEntry k default f l).2.isError = false) : Holds k l := by
  rintro c rfl
  cases kind : k.unwrap c.value with
  | none =>
    rw [typedEntry_other kind] at ok
    exact absurd ok nofun
  | some x => rfl

theorem typedEntry_apply {α : Type} {k : Kind α} {l : Option Cell} (holds : Holds k l) (default : α)
    (f : α → α × Value) :
    (typedEntry k default f l).1.apply l =
        some ⟨k.wrap (f ((held k l).getD default)).1, l.bind Lapse.Cell.expiresAtMs⟩ ∧
      (typedEntry k default f l).2 = (f ((held k l).getD default)).2 := by
  cases l with
  | none => exact ⟨rfl, rfl⟩
  | some c =>
    obtain ⟨x, kind⟩ := Option.isSome_iff_exists.mp (holds c rfl)
    rw [typedEntry_held kind]
    simp [held, kind]

/-- A value of the same kind without a new deadline lives if the old one did. -/
theorem settle_kept {now : ℕ} {l : Option Cell} (live : Lapse.settle now l = l) (value : EntryValue) :
    Lapse.settle now (some ⟨value, l.bind Lapse.Cell.expiresAtMs⟩) =
      some ⟨value, l.bind Lapse.Cell.expiresAtMs⟩ := by
  cases l with
  | none => rfl
  | some c =>
    obtain ⟨-, alive⟩ := Lapse.settle_eq_some.mp live
    exact Lapse.settle_eq_some.mpr ⟨rfl, alive⟩

theorem mirrored_sAdd {key : String} {members : List String}
    (live : Lapse.settle env.now (v key) = v key)
    (ok : (perform codec env (.sAdd key members) v).1.isError = false) :
    Mirrored codec env (.sAdd key members) v ↔ Kept env (.sAdd key members) v := by
  let add : MemberSet → MemberSet × Value := fun s =>
    ((insertAll members s).2, .integer (insertAll members s).1)
  have one : program codec env (.sAdd key members) = .one key (typedEntry .set ∅ add) := rfl
  have form : outcome codec env (.sAdd key members) v =
      when (isPositive (typedEntry .set ∅ add (v key)).2) (.sAdd key members) := rfl
  change (typedEntry .set ∅ add (v key)).2.isError = false at ok
  have fixed : ∀ s, isPositive (add s).2 = false → (add s).1 = s := by
    intro s h
    refine insertAll_zero _ _ ?_
    simpa [add, isPositive] using h
  by_cases empty : members = [] ∧ v key = none
  · obtain ⟨rfl, absent⟩ := empty
    rw [mirrored_none (form.trans (by rw [absent]; rfl)), perform_one one, sameView_update_self, absent]
    simp [Kept, absent, config, afterAct, typedEntry]
  · have kept : Kept env (.sAdd key members) v := by
      intro none
      simpa [Option.isSome_iff_ne_none] using fun absent => empty ⟨none, absent⟩
    refine iff_of_true (mirrored_of_when (.sAdd key members) isPositive one form rfl live ?_) kept
    refine typedEntry_unchanged isPositive fixed fun absent => ?_
    cases members with
    | nil => exact absurd ⟨rfl, absent⟩ empty
    | cons m ms =>
      have new : (∅ : MemberSet).contains m = false := Std.ExtTreeSet.contains_empty
      simp only [add, insertAll, new, Bool.false_eq_true, if_false, isPositive]
      simp

theorem zscores_eq_iff {opts opts' : ZAddOptions} {z : ZSet} {pairs pairs' : List (Binary64 × String)}
    (listed : pairs'.map Prod.snd = pairs.map Prod.snd) :
    (zAddExec z opts' pairs').1 = (zAddExec z opts pairs).1 ↔
      ∀ m ∈ pairs.map Prod.snd, zScoreAfter opts z pairs m = zScoreAfter opts' z pairs' m := by
  constructor
  · intro same m _
    rw [← zAddExec_score, ← zAddExec_score, same]
  · intro same
    refine Std.ExtTreeMap.ext_getElem? fun {m} => ?_
    rw [zAddExec_score, zAddExec_score]
    by_cases there : m ∈ pairs.map Prod.snd
    · exact (same m there).symm
    · rw [zScoreAfter_of_not_listed there, zScoreAfter_of_not_listed (listed ▸ there)]

theorem mirrored_zAdd {key : String} {opts : ZAddOptions} {pairs : List (Binary64 × String)}
    (live : Lapse.settle env.now (v key) = v key)
    (ok : (perform codec env (.zAdd key opts pairs) v).1.isError = false) :
    Mirrored codec env (.zAdd key opts pairs) v ↔ Kept env (.zAdd key opts pairs) v := by
  let add (opts : ZAddOptions) (pairs : List (Binary64 × String)) : Act :=
    typedEntry .zset ∅ fun z => zAddExec z opts pairs
  have holds : Holds .zset (v key) := holds_of_typedEntry (f := fun z => zAddExec z opts pairs) ok
  rw [mirrored_of_act (m := .zAdd key opts pairs) (add opts pairs)
    (add (wireOptions opts) (wirePairs pairs)) rfl rfl rfl]
  rw [afterAct, afterAct, (typedEntry_apply holds _ _).1, (typedEntry_apply holds _ _).1,
    settle_kept live, settle_kept live, config_eq_iff (by rintro _ ⟨⟩; exact nofun)]
  simp only [Option.some.injEq, Lapse.Cell.mk.injEq, and_true, Kind.zset, EntryValue.zset.injEq]
  exact zscores_eq_iff (by simp [wirePairs])

theorem wireScore_cases (x : Binary64) :
    x.isNaN = true ∨ x = Binary64.zero.negate ∨ wireScore x = x := by
  unfold wireScore
  split_ifs with nan zero
  · exact .inl nan
  · exact .inr (.inl zero)
  · exact .inr (.inr rfl)

theorem isNaN_add (x : Binary64) {y : Binary64} (h : y.isNaN = true) : (x.add y).isNaN = true := by
  rw [Binary64.add, if_pos (by simp [h])]
  decide

theorem insert_right_injective {z : ZSet} {m : String} {x y : Binary64}
    (h : z.insert m x = z.insert m y) : x = y := by
  have := congrArg (fun z : ZSet => z[m]?) h
  simpa using this

theorem addToScore_of_finite {delta : Binary64} {member : String} {z : ZSet}
    (h : (((z[member]?.getD .zero).add delta).isNaN ||
      ((z[member]?.getD .zero).add delta).isInfinite) = false) :
    (addToScore delta member z).1 = z.insert member ((z[member]?.getD .zero).add delta) := by
  simp only [addToScore, h, Bool.false_eq_true, if_false]

theorem finite_of_addToScore {delta : Binary64} {member : String} {z : ZSet}
    (ok : (addToScore delta member z).2.isError = false) :
    (((z[member]?.getD .zero).add delta).isNaN ||
      ((z[member]?.getD .zero).add delta).isInfinite) = false := by
  rw [Bool.eq_false_iff]
  intro h
  simp only [addToScore, h, if_true] at ok
  exact absurd ok nofun

theorem add_negZero_of_not_held {member : String} {z : ZSet}
    (positive : z[member]? ≠ some Binary64.zero.negate) :
    (z[member]?.getD .zero).add Binary64.zero.negate = (z[member]?.getD .zero).add .zero := by
  refine Binary64.add_negZero fun h => positive ?_
  cases found : z[member]? with
  | none => exact absurd (found ▸ h) (by decide)
  | some old => rw [← h, found]; rfl

theorem finite_zero_of_addToScore {member : String} {z : ZSet}
    (ok : (addToScore Binary64.zero.negate member z).2.isError = false) :
    (((z[member]?.getD .zero).add .zero).isNaN ||
      ((z[member]?.getD .zero).add .zero).isInfinite) = false := by
  by_cases negative : z[member]? = some Binary64.zero.negate
  · rw [negative]
    decide
  · rw [← add_negZero_of_not_held negative]
    exact finite_of_addToScore ok

theorem addToScore_zero_iff {member : String} {z : ZSet}
    (ok : (addToScore Binary64.zero.negate member z).2.isError = false) :
    (addToScore .zero member z).1 = (addToScore Binary64.zero.negate member z).1 ↔
      z[member]? ≠ some Binary64.zero.negate := by
  rw [addToScore_of_finite (finite_of_addToScore ok), addToScore_of_finite (finite_zero_of_addToScore ok)]
  by_cases negative : z[member]? = some Binary64.zero.negate
  · rw [negative]
    refine iff_of_false (fun same => ?_) (not_not.mpr rfl)
    exact Binary64.negZero_add (insert_right_injective same).symm
  · rw [add_negZero_of_not_held negative]
    exact iff_of_true rfl negative

theorem mirrored_zIncrBy {key member : String} {delta : Binary64}
    (live : Lapse.settle env.now (v key) = v key)
    (ok : (perform codec env (.zIncrBy key delta member) v).1.isError = false) :
    Mirrored codec env (.zIncrBy key delta member) v ↔ Kept env (.zIncrBy key delta member) v := by
  have form : outcome codec env (.zIncrBy key delta member) v = some (.zIncrBy key delta member) := rfl
  have one : ∀ d, program codec env (.zIncrBy key d member) =
      .one key (typedEntry .zset ∅ (addToScore d member)) := fun _ => rfl
  change (typedEntry .zset ∅ (addToScore delta member) (v key)).2.isError = false at ok
  have holds : Holds .zset (v key) := holds_of_typedEntry ok
  have apply := fun d => typedEntry_apply holds ∅ (addToScore d member)
  have stored : (addToScore delta member (zsetOf (v key))).2.isError = false := (apply delta).2 ▸ ok
  rcases wireScore_cases delta with nan | rfl | same
  · have finite := finite_of_addToScore stored
    rw [isNaN_add _ nan] at finite
    exact absurd finite nofun
  · have one' : program codec env (Mutation.zIncrBy key Binary64.zero.negate member).wire.toCommand =
        .one key (typedEntry .zset ∅ (addToScore .zero member)) := rfl
    rw [mirrored_of_act _ _ form (one _) one', afterAct, afterAct, (apply .zero).1,
      (apply Binary64.zero.negate).1, settle_kept live, settle_kept live,
      config_eq_iff (by rintro _ ⟨⟩; exact nofun)]
    simp only [Option.some.injEq, Lapse.Cell.mk.injEq, and_true, Kind.zset, EntryValue.zset.injEq,
      Kept, true_imp_iff]
    exact addToScore_zero_iff stored
  · refine iff_of_true (mirrored_of_program form ?_) ?_
    · rw [Mutation.wire, same]
      rfl
    · rintro rfl
      exact absurd same (by decide)

/-! ### Rate limiters -/

theorem check_config (rl : RateLimiter) (now : ℕ) :
    (EntryValue.rateLimiter (rl.check now).1).config = (EntryValue.rateLimiter rl).config := by
  unfold RateLimiter.check
  dsimp only
  split_ifs <;> rfl

theorem rlAttempt_config (now : ℕ) (rl : RateLimiter) (exp : Option ℕ) :
    config (some (rlAttempt now rl exp).1) =
      some ⟨(EntryValue.rateLimiter rl).config, exp.map fun _ => satAdd now rl.windowMs⟩ := by
  simp only [config, Option.map_some, rlAttempt, check_config]

theorem config_settle (now : ℕ) (l : Option Cell) :
    config (Lapse.settle now l) = Lapse.settle now (config l) := by
  cases l with
  | none => rfl
  | some c =>
    simp only [config, Lapse.settle, Option.map_some, Option.filter_some]
    cases lapsed : c.isExpired now <;> simp_all [Lapse.Cell.isExpired]

/-- An attempt on an existing limiter keeps the entry apart from the attempt exactly when it keeps
its configuration and its deadline. -/
theorem attempt_kept_iff {now : ℕ} {rl : RateLimiter} (rl' : RateLimiter) {exp : Option ℕ}
    (live : Lapse.settle now (some (⟨.rateLimiter rl, exp⟩ : Cell)) = some ⟨.rateLimiter rl, exp⟩) :
    config (Lapse.settle now (some (rlAttempt now rl' exp).1)) = config (some ⟨.rateLimiter rl, exp⟩) ↔
      (rl.limit = rl'.limit ∧ rl.windowMs = rl'.windowMs) ∧ ∀ d ∈ exp, d = satAdd now rl'.windowMs := by
  have alive := (Lapse.settle_eq_some.mp live).2
  have before : config (some (⟨.rateLimiter rl, exp⟩ : Cell)) =
      some ⟨(EntryValue.rateLimiter rl).config, exp⟩ := rfl
  rw [config_settle, rlAttempt_config, before, Lapse.settle_eq_some]
  cases exp with
  | none => simp [EntryValue.config, Lapse.Cell.isExpired, eq_comm]
  | some d =>
    simp only [Lapse.Cell.isExpired, Option.any_some, decide_eq_false_iff_not] at alive
    simp only [EntryValue.config, Lapse.Cell.isExpired, Option.map_some, Option.some.injEq,
      Lapse.Cell.mk.injEq, EntryValue.rateLimiter.injEq, RateLimiter.mk.injEq, and_true,
      Option.any_some, decide_eq_false_iff_not, Option.mem_some_iff, forall_eq']
    constructor
    · rintro ⟨⟨⟨limit, window⟩, deadline⟩, -⟩
      exact ⟨⟨limit.symm, window.symm⟩, deadline.symm⟩
    · rintro ⟨⟨limit, window⟩, deadline⟩
      exact ⟨⟨⟨limit.symm, window.symm⟩, deadline.symm⟩, alive⟩

theorem mirrored_rlCheck {key : String} {cfg : Option (ℕ × ℕ)}
    (live : Lapse.settle env.now (v key) = v key)
    (ok : (perform codec env (.rlCheck key cfg) v).1.isError = false) :
    Mirrored codec env (.rlCheck key cfg) v ↔ Kept env (.rlCheck key cfg) v := by
  have one : program codec env (.rlCheck key cfg) = .one key (rlCheckAct env.now key cfg) := rfl
  rw [mirrored_none rfl, perform_one one, sameView_update_self, afterAct, Kept]
  change (rlCheckAct env.now key cfg (v key)).2.isError = false at ok
  generalize v key = l at live ok
  cases l with
  | none =>
    cases cfg with
    | none => cases ok
    | some p =>
      obtain ⟨limit, windowSecs⟩ := p
      simp only [rlCheckAct, Effect.apply_replace, config_settle, rlAttempt_config, OnlyAttempts,
        Option.mem_some_iff, forall_eq']
      simp [config, Lapse.settle, Lapse.Cell.isExpired]
  | some c =>
    obtain ⟨value, exp⟩ := c
    cases value
    case rateLimiter rl =>
      have plain : OnlyAttempts env.now cfg (some ⟨.rateLimiter rl, exp⟩) ↔
          (∀ p ∈ cfg, rl.limit = p.1 ∧ rl.windowMs = satMul p.2 1000) ∧
            ∀ d ∈ exp, d = satAdd env.now rl.windowMs :=
        ⟨fun h => h rl rfl, fun h _ eq => EntryValue.rateLimiter.inj eq ▸ h⟩
      rw [plain]
      cases cfg with
      | none =>
        refine (attempt_kept_iff rl live).trans ?_
        simp
      | some p =>
        obtain ⟨limit, windowSecs⟩ := p
        refine (attempt_kept_iff { rl with limit, windowMs := satMul windowSecs 1000 } live).trans ?_
        simp only [Option.mem_some_iff, forall_eq']
        exact and_congr_right fun same => by rw [same.2]
    all_goals cases ok

/-! ## Commands that keep everything -/

theorem addToNumber_ok {delta : ℤ} {s : Bytes} (ok : (addToNumber delta s).2.isError = false) :
    ∃ n, addToNumber delta s = (Decimal.ofInt n, .integer n) := by
  unfold addToNumber at ok ⊢
  split at ok
  · exact absurd ok nofun
  · split at ok
    · exact absurd ok nofun
    · exact ⟨_, rfl⟩

theorem addToField_ok {field : String} {delta : ℤ} {h : Hash}
    (ok : (addToField field delta h).2.isError = false) :
    ∃ n, addToField field delta h = (h.insert field (Decimal.ofInt n), .integer n) := by
  unfold addToField at ok ⊢
  split at ok
  · exact absurd ok nofun
  · exact ⟨_, rfl⟩

theorem addFloatToField_ok {field : String} {delta : Binary64} {h : Hash}
    (ok : (addFloatToField field delta h).2.isError = false) :
    ∃ data, addFloatToField field delta h = (h.insert field data, blob data) := by
  unfold addFloatToField at ok ⊢
  dsimp only at ok ⊢
  split_ifs at ok ⊢
  · exact absurd ok nofun
  · exact ⟨_, rfl⟩

/-- A counter is sent as the number it was set to. -/
theorem mirrored_incrBy {key : String} {delta : ℤ}
    (one : program codec env cmd = .one key (incrBy delta))
    (form : ∀ n, absolute env.now (.integer n) cmd = some (.set key (Decimal.ofInt n) .keep))
    (ok : (perform codec env cmd v).1.isError = false) : Mirrored codec env cmd v := by
  rw [perform_one one] at ok
  obtain ⟨effect, reply⟩ := typedEntry_apply (holds_of_typedEntry ok) (asBytes "0") (addToNumber delta)
  obtain ⟨n, sum⟩ := addToNumber_ok (reply ▸ ok)
  rw [sum] at effect reply
  have sent : outcome codec env cmd v = some (.set key (Decimal.ofInt n) .keep) := by
    rw [outcome, perform_one one, incrBy, reply, form]
  refine (mirrored_of_act _ (setAct env.now (Decimal.ofInt n) { expiry := Deadline.keep.expiry })
    sent one rfl).mpr ?_
  rw [afterAct, afterAct, setAct_plain, incrBy, effect]
  rfl

/-- The text of the number that a reply reports. -/
def reportedInteger : Value → Option Bytes
  | .integer n => some (Decimal.ofInt n)
  | _ => none

/-- The bytes that a reply reports. -/
def reportedBytes : Value → Option Bytes
  | .bulkString data => data
  | _ => none

/-- A field is sent as the value it was set to. -/
theorem mirrored_hash {key : String} (field : String) {f : Hash → Hash × Value}
    (sent : Value → Option Bytes)
    (one : program codec env cmd = .one key (typedEntry .hash ∅ f))
    (form : ∀ reply, absolute env.now reply cmd =
      (sent reply).map fun data => .hSet key [(field, data)])
    (stored : ∀ h, (f h).2.isError = false →
      match sent (f h).2 with
      | some data => (f h).1 = h.insert field data
      | none => (f h).1 = h ∧ h.contains field = true)
    (live : Lapse.settle env.now (v key) = v key)
    (ok : (perform codec env cmd v).1.isError = false) : Mirrored codec env cmd v := by
  rw [perform_one one] at ok
  have holds := holds_of_typedEntry ok
  obtain ⟨effect, reply⟩ := typedEntry_apply holds ∅ f
  have stores := stored _ (reply ▸ ok)
  rw [← reply] at stores
  have out : outcome codec env cmd v =
      (sent (typedEntry .hash ∅ f (v key)).2).map fun data => .hSet key [(field, data)] := by
    rw [outcome, perform_one one, form]
  cases said : sent (typedEntry .hash ∅ f (v key)).2 with
  | some data =>
    rw [said] at stores out
    refine (mirrored_of_act _ (hSetAct [(field, data)]) out one rfl).mpr ?_
    rw [afterAct, afterAct, effect, stores, hSetAct, (typedEntry_apply holds _ _).1]
    rfl
  | none =>
    rw [said] at stores out
    refine mirrored_of_unchanged out one live ?_
    rw [effect, stores.1]
    cases l : v key with
    | none =>
      rw [l] at stores
      exact absurd stores.2 (by simp [held])
    | some c =>
      obtain ⟨x, kind⟩ := Option.isSome_iff_exists.mp (holds c l)
      simp [held, kind, ← Kind.hash.unwrap_eq_some.mp kind]

theorem foldl_push (vals l : List Bytes) : vals.foldl (fun l v => v :: l) l = vals.reverse ++ l := by
  induction vals generalizing l with
  | nil => rfl
  | cons b vals ih => rw [List.foldl_cons, ih, List.reverse_cons, List.append_assoc]; rfl

/-- A push to a list that is there is a push. -/
theorem mirrored_pushX {key : String} {push : List Bytes → List Bytes × Value}
    {m : Mutation} (one : program codec env cmd = .one key (updateAs .list (.integer 0) push))
    (one' : program codec env m.wire.toCommand = .one key (typedEntry .list [] push))
    (form : ∀ reply, absolute env.now reply cmd = when (isPositive reply) m)
    (length : ∀ l, push l = ((push l).1, .integer (push l).1.length) ∧
      ((push l).1 = [] → l = []))
    (live : Lapse.settle env.now (v key) = v key) : Mirrored codec env cmd v := by
  have out : outcome codec env cmd v =
      when (isPositive (updateAs .list (.integer 0) push (v key)).2) m := by
    rw [outcome, perform_one one, form]
  cases sent : isPositive (updateAs .list (.integer 0) push (v key)).2 with
  | false =>
    rw [sent] at out
    refine mirrored_of_unchanged out one live (updateAs_unchanged isPositive (fun l h => ?_) sent)
    rw [(length l).1] at h
    have none : (push l).1 = [] := List.eq_nil_of_length_eq_zero (by simpa [isPositive] using h)
    rw [none, (length l).2 none]
  | true =>
    rw [sent] at out
    refine (mirrored_of_act _ _ out one one').mpr ?_
    cases l : v key with
    | none =>
      rw [l] at sent
      exact absurd sent (by simp [updateAs, isPositive])
    | some c =>
      cases kind : Kind.list.unwrap c.value with
      | none =>
        rw [l, updateAs_other kind] at sent
        exact absurd sent (by decide)
      | some x => rw [afterAct, afterAct, updateAs_held kind, typedEntry_held kind]

theorem bulkTexts (members : List String) : (members.map bulk).filterMap bulkText = members := by
  induction members with
  | nil => rfl
  | cons m ms ih =>
    have text : bulkText (bulk m) = some m := by simp [bulkText, bulk]
    rw [List.map_cons, List.filterMap_cons_some text, ih]

theorem poppedMembers_reply (count : Option ℕ) {popped : List String}
    (few : count = none → popped.length ≤ 1) :
    poppedMembers (if count.isSome then arrayOf (popped.map bulk)
      else .bulkString (popped.head?.map asBytes)) = popped := by
  cases count with
  | some n => exact bulkTexts popped
  | none =>
    match popped, few rfl with
    | [], _ => rfl
    | [m], _ => simp [poppedMembers]

/-- A pop is sent as the removal of what it popped. -/
theorem mirrored_sPop {key : String} {count : Option ℕ}
    (live : Lapse.settle env.now (v key) = v key) : Mirrored codec env (.sPop key count) v := by
  have one : program codec env (.sPop key count) = .one key (sPopAct env.draws count) := rfl
  have form : outcome codec env (.sPop key count) v =
      when (!(poppedMembers (sPopAct env.draws count (v key)).2).isEmpty)
        (.sRem key (poppedMembers (sPopAct env.draws count (v key)).2)) := rfl
  have silent (none : poppedMembers (sPopAct env.draws count (v key)).2 = [])
      (same : (sPopAct env.draws count (v key)).1.apply (v key) = v key) :
      Mirrored codec env (.sPop key count) v :=
    mirrored_of_unchanged (form.trans (by rw [none]; rfl)) one live same
  cases l : v key with
  | none =>
    rw [l] at silent
    exact silent (by cases count <;> rfl) rfl
  | some c =>
    cases kind : Kind.set.unwrap c.value with
    | none =>
      rw [l, sPopAct, updateAs_other kind] at silent
      exact silent rfl rfl
    | some s =>
      have removed := removeAll_popMembers env.draws (min (count.getD 1) s.size) s
      have nothing := @popMembers_nil env.draws (min (count.getD 1) s.size) s
      have few := length_popMembers_le env.draws (min (count.getD 1) s.size) s
      have act : sPopAct env.draws count (some c) =
          (.modify { c with value := .set (popMembers env.draws (min (count.getD 1) s.size) s).2 },
            if count.isSome then
              arrayOf ((popMembers env.draws (min (count.getD 1) s.size) s).1.map bulk)
            else .bulkString
              ((popMembers env.draws (min (count.getD 1) s.size) s).1.head?.map asBytes)) :=
        updateAs_held kind ..
      generalize popMembers env.draws (min (count.getD 1) s.size) s = r at *
      obtain ⟨popped, rest⟩ := r
      dsimp only at removed nothing few act
      have members : poppedMembers (sPopAct env.draws count (some c)).2 = popped := by
        rw [act]
        refine poppedMembers_reply count fun none => few.trans ?_
        simp [none]
      rw [l, members] at silent form
      by_cases empty : popped = []
      · refine silent empty ?_
        rw [act, nothing empty, Effect.apply_modify]
        exact congrArg some (congrArg (fun value => { c with value })
          (Kind.set.unwrap_eq_some.mp kind).symm)
      · have sent : outcome codec env (.sPop key count) v = some (.sRem key popped) := by
          rw [form]
          cases popped with
          | nil => exact absurd rfl empty
          | cons m ms => rfl
        refine (mirrored_of_act _ (updateAs .set (.integer 0) fun s =>
          ((removeAll popped s).2, .integer (removeAll popped s).1)) sent one rfl).mpr ?_
        rw [l, afterAct, afterAct, act, updateAs_held kind, removed]
        rfl

/-- A move that is not reported has not happened. -/
theorem sMove_unchanged {src dst member : String} (live : ∀ k, Lapse.settle env.now (v k) = v k)
    (ok : (perform codec env (.sMove src dst member) v).1.isError = false)
    (silent : isOne (perform codec env (.sMove src dst member) v).1 = false) :
    (perform codec env (.sMove src dst member) v).2 = v := by
  have keep : ∀ k, Function.update v k (Lapse.settle env.now (Effect.keep.apply (v k))) = v := fun k => by
    rw [Effect.apply_keep, live, Function.update_eq_self]
  simp only [perform, program, sMove, Prog.read, Prog.eval, keep] at ok silent ⊢
  by_cases kinds : notSet (v src) || notSet (v dst)
  · rw [if_pos kinds, Prog.eval_done]
  · simp only [if_neg kinds, Prog.eval] at ok silent ⊢
    by_cases there : (((v src).bind fun c => Kind.set.unwrap c.value).any fun s => s.contains member) = true
    · simp only [if_pos there, Prog.eval_one] at ok silent
      rw [(typedEntry_apply (holds_of_typedEntry ok) _ _).2] at silent
      exact absurd silent (by simp [isOne])
    · rw [if_neg there, Prog.eval_done]
      have same : (updateAs .set nil (fun s => (s.erase member, nil)) (v src)).1.apply (v src) = v src := by
        cases l : v src with
        | none => rfl
        | some c =>
          cases kind : Kind.set.unwrap c.value with
          | none => rw [updateAs_other kind, Effect.apply_keep]
          | some s =>
            have absent : s.contains member = false := by
              rw [l, Option.bind_some, kind, Option.any_some] at there
              exact Bool.eq_false_iff.mpr there
            rw [updateAs_held kind, erase_of_not_member absent, ← Kind.set.unwrap_eq_some.mp kind,
              Effect.apply_modify]
      rw [same, live, Function.update_eq_self]

/-! ### Pops and removals -/

theorem lPop_unchanged {count : Option ℕ} {l : Option Cell}
    (h : isEmptyPop (lPopAct count l).2 = true) : (lPopAct count l).1.apply l = l := by
  unfold lPopAct at h ⊢
  refine updateAs_unchanged (fun r => !isEmptyPop r) (fun l h => ?_) (by simpa using h)
  rw [Bool.not_eq_false'] at h
  cases count with
  | none =>
    cases l with
    | nil => rfl
    | cons b l => exact absurd h nofun
  | some n =>
    cases l with
    | nil => exact List.drop_nil
    | cons b l =>
      cases n with
      | zero => rfl
      | succ n => exact absurd h nofun

theorem rPop_unchanged {count : Option ℕ} {l : Option Cell}
    (h : isEmptyPop (rPopAct count l).2 = true) : (rPopAct count l).1.apply l = l := by
  unfold rPopAct at h ⊢
  refine updateAs_unchanged (fun r => !isEmptyPop r) (fun l h => ?_) (by simpa using h)
  rw [Bool.not_eq_false'] at h
  cases count with
  | none =>
    cases last : l.getLast? with
    | none => rw [List.getLast?_eq_none_iff.mp last]; rfl
    | some b =>
      simp only [last] at h
      exact absurd h nofun
  | some n =>
    dsimp only at h ⊢
    cases dropped : (l.drop (l.length - n)).reverse with
    | nil =>
      have := List.take_append_drop (l.length - n) l
      rwa [List.reverse_eq_nil_iff.mp dropped, List.append_nil] at this
    | cons b rest =>
      rw [dropped] at h
      exact absurd h nofun

theorem hDel_unchanged {fields : List String} {l : Option Cell}
    (h : isPositive (hDelAct fields l).2 = false) : (hDelAct fields l).1.apply l = l := by
  unfold hDelAct at h ⊢
  refine updateAs_unchanged isPositive (fun h none => ?_) h
  have count := foldErase_count fields h 0
  refine count.2 ?_
  simpa [isPositive] using none

theorem zRem_unchanged {members : List String} {l : Option Cell}
    (h : isPositive (zRemAct members l).2 = false) : (zRemAct members l).1.apply l = l := by
  unfold zRemAct at h ⊢
  refine updateAs_unchanged isPositive (fun z none => ?_) h
  have count := foldErase_count members z 0
  refine count.2 ?_
  simpa [isPositive] using none

theorem lRem_unchanged {count : ℤ} {element : Bytes} {l : Option Cell}
    (h : isPositive (lRemAct count element l).2 = false) : (lRemAct count element l).1.apply l = l := by
  unfold lRemAct at h ⊢
  refine updateAs_unchanged isPositive (fun l none => lRem_zero l count element ?_) h
  simpa [isPositive] using none

/-! ### Replies without an error -/

theorem lSet_isSimple {idx : ℤ} {val : Bytes} {l : Option Cell}
    (h : (lSetAct idx val l).2.isError = false) : isSimple (lSetAct idx val l).2 = true := by
  unfold lSetAct updateAs at h ⊢
  cases l with
  | none => exact absurd h nofun
  | some c =>
    dsimp only at h ⊢
    split at h
    · dsimp only at h ⊢
      split at h
      · exact absurd h nofun
      · rfl
    · exact absurd h nofun

theorem jSet_isSimple {path value : String} {l : Option Cell}
    (h : (jSetAct codec path value l).2.isError = false) :
    isSimple (jSetAct codec path value l).2 = true := by
  unfold jSetAct at h ⊢
  split at h
  · exact absurd h nofun
  · split at h
    · exact absurd h nofun
    · dsimp only at h ⊢
      split_ifs at h ⊢
      · exact absurd h nofun
      · obtain ⟨-, reply⟩ := typedEntry_apply (holds_of_typedEntry h) Json.null (setInDocument _ _)
        rw [reply] at h ⊢
        unfold setInDocument at h ⊢
        split at h
        · rfl
        · exact absurd h nofun

theorem jMerge_isSimple {patch : String} {l : Option Cell}
    (h : (jMergeAct codec patch l).2.isError = false) :
    isSimple (jMergeAct codec patch l).2 = true := by
  unfold jMergeAct at h ⊢
  split at h
  · exact absurd h nofun
  · split_ifs at h ⊢
    · rfl
    · exact absurd h nofun
    · rw [(typedEntry_apply (holds_of_typedEntry h) _ _).2]
      rfl

/-- The mutation of a successful write does what the write did exactly when nothing was lost. -/
theorem mirrored_iff (live : ∀ k, Lapse.settle env.now (v k) = v k)
    (write : isWriteCommand cmd = true) (ok : (perform codec env cmd v).1.isError = false) :
    Mirrored codec env cmd v ↔ Kept env cmd v := by
  cases cmd
  case set key val opts => exact mirrored_set (live key) ok
  case sAdd key members => exact mirrored_sAdd (live key) ok
  case zAdd key opts pairs => exact mirrored_zAdd (live key) ok
  case zIncrBy key delta member => exact mirrored_zIncrBy (live key) ok
  case rlCheck key cfg => exact mirrored_rlCheck (live key) ok
  all_goals refine iff_of_true ?_ trivial
  -- sent as it is
  case eSet key val | setEx key secs val | pSetEx key ms val => exact mirrored_of_program rfl rfl
  case del keys | unlink keys | flushDb => exact mirrored_of_program rfl rfl
  case mSet pairs | hSet key pairs => exact mirrored_of_program rfl rfl
  case lPush key vals | rPush key vals | lTrim key start stop => exact mirrored_of_program rfl rfl
  case sInterStore dst keys | sUnionStore dst keys | sDiffStore dst keys =>
    exact mirrored_of_program rfl rfl
  case rlSet key limit windowSecs => exact mirrored_of_program rfl rfl
  -- sent as a change of the value of the key
  case incr key | decr key | incrBy key delta => exact mirrored_incrBy rfl (fun _ => rfl) ok
  case decrBy key delta =>
    by_cases smallest : delta = Decimal.i64Min
    · rw [perform, program, if_pos smallest] at ok
      cases ok
    · exact mirrored_incrBy (if_neg smallest) (fun _ => rfl) ok
  case setNx key val =>
    have one : program codec env (.setNx key val) = .one key (setNxAct val) := rfl
    have form : outcome codec env (.setNx key val) v =
        when (isOne (setNxAct val (v key)).2) (.set key val .none) := rfl
    cases l : v key with
    | none =>
      refine (mirrored_of_act _ (setAct env.now val {}) (form.trans (by rw [l]; rfl)) one rfl).mpr ?_
      rw [l]
      rfl
    | some c => exact mirrored_of_unchanged (form.trans (by rw [l]; rfl)) one (live key) (by rw [l]; rfl)
  case getSet key val =>
    refine (mirrored_of_act (m := .set key val .none) (getSetAct val) (setAct env.now val {})
      rfl rfl rfl).mpr ?_
    change (getSetAct val (v key)).2.isError = false at ok
    cases l : v key with
    | none => rfl
    | some c =>
      obtain ⟨value, exp⟩ := c
      rw [l] at ok
      cases value <;> first | rfl | cases ok
  case hIncrBy key field delta =>
    refine mirrored_hash field (f := addToField field delta) reportedInteger rfl
      (fun reply => by cases reply <;> rfl) (fun h ok => ?_) (live key) ok
    obtain ⟨n, sum⟩ := addToField_ok ok
    rw [sum]
    rfl
  case hIncrByFloat key field delta =>
    refine mirrored_hash field (f := addFloatToField field delta) reportedBytes rfl
      (fun reply => ?_) (fun h ok => ?_) (live key) ok
    · cases reply
      case bulkString data => cases data <;> rfl
      all_goals rfl
    · obtain ⟨data, sum⟩ := addFloatToField_ok ok
      rw [sum]
      rfl
  case hSetNx key field val =>
    refine mirrored_hash field (fun r => if isOne r then some val else none) rfl
      (fun reply => ?_) (fun h _ => ?_) (live key) ok
    · simp only [absolute, when]
      cases isOne reply <;> rfl
    · by_cases there : h.contains field = true
      · simp [there, isOne]
      · simp [there, isOne]
  case sPop key count => exact mirrored_sPop (live key)
  case lPushX key vals =>
    refine mirrored_pushX (m := .lPush key vals) rfl rfl (fun _ => rfl) (fun l => ⟨rfl, fun none => ?_⟩)
      (live key)
    rw [lPushAct, foldl_push] at none
    exact (List.append_eq_nil_iff.mp none).2
  case rPushX key vals =>
    exact mirrored_pushX (m := .rPush key vals) rfl rfl (fun _ => rfl)
      (fun l => ⟨rfl, fun none => (List.append_eq_nil_iff.mp none).1⟩) (live key)
  -- sent as it is if the reply says so
  case append key suffix =>
    refine mirrored_of_when (.append key suffix) isInteger rfl rfl rfl (live key) ?_
    exact typedEntry_unchanged isInteger (fun _ h => absurd h (by simp [isInteger])) fun _ => rfl
  case expire key secs =>
    refine mirrored_of_when (.pExpireAt key _) isOne rfl rfl rfl (live key) ?_
    cases v key <;> first | exact fun _ => rfl | (intro h; cases h)
  case pExpire key ms =>
    refine mirrored_of_when (.pExpireAt key _) isOne rfl rfl rfl (live key) ?_
    cases v key <;> first | exact fun _ => rfl | (intro h; cases h)
  case expireAt key ts =>
    refine mirrored_of_when (.pExpireAt key _) isOne rfl rfl rfl (live key) ?_
    cases v key <;> first | exact fun _ => rfl | (intro h; cases h)
  case pExpireAt key ts =>
    refine mirrored_of_when (.pExpireAt key ts) isOne rfl rfl rfl (live key) ?_
    cases v key <;> first | exact fun _ => rfl | (intro h; cases h)
  case persist key =>
    refine mirrored_of_when (.persist key) isOne rfl rfl rfl (live key) ?_
    cases v key with
    | none => exact fun _ => rfl
    | some c =>
      obtain ⟨value, exp⟩ := c
      cases exp with
      | none => exact fun _ => rfl
      | some exp => (intro h; cases h)
  case hDel key fields =>
    exact mirrored_of_when (.hDel key fields) isPositive rfl rfl rfl (live key) hDel_unchanged
  case zRem key members =>
    exact mirrored_of_when (.zRem key members) isPositive rfl rfl rfl (live key) zRem_unchanged
  case lRem key count element =>
    exact mirrored_of_when (.lRem key count element) isPositive rfl rfl rfl (live key) lRem_unchanged
  case sRem key members =>
    refine mirrored_of_when (.sRem key members) isPositive rfl rfl rfl (live key) ?_
    refine updateAs_unchanged isPositive fun s h => removeAll_zero members s ?_
    simpa [isPositive] using h
  case lPop key count =>
    exact mirrored_of_when (.lPop key count) (fun r => !isEmptyPop r) rfl rfl rfl
      (live key) fun h => lPop_unchanged (by simpa using h)
  case rPop key count =>
    exact mirrored_of_when (.rPop key count) (fun r => !isEmptyPop r) rfl rfl rfl
      (live key) fun h => rPop_unchanged (by simpa using h)
  case lSet key idx val =>
    have simple : isSimple (lSetAct idx val (v key)).2 = true := lSet_isSimple ok
    have form : outcome codec env (.lSet key idx val) v =
        when (isSimple (lSetAct idx val (v key)).2) (.lSet key idx val) := rfl
    exact mirrored_of_program (form.trans (by rw [simple]; rfl)) rfl
  case jSet key path value =>
    have simple : isSimple (jSetAct codec path value (v key)).2 = true := jSet_isSimple ok
    have form : outcome codec env (.jSet key path value) v =
        when (isSimple (jSetAct codec path value (v key)).2) (.jSet key path value) := rfl
    exact mirrored_of_program (form.trans (by rw [simple]; rfl)) rfl
  case jMerge key patch =>
    have simple : isSimple (jMergeAct codec patch (v key)).2 = true := jMerge_isSimple ok
    have form : outcome codec env (.jMerge key patch) v =
        when (isSimple (jMergeAct codec patch (v key)).2) (.jMerge key patch) := rfl
    exact mirrored_of_program (form.trans (by rw [simple]; rfl)) rfl
  case rename src dst =>
    have form : outcome codec env (.rename src dst) v =
        when (!(perform codec env (.rename src dst) v).1.isError) (.rename src dst) := rfl
    exact mirrored_of_program (form.trans (by rw [ok]; rfl)) rfl
  case sMove src dst member =>
    have form : outcome codec env (.sMove src dst member) v =
        when (isOne (perform codec env (.sMove src dst member) v).1) (.sMove src dst member) := rfl
    cases one : isOne (perform codec env (.sMove src dst member) v).1 with
    | true => exact mirrored_of_program (form.trans (by rw [one]; rfl)) rfl
    | false =>
      rw [mirrored_none (form.trans (by rw [one]; rfl)), sMove_unchanged live ok one]
  case dedup client id inner => cases ok
  all_goals cases write

/-! ## Stores and frames -/

/-- The absolute form of the command passes the parser and keeps what the command did. -/
def Faithful (codec : Codec) (env : Env) (cmd : Command) (v : View) : Prop :=
  (∀ m ∈ outcome codec env cmd v, m.Decodable) ∧ Kept env cmd v

/-- A replica in the state before the command that executes its frame has the live view of the
primary after it; without a frame the live view has not changed. -/
def Simulates (codec : Codec) (env : Env) (cmd : Command) (s : KeyValueStore) : Prop :=
  match broadcastFor cmd (execute codec env cmd s).1 env.now with
  | some frame => ∃ c, decodeFrame frame = some c ∧
    SameView ((execute codec env c s).2.live env.now) ((execute codec env cmd s).2.live env.now)
  | none => SameView ((execute codec env cmd s).2.live env.now) (s.live env.now)

theorem direct_of_write (h : isWriteCommand cmd = true) : readsKeyspace cmd = false := by
  unfold readsKeyspace
  split <;> first | rfl | simp [isWriteCommand] at h

theorem isWriteCommand_mutation (m : Mutation) : isWriteCommand m.toCommand = true := by
  cases m <;> rfl

theorem frame_of_outcome {s : KeyValueStore} (h : s.Uncapped) (write : isWriteCommand cmd = true)
    (ok : (execute codec env cmd s).1.isError = false) :
    broadcastFor cmd (execute codec env cmd s).1 env.now =
      (outcome codec env cmd (s.live env.now)).map fun m => respPush m.parts := by
  have reply := (execute_uncapped codec env cmd h (direct_of_write write)).1
  rw [outcome, ← reply]
  exact broadcastFor_eq (replyIsText codec env cmd ok) env.now

/-- One propagated step: the frame of a successful write simulates it exactly when it is faithful. -/
theorem simulates_iff (codec : Codec) (env : Env) (cmd : Command) (s : KeyValueStore)
    (uncapped : s.Uncapped) (write : isWriteCommand cmd = true)
    (ok : (execute codec env cmd s).1.isError = false) :
    Simulates codec env cmd s ↔ Faithful codec env cmd (s.live env.now) := by
  obtain ⟨reply, after⟩ := execute_uncapped codec env cmd uncapped (direct_of_write write)
  have live : ∀ k, Lapse.settle env.now (s.live env.now k) = s.live env.now k :=
    fun k => Lapse.settle_live _ _ _
  have kept := mirrored_iff live write (reply ▸ ok)
  rw [Simulates, frame_of_outcome uncapped write ok, Faithful, ← kept, after]
  cases form : outcome codec env cmd (s.live env.now) with
  | none => simp [mirrored_none form]
  | some m =>
    have replica := (execute_uncapped codec env m.wire.toCommand uncapped
      (direct_of_write (isWriteCommand_mutation _))).2
    simp only [Option.map_some, m.decodeFrame_parts, Option.mem_def, Option.some.injEq, forall_eq',
      mirrored_some form]
    constructor
    · rintro ⟨_, ⟨decodable, rfl⟩, same⟩
      exact ⟨decodable, replica ▸ same⟩
    · rintro ⟨decodable, same⟩
      exact ⟨_, ⟨decodable, rfl⟩, replica ▸ same⟩

theorem simulates_set :
    Simulates .literals (.fixed 5) (.pSetEx "k" 100 [118]) {} ↔
      Faithful .literals (.fixed 5) (.pSetEx "k" 100 [118]) (KeyValueStore.live 5 {}) :=
  simulates_iff _ _ _ {} ⟨rfl, rfl⟩ rfl (by decide)

/-- `SET` with `XX` and `GET` sets nothing when the key is not there, but its frame does. -/
theorem not_simulates_set :
    fromValue (arrayOf [bulk "SET", bulk "k", bulk "v", bulk "XX", bulk "GET"]) =
        .ok (.set "k" (asBytes "v") { condition := some .xx, get := true }) ∧
      (execute .literals (.fixed 0) (.set "k" (asBytes "v") { condition := some .xx, get := true })
        {}).1 = nil ∧
      ¬Simulates .literals (.fixed 0)
        (.set "k" (asBytes "v") { condition := some .xx, get := true }) {} := by
  refine ⟨rfl, rfl, fun ⟨c, decoded, same⟩ => ?_⟩
  obtain ⟨-, rfl⟩ := (Mutation.decodeFrame_parts (.set "k" (asBytes "v") .none) c).mp decoded
  exact absurd (congrArg Option.isSome (same "k")) (by decide)

end Recached
