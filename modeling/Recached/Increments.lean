import Recached.Refusals
import Recached.Scoring

/-!
# Increments

Texts, fields of hashes, and members of sorted sets count as numbers.  `Counter` says what is counted
and where, and `Counter.Steps` what an increment does to it: it stores the sum, or it answers an error
and stores nothing.  Each of the four implementations is an instance.
-/

namespace Recached

open Text Lapse

/-- What an increment works on: the place that a value has for it, if it is of the kind for it, and
the numbers there. -/
structure Counter (κ N : Type) where
  held : EntryValue → Option (Option κ)
  read : κ → Option N
  zero : N
  add : N → N → Option N
  answer : Value → Option N
  same : N → N → Prop

namespace Counter

variable {κ N : Type} (K : Counter κ N) (delta : N)

/-- The place in a live cell: none if the cell is of another kind. -/
def slot (l : Option Cell) : Option (Option κ) := l.elim (some none) fun c => K.held c.value

/-- The sum that is due at a place; one that is empty counts as zero. -/
def due (place : Option κ) : Option N := (place.elim (some K.zero) K.read).bind (K.add · delta)

/-- The place holds the sum, and the reply reads back as what it holds. -/
def Stores (place : Option κ) (reply : Value) (sum : N) : Prop :=
  ∃ x n, place = some x ∧ K.read x = some n ∧ K.same n sum ∧ ∃ m, K.answer reply = some m ∧ K.same m n

/-- An increment of a live cell: an error leaves it as it was. -/
structure Steps (l l' : Option Cell) (reply : Value) : Prop where
  refused : (K.slot l).bind (K.due delta) = none → reply.isError ∧ K.slot l' = K.slot l ∧ (l.isSome → l' = l)
  stored : ∀ sum, (K.slot l).bind (K.due delta) = some sum →
    ∃ place, K.slot l' = some place ∧ K.Stores place reply sum

variable {α : Type} {k : Kind α} {default x : α} {f : α → α × Value} {get : α → Option κ}

/-- What an increment makes of a value with the place. -/
structure Makes (get : α → Option κ) (x : α) (made : α × Value) : Prop where
  refused : K.due delta (get x) = none → made.2.isError ∧ made.1 = x
  stored : ∀ sum, K.due delta (get x) = some sum → K.Stores (get made.1) made.2 sum

variable {K delta}

theorem makes_error (due : K.due delta (get x) = none) (message : String) :
    K.Makes delta get x (x, .error message) := by
  refine ⟨fun _ => ⟨rfl, rfl⟩, fun sum eq => ?_⟩
  rw [due] at eq
  cases eq

theorem makes_sum (sum : N) (due : K.due delta (get x) = some sum) {made : α × Value}
    (stores : K.Stores (get made.1) made.2 sum) : K.Makes delta get x made := by
  refine ⟨fun eq => ?_, fun sum' eq => ?_⟩ <;> rw [due] at eq
  · cases eq
  · exact Option.some.inj eq ▸ stores

/-- Values of another kind are refused, and the others make the step that their place makes. -/
theorem steps_typedEntry {now : ℕ} {l : Option Cell} (live : settle now l = l)
    (held : ∀ v, K.held v = (k.unwrap v).map get)
    (fresh : K.due delta none = K.due delta (get default))
    (absent : K.due delta none = none → get default = none)
    (makes : ∀ x, l.elim (x = default) (fun _ => K.slot l = some (get x)) → K.Makes delta get x (f x)) :
    K.Steps delta l (settle now ((typedEntry k default f l).1.apply l)) (typedEntry k default f l).2 := by
  have wrapped (x : α) (d : Option ℕ) : K.held (k.wrap x) = some (get x) := by
    rw [held, k.unwrap_eq_some.mpr rfl, Option.map_some]
  cases l with
  | none =>
    have slot : K.slot (settle now (some ⟨k.wrap (f default).1, none⟩)) = some (get (f default).1) :=
      wrapped _ none
    have made := makes default rfl
    refine ⟨fun due => ?_, fun sum due => ⟨_, slot, made.stored sum (fresh.symm.trans due)⟩⟩
    obtain ⟨error, same⟩ := made.refused (fresh.symm.trans due)
    rw [same, absent due] at slot
    exact ⟨error, by rw [← same] at slot; exact slot, by rintro ⟨⟩⟩
  | some c =>
    have unexpired (value : EntryValue) : settle now (some { c with value }) = some { c with value } :=
      settle_eq_some.mpr ⟨rfl, (settle_eq_some.mp live).2⟩
    cases value : k.unwrap c.value with
    | none =>
      have slot : K.slot (some c) = none := by
        rw [slot, Option.elim_some, held, value, Option.map_none]
      rw [typedEntry, value]
      have keep : settle now (Effect.keep.apply (some c)) = some c := live
      rw [keep]
      refine ⟨fun _ => ⟨rfl, rfl, fun _ => rfl⟩, fun sum due => ?_⟩
      rw [slot] at due
      cases due
    | some x =>
      have slot : K.slot (some c) = some (get x) := by
        rw [slot, Option.elim_some, held, value, Option.map_some]
      have made := makes x slot
      rw [typedEntry_held value, Effect.apply_modify, unexpired]
      refine ⟨fun due => ?_, fun sum due => ?_⟩ <;> rw [slot] at due
      · obtain ⟨error, same⟩ := made.refused due
        have untouched : ({ c with value := k.wrap (f x).1 } : Cell) = c := by
          rw [same, ← k.unwrap_eq_some.mp value]
        rw [untouched]
        exact ⟨error, rfl, fun _ => rfl⟩
      · exact ⟨_, wrapped _ none, made.stored sum due⟩

/-- In a collection that is created empty the place is empty, too. -/
theorem steps_collection {now : ℕ} {l : Option Cell} (live : settle now l = l)
    (held : ∀ v, K.held v = (k.unwrap v).map get) (empty : get default = none)
    (makes : ∀ x, K.slot l = some (get x) → K.Makes delta get x (f x)) :
    K.Steps delta l (settle now ((typedEntry k default f l).1.apply l)) (typedEntry k default f l).2 := by
  refine steps_typedEntry live held (by rw [empty]) (fun _ => empty) fun x there => makes x ?_
  cases l with
  | none =>
    obtain rfl : x = default := there
    rw [empty]
    rfl
  | some c => exact there

end Counter

/-! ## The four implementations -/

def finiteSum (a b : Binary64) : Option Binary64 :=
  if (a.add b).isNaN || (a.add b).isInfinite then none else some (a.add b)

def readInteger : Value → Option ℤ
  | .integer n => some n
  | _ => none

def readScore : Value → Option Binary64
  | .bulkString (some b) => Binary64.parse b
  | _ => none

/-- The whole text of a key. -/
def integerText : Counter Bytes ℤ where
  held v := (Kind.str.unwrap v).map some
  read := Decimal.parseI64
  zero := 0
  add := checkedAdd
  answer := readInteger
  same := Eq

def integerField (field : String) : Counter Bytes ℤ where
  held v := (Kind.hash.unwrap v).map fun h => h[field]?
  read := Decimal.parseI64
  zero := 0
  add := checkedAdd
  answer := readInteger
  same := Eq

def floatField (field : String) : Counter Bytes Binary64 where
  held v := (Kind.hash.unwrap v).map fun h => h[field]?
  read := Binary64.parse
  zero := .zero
  add := finiteSum
  answer := readScore
  same a b := sameScore a b

def memberScore (member : String) : Counter Binary64 Binary64 where
  held v := (Kind.zset.unwrap v).map fun z => z[member]?
  read := some
  zero := .zero
  add := finiteSum
  answer := readScore
  same a b := sameScore a b

section

variable {a b sum : ℤ} {x y total : Binary64} {field member : String}

theorem checkedAdd_eq_some : checkedAdd a b = some sum ↔ sum = a + b ∧ InI64 sum := by
  unfold checkedAdd InI64
  split_ifs with fits
  · rw [Option.some.injEq]
    exact ⟨by rintro rfl; exact ⟨rfl, fits⟩, fun h => h.1.symm⟩
  · exact ⟨by rintro ⟨⟩, by rintro ⟨rfl, h⟩; exact absurd h fits⟩

theorem finiteSum_eq_some (h : finiteSum x y = some total) : total = x.add y ∧ total.isNaN = false := by
  unfold finiteSum at h
  split_ifs at h with refused
  obtain rfl := Option.some.inj h
  simp only [Bool.or_eq_true, not_or, Bool.not_eq_true] at refused
  exact ⟨rfl, refused.1⟩

/-- A number is read back as the same number. -/
theorem sameScore_wireScore (number : x.isNaN = false) : sameScore (wireScore x) x := by
  unfold wireScore
  rw [number, if_neg (by decide)]
  split_ifs with zero
  · subst zero
    decide
  · simp [sameScore]

theorem stores_integerText (fits : InI64 sum) :
    integerText.Stores (some (Decimal.ofInt sum)) (.integer sum) sum :=
  ⟨_, sum, rfl, Decimal.parseI64_ofInt fits.1 fits.2, rfl, sum, rfl, rfl⟩

theorem stores_integerField (fits : InI64 sum) :
    (integerField field).Stores (some (Decimal.ofInt sum)) (.integer sum) sum :=
  ⟨_, sum, rfl, Decimal.parseI64_ofInt fits.1 fits.2, rfl, sum, rfl, rfl⟩

theorem stores_floatField (number : total.isNaN = false) :
    (floatField field).Stores (some (formatScore total)) (blob (formatScore total)) total :=
  ⟨_, _, rfl, parse_formatScore total, sameScore_wireScore number, _, parse_formatScore total,
    by simp [floatField, sameScore]⟩

theorem stores_memberScore (number : total.isNaN = false) :
    (memberScore member).Stores (some total) (blob (formatScore total)) total :=
  ⟨_, _, rfl, rfl, by simp [memberScore, sameScore], _, parse_formatScore total,
    sameScore_wireScore number⟩

/-! ### What they make of a place -/

theorem makes_addToNumber (delta : ℤ) (s : Bytes) :
    integerText.Makes delta some s (addToNumber delta s) := by
  have due : integerText.due delta (some s) = (Decimal.parseI64 s).bind (checkedAdd · delta) := rfl
  unfold addToNumber
  cases read : Decimal.parseI64 s with
  | none => exact Counter.makes_error (by rw [due, read]; rfl) _
  | some n =>
    rw [read, Option.bind_some] at due
    dsimp only
    cases total : checkedAdd n delta with
    | none => exact Counter.makes_error (due.trans total) _
    | some new =>
      exact Counter.makes_sum _ (due.trans total) (stores_integerText (checkedAdd_eq_some.mp total).2)

/-- A field that is a number or is not there counts as what the code takes it for. -/
theorem due_field {N : Type} {K : Counter Bytes N} {place : Option Bytes}
    (numeric : ∀ text, place = some text → (K.read text).isSome) (delta : N) :
    K.due delta place = K.add ((place.bind K.read).getD K.zero) delta := by
  cases place with
  | none => rfl
  | some text =>
    obtain ⟨n, read⟩ := Option.isSome_iff_exists.mp (numeric text rfl)
    simp [Counter.due, read]

theorem makes_addToField {h : Hash} (delta : ℤ)
    (numeric : ∀ text, h[field]? = some text → (Decimal.parseI64 text).isSome) :
    (integerField field).Makes delta (fun h => h[field]?) h (addToField field delta h) := by
  have due := due_field (K := integerField field) numeric delta
  unfold addToField
  cases total : checkedAdd ((h[field]?.bind Decimal.parseI64).getD 0) delta with
  | none =>
    refine Counter.makes_error ?_ _
    exact due.trans total
  | some new =>
    refine Counter.makes_sum new ?_ ?_
    · exact due.trans total
    dsimp only
    rw [Std.ExtTreeMap.getElem?_insert_self]
    exact stores_integerField (checkedAdd_eq_some.mp total).2

theorem makes_addFloatToField {h : Hash} (delta : Binary64)
    (numeric : ∀ text, h[field]? = some text → (Binary64.parse text).isSome) :
    (floatField field).Makes delta (fun h => h[field]?) h (addFloatToField field delta h) := by
  have due := due_field (K := floatField field) numeric delta
  change _ = finiteSum ((h[field]?.bind Binary64.parse).getD .zero) delta at due
  unfold addFloatToField
  dsimp only
  rw [finiteSum] at due
  split_ifs at due ⊢ with refused
  · refine Counter.makes_error ?_ _
    exact due
  · refine Counter.makes_sum (((h[field]?.bind Binary64.parse).getD .zero).add delta) ?_ ?_
    · exact due
    dsimp only
    rw [Std.ExtTreeMap.getElem?_insert_self]
    simp only [Bool.or_eq_true, not_or, Bool.not_eq_true] at refused
    exact stores_floatField refused.1

theorem makes_addToScore (delta : Binary64) (z : ZSet) :
    (memberScore member).Makes delta (fun z => z[member]?) z (addToScore delta member z) := by
  have due : (memberScore member).due delta z[member]? = finiteSum (z[member]?.getD .zero) delta := by
    cases z[member]? <;> rfl
  unfold addToScore
  dsimp only
  rw [finiteSum] at due
  split_ifs at due ⊢ with refused
  · refine Counter.makes_error ?_ _
    exact due
  · refine Counter.makes_sum ((z[member]?.getD .zero).add delta) ?_ ?_
    · exact due
    dsimp only
    rw [Std.ExtTreeMap.getElem?_insert_self]
    simp only [Bool.or_eq_true, not_or, Bool.not_eq_true] at refused
    exact stores_memberScore refused.1

theorem makes_zAddExec {z : ZSet} {opts : ZAddOptions} (incr : opts.incr) (delta : Binary64)
    (rest : List (Binary64 × String)) (finite : ((memberScore member).due delta z[member]?).isSome) :
    (memberScore member).Makes delta (fun z => z[member]?) z (zAddExec z opts ((delta, member) :: rest)) := by
  have due : (memberScore member).due delta z[member]? = finiteSum (z[member]?.getD .zero) delta := by
    cases z[member]? <;> rfl
  obtain ⟨sum, total⟩ := Option.isSome_iff_exists.mp finite
  obtain ⟨rfl, number⟩ := finiteSum_eq_some (due.symm.trans total)
  refine Counter.makes_sum ((z[member]?.getD .zero).add delta) ?_ ?_
  · exact total
  simp only [zAddExec, incr, if_true]
  rw [Std.ExtTreeMap.getElem?_insert_self]
  exact stores_memberScore number

end

/-! ## The commands -/

section

variable {κ N : Type} (codec : Codec) (env : Env) (s : KeyValueStore)

/-- A command makes the step of a counter at its key, and leaves the other keys as they are. -/
def Counts (cmd : Command) (key : String) (K : Counter κ N) (delta : N) : Prop :=
  K.Steps delta (s.live env.now key)
      (Lapse.live env.now ((program codec env cmd).run env.now s.data).2 key)
      ((program codec env cmd).run env.now s.data).1 ∧
    ∀ k, k ≠ key →
      Lapse.live env.now ((program codec env cmd).run env.now s.data).2 k = s.live env.now k

variable {codec env s}

theorem counts_one {cmd : Command} {key : String} {act : Act} {K : Counter κ N} {delta : N}
    (one : program codec env cmd = .one key act)
    (steps : settle env.now (s.live env.now key) = s.live env.now key →
      K.Steps delta (s.live env.now key)
        (settle env.now ((act (s.live env.now key)).1.apply (s.live env.now key)))
        (act (s.live env.now key)).2) :
    Counts codec env s cmd key K delta := by
  unfold Counts
  rw [Prog.run_fst, live_run, one, Prog.eval_one]
  refine ⟨?_, fun k other => Function.update_of_ne other _ _⟩
  dsimp only
  rw [Function.update_self]
  exact steps (settle_live env.now s.data key)

theorem counts_incrBy {cmd : Command} {key : String} {delta : ℤ} (fits : InI64 delta)
    (one : program codec env cmd = .one key (incrBy delta)) :
    Counts codec env s cmd key integerText delta := by
  refine counts_one one fun live => Counter.steps_typedEntry live (fun _ => rfl) rfl (fun none => ?_)
    fun x _ => makes_addToNumber delta x
  change checkedAdd 0 delta = Option.none at none
  rw [checkedAdd_zero fits] at none
  cases none

end

/-- The increments that are due are carried out exactly, at any key of the store. -/
structure ExactIncrements (codec : Codec) (env : Env) (s : KeyValueStore) : Prop where
  incr : ∀ key, Counts codec env s (.incr key) key integerText 1
  decr : ∀ key, Counts codec env s (.decr key) key integerText (-1)
  incrBy : ∀ key delta, InI64 delta → Counts codec env s (.incrBy key delta) key integerText delta
  decrBy : ∀ key delta, InI64 delta → delta ≠ Decimal.i64Min →
    Counts codec env s (.decrBy key delta) key integerText (-delta)
  /-- The smallest number is not subtracted from any text. -/
  decrByMin : ∀ key, ((program codec env (.decrBy key Decimal.i64Min)).run env.now s.data).1.isError ∧
    ((program codec env (.decrBy key Decimal.i64Min)).run env.now s.data).2 = s.data
  hIncrBy : ∀ key field delta, InI64 delta →
    (∀ text, (integerField field).slot (s.live env.now key) = some (some text) →
      (Decimal.parseI64 text).isSome) →
    Counts codec env s (.hIncrBy key field delta) key (integerField field) delta
  hIncrByFloat : ∀ key field delta,
    (∀ text, (floatField field).slot (s.live env.now key) = some (some text) →
      (Binary64.parse text).isSome) →
    Counts codec env s (.hIncrByFloat key field delta) key (floatField field) delta
  zIncrBy : ∀ key delta member,
    Counts codec env s (.zIncrBy key delta member) key (memberScore member) delta
  zAddIncr : ∀ key opts delta member rest, opts.incr →
    (∀ place, (memberScore member).slot (s.live env.now key) = some place →
      ((memberScore member).due delta place).isSome) →
    Counts codec env s (.zAdd key opts ((delta, member) :: rest)) key (memberScore member) delta

theorem increments_exact (codec : Codec) (env : Env) (s : KeyValueStore) : ExactIncrements codec env s where
  incr key := counts_incrBy (by decide) rfl
  decr key := counts_incrBy (by decide) rfl
  incrBy key delta fits := counts_incrBy fits rfl
  decrBy key delta fits other := counts_incrBy (fits.neg other) (by rw [program, if_neg other])
  decrByMin key := ⟨rfl, rfl⟩
  hIncrBy key field delta fits numeric :=
    counts_one rfl fun live => Counter.steps_collection live (fun _ => rfl) Std.ExtTreeMap.getElem?_empty
      fun h held => makes_addToField delta fun text there => numeric text (by rw [held, there])
  hIncrByFloat key field delta numeric :=
    counts_one rfl fun live => Counter.steps_collection live (fun _ => rfl) Std.ExtTreeMap.getElem?_empty
      fun h held => makes_addFloatToField delta fun text there => numeric text (by rw [held, there])
  zIncrBy key delta member :=
    counts_one rfl fun live => Counter.steps_collection live (fun _ => rfl) Std.ExtTreeMap.getElem?_empty
      fun z _ => makes_addToScore delta z
  zAddIncr key opts delta member rest incr finite :=
    counts_one rfl fun live => Counter.steps_collection live (fun _ => rfl) Std.ExtTreeMap.getElem?_empty
      fun z held => makes_zAddExec incr delta rest (finite _ held)

/-- The difference of `-8` and the smallest number is in range, and `DECRBY` refuses it. -/
theorem decrBy_min_refused :
    fromValue (arrayOf [bulk "DECRBY", bulk "n", bulk "-9223372036854775808"]) =
        .ok (.decrBy "n" Decimal.i64Min) ∧
      ¬Counts .literals (.fixed 0) (holding "n" (.str (asBytes "-8"))) (.decrBy "n" Decimal.i64Min) "n"
        integerText (-Decimal.i64Min) := by
  refine ⟨by rfl, fun counts => ?_⟩
  have due : (integerText.slot ((holding "n" (.str (asBytes "-8"))).live 0 "n")).bind
      (integerText.due (-Decimal.i64Min)) = some (2 ^ 63 - 8) := by
    rw [live_holding]
    decide
  obtain ⟨place, -, x, n, -, -, -, m, answer, -⟩ := counts.1.stored (2 ^ 63 - 8) due
  cases answer

end Recached
