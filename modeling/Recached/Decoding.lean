import Recached.Mutation

/-!
# Decoding frames

A frame is parsed as one RESP value and decoded as a command.  `decodes_iff` says for every mutation
when its frame is accepted and what it is decoded to: a key that the parser checks must be a valid
key, a list must not be empty, a deadline or a count must be a signed number, the frame must keep
within the limits of the parser; and `ZADD` frames lose `GT` and `LT`, scores the sign of zero.
-/

namespace Recached

open Text

/-! ## Arguments of a frame -/

@[simp] theorem bulks_nil : bulks [] = [] := rfl

@[simp] theorem bulks_cons (b : Bytes) (bs : List Bytes) :
    bulks (b :: bs) = .bulkString (some b) :: bulks bs := rfl

@[simp] theorem bulks_append (as bs : List Bytes) : bulks (as ++ bs) = bulks as ++ bulks bs :=
  List.map_append

@[simp] theorem length_bulks (bs : List Bytes) : (bulks bs).length = bs.length := List.length_map _

@[simp] theorem stringArg_text (s : String) : stringArg (.bulkString (some (asBytes s))) = s := by
  simp [stringArg, extractString]

@[simp] theorem takeString_text (s : String) :
    takeString (.bulkString (some (asBytes s))) = some s := by
  simp [takeString]

@[simp] theorem takeBytes_bulk (b : Bytes) : takeBytes (.bulkString (some b)) = some b := rfl

@[simp] theorem bytesArg_bulk (b : Bytes) : bytesArg (.bulkString (some b)) = b := rfl

@[simp] theorem collectStrings_text (ss : List String) :
    collectStrings (bulks (ss.map asBytes)) = ss := by
  induction ss with
  | nil => rfl
  | cons s ss ih =>
    rw [List.map_cons, bulks_cons, collectStrings, List.filterMap_cons_some (takeString_text s)]
    exact congrArg _ ih

@[simp] theorem collectBytes_bulks (bs : List Bytes) : (bulks bs).filterMap takeBytes = bs := by
  induction bs with
  | nil => rfl
  | cons b bs ih =>
    rw [bulks_cons, List.filterMap_cons_some (takeBytes_bulk b), ih]

/-- A key the parser accepts. -/
def ValidKey (key : String) : Prop := key ≠ "" ∧ (asBytes key).length ≤ maxKeyBytes

instance (key : String) : Decidable (ValidKey key) := instDecidableAnd

theorem validateKey_ok (key : String) (u : Unit) : validateKey key = .ok u ↔ ValidKey key := by
  unfold validateKey ValidKey
  dsimp only
  split_ifs with empty large
  · simp [empty]
  · simp [Nat.not_le.mpr large]
  · simpa [empty] using Nat.not_lt.mp large

theorem bind_ok_iff {ε α β : Type} {x : Except ε α} {f : α → Except ε β} {b : β} :
    (x >>= f) = .ok b ↔ ∃ a, x = .ok a ∧ f a = .ok b := by
  cases x with
  | error e => simp [bind, Except.bind]
  | ok a => simp [bind, Except.bind]

theorem extractKey_ok (s key : String) :
    extractKey (.bulkString (some (asBytes s))) = .ok key ↔ ValidKey s ∧ key = s := by
  unfold extractKey
  simp only [stringArg_text, bind_ok_iff, validateKey_ok, pure, Except.pure, Except.ok.injEq]
  exact ⟨fun ⟨_, valid, same⟩ => ⟨valid, same.symm⟩, fun ⟨valid, same⟩ => ⟨(), valid, same.symm⟩⟩

theorem takeKey_ok (s key : String) :
    takeKey (.bulkString (some (asBytes s))) = .ok key ↔ ValidKey s ∧ key = s := by
  unfold takeKey
  simp only [takeString_text, Option.getD_some, bind_ok_iff, validateKey_ok, pure, Except.pure,
    Except.ok.injEq]
  exact ⟨fun ⟨_, valid, same⟩ => ⟨valid, same.symm⟩, fun ⟨valid, same⟩ => ⟨(), valid, same.symm⟩⟩

theorem extractKeys_ok (ss keys : List String) :
    extractKeys (bulks (ss.map asBytes)) = .ok keys ↔ (∀ s ∈ ss, ValidKey s) ∧ keys = ss := by
  unfold extractKeys
  induction ss generalizing keys with
  | nil => simp [pure, Except.pure, eq_comm]
  | cons s ss ih =>
    simp only [List.map_cons, bulks_cons, List.mapM_cons, bind_ok_iff, extractKey_ok, ih, pure,
      Except.pure, Except.ok.injEq, List.forall_mem_cons]
    constructor
    · rintro ⟨_, ⟨valid, rfl⟩, _, ⟨rest, rfl⟩, rfl⟩
      exact ⟨⟨valid, rest⟩, rfl⟩
    · rintro ⟨⟨valid, rest⟩, rfl⟩
      exact ⟨s, ⟨valid, rfl⟩, ss, ⟨rest, rfl⟩, rfl⟩

/-- An integer that fits 64 bits. -/
def InI64 (i : ℤ) : Prop := Decimal.i64Min ≤ i ∧ i ≤ Decimal.i64Max

instance (i : ℤ) : Decidable (InI64 i) := instDecidableAnd

theorem extractInt_ofInt (i n : ℤ) :
    extractInt (.bulkString (some (Decimal.ofInt i))) = .ok n ↔ InI64 i ∧ n = i := by
  unfold extractInt
  dsimp only
  rw [(Decimal.isText_ofInt i).asBytes_lossy, Decimal.parseI64, Decimal.parseSigned_ofInt]
  by_cases h : Decimal.i64Min ≤ i ∧ i ≤ Decimal.i64Max
  · rw [if_pos h]
    simp [InI64, h, eq_comm]
  · rw [if_neg h]
    simp [InI64, h]

theorem extractInt_digits (k : ℕ) (n : ℤ) :
    extractInt (.bulkString (some (Decimal.digits k))) = .ok n ↔
      (k : ℤ) ≤ Decimal.i64Max ∧ n = k := by
  unfold extractInt
  dsimp only
  rw [(Decimal.isText_digits k).asBytes_lossy, Decimal.parseI64_digits]
  by_cases h : (k : ℤ) ≤ Decimal.i64Max
  · rw [if_pos h]
    simp [h, eq_comm]
  · rw [if_neg h]
    simp [h]

theorem extractCount_digits (k n : ℕ) :
    extractCount (.bulkString (some (Decimal.digits k))) = .ok n ↔
      (k : ℤ) ≤ Decimal.i64Max ∧ n = k := by
  unfold extractCount
  simp only [bind_ok_iff, extractInt_digits]
  constructor
  · rintro ⟨_, ⟨fits, rfl⟩, h⟩
    rw [if_neg (by omega)] at h
    exact ⟨fits, by simpa using (Except.ok.inj h).symm⟩
  · rintro ⟨fits, rfl⟩
    exact ⟨n, ⟨fits, rfl⟩, by rw [if_neg (by omega)]; simp⟩

/-! ## Scores -/

/-- The number that a printed score reads back as. -/
def wireScore (x : Binary64) : Binary64 :=
  if x.isNaN then .nan else if x = Binary64.zero.negate then .zero else x

theorem formatScore_ascii (x : Binary64) : ∀ b ∈ formatScore x, b.toNat < 128 := by
  unfold formatScore
  split_ifs
  · exact ascii_of_all (by decide)
  · exact ascii_of_all (by decide)
  · exact Decimal.ofInt_ascii _
  · exact Binary64.display_ascii x

theorem isText_formatScore (x : Binary64) : IsText (formatScore x) :=
  isText_of_ascii (formatScore_ascii x)

theorem formatF64Score_eq (x : Binary64) : formatF64Score x = formatScore x := rfl

theorem eq_zero_of_mag {x : Binary64} (h : x.mag = 0) :
    x = Binary64.zero ∨ x = Binary64.zero.negate := by
  obtain ⟨neg, mag, lt⟩ := x
  subst h
  cases neg
  · exact .inl rfl
  · exact .inr rfl

theorem numerator_of_mag {x : Binary64} (h : x.mag = 0) : x.numerator = 0 := by
  simp [Binary64.numerator, Binary64.significand, h]

theorem whole_of_mag {x : Binary64} (h : x.mag = 0) : x.isIntegral && x.absLt (10 ^ 15) := by
  have finite : x.isFinite := by simp [Binary64.isFinite, Binary64.infMag, h]
  simp [Binary64.isIntegral, Binary64.absLt, finite, numerator_of_mag h, Binary64.denominator_pos]

theorem parse_formatScore (x : Binary64) : Binary64.parse (formatScore x) = some (wireScore x) := by
  unfold formatScore
  split_ifs with inf negInf whole
  · subst inf
    rfl
  · subst negInf
    rfl
  · simp only [Bool.and_eq_true] at whole
    by_cases zero : x.mag = 0
    · have read : wireScore x = .zero := by rcases eq_zero_of_mag zero with rfl | rfl <;> rfl
      have truncated : x.truncate = 0 := by
        simp [Binary64.truncate, numerator_of_mag zero]
      rw [truncated, read]
      rfl
    · have number : x.isNaN = false := by
        have finite := whole.1
        simp only [Binary64.isIntegral, Binary64.isFinite, Bool.and_eq_true, decide_eq_true_eq] at finite
        simpa [Binary64.isNaN] using finite.1.le
      have signed : x ≠ Binary64.zero.negate := fun h => zero (h ▸ rfl)
      rw [Binary64.parse_truncate whole.1 fun _ => zero]
      simp [wireScore, number, signed]
  · by_cases nan : x.isNaN
    · rw [Binary64.display, if_pos nan, wireScore, if_pos nan]
      rfl
    · have signed : x ≠ Binary64.zero.negate := fun h => whole (h ▸ whole_of_mag rfl)
      rw [Binary64.parse_display (by simpa using nan)]
      simp [wireScore, nan, signed]

theorem extractFloat_score (x y : Binary64) :
    extractFloat (.bulkString (some (formatF64Score x))) = .ok y ↔ y = wireScore x := by
  have text : asBytes (fromUtf8Lossy (formatScore x)) = formatScore x :=
    (isText_formatScore x).asBytes_lossy
  have parsed := parse_formatScore x
  rw [← text] at parsed
  rw [formatF64Score_eq]
  unfold extractFloat
  dsimp only
  -- the words for infinity also parse as numbers
  split_ifs with inf negInf
  · have read : wireScore x = .infinity := by
      rcases inf with inf | inf <;> rw [inf] at parsed <;> exact (Option.some.inj parsed).symm
    rw [read, Except.ok.injEq, eq_comm]
  · rw [negInf] at parsed
    have read : wireScore x = Binary64.infinity.negate := (Option.some.inj parsed).symm
    rw [read, Except.ok.injEq, eq_comm]
  · rw [parsed]
    simp [eq_comm]

/-! ## Text and payload arguments -/

theorem invalidTextFrom_cons {name : String} {i : ℕ} {b : Bytes} (vs : List Value)
    (h : isPayloadIndex name i = true ∨ IsText b) :
    invalidTextFrom name i (.bulkString (some b) :: vs) = invalidTextFrom name (i + 1) vs := by
  rw [invalidTextFrom]
  rcases h with h | h
  · simp [h]
  · simp [h.fromUtf8_isNone]

theorem invalidTextFrom_text (name : String) (i : ℕ) {bs : List Bytes} (h : ∀ b ∈ bs, IsText b) :
    invalidTextFrom name i (bulks bs) = none := by
  induction bs generalizing i with
  | nil => rfl
  | cons b bs ih =>
    rw [List.forall_mem_cons] at h
    rw [bulks_cons, invalidTextFrom_cons _ (.inr h.1), ih _ h.2]

theorem invalidTextFrom_payloads {name : String} {i : ℕ} (h : ∀ j, i ≤ j → isPayloadIndex name j = true)
    (bs : List Bytes) : invalidTextFrom name i (bulks bs) = none := by
  induction bs generalizing i with
  | nil => rfl
  | cons b bs ih =>
    rw [bulks_cons, invalidTextFrom_cons _ (.inl (h i le_rfl)), ih fun j hj => h j (by omega)]

theorem invalidTextFrom_pairs {name : String} {i : ℕ}
    (h : ∀ j, isPayloadIndex name (i + 2 * j + 1) = true) (pairs : List (String × Bytes)) :
    invalidTextFrom name i (bulks (Mutation.pairParts pairs)) = none := by
  induction pairs generalizing i with
  | nil => rfl
  | cons p pairs ih =>
    have next : ∀ j, isPayloadIndex name (i + 1 + 1 + 2 * j + 1) = true := fun j => by
      have := h (j + 1)
      rwa [show i + 2 * (j + 1) + 1 = i + 1 + 1 + 2 * j + 1 by ring] at this
    simp only [Mutation.pairParts, List.flatMap_cons, List.cons_append, List.nil_append, bulks_cons]
    rw [invalidTextFrom_cons _ (.inr (isText_asBytes _)), invalidTextFrom_cons _ (.inl (h 0))]
    exact ih next

theorem isText_of_mem_map {ss : List String} {b : Bytes} (h : b ∈ ss.map asBytes) : IsText b := by
  obtain ⟨s, -, rfl⟩ := List.mem_map.mp h
  exact isText_asBytes s

/-! ## From a frame to its parser -/

theorem fromArray_bulks {name : String} {parser : Parser} {args : List Bytes}
    (found : parsers.lookup name = some parser) (upper : toUppercase name = name)
    (plain : name ≠ "DEDUP") (text : invalidTextFrom name 1 (bulks args) = none) :
    fromArray (bulks (asBytes name :: args)) = parser name (bulks args) := by
  have command : commandName (.bulkString (some (asBytes name))) = .ok name := by
    simp [commandName, upper]
  rw [bulks_cons, fromArray]
  simp only [command, text, bind, Except.bind]
  rw [if_neg plain, found]

theorem need_ok {n : ℕ} {name : String} {args : List Value} (u : Unit) :
    need n name args = .ok u ↔ n ≤ args.length + 1 := by
  unfold need
  split_ifs with h
  · simp [Nat.not_le.mpr h]
  · simp [Nat.not_lt.mp h]

theorem onKey_ok {n : ℕ} {f : String → List Value → Except String Command} {name key : String}
    {vs : List Value} {c : Command} :
    onKey n f name (.bulkString (some (asBytes key)) :: vs) = .ok c ↔
      n ≤ vs.length + 2 ∧ ValidKey key ∧
        f key (.bulkString (some (asBytes key)) :: vs) = .ok c := by
  unfold onKey
  simp only [bind_ok_iff, need_ok, argAt, List.length_cons, tsub_self, List.getD_cons_zero,
    extractKey_ok]
  constructor
  · rintro ⟨_, arity, _, ⟨valid, rfl⟩, h⟩
    exact ⟨arity, valid, h⟩
  · rintro ⟨arity, valid, h⟩
    exact ⟨(), arity, key, ⟨valid, rfl⟩, h⟩

theorem onName_ok {n : ℕ} {f : String → List Value → Except String Command} {name key : String}
    {vs : List Value} {c : Command} :
    onName n f name (.bulkString (some (asBytes key)) :: vs) = .ok c ↔
      n ≤ vs.length + 2 ∧ f key (.bulkString (some (asBytes key)) :: vs) = .ok c := by
  unfold onName
  simp only [bind_ok_iff, need_ok, argAt, List.length_cons, tsub_self, List.getD_cons_zero,
    stringArg_text]
  exact ⟨fun ⟨_, arity, h⟩ => ⟨arity, h⟩, fun ⟨arity, h⟩ => ⟨(), arity, h⟩⟩

/-! ## The options of ZADD -/

/-- A text whose first character is a digit or a minus sign is no option. -/
theorem toUppercase_signed {b : UInt8} {rest : Bytes} (head : Decimal.isDigit b = true ∨ b = 45)
    (text : IsText rest) :
    ∃ c cs, toUppercase (fromUtf8Lossy (b :: rest)) = String.ofList (c :: cs) ∧ c.toNat ≤ 57 := by
  obtain ⟨s, rfl⟩ := text
  have ascii : b.toNat < 128 := by
    rcases head with h | rfl
    · exact Decimal.isDigit_ascii h
    · decide
  have split : asBytes (String.singleton (Char.ofNat b.toNat) ++ s) = b :: asBytes s := by
    rw [asBytes_append, asBytes_ascii _ ascii, Nat.toUInt8_eq, UInt8.ofNat_toNat]
    rfl
  have same : upperChar (Char.ofNat b.toNat) = [Char.ofNat b.toNat] ∧
      (Char.ofNat b.toNat).toNat ≤ 57 := by
    have range : 45 ≤ b.toNat ∧ b.toNat ≤ 57 := by
      rcases head with h | rfl
      · simp only [Decimal.isDigit, Bool.and_eq_true, decide_eq_true_eq] at h
        omega
      · decide
    generalize b.toNat = n at range
    obtain ⟨low, high⟩ := range
    interval_cases n <;> exact ⟨rfl, by decide⟩
  rw [← split, fromUtf8Lossy_asBytes, toUppercase]
  refine ⟨_, s.toList.flatMap upperChar, ?_, same.2⟩
  rw [String.toList_append, String.toList_singleton, List.singleton_append, List.flatMap_cons,
    same.1, List.singleton_append]

theorem formatScore_head (x : Binary64) :
    formatScore x = asBytes "inf" ∨ formatScore x = asBytes "NaN" ∨
      ∃ b rest, formatScore x = b :: rest ∧ (Decimal.isDigit b = true ∨ b = 45) := by
  unfold formatScore
  split_ifs with inf negInf
  · exact .inl rfl
  · exact .inr (.inr ⟨45, asBytes "inf", rfl, .inr rfl⟩)
  · exact .inr (.inr (Decimal.ofInt_head _))
  · by_cases nan : x.isNaN
    · rw [Binary64.display, if_pos nan]
      exact .inr (.inl rfl)
    · have finite : x.isInfinite = false := by
        obtain ⟨neg, mag, bound⟩ := x
        rw [Bool.eq_false_iff]
        intro infinite
        obtain rfl : mag = Binary64.infMag := by simpa [Binary64.isInfinite] using infinite
        cases neg
        · exact inf rfl
        · exact negInf rfl
      exact .inr (.inr (Binary64.display_head (by simpa using nan) finite))

/-- A printed score is no option of `ZADD`. -/
theorem parseZAddOptions_score (opts : ZAddOptions) (x : Binary64) (vs : List Value) :
    parseZAddOptions opts (.bulkString (some (formatF64Score x)) :: vs) =
      (opts, .bulkString (some (formatF64Score x)) :: vs) := by
  have noOption : ∀ w ∈ ["NX", "XX", "GT", "LT", "CH", "INCR"],
      toUppercase (fromUtf8Lossy (formatScore x)) ≠ w := by
    rcases formatScore_head x with h | h | ⟨b, rest, h, head⟩
    · rw [h, fromUtf8Lossy_asBytes]
      decide
    · rw [h, fromUtf8Lossy_asBytes]
      decide
    · have text : IsText rest := isText_of_ascii fun y hy =>
        formatScore_ascii x y (h ▸ List.mem_cons_of_mem b hy)
      obtain ⟨c, cs, upper, low⟩ := toUppercase_signed head text
      rw [h, upper]
      intro w hw eq
      have first := congrArg (fun s : String => s.toList.head?) eq
      simp only [String.toList_ofList, List.head?_cons] at first
      have letter : ∀ w ∈ ["NX", "XX", "GT", "LT", "CH", "INCR"], ∀ c : Char,
          some c = w.toList.head? → 57 < c.toNat := by
        simp only [List.forall_mem_cons]
        refine ⟨?_, ?_, ?_, ?_, ?_, ?_, nofun⟩ <;>
        · rintro c ⟨⟩
          decide
      exact absurd (letter w hw c first) (not_lt.mpr low)
  simp only [List.forall_mem_cons] at noOption
  obtain ⟨nx, xx, gt, lt, ch, incr, -⟩ := noOption
  rw [parseZAddOptions]
  simp only [stringArg, extractString, Option.getD_some, formatF64Score_eq]

/-- The options that a `ZADD` frame carries: the comparing ones are left out. -/
def wireOptions (opts : ZAddOptions) : ZAddOptions := { opts with gt := false, lt := false }

@[simp] theorem wireOptions_gt (opts : ZAddOptions) : (wireOptions opts).gt = false := rfl
@[simp] theorem wireOptions_lt (opts : ZAddOptions) : (wireOptions opts).lt = false := rfl
@[simp] theorem wireOptions_incr (opts : ZAddOptions) : (wireOptions opts).incr = opts.incr := rfl

theorem parseZAddOptions_wire (opts : ZAddOptions) (pairs : List (Binary64 × String)) :
    parseZAddOptions {} (bulks (zAddOptionParts opts ++ Mutation.scoreParts pairs)) =
      (wireOptions opts, bulks (Mutation.scoreParts pairs)) := by
  have stop : ∀ opts, parseZAddOptions opts (bulks (Mutation.scoreParts pairs)) =
      (opts, bulks (Mutation.scoreParts pairs)) := by
    intro opts
    cases pairs with
    | nil => rfl
    | cons p pairs => exact parseZAddOptions_score opts p.1 _
  obtain ⟨condition, gt, lt, ch, incr⟩ := opts
  rw [bulks_append]
  rcases condition with _ | _ | _ <;> cases ch <;> cases incr <;>
    simp [zAddOptionParts, parseZAddOptions, stop, wireOptions, show toUppercase "NX" = "NX" from rfl,
      show toUppercase "XX" = "XX" from rfl, show toUppercase "CH" = "CH" from rfl,
      show toUppercase "INCR" = "INCR" from rfl]

/-- The pairs as they are read back. -/
def wirePairs (pairs : List (Binary64 × String)) : List (Binary64 × String) :=
  pairs.map fun p => (wireScore p.1, p.2)

theorem parseZAddPairs_wire (pairs ps : List (Binary64 × String)) :
    parseZAddPairs (bulks (Mutation.scoreParts pairs)) = .ok ps ↔ ps = wirePairs pairs := by
  induction pairs generalizing ps with
  | nil => simp [Mutation.scoreParts, parseZAddPairs, wirePairs, eq_comm]
  | cons p pairs ih =>
    simp only [Mutation.scoreParts, List.flatMap_cons, List.cons_append, List.nil_append, bulks_cons,
      parseZAddPairs, bind_ok_iff, extractFloat_score, stringArg_text, Except.ok.injEq]
    constructor
    · rintro ⟨_, rfl, rest, h, rfl⟩
      rw [(ih rest).mp h]
      rfl
    · rintro rfl
      exact ⟨_, rfl, _, (ih _).mpr rfl, rfl⟩

theorem parsePairs_keys (pairs ps : List (String × Bytes)) :
    parsePairs takeKey (bulks (Mutation.pairParts pairs)) = .ok ps ↔
      (∀ p ∈ pairs, ValidKey p.1) ∧ ps = pairs := by
  induction pairs generalizing ps with
  | nil => simp [Mutation.pairParts, parsePairs, eq_comm]
  | cons p pairs ih =>
    simp only [Mutation.pairParts, List.flatMap_cons, List.cons_append, List.nil_append, bulks_cons,
      parsePairs, bind_ok_iff, takeKey_ok, takeBytes_bulk, Option.getD_some, Except.ok.injEq,
      List.forall_mem_cons]
    constructor
    · rintro ⟨_, ⟨valid, rfl⟩, rest, h, rfl⟩
      obtain ⟨others, rfl⟩ := (ih rest).mp h
      exact ⟨⟨valid, others⟩, rfl⟩
    · rintro ⟨⟨valid, others⟩, rfl⟩
      exact ⟨p.1, ⟨valid, rfl⟩, pairs, (ih pairs).mpr ⟨others, rfl⟩, rfl⟩

theorem parsePairs_fields (pairs ps : List (String × Bytes)) :
    parsePairs (fun f => .ok ((takeString f).getD "")) (bulks (Mutation.pairParts pairs)) = .ok ps ↔
      ps = pairs := by
  induction pairs generalizing ps with
  | nil => simp [Mutation.pairParts, parsePairs, eq_comm]
  | cons p pairs ih =>
    simp only [Mutation.pairParts, List.flatMap_cons, List.cons_append, List.nil_append, bulks_cons,
      parsePairs, bind_ok_iff, takeString_text, takeBytes_bulk, Option.getD_some, Except.ok.injEq]
    constructor
    · rintro ⟨_, rfl, rest, h, rfl⟩
      rw [(ih rest).mp h]
    · rintro rfl
      exact ⟨p.1, rfl, pairs, (ih pairs).mpr rfl, rfl⟩

theorem length_pairParts (pairs : List (String × Bytes)) :
    (Mutation.pairParts pairs).length = 2 * pairs.length := by
  induction pairs with
  | nil => rfl
  | cons p pairs ih =>
    rw [Mutation.pairParts] at ih ⊢
    rw [List.flatMap_cons, List.length_append, ih, List.length_cons]
    simp only [List.length_cons, List.length_nil]
    ring

theorem length_scoreParts (pairs : List (Binary64 × String)) :
    (Mutation.scoreParts pairs).length = 2 * pairs.length := by
  induction pairs with
  | nil => rfl
  | cons p pairs ih =>
    rw [Mutation.scoreParts] at ih ⊢
    rw [List.flatMap_cons, List.length_append, ih, List.length_cons]
    simp only [List.length_cons, List.length_nil]
    ring

/-! ## Every mutation -/

/-- A positive number of milliseconds that a signed number can hold. -/
def Deadline.Acceptable : Deadline → Prop
  | none | keep => True
  | till ms => 0 < ms ∧ (ms : ℤ) ≤ Decimal.i64Max

instance : DecidablePred Deadline.Acceptable := fun
  | .none | .keep => .isTrue trivial
  | .till _ => instDecidableAnd

/-- The parser accepts the arguments of the mutation. -/
def Mutation.Acceptable : Mutation → Prop
  | set key _ deadline => ValidKey key ∧ deadline.Acceptable
  | del keys => keys ≠ [] ∧ ∀ k ∈ keys, ValidKey k
  | mSet pairs => pairs ≠ [] ∧ ∀ p ∈ pairs, ValidKey p.1
  | append key _ | jSet key _ _ | jMerge key _ => ValidKey key
  | pExpireAt _ ts => (ts : ℤ) ≤ Decimal.i64Max
  | persist _ | flushDb | rename _ _ | sMove _ _ _ | zIncrBy _ _ _ => True
  | hSet key pairs => ValidKey key ∧ pairs ≠ []
  | hDel key names | sAdd key names | sRem key names | zRem key names => ValidKey key ∧ names ≠ []
  | lPush key vals | rPush key vals => ValidKey key ∧ vals ≠ []
  | lPop key count | rPop key count => ValidKey key ∧ ∀ n ∈ count, (n : ℤ) ≤ Decimal.i64Max
  | lSet _ idx _ => InI64 idx
  | lRem _ count _ => InI64 count
  | lTrim _ start stop => InI64 start ∧ InI64 stop
  | sInterStore _ keys | sUnionStore _ keys | sDiffStore _ keys => keys ≠ []
  | zAdd key opts pairs => ValidKey key ∧ pairs ≠ [] ∧ (opts.incr → pairs.length = 1)
  | rlSet key limit windowSecs =>
    ValidKey key ∧ (0 < limit ∧ (limit : ℤ) ≤ Decimal.i64Max) ∧
      (0 < windowSecs ∧ (windowSecs : ℤ) ≤ Decimal.i64Max)

/-- The mutation as its frame carries it. -/
def Mutation.wire : Mutation → Mutation
  | zAdd key opts pairs => zAdd key (wireOptions opts) (wirePairs pairs)
  | zIncrBy key delta member => zIncrBy key (wireScore delta) member
  | m => m

theorem decoded {c : Command} {P : Prop} (name : String) {parser : Parser} (args : List Bytes)
    (found : parsers.lookup name = some parser) (upper : toUppercase name = name)
    (plain : name ≠ "DEDUP") (text : invalidTextFrom name 1 (bulks args) = none)
    (h : parser name (bulks args) = .ok c ↔ P) : fromArray (bulks (asBytes name :: args)) = .ok c ↔ P := by
  rw [fromArray_bulks found upper plain text, h]

theorem onKey_names {name key : String} {names : List String} {f : String → List String → Command}
    {c : Command} :
    onKey 3 (fun key args => .ok (f key (collectStrings (argsFrom args 2)))) name
        (bulks (asBytes key :: names.map asBytes)) = .ok c ↔
      (ValidKey key ∧ names ≠ []) ∧ c = f key names := by
  rw [bulks_cons, onKey_ok]
  simp only [length_bulks, List.length_map, argsFrom, Nat.add_one_sub_one, List.drop_succ_cons,
    List.drop_zero, collectStrings_text, Except.ok.injEq, ← List.length_pos_iff_ne_nil]
  rw [eq_comm]
  constructor
  · rintro ⟨arity, valid, rfl⟩
    exact ⟨⟨valid, by omega⟩, rfl⟩
  · rintro ⟨⟨valid, some⟩, rfl⟩
    exact ⟨by omega, valid, rfl⟩

theorem text_names (name key : String) (names : List String) :
    invalidTextFrom name 1 (bulks (asBytes key :: names.map asBytes)) = none :=
  invalidTextFrom_text _ _ (List.forall_mem_cons.mpr ⟨isText_asBytes _, fun _ => isText_of_mem_map⟩)

theorem text_args (name : String) {args : List Bytes} (h : ∀ b ∈ args, IsText b) :
    invalidTextFrom name 1 (bulks args) = none :=
  invalidTextFrom_text _ _ h

theorem storeKeys_ok {name dst : String} {keys : List String} {f : String → List String → Command}
    {c : Command} :
    storeKeys f name (bulks (asBytes dst :: keys.map asBytes)) = .ok c ↔ keys ≠ [] ∧ c = f dst keys := by
  rw [storeKeys, bulks_cons, onName_ok]
  simp only [length_bulks, List.length_map, argsFrom, Nat.add_one_sub_one, List.drop_succ_cons,
    List.drop_zero, collectStrings_text, Except.ok.injEq, ← List.length_pos_iff_ne_nil]
  rw [eq_comm (a := c)]
  exact and_congr_left fun _ => by omega

theorem pushValues_ok {name key : String} {vals : List Bytes} {f : String → List Bytes → Command}
    {c : Command} :
    pushValues f name (bulks (asBytes key :: vals)) = .ok c ↔
      (ValidKey key ∧ vals ≠ []) ∧ c = f key vals := by
  rw [pushValues, bulks_cons, onKey_ok]
  simp only [length_bulks, argsFrom, Nat.add_one_sub_one, List.drop_succ_cons, List.drop_zero,
    collectBytes_bulks, Except.ok.injEq, ← List.length_pos_iff_ne_nil]
  constructor
  · rintro ⟨arity, valid, rfl⟩
    exact ⟨⟨valid, by omega⟩, rfl⟩
  · rintro ⟨⟨valid, some⟩, rfl⟩
    exact ⟨by omega, valid, rfl⟩

theorem popCount_ok {name key : String} {count : Option ℕ} {f : String → Option ℕ → Command}
    {c : Command} :
    popCount f name (bulks (asBytes key :: (count.map Decimal.digits).toList)) = .ok c ↔
      (ValidKey key ∧ ∀ n ∈ count, (n : ℤ) ≤ Decimal.i64Max) ∧ c = f key count := by
  rw [popCount, bulks_cons, onKey_ok, length_bulks, and_iff_right (by omega), and_assoc]
  refine and_congr_right fun _ => ?_
  cases count with
  | none => simp [optionalCount, bind, Except.bind, eq_comm]
  | some n =>
    have count : optionalCount (.bulkString (some (asBytes key)) ::
        bulks ((some n).map Decimal.digits).toList) = (do
          let n ← extractCount (.bulkString (some (Decimal.digits n)))
          .ok (some n)) := rfl
    rw [count]
    simp only [bind_ok_iff, extractCount_digits, Except.ok.injEq, Option.mem_some_iff,
      forall_eq']
    constructor
    · rintro ⟨_, ⟨_, ⟨fits, rfl⟩, rfl⟩, rfl⟩
      exact ⟨fits, rfl⟩
    · rintro ⟨fits, rfl⟩
      exact ⟨_, ⟨n, ⟨fits, rfl⟩, rfl⟩, rfl⟩

/-- A parser that takes a checked key first. -/
theorem takeKey_first {n : ℕ} {name key : String} {vs : List Value}
    {f : String → Except String Command} {c : Command} :
    (do need n name (.bulkString (some (asBytes key)) :: vs)
        let key ← takeKey (argAt (.bulkString (some (asBytes key)) :: vs) 1)
        f key) = .ok c ↔ n ≤ vs.length + 2 ∧ ValidKey key ∧ f key = .ok c := by
  simp only [bind_ok_iff, need_ok, argAt, List.length_cons, tsub_self, List.getD_cons_zero, takeKey_ok]
  constructor
  · rintro ⟨_, arity, _, ⟨valid, rfl⟩, h⟩
    exact ⟨arity, valid, h⟩
  · rintro ⟨arity, valid, h⟩
    exact ⟨(), arity, key, ⟨valid, rfl⟩, h⟩

theorem deadline_ok {name command key : String} {ts : ℕ} {f : String → ℕ → Command} {c : Command} :
    deadline name f command (bulks [asBytes key, Decimal.digits ts]) = .ok c ↔
      (ts : ℤ) ≤ Decimal.i64Max ∧ c = f key ts := by
  simp only [deadline, bind_ok_iff, need_ok, argAt, bulks_cons, bulks_nil, List.length_cons,
    List.length_nil, List.getD_cons_succ, List.getD_cons_zero, Nat.add_one_sub_one, tsub_self,
    extractInt_digits, stringArg_text]
  constructor
  · rintro ⟨_, -, _, ⟨fits, rfl⟩, h⟩
    rw [if_neg (by omega)] at h
    exact ⟨fits, by simpa using (Except.ok.inj h).symm⟩
  · rintro ⟨fits, rfl⟩
    exact ⟨(), by omega, _, ⟨fits, rfl⟩, by rw [if_neg (by omega)]; rfl⟩

theorem expireTime_digits (name : String) (k n : ℕ) :
    expireTime name (.bulkString (some (Decimal.digits k))) = .ok n ↔
      (0 < k ∧ (k : ℤ) ≤ Decimal.i64Max) ∧ n = k := by
  simp only [expireTime, bind_ok_iff, extractInt_digits]
  constructor
  · rintro ⟨_, ⟨fits, rfl⟩, h⟩
    split_ifs at h with zero
    exact ⟨⟨by omega, fits⟩, by simpa using (Except.ok.inj h).symm⟩
  · rintro ⟨⟨positive, fits⟩, rfl⟩
    exact ⟨_, ⟨fits, rfl⟩, by rw [if_neg (by omega)]; rfl⟩

theorem parseSetOptions_parts (deadline : Deadline) (opts : SetOptions) :
    parseSetOptions {} (bulks deadline.parts) = .ok opts ↔
      deadline.Acceptable ∧ opts = { expiry := deadline.expiry } := by
  cases deadline with
  | none => simp [Deadline.parts, parseSetOptions, Deadline.Acceptable, Deadline.expiry, eq_comm]
  | keep =>
    simp [Deadline.parts, parseSetOptions, Deadline.Acceptable, Deadline.expiry,
      show toUppercase "KEEPTTL" = "KEEPTTL" from rfl, eq_comm]
  | till ms =>
    simp only [Deadline.parts, bulks_cons, bulks_nil, parseSetOptions, stringArg_text,
      show toUppercase "PXAT" = "PXAT" from rfl, bind_ok_iff, expireTime_digits]
    constructor
    · rintro ⟨_, ⟨fits, rfl⟩, h⟩
      exact ⟨fits, (Except.ok.inj h).symm⟩
    · rintro ⟨fits, rfl⟩
      exact ⟨ms, ⟨fits, rfl⟩, rfl⟩

theorem parseHSet_ok {name key : String} {pairs : List (String × Bytes)} {c : Command} :
    parseHSet name (bulks (asBytes key :: Mutation.pairParts pairs)) = .ok c ↔
      (ValidKey key ∧ pairs ≠ []) ∧ c = .hSet key pairs := by
  unfold parseHSet
  rw [length_bulks, List.length_cons, length_pairParts]
  split_ifs with few
  · have none : pairs = [] := List.eq_nil_of_length_eq_zero (by omega)
    simp [none, bind, Except.bind]
  · have some : pairs ≠ [] := List.ne_nil_of_length_pos (by omega)
    simp only [bulks_cons, argAt, argsFrom, tsub_self, List.getD_cons_zero, Nat.add_one_sub_one,
      List.drop_succ_cons, List.drop_zero, bind_ok_iff, extractKey_ok, parsePairs_fields]
    constructor
    · rintro ⟨_, ⟨valid, rfl⟩, _, rfl, h⟩
      exact ⟨⟨valid, some⟩, (Except.ok.inj h).symm⟩
    · rintro ⟨⟨valid, -⟩, rfl⟩
      exact ⟨key, ⟨valid, rfl⟩, pairs, rfl, rfl⟩

theorem parseZAdd_ok {name key : String} {opts : ZAddOptions} {pairs : List (Binary64 × String)}
    {c : Command} :
    parseZAdd name (bulks (asBytes key :: (zAddOptionParts opts ++ Mutation.scoreParts pairs))) = .ok c ↔
      (ValidKey key ∧ pairs ≠ [] ∧ (opts.incr → pairs.length = 1)) ∧
        c = .zAdd key (wireOptions opts) (wirePairs pairs) := by
  unfold parseZAdd
  rw [bulks_cons, onKey_ok]
  simp only [argsFrom, Nat.add_one_sub_one, List.drop_succ_cons, List.drop_zero,
    parseZAddOptions_wire, length_bulks, length_scoreParts, List.length_append]
  have even : 2 * pairs.length % 2 = 0 := Nat.mul_mod_right 2 _
  by_cases none : pairs = []
  · simp [none, bind, Except.bind]
  · have some := List.length_pos_iff_ne_nil.mpr none
    rw [if_neg (by omega)]
    simp only [bind_ok_iff, parseZAddPairs_wire, wireOptions_gt, wireOptions_lt,
      Bool.false_and, Bool.false_or, Bool.false_eq_true, if_false]
    have length : (wirePairs pairs).length = pairs.length := List.length_map _
    constructor
    · rintro ⟨-, valid, _, rfl, h⟩
      by_cases several : ((wireOptions opts).incr && (wirePairs pairs).length != 1) = true
      · rw [if_pos several] at h
        exact absurd h nofun
      · rw [if_neg several] at h
        refine ⟨⟨valid, none, fun incr => ?_⟩, (Except.ok.inj h).symm⟩
        simpa [incr, length] using several
    · rintro ⟨⟨valid, -, single⟩, rfl⟩
      refine ⟨by omega, valid, _, rfl, ?_⟩
      rw [if_neg]
      simpa [length] using single

theorem parseRlConfig_ok {limit windowSecs : ℕ} {name : String} {config : ℕ × ℕ} :
    parseRlConfig (.bulkString (some (Decimal.digits limit)))
        (.bulkString (some (Decimal.digits windowSecs))) name = .ok config ↔
      (0 < limit ∧ (limit : ℤ) ≤ Decimal.i64Max) ∧
        (0 < windowSecs ∧ (windowSecs : ℤ) ≤ Decimal.i64Max) ∧ config = (limit, windowSecs) := by
  simp only [parseRlConfig, bind_ok_iff, extractInt_digits]
  constructor
  · rintro ⟨_, ⟨fits, rfl⟩, _, ⟨fits', rfl⟩, h⟩
    by_cases zero : (limit : ℤ) ≤ 0
    · rw [if_pos zero] at h
      exact absurd h nofun
    · by_cases zero' : (windowSecs : ℤ) ≤ 0
      · rw [if_neg zero, if_pos zero'] at h
        exact absurd h nofun
      · rw [if_neg zero, if_neg zero'] at h
        exact ⟨⟨by omega, fits⟩, ⟨by omega, fits'⟩, by simpa using (Except.ok.inj h).symm⟩
  · rintro ⟨⟨zero, fits⟩, ⟨zero', fits'⟩, rfl⟩
    refine ⟨limit, ⟨fits, rfl⟩, windowSecs, ⟨fits', rfl⟩, ?_⟩
    rw [if_neg (by omega), if_neg (by omega)]
    rfl

theorem decodes_iff (m : Mutation) (c : Command) :
    fromArray (bulks m.parts) = .ok c ↔ m.Acceptable ∧ c = m.wire.toCommand := by
  have texts : ∀ ss : List String, ∀ b ∈ ss.map asBytes, IsText b := fun ss b => isText_of_mem_map
  cases m
  case set key val deadline =>
    refine decoded "SET" (asBytes key :: val :: deadline.parts) rfl rfl (by decide) ?_ ?_
    · rw [bulks_cons, bulks_cons, invalidTextFrom_cons _ (.inr (isText_asBytes _)),
        invalidTextFrom_cons _ (.inl rfl)]
      refine invalidTextFrom_text _ _ ?_
      cases deadline <;> simp [Deadline.parts, isText_asBytes, Decimal.isText_digits]
    · refine takeKey_first.trans ?_
      simp only [bulks_cons, argAt, argsFrom, List.getD_cons_succ, List.getD_cons_zero,
        Nat.add_one_sub_one, List.drop_succ_cons, List.drop_zero, bind_ok_iff, parseSetOptions_parts]
      constructor
      · rintro ⟨-, valid, _, ⟨fits, rfl⟩, h⟩
        exact ⟨⟨valid, fits⟩, (Except.ok.inj h).symm⟩
      · rintro ⟨⟨valid, fits⟩, rfl⟩
        exact ⟨by simp, valid, _, ⟨fits, rfl⟩, rfl⟩
  case del keys =>
    refine decoded "DEL" (keys.map asBytes) rfl rfl (by decide) (text_args _ (texts keys)) ?_
    simp only [bind_ok_iff, need_ok, extractKeys_ok, length_bulks, List.length_map, Except.ok.injEq]
    constructor
    · rintro ⟨_, arity, _, ⟨valid, rfl⟩, rfl⟩
      exact ⟨⟨List.ne_nil_of_length_pos (by omega), valid⟩, rfl⟩
    · rintro ⟨⟨some, valid⟩, rfl⟩
      have := List.length_pos_iff_ne_nil.mpr some
      exact ⟨(), by omega, keys, ⟨valid, rfl⟩, rfl⟩
  case mSet pairs =>
    refine decoded "MSET" (Mutation.pairParts pairs) rfl rfl (by decide)
      (invalidTextFrom_pairs (fun j => ?_) pairs) ?_
    · have payload : isPayloadIndex "MSET" (1 + 2 * j + 1) =
          (2 ≤ 1 + 2 * j + 1 && (1 + 2 * j + 1) % 2 = 0) := rfl
      rw [payload, Bool.and_eq_true, decide_eq_true_eq, decide_eq_true_eq]
      omega
    · rw [length_bulks, length_pairParts]
      split_ifs with few
      · have none : pairs = [] := List.eq_nil_of_length_eq_zero (by omega)
        simp [Mutation.Acceptable, none]
      · have some : pairs ≠ [] := List.ne_nil_of_length_pos (by omega)
        simp only [bind_ok_iff, parsePairs_keys, Except.ok.injEq]
        constructor
        · rintro ⟨_, ⟨valid, rfl⟩, rfl⟩
          exact ⟨⟨some, valid⟩, rfl⟩
        · rintro ⟨⟨-, valid⟩, rfl⟩
          exact ⟨pairs, ⟨valid, rfl⟩, rfl⟩
  case hSet key pairs =>
    refine decoded "HSET" (asBytes key :: Mutation.pairParts pairs) rfl rfl (by decide) ?_ ?_
    · rw [bulks_cons, invalidTextFrom_cons _ (.inr (isText_asBytes _))]
      refine invalidTextFrom_pairs (fun j => ?_) pairs
      have payload : isPayloadIndex "HSET" (1 + 1 + 2 * j + 1) =
          (3 ≤ 1 + 1 + 2 * j + 1 && (1 + 1 + 2 * j + 1) % 2 != 0) := rfl
      rw [payload, Bool.and_eq_true, decide_eq_true_eq, bne_iff_ne]
      omega
    · exact parseHSet_ok
  case sAdd key members =>
    refine decoded "SADD" (asBytes key :: members.map asBytes) rfl rfl (by decide) (text_names ..)
      (takeKey_first.trans ?_)
    simp only [bulks_cons, argsFrom, Nat.add_one_sub_one, List.drop_succ_cons, List.drop_zero,
      List.length_map, collectStrings_text, Except.ok.injEq]
    constructor
    · rintro ⟨arity, valid, rfl⟩
      exact ⟨⟨valid, List.ne_nil_of_length_pos (by omega)⟩, rfl⟩
    · rintro ⟨⟨valid, some⟩, rfl⟩
      have := List.length_pos_iff_ne_nil.mpr some
      exact ⟨by omega, valid, rfl⟩
  case lSet key idx val =>
    refine decoded "LSET" [asBytes key, Decimal.ofInt idx, val] rfl rfl (by decide) ?_
      (onName_ok.trans ?_)
    · rw [bulks_cons, bulks_cons, bulks_cons, invalidTextFrom_cons _ (.inr (isText_asBytes _)),
        invalidTextFrom_cons _ (.inr (Decimal.isText_ofInt _)), invalidTextFrom_cons _ (.inl rfl)]
      rfl
    · simp only [List.map_cons, argAt, List.getD_cons_succ, List.getD_cons_zero,
        Nat.add_one_sub_one, bind_ok_iff, extractInt_ofInt, bytesArg_bulk]
      constructor
      · rintro ⟨-, _, ⟨fits, rfl⟩, h⟩
        exact ⟨fits, (Except.ok.inj h).symm⟩
      · rintro ⟨fits, rfl⟩
        exact ⟨by simp, idx, ⟨fits, rfl⟩, rfl⟩
  case lRem key count element =>
    refine decoded "LREM" [asBytes key, Decimal.ofInt count, element] rfl rfl (by decide) ?_
      (onName_ok.trans ?_)
    · rw [bulks_cons, bulks_cons, bulks_cons, invalidTextFrom_cons _ (.inr (isText_asBytes _)),
        invalidTextFrom_cons _ (.inr (Decimal.isText_ofInt _)), invalidTextFrom_cons _ (.inl rfl)]
      rfl
    · simp only [List.map_cons, argAt, List.getD_cons_succ, List.getD_cons_zero,
        Nat.add_one_sub_one, bind_ok_iff, extractInt_ofInt, bytesArg_bulk]
      constructor
      · rintro ⟨-, _, ⟨fits, rfl⟩, h⟩
        exact ⟨fits, (Except.ok.inj h).symm⟩
      · rintro ⟨fits, rfl⟩
        exact ⟨by simp, count, ⟨fits, rfl⟩, rfl⟩
  case lTrim key start stop =>
    refine decoded "LTRIM" [asBytes key, Decimal.ofInt start, Decimal.ofInt stop] rfl rfl (by decide)
      (text_args _ (by simp [isText_asBytes, Decimal.isText_ofInt])) (onName_ok.trans ?_)
    simp only [List.map_cons, argAt, List.getD_cons_succ, List.getD_cons_zero,
      Nat.add_one_sub_one, bind_ok_iff, extractInt_ofInt]
    constructor
    · rintro ⟨-, _, ⟨fits, rfl⟩, _, ⟨fits', rfl⟩, h⟩
      exact ⟨⟨fits, fits'⟩, (Except.ok.inj h).symm⟩
    · rintro ⟨⟨fits, fits'⟩, rfl⟩
      exact ⟨by simp, start, ⟨fits, rfl⟩, stop, ⟨fits', rfl⟩, rfl⟩
  case zAdd key opts pairs =>
    refine decoded "ZADD" (asBytes key :: (zAddOptionParts opts ++ Mutation.scoreParts pairs)) rfl rfl
      (by decide) (text_args _ ?_) parseZAdd_ok
    have options : ∀ b ∈ zAddOptionParts opts, IsText b := by
      obtain ⟨condition, gt, lt, ch, incr⟩ := opts
      rcases condition with _ | _ | _ <;> cases ch <;> cases incr <;>
        simp [zAddOptionParts, isText_asBytes]
    have scores : ∀ b ∈ Mutation.scoreParts pairs, IsText b := by
      simp only [Mutation.scoreParts, List.mem_flatMap]
      rintro b ⟨p, -, hb⟩
      simp only [List.mem_cons, List.not_mem_nil, or_false] at hb
      rcases hb with rfl | rfl
      · exact isText_formatScore p.1
      · exact isText_asBytes p.2
    exact List.forall_mem_cons.mpr ⟨isText_asBytes _, List.forall_mem_append.mpr ⟨options, scores⟩⟩
  case zIncrBy key delta member =>
    refine decoded "ZINCRBY" [asBytes key, formatF64Score delta, asBytes member] rfl rfl (by decide)
      (text_args _ (by simp [isText_asBytes, formatF64Score_eq, isText_formatScore]))
      (onName_ok.trans ?_)
    simp only [List.map_cons, argAt, List.getD_cons_succ, List.getD_cons_zero,
      Nat.add_one_sub_one, bind_ok_iff, extractFloat_score, stringArg_text]
    constructor
    · rintro ⟨-, _, rfl, h⟩
      exact ⟨trivial, (Except.ok.inj h).symm⟩
    · rintro ⟨-, rfl⟩
      exact ⟨by simp, _, rfl, rfl⟩
  case rlSet key limit windowSecs =>
    refine decoded "RLSET" [asBytes key, Decimal.digits limit, Decimal.digits windowSecs] rfl rfl
      (by decide) (text_args _ (by simp [isText_asBytes, Decimal.isText_digits])) (onKey_ok.trans ?_)
    simp only [List.map_cons, argAt, List.getD_cons_succ, List.getD_cons_zero,
      Nat.add_one_sub_one, bind_ok_iff, parseRlConfig_ok]
    constructor
    · rintro ⟨-, valid, _, ⟨fits, fits', rfl⟩, h⟩
      exact ⟨⟨valid, fits, fits'⟩, (Except.ok.inj h).symm⟩
    · rintro ⟨⟨valid, fits, fits'⟩, rfl⟩
      exact ⟨by simp, valid, _, ⟨fits, fits', rfl⟩, rfl⟩
  case hDel key fields =>
    exact decoded "HDEL" _ rfl rfl (by decide) (text_names ..) onKey_names
  case sRem key members =>
    exact decoded "SREM" _ rfl rfl (by decide) (text_names ..) onKey_names
  case zRem key members =>
    exact decoded "ZREM" _ rfl rfl (by decide) (text_names ..) onKey_names
  case sInterStore dst keys =>
    exact decoded "SINTERSTORE" _ rfl rfl (by decide) (text_names ..) storeKeys_ok
  case sUnionStore dst keys =>
    exact decoded "SUNIONSTORE" _ rfl rfl (by decide) (text_names ..) storeKeys_ok
  case sDiffStore dst keys =>
    exact decoded "SDIFFSTORE" _ rfl rfl (by decide) (text_names ..) storeKeys_ok
  case lPush key vals =>
    refine decoded "LPUSH" (asBytes key :: vals) rfl rfl (by decide) ?_ pushValues_ok
    rw [bulks_cons, invalidTextFrom_cons _ (.inr (isText_asBytes _))]
    have payload : ∀ j, isPayloadIndex "LPUSH" j = decide (2 ≤ j) := fun _ => rfl
    exact invalidTextFrom_payloads (fun j hj => (payload j).trans (decide_eq_true hj)) vals
  case rPush key vals =>
    refine decoded "RPUSH" (asBytes key :: vals) rfl rfl (by decide) ?_ pushValues_ok
    rw [bulks_cons, invalidTextFrom_cons _ (.inr (isText_asBytes _))]
    have payload : ∀ j, isPayloadIndex "RPUSH" j = decide (2 ≤ j) := fun _ => rfl
    exact invalidTextFrom_payloads (fun j hj => (payload j).trans (decide_eq_true hj)) vals
  case lPop key count =>
    refine decoded "LPOP" (asBytes key :: (count.map Decimal.digits).toList) rfl rfl (by decide)
      (text_args _ ?_) popCount_ok
    cases count <;> simp [isText_asBytes, Decimal.isText_digits]
  case rPop key count =>
    refine decoded "RPOP" (asBytes key :: (count.map Decimal.digits).toList) rfl rfl (by decide)
      (text_args _ ?_) popCount_ok
    cases count <;> simp [isText_asBytes, Decimal.isText_digits]
  case append key suffix =>
    refine decoded "APPEND" [asBytes key, suffix] rfl rfl (by decide) ?_ (takeKey_first.trans ?_)
    · rw [bulks_cons, bulks_cons, invalidTextFrom_cons _ (.inr (isText_asBytes _)),
        invalidTextFrom_cons _ (.inl rfl)]
      rfl
    · simp [argAt, Mutation.Acceptable, Mutation.wire, Mutation.toCommand, eq_comm (a := c)]
  case jSet key path value =>
    refine decoded "JSET" [asBytes key, asBytes path, asBytes value] rfl rfl (by decide)
      (text_args _ (by simp [isText_asBytes])) (takeKey_first.trans ?_)
    simp [argAt, Mutation.Acceptable, Mutation.wire, Mutation.toCommand, eq_comm (a := c)]
  case jMerge key patch =>
    refine decoded "JMERGE" [asBytes key, asBytes patch] rfl rfl (by decide)
      (text_args _ (by simp [isText_asBytes])) (takeKey_first.trans ?_)
    simp [argAt, Mutation.Acceptable, Mutation.wire, Mutation.toCommand, eq_comm (a := c)]
  case pExpireAt key ts =>
    exact decoded "PEXPIREAT" [asBytes key, Decimal.digits ts] rfl rfl (by decide)
      (text_args _ (by simp [isText_asBytes, Decimal.isText_digits])) deadline_ok
  case persist key =>
    refine decoded "PERSIST" [asBytes key] rfl rfl (by decide)
      (text_args _ (by simp [isText_asBytes])) (onName_ok.trans ?_)
    simp [Mutation.Acceptable, Mutation.wire, Mutation.toCommand, eq_comm (a := c)]
  case flushDb =>
    refine decoded "FLUSHDB" [] rfl rfl (by decide) rfl ?_
    simp [Mutation.Acceptable, Mutation.wire, Mutation.toCommand, eq_comm (a := c)]
  case rename src dst =>
    refine decoded "RENAME" [asBytes src, asBytes dst] rfl rfl (by decide)
      (text_args _ (by simp [isText_asBytes])) (onName_ok.trans ?_)
    simp [argAt, Mutation.Acceptable, Mutation.wire, Mutation.toCommand, eq_comm (a := c)]
  case sMove src dst member =>
    refine decoded "SMOVE" [asBytes src, asBytes dst, asBytes member] rfl rfl (by decide)
      (text_args _ (by simp [isText_asBytes])) (onName_ok.trans ?_)
    simp [argAt, Mutation.Acceptable, Mutation.wire, Mutation.toCommand, eq_comm (a := c)]

end Recached
