import Mathlib.Tactic
import Recached.Lib.Text

/-!
# Decimal numerals

`digits` and `ofInt` print numbers in base ten; `parseUnsigned` and `parseSigned` read them back
within a range, with an optional sign.  A printed number reads back as itself exactly when it is in
the range.
-/

namespace Decimal

/-- The base-ten numeral of a natural number. -/
def digits (n : ℕ) : Bytes := (Nat.toDigits 10 n).map fun c => c.toNat.toUInt8

/-- The base-ten numeral of an integer. -/
def ofInt (i : ℤ) : Bytes := if i < 0 then 45 :: digits i.natAbs else digits i.natAbs

def isDigit (b : UInt8) : Bool := 48 ≤ b.toNat && b.toNat ≤ 57

/-- The value of a possibly empty run of digits, continuing from `acc`. -/
def runValue (acc : ℕ) : Bytes → Option ℕ
  | [] => some acc
  | b :: rest => if isDigit b then runValue (10 * acc + (b.toNat - 48)) rest else none

/-- The value of a nonempty run of digits. -/
def digitsValue (b : Bytes) : Option ℕ := if b.isEmpty then none else runValue 0 b

/-- Read an unsigned number at most `max`, with an optional plus sign. -/
def parseUnsigned (max : ℕ) (b : Bytes) : Option ℕ :=
  (digitsValue (if b.head? = some 43 then b.tail else b)).filter (· ≤ max)

/-- Read a number between `lo` and `hi`, with an optional sign. -/
def parseSigned (lo hi : ℤ) (b : Bytes) : Option ℤ :=
  let value : Option ℤ :=
    if b.head? = some 45 then (digitsValue b.tail).map fun n : ℕ => -(n : ℤ)
    else (digitsValue (if b.head? = some 43 then b.tail else b)).map Int.ofNat
  value.filter fun i => lo ≤ i && i ≤ hi

/-! ## The ranges of 64-bit numbers -/

def u64Max : ℕ := 2 ^ 64 - 1

def i64Min : ℤ := -2 ^ 63

def i64Max : ℤ := 2 ^ 63 - 1

def parseU64 (b : Bytes) : Option ℕ := parseUnsigned u64Max b

def parseI64 (b : Bytes) : Option ℤ := parseSigned i64Min i64Max b

/-! ## Printing and reading back -/

theorem digits_lt_ten {n : ℕ} (h : n < 10) : digits n = [(48 + n).toUInt8] := by
  interval_cases n <;> rfl

theorem digits_append {n : ℕ} (h : 10 ≤ n) : digits n = digits (n / 10) ++ digits (n % 10) := by
  unfold digits
  rw [Nat.toDigits_of_base_le (by decide) h, List.map_append,
    Nat.toDigits_of_lt_base (Nat.mod_lt n (by decide))]

theorem digits_ne_nil (n : ℕ) : digits n ≠ [] := by
  simp [digits, Nat.toDigits_ne_nil]

theorem runValue_append (acc : ℕ) (xs ys : Bytes) :
    runValue acc (xs ++ ys) = (runValue acc xs).bind fun v => runValue v ys := by
  induction xs generalizing acc with
  | nil => rfl
  | cons x xs ih =>
    simp only [List.cons_append, runValue]
    split
    · exact ih _
    · rfl

theorem runValue_digit (acc : ℕ) {d : ℕ} (h : d < 10) :
    runValue acc (digits d) = some (10 * acc + d) := by
  rw [digits_lt_ten h]
  interval_cases d <;> simp [runValue, isDigit]

theorem runValue_digits (n : ℕ) : runValue 0 (digits n) = some n := by
  induction n using Nat.strong_induction_on with
  | _ n ih =>
    by_cases small : n < 10
    · simpa using runValue_digit 0 small
    · rw [digits_append (by omega), runValue_append, ih (n / 10) (by omega), Option.bind_some,
        runValue_digit _ (Nat.mod_lt n (by decide))]
      congr 1
      omega

theorem isDigit_of_mem_digits {n : ℕ} {b : UInt8} (h : b ∈ digits n) : isDigit b = true := by
  induction n using Nat.strong_induction_on with
  | _ n ih =>
    by_cases small : n < 10
    · rw [digits_lt_ten small, List.mem_singleton] at h
      subst h
      interval_cases n <;> rfl
    · rw [digits_append (by omega), List.mem_append] at h
      rcases h with h | h
      · exact ih _ (by omega) h
      · exact ih _ (by omega) h

theorem length_digits_le {n k : ℕ} (hk : 0 < k) : (digits n).length ≤ k ↔ n < 10 ^ k := by
  rw [digits, List.length_map, Nat.length_toDigits_le_iff (by decide) hk]

theorem digits_head (n : ℕ) : (digits n).head? ≠ some 43 ∧ (digits n).head? ≠ some 45 := by
  constructor <;> intro h <;>
    exact absurd (isDigit_of_mem_digits (List.mem_of_mem_head? h)) (by decide)

theorem digitsValue_digits (n : ℕ) : digitsValue (digits n) = some n := by
  simp [digitsValue, digits_ne_nil, runValue_digits]

/-- A printed natural number reads back as itself exactly when it is at most `max`. -/
theorem parseUnsigned_digits (max n : ℕ) :
    parseUnsigned max (digits n) = if n ≤ max then some n else none := by
  rw [parseUnsigned, if_neg (digits_head n).1, digitsValue_digits]
  split <;> simp_all

theorem parseSigned_digits (lo hi : ℤ) (n : ℕ) :
    parseSigned lo hi (digits n) = if lo ≤ n ∧ (n : ℤ) ≤ hi then some (n : ℤ) else none := by
  rw [parseSigned, if_neg (digits_head n).2, if_neg (digits_head n).1, digitsValue_digits]
  split <;> simp_all

/-- A printed integer reads back as itself exactly when it is within the range. -/
theorem parseSigned_ofInt (lo hi i : ℤ) :
    parseSigned lo hi (ofInt i) = if lo ≤ i ∧ i ≤ hi then some i else none := by
  unfold ofInt
  split
  next negative =>
    have value : -(i.natAbs : ℤ) = i := by omega
    rw [parseSigned, if_pos (by rfl), List.tail_cons, digitsValue_digits, Option.map_some, value]
    split <;> simp_all
  next nonnegative =>
    have value : (i.natAbs : ℤ) = i := by omega
    rw [parseSigned_digits, value]

theorem parseU64_digits {n : ℕ} (h : n ≤ u64Max) : parseU64 (digits n) = some n := by
  rw [parseU64, parseUnsigned_digits, if_pos h]

theorem parseI64_ofInt {i : ℤ} (lo : i64Min ≤ i) (hi : i ≤ i64Max) : parseI64 (ofInt i) = some i := by
  rw [parseI64, parseSigned_ofInt, if_pos ⟨lo, hi⟩]

/-- A natural number reads back as a signed one exactly when it is in the signed range. -/
theorem parseI64_digits (n : ℕ) :
    parseI64 (digits n) = if (n : ℤ) ≤ i64Max then some (n : ℤ) else none := by
  have lo : i64Min ≤ n := le_trans (by norm_num [i64Min]) (Int.natCast_nonneg n)
  rw [parseI64, parseSigned_digits]
  simp only [lo, true_and]

theorem isDigit_ascii {b : UInt8} (h : isDigit b = true) : b.toNat < 128 := by
  simp only [isDigit, Bool.and_eq_true, decide_eq_true_eq] at h
  omega

theorem digits_ascii (n : ℕ) : ∀ b ∈ digits n, b.toNat < 128 :=
  fun _ hb => isDigit_ascii (isDigit_of_mem_digits hb)

theorem ofInt_ascii (i : ℤ) : ∀ b ∈ ofInt i, b.toNat < 128 := by
  unfold ofInt
  split_ifs
  · simpa using digits_ascii i.natAbs
  · exact digits_ascii i.natAbs

theorem ofInt_head (i : ℤ) :
    ∃ d rest, ofInt i = d :: rest ∧ (isDigit d = true ∨ d = 45) := by
  unfold ofInt
  split_ifs
  · exact ⟨45, _, rfl, .inr rfl⟩
  · obtain ⟨d, ds, h⟩ := List.exists_cons_of_ne_nil (digits_ne_nil i.natAbs)
    exact ⟨d, ds, h, .inl (isDigit_of_mem_digits (n := i.natAbs) (h ▸ List.mem_cons_self))⟩

theorem isText_digits (n : ℕ) : Text.IsText (digits n) := Text.isText_of_ascii (digits_ascii n)

theorem isText_ofInt (i : ℤ) : Text.IsText (ofInt i) := Text.isText_of_ascii (ofInt_ascii i)

end Decimal
