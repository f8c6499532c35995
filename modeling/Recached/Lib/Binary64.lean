import Mathlib.Tactic
import Mathlib.Data.Int.Log
import Mathlib.Data.List.TakeWhile
import Recached.Lib.Decimal

/-!
# IEEE binary64

A number is its sign and the lower 63 bits of its encoding (`mag`), whose order is the numeric order
of magnitudes; both zeros, both infinities and every NaN are distinct values.  `ofRatio` rounds a
ratio to nearest, ties to even; `parse` reads a decimal text and `display` prints the shortest one
that reads back as the number.

`roundMag_eq` says that a representable ratio is rounded to itself, and `parse_display` that
printing loses nothing but the sign and payload of a NaN.
-/

structure Binary64 where
  neg : Bool
  mag : ℕ
  mag_lt : mag < 2 ^ 63
deriving DecidableEq

namespace Binary64

/-- The magnitude of infinity: all exponent bits set and no fraction. -/
def infMag : ℕ := 2047 * 2 ^ 52

def isNaN (x : Binary64) : Bool := infMag < x.mag

def isInfinite (x : Binary64) : Bool := x.mag = infMag

def isFinite (x : Binary64) : Bool := x.mag < infMag

/-- The integer significand, hidden bit included. -/
def significand (x : Binary64) : ℕ :=
  if x.mag < 2 ^ 52 then x.mag else x.mag % 2 ^ 52 + 2 ^ 52

/-- The power of two the significand is scaled by. -/
def scale (x : Binary64) : ℤ := max (x.mag / 2 ^ 52 : ℕ) 1 - 1075

/-- The absolute value of a finite number as a ratio. -/
def numerator (x : Binary64) : ℕ := x.significand * 2 ^ x.scale.toNat

def denominator (x : Binary64) : ℕ := 2 ^ (-x.scale).toNat

/-! ## Rounding -/

/-- The integer nearest to `n / d`, ties to even. -/
def roundDivEven (n d : ℕ) : ℕ :=
  let q := n / d
  let r := n % d
  if d < 2 * r ∨ (d = 2 * r ∧ q % 2 = 1) then q + 1 else q

/-- The binary exponent of a positive ratio, the integer part of its logarithm. -/
def binaryExponent (num den : ℕ) : ℤ :=
  if den ≤ num then (num / den).log2 else -((((den - 1) / num).log2 : ℤ) + 1)

/-- The magnitude nearest to a ratio. -/
def roundMag (num den : ℕ) : ℕ :=
  if num = 0 then 0 else
  let s := max (binaryExponent num den - 52) (-1074)
  min ((s + 1074).toNat * 2 ^ 52 + roundDivEven (num * 2 ^ (-s).toNat) (den * 2 ^ s.toNat)) infMag

theorem roundMag_lt (num den : ℕ) : roundMag num den < 2 ^ 63 := by
  unfold roundMag infMag
  split
  · norm_num
  · exact lt_of_le_of_lt (min_le_right _ _) (by norm_num)

/-- The number nearest to a signed ratio, ties to even. -/
def ofRatio (neg : Bool) (num den : ℕ) : Binary64 := ⟨neg, roundMag num den, roundMag_lt num den⟩

/-- The number nearest to `m * 10 ^ k`. -/
def ofDecimal (neg : Bool) (m : ℕ) (k : ℤ) : Binary64 :=
  ofRatio neg (m * 10 ^ k.toNat) (10 ^ (-k).toNat)

def zero : Binary64 := ⟨false, 0, by norm_num⟩

def infinity : Binary64 := ⟨false, infMag, by norm_num [infMag]⟩

def nan : Binary64 := ⟨false, infMag + 2 ^ 51, by norm_num [infMag]⟩

/-- The negation, which only flips the sign bit. -/
def negate (x : Binary64) : Binary64 := { x with neg := !x.neg }

def abs (x : Binary64) : Binary64 := { x with neg := false }

/-! ## Order and arithmetic -/

/-- The position of a number in the numeric order; both zeros are at `0`. -/
def numericKey (x : Binary64) : ℤ := if x.neg then -x.mag else x.mag

/-- The position of a number in the total order, where `-0` is below `+0`. -/
def totalKey (x : Binary64) : ℤ := if x.neg then -x.mag - 1 else x.mag

def lt (x y : Binary64) : Bool := !x.isNaN && !y.isNaN && x.numericKey < y.numericKey

def le (x y : Binary64) : Bool := !x.isNaN && !y.isNaN && x.numericKey ≤ y.numericKey

/-- The signed significand of a finite number over the scale `c`. -/
def signedAt (c : ℤ) (x : Binary64) : ℤ :=
  (if x.neg then -1 else 1) * (x.significand * 2 ^ (x.scale - c).toNat : ℕ)

def add (x y : Binary64) : Binary64 :=
  if x.isNaN || y.isNaN then nan
  else if x.isInfinite then (if y.isInfinite && x.neg != y.neg then nan else x)
  else if y.isInfinite then y
  else if x.mag = 0 ∧ y.mag = 0 then { zero with neg := x.neg && y.neg }
  else
    let c := min x.scale y.scale
    let s := x.signedAt c + y.signedAt c
    ofRatio (s < 0) (s.natAbs * 2 ^ c.toNat) (2 ^ (-c).toNat)

def sub (x y : Binary64) : Binary64 := x.add y.negate

/-- Whether the number has no fractional part. -/
def isIntegral (x : Binary64) : Bool := x.isFinite && x.numerator % x.denominator = 0

/-- The integer part, towards zero. -/
def truncate (x : Binary64) : ℤ :=
  (if x.neg then -1 else 1) * (x.numerator / x.denominator : ℕ)

/-- Whether the absolute value is below a natural number. -/
def absLt (x : Binary64) (n : ℕ) : Bool := x.isFinite && x.numerator < n * x.denominator

/-! ## Reading -/

/-- An optional exponent part, which must take the whole text. -/
def parseExponent : Bytes → Option ℤ
  | [] => some 0
  | b :: rest =>
    if b = 101 ∨ b = 69 then
      match rest with
      | 45 :: ds => (Decimal.digitsValue ds).map fun n : ℕ => -(n : ℤ)
      | 43 :: ds => (Decimal.digitsValue ds).map Int.ofNat
      | ds => (Decimal.digitsValue ds).map Int.ofNat
    else none

/-- An unsigned decimal number: digits, an optional fraction and an optional exponent. -/
def parseUnsigned (neg : Bool) (b : Bytes) : Option Binary64 := do
  let int := b.takeWhile Decimal.isDigit
  let rest := b.dropWhile Decimal.isDigit
  let (frac, rest) := match rest with
    | 46 :: rest => (rest.takeWhile Decimal.isDigit, rest.dropWhile Decimal.isDigit)
    | rest => ([], rest)
  let m ← Decimal.digitsValue (int ++ frac)
  let e ← parseExponent rest
  some (ofDecimal neg m (e - frac.length))

def asciiLower (b : UInt8) : UInt8 := if 65 ≤ b.toNat && b.toNat ≤ 90 then b + 32 else b

def parseMagnitude (neg : Bool) (b : Bytes) : Option Binary64 :=
  let word := b.map asciiLower
  if word = "inf".toUTF8.data.toList ∨ word = "infinity".toUTF8.data.toList then
    some { infinity with neg := neg }
  else if word = "nan".toUTF8.data.toList then some { nan with neg := neg }
  else parseUnsigned neg b

/-- Read a number with an optional sign. -/
def parse : Bytes → Option Binary64
  | 45 :: rest => parseMagnitude true rest
  | 43 :: rest => parseMagnitude false rest
  | b => parseMagnitude false b

/-! ## Printing -/

/-- The number of decimal digits before the point, which is not positive below one tenth. -/
def decimalExponent (num den : ℕ) : ℤ :=
  if den ≤ num then (Decimal.digits (num / den)).length
  else 1 - (Decimal.digits ((den - 1) / num)).length

/-- The two decimals of `n` significant digits around a number, the closer one first. -/
def candidates (x : Binary64) (n : ℕ) : List (ℕ × ℤ) :=
  let k := decimalExponent x.numerator x.denominator - n
  let num := x.numerator * 10 ^ (-k).toNat
  let den := x.denominator * 10 ^ k.toNat
  let below := (num / den, k)
  let above := if num / den + 1 = 10 ^ n then (10 ^ (n - 1), k + 1) else (num / den + 1, k)
  if 2 * (num % den) ≤ den then [below, above] else [above, below]

/-- The decimal that equals a finite number. -/
def exactDecimal (x : Binary64) : ℕ × ℤ :=
  if 0 ≤ x.scale then (x.numerator, 0) else (x.significand * 5 ^ (-x.scale).toNat, x.scale)

/-- The shortest decimal that reads back as the number, and the closest of that length. -/
def shortestDecimal (x : Binary64) : ℕ × ℤ :=
  (((List.range 17).flatMap fun i => x.candidates (i + 1)).find? fun (m, k) =>
    ofDecimal x.neg m k = x).getD x.exactDecimal

/-- A decimal written out without exponent. -/
def positional (m : ℕ) (k : ℤ) : Bytes :=
  let ds := Decimal.digits m
  if 0 ≤ k then ds ++ List.replicate k.toNat 48
  else
    let j := (-k).toNat
    if j < ds.length then ds.take (ds.length - j) ++ 46 :: ds.drop (ds.length - j)
    else 48 :: 46 :: List.replicate (j - ds.length) 48 ++ ds

/-- The text of a number. -/
def display (x : Binary64) : Bytes :=
  if x.isNaN then "NaN".toUTF8.data.toList else
  (if x.neg then [45] else []) ++
    if x.isInfinite then "inf".toUTF8.data.toList
    else if x.mag = 0 then [48]
    else positional x.shortestDecimal.1 x.shortestDecimal.2

/-! ## The two orders -/

theorem totalKey_injective : Function.Injective totalKey := by
  rintro ⟨n, m, hm⟩ ⟨n', m', hm'⟩ h
  cases n <;> cases n' <;> simp [totalKey] at h ⊢ <;> omega

theorem totalKey_lt_of_numericKey {x y : Binary64} (h : x.numericKey < y.numericKey) :
    x.totalKey < y.totalKey := by
  unfold numericKey totalKey at *
  split_ifs at * <;> omega

theorem numericKey_le_of_totalKey {x y : Binary64} (h : x.totalKey ≤ y.totalKey) :
    x.numericKey ≤ y.numericKey := by
  by_contra lt
  exact absurd (totalKey_lt_of_numericKey (not_le.mp lt)) (not_lt.mpr h)

/-- The numeric order takes a number for at least another that the total order puts before it only
if they are the two zeros. -/
theorem zeros_of_orders {x y : Binary64} (numeric : y.numericKey ≤ x.numericKey)
    (total : x.totalKey < y.totalKey) : x = zero.negate ∧ y = zero := by
  obtain ⟨n, m, hm⟩ := x
  obtain ⟨n', m', hm'⟩ := y
  cases n <;> cases n' <;> simp [numericKey, totalKey, zero, negate] at * <;> omega

/-- Between two numbers of the total order there are only numbers. -/
theorem isNaN_of_between {x y z : Binary64} (low : x.isNaN = false) (high : z.isNaN = false)
    (below : x.totalKey ≤ y.totalKey) (above : y.totalKey ≤ z.totalKey) : y.isNaN = false := by
  simp only [isNaN, decide_eq_false_iff_not] at *
  unfold totalKey at *
  split_ifs at * <;> omega

theorem lt_iff {x y : Binary64} :
    x.lt y ↔ x.isNaN = false ∧ y.isNaN = false ∧ x.numericKey < y.numericKey := by
  simp [lt, and_assoc]

theorem le_iff {x y : Binary64} :
    x.le y ↔ x.isNaN = false ∧ y.isNaN = false ∧ x.numericKey ≤ y.numericKey := by
  simp [le, and_assoc]

/-! ## Adding zeros -/

theorem signedAt_of_mag {x : Binary64} (h : x.mag = 0) (c : ℤ) : x.signedAt c = 0 := by
  simp [signedAt, significand, h]

/-- The sign of an added zero matters to a negative zero only. -/
theorem add_negZero {x : Binary64} (h : x ≠ zero.negate) : x.add zero.negate = x.add zero := by
  have scale : zero.negate.scale = zero.scale := rfl
  have number : zero.negate.isNaN = zero.isNaN := rfl
  have finite : zero.negate.isInfinite = zero.isInfinite := rfl
  have signed : ∀ c, zero.negate.signedAt c = zero.signedAt c := fun c => by
    rw [signedAt_of_mag rfl, signedAt_of_mag rfl]
  unfold add
  dsimp only
  rw [number, finite, scale, signed]
  simp only [show zero.isInfinite = false by decide, Bool.false_and, Bool.false_eq_true, if_false]
  split_ifs with nan inf zeros zeros' zeros'
  · rfl
  · rfl
  · have positive : x.neg = false := by
      obtain ⟨neg, mag, bound⟩ := x
      obtain rfl : mag = 0 := zeros.1
      cases neg
      · rfl
      · exact absurd rfl h
    simp [positive]
  · exact absurd ⟨zeros.1, rfl⟩ zeros'
  · exact absurd ⟨zeros'.1, rfl⟩ zeros
  · rfl

theorem negZero_add : zero.negate.add zero.negate ≠ zero.negate.add zero := by
  decide

/-! ## A representable ratio is rounded to itself -/

theorem binaryExponent_spec {num den : ℕ} (hn : 0 < num) (hd : 0 < den) :
    (2 : ℚ) ^ binaryExponent num den ≤ num / den ∧
      (num / den : ℚ) < 2 ^ (binaryExponent num den + 1) := by
  have hd' : (0 : ℚ) < den := by exact_mod_cast hd
  unfold binaryExponent
  split
  next le =>
    have pos : num / den ≠ 0 := (Nat.div_pos le hd).ne'
    have low : 2 ^ (num / den).log2 * den ≤ num :=
      (Nat.mul_le_mul_right _ (Nat.log2_self_le pos)).trans (Nat.div_mul_le_self num den)
    have high : num < 2 ^ ((num / den).log2 + 1) * den :=
      (Nat.div_lt_iff_lt_mul hd).mp Nat.lt_log2_self
    rw [le_div_iff₀ hd', div_lt_iff₀ hd']
    exact ⟨by exact_mod_cast low, by exact_mod_cast high⟩
  next lt =>
    set q := (den - 1) / num with hq
    have pos : q ≠ 0 := (Nat.div_pos (by omega) hn).ne'
    have low : num * 2 ^ q.log2 < den := by
      have h₁ : num * 2 ^ q.log2 ≤ num * q := Nat.mul_le_mul_left _ (Nat.log2_self_le pos)
      have h₂ : num * q ≤ den - 1 := Nat.mul_div_le _ _
      omega
    have high : den ≤ num * 2 ^ (q.log2 + 1) := by
      have h₁ : den - 1 < num * (q + 1) := by
        rw [mul_comm]; exact (Nat.div_lt_iff_lt_mul hn).mp (Nat.lt_succ_self q)
      have h₂ : num * (q + 1) ≤ num * 2 ^ (q.log2 + 1) :=
        Nat.mul_le_mul_left _ (Nat.lt_log2_self (n := q))
      omega
    have power : (2 : ℚ) ^ (-((q.log2 : ℤ) + 1) + 1) = (2 ^ q.log2)⁻¹ := by
      rw [show -((q.log2 : ℤ) + 1) + 1 = -(q.log2 : ℤ) by ring, zpow_neg, zpow_natCast]
    rw [le_div_iff₀ hd', div_lt_iff₀ hd', power, zpow_neg,
      show ((q.log2 : ℤ) + 1) = ((q.log2 + 1 : ℕ) : ℤ) by push_cast; ring, zpow_natCast]
    constructor
    · rw [inv_mul_le_iff₀ (by positivity), mul_comm]
      exact_mod_cast high
    · rw [lt_inv_mul_iff₀ (by positivity), mul_comm]
      exact_mod_cast low

theorem roundDivEven_mul (s : ℕ) {d : ℕ} (hd : 0 < d) : roundDivEven (s * d) d = s := by
  simp [roundDivEven, hd.ne']

/-- A ratio `s * 2 ^ c` with a significand `s` normalised for the scale `c` is not changed. -/
theorem roundMag_exact {num den s : ℕ} {c : ℤ} (hd : 0 < den) (hs : 0 < s) (hs' : s < 2 ^ 53)
    (hc : -1074 ≤ c) (normal : 2 ^ 52 ≤ s ∨ c = -1074)
    (exact : num * 2 ^ (-c).toNat = s * den * 2 ^ c.toNat) :
    roundMag num den = min ((c + 1074).toNat * 2 ^ 52 + s) infMag := by
  have hn : 0 < num := by
    rcases Nat.eq_zero_or_pos num with h | h
    · rw [h, zero_mul] at exact
      exact absurd exact.symm (by positivity)
    · exact h
  have value : (num / den : ℚ) = s * 2 ^ c := by
    have hd' : (den : ℚ) ≠ 0 := by exact_mod_cast hd.ne'
    rw [div_eq_iff hd']
    have cast : (num : ℚ) * 2 ^ (-c).toNat = s * den * 2 ^ c.toNat := by exact_mod_cast exact
    rcases le_total 0 c with h | h
    · obtain ⟨k, rfl⟩ := Int.eq_ofNat_of_zero_le h
      simp at cast
      rw [cast, zpow_natCast]; ring
    · obtain ⟨k, hk⟩ := Int.eq_ofNat_of_zero_le (neg_nonneg.mpr h)
      obtain rfl : c = -(k : ℤ) := by omega
      simp at cast
      rw [zpow_neg, zpow_natCast, ← mul_right_cancel_iff_of_pos (by positivity : (0 : ℚ) < 2 ^ k),
        cast]
      field_simp
  obtain ⟨low, high⟩ := binaryExponent_spec hn hd
  rw [value] at low high
  have pow (k : ℕ) : (2 : ℚ) ^ k * 2 ^ c = 2 ^ (k + c) := by
    rw [← zpow_natCast, ← zpow_add₀ (by norm_num)]
  have two : (1 : ℚ) < 2 := by norm_num
  have pos : (0 : ℚ) < 2 ^ c := by positivity
  have upper : binaryExponent num den < 53 + c := by
    rw [← zpow_lt_zpow_iff_right₀ two]
    refine low.trans_lt ?_
    rw [← Nat.cast_ofNat (R := ℤ) (n := 53), ← pow 53]
    exact mul_lt_mul_of_pos_right (by exact_mod_cast hs') pos
  have shift : max (binaryExponent num den - 52) (-1074) = c := by
    rcases normal with h | h
    · have lower : 52 + c < binaryExponent num den + 1 := by
        rw [← zpow_lt_zpow_iff_right₀ two]
        refine lt_of_le_of_lt ?_ high
        rw [← Nat.cast_ofNat (R := ℤ) (n := 52), ← pow 52]
        exact mul_le_mul_of_nonneg_right (by exact_mod_cast h) pos.le
      omega
    · omega
  simp only [roundMag, if_neg hn.ne', shift]
  rw [exact, mul_assoc, roundDivEven_mul s (by positivity)]

theorem mag_eq (x : Binary64) : (x.scale + 1074).toNat * 2 ^ 52 + x.significand = x.mag := by
  unfold scale significand
  split <;> omega

theorem significand_lt (x : Binary64) : x.significand < 2 ^ 53 := by
  unfold significand
  split <;> omega

theorem scale_ge (x : Binary64) : -1074 ≤ x.scale := by
  unfold scale
  omega

theorem significand_normal (x : Binary64) : 2 ^ 52 ≤ x.significand ∨ x.scale = -1074 := by
  unfold scale significand
  split <;> omega

theorem denominator_pos (x : Binary64) : 0 < x.denominator := by
  unfold denominator
  positivity

/-- Rounding a ratio equal to the absolute value of a finite number gives that number. -/
theorem roundMag_eq {x : Binary64} (finite : x.isFinite) {num den : ℕ} (hd : 0 < den)
    (equal : num * x.denominator = x.numerator * den) : roundMag num den = x.mag := by
  have bound : x.mag ≤ infMag := by
    simp only [isFinite, decide_eq_true_eq] at finite
    exact finite.le
  rcases Nat.eq_zero_or_pos x.significand with zero | pos
  · have hn : num = 0 := by
      rw [numerator, zero, zero_mul, zero_mul, mul_eq_zero] at equal
      exact equal.resolve_right x.denominator_pos.ne'
    have hm : x.mag = 0 := by
      unfold significand at zero
      split at zero <;> omega
    rw [hn, hm]
    rfl
  · rw [roundMag_exact hd pos x.significand_lt x.scale_ge x.significand_normal, x.mag_eq,
      min_eq_left bound]
    rw [show (2 : ℕ) ^ (-x.scale).toNat = x.denominator from rfl, equal, numerator]
    ring

/-! ## Printing and reading back -/

theorem ofRatio_eq {x : Binary64} (finite : x.isFinite) {num den : ℕ} (hd : 0 < den)
    (equal : num * x.denominator = x.numerator * den) : ofRatio x.neg num den = x := by
  cases x
  simp only [ofRatio, mk.injEq, true_and]
  exact roundMag_eq finite hd equal

theorem ofDecimal_exactDecimal {x : Binary64} (finite : x.isFinite) :
    ofDecimal x.neg x.exactDecimal.1 x.exactDecimal.2 = x := by
  unfold exactDecimal ofDecimal
  split
  next nonneg =>
    refine ofRatio_eq finite (by norm_num) ?_
    simp [denominator, show (-x.scale).toNat = 0 by omega]
  next negative =>
    refine ofRatio_eq finite (by positivity) ?_
    simp only [numerator, denominator, show x.scale.toNat = 0 by omega, pow_zero, mul_one]
    rw [mul_assoc, ← mul_pow, show 5 * 2 = 10 from rfl]

/-- The decimal chosen for printing reads back as the number. -/
theorem ofDecimal_shortestDecimal {x : Binary64} (finite : x.isFinite) :
    ofDecimal x.neg x.shortestDecimal.1 x.shortestDecimal.2 = x := by
  unfold shortestDecimal
  cases found : ((List.range 17).flatMap fun i => x.candidates (i + 1)).find? fun (m, k) =>
      ofDecimal x.neg m k = x with
  | none => exact ofDecimal_exactDecimal finite
  | some mk => simpa using List.find?_some found

theorem runValue_zeros (v j : ℕ) :
    Decimal.runValue v (List.replicate j 48) = some (v * 10 ^ j) := by
  induction j generalizing v with
  | zero => simp [Decimal.runValue]
  | succ j ih =>
    rw [List.replicate_succ, Decimal.runValue, if_pos (by rfl), ih]
    congr 1
    rw [pow_succ]
    simp
    ring

theorem isDigit_of_mem_zeros {j : ℕ} {b : UInt8} (h : b ∈ List.replicate j (48 : UInt8)) :
    Decimal.isDigit b = true := by
  rw [List.eq_of_mem_replicate h]
  rfl

theorem takeWhile_digits {ds rest : Bytes} (h : ∀ b ∈ ds, Decimal.isDigit b = true) :
    (ds ++ 46 :: rest).takeWhile Decimal.isDigit = ds ∧
      (ds ++ 46 :: rest).dropWhile Decimal.isDigit = 46 :: rest := by
  rw [List.takeWhile_append_of_pos h, List.dropWhile_append_of_pos h]
  simp [List.takeWhile, List.dropWhile, show Decimal.isDigit 46 = false from rfl]

/-- A number with digits after the point is the integer of all its digits, scaled down. -/
theorem parseUnsigned_point {neg : Bool} {int frac : Bytes} {m : ℕ}
    (hi : ∀ b ∈ int, Decimal.isDigit b = true) (hf : ∀ b ∈ frac, Decimal.isDigit b = true)
    (value : Decimal.digitsValue (int ++ frac) = some m) :
    parseUnsigned neg (int ++ 46 :: frac) = some (ofDecimal neg m (-frac.length)) := by
  have hf' : frac.takeWhile Decimal.isDigit = frac ∧ frac.dropWhile Decimal.isDigit = [] :=
    ⟨List.takeWhile_eq_self_iff.mpr hf, List.dropWhile_eq_nil_iff.mpr hf⟩
  simp [parseUnsigned, takeWhile_digits hi, hf'.1, hf'.2, value, parseExponent]

theorem parseUnsigned_integer {neg : Bool} {int : Bytes} {m : ℕ}
    (hi : ∀ b ∈ int, Decimal.isDigit b = true) (value : Decimal.digitsValue int = some m) :
    parseUnsigned neg int = some (ofDecimal neg m 0) := by
  have hi' : int.takeWhile Decimal.isDigit = int ∧ int.dropWhile Decimal.isDigit = [] :=
    ⟨List.takeWhile_eq_self_iff.mpr hi, List.dropWhile_eq_nil_iff.mpr hi⟩
  simp [parseUnsigned, hi'.1, hi'.2, value, parseExponent]

theorem parseUnsigned_positional (neg : Bool) (m : ℕ) (k : ℤ) :
    parseUnsigned neg (positional m k) = some (ofDecimal neg m k) := by
  have digit : ∀ b ∈ Decimal.digits m, Decimal.isDigit b = true :=
    fun b h => Decimal.isDigit_of_mem_digits h
  unfold positional
  dsimp only
  split_ifs with nonneg point
  · have value : Decimal.digitsValue (Decimal.digits m ++ List.replicate k.toNat 48) =
        some (m * 10 ^ k.toNat) := by
      simp [Decimal.digitsValue, Decimal.digits_ne_nil, Decimal.runValue_append,
        Decimal.runValue_digits, runValue_zeros]
    rw [parseUnsigned_integer (fun b h => (List.mem_append.mp h).elim (digit b)
      isDigit_of_mem_zeros) value]
    simp [ofDecimal, show (-k).toNat = 0 by omega]
  · set n := (Decimal.digits m).length - (-k).toNat
    have value : Decimal.digitsValue ((Decimal.digits m).take n ++ (Decimal.digits m).drop n) =
        some m := by
      rw [List.take_append_drop, Decimal.digitsValue_digits]
    rw [parseUnsigned_point (fun b h => digit b (List.mem_of_mem_take h))
      (fun b h => digit b (List.mem_of_mem_drop h)) value]
    congr 2
    simp only [List.length_drop]
    omega
  · set z := (-k).toNat - (Decimal.digits m).length
    have value : Decimal.digitsValue ([48] ++ (List.replicate z 48 ++ Decimal.digits m)) =
        some m := by
      simp [Decimal.digitsValue, Decimal.runValue, Decimal.isDigit, Decimal.runValue_append,
        runValue_zeros, Decimal.runValue_digits]
    rw [show 48 :: 46 :: List.replicate z 48 ++ Decimal.digits m =
      [48] ++ 46 :: (List.replicate z 48 ++ Decimal.digits m) from rfl,
      parseUnsigned_point (by simp [Decimal.isDigit])
        (fun b h => (List.mem_append.mp h).elim isDigit_of_mem_zeros (digit b)) value]
    congr 2
    simp only [List.length_append, List.length_replicate]
    omega

theorem positional_head (m : ℕ) (k : ℤ) :
    ∃ d rest, positional m k = d :: rest ∧ Decimal.isDigit d = true := by
  obtain ⟨d, ds, hd⟩ := List.exists_cons_of_ne_nil (Decimal.digits_ne_nil m)
  have digit : Decimal.isDigit d = true :=
    Decimal.isDigit_of_mem_digits (n := m) (by rw [hd]; exact List.mem_cons_self)
  unfold positional
  dsimp only
  split_ifs with nonneg point
  · exact ⟨d, _, by rw [hd, List.cons_append], digit⟩
  · obtain ⟨n, hn⟩ : ∃ n, (Decimal.digits m).length - (-k).toNat = n + 1 :=
      ⟨_, (Nat.succ_pred_eq_of_pos (by omega)).symm⟩
    exact ⟨d, _, by rw [hn, hd, List.take_succ_cons, List.cons_append], digit⟩
  · exact ⟨48, _, rfl, rfl⟩

/-- A text that starts with a digit is not one of the words for infinity and NaN. -/
theorem parseMagnitude_digit {neg : Bool} {d : UInt8} {rest : Bytes}
    (digit : Decimal.isDigit d = true) :
    parseMagnitude neg (d :: rest) = parseUnsigned neg (d :: rest) := by
  simp only [Decimal.isDigit, Bool.and_eq_true, decide_eq_true_eq] at digit
  have low : (asciiLower d).toNat ≤ 57 := by
    simp only [asciiLower]
    split <;> simp_all
    omega
  have noWord (c : UInt8) (cs : Bytes) (hc : 57 < c.toNat) :
      (d :: rest).map asciiLower ≠ c :: cs := by
    intro h
    rw [List.map_cons, List.cons.injEq] at h
    rw [h.1] at low
    omega
  have inf : (d :: rest).map asciiLower ≠ "inf".toUTF8.data.toList :=
    noWord 105 [110, 102] (by decide)
  have infinity : (d :: rest).map asciiLower ≠ "infinity".toUTF8.data.toList :=
    noWord 105 [110, 102, 105, 110, 105, 116, 121] (by decide)
  have nan : (d :: rest).map asciiLower ≠ "nan".toUTF8.data.toList :=
    noWord 110 [97, 110] (by decide)
  simp only [parseMagnitude, inf, infinity, nan, or_self, if_false]

/-- Reading a text that starts with a digit, with or without a minus sign. -/
theorem parse_digit {neg : Bool} {d : UInt8} {rest : Bytes} (digit : Decimal.isDigit d = true) :
    parse ((if neg then [45] else []) ++ d :: rest) = parseUnsigned neg (d :: rest) := by
  cases neg
  · have plain : parse (d :: rest) = parseMagnitude false (d :: rest) := by
      unfold parse
      split
      next h => exact absurd digit (by simp_all [Decimal.isDigit])
      next h => exact absurd digit (by simp_all [Decimal.isDigit])
      · rfl
    rw [← parseMagnitude_digit digit, ← plain]
    rfl
  · exact parseMagnitude_digit digit

/-- Printing a number that is not NaN and reading the text gives the number. -/
theorem parse_display {x : Binary64} (number : x.isNaN = false) : parse x.display = some x := by
  have finite (h : x.isInfinite = false) : x.isFinite := by
    simp only [isNaN, isInfinite, isFinite, decide_eq_false_iff_not, decide_eq_true_eq] at *
    omega
  obtain ⟨neg, mag, bound⟩ := x
  unfold display
  rw [number, if_neg (by decide)]
  by_cases infinite : isInfinite ⟨neg, mag, bound⟩
  · obtain rfl : mag = infMag := by simpa [isInfinite] using infinite
    cases neg <;> rfl
  · rw [if_neg infinite]
    by_cases zero : mag = 0
    · subst zero
      cases neg <;> rfl
    · rw [if_neg zero]
      have value := ofDecimal_shortestDecimal (finite (by simpa using infinite))
      generalize shortestDecimal _ = mk at value ⊢
      obtain ⟨d, rest, text, digit⟩ := positional_head mk.1 mk.2
      rw [text, parse_digit digit, ← text, parseUnsigned_positional, value]

/-- The integer part of an integral number, printed as an integer, reads back as the number,
except that the sign of a zero is lost. -/
theorem parse_truncate {x : Binary64} (integral : x.isIntegral) (nonzero : x.neg → x.mag ≠ 0) :
    parse (Decimal.ofInt x.truncate) = some x := by
  simp only [isIntegral, Bool.and_eq_true, decide_eq_true_eq] at integral
  obtain ⟨finite, whole⟩ := integral
  have value : ofDecimal x.neg (x.numerator / x.denominator) 0 = x := by
    refine ofRatio_eq finite (by norm_num) ?_
    simp [Nat.div_mul_cancel (Nat.dvd_of_mod_eq_zero whole)]
  have read (n : ℕ) (neg : Bool) : parse ((if neg then [45] else []) ++ Decimal.digits n) =
      some (ofDecimal neg n 0) := by
    have h := parseUnsigned_positional neg n 0
    obtain ⟨d, rest, text, digit⟩ := positional_head n 0
    rw [text, ← parse_digit digit, ← text] at h
    simpa [positional] using h
  have text : Decimal.ofInt x.truncate =
      (if x.neg then [45] else []) ++ Decimal.digits (x.numerator / x.denominator) := by
    have pos (neg : x.neg) : 0 < x.numerator / x.denominator := by
      have hs : x.significand ≠ 0 := by
        have := nonzero neg
        unfold significand
        split <;> omega
      have hn : 0 < x.numerator := Nat.mul_pos (Nat.pos_of_ne_zero hs) (by positivity)
      exact Nat.div_pos (Nat.le_of_dvd hn (Nat.dvd_of_mod_eq_zero whole)) x.denominator_pos
    unfold truncate Decimal.ofInt
    generalize x.numerator / x.denominator = q at pos
    cases hneg : x.neg with
    | false => simp
    | true =>
      have := pos hneg
      simp [this]
  rw [text, read, value]

theorem positional_ascii (m : ℕ) (k : ℤ) : ∀ b ∈ positional m k, b.toNat < 128 := by
  have zeros : ∀ j : ℕ, ∀ b ∈ List.replicate j (48 : UInt8), b.toNat < 128 := fun j b hb =>
    Decimal.isDigit_ascii (isDigit_of_mem_zeros hb)
  have ds := Decimal.digits_ascii m
  unfold positional
  dsimp only
  split_ifs
  · exact List.forall_mem_append.mpr ⟨ds, zeros _⟩
  · refine List.forall_mem_append.mpr ⟨fun b hb => ds b (List.mem_of_mem_take hb), ?_⟩
    exact List.forall_mem_cons.mpr ⟨by decide, fun b hb => ds b (List.mem_of_mem_drop hb)⟩
  · refine List.forall_mem_cons.mpr ⟨by decide, List.forall_mem_cons.mpr ⟨by decide, ?_⟩⟩
    exact List.forall_mem_append.mpr ⟨zeros _, ds⟩

theorem display_ascii (x : Binary64) : ∀ b ∈ x.display, b.toNat < 128 := by
  unfold display
  by_cases nan : x.isNaN
  · rw [if_pos nan]
    exact Text.ascii_of_all (by decide)
  · rw [if_neg nan]
    refine List.forall_mem_append.mpr ⟨Text.ascii_of_all (by split_ifs <;> decide), ?_⟩
    split_ifs
    · exact Text.ascii_of_all (by decide)
    · exact Text.ascii_of_all (by decide)
    · exact positional_ascii _ _

/-- The text of a number that is neither NaN nor infinite starts with a digit or a minus sign. -/
theorem display_head {x : Binary64} (number : x.isNaN = false) (finite : x.isInfinite = false) :
    ∃ d rest, x.display = d :: rest ∧ (Decimal.isDigit d = true ∨ d = 45) := by
  unfold display
  simp only [number, finite, Bool.false_eq_true, if_false]
  by_cases neg : x.neg
  · rw [if_pos neg]
    exact ⟨45, _, rfl, .inr rfl⟩
  · rw [if_neg neg, List.nil_append]
    by_cases zero : x.mag = 0
    · rw [if_pos zero]
      exact ⟨48, [], rfl, .inl rfl⟩
    · rw [if_neg zero]
      obtain ⟨d, rest, h, digit⟩ := positional_head x.shortestDecimal.1 x.shortestDecimal.2
      exact ⟨d, rest, h, .inl digit⟩

end Binary64
