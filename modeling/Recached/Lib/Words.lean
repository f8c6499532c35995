import Mathlib.Data.List.Flatten
import Mathlib.Tactic.Ring

/-!
# Words on a byte stream

A number is written as a word of a fixed number of bytes, least significant byte first.  A stream of
items that all have the same width is cut wherever the reader likes: once it has collected the bytes of
one width, they are those of the next item.
-/

namespace Words

/-- The `width` low bytes of a number, the lowest first. -/
def toLe : ℕ → ℕ → List UInt8
  | 0, _ => []
  | width + 1, n => UInt8.ofNat n :: toLe width (n / 256)

def fromLe : List UInt8 → ℕ
  | [] => 0
  | b :: bytes => b.toNat + 256 * fromLe bytes

@[simp] theorem length_toLe (width n : ℕ) : (toLe width n).length = width := by
  induction width generalizing n with
  | zero => rfl
  | succ width ih => rw [toLe, List.length_cons, ih]

theorem fromLe_toLe {width n : ℕ} (fits : n < 256 ^ width) : fromLe (toLe width n) = n := by
  induction width generalizing n with
  | zero =>
    rw [pow_zero] at fits
    exact (Nat.lt_one_iff.mp fits).symm
  | succ width ih =>
    have upper : n / 256 < 256 ^ width := by
      rw [Nat.div_lt_iff_lt_mul (by decide)]
      rwa [pow_succ] at fits
    rw [toLe, fromLe, ih upper, UInt8.toNat_ofNat']
    omega

section

variable {α β : Type} {encode : α → List β} {width : ℕ} {items : List α} {collected rest : List β}

/-- A reader that has collected one width has collected the first item, and the rest is the others. -/
theorem collected_first (fixed : ∀ x, (encode x).length = width) (full : collected.length = width)
    (wide : 0 < width) (stream : collected ++ rest = items.flatMap encode) :
    ∃ x others, items = x :: others ∧ collected = encode x ∧ rest = others.flatMap encode := by
  cases items with
  | nil =>
    have none : collected = [] := (List.append_eq_nil_iff.mp stream).1
    rw [none, List.length_nil] at full
    omega
  | cons x others =>
    rw [List.flatMap_cons] at stream
    obtain ⟨first, others_eq⟩ := List.append_inj stream (full.trans (fixed x).symm)
    exact ⟨x, others, rfl, first, others_eq⟩

end

end Words
