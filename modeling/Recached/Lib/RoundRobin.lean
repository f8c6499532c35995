import Mathlib.Data.List.Nodup
import Mathlib.Data.Nat.ModEq
import Mathlib.Tactic.Common

/-!
# Going round a vector in steps

A position goes round the indexes below `m`, `b` of them at a time, and without a jump it meets each of
them within `m / b + 1` steps.  A position that is kept in a machine word jumps when the word overflows;
it meets every index within twice as many steps (`reached_wrapping`), since the word does not overflow
again before the round is complete.
-/

namespace RoundRobin

variable {m b c i w : ℕ}

/-- The indexes that one step looks at. -/
def window (m b c : ℕ) : List ℕ := (List.range (min b m)).map fun offset => (c % m + offset) % m

theorem mem_window : i ∈ window m b c ↔ ∃ offset < min b m, (c % m + offset) % m = i := by
  simp [window]

theorem lt_of_mem_window (positive : 0 < m) (mem : i ∈ window m b c) : i < m := by
  obtain ⟨offset, -, rfl⟩ := mem_window.mp mem
  exact Nat.mod_lt _ positive

/-- A step looks at no index twice. -/
theorem nodup_window (m b c : ℕ) : (window m b c).Nodup := by
  refine List.Nodup.map_on (fun x hx y hy same => ?_) List.nodup_range
  rw [List.mem_range] at hx hy
  have modEq : Nat.ModEq m x y := Nat.ModEq.add_left_cancel' (c % m) same
  exact modEq.eq_of_lt_of_lt (by omega) (by omega)

/-- The way from the position to an index. -/
def distance (m c i : ℕ) : ℕ := (i + m - c % m) % m

theorem distance_lt (inside : i < m) : distance m c i < m := Nat.mod_lt _ (by omega)

theorem add_distance (inside : i < m) : (c + distance m c i) % m = i := by
  have below : c % m < m := Nat.mod_lt _ (by omega)
  have split := Nat.div_add_mod c m
  have round : c + (i + m - c % m) = i + m * (c / m + 1) := by
    rw [Nat.mul_add, Nat.mul_one]
    omega
  rw [distance, Nat.add_mod_mod, round, Nat.add_mul_mod_self_left, Nat.mod_eq_of_lt inside]

/-- An index is looked at in the step that the way to it ends in. -/
theorem reached_at (positive : 0 < b) (inside : i < m) :
    i ∈ window m b (c + distance m c i / b * b) := by
  refine mem_window.mpr ⟨distance m c i % b, ?_, ?_⟩
  · have := Nat.mod_lt (distance m c i) positive
    have := Nat.mod_le (distance m c i) b
    have := distance_lt (c := c) inside
    omega
  · rw [Nat.mod_add_mod, Nat.add_assoc, Nat.mul_comm, Nat.div_add_mod, add_distance inside]

/-- The position is a word below `w`, which is much larger than the vector. -/
theorem reached_wrapping (positive : 0 < b) (inside : i < m) (word : c < w) (small : 3 * m ≤ w) :
    ∃ step < 2 * (m / b + 1), i ∈ window m b ((c + step * b) % w) := by
  have near := distance_lt (c := c) inside
  have steps : distance m c i / b * b ≤ distance m c i := Nat.div_mul_le_self ..
  have short : distance m c i / b ≤ m / b := Nat.div_le_div_right near.le
  by_cases before : c + distance m c i / b * b < w
  · refine ⟨distance m c i / b, by omega, ?_⟩
    rw [Nat.mod_eq_of_lt before]
    exact reached_at positive inside
  · -- the word overflows on the way, and a new round starts near its beginning
    have below := Nat.div_add_mod (w - c - 1) b
    have rest := Nat.mod_lt (w - c - 1) positive
    have earlier : (w - c - 1) / b < distance m c i / b :=
      Nat.div_lt_of_lt_mul (by rw [Nat.mul_comm]; omega)
    generalize overflow : (w - c - 1) / b = n at below earlier
    obtain ⟨start, again⟩ : ∃ start, c + (n + 1) * b = w + start :=
      ⟨c + (n + 1) * b - w, by rw [Nat.add_mul, Nat.one_mul, Nat.mul_comm n]; omega⟩
    have close : start < b := by
      rw [Nat.add_mul, Nat.one_mul, Nat.mul_comm n] at again
      omega
    have step_le : b ≤ m := by
      have one : 1 ≤ distance m c i / b := by omega
      have := Nat.mul_le_mul_right b one
      omega
    have near' := distance_lt (c := start) inside
    have steps' : distance m start i / b * b ≤ distance m start i := Nat.div_mul_le_self ..
    have short' : distance m start i / b ≤ m / b := Nat.div_le_div_right near'.le
    refine ⟨n + 1 + distance m start i / b, by omega, ?_⟩
    have position : c + (n + 1 + distance m start i / b) * b =
        w + (start + distance m start i / b * b) := by
      rw [Nat.add_mul, ← Nat.add_assoc, again, Nat.add_assoc]
    rw [position, Nat.add_mod_left, Nat.mod_eq_of_lt (by omega)]
    exact reached_at positive inside

end RoundRobin
