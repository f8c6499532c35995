import Mathlib.Data.List.Basic
import Mathlib.Tactic.Common

/-!
# Elements at places

`select` keeps the elements of a list whose places satisfy a condition, in order.  A predicate on the
elements gives the filter of the list (`select_filter`), and an interval of places gives a stretch of it
(`select_interval`).
-/

namespace Places

variable {α : Type}

/-- The elements whose places satisfy the condition, in order. -/
def select : List α → (ℕ → Bool) → List α
  | [], _ => []
  | a :: l, p => if p 0 then a :: select l fun i => p (i + 1) else select l fun i => p (i + 1)

theorem select_congr {l : List α} {p q : ℕ → Bool} (same : ∀ i < l.length, p i = q i) :
    select l p = select l q := by
  induction l generalizing p q with
  | nil => rfl
  | cons a l ih =>
    rw [select, select, same 0 (Nat.zero_lt_succ _),
      ih fun i inside => same (i + 1) (Nat.succ_lt_succ inside)]

theorem select_append (l l' : List α) (p : ℕ → Bool) :
    select (l ++ l') p = select l p ++ select l' fun i => p (l.length + i) := by
  induction l generalizing p with
  | nil => simp [select]
  | cons a l ih =>
    have shift (i : ℕ) : l.length + i + 1 = l.length + 1 + i := by omega
    simp only [List.cons_append, select, ih, List.length_cons, shift]
    split_ifs <;> rfl

theorem select_reverse (l : List α) (p : ℕ → Bool) :
    select l.reverse p = (select l fun i => p (l.length - 1 - i)).reverse := by
  induction l generalizing p with
  | nil => rfl
  | cons a l ih =>
    have rest : (select l fun i => p (l.length - (i + 1))) = select l fun i => p (l.length - 1 - i) :=
      select_congr fun i _ => congrArg p (by omega)
    rw [List.reverse_cons, select_append, ih, List.length_reverse]
    simp only [select, List.length_cons, Nat.add_zero, Nat.add_sub_cancel, Nat.sub_zero, rest]
    split_ifs <;> simp

theorem select_true (l : List α) : (select l fun _ => true) = l := by
  induction l with
  | nil => rfl
  | cons a l ih => rw [select, if_pos rfl, ih]

theorem select_false (l : List α) : (select l fun _ => false) = [] := by
  induction l with
  | nil => rfl
  | cons a l ih => rw [select, if_neg Bool.false_ne_true, ih]

/-- The places at which an element satisfies a predicate. -/
theorem select_filter (l : List α) (P : α → Bool) : (select l fun i => l[i]?.any P) = l.filter P := by
  induction l with
  | nil => rfl
  | cons a l ih =>
    simp only [select, List.getElem?_cons_zero, List.getElem?_cons_succ, Option.any_some, ih,
      List.filter_cons]

/-- The places below a bound are the first ones. -/
theorem select_below (l : List α) (n : ℕ) : (select l fun i => i < n) = l.take n := by
  induction l generalizing n with
  | nil => simp [select]
  | cons a l ih =>
    cases n with
    | zero => simpa [select] using select_false l
    | succ n => simp [select, ih]

/-- The places of an interval are a stretch. -/
theorem select_interval (l : List α) (first last : ℕ) :
    (select l fun i => first ≤ i && i ≤ last) = (l.drop first).take (last + 1 - first) := by
  induction l generalizing first last with
  | nil => simp [select]
  | cons a l ih =>
    cases first with
    | zero =>
      rw [← select_below]
      exact select_congr fun i _ => by simp [Nat.lt_succ_iff]
    | succ first =>
      cases last with
      | zero => simpa [select] using select_false l
      | succ last => simpa [select] using ih first last

end Places
