import Mathlib.Data.List.Perm.Basic
import Mathlib.Tactic.Common

/-!
# Traces of independent events

Two sequences of events are the same trace if one comes from the other by exchanging neighbours that
are independent.  `foldl_eq` says that a trace has one effect when independent events commute.
-/

namespace Traces

variable {α σ : Type} {indep : α → α → Prop}

/-- The sequences differ by exchanges of independent neighbours. -/
inductive Same (indep : α → α → Prop) : List α → List α → Prop
  | nil : Same indep [] []
  | cons (a : α) {l l' : List α} : Same indep l l' → Same indep (a :: l) (a :: l')
  | swap (a b : α) (l : List α) : indep a b → Same indep (a :: b :: l) (b :: a :: l)
  | trans {l l' l'' : List α} : Same indep l l' → Same indep l' l'' → Same indep l l''

theorem Same.refl (l : List α) : Same indep l l := by
  induction l with
  | nil => exact .nil
  | cons a l ih => exact .cons a ih

theorem Same.symm (symmetric : ∀ a b, indep a b → indep b a) {l l' : List α} (h : Same indep l l') :
    Same indep l' l := by
  induction h with
  | nil => exact .nil
  | cons a _ ih => exact .cons a ih
  | swap a b l apart => exact .swap b a l (symmetric a b apart)
  | trans _ _ first second => exact second.trans first

theorem Same.append_left (r : List α) {l l' : List α} (h : Same indep l l') :
    Same indep (r ++ l) (r ++ l') := by
  induction r with
  | nil => exact h
  | cons a r ih => exact .cons a ih

theorem Same.append_right (r : List α) {l l' : List α} (h : Same indep l l') :
    Same indep (l ++ r) (l' ++ r) := by
  induction h with
  | nil => exact .refl r
  | cons a _ ih => exact .cons a ih
  | swap a b l apart => exact .swap a b (l ++ r) apart
  | trans _ _ first second => exact first.trans second

/-- An event moves behind events it is independent of. -/
theorem Same.move {a : α} {l : List α} (apart : ∀ b ∈ l, indep a b) (r : List α) :
    Same indep (a :: (l ++ r)) (l ++ a :: r) := by
  induction l with
  | nil => exact .refl _
  | cons b l ih =>
    have first := apart b List.mem_cons_self
    have rest := ih fun c hc => apart c (List.mem_cons_of_mem b hc)
    exact (Same.swap a b (l ++ r) first).trans (.cons b rest)

/-- Two stretches of events move past each other. -/
theorem Same.exchange {l l' : List α} (apart : ∀ a ∈ l, ∀ b ∈ l', indep a b) (r : List α) :
    Same indep (l ++ (l' ++ r)) (l' ++ (l ++ r)) := by
  induction l with
  | nil => exact .refl _
  | cons a l ih =>
    have rest := ih fun c hc => apart c (List.mem_cons_of_mem a hc)
    exact (Same.cons a rest).trans (.move (apart a List.mem_cons_self) (l ++ r))

theorem Same.perm {l l' : List α} (h : Same indep l l') : l.Perm l' := by
  induction h with
  | nil => exact .nil
  | cons a _ ih => exact .cons a ih
  | swap a b l _ => exact .swap b a l
  | trans _ _ first second => exact first.trans second

/-- Without independent events a trace is one sequence. -/
theorem Same.eq (never : ∀ a b, ¬indep a b) {l l' : List α} (h : Same indep l l') : l = l' := by
  induction h with
  | nil => rfl
  | cons a _ ih => rw [ih]
  | swap a b _ apart => exact absurd apart (never a b)
  | trans _ _ first second => exact first.trans second

theorem Same.foldl_eq {apply : σ → α → σ}
    (comm : ∀ a b, indep a b → ∀ s, apply (apply s a) b = apply (apply s b) a) {l l' : List α}
    (h : Same indep l l') (s : σ) : l.foldl apply s = l'.foldl apply s := by
  induction h generalizing s with
  | nil => rfl
  | cons a _ ih => exact ih (apply s a)
  | swap a b l apart => rw [List.foldl_cons, List.foldl_cons, comm a b apart]; rfl
  | trans _ _ first second => exact (first s).trans (second s)

end Traces
