import Mathlib.Tactic.Common

/-!
# Machines that answer

A machine takes an input to its next state and an answer; `run` feeds it a list of inputs.  One
machine refines another if related states give the same answer and stay related; then all answers
agree (`Refines.run`).  A specification that leaves a choice is a relation; a machine implements it if
it always does something allowed (`Implements.run`).
-/

namespace Transducers

variable {σ τ ι ο : Type}

/-- The state after a list of inputs, and the answer to each. -/
def run (step : σ → ι → σ × ο) : σ → List ι → σ × List ο
  | s, [] => (s, [])
  | s, i :: is => ((run step (step s i).1 is).1, (step s i).2 :: (run step (step s i).1 is).2)

section

variable (step : σ → ι → σ × ο)

@[simp] theorem run_nil (s : σ) : run step s [] = (s, []) := rfl

theorem run_cons (s : σ) (i : ι) (is : List ι) :
    run step s (i :: is) =
      ((run step (step s i).1 is).1, (step s i).2 :: (run step (step s i).1 is).2) := rfl

end

/-- Related states give the same answers and stay related. -/
structure Refines (R : σ → τ → Prop) (step : σ → ι → σ × ο) (spec : τ → ι → τ × ο) : Prop where
  related : ∀ s t i, R s t → R (step s i).1 (spec t i).1
  answer : ∀ s t i, R s t → (step s i).2 = (spec t i).2

theorem Refines.run {R : σ → τ → Prop} {step : σ → ι → σ × ο} {spec : τ → ι → τ × ο}
    (refines : Refines R step spec) {s : σ} {t : τ} (start : R s t) (is : List ι) :
    R (run step s is).1 (run spec t is).1 ∧ (run step s is).2 = (run spec t is).2 := by
  induction is generalizing s t with
  | nil => exact ⟨start, rfl⟩
  | cons i is ih =>
    obtain ⟨related, answers⟩ := ih (refines.related s t i start)
    refine ⟨related, ?_⟩
    rw [run_cons, run_cons, answers, refines.answer s t i start]

/-! ## Specifications that leave a choice -/

/-- A list of inputs with answers that are allowed, one after another. -/
inductive Allows (Allowed : τ → ι → ο → τ → Prop) : τ → List ι → List ο → τ → Prop
  | nil (t : τ) : Allows Allowed t [] [] t
  | cons {t t' t'' : τ} {i : ι} {o : ο} {is : List ι} {os : List ο} (first : Allowed t i o t')
      (rest : Allows Allowed t' is os t'') : Allows Allowed t (i :: is) (o :: os) t''

/-- In related states every step does something allowed, and the states stay related. -/
def Implements (R : σ → τ → Prop) (step : σ → ι → σ × ο) (Allowed : τ → ι → ο → τ → Prop) : Prop :=
  ∀ s t i, R s t → ∃ t', Allowed t i (step s i).2 t' ∧ R (step s i).1 t'

theorem Implements.run {R : σ → τ → Prop} {step : σ → ι → σ × ο} {Allowed : τ → ι → ο → τ → Prop}
    (implements : Implements R step Allowed) {s : σ} {t : τ} (start : R s t) (is : List ι) :
    ∃ t', Allows Allowed t is (Transducers.run step s is).2 t' ∧ R (Transducers.run step s is).1 t' := by
  induction is generalizing s t with
  | nil => exact ⟨t, .nil t, start⟩
  | cons i is ih =>
    obtain ⟨t', first, related⟩ := implements s t i start
    obtain ⟨t'', rest, final⟩ := ih related
    exact ⟨t'', .cons first rest, final⟩

end Transducers
