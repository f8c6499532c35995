import Mathlib.Tactic.Common

/-!
# Runs of a transition system

A system is a step function on states and labels, undefined where a label is not enabled.  A run
carries out a list of labels; a condition on steps can be asked of each of them.  `invariant` is the
induction rule, and `exec_append` and `each_append` cut a run in two.
-/

namespace Runs

variable {σ α : Type} (step : σ → α → Option σ)

/-- The state after the labels, if each of them is enabled where it stands. -/
def exec : σ → List α → Option σ
  | s, [] => some s
  | s, a :: as => (step s a).bind fun s' => exec s' as

/-- Each step of the run meets a condition on the state before it and its label. -/
def Each (cond : σ → α → Prop) : σ → List α → Prop
  | _, [] => True
  | s, a :: as => cond s a ∧ ∀ s' ∈ step s a, Each cond s' as

variable {step} {cond : σ → α → Prop}

@[simp] theorem exec_nil (s : σ) : exec step s [] = some s := rfl

theorem exec_cons {s s'' : σ} {a : α} {as : List α} :
    exec step s (a :: as) = some s'' ↔ ∃ s', step s a = some s' ∧ exec step s' as = some s'' := by
  simp [exec, Option.bind_eq_some_iff]

theorem exec_append {s s'' : σ} {as bs : List α} :
    exec step s (as ++ bs) = some s'' ↔
      ∃ s', exec step s as = some s' ∧ exec step s' bs = some s'' := by
  induction as generalizing s with
  | nil => simp
  | cons a as ih =>
    rw [List.cons_append, exec_cons]
    simp only [exec_cons, ih]
    constructor
    · rintro ⟨s₁, first, s₂, rest, last⟩
      exact ⟨s₂, ⟨s₁, first, rest⟩, last⟩
    · rintro ⟨s₂, ⟨s₁, first, rest⟩, last⟩
      exact ⟨s₁, first, s₂, rest, last⟩

theorem each_append {s s' : σ} {as bs : List α} (run : exec step s as = some s') :
    Each step cond s (as ++ bs) ↔ Each step cond s as ∧ Each step cond s' bs := by
  induction as generalizing s with
  | nil =>
    obtain rfl := Option.some.inj run
    simp [Each]
  | cons a as ih =>
    obtain ⟨s₁, first, rest⟩ := exec_cons.mp run
    simp only [List.cons_append, Each, Option.mem_def, first, Option.some.injEq, forall_eq', ih rest,
      and_assoc]

/-- What every step that meets the condition preserves holds after a run of such steps. -/
theorem invariant {P : σ → Prop}
    (keeps : ∀ s a s', P s → cond s a → step s a = some s' → P s') {s s' : σ} {as : List α}
    (run : exec step s as = some s') (each : Each step cond s as) (start : P s) : P s' := by
  induction as generalizing s with
  | nil => exact Option.some.inj run ▸ start
  | cons a as ih =>
    obtain ⟨s₁, first, rest⟩ := exec_cons.mp run
    exact ih rest (each.2 s₁ first) (keeps s a s₁ start each.1 first)

/-- A condition that always holds is met by each step of every run. -/
theorem each_of_forall (holds : ∀ s a, cond s a) (s : σ) (as : List α) : Each step cond s as := by
  induction as generalizing s with
  | nil => trivial
  | cons a as ih => exact ⟨holds s a, fun s' _ => ih s'⟩

/-- A condition that the labels of a run meet in every state is met by each of its steps. -/
theorem each_of_mem {s : σ} {as : List α} (holds : ∀ a ∈ as, ∀ s, cond s a) : Each step cond s as := by
  induction as generalizing s with
  | nil => trivial
  | cons a as ih =>
    exact ⟨holds a List.mem_cons_self s, fun s' _ => ih fun b mem => holds b (List.mem_cons_of_mem a mem)⟩

theorem Each.imp {cond' : σ → α → Prop} (weaker : ∀ s a, cond s a → cond' s a) {s : σ} {as : List α}
    (each : Each step cond s as) : Each step cond' s as := by
  induction as generalizing s with
  | nil => trivial
  | cons a as ih => exact ⟨weaker s a each.1, fun s' next => ih (each.2 s' next)⟩

/-- An invariant of the steps that meet a condition strengthens the condition along a run. -/
theorem Each.of_invariant {P : σ → Prop} {cond' : σ → α → Prop}
    (keeps : ∀ s a s', P s → cond s a → step s a = some s' → P s')
    (holds : ∀ s a, P s → cond s a → cond' s a) {s : σ} {as : List α} (each : Each step cond s as)
    (start : P s) : Each step cond' s as := by
  induction as generalizing s with
  | nil => trivial
  | cons a as ih =>
    exact ⟨holds s a start each.1, fun s' next => ih (each.2 s' next) (keeps s a s' start each.1 next)⟩

/-- What every step preserves holds after a run. -/
theorem invariant_of_step {P : σ → Prop} (keeps : ∀ s a s', P s → step s a = some s' → P s')
    {s s' : σ} {as : List α} (run : exec step s as = some s') (start : P s) : P s' := by
  have each : Each step (fun _ _ => True) s as := each_of_forall (fun _ _ => trivial) s as
  exact invariant (fun s a s' h _ next => keeps s a s' h next) run each start

/-- What every step preserves together with the labels before it holds after a run. -/
theorem invariant_of_history {P : List α → σ → Prop}
    (keeps : ∀ as s a s', P as s → step s a = some s' → P (as ++ [a]) s') {s s' : σ} {as : List α}
    (run : exec step s as = some s') (start : P [] s) : P as s' := by
  suffices later : ∀ past, P past s → P (past ++ as) s' from later [] start
  clear start
  induction as generalizing s with
  | nil =>
    intro past holds
    rw [List.append_nil]
    exact Option.some.inj run ▸ holds
  | cons a as ih =>
    intro past holds
    obtain ⟨s₁, first, rest⟩ := exec_cons.mp run
    have later := ih rest (past ++ [a]) (keeps past s a s₁ holds first)
    rwa [List.append_assoc, List.singleton_append] at later

/-! ## Outputs -/

/-- What the steps of a run put out, in their order. -/
def outputs {β : Type} (step : σ → α → Option σ) (out : σ → α → List β) : σ → List α → List β
  | _, [] => []
  | s, a :: as => out s a ++ (step s a).elim [] fun s' => outputs step out s' as

theorem outputs_cons {β : Type} {out : σ → α → List β} {s s' : σ} {a : α} (first : step s a = some s')
    (as : List α) : outputs step out s (a :: as) = out s a ++ outputs step out s' as := by
  rw [outputs, first]
  rfl

/-- Where hidden steps change nothing that is seen and put nothing out, and the other steps are the same on
both sides, a run has the outcome of the run without its hidden steps. -/
theorem purged {β : Type} {R : σ → σ → Prop} {hidden : α → Bool} {out : σ → α → List β}
    (silent : ∀ s t a s', R s t → cond s a → hidden a = true → step s a = some s' →
      R s' t ∧ out s a = [])
    (follows : ∀ s t a s', R s t → cond s a → hidden a = false → step s a = some s' →
      out t a = out s a ∧ ∃ t', step t a = some t' ∧ R s' t')
    {s s' t : σ} {as : List α} (run : exec step s as = some s') (each : Each step cond s as)
    (start : R s t) :
    let seen := as.filter fun a => !hidden a
    outputs step out t seen = outputs step out s as ∧ ∃ t', exec step t seen = some t' ∧ R s' t' := by
  induction as generalizing s t with
  | nil => exact ⟨rfl, t, rfl, Option.some.inj run ▸ start⟩
  | cons a as ih =>
    obtain ⟨s₁, first, rest⟩ := exec_cons.mp run
    have each' := each.2 s₁ first
    rw [outputs_cons first]
    cases unseen : hidden a with
    | true =>
      obtain ⟨related, nothing⟩ := silent s t a s₁ start each.1 unseen first
      rw [List.filter_cons_of_neg (by simp [unseen]), nothing, List.nil_append]
      exact ih rest each' related
    | false =>
      obtain ⟨same, t₁, first', related⟩ := follows s t a s₁ start each.1 unseen first
      obtain ⟨same', t', rest', related'⟩ := ih rest each' related
      rw [List.filter_cons_of_pos (by simp [unseen])]
      refine ⟨?_, t', exec_cons.mpr ⟨t₁, first', rest'⟩, related'⟩
      rw [outputs_cons first', same, same']

/-! ## Simulations -/

/-- Where every step that meets the condition is a step of the specification or changes nothing there, a
run of such steps is a run of the specification without those of the labels that it does not see. -/
theorem stuttering {τ β : Type} {spec : τ → β → Option τ} {R : σ → τ → Prop} {label : α → Option β}
    (follows : ∀ s t a s', R s t → cond s a → step s a = some s' →
      R s' t ∨ ∃ b t', label a = some b ∧ spec t b = some t' ∧ R s' t')
    {s s' : σ} {t : τ} {as : List α} (run : exec step s as = some s') (each : Each step cond s as)
    (start : R s t) :
    ∃ bs t', bs.Sublist (as.filterMap label) ∧ exec spec t bs = some t' ∧ R s' t' := by
  induction as generalizing s t with
  | nil => exact ⟨[], t, .slnil, rfl, Option.some.inj run ▸ start⟩
  | cons a as ih =>
    obtain ⟨s₁, first, rest⟩ := exec_cons.mp run
    have each' := each.2 s₁ first
    obtain related | ⟨b, t₁, seen, first', related⟩ := follows s t a s₁ start each.1 first
    · obtain ⟨bs, t', sub, rest', related'⟩ := ih rest each' related
      refine ⟨bs, t', sub.trans ?_, rest', related'⟩
      exact (List.sublist_cons_self a as).filterMap label
    · obtain ⟨bs, t', sub, rest', related'⟩ := ih rest each' related
      refine ⟨b :: bs, t', ?_, exec_cons.mpr ⟨t₁, first', rest'⟩, related'⟩
      rw [List.filterMap_cons_some seen]
      exact sub.cons_cons b

end Runs
