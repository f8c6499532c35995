import Mathlib.Algebra.Ring.Nat
import Mathlib.Data.List.MinMax
import Recached.Lib.Runs

/-!
# Locks taken in order

Tasks take and release locks of a linear order, each lock only while the task holds smaller ones, and
no task ends with a lock.  A lock then has one holder at a time (`exclusive`), some task can always go
on (`progress`), and going on for long enough brings every task to its end (`drains`).
-/

namespace LockOrder

inductive Op (L : Type) where
  | acquire (l : L)
  | release (l : L)

section

variable {L : Type} [LinearOrder L]

/-- What is left to do is in order for a task that holds some locks. -/
def Ordered : List L → List (Op L) → Prop
  | held, [] => held = []
  | held, .acquire l :: ops => (∀ m ∈ held, m < l) ∧ Ordered (l :: held) ops
  | held, .release l :: ops => l ∈ held ∧ Ordered (held.erase l) ops

/-- A task: the locks it holds and what is left to do, which is in order. -/
structure Holder (L : Type) [LinearOrder L] where
  held : List L := []
  todo : List (Op L)
  ordered : Ordered held todo

/-- The next operation of a task, and the task after it. -/
def Holder.next : Holder L → Option (Op L × Holder L)
  | ⟨_, [], _⟩ => none
  | ⟨held, .acquire l :: ops, h⟩ => some (.acquire l, ⟨l :: held, ops, h.2⟩)
  | ⟨held, .release l :: ops, h⟩ => some (.release l, ⟨held.erase l, ops, h.2⟩)

/-- Some task holds the lock. -/
def Taken (tasks : List (Holder L)) (l : L) : Prop := ∃ t ∈ tasks, l ∈ t.held

instance (tasks : List (Holder L)) (l : L) : Decidable (Taken tasks l) :=
  inferInstanceAs (Decidable (∃ t ∈ tasks, l ∈ t.held))

inductive Action (L : Type) [LinearOrder L] where
  | spawn (ops : List (Op L)) (ordered : Ordered [] ops)
  | run (i : ℕ)

/-- A task waits for a lock while it is taken. -/
def step (tasks : List (Holder L)) : Action L → Option (List (Holder L))
  | .spawn ops ordered => some (tasks ++ [⟨[], ops, ordered⟩])
  | .run i =>
    match tasks[i]? with
    | none => none
    | some t =>
      match t.next with
      | none => none
      | some (.acquire l, t') => if Taken tasks l then none else some (tasks.set i t')
      | some (.release _, t') => some (tasks.set i t')

/-! ## Programs in order -/

/-- Hold a lock while something is done. -/
def locked (l : L) (body : List (Op L)) : List (Op L) := .acquire l :: body ++ [.release l]

/-- Take some locks, one after the other, and hold them while something is done. -/
def guarded (ls : List L) (body : List (Op L)) : List (Op L) :=
  ls.map .acquire ++ body ++ ls.map .release

/-- A program that can run while some locks are held and leaves them as they are. -/
def Nested (held : List L) (ops : List (Op L)) : Prop :=
  ∀ rest, Ordered held rest → Ordered held (ops ++ rest)

theorem nested_nil (held : List L) : Nested held [] := fun _ h => h

theorem Nested.append {held : List L} {a b : List (Op L)} (ha : Nested held a) (hb : Nested held b) :
    Nested held (a ++ b) := fun rest h => by
  rw [List.append_assoc]
  exact ha _ (hb _ h)

theorem Nested.flatMap {α : Type} {held : List L} {f : α → List (Op L)} {xs : List α}
    (h : ∀ x ∈ xs, Nested held (f x)) : Nested held (xs.flatMap f) := by
  induction xs with
  | nil => exact nested_nil held
  | cons x xs ih =>
    rw [List.flatMap_cons]
    exact (h x List.mem_cons_self).append (ih fun y hy => h y (List.mem_cons_of_mem x hy))

theorem Nested.ite {held : List L} {b : Bool} {ops : List (Op L)} (h : Nested held ops) :
    Nested held (if b then ops else []) := by
  cases b with
  | false => exact nested_nil held
  | true => exact h

theorem Nested.locked {held : List L} {l : L} {body : List (Op L)} (above : ∀ m ∈ held, m < l)
    (inside : Nested (l :: held) body) : Nested held (locked l body) := by
  intro rest h
  have inner : Ordered (l :: held) (body ++ (.release l :: rest)) :=
    inside _ ⟨List.mem_cons_self, by rwa [List.erase_cons_head]⟩
  rw [LockOrder.locked, List.cons_append, List.cons_append, List.append_assoc]
  exact ⟨above, inner⟩

/-- The order in which locks were taken does not matter later. -/
theorem Ordered.perm {held held' : List L} {ops : List (Op L)} (h : Ordered held ops)
    (same : held.Perm held') : Ordered held' ops := by
  induction ops generalizing held held' with
  | nil =>
    obtain rfl : held = [] := h
    exact same.nil_eq.symm
  | cons op ops ih =>
    cases op with
    | acquire l => exact ⟨fun m hm => h.1 m (same.mem_iff.mpr hm), ih h.2 (same.cons l)⟩
    | release l => exact ⟨same.mem_iff.mp h.1, ih h.2 (same.erase l)⟩

theorem ordered_releases {held ls : List L} {rest : List (Op L)} (h : Ordered held rest) :
    Ordered (ls ++ held) (ls.map .release ++ rest) := by
  induction ls with
  | nil => exact h
  | cons l ls ih =>
    refine ⟨List.mem_cons_self, ?_⟩
    rwa [List.cons_append, List.erase_cons_head]

theorem ordered_acquires {held ls : List L} {rest : List (Op L)} (sorted : ls.Pairwise (· < ·))
    (above : ∀ l ∈ ls, ∀ m ∈ held, m < l) (h : Ordered (ls.reverse ++ held) rest) :
    Ordered held (ls.map .acquire ++ rest) := by
  induction ls generalizing held with
  | nil => exact h
  | cons l ls ih =>
    obtain ⟨least, sorted⟩ := List.pairwise_cons.mp sorted
    refine ⟨above l List.mem_cons_self, ih sorted (fun k hk m hm => ?_) ?_⟩
    · cases hm with
      | head => exact least k hk
      | tail _ hm => exact above k (List.mem_cons_of_mem l hk) m hm
    · rwa [List.reverse_cons, List.append_assoc] at h

theorem Nested.guarded {held ls : List L} {body : List (Op L)} (sorted : ls.Pairwise (· < ·))
    (above : ∀ l ∈ ls, ∀ m ∈ held, m < l) (inside : Nested (ls.reverse ++ held) body) :
    Nested held (guarded ls body) := by
  intro rest h
  rw [LockOrder.guarded, List.append_assoc, List.append_assoc]
  refine ordered_acquires sorted above (inside _ ?_)
  exact (ordered_releases h).perm ((List.reverse_perm ls).symm.append_right held)

theorem Nested.ordered {ops : List (Op L)} (h : Nested [] ops) : Ordered [] ops := by
  have closed := h [] rfl
  rwa [List.append_nil] at closed

/-! ## Steps -/

/-- What a step of a task does. -/
theorem step_run {tasks tasks' : List (Holder L)} {i : ℕ} (next : step tasks (.run i) = some tasks') :
    ∃ t t' op, tasks[i]? = some t ∧ t.next = some (op, t') ∧ tasks' = tasks.set i t' ∧
      ∀ l, op = .acquire l → ¬Taken tasks l := by
  unfold step at next
  cases at_i : tasks[i]? with
  | none => simp only [at_i] at next; cases next
  | some t =>
    cases op_next : t.next with
    | none => simp only [at_i, op_next] at next; cases next
    | some r =>
      obtain ⟨op, t'⟩ := r
      cases op with
      | acquire l =>
        simp only [at_i, op_next, Option.ite_none_left_eq_some, Option.some.injEq] at next
        refine ⟨t, t', _, rfl, op_next, next.2.symm, fun k same => ?_⟩
        cases same
        exact next.1
      | release l =>
        simp only [at_i, op_next, Option.some.injEq] at next
        exact ⟨t, t', _, rfl, op_next, next.symm, fun k same => (by cases same)⟩

theorem held_next {t t' : Holder L} {op : Op L} (h : t.next = some (op, t')) :
    ∀ l ∈ t'.held, l ∈ t.held ∨ op = .acquire l := by
  intro l hl
  obtain ⟨held, todo, ordered⟩ := t
  cases todo with
  | nil => cases h
  | cons first ops =>
    cases first with
    | acquire k =>
      cases h
      cases hl with
      | head => exact .inr rfl
      | tail _ hl => exact .inl hl
    | release k =>
      cases h
      exact .inl (List.mem_of_mem_erase hl)

/-- No lock has two holders. -/
def Exclusive (tasks : List (Holder L)) : Prop := tasks.Pairwise fun t u => t.held.Disjoint u.held

theorem Exclusive.step {tasks tasks' : List (Holder L)} {a : Action L} (h : Exclusive tasks)
    (next : step tasks a = some tasks') : Exclusive tasks' := by
  cases a with
  | spawn ops ordered =>
    obtain rfl := Option.some.inj next
    refine List.pairwise_append.mpr ⟨h, List.pairwise_singleton _ _, fun t _ u hu => ?_⟩
    obtain rfl := List.mem_singleton.mp hu
    exact List.disjoint_nil_right _
  | run i =>
    obtain ⟨t, t', op, at_i, op_next, rfl, free⟩ := step_run next
    have inside := List.getElem?_eq_some_iff.mp at_i
    obtain ⟨hi, rfl⟩ := inside
    have apart (u : Holder L) (hu : u ∈ tasks) (disjoint : (tasks[i]).held.Disjoint u.held) :
        t'.held.Disjoint u.held := by
      intro l hl hlu
      cases held_next op_next l hl with
      | inl old => exact disjoint old hlu
      | inr took => exact free l took ⟨u, hu, hlu⟩
    rw [Exclusive, List.pairwise_iff_getElem] at h ⊢
    intro a b ha hb lt
    rw [List.length_set] at ha hb
    rw [List.getElem_set, List.getElem_set]
    by_cases first : i = a
    · subst first
      rw [if_pos rfl, if_neg (by omega)]
      exact apart _ (List.getElem_mem hb) (h i b hi hb lt)
    · rw [if_neg first]
      by_cases second : i = b
      · subst second
        rw [if_pos rfl]
        exact List.disjoint_comm.mp (apart _ (List.getElem_mem ha) (List.disjoint_comm.mp (h a i ha hi lt)))
      · rw [if_neg second]
        exact h a b ha hb lt

/-- In every run no lock ever has two holders. -/
theorem exclusive {tasks : List (Holder L)} {actions : List (Action L)}
    (run : Runs.exec step [] actions = some tasks) : Exclusive tasks :=
  Runs.invariant_of_step (fun _ _ _ h next => h.step next) run List.Pairwise.nil

/-! ## Progress -/

/-- The lock that a task asks for next. -/
def Holder.wanted (t : Holder L) : Option L :=
  match t.todo with
  | .acquire l :: _ => some l
  | _ => none

theorem above_held {t : Holder L} {l : L} (h : t.wanted = some l) : ∀ m ∈ t.held, m < l := by
  obtain ⟨held, todo, ordered⟩ := t
  cases todo with
  | nil => cases h
  | cons op ops =>
    cases op with
    | acquire k =>
      cases h
      exact ordered.1
    | release k => cases h

/-- A task that has not ended goes on, or asks for a lock that is taken. -/
theorem runs_or_waits {tasks : List (Holder L)} {t : Holder L} (ht : t ∈ tasks) (unended : t.todo ≠ []) :
    (∃ i tasks', step tasks (.run i) = some tasks') ∨ ∃ l, t.wanted = some l ∧ Taken tasks l := by
  obtain ⟨i, at_i⟩ := List.mem_iff_getElem?.mp ht
  obtain ⟨held, todo, ordered⟩ := t
  cases todo with
  | nil => exact absurd rfl unended
  | cons op ops =>
    cases op with
    | release l =>
      refine .inl ⟨i, tasks.set i ⟨held.erase l, ops, ordered.2⟩, ?_⟩
      rw [step, at_i]
      rfl
    | acquire l =>
      by_cases taken : Taken tasks l
      · exact .inr ⟨l, rfl, taken⟩
      · refine .inl ⟨i, tasks.set i ⟨l :: held, ops, ordered.2⟩, ?_⟩
        rw [step, at_i]
        exact if_neg taken

theorem unended_of_held {t : Holder L} {l : L} (h : l ∈ t.held) : t.todo ≠ [] := by
  obtain ⟨held, todo, ordered⟩ := t
  rintro rfl
  obtain rfl : held = [] := ordered
  cases h

/-- As long as some task has not ended, some task can go on: a task that asks for the greatest lock
asked for finds it free, since whoever held it would ask for a greater one. -/
theorem progress {tasks : List (Holder L)} {t : Holder L} (ht : t ∈ tasks) (unended : t.todo ≠ []) :
    ∃ i tasks', step tasks (.run i) = some tasks' := by
  by_contra stuck
  have waits (u : Holder L) (hu : u ∈ tasks) (unended : u.todo ≠ []) :
      ∃ l, u.wanted = some l ∧ Taken tasks l := (runs_or_waits hu unended).resolve_left stuck
  obtain ⟨l, wanted, -⟩ := waits t ht unended
  have asked : tasks.filterMap Holder.wanted ≠ [] :=
    List.ne_nil_of_mem (List.mem_filterMap.mpr ⟨t, ht, wanted⟩)
  obtain ⟨greatest, is_max⟩ := WithBot.ne_bot_iff_exists.mp (List.maximum_ne_bot_of_ne_nil asked)
  obtain ⟨u, hu, wants⟩ := List.mem_filterMap.mp (List.maximum_mem is_max.symm)
  obtain ⟨l, wanted, v, hv, holds⟩ := waits u hu (fun ended => by
    rw [Holder.wanted, ended] at wants
    cases wants)
  obtain rfl : l = greatest := Option.some.inj (wanted.symm.trans wants)
  obtain ⟨k, wanted, -⟩ := waits v hv (unended_of_held holds)
  have below : l < k := above_held wanted l holds
  have atMost : k ≤ l :=
    List.le_maximum_of_mem (List.mem_filterMap.mpr ⟨v, hv, wanted⟩) is_max.symm
  exact absurd below atMost.not_gt

/-- What all tasks have left to do. -/
def left (tasks : List (Holder L)) : ℕ := (tasks.map fun t => t.todo.length).sum

theorem left_set {tasks : List (Holder L)} {i : ℕ} {t t' : Holder L} (at_i : tasks[i]? = some t)
    (less : t'.todo.length + 1 = t.todo.length) : left (tasks.set i t') + 1 = left tasks := by
  induction tasks generalizing i with
  | nil => cases at_i
  | cons u tasks ih =>
    cases i with
    | zero =>
      obtain rfl : u = t := Option.some.inj at_i
      simp only [List.set_cons_zero, left, List.map_cons, List.sum_cons]
      omega
    | succ i =>
      have rest : left (tasks.set i t') + 1 = left tasks := ih at_i
      simp only [List.set_cons_succ, left, List.map_cons, List.sum_cons] at rest ⊢
      omega

theorem left_step {tasks tasks' : List (Holder L)} {i : ℕ} (next : step tasks (.run i) = some tasks') :
    left tasks' + 1 = left tasks := by
  obtain ⟨t, t', op, at_i, op_next, rfl, -⟩ := step_run next
  refine left_set at_i ?_
  obtain ⟨held, todo, ordered⟩ := t
  cases todo with
  | nil => cases op_next
  | cons first ops => cases first <;> cases op_next <;> rfl

theorem unended_of_left {tasks : List (Holder L)} (some_left : 0 < left tasks) :
    ∃ t ∈ tasks, t.todo ≠ [] := by
  induction tasks with
  | nil => cases some_left
  | cons t tasks ih =>
    by_cases ended : t.todo = []
    · rw [left, List.map_cons, List.sum_cons, ended, List.length_nil, Nat.zero_add] at some_left
      obtain ⟨u, hu, unended⟩ := ih some_left
      exact ⟨u, List.mem_cons_of_mem t hu, unended⟩
    · exact ⟨t, List.mem_cons_self, ended⟩

/-- If no task comes in, going on brings every task to its end, in as many steps as there are
operations left. -/
theorem drains (tasks : List (Holder L)) :
    ∃ (is : List ℕ) (ended : List (Holder L)), is.length = left tasks ∧
      Runs.exec step tasks (is.map .run) = some ended ∧ ∀ t ∈ ended, t.todo = [] := by
  induction n : left tasks generalizing tasks with
  | zero =>
    refine ⟨[], tasks, rfl, rfl, fun t ht => ?_⟩
    by_contra unended
    obtain ⟨i, tasks', next⟩ := progress ht unended
    have less := left_step next
    omega
  | succ n ih =>
    obtain ⟨t, ht, unended⟩ : ∃ t ∈ tasks, t.todo ≠ [] := unended_of_left (by omega)
    obtain ⟨i, tasks', next⟩ := progress ht unended
    have less := left_step next
    obtain ⟨is, ended, count, run, all⟩ := ih tasks' (by omega)
    exact ⟨i :: is, ended, by rw [List.length_cons, count], Runs.exec_cons.mpr ⟨tasks', next, run⟩, all⟩

end

end LockOrder
