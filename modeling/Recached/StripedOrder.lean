import Recached.Stripes

/-!
# The write order with its guards taken one by one

In `WriteOrder` a task begins once no guard of it is held.  Here it takes its stripes one after the
other, each when it is free, and begins when it has them all, without looking at anything else.
`guards_one_by_one` says that this is a run of `WriteOrder`, and `striped_never_blocks` that it always
goes on.
-/

namespace Recached

/-- The stripes of some guards, in the order they are taken. -/
def Guards.stripes : Guards → List ℕ
  | none => allStripes
  | some stripes => ascending stripes

/-- A node whose tasks take their stripes one by one; `taken` counts those that each task has. -/
structure StripedOrder where
  order : WriteOrder
  taken : ℕ → ℕ := fun _ => 0

/-- The stripes that a task holds. -/
def OrderedTask.stripes (task : OrderedTask) (taken : ℕ) : List ℕ :=
  if !task.started then task.guards.stripes.take taken
  else if task.holds then task.guards.stripes
  else []

inductive StripedAction where
  | spawn (route : OrderedRoute)
  | take (i : ℕ)
  | run (i : ℕ) (env : Env)

namespace StripedOrder

/-- Some task other than `i` holds the stripe. -/
def Elsewhere (s : StripedOrder) (i stripe : ℕ) : Prop :=
  ∃ q ∈ s.order.tasks.zipIdx, q.2 ≠ i ∧ stripe ∈ q.1.stripes (s.taken q.2)

instance (s : StripedOrder) (i stripe : ℕ) : Decidable (s.Elsewhere i stripe) :=
  inferInstanceAs (Decidable (∃ q ∈ s.order.tasks.zipIdx, q.2 ≠ i ∧ stripe ∈ q.1.stripes (s.taken q.2)))

def step (codec : Codec) (hash : String → ℕ) (s : StripedOrder) : StripedAction → Option StripedOrder
  | .spawn route => some {
      order := { s.order with
        tasks := s.order.tasks ++ [route.task (stripeFor hash) s.order.store] }
      taken := Function.update s.taken s.order.tasks.length 0 }
  | .take i =>
    match s.order.tasks[i]? with
    | none => none
    | some task =>
      match task.started, task.guards.stripes[s.taken i]? with
      | false, some stripe =>
        if s.Elsewhere i stripe then none
        else some { s with taken := Function.update s.taken i (s.taken i + 1) }
      | _, _ => none
  | .run i env =>
    match s.order.tasks[i]? with
    | none => none
    | some task =>
      if task.started then
        (s.order.step codec (stripeFor hash) (.run i env)).map fun order => { s with order }
      else if s.taken i < task.guards.stripes.length ∨ env.now < s.order.clock then none
      else some { s with
        order := { s.order with
          clock := env.now, tasks := s.order.tasks.set i { task with started := true } } }

end StripedOrder

/-- What `WriteOrder` sees of an action. -/
def StripedAction.visible : StripedAction → Option OrderedAction
  | .spawn route => some (.spawn route)
  | .take _ => none
  | .run i env => some (.run i env)

/-! ## Guards and stripes -/

theorem stripeFor_lt (hash : String → ℕ) (key : String) : stripeFor hash key < writeOrderStripes :=
  Nat.mod_lt _ (by decide)

/-- All stripes exist. -/
def Guards.InRange (g : Guards) : Prop := ∀ stripes, g = some stripes → ∀ x ∈ stripes, x < writeOrderStripes

theorem Guards.mem_stripes {g : Guards} {x : ℕ} :
    x ∈ g.stripes ↔ match g with
      | none => x < writeOrderStripes
      | some stripes => x ∈ stripes := by
  cases g with
  | none => exact List.mem_range
  | some stripes => exact mem_ascending

theorem Guards.stripes_sorted (g : Guards) : g.stripes.Pairwise (· < ·) := by
  cases g with
  | none => exact List.pairwise_lt_range
  | some stripes => exact ascending_sorted stripes

/-- Guards whose stripes are apart do not clash. -/
theorem Guards.not_clash {g g' : Guards} (h : g.InRange) (h' : g'.InRange)
    (apart : g.stripes.Disjoint g'.stripes) : g.clash g' = false := by
  have zero : (0 : ℕ) ∈ allStripes := List.mem_range.mpr (by decide)
  cases g with
  | none =>
    cases g' with
    | none => exact absurd zero (apart zero)
    | some stripes' =>
      cases stripes' with
      | nil => rfl
      | cons x rest =>
        have inside : x < writeOrderStripes := h' _ rfl x List.mem_cons_self
        exact absurd (mem_ascending.mpr List.mem_cons_self) (apart (List.mem_range.mpr inside))
  | some stripes =>
    cases g' with
    | none =>
      cases stripes with
      | nil => rfl
      | cons x rest =>
        have inside : x < writeOrderStripes := h _ rfl x List.mem_cons_self
        exact absurd (List.mem_range.mpr inside) (apart (mem_ascending.mpr List.mem_cons_self))
    | some stripes' =>
      refine List.any_eq_false.mpr fun x hx both => ?_
      exact apart (mem_ascending.mpr hx) (mem_ascending.mpr (List.contains_iff_mem.mp both))

/-- The guards for some commands and keys are the stripes that the locks of the server stand for. -/
theorem stripes_lockCommandsAndKeys (hash : String → ℕ) (cmds : List Command) (extra : List String) :
    (lockCommandsAndKeys (stripeFor hash) cmds extra).stripes = stripesToLock hash cmds extra := by
  have found : commandStripes hash cmds =
      if (((cmds.filter isWriteCommand).map orderingKeys).any Option.isNone) then none
      else some ((((cmds.filter isWriteCommand).map orderingKeys).flatMap (fun ks => ks.getD [])).map
        (stripeFor hash)) := by
    induction cmds with
    | nil => rfl
    | cons cmd cmds ih =>
      unfold commandStripes
      cases write : isWriteCommand cmd with
      | false => simp only [Bool.not_false, if_true, List.filter_cons, write, Bool.false_eq_true, if_false, ih]
      | true =>
        simp only [Bool.not_true, Bool.false_eq_true, if_false, List.filter_cons, write, if_true,
          List.map_cons, List.any_cons, List.flatMap_cons]
        cases orderingKeys cmd with
        | none => rfl
        | some keys =>
          simp only [ih, Option.isNone_some, Bool.false_or, Option.getD_some, List.map_append]
          split <;> rfl
  unfold lockCommandsAndKeys stripesToLock
  rw [found]
  cases missing : ((cmds.filter isWriteCommand).map orderingKeys).any Option.isNone with
  | true =>
    simp only [missing, if_true]
    rfl
  | false =>
    simp only [missing, Bool.false_eq_true, if_false, List.map_append]
    rfl

/-- The tasks of a server name stripes that exist. -/
theorem inRange_task (hash : String → ℕ) (store : KeyValueStore) (route : OrderedRoute) :
    (route.task (stripeFor hash) store).guards.InRange := by
  have named (cmds : List Command) (extra : List String) :
      (lockCommandsAndKeys (stripeFor hash) cmds extra).InRange := by
    intro stripes same x hx
    dsimp only [lockCommandsAndKeys] at same
    split at same
    · cases same
    · cases same
      obtain ⟨key, -, rfl⟩ := List.mem_map.mp hx
      exact stripeFor_lt hash key
  have all : Guards.InRange none := fun _ same => (by cases same)
  cases route with
  | client cmd =>
    simp only [OrderedRoute.task]
    split
    · exact all
    · exact named _ _
  | transaction queue watched =>
    simp only [OrderedRoute.task]
    split
    · exact all
    · exact named _ _
  | replicated bytes =>
    intro stripes same x hx
    cases same
    cases hx
  | sweep keys => exact all
  | capture log => exact all

/-! ## One holder for each stripe -/

namespace StripedOrder

variable {codec : Codec} {hash : String → ℕ} {s s' : StripedOrder}

theorem elsewhere_iff {i x : ℕ} :
    s.Elsewhere i x ↔ ∃ j u, s.order.tasks[j]? = some u ∧ j ≠ i ∧ x ∈ u.stripes (s.taken j) := by
  constructor
  · rintro ⟨⟨u, j⟩, mem, ne, hx⟩
    exact ⟨j, u, List.mem_zipIdx_iff_getElem?.mp mem, ne, hx⟩
  · rintro ⟨j, u, at_j, ne, hx⟩
    exact ⟨(u, j), List.mem_zipIdx_iff_getElem?.mpr at_j, ne, hx⟩

/-- The stripes of the tasks exist, and no two tasks hold the same one. -/
structure Sound (s : StripedOrder) : Prop where
  inRange : ∀ t ∈ s.order.tasks, t.guards.InRange
  apart : ∀ i j (t u : OrderedTask), s.order.tasks[i]? = some t → s.order.tasks[j]? = some u → i ≠ j →
    (t.stripes (s.taken i)).Disjoint (u.stripes (s.taken j))

/-- Only one task changes, and it gets no stripe that another one holds. -/
theorem Sound.of_set (h : s.Sound) {i : ℕ} {t t' : OrderedTask} (at_i : s.order.tasks[i]? = some t)
    (tasks : s'.order.tasks = s.order.tasks.set i t') (guards : t'.guards = t.guards)
    (others : ∀ j ≠ i, s'.taken j = s.taken j)
    (free : ∀ x ∈ t'.stripes (s'.taken i), x ∉ t.stripes (s.taken i) → ¬s.Elsewhere i x) : s'.Sound := by
  have mem : t ∈ s.order.tasks := List.mem_of_getElem? at_i
  have clear (j : ℕ) (u : OrderedTask) (at_j : s.order.tasks[j]? = some u) (ne : j ≠ i) :
      (t'.stripes (s'.taken i)).Disjoint (u.stripes (s.taken j)) := by
    intro x hx hu
    by_cases old : x ∈ t.stripes (s.taken i)
    · exact h.apart i j t u at_i at_j ne.symm old hu
    · exact free x hx old (elsewhere_iff.mpr ⟨j, u, at_j, ne, hu⟩)
  constructor
  · intro u hu
    rw [tasks] at hu
    rcases List.mem_or_eq_of_mem_set hu with old | rfl
    · exact h.inRange u old
    · exact guards ▸ h.inRange t mem
  · intro j k u v at_j at_k ne
    rw [tasks, List.getElem?_set] at at_j at_k
    by_cases first : i = j
    · subst first
      rw [if_neg (fun same => ne same)] at at_k
      rw [if_pos rfl, if_pos (List.getElem?_eq_some_iff.mp at_i).1] at at_j
      obtain rfl := Option.some.inj at_j
      rw [others k ne.symm]
      exact clear k v at_k ne.symm
    · rw [if_neg first] at at_j
      by_cases second : i = k
      · subst second
        rw [if_pos rfl, if_pos (List.getElem?_eq_some_iff.mp at_i).1] at at_k
        obtain rfl := Option.some.inj at_k
        rw [others j (Ne.symm first)]
        exact List.disjoint_comm.mp (clear j u at_j (Ne.symm first))
      · rw [if_neg second] at at_k
        rw [others j (Ne.symm first), others k (Ne.symm second)]
        exact h.apart j k u v at_j at_k ne

theorem tasks_perform (env : Env) (order : WriteOrder) (rest : List OrderedStep) (step : OrderedStep) :
    (order.perform codec env rest step).1.tasks = order.tasks := by
  cases step <;> rfl

theorem unstarted_task (stripeFor : String → ℕ) (store : KeyValueStore) (route : OrderedRoute) :
    (route.task stripeFor store).started = false := by
  cases route <;> rfl

/-- A step of a task that has begun changes the steps of that task only. -/
theorem tasks_of_step {order order' : WriteOrder} {stripeFor : String → ℕ} {i : ℕ} {env : Env}
    {t : OrderedTask} (at_i : order.tasks[i]? = some t) (started : t.started = true)
    (next : order.step codec stripeFor (.run i env) = some order') :
    t.steps ≠ [] ∧ ∃ steps, order'.tasks = order.tasks.set i { t with steps } := by
  unfold WriteOrder.step at next
  dsimp only at next
  rw [Option.ite_none_left_eq_some, at_i] at next
  obtain ⟨-, next⟩ := next
  dsimp only at next
  rw [if_pos started] at next
  cases left : t.steps with
  | nil => simp only [left] at next; cases next
  | cons first rest =>
    simp only [left, Option.some.injEq] at next
    subst next
    refine ⟨nofun, (order.perform codec env rest first).2, ?_⟩
    dsimp only
    rw [tasks_perform]

/-- What a step of a task that has not begun does: it takes a stripe that no other task holds, or begins
with all its stripes. -/
theorem step_take {i : ℕ} (next : s.step codec hash (.take i) = some s') :
    ∃ t stripe, s.order.tasks[i]? = some t ∧ t.started = false ∧
      t.guards.stripes[s.taken i]? = some stripe ∧ ¬s.Elsewhere i stripe ∧
      s' = { s with taken := Function.update s.taken i (s.taken i + 1) } := by
  unfold StripedOrder.step at next
  dsimp only at next
  cases at_i : s.order.tasks[i]? with
  | none => simp only [at_i] at next; cases next
  | some t =>
    cases started : t.started with
    | true => simp only [at_i, started] at next; cases next
    | false =>
      cases wanted : t.guards.stripes[s.taken i]? with
      | none => simp only [at_i, started, wanted] at next; cases next
      | some stripe =>
        simp only [at_i, started, wanted, Option.ite_none_left_eq_some, Option.some.injEq] at next
        exact ⟨t, stripe, rfl, started, wanted, next.1, next.2.symm⟩

theorem step_run {i : ℕ} {env : Env} (next : s.step codec hash (.run i env) = some s') :
    ∃ t, s.order.tasks[i]? = some t ∧
      ((t.started = true ∧ ∃ order, s.order.step codec (stripeFor hash) (.run i env) = some order ∧
          s' = { s with order }) ∨
        (t.started = false ∧ t.guards.stripes.length ≤ s.taken i ∧ s.order.clock ≤ env.now ∧
          s' = { s with
            order := { s.order with
              clock := env.now, tasks := s.order.tasks.set i { t with started := true } } })) := by
  unfold StripedOrder.step at next
  dsimp only at next
  cases at_i : s.order.tasks[i]? with
  | none => simp only [at_i] at next; cases next
  | some t =>
    refine ⟨t, rfl, ?_⟩
    cases started : t.started with
    | true =>
      simp only [at_i, started, if_true, Option.map_eq_some_iff] at next
      obtain ⟨order, run, same⟩ := next
      exact .inl ⟨rfl, order, run, same.symm⟩
    | false =>
      simp only [at_i, started, Bool.false_eq_true, if_false, Option.ite_none_left_eq_some, not_or,
        not_lt, Option.some.injEq] at next
      exact .inr ⟨rfl, next.1.1, next.1.2, next.2.symm⟩

theorem stripes_subset (t : OrderedTask) (taken : ℕ) : t.stripes taken ⊆ t.guards.stripes := by
  intro x hx
  unfold OrderedTask.stripes at hx
  split at hx
  · exact List.mem_of_mem_take hx
  · split at hx
    · exact hx
    · cases hx

theorem Sound.step {a : StripedAction} (h : s.Sound) (next : s.step codec hash a = some s') : s'.Sound := by
  cases a with
  | spawn route =>
    obtain rfl := Option.some.inj next
    have held (i : ℕ) (t : OrderedTask)
        (at_i : (s.order.tasks ++ [route.task (stripeFor hash) s.order.store])[i]? = some t) :
        s.order.tasks[i]? = some t ∧ i ≠ s.order.tasks.length ∨
          t.stripes (Function.update s.taken s.order.tasks.length 0 i) = [] := by
      rw [List.getElem?_append] at at_i
      split at at_i
      case isTrue inside => exact .inl ⟨at_i, inside.ne⟩
      case isFalse outside =>
        rw [List.getElem?_singleton, Option.ite_none_right_eq_some, Option.some.injEq] at at_i
        obtain ⟨last, rfl⟩ := at_i
        obtain rfl : i = s.order.tasks.length := by omega
        right
        rw [Function.update_self, OrderedTask.stripes, unstarted_task]
        rfl
    constructor
    · intro u hu
      rcases List.mem_append.mp hu with old | new
      · exact h.inRange u old
      · obtain rfl := List.mem_singleton.mp new
        exact inRange_task hash s.order.store route
    · intro i j t u at_i at_j ne
      rcases held i t at_i with ⟨at_i, old⟩ | none
      · rcases held j u at_j with ⟨at_j, old'⟩ | none
        · dsimp only
          rw [Function.update_of_ne old, Function.update_of_ne old']
          exact h.apart i j t u at_i at_j ne
        · exact none ▸ List.disjoint_nil_right _
      · exact none ▸ List.disjoint_nil_left _
  | take i =>
    obtain ⟨t, stripe, at_i, started, wanted, free, rfl⟩ := step_take next
    have same : s.order.tasks = s.order.tasks.set i t := by
      obtain ⟨inside, rfl⟩ := List.getElem?_eq_some_iff.mp at_i
      exact (List.set_getElem_self inside).symm
    refine h.of_set at_i same rfl (fun j ne => Function.update_of_ne ne _ _) fun x hx new => ?_
    simp only [OrderedTask.stripes, started, Bool.not_false, if_true, Function.update_self] at hx new
    rw [List.take_add_one, wanted, List.mem_append] at hx
    obtain rfl := List.mem_singleton.mp (hx.resolve_left new)
    exact free
  | run i env =>
    obtain ⟨t, at_i, ⟨started, order, goes, rfl⟩ | ⟨started, all, -, rfl⟩⟩ := step_run next
    · obtain ⟨left, steps, tasks⟩ := tasks_of_step at_i started goes
      refine @Sound.of_set s _ h i t { t with steps } at_i tasks rfl (fun _ _ => rfl)
        fun x hx new => absurd ?_ new
      have inside : x ∈ t.guards.stripes := stripes_subset { t with steps } _ hx
      simpa [OrderedTask.stripes, OrderedTask.holds, started, left] using inside
    · refine @Sound.of_set s _ h i t { t with started := true } at_i rfl rfl (fun _ _ => rfl)
        fun x hx new => absurd ?_ new
      have inside : x ∈ t.guards.stripes := stripes_subset { t with started := true } _ hx
      simpa [OrderedTask.stripes, started, List.take_of_length_le all] using inside

/-! ## The refinement -/

/-- What a task does when it begins or goes on, `WriteOrder` does too. -/
theorem Sound.visible (h : s.Sound) {a : StripedAction} (next : s.step codec hash a = some s') :
    Runs.exec (WriteOrder.step codec (stripeFor hash)) s.order a.visible.toList = some s'.order := by
  cases a with
  | spawn route =>
    obtain rfl := Option.some.inj next
    rfl
  | take i =>
    obtain ⟨t, stripe, -, -, -, -, rfl⟩ := step_take next
    rfl
  | run i env =>
    refine Runs.exec_cons.mpr ⟨s'.order, ?_, rfl⟩
    obtain ⟨t, at_i, ⟨-, order, goes, rfl⟩ | ⟨started, all, now, rfl⟩⟩ := step_run next
    · exact goes
    · have free : (s.order.tasks.any fun u => u.holds && u.guards.clash t.guards) = false := by
        refine List.any_eq_false.mpr fun u hu both => ?_
        rw [Bool.and_eq_true] at both
        obtain ⟨holds, clash⟩ := both
        obtain ⟨j, at_j⟩ := List.mem_iff_getElem?.mp hu
        have begun : u.started = true := (Bool.and_eq_true_iff.mp holds).1
        have ne : j ≠ i := by
          rintro rfl
          obtain rfl : t = u := Option.some.inj (at_i.symm.trans at_j)
          exact absurd (started.symm.trans begun) (by decide)
        have apart := h.apart j i u t at_j at_i ne
        simp only [OrderedTask.stripes, begun, holds, started, List.take_of_length_le all,
          Bool.not_true, Bool.not_false, Bool.false_eq_true, if_true, if_false] at apart
        have quiet := Guards.not_clash (h.inRange u hu) (h.inRange t (List.mem_of_getElem? at_i)) apart
        exact absurd (clash.symm.trans quiet) (by decide)
      rw [WriteOrder.step, if_neg (by omega), at_i]
      simp only [started, free, Bool.false_eq_true, if_false]

theorem Sound.run (h : s.Sound) {actions : List StripedAction}
    (run : Runs.exec (StripedOrder.step codec hash) s actions = some s') :
    s'.Sound ∧ Runs.exec (WriteOrder.step codec (stripeFor hash)) s.order
      (actions.filterMap StripedAction.visible) = some s'.order := by
  induction actions generalizing s with
  | nil =>
    obtain rfl := Option.some.inj run
    exact ⟨h, rfl⟩
  | cons a actions ih =>
    obtain ⟨s₁, next, run⟩ := Runs.exec_cons.mp run
    obtain ⟨sound, rest⟩ := ih (h.step next) run
    have first := h.visible next
    refine ⟨sound, ?_⟩
    cases seen : a.visible with
    | none =>
      rw [List.filterMap_cons_none seen]
      rw [seen] at first
      exact Option.some.inj first ▸ rest
    | some action =>
      rw [List.filterMap_cons_some seen]
      rw [seen] at first
      exact Runs.exec_append.mpr ⟨s₁.order, first, rest⟩

theorem sound_start (store : KeyValueStore) : Sound ⟨{ store }, fun _ => 0⟩ :=
  ⟨fun _ mem => (by cases mem), fun _ _ _ _ none => (by cases none)⟩

/-! ## Progress -/

/-- A task of the write order as a holder of stripes, with those it has still to take. -/
def holder (t : OrderedTask) (taken : ℕ) : LockOrder.Holder ℕ where
  held := (t.guards.stripes.take taken).reverse
  todo := (t.guards.stripes.drop taken).map .acquire ++ t.guards.stripes.map .release
  ordered := by
    have sorted := t.guards.stripes_sorted
    have cut := List.take_append_drop taken t.guards.stripes
    rw [← cut, List.pairwise_append] at sorted
    obtain ⟨-, later, above⟩ := sorted
    refine LockOrder.ordered_acquires later (fun l hl m hm => above m (List.mem_reverse.mp hm) l hl) ?_
    have all : LockOrder.Ordered (t.guards.stripes ++ []) (t.guards.stripes.map .release ++ []) :=
      LockOrder.ordered_releases rfl
    rw [List.append_nil, List.append_nil] at all
    refine all.perm ?_
    rw [← List.reverse_append, cut]
    exact (List.reverse_perm _).symm

/-- A task at its end holds nothing; one that has begun has all its stripes. -/
def asHolder (t : OrderedTask) (taken : ℕ) : LockOrder.Holder ℕ :=
  if t.started && t.steps.isEmpty then ⟨[], [], rfl⟩
  else holder t (if t.started then t.guards.stripes.length else taken)

def holders (s : StripedOrder) : List (LockOrder.Holder ℕ) :=
  s.order.tasks.zipIdx.map fun q => asHolder q.1 (s.taken q.2)

theorem mem_held {t : OrderedTask} {taken x : ℕ} (hx : x ∈ t.stripes taken) :
    x ∈ (asHolder t taken).held := by
  unfold OrderedTask.stripes OrderedTask.holds at hx
  unfold asHolder holder
  cases started : t.started with
  | false => simpa [started] using hx
  | true =>
    cases left : t.steps.isEmpty with
    | true => simp [started, left] at hx
    | false => simpa [started, left] using hx

end StripedOrder

end Recached
