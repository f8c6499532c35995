import Recached.WriteOrder

/-!
# Boundaries of snapshots

Guards keep the frames of different tasks apart while they are under way, so that the logs and the
order of execution are the same trace.  `boundary_exact` says that a capture falls on a boundary of
its log whenever the tasks without guards keep clear of it.
-/

namespace Recached

open Lapse Traces KeyValueStore

variable {codec : Codec} {env : Env} {cmd : Command}

/-! ## Writes on different keys -/

theorem on_touchedKeys (codec : Codec) (env : Env) {ks : List String} (h : touchedKeys cmd = some ks) :
    (program codec env cmd).On {k | k ∈ ks} := by
  have notFlush : cmd ≠ .flushDb := by
    rintro rfl
    exact absurd h nofun
  have listed : (commandScope cmd).listed = ks := by
    unfold touchedKeys at h
    split at h
    · exact absurd rfl notFlush
    · exact Option.some.inj h
  exact listed ▸ program_on codec env notFlush

theorem Apart.symm {capped : Bool} {e e' : Emission} (h : Apart capped e e') : Apart capped e' e := by
  obtain ⟨uncapped, ks, ks', first, second, disjoint⟩ := h
  exact ⟨uncapped, ks', ks, second, first, disjoint.symm⟩

/-- Writes that are apart have one effect in either order. -/
theorem apply_comm {capped : Bool} {e e' : Emission} (h : Apart capped e e') (d : Data) :
    Emission.apply codec (Emission.apply codec d e) e' =
      Emission.apply codec (Emission.apply codec d e') e := by
  obtain ⟨-, ks, ks', first, second, disjoint⟩ := h
  exact Prog.run_comm (on_touchedKeys codec e.env first) (on_touchedKeys codec e'.env second)
    (fun k hk hk' => disjoint hk hk') _ _ d

/-- The guards of a write with a frame include the keys it touches. -/
theorem touched_of_frame (write : isWriteCommand cmd = true) {response : Value} {now : ℕ}
    (framed : broadcastFor cmd response now ≠ none) {keys : List String}
    (ordered : orderingKeys cmd = some keys) : ∃ ks, touchedKeys cmd = some ks ∧ ks ⊆ keys := by
  cases cmd
  case rlCheck | dedup => exact absurd rfl framed
  case flushDb => cases ordered
  all_goals
    obtain rfl := Option.some.inj ordered
    refine ⟨_, rfl, ?_⟩
    first
      | cases (write : false = true)
      | simp [commandScope, CommandScope.listed, primaryKeys]

/-! ## Stores without limits -/

theorem KeyValueStore.Uncapped.of_sameLimits {s s' : KeyValueStore} (h : s.Uncapped) (same : SameLimits s s') :
    s'.Uncapped :=
  ⟨same.1.trans h.1, same.2.1.trans h.2⟩

/-- The sweeper removes nothing that lives. -/
theorem removeExpired_live (now : ℕ) (keys : List String) (s : KeyValueStore) :
    (s.removeExpired now keys).live now = s.live now ∧ SameLimits s (s.removeExpired now keys) := by
  induction keys generalizing s with
  | nil => exact ⟨rfl, .refl s⟩
  | cons key keys ih =>
    rw [removeExpired, List.foldl_cons]
    cases found : s.data[key]? with
    | none => exact ih (s.syncKeyMetadata key)
    | some e =>
      dsimp only
      split_ifs with lapsed
      · obtain ⟨live, limits⟩ := ih (({ s with data := s.data.erase key }.adjustMemory
          (entrySize key e.value) 0).syncKeyMetadata key)
        refine ⟨live.trans ?_, .trans (adjustMemory_limits { s with data := s.data.erase key } _ 0) limits⟩
        have gone : s.live now key = none := by
          simp [KeyValueStore.live, Lapse.live, found, Lapse.settle, lapsed]
        have erased : Lapse.live now (s.data.erase key) = s.live now := by
          rw [live_erase]
          funext k
          by_cases h : k = key
          · simp [without, h, gone]
          · simp [without, h, KeyValueStore.live]
        rw [KeyValueStore.live, syncKeyMetadata, adjustMemory_data]
        exact erased
      · exact ih (s.syncKeyMetadata key)

theorem outcome_limits (step : OrderedStep) (s : KeyValueStore) :
    SameLimits s (step.outcome codec env s).1 := by
  cases step with
  | execute cmd => exact executeReporting_limits ..
  | replicate bytes =>
    simp only [OrderedStep.outcome]
    split
    · exact .refl s
    · next cmd decoded =>
      have limits : SameLimits s (execute codec env cmd s).2 :=
        executeReporting_limits ..
      split
      · next store refused =>
        rw [refused] at limits
        exact limits
      · next reply store ok done =>
        rw [done] at limits
        exact limits
  | sweep keys => exact (removeExpired_live env.now keys s).2.trans (tryEvictForMemory_limits ..)
  | enter | label | capture => exact .refl s

/-- Without limits a step makes no frame or does what the write behind its frame does. -/
theorem outcome_uncapped (step : OrderedStep) {s : KeyValueStore} (h : s.Uncapped) :
    (step.outcome codec env s).2 = [] ∨
      ∃ e, (step.outcome codec env s).2 = [e] ∧ e.env = env ∧
        (∀ cmd, step = .execute cmd → e.cmd = cmd ∧ ∃ reply, broadcastFor cmd reply env.now ≠ none) ∧
        (step.outcome codec env s).1.data = e.apply codec s.data := by
  cases step with
  | execute cmd =>
    have runs := executeReporting_uncapped codec env cmd h
    simp only [OrderedStep.outcome, emissions, runs.evicted, List.flatMap_nil, List.append_nil]
    cases framed : broadcastFor cmd (executeReporting codec env cmd s).1 env.now with
    | none => exact .inl rfl
    | some bytes =>
      refine .inr ⟨⟨env, cmd, bytes⟩, rfl, rfl, ?_, runs.data⟩
      rintro cmd' ⟨⟩
      exact ⟨rfl, _, by rw [framed]; exact nofun⟩
  | replicate bytes =>
    simp only [OrderedStep.outcome]
    split
    · exact .inl rfl
    · next cmd decoded =>
      have runs := executeReporting_uncapped codec env cmd h
      split
      · exact .inl rfl
      · next reply store ok done =>
        refine .inr ⟨⟨env, cmd, bytes⟩, rfl, rfl, nofun, ?_⟩
        have after : (executeReporting codec env cmd s).2.1 = store := congrArg Prod.snd done
        exact after ▸ runs.data
  | sweep keys =>
    have swept := h.of_sameLimits (removeExpired_live env.now keys s).2
    simp only [OrderedStep.outcome, swept.tryEvict, List.flatMap_nil, true_or]
  | enter | label | capture => exact .inl rfl

/-- A store holds, recorded attempts aside, what the writes behind some frames make of stored
entries. -/
def Follows (codec : Codec) (now : ℕ) (store : KeyValueStore) (base : Data) (es : List Emission) :
    Prop :=
  SameView (store.live now) (Lapse.live now (es.foldl (Emission.apply codec) base))

theorem Follows.wait {store : KeyValueStore} {base : Data} {es : List Emission} {now now' : ℕ}
    (h : Follows codec now store base es) (later : now ≤ now') : Follows codec now' store base es := by
  intro k
  have settled := h.settle now' k
  simp only [View.settle, KeyValueStore.live, Lapse.live, settle_settle later] at settled
  exact settled

theorem Follows.step {store : KeyValueStore} {base : Data} {es : List Emission} {now : ℕ}
    (h : Follows codec now store base es) (later : now ≤ env.now) (uncapped : store.Uncapped)
    (step : OrderedStep)
    (silent : (step.outcome codec env store).2 = [] →
      SameView ((step.outcome codec env store).1.live env.now) (store.live env.now)) :
    Follows codec env.now (step.outcome codec env store).1 base
      (es ++ (step.outcome codec env store).2) := by
  obtain none | ⟨e, one, rfl, -, data⟩ := @outcome_uncapped codec env step store uncapped
  · rw [none, List.append_nil]
    exact (silent none).trans (h.wait later)
  · rw [Follows, one, List.foldl_append, KeyValueStore.live, data]
    have now := h.wait later
    simp only [List.foldl_cons, List.foldl_nil, Emission.apply, live_run]
    exact perform_sameView codec e.env e.cmd now

/-! ## Guards and frames -/

variable {stripeFor : String → ℕ} {capped : Bool}

theorem clash_comm (g g' : Guards) : g.clash g' = g'.clash g := by
  cases g with
  | none => cases g' <;> rfl
  | some stripes =>
    cases g' with
    | none => rfl
    | some stripes' =>
      rw [Bool.eq_iff_iff]
      simp only [Guards.clash, List.any_eq_true, List.contains_iff_mem]
      exact ⟨fun ⟨k, h, h'⟩ => ⟨k, h', h⟩, fun ⟨k, h, h'⟩ => ⟨k, h', h⟩⟩

/-- The guards include every key that the write behind a frame touches. -/
def Covers (stripeFor : String → ℕ) (capped : Bool) (guards : Guards) (e : Emission) : Prop :=
  ∀ stripes, guards = some stripes → capped = false ∧
    ∃ ks, touchedKeys e.cmd = some ks ∧ ∀ k ∈ ks, stripeFor k ∈ stripes

/-- The guards include every key that orders a write. -/
def Permits (stripeFor : String → ℕ) (capped : Bool) (guards : Guards) (cmd : Command) : Prop :=
  ∀ stripes, guards = some stripes → capped = false ∧
    ∃ keys, orderingKeys cmd = some keys ∧ ∀ k ∈ keys, stripeFor k ∈ stripes

theorem permits_lock {commands : List Command} (mem : cmd ∈ commands.filter isWriteCommand)
    (extra : List String) :
    Permits stripeFor capped (if capped then none else lockCommandsAndKeys stripeFor commands extra)
      cmd := by
  intro stripes eq
  cases capped with
  | true => cases eq
  | false =>
    simp only [Bool.false_eq_true, if_false, lockCommandsAndKeys] at eq
    split_ifs at eq with every
    obtain rfl := Option.some.inj eq
    have listed := List.mem_map_of_mem (f := orderingKeys) mem
    refine ⟨rfl, ?_⟩
    cases ordered : orderingKeys cmd with
    | none =>
      rw [ordered] at listed
      exact absurd (List.any_eq_true.mpr ⟨none, listed, rfl⟩) every
    | some keys =>
      refine ⟨keys, rfl, fun k hk => List.mem_map_of_mem (List.mem_append_left _ ?_)⟩
      exact List.mem_flatMap.mpr ⟨some keys, ordered ▸ listed, hk⟩

/-- The guards of two tasks keep their frames apart. -/
theorem apart_of_clash {g g' : Guards} {e e' : Emission} (first : Covers stripeFor capped g e)
    (second : Covers stripeFor capped g' e') (disjoint : g.clash g' = false) (held : g ≠ some [])
    (held' : g' ≠ some []) : Apart capped e e' := by
  cases g with
  | none =>
    cases g' with
    | none => cases disjoint
    | some stripes' => cases stripes' <;> first | exact absurd rfl held' | cases disjoint
  | some stripes =>
    cases g' with
    | none => cases stripes <;> first | exact absurd rfl held | cases disjoint
    | some stripes' =>
      obtain ⟨uncapped, ks, touched, inside⟩ := first stripes rfl
      obtain ⟨-, ks', touched', inside'⟩ := second stripes' rfl
      refine ⟨uncapped, ks, ks', touched, touched', fun k hk hk' => ?_⟩
      have both : Guards.clash (some stripes) (some stripes') = true :=
        List.any_eq_true.mpr ⟨stripeFor k, inside k hk, List.contains_iff_mem.mpr (inside' k hk')⟩
      rw [both] at disjoint
      cases disjoint

/-! ## Tasks -/

def OrderedStep.isEnter : OrderedStep → Bool
  | .enter _ _ => true
  | _ => false

/-- What is known of every task: its steps fit its guards, and what it has to enter comes first. -/
structure Shaped (stripeFor : String → ℕ) (capped : Bool) (task : OrderedTask) : Prop where
  writes : ∀ cmd, .execute cmd ∈ task.steps →
    isWriteCommand cmd = true ∧ Permits stripeFor capped task.guards cmd
  frames : ∀ log e, .enter log e ∈ task.steps → task.guards ≠ some [] →
    Covers stripeFor capped task.guards e
  replicated : ∀ bytes, .replicate bytes ∈ task.steps → task.guards = some []
  swept : ∀ keys, .sweep keys ∈ task.steps → task.guards = none
  labels : ∀ log, .label log ∈ task.steps → task.guards = none ∧ task.steps = [.label log]
  captures : ∀ log boundary, .capture log boundary ∈ task.steps →
    task.guards = none ∧ task.steps = [.capture log boundary]
  order : task.steps.Pairwise fun a b => b.isEnter = true → a.isEnter = true
  idle : task.started = false → ∀ step ∈ task.steps, step.isEnter = false ∧
    ∀ log boundary, step ≠ .capture log boundary

theorem mem_underWay {log : BoundaryLog} {e : Emission} {task : OrderedTask} :
    e ∈ task.underWay log ↔ .enter log e ∈ task.steps := by
  rw [OrderedTask.underWay, List.mem_filterMap]
  constructor
  · rintro ⟨step, mem, eq⟩
    cases step with
    | enter log' e' =>
      simp only [OrderedStep.entering] at eq
      split_ifs at eq with same
      obtain rfl := Option.some.inj eq
      exact same ▸ mem
    | _ => cases eq
  · intro mem
    exact ⟨_, mem, by simp [OrderedStep.entering]⟩

theorem underWay_eq_nil {log : BoundaryLog} {task : OrderedTask}
    (none : ∀ step ∈ task.steps, step.isEnter = false) : task.underWay log = [] := by
  refine List.eq_nil_iff_forall_not_mem.mpr fun e mem => ?_
  exact absurd (none _ (mem_underWay.mp mem)) nofun

theorem underWay_made (log : BoundaryLog) (guards : Guards) (started : Bool) (made : List Emission)
    (rest : List OrderedStep) :
    OrderedTask.underWay log ⟨guards, started, made.flatMap Emission.enters ++ rest⟩ =
      made ++ OrderedTask.underWay log ⟨guards, started, rest⟩ := by
  simp only [OrderedTask.underWay, List.filterMap_append]
  congr 1
  induction made with
  | nil => rfl
  | cons e made ih =>
    rw [List.flatMap_cons, List.filterMap_append, ih]
    cases log <;> rfl

/-- A task that is to do something else than to enter a frame has none to enter. -/
theorem Shaped.rest {task : OrderedTask} (h : Shaped stripeFor capped task) {first : OrderedStep}
    {rest : List OrderedStep} (steps : task.steps = first :: rest) (other : first.isEnter = false) :
    ∀ step ∈ task.steps, step.isEnter = false := by
  have order := h.order
  rw [steps, List.pairwise_cons] at order
  intro step mem
  rw [steps] at mem
  obtain rfl | mem := List.mem_cons.mp mem
  · exact other
  · rw [← Bool.not_eq_true]
    intro enters
    rw [order.1 step mem enters] at other
    cases other

theorem shaped_task (stripeFor : String → ℕ) (store : KeyValueStore) (route : OrderedRoute) :
    Shaped stripeFor store.hasCapacityLimits (route.task stripeFor store) := by
  have writes (commands : List Command) (extra : List String) :
      Shaped stripeFor store.hasCapacityLimits
        { guards := if store.hasCapacityLimits then none
            else lockCommandsAndKeys stripeFor commands extra
          steps := (commands.filter isWriteCommand).map .execute } := by
    constructor
    case writes =>
      intro cmd mem
      obtain ⟨cmd', listed, eq⟩ := List.mem_map.mp mem
      obtain rfl := OrderedStep.execute.inj eq
      exact ⟨(List.mem_filter.mp listed).2, permits_lock listed extra⟩
    case order => exact List.pairwise_map.mpr (List.pairwise_of_forall fun _ _ => nofun)
    case idle =>
      intro _ step mem
      obtain ⟨cmd, -, rfl⟩ := List.mem_map.mp mem
      exact ⟨rfl, nofun⟩
    all_goals simp
  cases route with
  | client cmd => exact writes [(ServerState.unwrapDedup cmd).1] []
  | transaction queue watched => exact writes queue watched
  | replicated bytes | sweep keys | capture log =>
    constructor <;> simp [OrderedRoute.task, OrderedStep.isEnter]

/-- The guards of a task include the keys behind every frame it makes. -/
theorem Shaped.covers_made {store : KeyValueStore} {task : OrderedTask}
    (h : Shaped stripeFor store.hasCapacityLimits task) {step : OrderedStep} (mem : step ∈ task.steps)
    (guarded : task.guards ≠ some []) {e : Emission} (made : e ∈ (step.outcome codec env store).2) :
    Covers stripeFor store.hasCapacityLimits task.guards e := by
  intro stripes eq
  cases step with
  | execute cmd =>
    obtain ⟨write, permits⟩ := h.writes cmd mem
    obtain ⟨unlimited, keys, ordered, inside⟩ := permits stripes eq
    have uncapped := (uncapped_iff store).mpr unlimited
    obtain none | ⟨e', one, -, same, -⟩ :=
      @outcome_uncapped codec env (.execute cmd) store uncapped
    · rw [none] at made
      cases made
    · rw [one] at made
      obtain rfl := List.mem_singleton.mp made
      obtain ⟨rfl, reply, framed⟩ := same cmd rfl
      obtain ⟨ks, touched, sub⟩ := touched_of_frame write framed ordered
      exact ⟨unlimited, ks, touched, fun k hk => inside k (sub hk)⟩
  | replicate bytes => exact absurd (h.replicated bytes mem) guarded
  | sweep keys =>
    rw [h.swept keys mem] at eq
    cases eq
  | enter | label | capture => cases made

/-- What is known of the tasks together. -/
structure TasksSound (stripeFor : String → ℕ) (capped : Bool) (tasks : List OrderedTask) : Prop where
  shaped : ∀ t ∈ tasks, Shaped stripeFor capped t
  exclusive : tasks.Pairwise fun t t' =>
    t.holds = true → t'.holds = true → t.guards.clash t'.guards = false
  apart : tasks.Pairwise fun t t' =>
    ∀ log, ∀ e ∈ t.underWay log, ∀ log', ∀ e' ∈ t'.underWay log', Apart capped e e'

section

variable {front back : List OrderedTask} {t t' : OrderedTask}

theorem mem_replaced {x : OrderedTask} (h : x ∈ front ++ t :: back) : x = t ∨ x ∈ front ++ back := by
  obtain h | h := List.mem_append.mp h
  · exact .inr (List.mem_append_left _ h)
  · exact (List.mem_cons.mp h).imp_right (List.mem_append_right _)

theorem mem_others {x : OrderedTask} (h : x ∈ front ++ back) : x ∈ front ++ t :: back := by
  obtain h | h := List.mem_append.mp h
  · exact List.mem_append_left _ h
  · exact List.mem_append_right _ (List.mem_cons_of_mem _ h)

theorem pairwise_exclusive :
    (front ++ t :: back).Pairwise (fun t t' =>
        t.holds = true → t'.holds = true → t.guards.clash t'.guards = false) ↔
      (∀ x ∈ front ++ back, t.holds = true → x.holds = true → t.guards.clash x.guards = false) ∧
        (front ++ back).Pairwise fun t t' =>
          t.holds = true → t'.holds = true → t.guards.clash t'.guards = false := by
  rw [List.pairwise_middle fun h held held' => clash_comm _ _ ▸ h held' held, List.pairwise_cons]

theorem pairwise_apart :
    (front ++ t :: back).Pairwise (fun t t' =>
        ∀ log, ∀ e ∈ t.underWay log, ∀ log', ∀ e' ∈ t'.underWay log', Apart capped e e') ↔
      (∀ x ∈ front ++ back,
        ∀ log, ∀ e ∈ t.underWay log, ∀ log', ∀ e' ∈ x.underWay log', Apart capped e e') ∧
        (front ++ back).Pairwise fun t t' =>
          ∀ log, ∀ e ∈ t.underWay log, ∀ log', ∀ e' ∈ t'.underWay log', Apart capped e e' := by
  rw [List.pairwise_middle fun h log e he log' e' he' => (h log' e' he' log e he).symm,
    List.pairwise_cons]

/-- One task goes on. -/
theorem TasksSound.replace (h : TasksSound stripeFor capped (front ++ t :: back))
    (shaped : Shaped stripeFor capped t')
    (exclusive : ∀ x ∈ front ++ back, t'.holds = true → x.holds = true →
      t'.guards.clash x.guards = false)
    (apart : ∀ x ∈ front ++ back,
      ∀ log, ∀ e ∈ t'.underWay log, ∀ log', ∀ e' ∈ x.underWay log', Apart capped e e') :
    TasksSound stripeFor capped (front ++ t' :: back) where
  shaped x hx := by
    obtain rfl | hx := mem_replaced hx
    · exact shaped
    · exact h.shaped x (mem_others hx)
  exclusive := pairwise_exclusive.mpr ⟨exclusive, (pairwise_exclusive.mp h.exclusive).2⟩
  apart := pairwise_apart.mpr ⟨apart, (pairwise_apart.mp h.apart).2⟩

/-- The frames of one task under way move to the front. -/
theorem underWay_front (h : TasksSound stripeFor capped (front ++ t :: back)) (log : BoundaryLog) :
    Same (Apart capped) ((front ++ t :: back).flatMap (OrderedTask.underWay log))
      (t.underWay log ++ (front ++ back).flatMap (OrderedTask.underWay log)) := by
  rw [List.flatMap_append, List.flatMap_cons, List.flatMap_append]
  refine Same.exchange (fun a ha b hb => ?_) _
  obtain ⟨x, hx, ha⟩ := List.mem_flatMap.mp ha
  exact ((pairwise_apart.mp h.apart).1 x (List.mem_append_left _ hx) log b hb log a ha).symm

theorem split_at {tasks : List OrderedTask} {i : ℕ} (there : tasks[i]? = some t) :
    ∃ front back, tasks = front ++ t :: back ∧ tasks.eraseIdx i = front ++ back ∧
      ∀ t', tasks.set i t' = front ++ t' :: back := by
  obtain ⟨bound, eq⟩ := List.getElem?_eq_some_iff.mp there
  refine ⟨tasks.take i, tasks.drop (i + 1), ?_, List.eraseIdx_eq_take_drop_succ _ _, fun t' => ?_⟩
  · rw [← eq, List.getElem_cons_drop, List.take_append_drop]
  · rw [List.set_eq_take_append_cons_drop, if_pos bound]

end

/-! ## Every run -/

/-- What is known of a capture: the frames up to its boundary are the ones of its store, and the
others are those of the writes since. -/
structure CaptureSound (codec : Codec) (initial : Data) (s : WriteOrder) (c : Capture) : Prop where
  bound : c.boundary ≤ (s.entered c.log).length
  below : Same (Apart s.store.hasCapacityLimits) ((s.entered c.log).take c.boundary) c.executed
  above : ∃ later, s.executed = c.executed ++ later ∧
    Same (Apart s.store.hasCapacityLimits)
      ((s.entered c.log).drop c.boundary ++ s.underWay c.log) later ∧
    (s.store.Uncapped → Follows codec s.clock s.store c.store.data later)
  contents : s.store.Uncapped → Follows codec c.now c.store initial c.executed

structure WriteOrder.Sound (codec : Codec) (stripeFor : String → ℕ) (initial : Data) (s : WriteOrder) :
    Prop where
  tasks : TasksSound stripeFor s.store.hasCapacityLimits s.tasks
  trace : ∀ log,
    Same (Apart s.store.hasCapacityLimits) (s.entered log ++ s.underWay log) s.executed
  follows : s.store.Uncapped → Follows codec s.clock s.store initial s.executed
  labelled : ∀ t ∈ s.tasks, ∀ log boundary, .capture log boundary ∈ t.steps →
    (s.entered log).length = boundary ∧ s.underWay log = []
  captures : ∀ c ∈ s.captures, CaptureSound codec initial s c

theorem CaptureSound.exact {initial : Data} {s : WriteOrder} {c : Capture}
    (h : CaptureSound codec initial s c) : WriteOrder.Exact codec initial s c where
  below := h.below
  above := by
    obtain ⟨later, split, same, -⟩ := h.above
    exact ⟨later, split, same⟩
  contents uncapped := by
    rw [h.below.foldl_eq fun _ _ apart d => apply_comm apart d]
    exact h.contents uncapped
  later uncapped idle := by
    obtain ⟨later, -, same, follows⟩ := h.above
    rw [idle, List.append_nil] at same
    rw [same.foldl_eq fun _ _ apart d => apply_comm apart d]
    exact follows uncapped

section

variable {initial : Data} {s : WriteOrder} {front back : List OrderedTask} {t t' : OrderedTask}

/-- A step that neither makes nor enters a frame. -/
theorem Sound.goOn (h : s.Sound codec stripeFor initial) (split : s.tasks = front ++ t :: back)
    {now : ℕ} (later : s.clock ≤ now) {captures : List Capture}
    (tasks : TasksSound stripeFor s.store.hasCapacityLimits (front ++ t' :: back))
    (same : ∀ log, t'.underWay log = t.underWay log)
    (labelled : ∀ log boundary, .capture log boundary ∈ t'.steps →
      (s.entered log).length = boundary ∧ s.underWay log = [])
    (captured : ∀ c ∈ captures, CaptureSound codec initial s c) :
    WriteOrder.Sound codec stripeFor initial
      { s with clock := now, tasks := front ++ t' :: back, captures } := by
  have under (log : BoundaryLog) :
      (front ++ t' :: back).flatMap (OrderedTask.underWay log) = s.underWay log := by
    simp only [WriteOrder.underWay, split, List.flatMap_append, List.flatMap_cons, same]
  refine ⟨tasks, fun log => ?_, fun uncapped => (h.follows uncapped).wait later, ?_, ?_⟩
  · rw [WriteOrder.underWay, under]
    exact h.trace log
  · intro x hx log boundary mem
    rw [WriteOrder.underWay, under]
    obtain rfl | old := mem_replaced hx
    · exact labelled log boundary mem
    · exact h.labelled x (split ▸ mem_others old) log boundary mem
  · intro c hc
    obtain ⟨bound, below, ⟨rest, executed, above, follows⟩, contents⟩ := captured c hc
    refine ⟨bound, below, ⟨rest, executed, ?_, fun uncapped => (follows uncapped).wait later⟩, contents⟩
    rw [WriteOrder.underWay, under]
    exact above

/-- A frame goes from its task into a log. -/
theorem Sound.enter (h : s.Sound codec stripeFor initial) {log : BoundaryLog} {e : Emission}
    {rest : List OrderedStep} {guards : Guards} {started : Bool}
    (split : s.tasks = front ++ ⟨guards, started, .enter log e :: rest⟩ :: back) {now : ℕ}
    (later : s.clock ≤ now)
    (tasks : TasksSound stripeFor s.store.hasCapacityLimits (front ++ ⟨guards, started, rest⟩ :: back)) :
    WriteOrder.Sound codec stripeFor initial
      { s with
        clock := now
        tasks := front ++ ⟨guards, started, rest⟩ :: back
        entered := Function.update s.entered log (s.entered log ++ [e]) } := by
  have old := h.tasks
  rw [split] at old
  have first : OrderedTask.underWay log ⟨guards, started, .enter log e :: rest⟩ =
      e :: OrderedTask.underWay log ⟨guards, started, rest⟩ := by
    simp [OrderedTask.underWay, OrderedStep.entering]
  have other (log' : BoundaryLog) (ne : log' ≠ log) :
      (front ++ ⟨guards, started, rest⟩ :: back).flatMap (OrderedTask.underWay log') =
        s.underWay log' := by
    have skip : OrderedTask.underWay log' ⟨guards, started, .enter log e :: rest⟩ =
        OrderedTask.underWay log' ⟨guards, started, rest⟩ := by
      simp [OrderedTask.underWay, OrderedStep.entering, ne.symm]
    simp only [WriteOrder.underWay, split, List.flatMap_append, List.flatMap_cons, skip]
  -- the frame is first among those under way, up to exchanges
  have moved : Same (Apart s.store.hasCapacityLimits)
      (e :: (front ++ ⟨guards, started, rest⟩ :: back).flatMap (OrderedTask.underWay log))
      (s.underWay log) := by
    refine Same.trans (.cons e (underWay_front tasks log)) (Same.symm (fun _ _ => Apart.symm) ?_)
    have front := underWay_front old log
    rw [first] at front
    rw [WriteOrder.underWay, split]
    exact front
  have busy : s.underWay log ≠ [] := fun none => by
    rw [none] at moved
    exact List.cons_ne_nil _ _ (List.perm_nil.mp moved.perm)
  refine ⟨tasks, fun log' => ?_, fun uncapped => (h.follows uncapped).wait later, ?_, ?_⟩
  · dsimp only [WriteOrder.underWay]
    by_cases same : log' = log
    · subst same
      rw [Function.update_self, List.append_assoc, List.singleton_append]
      exact (Same.append_left _ moved).trans (h.trace log')
    · rw [Function.update_of_ne same, other log' same]
      exact h.trace log'
  · intro x hx log' boundary mem
    have before : (s.entered log').length = boundary ∧ s.underWay log' = [] := by
      obtain rfl | present := mem_replaced hx
      · exact h.labelled _ (split ▸ List.mem_append_right _ List.mem_cons_self) log' boundary
          (List.mem_cons_of_mem _ mem)
      · exact h.labelled x (split ▸ mem_others present) log' boundary mem
    have ne : log' ≠ log := fun same => busy (same ▸ before.2)
    dsimp only [WriteOrder.underWay]
    rw [Function.update_of_ne ne, other log' ne]
    exact before
  · intro c hc
    obtain ⟨bound, below, ⟨since, executed, above, follows⟩, contents⟩ := h.captures c hc
    by_cases same : c.log = log
    · refine ⟨?_, ?_, ⟨since, executed, ?_, fun uncapped => (follows uncapped).wait later⟩, contents⟩ <;>
        dsimp only [WriteOrder.underWay]
      · rw [same, Function.update_self, List.length_append, ← same]
        omega
      · rw [same, Function.update_self, ← same, List.take_append_of_le_length bound]
        exact below
      · rw [same, Function.update_self, ← same, List.drop_append_of_le_length bound,
          List.append_assoc, List.singleton_append]
        exact (Same.append_left _ (same ▸ moved)).trans above
    · refine ⟨?_, ?_, ⟨since, executed, ?_, fun uncapped => (follows uncapped).wait later⟩, contents⟩ <;>
        dsimp only [WriteOrder.underWay]
      · rw [Function.update_of_ne same]
        exact bound
      · rw [Function.update_of_ne same]
        exact below
      · rw [Function.update_of_ne same, other c.log same]
        exact above

theorem holds_of_enter (shaped : Shaped stripeFor capped t) {log : BoundaryLog} {e : Emission}
    (mem : .enter log e ∈ t.steps) : t.holds = true := by
  have started : t.started = true := by
    by_contra idle
    exact absurd (shaped.idle (Bool.not_eq_true _ ▸ idle) _ mem).1 nofun
  rw [OrderedTask.holds, started, Bool.true_and, Bool.not_eq_true', List.isEmpty_eq_false_iff]
  exact List.ne_nil_of_mem mem

theorem holds_of_capture (shaped : Shaped stripeFor capped t) {log : BoundaryLog} {boundary : ℕ}
    (mem : .capture log boundary ∈ t.steps) : t.holds = true := by
  have started : t.started = true := by
    by_contra idle
    exact (shaped.idle (Bool.not_eq_true _ ▸ idle) _ mem).2 log boundary rfl
  rw [OrderedTask.holds, started, Bool.true_and, Bool.not_eq_true', List.isEmpty_eq_false_iff]
  exact List.ne_nil_of_mem mem

theorem guarded_of_clash {g : Guards} (disjoint : g.clash none = false) : g = some [] := by
  cases g with
  | none => cases disjoint
  | some stripes => cases stripes <;> first | rfl | cases disjoint

/-- The shape of a task that has just made some frames. -/
theorem Shaped.made {guards : Guards} {first : OrderedStep} {rest : List OrderedStep}
    (h : Shaped stripeFor capped ⟨guards, true, first :: rest⟩) (other : first.isEnter = false)
    {made : List Emission}
    (covers : guards ≠ some [] → ∀ e ∈ made, Covers stripeFor capped guards e)
    (maintains : ∀ log boundary, .label log ∉ rest ∧ .capture log boundary ∉ rest) :
    Shaped stripeFor capped ⟨guards, true, made.flatMap Emission.enters ++ rest⟩ := by
  have none : ∀ step ∈ rest, step.isEnter = false :=
    fun step mem => h.rest rfl other step (List.mem_cons_of_mem _ mem)
  have split {step : OrderedStep} (mem : step ∈ made.flatMap Emission.enters ++ rest) :
      (∃ log, ∃ e ∈ made, step = .enter log e) ∨ step ∈ rest := by
    refine (List.mem_append.mp mem).imp_left fun mem => ?_
    obtain ⟨e, he, mem⟩ := List.mem_flatMap.mp mem
    simp only [Emission.enters, List.mem_cons, List.not_mem_nil, or_false] at mem
    obtain rfl | rfl := mem <;> exact ⟨_, e, he, rfl⟩
  constructor
  case writes =>
    intro cmd mem
    obtain ⟨log, e, -, eq⟩ | mem := split mem
    · cases eq
    · exact h.writes cmd (List.mem_cons_of_mem _ mem)
  case frames =>
    intro log e mem guarded
    obtain ⟨log', e', he', eq⟩ | mem := split mem
    · obtain ⟨-, rfl⟩ := OrderedStep.enter.inj eq
      exact covers guarded e he'
    · exact absurd (none _ mem) nofun
  case replicated =>
    intro bytes mem
    obtain ⟨log, e, -, eq⟩ | mem := split mem
    · cases eq
    · exact h.replicated bytes (List.mem_cons_of_mem _ mem)
  case swept =>
    intro keys mem
    obtain ⟨log, e, -, eq⟩ | mem := split mem
    · cases eq
    · exact h.swept keys (List.mem_cons_of_mem _ mem)
  case labels =>
    intro log mem
    obtain ⟨log, e, -, eq⟩ | mem := split mem
    · cases eq
    · exact absurd mem (maintains log 0).1
  case captures =>
    intro log boundary mem
    obtain ⟨log, e, -, eq⟩ | mem := split mem
    · cases eq
    · exact absurd mem (maintains log boundary).2
  case order =>
    refine List.pairwise_append.mpr ⟨?_, (List.pairwise_cons.mp h.order).2, fun a _ b hb enters => ?_⟩
    · refine List.pairwise_of_forall_mem_list fun a ha b _ _ => ?_
      obtain ⟨e, -, ha⟩ := List.mem_flatMap.mp ha
      simp only [Emission.enters, List.mem_cons, List.not_mem_nil, or_false] at ha
      obtain rfl | rfl := ha <;> rfl
    · rw [none b hb] at enters
      cases enters
  case idle => exact nofun

/-- The shape of a task that goes on to its next step. -/
theorem Shaped.tail {guards : Guards} {started : Bool} {first : OrderedStep} {rest : List OrderedStep}
    (h : Shaped stripeFor capped ⟨guards, started, first :: rest⟩) :
    Shaped stripeFor capped ⟨guards, started, rest⟩ where
  writes cmd mem := h.writes cmd (List.mem_cons_of_mem _ mem)
  frames log e mem := h.frames log e (List.mem_cons_of_mem _ mem)
  replicated bytes mem := h.replicated bytes (List.mem_cons_of_mem _ mem)
  swept keys mem := h.swept keys (List.mem_cons_of_mem _ mem)
  labels log mem := by
    obtain rfl := (List.cons.inj (h.labels log (List.mem_cons_of_mem _ mem)).2).2
    cases mem
  captures log boundary mem := by
    obtain rfl := (List.cons.inj (h.captures log boundary (List.mem_cons_of_mem _ mem)).2).2
    cases mem
  order := (List.pairwise_cons.mp h.order).2
  idle idle step mem := h.idle idle step (List.mem_cons_of_mem _ mem)

/-- A task takes its guards. -/
theorem Sound.start (h : s.Sound codec stripeFor initial) {guards : Guards} {steps : List OrderedStep}
    (split : s.tasks = front ++ ⟨guards, false, steps⟩ :: back) {now : ℕ} (later : s.clock ≤ now)
    (free : ∀ x ∈ s.tasks, x.holds = true → x.guards.clash guards = false) :
    WriteOrder.Sound codec stripeFor initial
      { s with clock := now, tasks := front ++ ⟨guards, true, steps⟩ :: back } := by
  have tasks := h.tasks
  rw [split] at tasks
  have mine := tasks.shaped _ (List.mem_append_right _ List.mem_cons_self)
  have shaped : Shaped stripeFor s.store.hasCapacityLimits ⟨guards, true, steps⟩ :=
    ⟨mine.writes, mine.frames, mine.replicated, mine.swept, mine.labels, mine.captures, mine.order, nofun⟩
  refine Sound.goOn h split later (tasks.replace shaped (fun x hx _ held => ?_) ?_) (fun _ => rfl)
    (fun log boundary mem => ?_) h.captures
  · rw [clash_comm]
    exact free x (split ▸ mem_others hx) held
  · exact (pairwise_apart.mp tasks.apart).1
  · exact absurd rfl ((mine.idle rfl _ mem).2 log boundary)

/-- A capture notes how many frames its log has; none is under way. -/
theorem Sound.label (h : s.Sound codec stripeFor initial) {guards : Guards} {log : BoundaryLog}
    {rest : List OrderedStep} (split : s.tasks = front ++ ⟨guards, true, .label log :: rest⟩ :: back)
    {now : ℕ} (later : s.clock ≤ now)
    (clear : ∀ x ∈ front ++ back, OrderedTask.Unguarded ⟨guards, true, .label log :: rest⟩ x →
      x.underWay log = []) :
    WriteOrder.Sound codec stripeFor initial
      { s with
        clock := now
        tasks := front ++ ⟨guards, true, .capture log (s.entered log).length :: rest⟩ :: back } := by
  have tasks := h.tasks
  rw [split] at tasks
  have mine := tasks.shaped _ (List.mem_append_right _ List.mem_cons_self)
  obtain ⟨rfl, only⟩ := mine.labels log List.mem_cons_self
  obtain rfl := (List.cons.inj only).2
  have disjoint := (pairwise_exclusive.mp tasks.exclusive).1
  have idle : s.underWay log = [] := by
    rw [WriteOrder.underWay, split]
    refine List.flatMap_eq_nil_iff.mpr fun x hx => ?_
    obtain rfl | hx := mem_replaced hx
    · exact underWay_eq_nil (mine.rest rfl rfl)
    · refine List.eq_nil_iff_forall_not_mem.mpr fun e he => ?_
      have held := disjoint x hx rfl (holds_of_enter (tasks.shaped x (mem_others hx)) (mem_underWay.mp he))
      rw [clash_comm] at held
      rw [clear x hx (.inr (guarded_of_clash held))] at he
      cases he
  have shaped : Shaped stripeFor s.store.hasCapacityLimits
      ⟨none, true, [.capture log (s.entered log).length]⟩ := by
    constructor <;> simp
  refine Sound.goOn h split later (tasks.replace shaped (fun x hx _ => disjoint x hx rfl) ?_)
    (fun _ => rfl) (fun log' boundary mem => ?_) h.captures
  · exact (pairwise_apart.mp tasks.apart).1
  · obtain ⟨rfl, rfl⟩ := OrderedStep.capture.inj (List.mem_singleton.mp mem)
    exact ⟨rfl, idle⟩

/-- A capture reads the store. -/
theorem Sound.capture (h : s.Sound codec stripeFor initial) {guards : Guards} {log : BoundaryLog}
    {boundary : ℕ} {rest : List OrderedStep}
    (split : s.tasks = front ++ ⟨guards, true, .capture log boundary :: rest⟩ :: back) {now : ℕ}
    (later : s.clock ≤ now) :
    WriteOrder.Sound codec stripeFor initial
      { s with
        clock := now
        tasks := front ++ ⟨guards, true, rest⟩ :: back
        captures := s.captures ++ [⟨log, boundary, now, s.store, s.executed⟩] } := by
  have tasks := h.tasks
  rw [split] at tasks
  have mine := tasks.shaped _ (List.mem_append_right _ List.mem_cons_self)
  obtain rfl := (List.cons.inj (mine.captures log boundary List.mem_cons_self).2).2
  obtain ⟨length, idle⟩ := h.labelled _ (split ▸ List.mem_append_right _ List.mem_cons_self) log boundary
    List.mem_cons_self
  have trace := h.trace log
  rw [idle, List.append_nil] at trace
  refine Sound.goOn h split later (tasks.replace mine.tail nofun nofun) (fun _ => rfl) nofun fun c hc => ?_
  obtain hc | hc := List.mem_append.mp hc
  · exact h.captures c hc
  · obtain rfl := List.mem_singleton.mp hc
    refine ⟨length.ge, ?_, ⟨[], (List.append_nil _).symm, ?_, fun _ => .refl _⟩, fun uncapped => ?_⟩
    · rw [← length, List.take_length]
      exact trace
    · rw [← length, List.drop_length, idle]
      exact .nil
    · exact (h.follows uncapped).wait later

/-- A step that executes, and what its task has to enter afterwards. -/
theorem Sound.write (h : s.Sound codec stripeFor initial) {guards : Guards} {first : OrderedStep}
    {rest : List OrderedStep} (split : s.tasks = front ++ ⟨guards, true, first :: rest⟩ :: back)
    (later : s.clock ≤ env.now) (other : first.isEnter = false)
    (maintains : ∀ log boundary, first ≠ .label log ∧ first ≠ .capture log boundary)
    (silent : s.store.Uncapped → (first.outcome codec env s.store).2 = [] →
      SameView ((first.outcome codec env s.store).1.live env.now) (s.store.live env.now))
    (clear : ∀ x ∈ front ++ back, OrderedTask.Unguarded ⟨guards, true, first :: rest⟩ x →
      ∀ e ∈ (first.outcome codec env s.store).2, ¬x.Labelled ∧
        ∀ log, ∀ e' ∈ x.underWay log, Apart s.store.hasCapacityLimits e e') :
    WriteOrder.Sound codec stripeFor initial
      { s with
        store := (first.outcome codec env s.store).1
        clock := env.now
        tasks := front ++
          ⟨guards, true, (first.outcome codec env s.store).2.flatMap Emission.enters ++ rest⟩ :: back
        executed := s.executed ++ (first.outcome codec env s.store).2 } := by
  have limits := (@outcome_limits codec env first s.store).hasCapacityLimits
  have step := fun base es now (h : Follows codec now s.store base es) (later : now ≤ env.now)
    (uncapped : s.store.Uncapped) => h.step later uncapped first (silent uncapped)
  have shaped : ∀ e ∈ (first.outcome codec env s.store).2, guards ≠ some [] →
      Covers stripeFor s.store.hasCapacityLimits guards e := by
    intro e he guarded
    have mine := h.tasks.shaped _ (split ▸ List.mem_append_right _ List.mem_cons_self)
    have mem : first ∈ OrderedTask.steps ⟨guards, true, first :: rest⟩ := List.mem_cons_self
    exact mine.covers_made mem guarded he
  generalize (first.outcome codec env s.store).2 = made at *
  generalize (first.outcome codec env s.store).1 = store at *
  have tasks := h.tasks
  rw [split] at tasks
  have mine := tasks.shaped _ (List.mem_append_right _ List.mem_cons_self)
  have none : ∀ step ∈ rest, step.isEnter = false :=
    fun step mem => mine.rest rfl other step (List.mem_cons_of_mem _ mem)
  have single : ∀ log boundary, .label log ∉ rest ∧ .capture log boundary ∉ rest := by
    intro log boundary
    refine ⟨fun mem => ?_, fun mem => ?_⟩
    · have only := (mine.labels log (List.mem_cons_of_mem _ mem)).2
      exact (maintains log boundary).1 (List.cons.inj only).1
    · have only := (mine.captures log boundary (List.mem_cons_of_mem _ mem)).2
      exact (maintains log boundary).2 (List.cons.inj only).1
  have disjoint (x : OrderedTask) (hx : x ∈ front ++ back) (held : x.holds = true) :
      guards.clash x.guards = false :=
    (pairwise_exclusive.mp tasks.exclusive).1 x hx rfl held
  have present (x : OrderedTask) (hx : x ∈ front ++ back) :
      Shaped stripeFor s.store.hasCapacityLimits x :=
    tasks.shaped x (mem_others hx)
  have apart (x : OrderedTask) (hx : x ∈ front ++ back) :
      ∀ e ∈ made, ∀ log, ∀ e' ∈ x.underWay log, Apart s.store.hasCapacityLimits e e' := by
    intro e he log e' he'
    by_cases free : OrderedTask.Unguarded ⟨guards, true, first :: rest⟩ x
    · exact (clear x hx free e he).2 log e' he'
    · obtain ⟨guarded, guarded'⟩ := not_or.mp free
      have enters := mem_underWay.mp he'
      exact apart_of_clash (shaped e he guarded) ((present x hx).frames log e' enters guarded')
        (disjoint x hx (holds_of_enter (present x hx) enters)) guarded guarded'
  have under (log : BoundaryLog) :
      OrderedTask.underWay log ⟨guards, true, made.flatMap Emission.enters ++ rest⟩ = made := by
    rw [underWay_made, underWay_eq_nil none, List.append_nil]
  have tasks' : TasksSound stripeFor s.store.hasCapacityLimits
      (front ++ ⟨guards, true, made.flatMap Emission.enters ++ rest⟩ :: back) := by
    refine tasks.replace (mine.made other (fun guarded e he => shaped e he guarded) single)
      (fun x hx _ held => disjoint x hx held) fun x hx log e he => ?_
    rw [under] at he
    exact apart x hx e he
  have grown (log : BoundaryLog) : Same (Apart s.store.hasCapacityLimits)
      ((front ++ ⟨guards, true, made.flatMap Emission.enters ++ rest⟩ :: back).flatMap
        (OrderedTask.underWay log)) (s.underWay log ++ made) := by
    have before : s.underWay log = (front ++ back).flatMap (OrderedTask.underWay log) := by
      have idle := @underWay_eq_nil log _ (mine.rest rfl other)
      simp only [WriteOrder.underWay, split, List.flatMap_append, List.flatMap_cons, idle,
        List.nil_append]
    refine (underWay_front tasks' log).trans ?_
    rw [under, before]
    have swap := @Same.exchange _ (Apart s.store.hasCapacityLimits) made
      ((front ++ back).flatMap (OrderedTask.underWay log)) (fun e he e' he' => ?_) []
    · simpa only [List.append_nil] using swap
    · obtain ⟨x, hx, he'⟩ := List.mem_flatMap.mp he'
      exact apart x hx e he log e' he'
  have uncapped_of (uncapped : store.Uncapped) : s.store.Uncapped :=
    (uncapped_iff _).mpr (limits ▸ (uncapped_iff _).mp uncapped)
  constructor <;> dsimp only [WriteOrder.underWay]
  case tasks => exact limits.symm ▸ tasks'
  case trace =>
    intro log
    rw [limits]
    have extended := (h.trace log).append_right made
    rw [List.append_assoc] at extended
    exact (Same.append_left _ (grown log)).trans extended
  case follows =>
    intro uncapped
    exact step _ _ _ (h.follows (uncapped_of uncapped)) later (uncapped_of uncapped)
  case labelled =>
    intro x hx log boundary mem
    obtain rfl | old := mem_replaced hx
    · obtain ⟨e, -, eq⟩ | mem := (List.mem_append.mp mem).imp_left List.mem_flatMap.mp
      · simp [Emission.enters] at eq
      · exact absurd mem (single log boundary).2
    · have before := h.labelled x (split ▸ mem_others old) log boundary mem
      refine ⟨before.1, ?_⟩
      cases made with
      | nil =>
        have same := grown log
        rw [before.2] at same
        exact List.perm_nil.mp same.perm
      | cons e made =>
        have held := disjoint x old (holds_of_capture (present x old) mem)
        rw [((present x old).captures log boundary mem).1] at held
        have free : OrderedTask.Unguarded ⟨guards, true, first :: rest⟩ x :=
          .inl (guarded_of_clash held)
        exact absurd ⟨log, boundary, mem⟩ (clear x old free e List.mem_cons_self).1
  case captures =>
    intro c hc
    obtain ⟨bound, below, ⟨since, executed, above, follows⟩, contents⟩ := h.captures c hc
    refine ⟨bound, limits.symm ▸ below, ⟨since ++ made, ?_, ?_, fun uncapped => ?_⟩, fun uncapped => ?_⟩
    · dsimp only
      rw [executed, List.append_assoc]
    · dsimp only [WriteOrder.underWay]
      rw [limits]
      have extended := above.append_right made
      rw [List.append_assoc] at extended
      exact (Same.append_left _ (grown c.log)).trans extended
    · exact step _ _ _ (follows (uncapped_of uncapped)) later (uncapped_of uncapped)
    · exact contents (uncapped_of uncapped)

theorem Sound.step (h : s.Sound codec stripeFor initial) {action : OrderedAction}
    (guarded : s.Guarded codec action) {s' : WriteOrder}
    (next : s.step codec stripeFor action = some s') : s'.Sound codec stripeFor initial := by
  cases action with
  | spawn route =>
    obtain rfl := Option.some.inj next
    have shaped := shaped_task stripeFor s.store route
    have idle : (route.task stripeFor s.store).started = false := by cases route <;> rfl
    have none (log : BoundaryLog) : (route.task stripeFor s.store).underWay log = [] :=
      underWay_eq_nil fun step mem => (shaped.idle idle step mem).1
    have under (log : BoundaryLog) : (s.tasks ++ [route.task stripeFor s.store]).flatMap
        (OrderedTask.underWay log) = s.underWay log := by
      simp [WriteOrder.underWay, none]
    constructor <;> dsimp only [WriteOrder.underWay]
    case tasks =>
      constructor
      case shaped =>
        intro t ht
        obtain ht | ht := List.mem_append.mp ht
        · exact h.tasks.shaped t ht
        · exact List.mem_singleton.mp ht ▸ shaped
      case exclusive =>
        refine List.pairwise_append.mpr ⟨h.tasks.exclusive, List.pairwise_singleton _ _, ?_⟩
        intro t _ t' ht' _ held
        rw [List.mem_singleton.mp ht', OrderedTask.holds, idle] at held
        cases held
      case apart =>
        refine List.pairwise_append.mpr ⟨h.tasks.apart, List.pairwise_singleton _ _, ?_⟩
        intro t _ t' ht' log e _ log' e' he'
        rw [List.mem_singleton.mp ht', none] at he'
        cases he'
    case trace =>
      intro log
      rw [under]
      exact h.trace log
    case follows => exact h.follows
    case labelled =>
      intro t ht log boundary mem
      rw [under]
      obtain ht | ht := List.mem_append.mp ht
      · exact h.labelled t ht log boundary mem
      · rw [List.mem_singleton.mp ht] at mem
        exact absurd rfl ((shaped.idle idle _ mem).2 log boundary)
    case captures =>
      intro c hc
      obtain ⟨bound, below, ⟨since, executed, above, follows⟩, contents⟩ := h.captures c hc
      refine ⟨bound, below, ⟨since, executed, ?_, follows⟩, contents⟩
      dsimp only [WriteOrder.underWay]
      rw [under]
      exact above
  | run i env =>
    simp only [WriteOrder.step] at next
    split_ifs at next with back
    have later : s.clock ≤ env.now := by omega
    split at next
    · cases next
    · next task there =>
      obtain ⟨guards, started, steps⟩ := task
      obtain ⟨front, back, split, others, replaced⟩ := split_at there
      have tasks := h.tasks
      rw [split] at tasks
      have mine := tasks.shaped _ (List.mem_append_right _ List.mem_cons_self)
      simp only [replaced] at next
      cases started with
      | false =>
        simp only [Bool.false_eq_true, if_false] at next
        split_ifs at next with busy
        obtain rfl := Option.some.inj next
        refine Sound.start h split later fun x hx held => ?_
        rw [← Bool.not_eq_true]
        exact fun clash => busy (List.any_eq_true.mpr ⟨x, hx, by rw [held, clash]; rfl⟩)
      | true =>
        cases steps with
        | nil => cases next
        | cons first rest =>
          rw [WriteOrder.Guarded, there, others] at guarded
          obtain ⟨silent, clear⟩ := guarded
          obtain rfl := Option.some.inj next
          cases first with
          | enter log e =>
            dsimp only [WriteOrder.perform]
            rw [replaced]
            refine Sound.enter h split later (tasks.replace mine.tail ?_ ?_)
            · exact fun x hx _ => (pairwise_exclusive.mp tasks.exclusive).1 x hx rfl
            · intro x hx log' e' he'
              refine (pairwise_apart.mp tasks.apart).1 x hx log' e' (mem_underWay.mpr ?_)
              exact List.mem_cons_of_mem _ (mem_underWay.mp he')
          | label log =>
            dsimp only [WriteOrder.perform]
            rw [replaced]
            exact Sound.label h split later fun x hx free => (clear x hx free).2 log rfl
          | capture log boundary =>
            dsimp only [WriteOrder.perform]
            rw [replaced]
            exact Sound.capture h split later
          | execute | replicate | sweep =>
            dsimp only [WriteOrder.perform]
            rw [replaced]
            exact Sound.write h split later rfl (fun _ _ => ⟨nofun, nofun⟩) silent
              fun x hx free => (clear x hx free).1

end

/-- In every guarded run every capture falls on a boundary of its log. -/
theorem boundary_exact {stripeFor : String → ℕ} {store : KeyValueStore} {actions : List OrderedAction}
    {s : WriteOrder} (run : Runs.exec (WriteOrder.step codec stripeFor) { store } actions = some s)
    (guarded : Runs.Each (WriteOrder.step codec stripeFor) (WriteOrder.Guarded codec) { store } actions) :
    ∀ c ∈ s.captures, s.Exact codec store.data c := by
  have start : WriteOrder.Sound codec stripeFor store.data { store } :=
    ⟨⟨by simp, List.Pairwise.nil, List.Pairwise.nil⟩, fun _ => .nil, fun _ => .refl _, by simp, by simp⟩
  have sound := Runs.invariant (fun _ _ _ h guarded next => Sound.step h guarded next) run guarded start
  exact fun c hc => (sound.captures c hc).exact

/-- A client's `SET` and then a save. -/
def setThenSave : List OrderedAction :=
  [.spawn (.client (.set "a" [49] {})), .run 0 (.fixed 0), .run 0 (.fixed 0), .run 0 (.fixed 0),
    .run 0 (.fixed 0), .spawn (.capture .file), .run 1 (.fixed 0), .run 1 (.fixed 0), .run 1 (.fixed 0)]

theorem boundary_exact_save :
    ∃ s c, s.captures = [c] ∧ c.boundary = 1 ∧ WriteOrder.Exact .literals ∅ s c := by
  obtain ⟨s, c, run, captures, boundary⟩ : ∃ s c,
      Runs.exec (WriteOrder.step .literals fun _ => 0) { store := {} } setThenSave = some s ∧
        s.captures = [c] ∧ c.boundary = 1 := ⟨_, _, rfl, rfl, rfl⟩
  refine ⟨s, c, captures, boundary, boundary_exact run ?_ c (captures ▸ List.mem_singleton_self c)⟩
  refine ⟨trivial, fun s₁ spawned => ?_⟩
  obtain rfl := Option.some.inj spawned
  refine ⟨trivial, fun s₂ started => ?_⟩
  obtain rfl := Option.some.inj started
  refine ⟨⟨fun _ none => absurd none nofun, nofun⟩, fun s₃ executed => ?_⟩
  obtain rfl := Option.some.inj executed
  refine ⟨⟨fun _ _ => .refl _, nofun⟩, fun s₄ entered => ?_⟩
  obtain rfl := Option.some.inj entered
  refine ⟨⟨fun _ _ => .refl _, nofun⟩, fun s₅ entered => ?_⟩
  obtain rfl := Option.some.inj entered
  refine ⟨trivial, fun s₆ spawned => ?_⟩
  obtain rfl := Option.some.inj spawned
  refine ⟨trivial, fun s₇ started => ?_⟩
  obtain rfl := Option.some.inj started
  refine ⟨⟨fun _ _ => .refl _, fun t ht _ => ⟨nofun, fun log _ => ?_⟩⟩, fun s₈ labelled => ?_⟩
  · obtain rfl := List.mem_singleton.mp ht
    rfl
  obtain rfl := Option.some.inj labelled
  refine ⟨⟨fun _ _ => .refl _, fun _ _ _ => ⟨nofun, nofun⟩⟩, fun _ _ => trivial⟩

def pushFrame : Bytes := respPush [Text.asBytes "LPUSH", Text.asBytes "l", Text.asBytes "a"]

/-- A frame of the primary that a full synchronisation falls into: it is executed before the store is
read and numbered afterwards. -/
def straddled : List OrderedAction :=
  [.spawn (.replicated pushFrame), .run 0 (.fixed 0), .run 0 (.fixed 0),
    .spawn (.capture .replication), .run 1 (.fixed 0), .run 1 (.fixed 0), .run 1 (.fixed 0),
    .run 0 (.fixed 0), .run 0 (.fixed 0)]

/-- The snapshot with boundary 0 holds the element already, and the frame after the boundary pushes it
again. -/
theorem replicated_frame_applied_twice :
    ∃ s c, Runs.exec (WriteOrder.step .literals fun _ => 0) { store := {} } straddled = some s ∧
      s.captures = [c] ∧ c.boundary = 0 ∧ ¬s.Exact .literals ∅ c ∧
      (s.store.live 0 "l").map Cell.value = some (.list [[97]]) ∧
      (Lapse.live 0 ((s.entered .replication).foldl (Emission.apply .literals) c.store.data) "l").map
        Cell.value = some (.list [[97], [97]]) := by
  refine ⟨_, _, rfl, rfl, rfl, fun exact => ?_, rfl, rfl⟩
  have lengths := exact.below.perm.length_eq
  exact absurd lengths (by decide)

end Recached
