import Recached.MemoryCap

/-!
# The victims of eviction

The volatile index may miss keys, but in every reachable state the keys it lists carry a deadline.
Every victim is drawn while the index is up to date, before a command writes or after, so that it is
eligible when it is removed.
-/

namespace Recached

open Text Lapse KeyValueStore

/-- An entry that a policy may evict at a time. -/
def Eligible (policy : EvictionPolicy) (now : ℕ) (e : Entry) : Prop :=
  e.isExpired now = true ∨
    match policy with
    | .noEviction => False
    | .volatileLru | .volatileTtl => e.expiresAtMs.isSome = true
    | .allKeysLru | .allKeysRandom => True

/-- Entries are taken out one after the other, each eligible when its turn comes. -/
inductive Removals (policy : EvictionPolicy) (now : ℕ) : Data → Data → List String → Prop
  | none (d : Data) : Removals policy now d d []
  | next {d d' : Data} {key : String} {e : Entry} {victims : List String} (found : d[key]? = some e)
    (eligible : Eligible policy now e) (rest : Removals policy now (d.erase key) d' victims) :
    Removals policy now d d' (key :: victims)

/-! ## The volatile index -/

namespace KeyValueStore

/-- The keys of the volatile index carry a deadline. -/
structure VolatileListed (s : KeyValueStore) : Prop where
  sound : s.index.Sound
  deadline : ∀ key ∈ s.index.volatile.keys, ttlOf s.data key = some true

variable {s s' : KeyValueStore} {now : ℕ}

theorem VolatileListed.of_empty (index : s.index = {}) : s.VolatileListed := by
  refine ⟨index ▸ KeyIndex.sound_empty, fun key listed => ?_⟩
  rw [index] at listed
  cases listed

theorem syncKeys_volatile (keys : List String) (sound : s.index.Sound)
    (others : ∀ k ∉ keys, k ∈ s.index.volatile.keys → ttlOf s.data k = some true) :
    (keys.foldl .syncKeyMetadata s).VolatileListed := by
  induction keys generalizing s with
  | nil => exact ⟨sound, fun k => others k List.not_mem_nil⟩
  | cons key keys ih =>
    refine ih (sound.sync key _) fun k away listed => ?_
    by_cases same : k = key
    · subst same
      exact (KeyIndex.listed_sync sound k _).volatile.mp listed
    · exact others k (by simp [same, away]) ((KeyIndex.mem_volatile_sync sound same _).mp listed)

theorem VolatileListed.commit (h : s.VolatileListed) {keys : List String} {data : Data} (before : ℕ)
    (agree : ∀ k ∉ keys, data[k]? = s.data[k]?) : (s.commit keys before data).VolatileListed := by
  refine syncKeys_volatile keys ?_ fun k away listed => ?_
  · rw [adjustMemory_index]
    exact h.sound
  · rw [adjustMemory_index] at listed
    rw [adjustMemory_data, ttlOf, agree k away]
    exact h.deadline k listed

theorem VolatileListed.erase (h : s.VolatileListed) (freed : ℕ) (key : String) :
    (({ s with data := s.data.erase key }.adjustMemory freed 0).syncKeyMetadata key).VolatileListed := by
  refine syncKeys_volatile [key] ?_ fun k away listed => ?_
  · rw [adjustMemory_index]
    exact h.sound
  · have ne : compare key k ≠ .eq := fun eq =>
      away (List.mem_singleton.mpr (Std.LawfulEqOrd.eq_of_compare eq).symm)
    rw [adjustMemory_index] at listed
    rw [adjustMemory_data, ttlOf, Std.ExtTreeMap.getElem?_erase, if_neg ne]
    exact h.deadline k listed

theorem VolatileListed.evictOne (h : s.VolatileListed) {sample : List ℕ} {key : String}
    (chosen : s.evictOne now sample = some (key, s')) : s'.VolatileListed := by
  obtain ⟨-, -, -, rfl⟩ := evictOne_spec chosen
  exact h.erase _ key

theorem VolatileListed.evictions (h : s.VolatileListed) {victims : List String}
    (chain : Evictions now s s' victims) : s'.VolatileListed :=
  chain.invariant (fun _ _ _ _ h chosen => h.evictOne chosen) h

theorem VolatileListed.removeExpired (h : s.VolatileListed) (now : ℕ) (keys : List String) :
    (s.removeExpired now keys).VolatileListed := by
  induction keys generalizing s with
  | nil => exact h
  | cons key keys ih =>
    rw [KeyValueStore.removeExpired, List.foldl_cons]
    refine ih ?_
    cases s.data[key]? with
    | none => exact syncKeys_volatile [key] h.sound fun k _ => h.deadline k
    | some e =>
      dsimp only
      split_ifs
      · exact h.erase _ key
      · exact syncKeys_volatile [key] h.sound fun k _ => h.deadline k

theorem VolatileListed.looked (h : s.VolatileListed) (looked : Looked s s') : s'.VolatileListed := by
  refine ⟨looked.index ▸ h.sound, fun key listed => ?_⟩
  have cell := congrArg (Option.map fun c => c.expiresAtMs.isSome) (looked.cell key)
  rw [Option.map_map, Option.map_map] at cell
  rw [looked.index] at listed
  exact cell.trans (h.deadline key listed)

theorem VolatileListed.rebuild (now : ℕ) (s : KeyValueStore) : (s.rebuildMetadata now).VolatileListed := by
  have distinct : ((s.data.toList.filter fun e => !e.2.isExpired now).map Prod.fst).Nodup := by
    refine (List.filter_sublist.map _).nodup ?_
    rw [Std.ExtTreeMap.map_fst_toList_eq_keys]
    exact Std.ExtTreeMap.nodup_keys
  obtain ⟨sound, listed, others⟩ := foldl_sync_listed _ {} KeyIndex.sound_empty distinct
  refine ⟨sound, fun key volatile => ?_⟩
  by_cases there : key ∈ (s.data.toList.filter fun e => !e.2.isExpired now).map Prod.fst
  · obtain ⟨⟨k, e⟩, held, rfl⟩ := List.mem_map.mp there
    have ttl := (listed (k, e) held).volatile.mp volatile
    have found := Std.ExtTreeMap.mem_toList_iff_getElem?_eq_some.mp (List.mem_filter.mp held).1
    rw [rebuildMetadata, ttlOf, found]
    exact ttl
  · have absent := others key there none (KeyIndex.listed_empty key)
    cases absent.volatile.mp volatile

/-! ## Chains of evictions -/

/-- A sampled key that has a weight is eligible. -/
theorem VolatileListed.eligible (h : s.VolatileListed) {key : String}
    (evicts : s.evictionPolicy ≠ .noEviction) (sampled : key ∈ s.victims.keys)
    (weighed : (s.evictionWeight now key).isSome) :
    ∃ e, s.data[key]? = some e ∧ Eligible s.evictionPolicy now e := by
  obtain ⟨e, found, -⟩ := evictionWeight_isSome weighed
  refine ⟨e, found, .inr ?_⟩
  have deadline (volatile : VolatilePolicy s.evictionPolicy) : e.expiresAtMs.isSome = true := by
    rw [victims_volatile volatile] at sampled
    have ttl := h.deadline key sampled
    rw [ttlOf, found] at ttl
    exact Option.some.inj ttl
  cases policy : s.evictionPolicy with
  | noEviction => exact evicts policy
  | allKeysLru | allKeysRandom => trivial
  | volatileLru => exact deadline (.inl policy)
  | volatileTtl => exact deadline (.inr policy)

/-- The victims of a chain of evictions were eligible one after the other. -/
theorem Evictions.removals (h : s.VolatileListed) {victims : List String}
    (chain : Evictions now s s' victims) : Removals s.evictionPolicy now s.data s'.data victims := by
  induction chain with
  | none s => exact .none s.data
  | @next s _ s'' key _ sample first _ ih =>
    have rest := ih (h.evictOne first)
    rw [(evictOne_limits first).2.2] at rest
    obtain ⟨evicts, sampled, weighed, rfl⟩ := evictOne_spec first
    obtain ⟨e, found, eligible⟩ := h.eligible evicts sampled weighed
    refine .next found eligible ?_
    change Removals s.evictionPolicy now (({ s with data := s.data.erase key } :
      KeyValueStore).adjustMemory _ 0).data s''.data _ at rest
    rwa [adjustMemory_data] at rest

end KeyValueStore

/-! ## One command -/

variable {codec : Codec} {env : Env} {cmd : Command} {s : KeyValueStore}

theorem KeyValueStore.VolatileListed.execute (h : s.VolatileListed) :
    (executeReporting codec env cmd s).2.1.VolatileListed := by
  have room := h.evictions (@makeRoom_evictions env cmd s)
  have books := executeReporting_books codec env cmd s
  generalize executeReporting codec env cmd s = r at books ⊢
  obtain ⟨reply, s', victims⟩ := r
  cases books with
  | looked scope looked => exact h.looked looked
  | flushed flush => exact .of_empty rfl
  | rebuilt dedup scope chain _ => exact (VolatileListed.rebuild env.now s).evictions chain
  | refused outgrows => exact VolatileListed.rebuild env.now s
  | full scope full chain _ => exact (room.commit _ fun _ _ => rfl).evictions chain
  | wrote scope made _ chain _ =>
    exact (room.commit _ fun k hk => run_outside_scope scope _ hk).evictions chain

theorem KeyValueStore.VolatileListed.apply (h : s.VolatileListed) (op : StoreOp) :
    (op.apply codec s).VolatileListed := by
  cases op with
  | execute env cmd => exact h.execute
  | sweepExpired now => exact h.removeExpired now _
  | sweepExpiredBudget now start limit => exact h.removeExpired now _
  | tryEvictForMemory env =>
    obtain ⟨victims, -, chain⟩ := tryEvictForMemory_evictions env [] s
    exact h.evictions chain
  | restore now entries => exact VolatileListed.rebuild now _
  | replace now entries => exact VolatileListed.rebuild now _

/-- From one state of the entries to another: eligible keys are removed, the command writes or is not
carried out, and eligible keys are removed again; the victims are the keys removed, in order. -/
def TakesEligible (codec : Codec) (env : Env) (cmd : Command) (policy : EvictionPolicy) (d d' : Data)
    (victims : List String) : Prop :=
  ∃ pre post d₁ d₂, victims = pre ++ post ∧ Removals policy env.now d d₁ pre ∧
    (d₂ = ((program codec env cmd).run env.now d₁).2 ∨
      ∀ k : String, d₂[k]?.map Lapse.Entry.toCell = d₁[k]?.map Lapse.Entry.toCell) ∧
    Removals policy env.now d₂ d' post

theorem KeyValueStore.VolatileListed.takesEligible (h : s.VolatileListed) :
    TakesEligible codec env cmd s.evictionPolicy s.data (executeReporting codec env cmd s).2.1.data
      (executeReporting codec env cmd s).2.2 := by
  have roomChain := @makeRoom_evictions env cmd s
  have room := h.evictions roomChain
  have before := roomChain.removals h
  have books := executeReporting_books codec env cmd s
  generalize executeReporting codec env cmd s = r at books ⊢
  obtain ⟨reply, s', victims⟩ := r
  cases books with
  | looked scope looked => exact ⟨[], [], s.data, s'.data, rfl, .none _, .inr looked.cell, .none _⟩
  | flushed flush =>
    subst flush
    exact ⟨[], [], s.data, ∅, rfl, .none _, .inl rfl, .none _⟩
  | rebuilt dedup scope chain _ =>
    have after := chain.removals (VolatileListed.rebuild env.now s)
    exact ⟨[], victims, s.data, s.data, rfl, .none _, .inr fun _ => rfl, after⟩
  | refused outgrows => exact ⟨[], [], s.data, s.data, rfl, .none _, .inr fun _ => rfl, .none _⟩
  | full scope full chain _ =>
    have after := chain.removals (room.commit _ fun _ _ => rfl)
    rw [commit_data, (commit_limits ..).2.2, roomChain.limits.2.2] at after
    exact ⟨_, _, _, _, rfl, before, .inr fun _ => rfl, after⟩
  | wrote scope made _ chain _ =>
    have after := chain.removals (room.commit _ fun k hk => run_outside_scope scope _ hk)
    rw [commit_data, (commit_limits ..).2.2, roomChain.limits.2.2] at after
    exact ⟨_, _, _, _, rfl, before, .inl rfl, after⟩

/-! ## Runs -/

/-- In every reachable store, whatever the limits, the policy and the samples, a command evicts only
keys that are eligible when they are removed, and reports each removal. -/
theorem evicts_eligible (codec : Codec) (maxKeys maxMemoryBytes : Option ℕ) (policy : EvictionPolicy)
    (sample : ℕ) (ops : List StoreOp) (s : KeyValueStore)
    (run : Runs.exec (storeStep codec) (.withConfig maxKeys maxMemoryBytes policy sample) ops = some s)
    (env : Env) (cmd : Command) :
    TakesEligible codec env cmd policy s.data (executeReporting codec env cmd s).2.1.data
      (executeReporting codec env cmd s).2.2 := by
  have kept := Runs.invariant_of_step (P := fun s : KeyValueStore => s.VolatileListed ∧
      SameSettings (.withConfig maxKeys maxMemoryBytes policy sample) s)
    (fun s op s' h next => ?_) run ⟨.of_empty rfl, .refl _, rfl⟩
  · have policy_eq : s.evictionPolicy = policy := kept.2.1.2.2
    rw [← policy_eq]
    exact kept.1.takesEligible
  · obtain rfl := Option.some.inj next
    exact ⟨h.1.apply op, h.2.trans (op.apply_settings codec s)⟩

theorem evicts_eligible_set :
    let s := (StoreOp.execute (.fixed 0) (.pSetEx "a" 10 [49])).apply .literals
      (.withConfig (some 1) none .volatileTtl 10)
    (executeReporting .literals (.fixed 5) (.set "b" [50] {}) s).2.2 = ["a"] ∧
      TakesEligible .literals (.fixed 5) (.set "b" [50] {}) .volatileTtl s.data
        (executeReporting .literals (.fixed 5) (.set "b" [50] {}) s).2.1.data ["a"] :=
  ⟨by decide, evicts_eligible .literals (some 1) none .volatileTtl 10
    [.execute (.fixed 0) (.pSetEx "a" 10 [49])] _ rfl (.fixed 5) (.set "b" [50] {})⟩

end Recached
