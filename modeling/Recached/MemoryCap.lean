import Recached.Index

/-!
# The cap on memory

With exact books the loop of evictions ends below the cap unless the policy is a volatile one and the
entries without a deadline exceed the cap by themselves: these policies have then no victim left, and
only `NoEviction` takes the write back.
-/

namespace Recached

open Text Lapse KeyValueStore

/-! ## When there is no victim -/

theorem leastWeight_eq_none {candidates : List (String × ℕ)} (h : leastWeight candidates = none) :
    candidates = [] := by
  cases candidates with
  | nil => rfl
  | cons c rest =>
    unfold leastWeight at h
    split at h
    · split_ifs at h
    · cases h

theorem exists_samplePosition {sample : List ℕ} {len take : ℕ} (some : 0 < len) (wanted : 0 < take) :
    ∃ i ∈ samplePositions sample len take, i < len := by
  have bounded : ∀ i ∈ sample.map (· % len) ++ List.range len, i < len := by
    intro i mem
    obtain drawn | ranged := List.mem_append.mp mem
    · obtain ⟨j, -, rfl⟩ := List.mem_map.mp drawn
      exact Nat.mod_lt j some
    · exact List.mem_range.mp ranged
  obtain ⟨i, rest, drawn⟩ : ∃ i rest, (sample.map (· % len) ++ List.range len).eraseDups = i :: rest := by
    refine List.exists_cons_of_ne_nil fun empty => ?_
    have mem : 0 ∈ (sample.map (· % len) ++ List.range len).eraseDups :=
      List.mem_eraseDups.mpr (List.mem_append_right _ (List.mem_range.mpr some))
    rw [empty] at mem
    cases mem
  obtain ⟨take, rfl⟩ := Nat.exists_eq_succ_of_ne_zero wanted.ne'
  refine ⟨i, ?_, bounded i (List.mem_eraseDups.mp (by rw [drawn]; exact List.mem_cons_self))⟩
  rw [samplePositions, List.mem_insertionSort, drawn]
  exact List.mem_cons_self

namespace KeyValueStore

variable {s s' : KeyValueStore} {now : ℕ}

/-- Every key that the policy may sample has a weight. -/
theorem Indexed.weighed (h : s.Indexed) (evicts : s.evictionPolicy ≠ .noEviction) {key : String}
    (listed : key ∈ s.victims.keys) : (s.evictionWeight now key).isSome := by
  unfold victims at listed
  unfold evictionWeight
  split_ifs at listed with volatile
  · have ttl : ttlOf s.data key = some true := ((h.listed key).volatile).mp listed
    obtain ⟨e, found, deadline⟩ := Option.map_eq_some_iff.mp ttl
    simp only [found]
    split_ifs
    · rfl
    · obtain lru | ttl := Bool.or_eq_true_iff.mp volatile
      · simp [of_decide_eq_true lru]
      · simp [of_decide_eq_true ttl, deadline]
  · have stored := ((h.listed key).all).mp listed
    obtain ⟨e, found⟩ := Option.isSome_iff_exists.mp ((Option.isSome_map ..).symm.trans stored)
    simp only [found]
    split_ifs
    · rfl
    · cases policy : s.evictionPolicy <;> simp [policy] at evicts volatile ⊢

theorem exists_candidate {sample : List ℕ} {want : ℕ} (some : 0 < s.victims.keys.length)
    (wanted : 0 < want) : ∃ key ∈ s.indexedCandidates sample
      (s.evictionPolicy = .volatileLru || s.evictionPolicy = .volatileTtl) want, key ∈ s.victims.keys := by
  have source : (if (s.evictionPolicy = .volatileLru || s.evictionPolicy = .volatileTtl : Bool) then
      s.index.volatile.keys else s.index.all.keys) = s.victims.keys := by
    unfold victims
    split_ifs <;> rfl
  obtain ⟨i, drawn, inside⟩ := @exists_samplePosition sample s.victims.keys.length
    (min want s.victims.keys.length) some (by omega)
  refine ⟨s.victims.keys[i], List.mem_filterMap.mpr ⟨i, ?_, ?_⟩, List.getElem_mem inside⟩
  · rw [source]
    exact drawn
  · rw [source]
    exact List.getElem?_eq_getElem inside

theorem Indexed.victims_of_stuck (h : s.Indexed) (evicts : s.evictionPolicy ≠ .noEviction)
    (sampled : 0 < s.evictionSample) {sample : List ℕ} (stuck : s.evictOne now sample = none) :
    s.victims.keys = [] := by
  by_contra some
  have positive : 0 < s.victims.keys.length := List.length_pos_iff.mpr some
  unfold evictOne at stuck
  rw [if_neg evicts] at stuck
  dsimp only at stuck
  split at stuck
  · next least =>
    have none := List.filterMap_eq_nil_iff.mp (leastWeight_eq_none least)
    have wanted : 0 < if s.evictionPolicy = .allKeysRandom then 1 else s.evictionSample := by
      split_ifs
      · exact Nat.one_pos
      · exact sampled
    obtain ⟨key, drawn, listed⟩ := @exists_candidate s sample _ positive wanted
    have weighed := @Indexed.weighed s now h evicts key listed
    rw [none key drawn] at weighed
    cases weighed
  · cases stuck

/-! ## Entries without a deadline -/

/-- What the entries without a deadline occupy. -/
def occupiedForever (data : Data) : ℕ := occupied (data.filter fun _ e => e.expiresAtMs.isNone)

theorem occupiedForever_le (data : Data) : occupiedForever data ≤ occupied data :=
  Totals.total_filter_le entryWeight _ data

def VolatilePolicy (policy : EvictionPolicy) : Prop := policy = .volatileLru ∨ policy = .volatileTtl

theorem victims_volatile (volatile : VolatilePolicy s.evictionPolicy) : s.victims = s.index.volatile := by
  obtain lru | ttl := volatile
  · simp [victims, lru]
  · simp [victims, ttl]

theorem victims_all (other : ¬ VolatilePolicy s.evictionPolicy) : s.victims = s.index.all := by
  obtain ⟨notLru, notTtl⟩ := not_or.mp other
  simp [victims, notLru, notTtl]

/-- A volatile policy leaves the entries without a deadline. -/
theorem Indexed.evictOne_forever (h : s.Indexed) (volatile : VolatilePolicy s.evictionPolicy)
    {sample : List ℕ} {key : String} (chosen : s.evictOne now sample = some (key, s')) :
    occupiedForever s'.data = occupiedForever s.data := by
  obtain ⟨-, listed, -, rfl⟩ := evictOne_spec chosen
  rw [victims_volatile volatile, (h.listed key).volatile] at listed
  obtain ⟨e, found, deadline⟩ := Option.map_eq_some_iff.mp listed
  have same : (s.data.erase key).filter (fun _ e => e.expiresAtMs.isNone) =
      s.data.filter fun _ e => e.expiresAtMs.isNone := by
    refine Std.ExtTreeMap.ext_getElem? fun k => ?_
    rw [Std.ExtTreeMap.getElem?_filter', Std.ExtTreeMap.getElem?_filter',
      Std.ExtTreeMap.getElem?_erase]
    split_ifs with here
    · obtain rfl := Std.LawfulEqOrd.eq_of_compare here
      have lapses : e.expiresAtMs.isNone = false := Option.isNone_eq_false_iff.mpr deadline
      rw [found, Option.filter_some, lapses]
      rfl
    · rfl
  change occupiedForever (({ s with data := s.data.erase key } : KeyValueStore).adjustMemory _ 0).data = _
  rw [adjustMemory_data]
  exact congrArg occupied same

theorem Indexed.evictions_forever (h : s.Indexed) (volatile : VolatilePolicy s.evictionPolicy)
    {victims : List String} (chain : Evictions now s s' victims) :
    occupiedForever s'.data = occupiedForever s.data := by
  induction chain with
  | none _ => rfl
  | next sample first _ ih =>
    have indexed := h.evictions (.next sample first (.none _))
    have policy := (evictOne_limits first).2.2
    exact (ih indexed (policy ▸ volatile)).trans (h.evictOne_forever volatile first)

theorem Evictions.sample {victims : List String} (chain : Evictions now s s' victims) :
    s'.evictionSample = s.evictionSample := by
  induction chain with
  | none _ => rfl
  | next sample first _ ih =>
    obtain ⟨-, -, -, rfl⟩ := evictOne_spec first
    rw [ih]
    unfold syncKeyMetadata adjustMemory
    split_ifs <;> rfl

theorem Evictions.of_noEviction {victims : List String} (chain : Evictions now s s' victims)
    (never : s.evictionPolicy = .noEviction) : s' = s ∧ victims = [] := by
  cases chain with
  | none _ => exact ⟨rfl, rfl⟩
  | next sample first _ => exact absurd never (evictOne_spec first).1

/-- At rest, an evicting store is within its cap exactly if the entries that its policy leaves are. -/
theorem Indexed.rests_iff (h : s.Indexed) (accounted : s.Accounted) (sampled : 0 < s.evictionSample)
    (evicts : s.evictionPolicy ≠ .noEviction) {limit : ℕ} (cap : s.maxMemoryBytes = some limit)
    (rests : s.Rests now) :
    s.memoryBytes ≤ limit ↔ (VolatilePolicy s.evictionPolicy → occupiedForever s.data ≤ limit) := by
  constructor
  · intro within _
    exact (occupiedForever_le s.data).trans (accounted.symm.le.trans within)
  · intro fits
    obtain below | ⟨sample, stuck⟩ := rests limit cap
    · exact below.trans (Nat.sub_le _ _)
    · have none := h.victims_of_stuck evicts sampled stuck
      by_cases volatile : VolatilePolicy s.evictionPolicy
      · have forever : s.data.filter (fun _ e => e.expiresAtMs.isNone) = s.data := by
          rw [Std.ExtTreeMap.filter_eq_self_iff]
          intro k hk
          rw [victims_volatile volatile] at none
          have unlisted := (not_congr (h.listed k).volatile).mp (by rw [none]; exact List.not_mem_nil)
          have found := Std.ExtTreeMap.getElem?_eq_some_getElem hk
          simpa [ttlOf, found] using unlisted
        have within := fits volatile
        rw [occupiedForever, forever] at within
        exact accounted.le.trans within
      · have empty : s.data = ∅ := by
          refine Std.ExtTreeMap.ext_getElem? fun k => ?_
          rw [victims_all volatile] at none
          have unlisted := (not_congr (h.listed k).all).mp (by rw [none]; exact List.not_mem_nil)
          simpa [ttlOf] using unlisted
        rw [accounted, empty]
        exact (Totals.total_empty entryWeight).le.trans (Nat.zero_le _)

theorem rebuildMetadata_le (accounted : s.Accounted) (now : ℕ) :
    (s.rebuildMetadata now).memoryBytes ≤ s.memoryBytes := by
  rw [rebuildMetadata_memory, accounted]
  exact Totals.total_filter_le entryWeight _ s.data

end KeyValueStore

/-! ## One command -/

variable {codec : Codec} {env : Env} {cmd : Command} {s : KeyValueStore}

/-- Under a volatile policy, what the command leaves without a deadline fits. -/
def ForeverFits (codec : Codec) (env : Env) (cmd : Command) (limit : ℕ) (s : KeyValueStore) : Prop :=
  VolatilePolicy s.evictionPolicy → (makeRoom env cmd s).1 = true →
    occupiedForever ((program codec env cmd).run env.now (makeRoom env cmd s).2.1.data).2 ≤ limit

theorem memoryCap_step {limit : ℕ} (indexed : s.Indexed) (accounted : s.Accounted)
    (sampled : 0 < s.evictionSample) (cap : s.maxMemoryBytes = some limit)
    (small : s.memoryBytes ≤ limit) (spares : SparesOwn env cmd s)
    (writes : mutationScope cmd ≠ .readOnly) :
    (executeReporting codec env cmd s).2.1.memoryBytes ≤ limit ↔ ForeverFits codec env cmd limit s := by
  have roomChain := @makeRoom_evictions env cmd s
  have room := accounted.evictions roomChain
  have books := executeReporting_books codec env cmd s
  generalize executeReporting codec env cmd s = r at books ⊢
  obtain ⟨reply, s', victims⟩ := r
  cases books with
  | looked scope looked => exact absurd scope writes
  | flushed flush =>
    refine iff_of_true (Nat.zero_le _) fun _ _ => ?_
    subst flush
    exact (Totals.total_empty entryWeight).le.trans (Nat.zero_le _)
  | rebuilt dedup scope chain _ =>
    refine iff_of_true (chain.evicts.memory.trans ((rebuildMetadata_le accounted _).trans small)) ?_
    subst dedup
    intro _ _
    rw [makeRoom_of_not_capped env s rfl (by rintro _ ⟨⟩)]
    exact (occupiedForever_le s.data).trans (accounted.symm.le.trans small)
  | refused outgrows =>
    refine iff_of_true ((rebuildMetadata_le accounted _).trans small) fun volatile _ => ?_
    rw [outgrows.1] at volatile
    rcases volatile with lru | ttl
    · cases lru
    · cases ttl
  | full scope full chain _ =>
    refine iff_of_true ?_ fun _ made => absurd (full.symm.trans made) Bool.false_ne_true
    rw [footprint_makeRoom scope spares] at chain
    have fewer := chain.evicts.memory
    have before := roomChain.evicts.memory
    rw [commit_memory] at fewer
    dsimp only at fewer ⊢
    omega
  | wrote scope made fits chain rests =>
    rw [footprint_makeRoom scope spares] at chain
    have limits := roomChain.limits.trans (commit_limits (scopeKeys cmd)
      (footprint (scopeKeys cmd) (makeRoom env cmd s).2.1.data)
      ((program codec env cmd).run env.now (makeRoom env cmd s).2.1.data).2 _)
    have outside (k : String) (hk : k ∉ scopeKeys cmd) :=
      @run_outside_scope codec env cmd _ scope (makeRoom env cmd s).2.1.data k hk
    by_cases never : s.evictionPolicy = .noEviction
    · obtain ⟨rfl, -⟩ := chain.of_noEviction (limits.2.2.trans never)
      refine iff_of_true ?_ fun volatile _ => ?_
      · have same : (makeRoom env cmd s).2.1 = s := congrArg Prod.fst (makeRoom_noEviction never)
        rw [same]
        by_contra past
        refine fits ⟨never, made, small.trans_lt (not_le.mp past), limit, cap, not_le.mp past⟩
      · rw [never] at volatile
        rcases volatile with lru | ttl
        · cases lru
        · cases ttl
    · have committed := (indexed.evictions roomChain).commit
        (footprint (scopeKeys cmd) (makeRoom env cmd s).2.1.data) outside
      have exact' := (room.commit (nodup_scopeKeys cmd) outside).evictions chain
      have limits' := limits.trans chain.limits
      have sample : s'.evictionSample = s.evictionSample := by
        obtain ⟨memory, index, eq⟩ := commit_parts (scopeKeys cmd)
          (footprint (scopeKeys cmd) (makeRoom env cmd s).2.1.data)
          ((program codec env cmd).run env.now (makeRoom env cmd s).2.1.data).2
          (makeRoom env cmd s).2.1
        rw [chain.sample, eq]
        exact roomChain.sample
      rw [(committed.evictions chain).rests_iff exact' (sample ▸ sampled)
        (limits'.2.2 ▸ never) (limits'.2.1.trans cap) rests, limits'.2.2]
      unfold ForeverFits
      constructor
      · intro within volatile _
        have kept := committed.evictions_forever (limits.2.2 ▸ volatile) chain
        rw [commit_data] at kept
        exact kept ▸ within volatile
      · intro within volatile
        have kept := committed.evictions_forever (limits.2.2 ▸ volatile) chain
        rw [commit_data] at kept
        exact kept ▸ within volatile made

/-! ## Runs -/

/-- The stores are configured alike. -/
def SameSettings (s s' : KeyValueStore) : Prop :=
  SameLimits s s' ∧ s'.evictionSample = s.evictionSample

theorem SameSettings.trans {s s' s'' : KeyValueStore} (h : SameSettings s s') (h' : SameSettings s' s'') :
    SameSettings s s'' :=
  ⟨h.1.trans h'.1, h'.2.trans h.2⟩

theorem KeyValueStore.Evictions.settings {now : ℕ} {s s' : KeyValueStore} {victims : List String}
    (chain : Evictions now s s' victims) : SameSettings s s' :=
  ⟨chain.limits, chain.sample⟩

theorem commit_settings (keys : List String) (before : ℕ) (data : Data) (s : KeyValueStore) :
    SameSettings s (s.commit keys before data) := by
  obtain ⟨memory, index, eq⟩ := commit_parts keys before data s
  rw [eq]
  exact ⟨.refl s, rfl⟩

theorem executeReporting_settings (codec : Codec) (env : Env) (cmd : Command) (s : KeyValueStore) :
    SameSettings s (executeReporting codec env cmd s).2.1 := by
  have books := executeReporting_books codec env cmd s
  generalize executeReporting codec env cmd s = r at books ⊢
  obtain ⟨reply, s', victims⟩ := r
  cases books with
  | looked scope looked => exact ⟨looked.limits, looked.sample⟩
  | flushed flush => exact ⟨.refl s, rfl⟩
  | rebuilt dedup scope chain _ => exact chain.settings
  | refused outgrows => exact ⟨.refl s, rfl⟩
  | full scope full chain _ =>
    exact (makeRoom_evictions.settings.trans (commit_settings ..)).trans chain.settings
  | wrote scope made _ chain _ =>
    exact (makeRoom_evictions.settings.trans (commit_settings ..)).trans chain.settings

theorem removeExpired_settings (now : ℕ) (keys : List String) (s : KeyValueStore) :
    SameSettings s (s.removeExpired now keys) := by
  induction keys generalizing s with
  | nil => exact ⟨.refl s, rfl⟩
  | cons key keys ih =>
    rw [KeyValueStore.removeExpired, List.foldl_cons]
    refine SameSettings.trans ?_ (ih _)
    unfold syncKeyMetadata adjustMemory
    split
    · split_ifs <;> exact ⟨.refl s, rfl⟩
    · exact ⟨.refl s, rfl⟩

theorem StoreOp.apply_settings (codec : Codec) (s : KeyValueStore) (op : StoreOp) :
    SameSettings s (op.apply codec s) := by
  cases op with
  | execute env cmd => exact executeReporting_settings codec env cmd s
  | sweepExpired now => exact removeExpired_settings now _ s
  | sweepExpiredBudget now start limit => exact removeExpired_settings now _ s
  | tryEvictForMemory env =>
    obtain ⟨victims, -, chain⟩ := tryEvictForMemory_evictions env [] s
    exact chain.settings
  | restore now entries => exact ⟨.refl s, rfl⟩
  | replace now entries => exact ⟨.refl s, rfl⟩

/-- After a command the account is within the cap, or the command was refused and left the live view and
the account as evictions alone would. -/
def Enforced (limit now : ℕ) (s : KeyValueStore) (reply : Value) (s' : KeyValueStore) : Prop :=
  s'.memoryBytes ≤ limit ∨ reply.isError = true ∧ ∃ s₁ victims, Evictions now s s₁ victims ∧
    s'.live now = s₁.live now ∧ s'.memoryBytes = s₁.memoryBytes

/-- Evictions do not raise the account, so that being as after evictions is being within the cap. -/
theorem enforced_iff {limit now : ℕ} {s s' : KeyValueStore} {reply : Value}
    (small : s.memoryBytes ≤ limit) : Enforced limit now s reply s' ↔ s'.memoryBytes ≤ limit := by
  refine ⟨?_, .inl⟩
  rintro (within | ⟨-, s₁, victims, chain, -, same⟩)
  · exact within
  · exact same.le.trans (chain.evicts.memory.trans small)

/-- In every store that a run with exact books leads to, a write keeps the memory cap exactly if, under a
volatile policy, what it leaves without a deadline fits; and the loop of evictions ends. -/
theorem memory_cap_iff (codec : Codec) (maxKeys : Option ℕ) (limit : ℕ) (policy : EvictionPolicy)
    (sample : ℕ) (ops : List StoreOp) (s : KeyValueStore)
    (run : Runs.exec (storeStep codec) (.withConfig maxKeys (some limit) policy sample) ops = some s)
    (each : Runs.Each (storeStep codec) (KeepsAccount codec)
      (.withConfig maxKeys (some limit) policy sample) ops)
    (small : s.memoryBytes ≤ limit) (env : Env) (cmd : Command)
    (writes : mutationScope cmd ≠ .readOnly) (spares : SparesOwn env cmd s) :
    (Enforced limit env.now s (executeReporting codec env cmd s).1
        (executeReporting codec env cmd s).2.1 ↔ ForeverFits codec env cmd limit s) ∧
      ∀ (t : KeyValueStore) (target : ℕ) (evicted : List String),
        let last := (t.evictUntil env target (t.data.size + 1) evicted).1
        last.memoryBytes ≤ target ∨ ∃ sample, last.evictOne env.now sample = none := by
  have kept := Runs.invariant (P := fun s : KeyValueStore => (s.Accounted ∧ s.Indexed) ∧
      SameSettings (.withConfig maxKeys (some limit) policy sample) s)
    (fun s op s' h keeps next => ?_) run each ⟨⟨?_, ?_⟩, .refl _, rfl⟩
  · obtain ⟨⟨accounted, indexed⟩, settings⟩ := kept
    have sampled : 0 < s.evictionSample := by
      rw [settings.2]
      exact Nat.lt_of_lt_of_le Nat.one_pos (le_max_right sample 1)
    refine ⟨?_, fun t target evicted => evictUntil_ends env target _ evicted t (Nat.lt_succ_self _)⟩
    rw [enforced_iff small]
    exact memoryCap_step indexed accounted sampled settings.1.2.1 small spares writes
  · obtain rfl := Option.some.inj next
    exact ⟨⟨h.1.1.apply keeps, h.1.2.apply keeps.1⟩, h.2.trans (op.apply_settings codec s)⟩
  · exact (Totals.total_empty _).symm
  · exact .of_empty rfl rfl

theorem memory_cap_iff_set :
    let s := (StoreOp.execute (.fixed 0) (.pSetEx "a" 10 [49])).apply .literals
      (.withConfig none (some 100) .volatileTtl 10)
    (Enforced 100 0 s (executeReporting .literals (.fixed 0) (.set "b" [50] {}) s).1
        (executeReporting .literals (.fixed 0) (.set "b" [50] {}) s).2.1 ↔
      ForeverFits .literals (.fixed 0) (.set "b" [50] {}) 100 s) ∧
    ∀ (t : KeyValueStore) (target : ℕ) (evicted : List String),
      let last := (t.evictUntil (.fixed 0) target (t.data.size + 1) evicted).1
      last.memoryBytes ≤ target ∨ ∃ sample, last.evictOne 0 sample = none := by
  refine memory_cap_iff .literals none 100 .volatileTtl 10
    [.execute (.fixed 0) (.pSetEx "a" 10 [49])] _ rfl ⟨⟨?_, by rintro _ _ ⟨⟩ _ ⟨⟩⟩, fun _ _ => trivial⟩
    (by decide) (.fixed 0) (.set "b" [50] {}) nofun (by rintro _ ⟨⟩)
  rintro (⟨never, -⟩ | ⟨client, id, inner, eq, -⟩)
  · cases never
  · cases eq

/-- Under a volatile policy without a candidate, `SET` exceeds the cap and succeeds. -/
theorem memory_cap_exceeded :
    let s := KeyValueStore.withConfig none (some 64) .volatileLru 10
    s.memoryBytes ≤ 64 ∧
      ¬ Enforced 64 0 s (executeReporting .literals (.fixed 0) (.set "k" [49] {}) s).1
        (executeReporting .literals (.fixed 0) (.set "k" [49] {}) s).2.1 := by
  intro s
  have small : s.memoryBytes ≤ 64 := by decide
  rw [enforced_iff small]
  exact ⟨small, by decide⟩

end Recached
