import Recached.Lib.RoundRobin
import Recached.OrderedIndex

/-!
# Sweeping with a budget

A bounded sweep looks at a number of volatile keys from a cursor on and removes the lapsed ones; removing
a key moves the last one into its place.  A sweep that removes nothing leaves the vector as it is, so
that after a full round without a removal no listed key is lapsed; and every round with a removal makes
the vector shorter.  So the sweeps remove every lapsed key that the index lists (`sweeps_fair`).
-/

namespace Recached

open Text Lapse KeyValueStore

/-! ## What the volatile index lists -/

namespace KeyValueStore

/-- The index is sound, and only keys that are stored with a deadline are listed as volatile. -/
structure Carried (s : KeyValueStore) : Prop where
  sound : s.index.Sound
  carried : ∀ key ∈ s.index.volatile.keys, ttlOf s.data key = some true

variable {s s' : KeyValueStore} {now : ℕ}

theorem Carried.of_empty (index : s.index = {}) : s.Carried := by
  refine ⟨index ▸ KeyIndex.sound_empty, fun key there => ?_⟩
  rw [index] at there
  cases there

theorem syncKeys_carried (keys : List String) (sound : s.index.Sound)
    (others : ∀ k ∉ keys, k ∈ s.index.volatile.keys → ttlOf s.data k = some true) :
    (keys.foldl .syncKeyMetadata s).Carried := by
  induction keys generalizing s with
  | nil => exact ⟨sound, fun k => others k List.not_mem_nil⟩
  | cons key keys ih =>
    refine ih (sound.sync key _) fun k away there => ?_
    by_cases same : k = key
    · subst same
      exact (KeyIndex.listed_sync sound k _).volatile.mp there
    · refine others k (by simp [same, away]) ?_
      exact (KeyIndex.mem_volatile_sync sound same _).mp there

theorem Carried.commit (h : s.Carried) {keys : List String} {data : Data} (before : ℕ)
    (agree : ∀ k ∉ keys, data[k]? = s.data[k]?) : (s.commit keys before data).Carried := by
  refine syncKeys_carried keys ?_ fun k away there => ?_
  · rw [adjustMemory_index]
    exact h.sound
  · rw [adjustMemory_index] at there
    rw [adjustMemory_data, ttlOf, agree k away]
    exact h.carried k there

theorem Carried.erase (h : s.Carried) (freed : ℕ) (key : String) :
    (({ s with data := s.data.erase key }.adjustMemory freed 0).syncKeyMetadata key).Carried := by
  refine syncKeys_carried [key] ?_ fun k away there => ?_
  · rw [adjustMemory_index]
    exact h.sound
  · have ne : compare key k ≠ .eq := fun eq =>
      away (List.mem_singleton.mpr (Std.LawfulEqOrd.eq_of_compare eq).symm)
    rw [adjustMemory_index] at there
    rw [adjustMemory_data, ttlOf, Std.ExtTreeMap.getElem?_erase, if_neg ne]
    exact h.carried k there

theorem Carried.evictions (h : s.Carried) {victims : List String} (chain : Evictions now s s' victims) :
    s'.Carried := by
  refine chain.invariant (fun s s' sample key h chosen => ?_) h
  obtain ⟨-, -, -, rfl⟩ := evictOne_spec chosen
  exact h.erase _ key

theorem Carried.removeExpired (h : s.Carried) (now : ℕ) (keys : List String) :
    (s.removeExpired now keys).Carried := by
  induction keys generalizing s with
  | nil => exact h
  | cons key keys ih =>
    rw [KeyValueStore.removeExpired, List.foldl_cons]
    refine ih ?_
    cases s.data[key]? with
    | none => exact syncKeys_carried [key] h.sound fun k _ => h.carried k
    | some e =>
      dsimp only
      split_ifs
      · exact h.erase _ key
      · exact syncKeys_carried [key] h.sound fun k _ => h.carried k

theorem Carried.looked (h : s.Carried) (looked : Looked s s') : s'.Carried := by
  refine ⟨looked.index ▸ h.sound, fun key there => ?_⟩
  have ttl : ttlOf s'.data key = ttlOf s.data key := by
    have cell := congrArg (Option.map fun c => c.expiresAtMs.isSome) (looked.cell key)
    rwa [Option.map_map, Option.map_map] at cell
  rw [ttl]
  exact h.carried key (looked.index ▸ there)

theorem carried_rebuild (now : ℕ) (s : KeyValueStore) : (s.rebuildMetadata now).Carried := by
  have distinct : ((s.data.toList.filter fun e => !e.2.isExpired now).map Prod.fst).Nodup := by
    refine (List.filter_sublist.map _).nodup ?_
    rw [Std.ExtTreeMap.map_fst_toList_eq_keys]
    exact Std.ExtTreeMap.nodup_keys
  obtain ⟨sound, listed, others⟩ := foldl_sync_listed _ {} KeyIndex.sound_empty distinct
  refine ⟨sound, fun key there => ?_⟩
  by_cases held : key ∈ (s.data.toList.filter fun e => !e.2.isExpired now).map Prod.fst
  · obtain ⟨⟨k, e⟩, mem, rfl⟩ := List.mem_map.mp held
    have ttl := (listed (k, e) mem).volatile.mp there
    have found := Std.ExtTreeMap.mem_toList_iff_getElem?_eq_some.mp (List.mem_filter.mp mem).1
    rw [rebuildMetadata, ttlOf, found]
    exact ttl
  · have absent := (others key held none (KeyIndex.listed_empty key)).volatile.mp there
    cases absent

end KeyValueStore

theorem KeyValueStore.Carried.execute {s : KeyValueStore} (h : s.Carried) (codec : Codec) (env : Env)
    (cmd : Command) : (executeReporting codec env cmd s).2.1.Carried := by
  have room := h.evictions (@makeRoom_evictions env cmd s)
  have books := executeReporting_books codec env cmd s
  generalize executeReporting codec env cmd s = r at books ⊢
  obtain ⟨reply, s', victims⟩ := r
  cases books with
  | looked scope looked => exact h.looked looked
  | flushed flush => exact .of_empty rfl
  | rebuilt dedup scope chain _ => exact (carried_rebuild env.now s).evictions chain
  | refused outgrows => exact carried_rebuild env.now s
  | full scope full chain _ => exact (room.commit _ fun _ _ => rfl).evictions chain
  | wrote scope made fits chain _ =>
    exact (room.commit _ fun k hk => run_outside_scope scope _ hk).evictions chain

theorem KeyValueStore.Carried.apply {s : KeyValueStore} (h : s.Carried) (codec : Codec) (op : StoreOp) :
    (op.apply codec s).Carried := by
  cases op with
  | execute env cmd => exact h.execute codec env cmd
  | sweepExpired now => exact h.removeExpired now _
  | sweepExpiredBudget now start limit => exact h.removeExpired now _
  | tryEvictForMemory env =>
    obtain ⟨victims, -, chain⟩ := tryEvictForMemory_evictions env [] s
    exact h.evictions chain
  | restore now entries | replace now entries => exact carried_rebuild now _

/-! ## One sweep -/

namespace KeyValueStore

/-- A stored key whose deadline has been reached. -/
def lapsed (now : ℕ) (s : KeyValueStore) (key : String) : Bool :=
  (s.data[key]?).any fun e => e.isExpired now

/-- Remove the candidates that have lapsed; also the keys removed. -/
def removeExpiredCandidates (now : ℕ) : List String → KeyValueStore → List String × KeyValueStore
  | [], s => ([], s)
  | key :: keys, s =>
    let (removed, s') := removeExpiredCandidates now keys (s.removeExpired now [key])
    (if s.lapsed now key then key :: removed else removed, s')

variable {now t : ℕ} {s : KeyValueStore} {keys : List String} {key k : String}

theorem removeExpiredCandidates_snd (now : ℕ) (keys : List String) (s : KeyValueStore) :
    (removeExpiredCandidates now keys s).2 = s.removeExpired now keys := by
  induction keys generalizing s with
  | nil => rfl
  | cons key keys ih => exact ih _

theorem data_removeExpired (now : ℕ) (keys : List String) (s : KeyValueStore) (k : String) :
    (s.removeExpired now keys).data[k]? = if k ∈ keys ∧ s.lapsed now k = true then none else s.data[k]? :=
  getElem?_removeExpired_iff now keys s k

theorem lapsed_removeExpired (now t : ℕ) (keys : List String) (s : KeyValueStore) (k : String) :
    (s.removeExpired now keys).lapsed t k = true ↔
      s.lapsed t k = true ∧ ¬(k ∈ keys ∧ s.lapsed now k = true) := by
  rw [lapsed, data_removeExpired]
  split_ifs with gone
  · simp [gone]
  · exact (and_iff_left gone).symm

theorem removeExpiredCandidates_fst (distinct : keys.Nodup) (now : ℕ) (s : KeyValueStore) :
    (removeExpiredCandidates now keys s).1 = keys.filter (s.lapsed now) := by
  induction keys generalizing s with
  | nil => rfl
  | cons key keys ih =>
    obtain ⟨fresh, distinct⟩ := List.nodup_cons.mp distinct
    have rest : keys.filter ((s.removeExpired now [key]).lapsed now) = keys.filter (s.lapsed now) := by
      refine List.filter_congr fun k mem => ?_
      have away : k ≠ key := fun same => fresh (same ▸ mem)
      rw [Bool.eq_iff_iff, lapsed_removeExpired]
      simp [away]
    rw [List.filter_cons, ← rest, ← ih distinct]
    rfl

theorem lapsed_mono {t' : ℕ} (le : t ≤ t') (past : s.lapsed t key = true) : s.lapsed t' key = true := by
  rw [lapsed, Option.any_eq_true] at past ⊢
  obtain ⟨e, found, past⟩ := past
  exact ⟨e, found, isExpired_mono le past⟩

theorem ttlOf_of_lapsed (past : s.lapsed now key = true) : ttlOf s.data key = some true := by
  rw [lapsed, Option.any_eq_true] at past
  obtain ⟨e, found, past⟩ := past
  rw [ttlOf, found]
  exact congrArg some (Option.isSome_of_any past)

theorem index_removeExpired_one (now : ℕ) (key : String) (s : KeyValueStore) :
    (s.removeExpired now [key]).index = s.index.sync key (ttlOf (s.removeExpired now [key]).data key) := by
  simp only [KeyValueStore.removeExpired, List.foldl_cons, List.foldl_nil]
  cases s.data[key]? with
  | none => rfl
  | some e =>
    dsimp only
    split_ifs
    · rw [syncKeyMetadata, adjustMemory_index]
      rfl
    · rfl

theorem mem_removeExpired_one (h : s.Carried) (now : ℕ) (listed : key ∈ s.index.volatile.keys) :
    k ∈ (s.removeExpired now [key]).index.volatile.keys ↔
      k ∈ s.index.volatile.keys ∧ ¬(k = key ∧ s.lapsed now k = true) := by
  rw [index_removeExpired_one]
  by_cases same : k = key
  · subst same
    rw [(KeyIndex.listed_sync h.sound k _).volatile, ttlOf, data_removeExpired]
    have ttl := h.carried k listed
    by_cases past : s.lapsed now k = true
    · simp [past]
    · rw [if_neg fun gone => past gone.2]
      exact ⟨fun _ => ⟨listed, fun gone => past gone.2⟩, fun _ => ttl⟩
  · rw [KeyIndex.mem_volatile_sync h.sound same]
    simp [same]

/-- A listed key stays listed unless it is one of the candidates and has lapsed. -/
theorem Carried.mem_removeExpired (h : s.Carried) (now : ℕ) (distinct : keys.Nodup)
    (listed : keys ⊆ s.index.volatile.keys) :
    k ∈ (s.removeExpired now keys).index.volatile.keys ↔
      k ∈ s.index.volatile.keys ∧ ¬(k ∈ keys ∧ s.lapsed now k = true) := by
  induction keys generalizing s with
  | nil => simp [KeyValueStore.removeExpired]
  | cons key keys ih =>
    obtain ⟨fresh, distinct⟩ := List.nodup_cons.mp distinct
    obtain ⟨here, rest⟩ := List.cons_subset.mp listed
    have away {k : String} (mem : k ∈ keys) : k ≠ key := fun same => fresh (same ▸ mem)
    have listed' : keys ⊆ (s.removeExpired now [key]).index.volatile.keys := fun k mem =>
      (mem_removeExpired_one h now here).mpr ⟨rest mem, fun gone => away mem gone.1⟩
    have split : s.removeExpired now (key :: keys) =
        (s.removeExpired now [key]).removeExpired now keys := rfl
    rw [split, ih (h.removeExpired now [key]) distinct listed', mem_removeExpired_one h now here,
      lapsed_removeExpired]
    by_cases same : k = key
    · simp [same, fresh]
    · simp [same]

/-- A sweep that removes nothing leaves the vector as it is. -/
theorem Carried.quiet_removeExpired (h : s.Carried) (listed : keys ⊆ s.index.volatile.keys)
    (quiet : ∀ key ∈ keys, s.lapsed now key = false) :
    (s.removeExpired now keys).index.volatile = s.index.volatile ∧
      (s.removeExpired now keys).data = s.data := by
  induction keys generalizing s with
  | nil => exact ⟨rfl, rfl⟩
  | cons key keys ih =>
    obtain ⟨here, rest⟩ := List.cons_subset.mp listed
    have same : (s.removeExpired now [key]).data = s.data := by
      refine Std.ExtTreeMap.ext_getElem? fun k => ?_
      rw [data_removeExpired, if_neg]
      rintro ⟨mem, past⟩
      rw [List.mem_singleton.mp mem, quiet key List.mem_cons_self] at past
      cases past
    have kept : (s.removeExpired now [key]).index.volatile = s.index.volatile := by
      rw [index_removeExpired_one, same, h.carried key here]
      have there := Std.ExtTreeMap.mem_iff_contains.mp (h.sound.volatile.mem_iff.mp here)
      simp [KeyIndex.sync, DenseKeys.insert, there]
    have quiet' : ∀ k ∈ keys, (s.removeExpired now [key]).lapsed now k = false := fun k mem => by
      rw [lapsed, same]
      exact quiet k (List.mem_cons_of_mem key mem)
    obtain ⟨volatile, data⟩ := ih (h.removeExpired now [key]) (kept ▸ rest) quiet'
    exact ⟨volatile.trans kept, data.trans same⟩

/-! ### The window -/

theorem sweepWindow_eq (start limit : ℕ) (s : KeyValueStore) :
    s.sweepWindow start limit =
      (RoundRobin.window s.index.volatile.keys.length limit start).filterMap fun i =>
        s.index.volatile.keys[i]? := by
  rw [RoundRobin.window, List.filterMap_map]
  rfl

theorem sweepWindow_subset (start limit : ℕ) (s : KeyValueStore) :
    s.sweepWindow start limit ⊆ s.index.volatile.keys := by
  intro key mem
  rw [sweepWindow_eq] at mem
  obtain ⟨i, -, at_i⟩ := List.mem_filterMap.mp mem
  exact List.mem_of_getElem? at_i

theorem Carried.nodup_sweepWindow (h : s.Carried) (start limit : ℕ) :
    (s.sweepWindow start limit).Nodup := by
  rw [sweepWindow_eq]
  refine List.Nodup.filterMap (fun i j key at_i at_j => ?_) (RoundRobin.nodup_window ..)
  exact h.sound.volatile.unique at_i at_j

theorem Carried.nodup_volatile (h : s.Carried) : s.index.volatile.keys.Nodup := by
  refine List.nodup_iff_getElem?_ne_getElem?.mpr fun i j before inside same => ?_
  have at_j := List.getElem?_eq_getElem inside
  have := h.sound.volatile.unique (same.trans at_j) at_j
  omega

/-! ### What sweeps do -/

/-- Sweeps at the given readings of the clock remove listed keys that have lapsed by one of them. -/
structure Removes (clocks : List ℕ) (s s' : KeyValueStore) (removed : List String) : Prop where
  carried : s'.Carried
  distinct : removed.Nodup
  due : ∀ key ∈ removed, key ∈ s.index.volatile.keys ∧ ∃ now ∈ clocks, s.lapsed now key = true
  listed : ∀ key, key ∈ s'.index.volatile.keys ↔ key ∈ s.index.volatile.keys ∧ key ∉ removed
  data : ∀ key : String, s'.data[key]? = if key ∈ removed then none else s.data[key]?

theorem Removes.none (h : s.Carried) (clocks : List ℕ) : Removes clocks s s [] :=
  ⟨h, List.nodup_nil, fun _ mem => absurd mem List.not_mem_nil, fun _ => by simp, fun _ => by simp⟩

variable {s' s'' : KeyValueStore} {clocks clocks' : List ℕ} {removed removed' : List String}

theorem Removes.lapsed_iff (swept : Removes clocks s s' removed) :
    s'.lapsed t key = true ↔ s.lapsed t key = true ∧ key ∉ removed := by
  rw [lapsed, swept.data]
  split_ifs with gone
  · simp [gone]
  · exact (and_iff_left gone).symm

/-- Every removal makes the vector shorter. -/
theorem Removes.length_lt (swept : Removes clocks s s' removed) (nonempty : removed ≠ []) :
    s'.index.volatile.keys.length < s.index.volatile.keys.length := by
  obtain ⟨key, gone⟩ := List.exists_mem_of_ne_nil removed nonempty
  have distinct : (key :: s'.index.volatile.keys).Nodup :=
    List.nodup_cons.mpr ⟨fun there => ((swept.listed key).mp there).2 gone, swept.carried.nodup_volatile⟩
  have among : key :: s'.index.volatile.keys ⊆ s.index.volatile.keys :=
    List.cons_subset.mpr ⟨(swept.due key gone).1, fun k there => ((swept.listed k).mp there).1⟩
  exact (List.subperm_of_subset distinct among).length_le

theorem Removes.trans (first : Removes clocks s s' removed) (second : Removes clocks' s' s'' removed') :
    Removes (clocks ++ clocks') s s'' (removed ++ removed') where
  carried := second.carried
  distinct := by
    refine List.nodup_append'.mpr ⟨first.distinct, second.distinct, fun key early late => ?_⟩
    exact ((first.listed key).mp (second.due key late).1).2 early
  due key mem := by
    obtain early | late := List.mem_append.mp mem
    · obtain ⟨there, now, read, past⟩ := first.due key early
      exact ⟨there, now, List.mem_append_left _ read, past⟩
    · obtain ⟨there, now, read, past⟩ := second.due key late
      exact ⟨((first.listed key).mp there).1, now, List.mem_append_right _ read,
        (first.lapsed_iff.mp past).1⟩
  listed key := by
    rw [second.listed, first.listed, List.mem_append, not_or, and_assoc]
  data key := by
    rw [second.data, first.data]
    by_cases early : key ∈ removed <;> by_cases late : key ∈ removed' <;> simp [early, late]

theorem Carried.removes (h : s.Carried) (now : ℕ) (distinct : keys.Nodup)
    (listed : keys ⊆ s.index.volatile.keys) :
    Removes [now] s (removeExpiredCandidates now keys s).2 (removeExpiredCandidates now keys s).1 := by
  rw [removeExpiredCandidates_snd, removeExpiredCandidates_fst distinct]
  refine ⟨h.removeExpired now keys, distinct.filter _, fun key mem => ?_, fun key => ?_, fun key => ?_⟩
  · obtain ⟨mem, past⟩ := List.mem_filter.mp mem
    exact ⟨listed mem, now, List.mem_singleton_self now, past⟩
  · rw [h.mem_removeExpired now distinct listed, List.mem_filter]
  · rw [data_removeExpired]
    simp only [List.mem_filter]

end KeyValueStore

/-! ## Repeated sweeps -/

/-- A store and the position of its bounded sweeps, a machine word. -/
structure Sweeper where
  store : KeyValueStore
  expiryCursor : ℕ

namespace Sweeper

def sweepExpiredReportingBudget (now limit : ℕ) (w : Sweeper) : List String × Sweeper :=
  if limit = 0 ∨ w.store.index.volatile.keys = [] then ([], w)
  else
    let (removed, store) := removeExpiredCandidates now (w.store.sweepWindow w.expiryCursor limit) w.store
    (removed, ⟨store, (w.expiryCursor + limit) % 2 ^ 64⟩)

/-- One call after the other at the given readings of the clock; also all the keys they report. -/
def sweeps (limit : ℕ) : List ℕ → Sweeper → List String × Sweeper
  | [], w => ([], w)
  | now :: clocks, w =>
    let (removed, w) := w.sweepExpiredReportingBudget now limit
    let (later, w) := sweeps limit clocks w
    (removed ++ later, w)

variable {w : Sweeper} {t limit : ℕ} {clocks clocks' : List ℕ} {key : String}

theorem sweeps_cons (limit now : ℕ) (clocks : List ℕ) (w : Sweeper) :
    sweeps limit (now :: clocks) w =
      ((w.sweepExpiredReportingBudget now limit).1 ++
          (sweeps limit clocks (w.sweepExpiredReportingBudget now limit).2).1,
        (sweeps limit clocks (w.sweepExpiredReportingBudget now limit).2).2) :=
  rfl

theorem removes_call (h : w.store.Carried) (now limit : ℕ) :
    Removes [now] w.store (w.sweepExpiredReportingBudget now limit).2.store
      (w.sweepExpiredReportingBudget now limit).1 := by
  unfold sweepExpiredReportingBudget
  split_ifs
  · exact .none h [now]
  · exact h.removes now (h.nodup_sweepWindow ..) (sweepWindow_subset ..)

theorem removes_sweeps (h : w.store.Carried) (limit : ℕ) (clocks : List ℕ) :
    Removes clocks w.store (sweeps limit clocks w).2.store (sweeps limit clocks w).1 := by
  induction clocks generalizing w with
  | nil => exact .none h []
  | cons now clocks ih =>
    have call := removes_call h now limit
    exact call.trans (ih call.carried)

theorem sweeps_append (limit : ℕ) (clocks clocks' : List ℕ) (w : Sweeper) :
    (sweeps limit (clocks ++ clocks') w).2 = (sweeps limit clocks' (sweeps limit clocks w).2).2 := by
  induction clocks generalizing w with
  | nil => rfl
  | cons now clocks ih => exact ih _

theorem word_sweeps (word : w.expiryCursor < 2 ^ 64) (limit : ℕ) (clocks : List ℕ) :
    (sweeps limit clocks w).2.expiryCursor < 2 ^ 64 := by
  induction clocks generalizing w with
  | nil => exact word
  | cons now clocks ih =>
    have next : (w.sweepExpiredReportingBudget now limit).2.expiryCursor < 2 ^ 64 := by
      unfold sweepExpiredReportingBudget
      split_ifs
      · exact word
      · exact Nat.mod_lt _ (by decide)
    exact ih next

/-- Calls that remove nothing look at one stretch of the vector after the other. -/
theorem quiet_sweeps (h : w.store.Carried) (positive : 0 < limit)
    (nonempty : w.store.index.volatile.keys ≠ []) (word : w.expiryCursor < 2 ^ 64) (quiet : (sweeps limit clocks w).1 = []) {step now : ℕ}
    (read : clocks[step]? = some now) :
    ∀ key ∈ w.store.sweepWindow ((w.expiryCursor + step * limit) % 2 ^ 64) limit,
      w.store.lapsed now key = false := by
  induction clocks generalizing w step with
  | nil => cases read
  | cons first clocks ih =>
    rw [sweeps_cons, sweepExpiredReportingBudget, if_neg (by simp [positive.ne', nonempty])] at quiet
    dsimp only at quiet
    rw [removeExpiredCandidates_snd, removeExpiredCandidates_fst (h.nodup_sweepWindow ..)] at quiet
    obtain ⟨here, later⟩ := List.append_eq_nil_iff.mp quiet
    have none : ∀ key ∈ w.store.sweepWindow w.expiryCursor limit, w.store.lapsed first key = false := by
      simpa only [List.filter_eq_nil_iff, Bool.not_eq_true] using here
    cases step with
    | zero =>
      obtain rfl := Option.some.inj read
      rwa [Nat.zero_mul, Nat.add_zero, Nat.mod_eq_of_lt word]
    | succ step =>
      obtain ⟨volatile, data⟩ := h.quiet_removeExpired (sweepWindow_subset ..) none
      have rest := ih (h.removeExpired first _) (by rw [volatile]; exact nonempty)
        (Nat.mod_lt _ (by decide)) later read
      have same : (w.store.removeExpired first (w.store.sweepWindow w.expiryCursor limit)).lapsed now =
          w.store.lapsed now := funext fun key => by rw [lapsed, lapsed, data]
      rw [sweepWindow, volatile, same, Nat.mod_add_mod, Nat.add_assoc] at rest
      rwa [Nat.add_mul, Nat.one_mul, Nat.add_comm (step * limit)]

/-- If a whole round removes nothing, no listed key had lapsed when it began. -/
theorem clean_of_quiet (h : w.store.Carried) (positive : 0 < limit) (word : w.expiryCursor < 2 ^ 64)
    (small : 3 * w.store.index.volatile.keys.length ≤ 2 ^ 64) (later : ∀ now ∈ clocks, t ≤ now)
    (long : 2 * (w.store.index.volatile.keys.length / limit + 1) ≤ clocks.length)
    (quiet : (sweeps limit clocks w).1 = []) :
    ∀ key ∈ w.store.index.volatile.keys, w.store.lapsed t key = false := by
  intro key there
  obtain ⟨i, at_i⟩ := List.mem_iff_getElem?.mp there
  have inside : i < w.store.index.volatile.keys.length := (List.getElem?_eq_some_iff.mp at_i).1
  obtain ⟨step, early, looked⟩ := RoundRobin.reached_wrapping positive inside word small
  have within : step < clocks.length := by omega
  have read := List.getElem?_eq_getElem within
  have inspected : key ∈ w.store.sweepWindow ((w.expiryCursor + step * limit) % 2 ^ 64) limit := by
    rw [sweepWindow_eq]
    exact List.mem_filterMap.mpr ⟨i, looked, at_i⟩
  have alive := quiet_sweeps h positive (List.ne_nil_of_mem there) word quiet read key inspected
  refine Bool.eq_false_iff.mpr fun past => ?_
  rw [lapsed_mono (later _ (List.getElem_mem within)) past] at alive
  cases alive

/-- A round either finds nothing to remove or makes the vector shorter. -/
theorem clean_of_long (h : w.store.Carried) (positive : 0 < limit) (word : w.expiryCursor < 2 ^ 64)
    {n m : ℕ} (le : w.store.index.volatile.keys.length ≤ m) (within : m ≤ n) (small : 3 * n ≤ 2 ^ 64)
    (later : ∀ now ∈ clocks, t ≤ now) (long : m * (2 * (n / limit + 1)) ≤ clocks.length) :
    ∀ key ∈ (sweeps limit clocks w).2.store.index.volatile.keys,
      (sweeps limit clocks w).2.store.lapsed t key = false := by
  induction m generalizing w clocks with
  | zero =>
    intro key there
    have before := (((removes_sweeps h limit clocks).listed key).mp there).1
    rw [List.eq_nil_of_length_eq_zero (Nat.le_zero.mp le)] at before
    cases before
  | succ m ih =>
    have round : 2 * (n / limit + 1) ≤ clocks.length :=
      (Nat.le_mul_of_pos_left _ m.succ_pos).trans long
    rw [← List.take_append_drop (2 * (n / limit + 1)) clocks, sweeps_append]
    have first : (clocks.take (2 * (n / limit + 1))).length = 2 * (n / limit + 1) :=
      List.length_take_of_le round
    have early : ∀ now ∈ clocks.take (2 * (n / limit + 1)), t ≤ now := fun now mem =>
      later now (List.mem_of_mem_take mem)
    have late : ∀ now ∈ clocks.drop (2 * (n / limit + 1)), t ≤ now := fun now mem =>
      later now (List.mem_of_mem_drop mem)
    have enough : m * (2 * (n / limit + 1)) ≤ (clocks.drop (2 * (n / limit + 1))).length := by
      rw [List.length_drop]
      rw [Nat.succ_mul] at long
      omega
    generalize clocks.take (2 * (n / limit + 1)) = now at first early
    generalize clocks.drop (2 * (n / limit + 1)) = rest at late enough
    have round := removes_sweeps h limit now
    have remaining := removes_sweeps round.carried limit rest
    by_cases quiet : (sweeps limit now w).1 = []
    · have fewer : w.store.index.volatile.keys.length / limit ≤ n / limit :=
        Nat.div_le_div_right (le.trans within)
      have clean := clean_of_quiet h positive word (by omega) early (by omega) quiet
      intro key there
      refine Bool.eq_false_iff.mpr fun past => ?_
      have whole := round.trans remaining
      have before := (whole.lapsed_iff.mp past).1
      rw [clean key ((whole.listed key).mp there).1] at before
      cases before
    · have shorter := round.length_lt quiet
      exact ih round.carried (word_sweeps word limit now) (by omega) (by omega) late enough

end Sweeper

/-! ## Fairness -/

/-- The number of keys that carry a deadline. -/
def KeyValueStore.deadlines (s : KeyValueStore) : ℕ :=
  (s.data.toList.filter fun e => e.2.expiresAtMs.isSome).length

/-- Within so many calls of a sweep with a budget every key that has lapsed is gone. -/
def sweepBound (deadlines limit : ℕ) : ℕ := deadlines * (2 * (deadlines / limit + 1))

/-- What repeated sweeps do to a store that nothing else happens to. -/
structure FairlySwept (t : ℕ) (s : KeyValueStore) : Prop where
  finished : ∀ limit > 0, ∀ cursor < 2 ^ 64, ∀ clocks : List ℕ, (∀ now ∈ clocks, t ≤ now) →
    sweepBound s.deadlines limit ≤ clocks.length →
      ∀ key, (Sweeper.sweeps limit clocks ⟨s, cursor⟩).2.store.lapsed t key = false
  once : ∀ limit cursor clocks, (Sweeper.sweeps limit clocks ⟨s, cursor⟩).1.Nodup ∧
    ∀ key, key ∈ (Sweeper.sweeps limit clocks ⟨s, cursor⟩).1 ↔
      key ∈ s.data ∧ key ∉ (Sweeper.sweeps limit clocks ⟨s, cursor⟩).2.store.data
  due : ∀ limit cursor clocks now, let w := (Sweeper.sweeps limit clocks ⟨s, cursor⟩).2
    ∀ key ∈ w.store.data, key ∉ (w.sweepExpiredReportingBudget now limit).2.store.data →
      w.store.lapsed now key = true

namespace KeyValueStore

variable {s s' : KeyValueStore} {t : ℕ} {clocks : List ℕ} {key : String} {removed : List String}

theorem Removes.mem_iff (h : s.Carried) (swept : Removes clocks s s' removed) :
    key ∈ removed ↔ key ∈ s.data ∧ key ∉ s'.data := by
  rw [Std.ExtTreeMap.mem_iff_isSome_getElem?, Std.ExtTreeMap.mem_iff_isSome_getElem?, swept.data]
  by_cases gone : key ∈ removed
  · have ttl := h.carried key (swept.due key gone).1
    rw [ttlOf, Option.map_eq_some_iff] at ttl
    obtain ⟨e, found, -⟩ := ttl
    simp [gone, found]
  · simp [gone]

theorem Carried.length_le (h : s.Carried) : s.index.volatile.keys.length ≤ s.deadlines := by
  have among : s.index.volatile.keys ⊆
      (s.data.toList.filter fun e => e.2.expiresAtMs.isSome).map Prod.fst := by
    intro key there
    have ttl := h.carried key there
    rw [ttlOf, Option.map_eq_some_iff] at ttl
    obtain ⟨e, found, carried⟩ := ttl
    refine List.mem_map.mpr ⟨(key, e), List.mem_filter.mpr ⟨?_, carried⟩, rfl⟩
    exact Std.ExtTreeMap.mem_toList_iff_getElem?_eq_some.mpr found
  have le := (List.subperm_of_subset h.nodup_volatile among).length_le
  rwa [List.length_map] at le

/-- A lapsed key that the index does not list is never removed. -/
theorem Carried.unlisted_stays (h : s.Carried) (past : s.lapsed t key = true)
    (unlisted : key ∉ s.index.volatile.keys) (limit cursor : ℕ) (clocks : List ℕ) :
    (Sweeper.sweeps limit clocks ⟨s, cursor⟩).2.store.lapsed t key = true := by
  have swept := Sweeper.removes_sweeps (w := ⟨s, cursor⟩) h limit clocks
  exact swept.lapsed_iff.mpr ⟨past, fun gone => unlisted (swept.due key gone).1⟩

theorem Carried.fairlySwept_iff (h : s.Carried) (fits : s.deadlines ≤ 2 ^ 62) (t : ℕ) :
    FairlySwept t s ↔ ∀ key, s.lapsed t key = true → key ∈ s.index.volatile.keys := by
  constructor
  · intro fair key past
    by_contra unlisted
    have stays := h.unlisted_stays past unlisted 1 0 (List.replicate (sweepBound s.deadlines 1) t)
    rw [fair.finished 1 one_pos 0 (by decide) _ (fun now mem => (List.eq_of_mem_replicate mem).ge)
      (List.length_replicate).ge] at stays
    cases stays
  · refine fun listed => ⟨?_, ?_, ?_⟩
    · intro limit positive cursor word clocks later long key
      have swept := Sweeper.removes_sweeps (w := ⟨s, cursor⟩) h limit clocks
      refine Bool.eq_false_iff.mpr fun past => ?_
      have before := swept.lapsed_iff.mp past
      have there := (swept.listed key).mpr ⟨listed key before.1, before.2⟩
      rw [Sweeper.clean_of_long (w := ⟨s, cursor⟩) h positive word h.length_le le_rfl (by omega) later
        long key there] at past
      cases past
    · intro limit cursor clocks
      have swept := Sweeper.removes_sweeps (w := ⟨s, cursor⟩) h limit clocks
      exact ⟨swept.distinct, fun key => swept.mem_iff h⟩
    · intro limit cursor clocks now w key there gone
      have before := Sweeper.removes_sweeps (w := ⟨s, cursor⟩) h limit clocks
      have call := Sweeper.removes_call before.carried now limit
      obtain ⟨now', read, past⟩ := (call.due key ((call.mem_iff before.carried).mpr ⟨there, gone⟩)).2
      rwa [List.mem_singleton.mp read] at past

end KeyValueStore

/-- In every store that commands, sweeps, evictions and restores lead to, the sweeps are fair exactly if
the index lists every key that has lapsed.  The vector of the index fits in memory. -/
theorem sweeps_fair_iff (codec : Codec) (maxKeys maxMemoryBytes : Option ℕ) (policy : EvictionPolicy)
    (sample : ℕ) (ops : List StoreOp) (s : KeyValueStore)
    (run : Runs.exec (storeStep codec) (.withConfig maxKeys maxMemoryBytes policy sample) ops = some s)
    (fits : s.deadlines ≤ 2 ^ 62) (t : ℕ) :
    FairlySwept t s ↔ ∀ key, s.lapsed t key = true → key ∈ s.index.volatile.keys := by
  have carried : s.Carried := by
    refine Runs.invariant_of_step (P := Carried) (fun s op s' h next => ?_) run (.of_empty rfl)
    obtain rfl := Option.some.inj next
    exact h.apply codec op
  exact carried.fairlySwept_iff fits t

theorem sweeps_fair_iff_one :
    let ops := [.execute (.fixed 0) (.pSetEx "k" 10 [49])]
    ∃ s, Runs.exec (storeStep .literals) (.withConfig none none .noEviction 10) ops = some s ∧
      FairlySwept 100 s ∧ (Sweeper.sweeps 1 [100, 100] ⟨s, 2 ^ 64 - 1⟩).1 = ["k"] := by
  intro ops
  refine ⟨_, rfl, ?_, by decide⟩
  refine (sweeps_fair_iff .literals none none .noEviction 10 ops _ rfl (by decide) 100).mpr ?_
  intro key past
  have stored : ((StoreOp.apply .literals (.withConfig none none .noEviction 10)
      (.execute (.fixed 0) (.pSetEx "k" 10 [49]))).data[key]?).isSome := Option.isSome_of_any past
  have listed := Std.ExtTreeMap.mem_keys.mpr (Std.ExtTreeMap.mem_iff_isSome_getElem?.mpr stored)
  exact listed

/-- A lapsed key that is stored when a snapshot is restored falls out of the index, and the sweeps never
remove it. -/
theorem unlisted_key_stays :
    ∃ s, Runs.exec (storeStep .literals) (.withConfig none none .noEviction 10)
        [.execute (.fixed 0) (.pSetEx "k" 10 [49]), .restore 100 []] = some s ∧
      s.deadlines = 1 ∧ s.lapsed 100 "k" = true ∧
      (∀ limit cursor clocks, (Sweeper.sweeps limit clocks ⟨s, cursor⟩).2.store.lapsed 100 "k" = true) ∧
      ¬FairlySwept 100 s := by
  refine ⟨_, rfl, by decide, by decide, ?_, fun fair => ?_⟩
  · exact (carried_rebuild 100 _).unlisted_stays (by decide) (by decide)
  · have listed := ((carried_rebuild 100 _).fairlySwept_iff (by decide) 100).mp fair "k" (by decide)
    exact absurd listed (by decide)

end Recached
