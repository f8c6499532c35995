import Recached.Account

/-!
# The key index

The index lists the stored keys and, apart, the ones with a deadline.  `Listed` says this of one key,
so that the keys a step has not brought up to date yet can be left out; `KeyIndex.sync` brings one key
up to date and leaves what is listed of the others.
-/

namespace Recached

open Text Lapse KeyValueStore

/-! ## Dense arrays of keys -/

/-- The map of positions and the vector of keys are inverse to each other. -/
def DenseKeys.Sound (d : DenseKeys) : Prop :=
  ∀ (key : String) (i : ℕ), d.positions[key]? = some i ↔ d.keys[i]? = some key

namespace DenseKeys

variable {d : DenseKeys} {key k : String}

theorem sound_empty : Sound {} := by
  intro key i
  simp

theorem Sound.mem_iff (h : d.Sound) : key ∈ d.keys ↔ key ∈ d.positions := by
  rw [List.mem_iff_getElem?, Std.ExtTreeMap.mem_iff_isSome_getElem?, Option.isSome_iff_exists]
  exact exists_congr fun i => (h key i).symm

theorem Sound.unique (h : d.Sound) {i j : ℕ} (first : d.keys[i]? = some key)
    (second : d.keys[j]? = some key) : i = j :=
  Option.some.inj (((h key i).mpr first).symm.trans ((h key j).mpr second))

theorem Sound.insert (h : d.Sound) (key : String) :
    (d.insert key).Sound ∧ ∀ k, k ∈ (d.insert key).keys ↔ k = key ∨ k ∈ d.keys := by
  unfold DenseKeys.insert
  split_ifs with there
  · have listed : key ∈ d.keys := h.mem_iff.mpr (Std.ExtTreeMap.mem_iff_contains.mpr there)
    refine ⟨h, fun k => ⟨.inr, ?_⟩⟩
    rintro (rfl | mem)
    · exact listed
    · exact mem
  · have fresh : key ∉ d.keys := by
      rwa [h.mem_iff, ← Std.ExtTreeMap.contains_iff_mem]
    refine ⟨fun k i => ?_, fun k => by simp [or_comm]⟩
    rw [Std.ExtTreeMap.getElem?_insert, List.getElem?_append]
    by_cases same : k = key
    · subst same
      have outside (i : ℕ) : d.keys[i]? ≠ some k := fun found => fresh (List.mem_of_getElem? found)
      simp only [Std.ReflCmp.compare_self, if_true, Option.some.injEq]
      split_ifs with inside
      · exact ⟨fun eq => by omega, fun found => absurd found (outside i)⟩
      · rw [List.getElem?_singleton]
        split_ifs <;> simp <;> omega
    · have ne : compare key k ≠ .eq := fun eq => same (Std.LawfulEqOrd.eq_of_compare eq).symm
      rw [if_neg ne, h k i]
      split_ifs with inside
      · rfl
      · rw [List.getElem?_eq_none (by omega), List.getElem?_singleton]
        split_ifs <;> simp [Ne.symm same]

/-- The vector after a removal: the last key has moved into the place that became free. -/
theorem getElem?_swapRemove {keys : List String} {pos : ℕ} (inside : pos < keys.length) (i : ℕ) :
    ((match keys.getLast? with
      | some moved => keys.set pos moved
      | none => keys).dropLast)[i]? =
      if i + 1 < keys.length then (if i = pos then keys[keys.length - 1]? else keys[i]?) else none := by
  have last : keys.getLast? = keys[keys.length - 1]? := List.getLast?_eq_getElem?
  cases found : keys.getLast? with
  | none =>
    obtain rfl := List.getLast?_eq_none_iff.mp found
    cases inside
  | some moved =>
    dsimp only
    rw [List.getElem?_dropLast, List.length_set, List.getElem?_set, ← last, found]
    grind

theorem Sound.remove (h : d.Sound) (key : String) :
    (d.remove key).Sound ∧ ∀ k, k ∈ (d.remove key).keys ↔ k ≠ key ∧ k ∈ d.keys := by
  unfold DenseKeys.remove
  cases found : d.positions[key]? with
  | none =>
    refine ⟨h, fun k => ⟨fun mem => ⟨?_, mem⟩, And.right⟩⟩
    rintro rfl
    rw [h.mem_iff, Std.ExtTreeMap.mem_iff_isSome_getElem?, found] at mem
    cases mem
  | some pos =>
    have place : d.keys[pos]? = some key := (h key pos).mp found
    have inside : pos < d.keys.length := (List.getElem?_eq_some_iff.mp place).1
    have vector := getElem?_swapRemove inside
    dsimp only
    generalize ((match d.keys.getLast? with
      | some moved => d.keys.set pos moved
      | none => d.keys).dropLast) = keys at vector ⊢
    obtain ⟨moved, final⟩ : ∃ moved, d.keys[d.keys.length - 1]? = some moved :=
      ⟨_, List.getElem?_eq_getElem (by omega)⟩
    rw [final] at vector
    have bound {i : ℕ} {k : String} (at_i : d.keys[i]? = some k) : i < d.keys.length :=
      (List.getElem?_eq_some_iff.mp at_i).1
    -- a key other than the removed one stands where it stood, the last one where the removed one was
    have other (k : String) (i : ℕ) : keys[i]? = some k ↔
        k ≠ key ∧ if i = pos then pos + 1 < d.keys.length ∧ k = moved
          else d.keys[i]? = some k ∧ i + 1 < d.keys.length := by
      rw [vector]
      by_cases here : i = pos
      · subst here
        by_cases final' : i + 1 < d.keys.length
        · rw [if_pos final', if_pos rfl, if_pos rfl]
          have ne : moved ≠ key := by
            rintro rfl
            have := h.unique place final
            omega
          constructor
          · rintro eq
            obtain rfl := Option.some.inj eq
            exact ⟨ne, final', rfl⟩
          · rintro ⟨-, -, rfl⟩
            rfl
        · simp [final']
      · rw [if_neg here, if_neg here]
        constructor
        · intro eq
          split_ifs at eq with earlier
          refine ⟨?_, eq, earlier⟩
          rintro rfl
          exact here (h.unique eq place)
        · rintro ⟨-, eq, earlier⟩
          rw [if_pos earlier, eq]
    have last {i : ℕ} (at_i : d.keys[i]? = some moved) : i + 1 = d.keys.length := by
      have := h.unique at_i final
      omega
    constructor
    · intro k i
      have erased : (d.positions.erase key)[k]? = some i ↔ k ≠ key ∧ d.keys[i]? = some k := by
        rw [Std.ExtTreeMap.getElem?_erase]
        split_ifs with same
        · obtain rfl := Std.LawfulEqOrd.eq_of_compare same
          simp
        · have ne : k ≠ key := by
            rintro rfl
            exact same Std.ReflCmp.compare_self
          rw [h k i, and_iff_right ne]
      have refilled : keys[pos]? = if pos + 1 < d.keys.length then some moved else none := by
        rw [vector, if_pos rfl]
      rw [other, refilled]
      split_ifs with filled here here
      · subst here
        rw [Std.ExtTreeMap.getElem?_insert]
        split_ifs with same
        · obtain rfl := Std.LawfulEqOrd.eq_of_compare same
          refine ⟨fun _ => ⟨?_, filled, rfl⟩, fun _ => rfl⟩
          rintro rfl
          have := last place
          omega
        · rw [erased, place]
          constructor
          · rintro ⟨ne, eq⟩
            exact absurd (Option.some.inj eq).symm ne
          · rintro ⟨-, -, rfl⟩
            exact absurd Std.ReflCmp.compare_self same
      · rw [Std.ExtTreeMap.getElem?_insert]
        split_ifs with same
        · obtain rfl := Std.LawfulEqOrd.eq_of_compare same
          constructor
          · intro eq
            exact absurd (Option.some.inj eq).symm here
          · rintro ⟨-, at_i, earlier⟩
            have := last at_i
            omega
        · rw [erased]
          refine and_congr_right fun _ => (and_iff_left_of_imp fun at_i => ?_).symm
          have := bound at_i
          have : i + 1 ≠ d.keys.length := by
            intro eq
            have at_last : d.keys[i]? = some moved := by rwa [← eq] at final
            rw [at_i] at at_last
            obtain rfl := Option.some.inj at_last
            exact same Std.ReflCmp.compare_self
          omega
      · subst here
        rw [erased, place]
        constructor
        · rintro ⟨ne, eq⟩
          exact absurd (Option.some.inj eq).symm ne
        · rintro ⟨-, inside, -⟩
          exact absurd inside filled
      · rw [erased]
        refine and_congr_right fun _ => (and_iff_left_of_imp fun at_i => ?_).symm
        have := bound at_i
        omega
    · intro k
      rw [List.mem_iff_getElem?, List.mem_iff_getElem?]
      constructor
      · rintro ⟨i, at_i⟩
        obtain ⟨ne, held⟩ := (other k i).mp at_i
        split_ifs at held
        · exact ⟨ne, _, held.2 ▸ final⟩
        · exact ⟨ne, i, held.1⟩
      · rintro ⟨ne, i, at_i⟩
        have away : i ≠ pos := by
          rintro rfl
          exact ne (Option.some.inj (at_i.symm.trans place))
        have := bound at_i
        by_cases final' : i + 1 = d.keys.length
        · have at_last : d.keys[i]? = some moved := by rwa [← final'] at final
          obtain rfl := Option.some.inj (at_i.symm.trans at_last)
          refine ⟨pos, (other k pos).mpr ⟨ne, ?_⟩⟩
          rw [if_pos rfl]
          exact ⟨by omega, rfl⟩
        · refine ⟨i, (other k i).mpr ⟨ne, ?_⟩⟩
          rw [if_neg away]
          exact ⟨at_i, by omega⟩

end DenseKeys

/-! ## The index -/

/-- What the index says of a key that is not stored, or is stored with or without a deadline. -/
structure KeyIndex.Listed (index : KeyIndex) (key : String) (hasTtl : Option Bool) : Prop where
  ordered : key ∈ index.ordered ↔ hasTtl.isSome = true
  all : key ∈ index.all.keys ↔ hasTtl.isSome = true
  volatile : key ∈ index.volatile.keys ↔ hasTtl = some true

structure KeyIndex.Sound (index : KeyIndex) : Prop where
  all : index.all.Sound
  volatile : index.volatile.Sound

namespace KeyIndex

variable {index : KeyIndex}

theorem sound_empty : Sound {} := ⟨DenseKeys.sound_empty, DenseKeys.sound_empty⟩

theorem listed_empty (key : String) : Listed {} key none := by
  constructor <;> simp

theorem Sound.sync (h : index.Sound) (key : String) (hasTtl : Option Bool) :
    (index.sync key hasTtl).Sound := by
  cases hasTtl with
  | none => exact ⟨(h.all.remove key).1, (h.volatile.remove key).1⟩
  | some ttl =>
    refine ⟨(h.all.insert key).1, ?_⟩
    cases ttl with
    | true => exact (h.volatile.insert key).1
    | false => exact (h.volatile.remove key).1

theorem listed_sync (h : index.Sound) (key : String) (hasTtl : Option Bool) :
    (index.sync key hasTtl).Listed key hasTtl := by
  cases hasTtl with
  | none =>
    constructor
    · simp [KeyIndex.sync]
    · simp [KeyIndex.sync, (h.all.remove key).2]
    · simp [KeyIndex.sync, (h.volatile.remove key).2]
  | some ttl =>
    constructor
    · simp [KeyIndex.sync]
    · simp [KeyIndex.sync, (h.all.insert key).2]
    · cases ttl
      · simp [KeyIndex.sync, (h.volatile.remove key).2]
      · simp [KeyIndex.sync, (h.volatile.insert key).2]

theorem mem_volatile_sync (h : index.Sound) {key k : String} (ne : k ≠ key) (hasTtl : Option Bool) :
    k ∈ (index.sync key hasTtl).volatile.keys ↔ k ∈ index.volatile.keys := by
  rcases hasTtl with - | ttl
  · simp [KeyIndex.sync, (h.volatile.remove key).2, ne]
  · cases ttl
    · simp [KeyIndex.sync, (h.volatile.remove key).2, ne]
    · simp [KeyIndex.sync, (h.volatile.insert key).2, ne]

theorem listed_sync_other (h : index.Sound) {key k : String} (ne : k ≠ key) (hasTtl ttl : Option Bool) :
    (index.sync key hasTtl).Listed k ttl ↔ index.Listed k ttl := by
  have away : compare key k ≠ .eq := fun eq => ne (Std.LawfulEqOrd.eq_of_compare eq).symm
  have ordered : k ∈ (index.sync key hasTtl).ordered ↔ k ∈ index.ordered := by
    cases hasTtl
    · simp [KeyIndex.sync, away]
    · simp [KeyIndex.sync, away]
  have all : k ∈ (index.sync key hasTtl).all.keys ↔ k ∈ index.all.keys := by
    cases hasTtl
    · simp [KeyIndex.sync, (h.all.remove key).2, ne]
    · simp [KeyIndex.sync, (h.all.insert key).2, ne]
  have volatile := mem_volatile_sync h ne hasTtl
  constructor
  · intro listed
    exact ⟨ordered.symm.trans listed.ordered, all.symm.trans listed.all,
      volatile.symm.trans listed.volatile⟩
  · intro listed
    exact ⟨ordered.trans listed.ordered, all.trans listed.all, volatile.trans listed.volatile⟩

end KeyIndex

/-- Whether a key is stored and, if it is, whether it carries a deadline. -/
def ttlOf (data : Data) (key : String) : Option Bool := data[key]?.map fun e => e.expiresAtMs.isSome

namespace KeyValueStore

/-- The index matches the entries. -/
structure Indexed (s : KeyValueStore) : Prop where
  sound : s.index.Sound
  listed : ∀ key, s.index.Listed key (ttlOf s.data key)

variable {s s' : KeyValueStore} {now : ℕ}

theorem Indexed.of_empty (data : s.data = ∅) (index : s.index = {}) : s.Indexed := by
  refine ⟨index ▸ KeyIndex.sound_empty, fun key => ?_⟩
  rw [index, data, ttlOf, Std.ExtTreeMap.getElem?_empty]
  exact KeyIndex.listed_empty key

theorem syncKeys_listed (keys : List String) (sound : s.index.Sound)
    (others : ∀ k ∉ keys, s.index.Listed k (ttlOf s.data k)) :
    (keys.foldl .syncKeyMetadata s).Indexed := by
  induction keys generalizing s with
  | nil => exact ⟨sound, fun k => others k List.not_mem_nil⟩
  | cons key keys ih =>
    refine ih (sound.sync key _) fun k away => ?_
    by_cases same : k = key
    · subst same
      exact KeyIndex.listed_sync sound k _
    · refine (KeyIndex.listed_sync_other sound same _ _).mpr (others k ?_)
      simp [same, away]

@[simp] theorem adjustMemory_index (s : KeyValueStore) (before after : ℕ) :
    (s.adjustMemory before after).index = s.index := by
  unfold adjustMemory
  split_ifs <;> rfl

theorem Indexed.commit (h : s.Indexed) {keys : List String} {data : Data} (before : ℕ)
    (agree : ∀ k ∉ keys, data[k]? = s.data[k]?) : (s.commit keys before data).Indexed := by
  refine syncKeys_listed keys ?_ fun k away => ?_
  · rw [adjustMemory_index]
    exact h.sound
  · have listed := h.listed k
    rw [adjustMemory_index, adjustMemory_data]
    rwa [ttlOf, ← agree k away] at listed

theorem Indexed.erase (h : s.Indexed) (freed : ℕ) (key : String) :
    (({ s with data := s.data.erase key }.adjustMemory freed 0).syncKeyMetadata key).Indexed := by
  refine syncKeys_listed [key] ?_ fun k away => ?_
  · rw [adjustMemory_index]
    exact h.sound
  · have ne : compare key k ≠ .eq := fun eq =>
      away (List.mem_singleton.mpr (Std.LawfulEqOrd.eq_of_compare eq).symm)
    have listed := h.listed k
    rw [adjustMemory_index, adjustMemory_data, ttlOf, Std.ExtTreeMap.getElem?_erase, if_neg ne]
    exact listed

theorem Indexed.evictions (h : s.Indexed) {victims : List String}
    (chain : Evictions now s s' victims) : s'.Indexed := by
  refine chain.invariant (fun s s' sample key h chosen => ?_) h
  obtain ⟨-, -, -, rfl⟩ := evictOne_spec chosen
  exact h.erase _ key

theorem Indexed.tryEvictForMemory (h : s.Indexed) (env : Env) (evicted : List String) :
    (s.tryEvictForMemory env evicted).2.1.Indexed := by
  obtain ⟨victims, -, chain⟩ := tryEvictForMemory_evictions env evicted s
  exact h.evictions chain

theorem Indexed.removeExpired (h : s.Indexed) (now : ℕ) (keys : List String) :
    (s.removeExpired now keys).Indexed := by
  induction keys generalizing s with
  | nil => exact h
  | cons key keys ih =>
    rw [KeyValueStore.removeExpired, List.foldl_cons]
    refine ih ?_
    cases s.data[key]? with
    | none => exact syncKeys_listed [key] h.sound fun k _ => h.listed k
    | some e =>
      dsimp only
      split_ifs
      · exact h.erase _ key
      · exact syncKeys_listed [key] h.sound fun k _ => h.listed k

theorem Indexed.looked (h : s.Indexed) (looked : Looked s s') : s'.Indexed := by
  refine ⟨looked.index ▸ h.sound, fun key => ?_⟩
  have ttl : ttlOf s'.data key = ttlOf s.data key := by
    have cell := congrArg (Option.map fun c => c.expiresAtMs.isSome) (looked.cell key)
    rwa [Option.map_map, Option.map_map] at cell
  rw [looked.index, ttl]
  exact h.listed key

/-- Entering keys one after the other into an index. -/
theorem foldl_sync_listed (stored : List (String × Entry)) (index : KeyIndex) (sound : index.Sound)
    (distinct : (stored.map Prod.fst).Nodup) :
    (stored.foldl (fun index e => index.sync e.1 (some e.2.expiresAtMs.isSome)) index).Sound ∧
      (∀ e ∈ stored, (stored.foldl (fun index e => index.sync e.1 (some e.2.expiresAtMs.isSome))
        index).Listed e.1 (some e.2.expiresAtMs.isSome)) ∧
      ∀ k ∉ stored.map Prod.fst, ∀ ttl, index.Listed k ttl →
        (stored.foldl (fun index e => index.sync e.1 (some e.2.expiresAtMs.isSome)) index).Listed k
          ttl := by
  induction stored generalizing index with
  | nil => exact ⟨sound, by simp, fun k _ ttl listed => listed⟩
  | cons e stored ih =>
    obtain ⟨fresh, distinct⟩ := List.nodup_cons.mp distinct
    have step := sound.sync e.1 (some e.2.expiresAtMs.isSome)
    obtain ⟨sound', listed, others⟩ := ih _ step distinct
    refine ⟨sound', fun e' mem => ?_, fun k away ttl before => ?_⟩
    · obtain rfl | rest := List.mem_cons.mp mem
      · exact others _ fresh _ (KeyIndex.listed_sync sound _ _)
      · exact listed e' rest
    · obtain ⟨ne, away⟩ := List.ne_and_not_mem_of_not_mem_cons away
      exact others k away ttl ((KeyIndex.listed_sync_other sound ne _ _).mpr before)

theorem Indexed.rebuild (alive : NoneLapsed now s.data) : (s.rebuildMetadata now).Indexed := by
  have stored : (s.data.toList.filter fun e => !e.2.isExpired now) = s.data.toList := by
    have kept := congrArg Std.ExtTreeMap.toList (filter_of_noneLapsed alive)
    rwa [Std.ExtTreeMap.toList_filter] at kept
  have distinct : (s.data.toList.map Prod.fst).Nodup := by
    rw [Std.ExtTreeMap.map_fst_toList_eq_keys]
    exact Std.ExtTreeMap.nodup_keys
  obtain ⟨sound, listed, others⟩ := foldl_sync_listed s.data.toList {} KeyIndex.sound_empty distinct
  unfold rebuildMetadata
  rw [stored]
  refine ⟨sound, fun key => ?_⟩
  cases found : s.data[key]? with
  | none =>
    have away : key ∉ s.data.toList.map Prod.fst := by
      intro mem
      obtain ⟨⟨k, e⟩, held, rfl⟩ := List.mem_map.mp mem
      rw [Std.ExtTreeMap.mem_toList_iff_getElem?_eq_some.mp held] at found
      cases found
    have absent := others key away none (KeyIndex.listed_empty key)
    simpa [ttlOf, found] using absent
  | some e =>
    have present := listed (key, e) (Std.ExtTreeMap.mem_toList_iff_getElem?_eq_some.mpr found)
    simpa [ttlOf, found] using present

theorem Indexed.restore (now : ℕ) (entries : List SnapshotEntry)
    (covers : CoversLapsed now entries s.data) : (s.restore now entries).Indexed :=
  .rebuild (noneLapsed_restored covers)

end KeyValueStore

variable {codec : Codec} {env : Env} {cmd : Command} {s : KeyValueStore}

theorem KeyValueStore.Indexed.execute (h : s.Indexed)
    (alive : Rebuilds codec env cmd s → NoneLapsed env.now s.data) :
    (executeReporting codec env cmd s).2.1.Indexed := by
  have room := h.evictions (@makeRoom_evictions env cmd s)
  have books := executeReporting_books codec env cmd s
  generalize executeReporting codec env cmd s = r at books ⊢
  obtain ⟨reply, s', victims⟩ := r
  cases books with
  | looked scope looked => exact h.looked looked
  | flushed flush => exact .of_empty rfl rfl
  | rebuilt dedup scope chain _ =>
    exact (Indexed.rebuild (alive (.inr ⟨_, _, _, dedup, scope⟩))).evictions chain
  | refused outgrows => exact .rebuild (alive (.inl outgrows))
  | full scope full chain _ => exact (room.commit _ fun _ _ => rfl).evictions chain
  | wrote scope made fits chain _ =>
    exact (room.commit _ fun k hk => run_outside_scope scope _ hk).evictions chain

theorem KeyValueStore.Indexed.apply {op : StoreOp} (h : s.Indexed) (keeps : KeepsBooks codec s op) :
    (op.apply codec s).Indexed := by
  cases op with
  | execute env cmd => exact h.execute keeps
  | sweepExpired now => exact h.removeExpired now _
  | sweepExpiredBudget now start limit => exact h.removeExpired now _
  | tryEvictForMemory env => exact h.tryEvictForMemory env []
  | restore now entries => exact .restore now entries keeps
  | replace now entries => exact .restore now entries (coversLapsed_empty now entries)

/-! ## What the index is for -/

/-- The sweeper and the evictors can reach every entry: a full sweep leaves no lapsed one, a bounded
sweep from some position inspects it, and some sample of an eviction draws it. -/
structure KeyValueStore.ReachesAll (s : KeyValueStore) : Prop where
  swept : ∀ now, NoneLapsed now (s.sweepExpired now).data
  inspected : ∀ key e, s.data[key]? = some e → e.expiresAtMs.isSome = true → ∀ limit > 0,
    ∃ start, key ∈ s.sweepWindow start limit
  drawn : ∀ key e, s.data[key]? = some e → ∀ volatileOnly, (volatileOnly = true →
    e.expiresAtMs.isSome = true) → ∀ want > 0, ∃ sample, key ∈ s.indexedCandidates sample volatileOnly want

theorem mem_samplePositions {i len take : ℕ} (inside : i < len) (some : 0 < take) :
    i ∈ samplePositions [i] len take := by
  obtain ⟨take, rfl⟩ := Nat.exists_eq_succ_of_ne_zero some.ne'
  rw [samplePositions, List.mem_insertionSort]
  simp [Nat.mod_eq_of_lt inside, List.eraseDups_cons]

namespace KeyValueStore

theorem Indexed.mem_volatile (h : s.Indexed) {key : String} {e : Entry}
    (found : s.data[key]? = some e) (ttl : e.expiresAtMs.isSome = true) :
    key ∈ s.index.volatile.keys := by
  rw [(h.listed key).volatile, ttlOf, found]
  exact congrArg some ttl

theorem Indexed.reachesAll (h : s.Indexed) : s.ReachesAll := by
  constructor
  · intro now key e found
    rw [sweepExpired, getElem?_removeExpired_iff] at found
    split_ifs at found with gone
    cases lapsed : e.isExpired now with
    | false => rfl
    | true =>
      refine absurd ⟨h.mem_volatile found ?_, by rw [found]; exact lapsed⟩ gone
      exact Option.isSome_of_any lapsed
  · intro key e found ttl limit positive
    obtain ⟨i, at_i⟩ := List.mem_iff_getElem?.mp (h.mem_volatile found ttl)
    have inside : i < s.index.volatile.keys.length := (List.getElem?_eq_some_iff.mp at_i).1
    refine ⟨i, List.mem_filterMap.mpr ⟨0, List.mem_range.mpr (by omega), ?_⟩⟩
    rwa [Nat.add_zero, Nat.mod_mod, Nat.mod_eq_of_lt inside]
  · intro key e found volatileOnly ttl want positive
    have listed : key ∈ (if volatileOnly then s.index.volatile.keys else s.index.all.keys) := by
      cases volatileOnly with
      | true => exact h.mem_volatile found (ttl rfl)
      | false => exact (h.listed key).all.mpr (by rw [ttlOf, found]; rfl)
    obtain ⟨i, at_i⟩ := List.mem_iff_getElem?.mp listed
    have inside := (List.getElem?_eq_some_iff.mp at_i).1
    exact ⟨[i], List.mem_filterMap.mpr ⟨i, mem_samplePositions inside (by omega), at_i⟩⟩

end KeyValueStore

/-- The index matches the entries after every run whose steps keep the books complete, and so every
entry can be reached. -/
theorem index_matches (codec : Codec) (maxKeys maxMemoryBytes : Option ℕ) (policy : EvictionPolicy)
    (sample : ℕ) (ops : List StoreOp) (s : KeyValueStore)
    (run : Runs.exec (storeStep codec) (.withConfig maxKeys maxMemoryBytes policy sample) ops = some s)
    (each : Runs.Each (storeStep codec) (KeepsBooks codec)
      (.withConfig maxKeys maxMemoryBytes policy sample) ops) :
    s.Indexed ∧ s.ReachesAll := by
  have indexed : s.Indexed := by
    refine Runs.invariant (P := KeyValueStore.Indexed) (fun s op s' h keeps next => ?_) run each ?_
    · obtain rfl := Option.some.inj next
      exact h.apply keeps
    · exact .of_empty rfl rfl
  exact ⟨indexed, indexed.reachesAll⟩

theorem index_matches_set :
    let ops := [.execute (.fixed 0) (.set "a" [49] {}), .execute (.fixed 0) (.pSetEx "b" 10 [50]),
      .sweepExpired 5]
    ∃ s, Runs.exec (storeStep .literals) (.withConfig (some 1) none .allKeysRandom 10) ops = some s ∧
      s.Indexed ∧ s.ReachesAll := by
  intro ops
  refine ⟨_, rfl, index_matches .literals (some 1) none .allKeysRandom 10 ops _ rfl ?_⟩
  have evicts (cmd : Command) (s : KeyValueStore) (policy : s.evictionPolicy = .allKeysRandom)
      (plain : ∀ client id inner, cmd ≠ .dedup client id inner) :
      KeepsBooks .literals s (.execute (.fixed 0) cmd) := by
    rintro (⟨never, -⟩ | ⟨client, id, inner, eq, -⟩)
    · cases policy.symm.trans never
    · exact absurd eq (plain client id inner)
  refine ⟨evicts _ _ rfl nofun, fun s first => ⟨evicts _ _ ?_ nofun, fun s' second => ⟨trivial, ?_⟩⟩⟩
  · obtain rfl := Option.some.inj first
    rfl
  · exact fun _ _ => trivial

/-- A lapsed key that is stored when a snapshot is restored falls out of the index, and the sweeper does
not find it any more. -/
theorem lapsed_key_unindexed :
    ∃ s, Runs.exec (storeStep .literals) (.withConfig none none .noEviction 10)
        [.execute (.fixed 0) (.pSetEx "k" 10 [49]), .restore 100 []] = some s ∧
      s.data.contains "k" = true ∧ "k" ∉ s.index.all.keys ∧
        (s.sweepExpired 100).data.contains "k" = true :=
  ⟨_, rfl, by decide, by decide, by decide⟩

end Recached
