import Recached.Victims

/-!
# The ordered index

`Reindexed` says what an operation on the store does to the place of one key in the ordered index.  The
index may lose a key that has lapsed, but whatever is done to the store, a key that is live stays
listed, and only stored keys are listed.
-/

namespace Recached

open Text Lapse KeyValueStore

/-! ## The place of a key -/

/-- What becomes of a key in the ordered index at a time: it is entered as it is stored, it is left out
because it has lapsed, or nothing changes. -/
inductive Reindexed (now : ℕ) (s s' : KeyValueStore) (key : String) : Prop
  | entered (listed : key ∈ s'.index.ordered ↔ key ∈ s'.data)
  | lapsed (absent : key ∉ s'.index.ordered) (e : Entry) (found : s'.data[key]? = some e)
    (past : e.isExpired now = true)
  | kept (listed : key ∈ s'.index.ordered ↔ key ∈ s.index.ordered)
    (same : s'.data[key]?.map (·.expiresAtMs) = s.data[key]?.map (·.expiresAtMs))

namespace Reindexed

variable {now : ℕ} {s s' s'' : KeyValueStore} {key : String}

theorem refl (now : ℕ) (s : KeyValueStore) (key : String) : Reindexed now s s key := .kept Iff.rfl rfl

theorem stored_iff (same : s'.data[key]?.map (·.expiresAtMs) = s.data[key]?.map (·.expiresAtMs)) :
    key ∈ s'.data ↔ key ∈ s.data := by
  have present := congrArg Option.isSome same
  rw [Option.isSome_map, Option.isSome_map] at present
  rw [Std.ExtTreeMap.mem_iff_isSome_getElem?, Std.ExtTreeMap.mem_iff_isSome_getElem?, present]

theorem isExpired_of_same (same : s'.data[key]?.map (·.expiresAtMs) = s.data[key]?.map (·.expiresAtMs))
    {e : Entry} (found : s'.data[key]? = some e) (now : ℕ) :
    ∃ e', s.data[key]? = some e' ∧ e'.isExpired now = e.isExpired now := by
  rw [found] at same
  obtain ⟨e', found', deadline⟩ := Option.map_eq_some_iff.mp same.symm
  exact ⟨e', found', by rw [Cell.isExpired, Cell.isExpired, deadline]⟩

theorem trans (first : Reindexed now s s' key) (second : Reindexed now s' s'' key) :
    Reindexed now s s'' key := by
  cases second with
  | entered listed => exact .entered listed
  | lapsed absent e found past => exact .lapsed absent e found past
  | kept listed' same' =>
    cases first with
    | entered listed => exact .entered (listed'.trans (listed.trans (stored_iff same').symm))
    | lapsed absent e found past =>
      obtain ⟨e', found', deadline⟩ := isExpired_of_same same'.symm found now
      exact .lapsed (fun there => absent (listed'.mp there)) e' found' (deadline.trans past)
    | kept listed same => exact .kept (listed'.trans listed) (same'.trans same)

end Reindexed

namespace KeyValueStore

variable {now : ℕ} {s s' : KeyValueStore}

theorem mem_ordered_sync (index : KeyIndex) (key k : String) (hasTtl : Option Bool) :
    k ∈ (index.sync key hasTtl).ordered ↔
      if k = key then hasTtl.isSome = true else k ∈ index.ordered := by
  by_cases same : k = key
  · subst same
    rw [if_pos rfl]
    cases hasTtl <;> simp [KeyIndex.sync]
  · have away : compare key k ≠ .eq := fun eq => same (Std.LawfulEqOrd.eq_of_compare eq).symm
    rw [if_neg same]
    cases hasTtl <;> simp [KeyIndex.sync, away]

theorem mem_ordered_syncKeys (keys : List String) (s : KeyValueStore) (k : String) :
    k ∈ (keys.foldl .syncKeyMetadata s).index.ordered ↔
      if k ∈ keys then k ∈ s.data else k ∈ s.index.ordered := by
  induction keys generalizing s with
  | nil => simp
  | cons key keys ih =>
    have here : (s.syncKeyMetadata key).data = s.data := rfl
    rw [List.foldl_cons, ih, here, syncKeyMetadata, mem_ordered_sync]
    by_cases same : k = key
    · subst same
      rw [if_pos rfl, Option.isSome_map, ← Std.ExtTreeMap.mem_iff_isSome_getElem?, ite_self,
        if_pos List.mem_cons_self]
    · simp [same]

theorem reindexed_commit {keys : List String} {data : Data} (before : ℕ)
    (agree : ∀ k ∉ keys, data[k]? = s.data[k]?) (now : ℕ) (key : String) :
    Reindexed now s (s.commit keys before data) key := by
  have listed := mem_ordered_syncKeys keys ({ s with data }.adjustMemory before (footprint keys data)) key
  rw [adjustMemory_data, adjustMemory_index] at listed
  by_cases mem : key ∈ keys
  · refine .entered ?_
    rw [commit_data]
    rwa [if_pos mem] at listed
  · refine .kept ?_ ?_
    · rwa [if_neg mem] at listed
    · rw [commit_data, agree key mem]

theorem reindexed_erase (freed : ℕ) (victim : String) (now : ℕ) (key : String) :
    Reindexed now s
      (({ s with data := s.data.erase victim }.adjustMemory freed 0).syncKeyMetadata victim) key := by
  have listed := mem_ordered_syncKeys [victim]
    ({ s with data := s.data.erase victim }.adjustMemory freed 0) key
  have data := adjustMemory_data { s with data := s.data.erase victim } freed 0
  rw [adjustMemory_index] at listed
  by_cases same : key = victim
  · refine .entered (listed.trans ?_)
    rw [if_pos (by simp [same])]
    exact Iff.rfl
  · have ne : compare victim key ≠ .eq := fun eq => same (Std.LawfulEqOrd.eq_of_compare eq).symm
    refine .kept (listed.trans (by rw [if_neg (by simpa using same)])) ?_
    rw [syncKeyMetadata, data, Std.ExtTreeMap.getElem?_erase, if_neg ne]

theorem Evictions.reindexed {victims : List String} (chain : Evictions now s s' victims) (key : String) :
    Reindexed now s s' key := by
  induction chain with
  | none s => exact .refl now s key
  | next sample first _ ih =>
    obtain ⟨-, -, -, rfl⟩ := evictOne_spec first
    exact (reindexed_erase _ _ now key).trans ih

theorem reindexed_removeExpired (now : ℕ) (keys : List String) (s : KeyValueStore) (key : String) :
    Reindexed now s (s.removeExpired now keys) key := by
  have synced (s : KeyValueStore) (k : String) : Reindexed now s (s.syncKeyMetadata k) key := by
    have listed := mem_ordered_syncKeys [k] s key
    by_cases same : key = k
    · refine .entered (listed.trans ?_)
      rw [if_pos (by simp [same])]
      exact Iff.rfl
    · exact .kept (listed.trans (by rw [if_neg (by simpa using same)])) rfl
  induction keys generalizing s with
  | nil => exact .refl now s key
  | cons k keys ih =>
    rw [KeyValueStore.removeExpired, List.foldl_cons]
    refine Reindexed.trans ?_ (ih _)
    cases s.data[k]? with
    | none => exact synced s k
    | some e =>
      dsimp only
      split_ifs
      · exact reindexed_erase _ k now key
      · exact synced s k

/-- After the index was rebuilt it lists exactly the keys that are live. -/
theorem reindexed_rebuild (now : ℕ) (s s' : KeyValueStore) (key : String) :
    Reindexed now s (s'.rebuildMetadata now) key := by
  have distinct : ((s'.data.toList.filter fun e => !e.2.isExpired now).map Prod.fst).Nodup := by
    refine (List.filter_sublist.map _).nodup ?_
    rw [Std.ExtTreeMap.map_fst_toList_eq_keys]
    exact Std.ExtTreeMap.nodup_keys
  obtain ⟨-, listed, others⟩ := foldl_sync_listed _ {} KeyIndex.sound_empty distinct
  by_cases there : key ∈ (s'.data.toList.filter fun e => !e.2.isExpired now).map Prod.fst
  · obtain ⟨⟨k, e⟩, held, rfl⟩ := List.mem_map.mp there
    have found := Std.ExtTreeMap.mem_toList_iff_getElem?_eq_some.mp (List.mem_filter.mp held).1
    refine .entered ⟨fun _ => ?_, fun _ => (listed (k, e) held).ordered.mpr rfl⟩
    exact Std.ExtTreeMap.mem_iff_isSome_getElem?.mpr (by rw [rebuildMetadata, found]; rfl)
  · have absent : key ∉ (s'.rebuildMetadata now).index.ordered := fun mem => by
      have none := (others key there none (KeyIndex.listed_empty key)).ordered.mp mem
      cases none
    cases found : s'.data[key]? with
    | none =>
      refine .entered ⟨fun mem => absurd mem absent, fun mem => ?_⟩
      rw [Std.ExtTreeMap.mem_iff_isSome_getElem?, rebuildMetadata, found] at mem
      cases mem
    | some e =>
      refine .lapsed absent e found ?_
      cases past : e.isExpired now with
      | true => rfl
      | false =>
        refine absurd (List.mem_map.mpr ⟨(key, e), List.mem_filter.mpr ⟨?_, by simp [past]⟩, rfl⟩) there
        exact Std.ExtTreeMap.mem_toList_iff_getElem?_eq_some.mpr found

theorem Looked.reindexed (looked : Looked s s') (now : ℕ) (key : String) : Reindexed now s s' key := by
  refine .kept (by rw [looked.index]) ?_
  have cell := congrArg (Option.map fun c : Cell => c.expiresAtMs) (looked.cell key)
  rwa [Option.map_map, Option.map_map] at cell

end KeyValueStore

/-- The reading of the clock that an operation goes by. -/
def StoreOp.time : StoreOp → ℕ
  | .execute env _ | .tryEvictForMemory env => env.now
  | .sweepExpired now | .sweepExpiredBudget now _ _ | .restore now _ | .replace now _ => now

theorem executeReporting_reindexed (codec : Codec) (env : Env) (cmd : Command) (s : KeyValueStore)
    (key : String) : Reindexed env.now s (executeReporting codec env cmd s).2.1 key := by
  have room := (@makeRoom_evictions env cmd s).reindexed key
  have books := executeReporting_books codec env cmd s
  generalize executeReporting codec env cmd s = r at books ⊢
  obtain ⟨reply, s', victims⟩ := r
  cases books with
  | looked scope looked => exact looked.reindexed env.now key
  | flushed flush => exact .entered (by simp)
  | rebuilt dedup scope chain _ => exact (reindexed_rebuild env.now s s key).trans (chain.reindexed key)
  | refused outgrows => exact reindexed_rebuild env.now s s key
  | full scope full chain _ =>
    exact (room.trans (reindexed_commit _ (fun _ _ => rfl) env.now key)).trans (chain.reindexed key)
  | wrote scope made _ chain _ =>
    have outside (k : String) (away : k ∉ scopeKeys cmd) :
        ((program codec env cmd).run env.now (makeRoom env cmd s).2.1.data).2[k]? =
          (makeRoom env cmd s).2.1.data[k]? :=
      run_outside_scope scope _ away
    have write := reindexed_commit (footprint (scopeKeys cmd) s.data) outside env.now key
    exact (room.trans write).trans (chain.reindexed key)

theorem StoreOp.reindexed (codec : Codec) (op : StoreOp) (s : KeyValueStore) (key : String) :
    Reindexed op.time s (op.apply codec s) key := by
  cases op with
  | execute env cmd => exact executeReporting_reindexed codec env cmd s key
  | sweepExpired now => exact reindexed_removeExpired now _ s key
  | sweepExpiredBudget now start limit => exact reindexed_removeExpired now _ s key
  | tryEvictForMemory env =>
    obtain ⟨victims, -, chain⟩ := tryEvictForMemory_evictions env [] s
    exact chain.reindexed key
  | restore now entries => exact reindexed_rebuild now s _ key
  | replace now entries => exact reindexed_rebuild now s _ key

/-! ## Keys that are live -/

namespace Reindexed

variable {now : ℕ} {s s' : KeyValueStore} {key : String}

/-- A key that is listed stays listed as long as it is live. -/
theorem stays (place : Reindexed now s s' key) (there : key ∈ s.index.ordered) {e : Entry}
    (found : s'.data[key]? = some e) (alive : e.isExpired now = false) : key ∈ s'.index.ordered := by
  cases place with
  | entered listed => exact listed.mpr (Std.ExtTreeMap.mem_iff_isSome_getElem?.mpr (by rw [found]; rfl))
  | lapsed _ e' found' past =>
    obtain rfl := Option.some.inj (found.symm.trans found')
    rw [alive] at past
    cases past
  | kept listed _ => exact listed.mpr there

/-- Only keys that are stored are listed. -/
theorem stored (place : Reindexed now s s' key) (before : key ∈ s.index.ordered → key ∈ s.data)
    (there : key ∈ s'.index.ordered) : key ∈ s'.data := by
  cases place with
  | entered listed => exact listed.mp there
  | lapsed absent _ _ _ => exact absurd there absent
  | kept listed same => exact (stored_iff same).mpr (before (listed.mp there))

/-- A key is listed if it will be live at a time that is not yet over. -/
theorem live (place : Reindexed now s s' key) {since : ℕ} (le : now ≤ since)
    (before : ∀ e, s.data[key]? = some e → e.isExpired since = false → key ∈ s.index.ordered) {e : Entry}
    (found : s'.data[key]? = some e) (alive : e.isExpired since = false) : key ∈ s'.index.ordered := by
  cases place with
  | entered listed => exact listed.mpr (Std.ExtTreeMap.mem_iff_isSome_getElem?.mpr (by rw [found]; rfl))
  | lapsed _ e' found' past =>
    obtain rfl := Option.some.inj (found.symm.trans found')
    rw [isExpired_mono le past] at alive
    cases alive
  | kept listed same =>
    obtain ⟨e', found', deadline⟩ := isExpired_of_same same found since
    exact listed.mpr (before e' found' (deadline.trans alive))

end Reindexed

end Recached
