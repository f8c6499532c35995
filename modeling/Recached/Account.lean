import Recached.Bookkeeping
import Recached.Lib.Runs

/-!
# The memory account

The account of a store is the sum of the sizes of its entries as long as `MSET` does not evict keys
that it writes itself, and no lapsed entry is stored when the books are rebuilt: the rebuilt account
leaves lapsed entries out although they stay stored.
-/

namespace Recached

open Text Lapse KeyValueStore

def entryWeight (key : String) (e : Entry) : ℕ := entrySize key e.value

/-- The sum of the sizes of the stored entries, lapsed ones included. -/
def occupied (data : Data) : ℕ := Totals.total entryWeight data

/-- The account is the sum of the sizes of the stored entries. -/
def KeyValueStore.Accounted (s : KeyValueStore) : Prop := s.memoryBytes = occupied s.data

/-- No stored entry has lapsed. -/
def NoneLapsed (now : ℕ) (data : Data) : Prop :=
  ∀ (key : String) (e : Entry), data[key]? = some e → e.isExpired now = false

theorem footprint_congr {keys : List String} {d d' : Data} (same : ∀ k ∈ keys, d[k]? = d'[k]?) :
    footprint keys d = footprint keys d' := by
  refine congrArg List.sum (List.map_congr_left fun k mem => ?_)
  exact Totals.weightAt_congr entryWeight (same k mem)

theorem occupied_exchange {keys : List String} {d d' : Data} (distinct : keys.Nodup)
    (agree : ∀ k ∉ keys, d[k]? = d'[k]?) :
    occupied d + footprint keys d' = occupied d' + footprint keys d :=
  Totals.total_exchange entryWeight distinct agree

theorem filter_of_noneLapsed {now : ℕ} {data : Data} (alive : NoneLapsed now data) :
    data.filter (fun _ e => !e.isExpired now) = data := by
  rw [Std.ExtTreeMap.filter_eq_self_iff]
  intro k hk
  have lasts := alive k data[k] (Std.ExtTreeMap.getElem?_eq_some_getElem hk)
  simpa using lasts

/-! ## One operation -/

namespace KeyValueStore

variable {s s' : KeyValueStore} {now : ℕ}

theorem rebuildMetadata_memory (now : ℕ) (s : KeyValueStore) :
    (s.rebuildMetadata now).memoryBytes = occupied (s.data.filter fun _ e => !e.isExpired now) := by
  rw [occupied, Totals.total, Std.ExtTreeMap.toList_filter]
  rfl

theorem Accounted.rebuild (alive : NoneLapsed now s.data) : (s.rebuildMetadata now).Accounted := by
  rw [Accounted, rebuildMetadata_memory, filter_of_noneLapsed alive]
  rfl

theorem Accounted.commit (h : s.Accounted) {keys : List String} {data : Data} (distinct : keys.Nodup)
    (agree : ∀ k ∉ keys, data[k]? = s.data[k]?) :
    (s.commit keys (footprint keys s.data) data).Accounted := by
  have exchange := occupied_exchange distinct agree
  rw [Accounted, commit_memory, commit_data]
  unfold Accounted at h
  omega

/-- An entry is taken out and its size with it. -/
theorem Accounted.erase (h : s.Accounted) (key : String) :
    ({ s with data := s.data.erase key }.adjustMemory (entryMemory s.data key) 0).Accounted := by
  have erased := Totals.total_erase entryWeight s.data key
  rw [Accounted, adjustMemory_memory, adjustMemory_data]
  change s.memoryBytes = Totals.total entryWeight s.data at h
  change s.memoryBytes + (0 - entryMemory s.data key) - (entryMemory s.data key - 0) =
    Totals.total entryWeight (s.data.erase key)
  have : Totals.weightAt entryWeight s.data key = entryMemory s.data key := rfl
  omega

theorem Accounted.evictOne (h : s.Accounted) {sample : List ℕ} {key : String}
    (chosen : s.evictOne now sample = some (key, s')) : s'.Accounted := by
  obtain ⟨-, -, -, rfl⟩ := evictOne_spec chosen
  exact h.erase key

theorem Accounted.evictions (h : s.Accounted) {victims : List String}
    (chain : Evictions now s s' victims) : s'.Accounted :=
  chain.invariant (fun _ _ _ _ h chosen => h.evictOne chosen) h

theorem Accounted.tryEvictForMemory (h : s.Accounted) (env : Env) (evicted : List String) :
    (s.tryEvictForMemory env evicted).2.1.Accounted := by
  obtain ⟨victims, -, chain⟩ := tryEvictForMemory_evictions env evicted s
  exact h.evictions chain

theorem Accounted.removeExpired (h : s.Accounted) (now : ℕ) (keys : List String) :
    (s.removeExpired now keys).Accounted := by
  induction keys generalizing s with
  | nil => exact h
  | cons key keys ih =>
    rw [KeyValueStore.removeExpired, List.foldl_cons]
    refine ih ?_
    cases found : s.data[key]? with
    | none => exact h
    | some e =>
      dsimp only
      split_ifs
      · have erased := h.erase key
        have size : entryMemory s.data key = entrySize key e.value := by simp [entryMemory, found]
        rwa [size] at erased
      · exact h

theorem Accounted.looked (h : s.Accounted) (looked : Looked s s') : s'.Accounted := by
  rw [Accounted, looked.memory, h]
  refine Totals.total_congr entryWeight fun k => ?_
  have cell := congrArg (Option.map fun c => entrySize k c.value) (looked.cell k)
  rw [Option.map_map, Option.map_map] at cell
  exact cell.symm

end KeyValueStore

variable {codec : Codec} {env : Env} {cmd : Command} {s : KeyValueStore}

/-- Making room, an `MSET` evicts none of the keys that it writes. -/
def SparesOwn (env : Env) (cmd : Command) (s : KeyValueStore) : Prop :=
  ∀ pairs, cmd = .mSet pairs → ∀ key ∈ (makeRoom env cmd s).2.2, key ∉ pairs.map Prod.fst

theorem mem_scopeKeys {keys : List String} (scope : mutationScope cmd = .keys keys) {k : String} :
    k ∈ scopeKeys cmd ↔ k ∈ keys := by
  rw [scopeKeys_of_keys scope, List.mem_dedup, List.mem_insertionSort]

theorem scopeKeys_of_capped {key : String} (capped : cappedKey cmd = some key) :
    scopeKeys cmd = [key] := by
  cases cmd <;> cases capped <;> rfl

theorem makeRoom_of_capped {key : String} (capped : cappedKey cmd = some key) :
    makeRoom env cmd s =
      match s.maxKeys with
      | none => (true, s, [])
      | some max =>
        if max ≤ s.data.size && !s.data.contains key then s.evictMany env 1 [] else (true, s, []) := by
  cases cmd <;> cases capped <;> rfl

/-- The one key that a command with a capped key evicts is another one: its own is not stored. -/
theorem makeRoom_capped_other {key : String} (capped : cappedKey cmd = some key) {victim : String}
    (evicted : victim ∈ (makeRoom env cmd s).2.2) : victim ≠ key := by
  rw [makeRoom_of_capped capped] at evicted
  split at evicted
  · cases evicted
  · split_ifs at evicted with needed
    · have absent : s.data.contains key = false := by simpa using (Bool.and_eq_true_iff.mp needed).2
      simp only [evictMany] at evicted
      split at evicted
      · cases evicted
      · next chosen s' first =>
        obtain ⟨-, -, weighed, -⟩ := evictOne_spec first
        obtain ⟨e, stored, -⟩ := evictionWeight_isSome weighed
        rintro rfl
        obtain rfl := List.mem_singleton.mp evicted
        rw [Std.ExtTreeMap.contains_eq_isSome_getElem?, stored] at absent
        cases absent
    · cases evicted

theorem makeRoom_spares {keys : List String} (scope : mutationScope cmd = .keys keys)
    (spares : SparesOwn env cmd s) : ∀ key ∈ (makeRoom env cmd s).2.2, key ∉ scopeKeys cmd := by
  intro key evicted
  by_cases several : ∃ pairs, cmd = .mSet pairs
  · obtain ⟨pairs, rfl⟩ := several
    have own := spares pairs rfl key evicted
    cases scope
    rwa [mem_scopeKeys rfl]
  · cases capped : cappedKey cmd with
    | none =>
      rw [makeRoom_of_not_capped env s capped fun pairs eq => absurd ⟨pairs, eq⟩ several] at evicted
      cases evicted
    | some own =>
      rw [scopeKeys_of_capped capped, List.mem_singleton]
      exact makeRoom_capped_other capped evicted

/-- What a command occupies before it runs is not changed by making room for it. -/
theorem footprint_makeRoom {keys : List String} (scope : mutationScope cmd = .keys keys)
    (spares : SparesOwn env cmd s) :
    footprint (scopeKeys cmd) s.data = footprint (scopeKeys cmd) (makeRoom env cmd s).2.1.data := by
  have chain := (@makeRoom_evictions env cmd s).evicts.data
  refine footprint_congr fun k mem => ?_
  rw [chain]
  exact (getElem?_dropped _ _ fun evicted => makeRoom_spares scope spares k evicted mem).symm

/-- The books are rebuilt: the write is taken back, or it is an erroneous `DEDUP` of `FLUSHDB`. -/
def Rebuilds (codec : Codec) (env : Env) (cmd : Command) (s : KeyValueStore) : Prop :=
  Outgrows codec env cmd s ∨
    ∃ client id inner, cmd = .dedup client id inner ∧ mutationScope inner = .all

theorem KeyValueStore.Accounted.execute (h : s.Accounted) (spares : SparesOwn env cmd s)
    (alive : Rebuilds codec env cmd s → NoneLapsed env.now s.data) :
    (executeReporting codec env cmd s).2.1.Accounted := by
  have room := h.evictions (@makeRoom_evictions env cmd s)
  have books := executeReporting_books codec env cmd s
  generalize executeReporting codec env cmd s = r at books ⊢
  obtain ⟨reply, s', victims⟩ := r
  cases books with
  | looked scope looked => exact h.looked looked
  | flushed flush => exact Totals.total_empty _ |>.symm
  | rebuilt dedup scope chain _ =>
    exact (Accounted.rebuild (alive (.inr ⟨_, _, _, dedup, scope⟩))).evictions chain
  | refused outgrows => exact .rebuild (alive (.inl outgrows))
  | full scope full chain _ =>
    rw [footprint_makeRoom scope spares] at chain
    exact (room.commit (nodup_scopeKeys cmd) fun _ _ => rfl).evictions chain
  | wrote scope made fits chain _ =>
    rw [footprint_makeRoom scope spares] at chain
    refine (room.commit (nodup_scopeKeys cmd) fun k hk => ?_).evictions chain
    exact run_outside_scope scope _ hk

/-! ## Restoring a snapshot -/

/-- The entries of a snapshot that still live put over stored ones. -/
def restoredData (now : ℕ) (entries : List SnapshotEntry) (data : Data) : Data :=
  (entries.filter fun e => !e.2.isExpired now).foldl (fun data e => data.insert e.1 ⟨e.2, now⟩) data

/-- Every lapsed entry is put over by one of the snapshot that lives. -/
def CoversLapsed (now : ℕ) (entries : List SnapshotEntry) (data : Data) : Prop :=
  ∀ (key : String) (e : Entry), data[key]? = some e → e.isExpired now = true →
    ∃ cell, (key, cell) ∈ entries ∧ cell.isExpired now = false

theorem getElem?_restoredFold (now : ℕ) (entries : List SnapshotEntry) (data : Data) {k : String}
    {e : Entry} (found : (entries.foldl (fun data e => data.insert e.1 ⟨e.2, now⟩) data)[k]? = some e) :
    (k, e.toCell) ∈ entries ∨ (∀ cell, (k, cell) ∉ entries) ∧ data[k]? = some e := by
  induction entries generalizing data with
  | nil => exact .inr ⟨by simp, found⟩
  | cons entry entries ih =>
    obtain listed | ⟨unlisted, before⟩ := ih _ found
    · exact .inl (List.mem_cons_of_mem _ listed)
    · rw [Std.ExtTreeMap.getElem?_insert] at before
      split_ifs at before with same
      · obtain rfl := Std.LawfulEqOrd.eq_of_compare same
        obtain rfl := Option.some.inj before
        exact .inl List.mem_cons_self
      · refine .inr ⟨fun cell mem => ?_, before⟩
        obtain eq | rest := List.mem_cons.mp mem
        · exact same (by rw [← eq]; exact Std.ReflCmp.compare_self)
        · exact unlisted cell rest

theorem noneLapsed_restored {now : ℕ} {entries : List SnapshotEntry} {data : Data}
    (covers : CoversLapsed now entries data) : NoneLapsed now (restoredData now entries data) := by
  intro key e found
  obtain listed | ⟨unlisted, before⟩ := getElem?_restoredFold now _ data found
  · have lives := (List.mem_filter.mp listed).2
    simpa using lives
  · cases lapsed : e.isExpired now with
    | false => rfl
    | true =>
      obtain ⟨cell, listed, lives⟩ := covers key e before lapsed
      exact absurd (List.mem_filter.mpr ⟨listed, by simp [lives]⟩) (unlisted cell)

theorem restore_eq (now : ℕ) (entries : List SnapshotEntry) (s : KeyValueStore) :
    s.restore now entries = ({ s with data := restoredData now entries s.data }).rebuildMetadata now :=
  rfl

theorem coversLapsed_empty (now : ℕ) (entries : List SnapshotEntry) : CoversLapsed now entries ∅ := by
  intro key e found
  simp at found

/-! ## What every cell satisfies -/

section

variable {Q : Cell → Prop} {s' : KeyValueStore} {victims : List String} {now : ℕ}

theorem KeyValueStore.Evictions.every (chain : Evictions now s s' victims) (h : Lapse.Every Q s.data) :
    Lapse.Every Q s'.data := by
  refine chain.invariant (P := fun s => Lapse.Every Q s.data) (fun s s' sample key h chosen => ?_) h
  obtain ⟨-, -, -, rfl⟩ := evictOne_spec chosen
  refine h.mono fun k e found => ?_
  change (({ s with data := s.data.erase key } : KeyValueStore).adjustMemory _ 0).data[k]? = some e at found
  rw [adjustMemory_data, Std.ExtTreeMap.getElem?_erase] at found
  split_ifs at found
  exact found

theorem every_removeExpired (h : Lapse.Every Q s.data) (now : ℕ) (keys : List String) :
    Lapse.Every Q (s.removeExpired now keys).data := by
  refine h.mono fun k e found => ?_
  rw [getElem?_removeExpired_iff] at found
  split_ifs at found
  exact found

theorem every_restoredData {entries : List SnapshotEntry} {data : Data} (h : Lapse.Every Q data)
    (restored : ∀ e ∈ entries, Q e.2) : Lapse.Every Q (restoredData now entries data) := by
  intro k c mem
  obtain ⟨e, found, rfl⟩ := Option.map_eq_some_iff.mp mem
  obtain listed | ⟨-, before⟩ := getElem?_restoredFold now _ data found
  · exact restored _ (List.mem_filter.mp listed).1
  · exact h k _ (by rw [before]; rfl)

/-- A command leaves cells of a kind if its program does, on the store that room was made in. -/
theorem every_execute {env : Env} {cmd : Command} (h : Lapse.Every Q s.data)
    (ran : Lapse.Every Q (makeRoom env cmd s).2.1.data →
      Lapse.Every Q ((program codec env cmd).run env.now (makeRoom env cmd s).2.1.data).2) :
    Lapse.Every Q (executeReporting codec env cmd s).2.1.data := by
  have books := executeReporting_books codec env cmd s
  generalize executeReporting codec env cmd s = r at books ⊢
  obtain ⟨reply, s', victims⟩ := r
  have room : Lapse.Every Q (makeRoom env cmd s).2.1.data := makeRoom_evictions.every h
  cases books with
  | looked scope looked =>
    intro k
    rw [looked.cell k]
    exact h k
  | flushed flush =>
    intro k
    simpa using .none
  | rebuilt dedup scope chain _ => exact chain.every h
  | refused outgrows => exact h
  | full scope full chain _ =>
    refine chain.every ?_
    rw [commit_data]
    exact room
  | wrote scope made fits chain _ =>
    refine chain.every ?_
    rw [commit_data]
    exact ran room

/-- The entries that an operation brings in from outside. -/
def StoreOp.entries : StoreOp → List SnapshotEntry
  | .restore _ entries | .replace _ entries => entries
  | _ => []

theorem every_apply {op : StoreOp} (h : Lapse.Every Q s.data)
    (executes : ∀ env cmd, op = .execute env cmd →
      Lapse.Every Q (executeReporting codec env cmd s).2.1.data)
    (restored : ∀ e ∈ op.entries, Q e.2) : Lapse.Every Q (op.apply codec s).data := by
  cases op with
  | execute env cmd => exact executes env cmd rfl
  | sweepExpired now | sweepExpiredBudget now start limit => exact every_removeExpired h now _
  | tryEvictForMemory env =>
    obtain ⟨_, _, chain⟩ := tryEvictForMemory_evictions env [] s
    exact chain.every h
  | restore now entries => exact every_restoredData h restored
  | replace now entries => exact every_restoredData (fun k => by simpa using .none) restored

end

/-! ## Runs -/

/-- The steps that keep the books complete: no lapsed entry is stored when they are rebuilt. -/
def KeepsBooks (codec : Codec) (s : KeyValueStore) : StoreOp → Prop
  | .execute env cmd => Rebuilds codec env cmd s → NoneLapsed env.now s.data
  | .restore now entries => CoversLapsed now entries s.data
  | _ => True

/-- The steps that keep the account exact: the books stay complete and `MSET` evicts none of the keys
that it writes. -/
def KeepsAccount (codec : Codec) (s : KeyValueStore) (op : StoreOp) : Prop :=
  KeepsBooks codec s op ∧ ∀ env cmd, op = .execute env cmd → SparesOwn env cmd s

theorem KeyValueStore.Accounted.apply {op : StoreOp} (h : s.Accounted)
    (keeps : KeepsAccount codec s op) : (op.apply codec s).Accounted := by
  cases op with
  | execute env cmd => exact h.execute (keeps.2 env cmd rfl) keeps.1
  | sweepExpired now => exact h.removeExpired now _
  | sweepExpiredBudget now start limit => exact h.removeExpired now _
  | tryEvictForMemory env => exact h.tryEvictForMemory env []
  | restore now entries => exact .rebuild (noneLapsed_restored keeps.1)
  | replace now entries => exact .rebuild (noneLapsed_restored (coversLapsed_empty now entries))

/-- The account of a store is the sum of the sizes of its entries after every run whose steps keep it
exact. -/
theorem account_exact (codec : Codec) (maxKeys maxMemoryBytes : Option ℕ) (policy : EvictionPolicy)
    (sample : ℕ) (ops : List StoreOp) (s : KeyValueStore)
    (run : Runs.exec (storeStep codec) (.withConfig maxKeys maxMemoryBytes policy sample) ops = some s)
    (each : Runs.Each (storeStep codec) (KeepsAccount codec)
      (.withConfig maxKeys maxMemoryBytes policy sample) ops) :
    s.memoryBytes = occupied s.data := by
  refine Runs.invariant (P := KeyValueStore.Accounted) (fun s op s' h keeps next => ?_) run each ?_
  · obtain rfl := Option.some.inj next
    exact h.apply keeps
  · exact (Totals.total_empty _).symm

theorem account_exact_set :
    let ops := [.execute (.fixed 0) (.set "a" [49] {}), .execute (.fixed 0) (.set "b" [50, 51] {}),
      .sweepExpired 5]
    ∃ s, Runs.exec (storeStep .literals) (.withConfig (some 1) none .allKeysRandom 10) ops = some s ∧
      s.memoryBytes = occupied s.data := by
  intro ops
  refine ⟨_, rfl, account_exact .literals (some 1) none .allKeysRandom 10 ops _ rfl ?_⟩
  have evicts (key : String) (val : Bytes) (s : KeyValueStore) (policy : s.evictionPolicy = .allKeysRandom) :
      KeepsAccount .literals s (.execute (.fixed 0) (.set key val {})) := by
    refine ⟨?_, by rintro _ _ ⟨⟩ pairs ⟨⟩⟩
    rintro (⟨never, -⟩ | ⟨client, id, inner, eq, -⟩)
    · cases policy.symm.trans never
    · cases eq
  refine ⟨evicts _ _ _ rfl, fun s first => ⟨evicts _ _ _ ?_, fun s' second => ⟨⟨trivial, nofun⟩, ?_⟩⟩⟩
  · obtain rfl := Option.some.inj first
    rfl
  · exact fun _ _ => trivial

/-- `a` is evicted to make room for `b` and then written again, but its size is taken off twice; and a
lapsed key stays stored when a snapshot is restored but is left out of the account. -/
theorem account_understated :
    (∃ s, Runs.exec (storeStep .literals) (.withConfig (some 1) none .allKeysRandom 10)
        [.execute (.fixed 0) (.set "a" [49] {}),
          .execute (.fixed 0) (.mSet [("a", [49]), ("b", [50])])] = some s ∧
      s.memoryBytes ≠ occupied s.data) ∧
    ∃ s, Runs.exec (storeStep .literals) (.withConfig none none .noEviction 10)
        [.execute (.fixed 0) (.pSetEx "k" 10 [49]), .restore 100 []] = some s ∧
      s.memoryBytes ≠ occupied s.data :=
  ⟨⟨_, rfl, by decide⟩, _, rfl, by decide⟩

end Recached
