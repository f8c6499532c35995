import Recached.Changes
import Recached.Snapshot
import Recached.WriteOrder
import Recached.Lib.Totals

/-!
# What one command does to the books of a store

The key index and the memory account are kept beside the entries.  `executeReporting_books` says
once how a command changes all three: it only looks, it empties the store, it is taken back because
the memory cap refuses it, or it evicts, writes its keys, enters them in the books (`commit`) and
evicts again.
-/

namespace Recached

open Text Lapse

/-! ## Commands that only look -/

theorem readAs_looks {α : Type} (k : Kind α) (touch : Bool) (absent : Value) (f : α → Value)
    (l : Option Cell) :
    (readAs k touch absent f l).1 = .keep ∨ (readAs k touch absent f l).1 = .touch := by
  cases l with
  | none => exact .inl rfl
  | some c =>
    unfold readAs
    dsimp only
    split
    · cases touch
      · exact .inl rfl
      · exact .inr rfl
    · exact .inl rfl

theorem looks_one {key : String} {act : Act} (looks : ∀ l, (act l).1 = .keep ∨ (act l).1 = .touch) :
    (Prog.one key act : Prog Value).Looks :=
  ⟨looks, fun _ => trivial⟩

theorem looks_existKeys (keys : List String) (n : ℕ) : (existKeys keys n).Looks := by
  induction keys generalizing n with
  | nil => trivial
  | cons key keys ih => exact ⟨fun _ => .inl rfl, fun l => ih _⟩

theorem looks_mGetKeys (keys : List String) : (mGetKeys keys).Looks := by
  induction keys with
  | nil => trivial
  | cons key keys ih =>
    refine ⟨fun l => ?_, fun l => ih.bind fun _ => trivial⟩
    dsimp only
    split
    · exact .inr rfl
    · exact .inl rfl

theorem looks_readSets (keys : List String) : (readSets keys).Looks := by
  induction keys with
  | nil => trivial
  | cons key keys ih =>
    refine ⟨fun _ => .inl rfl, fun l => ?_⟩
    cases l with
    | none => exact ih.bind fun _ => trivial
    | some c =>
      dsimp only
      split
      · exact ih.bind fun _ => trivial
      · trivial

theorem looks_combine (keys : List String) (f : List (Option MemberSet) → MemberSet) :
    (combine keys f).Looks := by
  refine (looks_readSets keys).bind fun sets => ?_
  cases sets <;> trivial

theorem program_looks (codec : Codec) (env : Env) {cmd : Command}
    (reads : mutationScope cmd = .readOnly) : (program codec env cmd).Looks := by
  cases cmd
  case ping msg => cases msg <;> trivial
  case «exists» keys => exact (looks_existKeys keys 0).bind fun _ => trivial
  case mGet keys => exact (looks_mGetKeys keys).bind fun _ => trivial
  case sInter keys => exact looks_combine keys _
  case sUnion keys => exact looks_combine keys _
  case sDiff keys => exact looks_combine keys _
  case ttl key | pTtl key =>
    refine looks_one fun l => .inl ?_
    unfold ttlAct
    split <;> rfl
  all_goals first
    | (cases reads; done)
    | trivial
    | exact looks_one (readAs_looks _ _ _ _)
    | exact looks_one fun _ => .inl rfl

/-! ## Chains of evictions -/

namespace KeyValueStore

section

variable {now : ℕ} {sample : List ℕ} {s s' : KeyValueStore} {key : String}

theorem leastWeight_mem {candidates : List (String × ℕ)} {best : String × ℕ}
    (h : leastWeight candidates = some best) : best ∈ candidates := by
  induction candidates with
  | nil => cases h
  | cons c rest ih =>
    unfold leastWeight at h
    split at h
    · next b least =>
      split at h
      · obtain rfl := Option.some.inj h
        exact List.mem_cons_of_mem _ (ih least)
      · obtain rfl := Option.some.inj h
        exact List.mem_cons_self
    · obtain rfl := Option.some.inj h
      exact List.mem_cons_self

theorem evictionWeight_name {weight : String × ℕ} (h : s.evictionWeight now key = some weight) :
    weight.1 = key := by
  unfold evictionWeight at h
  split at h
  · cases h
  · split_ifs at h
    · exact congrArg Prod.fst (Option.some.inj h).symm
    · split at h
      · exact congrArg Prod.fst (Option.some.inj h).symm
      · exact congrArg Prod.fst (Option.some.inj h).symm
      · exact congrArg Prod.fst (Option.some.inj h).symm
      · obtain ⟨deadline, -, rfl⟩ := Option.map_eq_some_iff.mp h
        rfl
      · cases h

/-- The index that victims are sampled from. -/
def victims (s : KeyValueStore) : DenseKeys :=
  if s.evictionPolicy = .volatileLru || s.evictionPolicy = .volatileTtl then s.index.volatile
  else s.index.all

theorem mem_indexedCandidates {volatileOnly : Bool} {want : ℕ}
    (h : key ∈ s.indexedCandidates sample volatileOnly want) :
    key ∈ (if volatileOnly then s.index.volatile.keys else s.index.all.keys) := by
  obtain ⟨i, -, found⟩ := List.mem_filterMap.mp h
  exact List.mem_of_getElem? found

/-- An eviction takes a key that is sampled, stored and has a weight. -/
theorem evictOne_spec (h : s.evictOne now sample = some (key, s')) :
    s.evictionPolicy ≠ .noEviction ∧ key ∈ s.victims.keys ∧ (s.evictionWeight now key).isSome ∧
      s' = ({ s with data := s.data.erase key }.adjustMemory (entryMemory s.data key) 0).syncKeyMetadata
        key := by
  unfold evictOne at h
  dsimp only at h
  by_cases never : s.evictionPolicy = .noEviction
  · rw [if_pos never] at h
    cases h
  · rw [if_neg never] at h
    refine ⟨never, ?_⟩
    split at h
    · cases h
    · next chosen weight least =>
      obtain ⟨rfl, rfl⟩ := Prod.mk.inj (Option.some.inj h)
      obtain ⟨candidate, sampled, weighed⟩ := List.mem_filterMap.mp (leastWeight_mem least)
      obtain rfl := evictionWeight_name weighed
      refine ⟨?_, by rw [weighed]; rfl, rfl⟩
      have listed := mem_indexedCandidates sampled
      unfold victims
      split_ifs at listed ⊢ <;> exact listed

theorem evictionWeight_isSome (h : (s.evictionWeight now key).isSome) :
    ∃ e, s.data[key]? = some e ∧ (e.isExpired now = true ∨ s.evictionPolicy ≠ .noEviction ∧
      (s.evictionPolicy = .volatileTtl → e.expiresAtMs.isSome = true)) := by
  unfold evictionWeight at h
  cases found : s.data[key]? with
  | none => simp [found] at h
  | some e =>
    refine ⟨e, rfl, ?_⟩
    simp only [found] at h
    split_ifs at h with lapsed
    · exact .inl lapsed
    · refine .inr ?_
      cases policy : s.evictionPolicy <;> simp [policy] at h ⊢
      exact h

end

/-- A chain of evictions at a time, whatever each of them samples, and its victims in order. -/
inductive Evictions (now : ℕ) : KeyValueStore → KeyValueStore → List String → Prop
  | none (s : KeyValueStore) : Evictions now s s []
  | next {s s' s'' : KeyValueStore} {key : String} {victims : List String} (sample : List ℕ)
    (first : s.evictOne now sample = some (key, s')) (rest : Evictions now s' s'' victims) :
    Evictions now s s'' (key :: victims)

section

variable {now : ℕ} {s s' s'' : KeyValueStore} {victims victims' : List String}

theorem Evictions.trans (h : Evictions now s s' victims) (h' : Evictions now s' s'' victims') :
    Evictions now s s'' (victims ++ victims') := by
  induction h with
  | none _ => exact h'
  | next sample first _ ih => exact .next sample first (ih h')

theorem Evictions.evicts (h : Evictions now s s' victims) : Evicts s s' victims := by
  induction h with
  | none _ => exact .refl _
  | next _ first _ ih => exact (evictOne_evicts first).trans ih

theorem Evictions.limits (h : Evictions now s s' victims) : SameLimits s s' := by
  induction h with
  | none _ => exact .refl _
  | next _ first _ ih => exact (evictOne_limits first).trans ih

/-- What every eviction preserves holds after a chain of them. -/
theorem Evictions.invariant {P : KeyValueStore → Prop}
    (keeps : ∀ s s' sample key, P s → s.evictOne now sample = some (key, s') → P s')
    (h : Evictions now s s' victims) (start : P s) : P s' := by
  induction h with
  | none _ => exact start
  | next _ first _ ih => exact ih (keeps _ _ _ _ start first)

end

theorem evictOne_size {now : ℕ} {s s' : KeyValueStore} {sample : List ℕ} {key : String}
    (chosen : s.evictOne now sample = some (key, s')) : s'.data.size + 1 = s.data.size := by
  obtain ⟨-, -, weighed, rfl⟩ := evictOne_spec chosen
  obtain ⟨e, stored, -⟩ := evictionWeight_isSome weighed
  have there : key ∈ s.data := Std.ExtTreeMap.mem_iff_isSome_getElem?.mpr (by rw [stored]; rfl)
  have positive : s.data.size ≠ 0 := fun empty => by
    rw [Std.ExtTreeMap.eq_empty_iff_size_eq_zero.mpr empty] at there
    exact Std.ExtTreeMap.not_mem_empty there
  change (({ s with data := s.data.erase key } : KeyValueStore).adjustMemory _ 0).data.size + 1 = _
  rw [adjustMemory_data, Std.ExtTreeMap.size_erase, if_pos (Std.ExtTreeMap.mem_iff_contains.mp there)]
  omega

theorem Evictions.size {now : ℕ} {s s' : KeyValueStore} {victims : List String}
    (chain : Evictions now s s' victims) : s'.data.size + victims.length = s.data.size := by
  induction chain with
  | none s => rfl
  | next sample first _ ih =>
    have one := evictOne_size first
    rw [List.length_cons]
    omega

variable (env : Env)

theorem evictMany_evictions (n : ℕ) (evicted : List String) (s : KeyValueStore) :
    ∃ victims, (s.evictMany env n evicted).2.2 = evicted ++ victims ∧
      Evictions env.now s (s.evictMany env n evicted).2.1 victims := by
  induction n generalizing evicted s with
  | zero => exact ⟨[], (List.append_nil _).symm, .none s⟩
  | succ n ih =>
    unfold evictMany
    split
    · exact ⟨[], (List.append_nil _).symm, .none s⟩
    · next key s' chosen =>
      obtain ⟨victims, list, chain⟩ := ih (evicted ++ [key]) s'
      exact ⟨key :: victims, by rw [list, List.append_assoc]; rfl, .next _ chosen chain⟩

theorem evictUntil_evictions (target fuel : ℕ) (evicted : List String) (s : KeyValueStore) :
    ∃ victims, (s.evictUntil env target fuel evicted).2 = evicted ++ victims ∧
      Evictions env.now s (s.evictUntil env target fuel evicted).1 victims := by
  induction fuel generalizing evicted s with
  | zero => exact ⟨[], (List.append_nil _).symm, .none s⟩
  | succ fuel ih =>
    unfold evictUntil
    split_ifs
    · exact ⟨[], (List.append_nil _).symm, .none s⟩
    · split
      · exact ⟨[], (List.append_nil _).symm, .none s⟩
      · next key s' chosen =>
        obtain ⟨victims, list, chain⟩ := ih (evicted ++ [key]) s'
        exact ⟨key :: victims, by rw [list, List.append_assoc]; rfl, .next _ chosen chain⟩

theorem tryEvictForMemory_evictions (evicted : List String) (s : KeyValueStore) :
    ∃ victims, (s.tryEvictForMemory env evicted).2.2 = evicted ++ victims ∧
      Evictions env.now s (s.tryEvictForMemory env evicted).2.1 victims := by
  unfold tryEvictForMemory
  split
  · exact ⟨[], (List.append_nil _).symm, .none s⟩
  · exact evictUntil_evictions ..

/-- The loop of evictions ends: below its target, or without a victim. -/
theorem evictUntil_ends (target fuel : ℕ) (evicted : List String) (s : KeyValueStore)
    (enough : s.data.size < fuel) :
    (s.evictUntil env target fuel evicted).1.memoryBytes ≤ target ∨
      ∃ sample, (s.evictUntil env target fuel evicted).1.evictOne env.now sample = none := by
  induction fuel generalizing evicted s with
  | zero => omega
  | succ fuel ih =>
    unfold evictUntil
    split_ifs with below
    · exact .inl below
    · split
      · next stuck => exact .inr ⟨_, stuck⟩
      · next key s' chosen =>
        have smaller := evictOne_size chosen
        exact ih (evicted ++ [key]) s' (by omega)

/-- Nothing more is evicted for memory: the account is below the cap, or there is no victim. -/
def Rests (now : ℕ) (s : KeyValueStore) : Prop :=
  ∀ limit ∈ s.maxMemoryBytes, s.memoryBytes ≤ limit - limit / evictionHeadroomDivisor ∨
    ∃ sample, s.evictOne now sample = none

theorem tryEvictForMemory_rests (evicted : List String) (s : KeyValueStore) :
    (s.tryEvictForMemory env evicted).2.1.Rests env.now := by
  intro limit cap
  have limits := (tryEvictForMemory_limits env evicted s).2.1
  rw [limits] at cap
  unfold tryEvictForMemory
  rw [Option.mem_def.mp cap]
  exact evictUntil_ends env _ _ evicted s (Nat.lt_succ_self _)

end KeyValueStore

open KeyValueStore

variable {codec : Codec} {env : Env} {cmd : Command} {s : KeyValueStore}

theorem makeRoom_evictions :
    Evictions env.now s (makeRoom env cmd s).2.1 (makeRoom env cmd s).2.2 := by
  have many (n : ℕ) : Evictions env.now s (s.evictMany env n []).2.1 (s.evictMany env n []).2.2 := by
    obtain ⟨victims, list, chain⟩ := evictMany_evictions env n [] s
    rw [list]
    exact chain
  unfold makeRoom
  split
  · exact .none s
  · split
    · exact many _
    · split
      · exact .none s
      · split
        · exact many 1
        · exact .none s

/-! ## The books after a command -/

/-- What the entries of some keys occupy. -/
def footprint (keys : List String) (data : Data) : ℕ := (keys.map (entryMemory data)).sum

namespace KeyValueStore

/-- New entries of some keys, which occupied `before`, entered in the account and in the index. -/
def commit (keys : List String) (before : ℕ) (data : Data) (s : KeyValueStore) : KeyValueStore :=
  keys.foldl .syncKeyMetadata ({ s with data }.adjustMemory before (footprint keys data))

@[simp] theorem commit_data (keys : List String) (before : ℕ) (data : Data) (s : KeyValueStore) :
    (s.commit keys before data).data = data := by
  simp [commit]

theorem adjustMemory_memory (s : KeyValueStore) (before after : ℕ) :
    (s.adjustMemory before after).memoryBytes = s.memoryBytes + (after - before) - (before - after) := by
  unfold adjustMemory
  split_ifs
  · dsimp only
    omega
  · dsimp only
    omega

theorem commit_memory (keys : List String) (before : ℕ) (data : Data) (s : KeyValueStore) :
    (s.commit keys before data).memoryBytes =
      s.memoryBytes + (footprint keys data - before) - (before - footprint keys data) := by
  rw [commit, syncKeys_memory, adjustMemory_memory]

/-- Committing leaves everything but the entries, the account and the index. -/
theorem commit_parts (keys : List String) (before : ℕ) (data : Data) (s : KeyValueStore) :
    ∃ memoryBytes index, s.commit keys before data = { s with data, memoryBytes, index } := by
  have synced (keys : List String) (s : KeyValueStore) :
      ∃ index, keys.foldl .syncKeyMetadata s = { s with index } := by
    induction keys generalizing s with
    | nil => exact ⟨s.index, rfl⟩
    | cons key keys ih => exact ih (s.syncKeyMetadata key)
  obtain ⟨index, eq⟩ := synced keys ({ s with data }.adjustMemory before (footprint keys data))
  rw [commit, eq]
  unfold adjustMemory
  split_ifs <;> exact ⟨_, index, rfl⟩

theorem commit_limits (keys : List String) (before : ℕ) (data : Data) (s : KeyValueStore) :
    SameLimits s (s.commit keys before data) := by
  have same : SameLimits s { s with data } := ⟨rfl, rfl, rfl⟩
  exact same.trans ((adjustMemory_limits ..).trans (syncKeys_limits ..))

/-- Only the times of last use and the scan cursors may differ. -/
structure Looked (s s' : KeyValueStore) : Prop where
  cell : ∀ k : String, s'.data[k]?.map Lapse.Entry.toCell = s.data[k]?.map Lapse.Entry.toCell
  memory : s'.memoryBytes = s.memoryBytes
  index : s'.index = s.index
  limits : SameLimits s s'
  sample : s'.evictionSample = s.evictionSample

end KeyValueStore

/-- The keys whose entries a command may write, each once. -/
def scopeKeys (cmd : Command) : List String :=
  match mutationScope cmd with
  | .keys keys => (keys.insertionSort (· ≤ ·)).dedup
  | _ => []

theorem nodup_scopeKeys (cmd : Command) : (scopeKeys cmd).Nodup := by
  unfold scopeKeys
  split
  · exact List.nodup_dedup _
  · exact List.nodup_nil

/-- The store as the write itself would leave it, before anything is evicted. -/
def written (codec : Codec) (env : Env) (cmd : Command) (s : KeyValueStore) : KeyValueStore :=
  s.commit (scopeKeys cmd) (footprint (scopeKeys cmd) s.data)
    ((program codec env cmd).run env.now s.data).2

/-- A write that grows past the memory cap of a store which evicts nothing. -/
def Outgrows (codec : Codec) (env : Env) (cmd : Command) (s : KeyValueStore) : Prop :=
  s.evictionPolicy = .noEviction ∧ (makeRoom env cmd s).1 = true ∧
    s.memoryBytes < (written codec env cmd s).memoryBytes ∧
      ∃ limit ∈ s.maxMemoryBytes, limit < (written codec env cmd s).memoryBytes

def oomError : Value := .error "OOM command not allowed when used memory > 'maxmemory'."

def maxKeysError : Value := .error "ERR max keys limit reached"

def dedupError : Value := .error "ERR DEDUP is only available on the WebSocket port"

/-- The reply of a command, the store after it and the keys it evicted. -/
inductive Books (codec : Codec) (env : Env) (cmd : Command) (s : KeyValueStore) :
    Value → KeyValueStore → List String → Prop
  | looked {reply : Value} {s' : KeyValueStore} (scope : mutationScope cmd = .readOnly)
    (looked : Looked s s') : Books codec env cmd s reply s' []
  | flushed (flush : cmd = .flushDb) :
    Books codec env cmd s ok { s with data := ∅, memoryBytes := 0, index := {} } []
  -- `DEDUP` is an error in the store, but its scope is that of the command inside
  | rebuilt {client : String} {id : ℕ} {inner : Command} {s' : KeyValueStore} {post : List String}
    (dedup : cmd = .dedup client id inner) (scope : mutationScope inner = .all)
    (evicted : Evictions env.now (s.rebuildMetadata env.now) s' post) (rests : s'.Rests env.now) :
    Books codec env cmd s dedupError s' post
  | refused (outgrows : Outgrows codec env cmd s) :
    Books codec env cmd s oomError (s.rebuildMetadata env.now) []
  | full {s' : KeyValueStore} {keys post : List String} (scope : mutationScope cmd = .keys keys)
    (full : (makeRoom env cmd s).1 = false)
    (evicted : Evictions env.now ((makeRoom env cmd s).2.1.commit (scopeKeys cmd)
      (footprint (scopeKeys cmd) s.data) (makeRoom env cmd s).2.1.data) s' post)
    (rests : s'.Rests env.now) : Books codec env cmd s maxKeysError s' ((makeRoom env cmd s).2.2 ++ post)
  | wrote {s' : KeyValueStore} {keys post : List String} (scope : mutationScope cmd = .keys keys)
    (room : (makeRoom env cmd s).1 = true) (fits : ¬ Outgrows codec env cmd s)
    (evicted : Evictions env.now ((makeRoom env cmd s).2.1.commit (scopeKeys cmd)
      (footprint (scopeKeys cmd) s.data)
      ((program codec env cmd).run env.now (makeRoom env cmd s).2.1.data).2) s' post)
    (rests : s'.Rests env.now) :
    Books codec env cmd s ((program codec env cmd).run env.now (makeRoom env cmd s).2.1.data).1 s'
      ((makeRoom env cmd s).2.2 ++ post)

theorem direct_of_keys {keys : List String} (scope : mutationScope cmd = .keys keys) :
    readsKeyspace cmd = false := by
  cases cmd <;> first | rfl | cases scope

theorem scopeKeys_of_keys {keys : List String} (scope : mutationScope cmd = .keys keys) :
    scopeKeys cmd = (keys.insertionSort (· ≤ ·)).dedup := by
  rw [scopeKeys, scope]

/-- A write leaves the entries outside its scope. -/
theorem run_outside_scope {keys : List String} (scope : mutationScope cmd = .keys keys) (data : Data)
    {k : String} (hk : k ∉ scopeKeys cmd) :
    ((program codec env cmd).run env.now data).2[k]? = data[k]? := by
  have notFlush : cmd ≠ .flushDb := by
    rintro rfl
    cases scope
  refine Prog.run_frame (program_on codec env notFlush) env.now data fun listed => hk ?_
  rw [scopeKeys_of_keys scope, List.mem_dedup, List.mem_insertionSort]
  exact scope_listed scope k listed

theorem makeRoom_of_readOnly (reads : mutationScope cmd = .readOnly) :
    makeRoom env cmd s = (true, s, []) := by
  refine makeRoom_of_not_capped env s ?_ fun pairs eq => ?_
  · cases cmd <;> first | rfl | cases reads
  · subst eq
    cases reads

theorem executeInner_looked (reads : mutationScope cmd = .readOnly) :
    Looked s (executeInner codec env cmd s).2.1 ∧ (executeInner codec env cmd s).2.2 = [] := by
  unfold executeInner
  split
  · exact ⟨⟨fun _ => rfl, rfl, rfl, .refl s, rfl⟩, rfl⟩
  · unfold scanKeys
    dsimp only
    split_ifs <;> exact ⟨⟨fun _ => rfl, rfl, rfl, .refl s, rfl⟩, rfl⟩
  · exact ⟨⟨fun _ => rfl, rfl, rfl, .refl s, rfl⟩, rfl⟩
  · rw [makeRoom_of_readOnly reads]
    exact ⟨⟨Prog.cell_run_looks (program_looks codec env reads) env.now s.data, rfl, rfl, .refl s,
      rfl⟩, rfl⟩

/-- A command that only reads replies what it says on the live cells, whatever the limits. -/
theorem execute_reads (codec : Codec) (env : Env) {cmd : Command} (s : KeyValueStore)
    (reads : mutationScope cmd = .readOnly) (direct : readsKeyspace cmd = false) :
    (execute codec env cmd s).1 = (perform codec env cmd (s.live env.now)).1 := by
  have inner : (executeInner codec env cmd s).1 = (perform codec env cmd (s.live env.now)).1 := by
    unfold executeInner
    split
    case h_1 | h_2 | h_3 => cases direct
    rw [makeRoom_of_readOnly reads]
    exact Prog.run_fst ..
  rw [← inner, execute, executeReporting, reads]

theorem readAs_of_held {α : Type} {k : Kind α} {cell : Option Cell} {x : α} (there : held k cell = some x)
    (touch : Bool) (absent : Value) (f : α → Value) : (readAs k touch absent f cell).2 = f x := by
  obtain ⟨c, rfl, unwrap⟩ := Option.bind_eq_some_iff.mp there
  rw [readAs, unwrap]

/-- A command that the key cap does not check does what it says on the live cells. -/
theorem executeInner_performs (codec : Codec) (env : Env) {cmd : Command} (s : KeyValueStore)
    (direct : readsKeyspace cmd = false) (one : cappedKey cmd = none)
    (several : ∀ pairs, cmd = .mSet pairs → pairs = []) :
    (executeInner codec env cmd s).1 = (perform codec env cmd (s.live env.now)).1 ∧
      (executeInner codec env cmd s).2.1.live env.now = (perform codec env cmd (s.live env.now)).2 := by
  rw [executeInner_of_room codec direct (makeRoom_of_not_capped env s one several)]
  exact ⟨Prog.run_fst .., live_run ..⟩

theorem rebuildMetadata_empty (now : ℕ) (s : KeyValueStore) :
    ({ s with data := ∅ } : KeyValueStore).rebuildMetadata now =
      { s with data := ∅, memoryBytes := 0, index := {} } := by
  have none : (∅ : Data).toList = [] := Std.ExtTreeMap.toList_eq_nil_iff.mpr rfl
  simp [rebuildMetadata, none]

theorem evictUntil_of_le {target fuel : ℕ} {evicted : List String} (le : s.memoryBytes ≤ target) :
    s.evictUntil env target fuel evicted = (s, evicted) := by
  cases fuel with
  | zero => rfl
  | succ fuel => rw [evictUntil, if_pos le]

theorem tryEvictForMemory_of_empty {evicted : List String} (empty : s.memoryBytes = 0) :
    (s.tryEvictForMemory env evicted).2 = (s, evicted) := by
  unfold tryEvictForMemory
  split
  · rfl
  · dsimp only
    rw [evictUntil_of_le (empty ▸ Nat.zero_le _)]

theorem restore_scope {keys : List String} {d : Data} (agree : ∀ k ∉ keys, d[k]? = s.data[k]?) :
    (keys.map fun key => (key, s.data[key]?)).foldl restoreEntry d = s.data := by
  refine Std.ExtTreeMap.ext_getElem? fun k => ?_
  rw [getElem?_restore]
  split_ifs with listed
  · rfl
  · exact agree k listed

/-- Without eviction, the cap refuses a write that has grown past it. -/
theorem takenBack_iff {c : KeyValueStore} (before : ℕ) (evicted : List String) :
    (!(c.tryEvictForMemory env evicted).1 &&
        decide (before < (c.tryEvictForMemory env evicted).2.1.memoryBytes) &&
        decide ((c.tryEvictForMemory env evicted).2.1.evictionPolicy = .noEviction)) = true ↔
      c.evictionPolicy = .noEviction ∧ before < c.memoryBytes ∧
        ∃ limit ∈ c.maxMemoryBytes, limit < c.memoryBytes := by
  have policy := (tryEvictForMemory_limits env evicted c).2.2
  rw [policy]
  by_cases never : c.evictionPolicy = .noEviction
  · have same : (c.tryEvictForMemory env evicted).2 = (c, evicted) :=
      tryEvictForMemory_noEviction never evicted
    have within : (c.tryEvictForMemory env evicted).1 =
        c.maxMemoryBytes.all fun limit => c.memoryBytes ≤ limit := by
      unfold tryEvictForMemory at same ⊢
      cases cap : c.maxMemoryBytes with
      | none => rfl
      | some limit =>
        rw [cap] at same
        exact congrArg (fun p => decide (p.1.memoryBytes ≤ limit)) same
    rw [same, within]
    cases c.maxMemoryBytes with
    | none => simp
    | some limit =>
      simp [never]
      omega
  · simp [never]

/-- How a command changes the entries, the index and the account. -/
theorem executeReporting_books (codec : Codec) (env : Env) (cmd : Command) (s : KeyValueStore) :
    Books codec env cmd s (executeReporting codec env cmd s).1 (executeReporting codec env cmd s).2.1
      (executeReporting codec env cmd s).2.2 := by
  cases scope : mutationScope cmd with
  | readOnly =>
    obtain ⟨looked, none⟩ := @executeInner_looked codec env cmd s scope
    unfold executeReporting
    rw [scope]
    dsimp only
    rw [none]
    exact .looked scope looked
  | all =>
    unfold executeReporting
    rw [scope]
    dsimp only
    cases cmd
    case flushDb =>
      rw [executeInner_of_room codec rfl (makeRoom_of_not_capped env s rfl (by rintro _ ⟨⟩))]
      have empty := rebuildMetadata_empty env.now s
      change Books codec env .flushDb s ok
        ((({ s with data := ∅ } : KeyValueStore).rebuildMetadata env.now).tryEvictForMemory env []).2.1
        ((({ s with data := ∅ } : KeyValueStore).rebuildMetadata env.now).tryEvictForMemory env []).2.2
      rw [tryEvictForMemory_of_empty (by rw [empty]), empty]
      exact .flushed rfl
    case dedup client id inner =>
      rw [executeInner_of_room codec rfl (makeRoom_of_not_capped env s rfl (by rintro _ ⟨⟩))]
      obtain ⟨post, list, chain⟩ := tryEvictForMemory_evictions env [] (s.rebuildMetadata env.now)
      have inside : mutationScope inner = .all := scope
      have rebuilt := @Books.rebuilt codec env _ s client id inner _ _ rfl inside chain
        (tryEvictForMemory_rests env [] _)
      rw [List.nil_append] at list
      rwa [← list] at rebuilt
    all_goals cases scope
  | keys keys =>
    have never := @makeRoom_noEviction env cmd s
    have limits := makeRoom_limits env cmd s
    have same := scopeKeys_of_keys scope
    cases room : makeRoom env cmd s with
    | mk made rest =>
      obtain ⟨s₁, pre⟩ := rest
      rw [room] at never limits
      have made_eq : (makeRoom env cmd s).1 = made := by rw [room]
      have store_eq : (makeRoom env cmd s).2.1 = s₁ := by rw [room]
      have pre_eq : (makeRoom env cmd s).2.2 = pre := by rw [room]
      -- the store that the last evictions start from
      have finish (d : Data) (reply : Value)
          (inner : executeInner codec env cmd s = (reply, { s₁ with data := d }, pre)) :
          let c := s₁.commit (scopeKeys cmd) (footprint (scopeKeys cmd) s.data) d
          executeReporting codec env cmd s =
            if (!(c.tryEvictForMemory env pre).1 &&
                decide (s.memoryBytes < (c.tryEvictForMemory env pre).2.1.memoryBytes) &&
                decide ((c.tryEvictForMemory env pre).2.1.evictionPolicy = .noEviction)) = true then
              (oomError, ({ (c.tryEvictForMemory env pre).2.1 with
                data := ((scopeKeys cmd).map fun key => (key, s.data[key]?)).foldl restoreEntry
                  (c.tryEvictForMemory env pre).2.1.data }).rebuildMetadata env.now, [])
            else (reply, (c.tryEvictForMemory env pre).2) := by
        unfold executeReporting
        rw [scope]
        dsimp only
        rw [inner, ← same]
        rfl
      cases made with
      | false =>
        have inner := executeInner_of_no_room codec (direct_of_keys scope) room
        rw [finish s₁.data maxKeysError inner]
        dsimp only
        rw [if_neg]
        · obtain ⟨post, list, chain⟩ := tryEvictForMemory_evictions env pre
            (s₁.commit (scopeKeys cmd) (footprint (scopeKeys cmd) s.data) s₁.data)
          have full := @Books.full codec env cmd s _ keys post scope made_eq
            (by rwa [store_eq]) (tryEvictForMemory_rests env pre _)
          rwa [pre_eq, ← list] at full
        · rw [takenBack_iff]
          rintro ⟨policy, grown, -⟩
          rw [(commit_limits _ _ _ _).2.2, limits.2.2] at policy
          obtain ⟨rfl, -⟩ := Prod.mk.inj (never policy)
          rw [commit_memory] at grown
          omega
      | true =>
        have inner := executeInner_of_room codec (direct_of_keys scope) room
        have refusal : (s₁.commit (scopeKeys cmd) (footprint (scopeKeys cmd) s.data)
            ((program codec env cmd).run env.now s₁.data).2).evictionPolicy = .noEviction →
            s₁ = s ∧ pre = [] := by
          intro policy
          rw [(commit_limits _ _ _ _).2.2, limits.2.2] at policy
          exact Prod.mk.inj (never policy)
        rw [finish _ _ inner]
        dsimp only
        split_ifs with taken
        · obtain ⟨policy, grown, past⟩ := (takenBack_iff _ _).mp taken
          obtain ⟨rfl, rfl⟩ := refusal policy
          rw [tryEvictForMemory_noEviction policy, commit_data,
            restore_scope fun k hk => run_outside_scope scope s₁.data hk]
          have limits' := commit_limits (scopeKeys cmd) (footprint (scopeKeys cmd) s₁.data)
            ((program codec env cmd).run env.now s₁.data).2 s₁
          rw [limits'.2.1] at past
          have refused := @Books.refused codec env cmd s₁
            ⟨limits'.2.2.symm.trans policy, made_eq, grown, past⟩
          obtain ⟨memory, index, eq⟩ := commit_parts (scopeKeys cmd)
            (footprint (scopeKeys cmd) s₁.data) ((program codec env cmd).run env.now s₁.data).2 s₁
          rw [eq]
          exact refused
        · obtain ⟨post, list, chain⟩ := tryEvictForMemory_evictions env pre
            (s₁.commit (scopeKeys cmd) (footprint (scopeKeys cmd) s.data)
              ((program codec env cmd).run env.now s₁.data).2)
          have fits : ¬ Outgrows codec env cmd s := by
            rintro ⟨policy, -, grown, past⟩
            obtain ⟨rfl, rfl⟩ := Prod.mk.inj (never policy)
            have limits' := commit_limits (scopeKeys cmd) (footprint (scopeKeys cmd) s₁.data)
              ((program codec env cmd).run env.now s₁.data).2 s₁
            refine taken ((takenBack_iff _ _).mpr ⟨limits'.2.2.trans policy, grown, ?_⟩)
            rwa [limits'.2.1]
          have wrote := @Books.wrote codec env cmd s _ keys post scope made_eq fits
            (by rwa [store_eq]) (tryEvictForMemory_rests env pre _)
          rwa [pre_eq, ← list, store_eq] at wrote

/-! ## Operations on a store -/

namespace KeyValueStore

/-- The volatile keys that a bounded sweep inspects: `limit` of them from a cursor on. -/
def sweepWindow (start limit : ℕ) (s : KeyValueStore) : List String :=
  let keys := s.index.volatile.keys
  (List.range (min limit keys.length)).filterMap fun offset =>
    keys[(start % keys.length + offset) % keys.length]?

def sweepExpiredBudget (now start limit : ℕ) (s : KeyValueStore) : KeyValueStore :=
  s.removeExpired now (s.sweepWindow start limit)

def sweepExpired (now : ℕ) (s : KeyValueStore) : KeyValueStore :=
  s.removeExpired now s.index.volatile.keys

/-- A new store with its limits; an eviction samples at least one key. -/
def withConfig (maxKeys maxMemoryBytes : Option ℕ) (evictionPolicy : EvictionPolicy)
    (evictionSample : ℕ) : KeyValueStore :=
  { maxKeys, maxMemoryBytes, evictionPolicy, evictionSample := max evictionSample 1 }

end KeyValueStore

/-- What is done to a store. -/
inductive StoreOp where
  | execute (env : Env) (cmd : Command)
  | sweepExpired (now : ℕ)
  | sweepExpiredBudget (now start limit : ℕ)
  | tryEvictForMemory (env : Env)
  | restore (now : ℕ) (entries : List SnapshotEntry)
  | replace (now : ℕ) (entries : List SnapshotEntry)

def StoreOp.apply (codec : Codec) (s : KeyValueStore) : StoreOp → KeyValueStore
  | .execute env cmd => (executeReporting codec env cmd s).2.1
  | .sweepExpired now => s.sweepExpired now
  | .sweepExpiredBudget now start limit => s.sweepExpiredBudget now start limit
  | .tryEvictForMemory env => (s.tryEvictForMemory env []).2.1
  | .restore now entries => s.restore now entries
  | .replace now entries => s.replace now entries

/-- Every operation is possible in every state. -/
def storeStep (codec : Codec) (s : KeyValueStore) (op : StoreOp) : Option KeyValueStore :=
  some (op.apply codec s)

end Recached
