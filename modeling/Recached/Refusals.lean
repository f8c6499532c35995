import Recached.Capacity

/-!
# Refused writes

Every arm of `broadcastFor` decides for itself which replies mean that a write was applied.
`refused_iff` says for which commands a refusal is never propagated: those whose arm looks at the
reply, and those that no store refuses.
-/

namespace Recached

open Text Lapse KeyValueStore

/-- The commands whose frame does not depend on whether the reply is an error. -/
def ignoresReply : Command → Bool
  | .eSet _ _ | .set _ _ _ | .del _ | .unlink _ | .mSet _ | .setEx _ _ _ | .pSetEx _ _ _ | .getSet _ _
  | .flushDb | .hSet _ _ | .lPush _ _ | .rPush _ _ | .lPop _ _ | .rPop _ _ | .lTrim _ _ _
  | .sInterStore _ _ | .sUnionStore _ _ | .sDiffStore _ _ | .zAdd _ _ _ | .zIncrBy _ _ _
  | .rlSet _ _ _ => true
  | _ => false

/-- The commands that no store refuses. -/
def neverRefused : Command → Bool
  | .del _ | .unlink _ | .flushDb => true
  | .mSet pairs => pairs.isEmpty
  | _ => false

theorem broadcastFor_error (cmd : Command) (message : String) (now : ℕ) :
    broadcastFor cmd (.error message) now = none ↔ ignoresReply cmd = false := by
  cases cmd
  case set key val opts =>
    refine iff_of_false ?_ nofun
    simp [broadcastFor, frameParts, isNil, setFrame, frame]
  all_goals first
    | exact iff_of_true rfl rfl
    | exact iff_of_false nofun nofun

theorem applyWriteEffects_eq_self_iff (st : ServerState) (now origin : ℕ) (cmd : Command)
    (reply : Value) : st.applyWriteEffects now origin cmd reply = st ↔
      broadcastFor cmd reply now = none := by
  unfold ServerState.applyWriteEffects
  cases broadcastFor cmd reply now with
  | none => exact iff_of_true rfl rfl
  | some msg =>
    refine iff_of_false (fun same => ?_) nofun
    have := congrArg (fun st => st.log.length) same
    simp at this

/-! ## Commands that no store refuses -/

section

variable {codec : Codec} {env : Env} {cmd : Command} {s : KeyValueStore}

/-- A command whose entries do not grow is not refused for its memory. -/
theorem not_refused_of_shrinks {ks : List String} (scope : mutationScope cmd = .keys ks)
    (ok : (executeInner codec env cmd s).1.isError = false)
    (account : (executeInner codec env cmd s).2.1.memoryBytes ≤ s.memoryBytes)
    (shrinks : ∀ k, entryMemory (executeInner codec env cmd s).2.1.data k ≤ entryMemory s.data k) :
    (executeReporting codec env cmd s).1.isError = false := by
  unfold executeReporting
  rw [scope]
  dsimp only
  generalize executeInner codec env cmd s = result at *
  obtain ⟨reply, s', evicted⟩ := result
  dsimp only at *
  rw [if_neg]
  · exact ok
  · set keys := (ks.insertionSort (· ≤ ·)).dedup
    have footprint : (keys.map (entryMemory s'.data)).sum ≤ (keys.map (entryMemory s.data)).sum :=
      List.sum_le_sum fun k _ => shrinks k
    have adjusted : (s'.adjustMemory (keys.map (entryMemory s.data)).sum
        (keys.map (entryMemory s'.data)).sum).memoryBytes ≤ s'.memoryBytes := by
      unfold adjustMemory
      split_ifs
      · simp
        omega
      · exact Nat.sub_le _ _
    obtain ⟨_, -, evicts⟩ := tryEvictForMemory_evicts env evicted (keys.foldl .syncKeyMetadata
      (s'.adjustMemory (keys.map (entryMemory s.data)).sum (keys.map (entryMemory s'.data)).sum))
    have evict := evicts.memory
    rw [syncKeys_memory] at evict
    have := not_lt.mpr ((evict.trans adjusted).trans account)
    simp [this]

theorem entryMemory_store_remove (now : ℕ) (key k : String) (d : Data) (live : Bool) :
    entryMemory (store now key d (if live then .remove else .keep)) k ≤ entryMemory d k := by
  cases live with
  | false => exact le_rfl
  | true =>
    by_cases same : k = key
    · subst same
      simp [entryMemory, store]
    · rw [entryMemory, getElem?_store_of_ne same, entryMemory]

theorem entryMemory_delKeys (now : ℕ) (keys : List String) (n : ℕ) (d : Data) (k : String) :
    entryMemory ((delKeys keys n).run now d).2 k ≤ entryMemory d k := by
  induction keys generalizing n d with
  | nil => exact le_rfl
  | cons key keys ih => exact (ih _ _).trans (entryMemory_store_remove ..)

theorem del_not_refused {keys : List String}
    (deletes : program codec env cmd = (delKeys keys 0).bind fun n => .done (.integer n))
    (scope : mutationScope cmd = .keys keys) (direct : readsKeyspace cmd = false)
    (room : makeRoom env cmd s = (true, s, [])) :
    (executeReporting codec env cmd s).1.isError = false := by
  have inner := executeInner_of_room codec direct room
  rw [deletes, Prog.run_bind] at inner
  refine not_refused_of_shrinks scope ?_ ?_ ?_
  · rw [inner]
    rfl
  · rw [inner]
  · rw [inner]
    exact entryMemory_delKeys env.now keys 0 s.data

theorem not_refused (codec : Codec) (env : Env) {cmd : Command} (h : neverRefused cmd = true)
    (s : KeyValueStore) : (executeReporting codec env cmd s).1.isError = false := by
  cases cmd
  case del keys => exact del_not_refused rfl rfl rfl (makeRoom_of_not_capped _ _ rfl (by simp))
  case unlink keys => exact del_not_refused rfl rfl rfl (makeRoom_of_not_capped _ _ rfl (by simp))
  case flushDb =>
    have inner := executeInner_of_room codec (show readsKeyspace .flushDb = false from rfl)
      (makeRoom_of_not_capped env s rfl (by simp))
    unfold executeReporting
    simp only [mutationScope, inner]
    rfl
  case mSet pairs =>
    obtain rfl := List.isEmpty_iff.mp h
    have inner := executeInner_of_room codec (show readsKeyspace (.mSet []) = false from rfl)
      (makeRoom_of_not_capped env s rfl (by simp))
    refine not_refused_of_shrinks rfl ?_ ?_ ?_ <;> rw [inner]
    · rfl
    · exact fun _ => le_rfl
  all_goals cases h

end

/-! ## Stores that refuse a command -/

/-- A store that holds one key. -/
def holding (key : String) (value : EntryValue) : KeyValueStore :=
  { data := (∅ : Data).insert key ⟨⟨value, none⟩, 0⟩ }

theorem live_holding (now : ℕ) (key : String) (value : EntryValue) :
    (holding key value).live now key = some ⟨value, none⟩ := by
  simp [KeyValueStore.live, Lapse.live, holding]

section

variable {codec : Codec} {env : Env} {cmd : Command}

/-- A command is refused by a store that holds another kind of value. -/
theorem refused_of_kind {key : String} {act : Act} (value : EntryValue)
    (direct : readsKeyspace cmd = false) (one : program codec env cmd = .one key act)
    (refused : (act (some ⟨value, none⟩)).2.isError = true) :
    (executeReporting codec env cmd (holding key value)).1.isError = true := by
  have reply := (execute_uncapped codec env cmd (s := holding key value) ⟨rfl, rfl⟩ direct).1
  rw [perform, one, Prog.eval_one, live_holding] at reply
  exact (congrArg Value.isError reply).trans refused

theorem executeReporting_isError {s : KeyValueStore}
    (h : (executeInner codec env cmd s).1.isError = true) :
    (executeReporting codec env cmd s).1.isError = true := by
  unfold executeReporting
  split
  · exact h
  · exact h
  · dsimp only
    split_ifs
    · rfl
    · exact h

/-- A store with no room for a key refuses to create one. -/
theorem refused_of_full {key : String} (direct : readsKeyspace cmd = false)
    (capped : cappedKey cmd = some key) :
    (executeReporting codec env cmd { maxKeys := some 0 }).1.isError = true := by
  have room : makeRoom env cmd { maxKeys := some 0 } = (false, { maxKeys := some 0 }, []) := by
    unfold makeRoom
    dsimp only
    split
    · exact absurd capped nofun
    · rw [capped]
      simp [evictMany, evictOne]
  exact executeReporting_isError (by rw [executeInner_of_no_room _ direct room]; rfl)

theorem refused_mSet_of_full {pairs : List (String × Bytes)} (some : pairs.isEmpty = false) :
    (executeReporting codec env (.mSet pairs) { maxKeys := Option.some 0 }).1.isError = true := by
  have room : makeRoom env (.mSet pairs) { maxKeys := Option.some 0 } =
      (false, { maxKeys := Option.some 0 }, []) := by
    cases pairs with
    | nil => exact absurd some nofun
    | cons pair pairs => simp [makeRoom, evictMany, evictOne]
  exact executeReporting_isError (by rw [executeInner_of_no_room _ rfl room]; rfl)

/-- A store with no memory left refuses to store even an empty set. -/
theorem refused_of_memory {dst : String} {value : EntryValue} {reply : Value}
    (direct : readsKeyspace cmd = false) (scope : mutationScope cmd = .keys [dst])
    (one : program codec env cmd = .one dst fun _ => (.replace ⟨value, none⟩, reply)) :
    (executeReporting codec env cmd { maxMemoryBytes := some 0 }).1.isError = true := by
  have inner := executeInner_of_room codec direct
    (show makeRoom env cmd { maxMemoryBytes := some 0 } = (true, { maxMemoryBytes := some 0 }, []) from rfl)
  unfold executeReporting
  rw [scope, inner, one]
  have grows : 0 < entryMemory (store env.now dst ∅ (.replace ⟨value, none⟩)) dst := by
    simp [entryMemory, store, entrySize]
  simp [Prog.one, Prog.run, List.insertionSort, entryMemory, adjustMemory, syncKeyMetadata,
    tryEvictForMemory, evictUntil, evictOne]
  unfold entryMemory at grows
  rw [if_pos ⟨grows.ne', grows⟩]
  rfl

theorem refused_store {dst : String} {keys : List String}
    {f : List (Option MemberSet) → MemberSet}
    (direct : readsKeyspace cmd = false) (scope : mutationScope cmd = .keys (dst :: keys))
    (stores : program codec env cmd = combineStore dst keys f) :
    ∃ s, (executeReporting codec env cmd s).1.isError = true := by
  cases keys with
  | nil => exact ⟨_, refused_of_memory direct scope stores⟩
  | cons key keys =>
    refine ⟨holding key (.str []), ?_⟩
    have reply := (execute_uncapped codec env cmd (s := holding key (.str [])) ⟨rfl, rfl⟩ direct).1
    refine (congrArg Value.isError reply).trans ?_
    rw [perform, stores]
    simp [combineStore, readSets, Prog.read, Prog.bind, Prog.eval, live_holding, Kind.set, wrongType,
      Value.isError]

/-- Every command whose frame ignores the reply is refused by some store, unless none refuses it. -/
theorem refused_somewhere (codec : Codec) (env : Env) {cmd : Command} (ignores : ignoresReply cmd = true)
    (refusable : neverRefused cmd = false) :
    ∃ s, (executeReporting codec env cmd s).1.isError = true := by
  cases cmd
  case eSet key val | set key val opts | setEx key secs val | pSetEx key ms val =>
    exact ⟨_, refused_of_full rfl rfl⟩
  case mSet pairs => exact ⟨_, refused_mSet_of_full refusable⟩
  case getSet key val => exact ⟨_, refused_of_kind (.list []) rfl rfl rfl⟩
  case hSet key pairs => exact ⟨_, refused_of_kind (.str []) rfl rfl rfl⟩
  case lPush key vals | rPush key vals => exact ⟨_, refused_of_kind (.str []) rfl rfl rfl⟩
  case lPop key count | rPop key count => exact ⟨_, refused_of_kind (.str []) rfl rfl rfl⟩
  case lTrim key start stop => exact ⟨_, refused_of_kind (.str []) rfl rfl rfl⟩
  case zAdd key opts pairs => exact ⟨_, refused_of_kind (.str []) rfl rfl rfl⟩
  case zIncrBy key delta member => exact ⟨_, refused_of_kind (.str []) rfl rfl rfl⟩
  case rlSet key limit windowSecs => exact ⟨_, refused_of_kind (.str []) rfl rfl rfl⟩
  case sInterStore dst keys | sUnionStore dst keys | sDiffStore dst keys =>
    exact refused_store rfl rfl rfl
  case del | unlink | flushDb => simp [neverRefused] at refusable
  all_goals simp [ignoresReply] at ignores

end

/-- A refused command is never propagated exactly when its frame depends on the reply or no store
refuses it. -/
theorem refusal_unpropagated_iff (codec : Codec) (cmd : Command) :
    (∀ (env : Env) (s : KeyValueStore) (origin : ℕ) (st : ServerState),
        (executeReporting codec env cmd s).1.isError = true →
          st.applyWriteEffects env.now origin cmd (executeReporting codec env cmd s).1 = st) ↔
      ignoresReply cmd = false ∨ neverRefused cmd = true := by
  simp only [applyWriteEffects_eq_self_iff]
  constructor
  · intro silent
    by_contra unchecked
    rw [not_or, Bool.not_eq_false, Bool.not_eq_true] at unchecked
    obtain ⟨s, refused⟩ := refused_somewhere codec (.fixed 0) unchecked.1 unchecked.2
    have sent := silent (.fixed 0) s 0 { store := s } refused
    cases reply : (executeReporting codec (.fixed 0) cmd s).1 with
    | error message =>
      rw [reply, broadcastFor_error, unchecked.1] at sent
      exact absurd sent nofun
    | _ =>
      rw [reply] at refused
      exact absurd refused nofun
  · rintro (checked | never) env s origin st refused
    · cases reply : (executeReporting codec env cmd s).1 with
      | error message => exact (broadcastFor_error ..).mpr checked
      | _ =>
        rw [reply] at refused
        exact absurd refused nofun
    · rw [not_refused codec env never s] at refused
      exact absurd refused nofun

/-- `HSET` on a string is refused, and all the same logged. -/
theorem refused_hSet_propagated :
    let s := (execute .literals (.fixed 0) (.set "k" (asBytes "v") {}) {}).2
    let reply := (executeReporting .literals (.fixed 0) (.hSet "k" [("f", asBytes "x")]) s).1
    reply = wrongType ∧
      (({ store := s } : ServerState).applyWriteEffects 0 1 (.hSet "k" [("f", asBytes "x")]) reply).log =
        [respPush [asBytes "HSET", asBytes "k", asBytes "f", asBytes "x"]] :=
  ⟨rfl, rfl⟩

end Recached
