import Recached.Deadlines
import Recached.Watch

/-!
# What a client is told

A client that is told the state of a key holds that value afterwards, unless the value is a limiter
or an empty collection, or holds a score or a document that does not survive being printed.  After the
snapshot of a pattern the client holds the matching keys of the snapshot and no others.
-/

namespace Recached

open Lapse Text

/-! ## Rebuilding collections -/

section

variable {α : Type}

theorem getElem?_foldl_insert_of_not_mem (l : List (String × α)) (m : Std.ExtTreeMap String α)
    {k : String} (hk : k ∉ l.map Prod.fst) : (l.foldl (fun m p => m.insert p.1 p.2) m)[k]? = m[k]? := by
  induction l generalizing m with
  | nil => rfl
  | cons p l ih =>
    obtain ⟨ne, rest⟩ := List.ne_and_not_mem_of_not_mem_cons hk
    rw [List.foldl_cons, ih _ rest, getElem?_insert_string, if_neg (Ne.symm ne)]

theorem getElem?_foldl_insert {l : List (String × α)} (distinct : (l.map Prod.fst).Nodup)
    (m : Std.ExtTreeMap String α) {k : String} {a : α} (mem : (k, a) ∈ l) :
    (l.foldl (fun m p => m.insert p.1 p.2) m)[k]? = some a := by
  induction l generalizing m with
  | nil => cases mem
  | cons p l ih =>
    obtain ⟨new, distinct⟩ := List.nodup_cons.mp distinct
    rcases List.mem_cons.mp mem with rfl | mem
    · rw [List.foldl_cons, getElem?_foldl_insert_of_not_mem l _ new, getElem?_insert_string, if_pos rfl]
    · exact ih distinct _ mem

theorem nodup_keys_toList (m : Std.ExtTreeMap String α) : (m.toList.map Prod.fst).Nodup := by
  refine List.pairwise_map.mpr (m.distinct_keys_toList.imp fun ne eq => ne ?_)
  exact Std.LawfulEqOrd.compare_eq_iff_eq.mpr eq

/-- Inserting the entries of a map one after another, in any order, gives the map. -/
theorem foldl_insert_perm {l : List (String × α)} {m : Std.ExtTreeMap String α} (perm : l.Perm m.toList) :
    l.foldl (fun m p => m.insert p.1 p.2) ∅ = m := by
  have distinct : (l.map Prod.fst).Nodup := (perm.map Prod.fst).nodup_iff.mpr (nodup_keys_toList m)
  refine Std.ExtTreeMap.ext_getElem? fun k => ?_
  cases found : m[k]? with
  | some a =>
    exact getElem?_foldl_insert distinct ∅
      (perm.mem_iff.mpr (Std.ExtTreeMap.mem_toList_iff_getElem?_eq_some.mpr found))
  | none =>
    rw [getElem?_foldl_insert_of_not_mem l ∅, Std.ExtTreeMap.getElem?_empty]
    intro mem
    obtain ⟨⟨key, a⟩, there, rfl⟩ := List.mem_map.mp mem
    rw [Std.ExtTreeMap.mem_toList_iff_getElem?_eq_some.mp (perm.mem_iff.mp there)] at found
    cases found

end

theorem mem_insertAll (ms : List String) (s : MemberSet) (x : String) :
    x ∈ (insertAll ms s).2 ↔ x ∈ ms ∨ x ∈ s := by
  induction ms generalizing s with
  | nil => simp [insertAll]
  | cons m ms ih =>
    rw [insertAll]
    dsimp only
    rw [ih, Std.ExtTreeSet.mem_insert, Std.LawfulEqOrd.compare_eq_iff_eq, List.mem_cons]
    tauto

theorem insertAll_toList (s : MemberSet) : (insertAll s.toList ∅).2 = s := by
  refine Std.ExtTreeSet.ext_mem fun x => ?_
  rw [mem_insertAll, Std.ExtTreeSet.mem_toList]
  simp

theorem zAddPair_plain (acc : ZSet × ℕ × ℕ) (p : Binary64 × String) :
    (zAddPair {} acc p).1 = acc.1.insert p.2 p.1 := by
  obtain ⟨z, added, changed⟩ := acc
  obtain ⟨score, member⟩ := p
  unfold zAddPair
  dsimp only
  cases z[member]? <;> rfl

/-- Adding the members of a sorted set with their printed scores gives the sorted set of these scores. -/
theorem zAddExec_iterAsc (z : ZSet) :
    (zAddExec ∅ {} ((iterAsc z).map fun e => (wireScore e.2, e.1))).1 = z.map fun _ => wireScore := by
  have inserts (l : List (String × Binary64)) (acc : ZSet × ℕ × ℕ) :
      ((l.map fun e => (wireScore e.2, e.1)).foldl (zAddPair {}) acc).1 =
        (l.map fun e => (e.1, wireScore e.2)).foldl (fun z p => z.insert p.1 p.2) acc.1 := by
    induction l generalizing acc with
    | nil => rfl
    | cons e l ih => rw [List.map_cons, List.foldl_cons, ih, zAddPair_plain, List.map_cons, List.foldl_cons]
  refine (inserts (iterAsc z) (∅, 0, 0)).trans (foldl_insert_perm ?_)
  rw [Std.ExtTreeMap.toList_map]
  exact (List.perm_insertionSort _ _).map _

theorem filterMap_flatMap_pair {α β γ : Type} (l : List α) (f g : α → β) (f' g' : α → γ)
    {h : β → Option γ} (first : ∀ x, h (f x) = some (f' x)) (second : ∀ x, h (g x) = some (g' x)) :
    (l.flatMap fun x => [f x, g x]).filterMap h = l.flatMap fun x => [f' x, g' x] := by
  induction l with
  | nil => rfl
  | cons x l ih => simp [first, second, ih]

theorem chunkPairs_flatMap {α β : Type} (l : List α) (f g : α → β) :
    SyncClient.chunkPairs (l.flatMap fun x => [f x, g x]) = l.map fun x => (f x, g x) := by
  induction l with
  | nil => rfl
  | cons x l ih => simp [SyncClient.chunkPairs, ih]

/-! ## The state of one key -/

variable {codec : Codec} {env : Env} {s : KeyValueStore}

/-- A value that a client rebuilds from what it is told. -/
def Tellable (codec : Codec) : EntryValue → Prop
  | .str _ => True
  | .hash h => h.isEmpty = false
  | .list l => l ≠ []
  | .set s => s.isEmpty = false
  | .zset z => z.isEmpty = false ∧ ∀ e ∈ z.toList, wireScore e.2 = e.2
  | .rateLimiter _ => False
  | .json doc => codec.fromStr (codec.toStr doc) = .ok doc

/-- What a client holds when it has been told a value: nothing rebuilds an empty collection, and scores and
documents are read back from their text. -/
def retold (codec : Codec) : EntryValue → Option EntryValue
  | .str b => some (.str b)
  | .hash h => if h.isEmpty then none else some (.hash h)
  | .list l => if l.isEmpty then none else some (.list l)
  | .set s => if s.isEmpty then none else some (.set s)
  | .zset z => if z.isEmpty then none else some (.zset (z.map fun _ => wireScore))
  | .rateLimiter _ => none
  | .json doc => (codec.fromStr (codec.toStr doc)).toOption.map .json

theorem map_wireScore_eq_self (z : ZSet) :
    (z.map fun _ => wireScore) = z ↔ ∀ e ∈ z.toList, wireScore e.2 = e.2 := by
  constructor
  · rintro same ⟨member, score⟩ mem
    have held := Std.ExtTreeMap.mem_toList_iff_getElem?_eq_some.mp mem
    have told := congrArg (·[member]?) same
    simp only [Std.ExtTreeMap.getElem?_map, held, Option.map_some] at told
    exact Option.some.inj told
  · intro scores
    refine Std.ExtTreeMap.ext_getElem? fun member => ?_
    rw [Std.ExtTreeMap.getElem?_map]
    cases held : z[member]? with
    | none => rfl
    | some score =>
      exact congrArg some (scores (member, score) (Std.ExtTreeMap.mem_toList_iff_getElem?_eq_some.mpr held))

/-- The tellable values are those that are retold as they are. -/
theorem retold_iff (value : EntryValue) : retold codec value = some value ↔ Tellable codec value := by
  cases value with
  | str b => exact iff_of_true rfl trivial
  | hash h => cases empty : h.isEmpty <;> simp [retold, Tellable, empty]
  | list l => cases l <;> simp [retold, Tellable]
  | set m => cases empty : m.isEmpty <;> simp [retold, Tellable, empty]
  | zset z => cases empty : z.isEmpty <;> simp [retold, Tellable, empty, map_wireScore_eq_self]
  | rateLimiter rl => exact iff_of_false nofun id
  | json doc =>
    cases read : codec.fromStr (codec.toStr doc) <;> simp [retold, Tellable, read, Except.toOption]

theorem eval_delKeys (now : ℕ) (keys : List String) (n : ℕ) (v : View) (k : String)
    (live : ∀ k, Lapse.settle now (v k) = v k) :
    ((delKeys keys n).eval now v).2 k = if k ∈ keys then none else v k := by
  induction keys generalizing n v with
  | nil => simp [delKeys]
  | cons key keys ih =>
    have gone : Lapse.settle now ((if (v key).isSome then Effect.remove else .keep : Effect).apply (v key)) =
        none := by
      cases v key <;> rfl
    simp only [delKeys, Prog.eval]
    rw [gone, ih]
    · by_cases same : k = key
      · simp [same]
      · simp [same]
    · intro k
      by_cases same : k = key
      · rw [same, Function.update_self]
        rfl
      · rw [Function.update_of_ne same, live]

/-- A command on one key, on a store without limits. -/
theorem execute_one (h : s.Uncapped) (codec : Codec) (env : Env) {cmd : Command} {key : String} {act : Act}
    (direct : readsKeyspace cmd = false) (one : program codec env cmd = .one key act) :
    (execute codec env cmd s).2.Uncapped ∧
      (execute codec env cmd s).2.live env.now =
        Function.update (s.live env.now) key (afterAct env.now act (s.live env.now key)) := by
  refine ⟨(executeReporting_uncapped codec env cmd h).uncapped, ?_⟩
  rw [(execute_uncapped codec env cmd h direct).2, perform_one one]

theorem execute_del (h : s.Uncapped) (codec : Codec) (env : Env) (keys : List String) :
    (execute codec env (.del keys) s).2.Uncapped ∧ ∀ k,
      (execute codec env (.del keys) s).2.live env.now k = if k ∈ keys then none else s.live env.now k := by
  refine ⟨(executeReporting_uncapped codec env (.del keys) h).uncapped, fun k => ?_⟩
  rw [(execute_uncapped codec env (.del keys) h rfl).2, perform, program, Prog.eval_bind]
  exact eval_delKeys env.now keys 0 _ k fun k => settle_live _ _ k

theorem execute_set (h : s.Uncapped) (codec : Codec) (env : Env) (key : String) (val : Bytes) :
    (execute codec env (.set key val {}) s).2.Uncapped ∧
      (execute codec env (.set key val {}) s).2.live env.now =
        Function.update (s.live env.now) key (some ⟨.str val, none⟩) := by
  have direct : readsKeyspace (.set key val {}) = false := rfl
  obtain ⟨still, live⟩ := execute_one h codec env direct rfl
  exact ⟨still, live⟩

namespace SyncClient

/-- Apply the state of a key that is there. -/
def applyState (codec : Codec) (env : Env) (key : String) (state : Value) (store : KeyValueStore) :
    KeyValueStore :=
  match state with
  | .bulkString (some val) => (execute codec env (.set key val {}) store).2
  | .array (some items) => applyTagged codec env key items store
  | _ => store

/-- A collection is rebuilt by one command on its key. -/
theorem taggedCommand_spec (codec : Codec) (env : Env) {key tag : String} {raw : List Bytes} {cmd : Command}
    (h : taggedCommand key tag raw = some cmd) :
    readsKeyspace cmd = false ∧ ∃ act, program codec env cmd = .one key act := by
  unfold taggedCommand at h
  dsimp only at h
  split at h
  case h_5 =>
    obtain ⟨doc, -, rfl⟩ := Option.map_eq_some_iff.mp h
    exact ⟨rfl, _, rfl⟩
  case h_6 => cases h
  all_goals
    split_ifs at h
    cases h
    exact ⟨rfl, _, rfl⟩

/-- What a command makes of a key that is not there. -/
def builtBy (codec : Codec) (env : Env) (key : String) : Option Command → Option Cell
  | none => none
  | some cmd => (perform codec env cmd fun _ => none).2 key

theorem builtBy_one {cmd : Command} {key : String} {act : Act} (one : program codec env cmd = .one key act) :
    builtBy codec env key (some cmd) = afterAct env.now act none := by
  rw [builtBy, perform_one one]
  dsimp only
  rw [Function.update_self]

/-- A key is replaced by what its collection is rebuilt as. -/
theorem applyTagged_live (h : s.Uncapped) (codec : Codec) (env : Env) (key : String) {first : Value} {tag : String}
    (text : taggedText first = some tag) (items : List Value) :
    (applyTagged codec env key (first :: items) s).Uncapped ∧
      (applyTagged codec env key (first :: items) s).live env.now =
        Function.update (s.live env.now) key
          (builtBy codec env key (taggedCommand key tag (items.filterMap taggedBytes))) := by
  obtain ⟨still, deleted⟩ := execute_del h codec env [key]
  have gone : (execute codec env (.del [key]) s).2.live env.now = Function.update (s.live env.now) key none := by
    funext k
    simp only [deleted, List.mem_singleton, Function.update_apply]
  simp only [applyTagged, text]
  cases found : taggedCommand key tag (items.filterMap taggedBytes) with
  | none => exact ⟨still, gone⟩
  | some cmd =>
    obtain ⟨direct, act, one⟩ := taggedCommand_spec codec env found
    obtain ⟨still', live⟩ := execute_one still codec env direct one
    refine ⟨still', ?_⟩
    rw [live, gone, Function.update_self, Function.update_idem, builtBy_one one]

/-- Told the state of a key, a client changes no other key. -/
theorem applyState_frame (h : s.Uncapped) (codec : Codec) (env : Env) (key : String) (state : Value) :
    (applyState codec env key state s).Uncapped ∧
      ∀ k ≠ key, (applyState codec env key state s).live env.now k = s.live env.now k := by
  unfold applyState
  split
  · obtain ⟨still, live⟩ := execute_set h codec env key _
    refine ⟨still, fun k other => ?_⟩
    rw [live, Function.update_of_ne other]
  · next items =>
    cases items with
    | nil => exact ⟨h, fun _ _ => rfl⟩
    | cons first items =>
      cases text : taggedText first with
      | none =>
        have same : applyTagged codec env key (first :: items) s = s := by simp only [applyTagged, text]
        rw [same]
        exact ⟨h, fun _ _ => rfl⟩
      | some tag =>
        obtain ⟨still, live⟩ := applyTagged_live h codec env key text items
        refine ⟨still, fun k other => ?_⟩
        rw [live, Function.update_of_ne other]
  · exact ⟨h, fun _ _ => rfl⟩

/-- Told a value that is no limiter, a client holds what the value is retold as. -/
theorem applyState_told (h : s.Uncapped) (codec : Codec) (env : Env) {value : EntryValue}
    (shown : ∀ rl, value ≠ .rateLimiter rl) (key : String) :
    (applyState codec env key (encodeCurrentValue codec value) s).live env.now key =
      (retold codec value).map fun value => ⟨value, none⟩ := by
  have built {tag : String} {items : List Value} {raw : List Bytes} (bytes : items.filterMap taggedBytes = raw) :
      (applyTagged codec env key (bulk tag :: items) s).live env.now key =
        builtBy codec env key (taggedCommand key tag raw) := by
    have text : taggedText (bulk tag) = some tag := congrArg some (fromUtf8Lossy_asBytes tag)
    rw [(applyTagged_live h codec env key text items).2, Function.update_self, bytes]
  cases value with
  | str val =>
    refine (congrFun (execute_set h codec env key val).2 key).trans ?_
    rw [Function.update_self]
    rfl
  | hash m =>
    have raw : (m.toList.flatMap fun f => [bulk f.1, blob f.2]).filterMap taggedBytes =
        m.toList.flatMap fun f => [asBytes f.1, f.2] :=
      filterMap_flatMap_pair _ _ _ _ _ (fun _ => rfl) fun _ => rfl
    have found : taggedCommand key "hash" (m.toList.flatMap fun f => [asBytes f.1, f.2]) =
        if m.isEmpty then none else some (.hSet key m.toList) := by
      rw [taggedCommand, chunkPairs_flatMap]
      simp [Function.comp_def, Std.ExtTreeMap.isEmpty_toList]
    refine (built raw).trans ?_
    rw [found, retold]
    split_ifs
    · rfl
    · rw [builtBy_one rfl]
      exact congrArg (fun m => (some ⟨.hash m, none⟩ : Option Cell)) (foldl_insert_perm (.refl _))
  | list l =>
    have raw : (l.map blob).filterMap taggedBytes = l := by
      rw [List.filterMap_map]
      exact List.filterMap_some
    refine (built raw).trans ?_
    rw [retold]
    cases l with
    | nil => rfl
    | cons x l =>
      have found : taggedCommand key "list" (x :: l) = some (.rPush key (x :: l)) := rfl
      rw [found, builtBy_one rfl]
      rfl
  | set m =>
    have raw : (m.toList.map bulk).filterMap taggedBytes = m.toList.map asBytes := by
      rw [List.filterMap_map]
      exact congrFun (List.filterMap_eq_map (f := asBytes)) _
    have found : taggedCommand key "set" (m.toList.map asBytes) =
        if m.isEmpty then none else some (.sAdd key m.toList) := by
      rw [taggedCommand]
      simp [Function.comp_def, Std.ExtTreeSet.isEmpty_toList]
    refine (built raw).trans ?_
    rw [found, retold]
    split_ifs
    · rfl
    · rw [builtBy_one rfl]
      exact congrArg (fun m => (some ⟨.set m, none⟩ : Option Cell)) (insertAll_toList m)
  | zset z =>
    have raw : ((iterAsc z).flatMap fun e => [bulk e.1, blob (formatScore e.2)]).filterMap taggedBytes =
        (iterAsc z).flatMap fun e => [asBytes e.1, formatScore e.2] :=
      filterMap_flatMap_pair _ _ _ _ _ (fun _ => rfl) fun _ => rfl
    have members : ((iterAsc z).map fun e => (asBytes e.1, formatScore e.2)).filterMap (fun c =>
        (Binary64.parse (asBytes (fromUtf8Lossy c.2))).map fun score => (score, fromUtf8Lossy c.1)) =
          (iterAsc z).map fun e => (wireScore e.2, e.1) := by
      rw [List.filterMap_map, ← List.filterMap_eq_map]
      refine List.filterMap_congr fun e _ => ?_
      simp only [Function.comp_apply, (isText_formatScore e.2).asBytes_lossy, parse_formatScore,
        fromUtf8Lossy_asBytes, Option.map_some]
    have perm : (iterAsc z).Perm z.toList := List.perm_insertionSort _ _
    have empty : ((iterAsc z).map fun e => (wireScore e.2, e.1)).isEmpty = z.isEmpty := by
      rw [List.isEmpty_map, ← Std.ExtTreeMap.isEmpty_toList]
      exact perm.isEmpty_eq
    have found : taggedCommand key "zset" ((iterAsc z).flatMap fun e => [asBytes e.1, formatScore e.2]) =
        if z.isEmpty then none else some (.zAdd key {} ((iterAsc z).map fun e => (wireScore e.2, e.1))) := by
      rw [taggedCommand, chunkPairs_flatMap, members, empty]
    refine (built raw).trans ?_
    rw [found, retold]
    split_ifs
    · rfl
    · rw [builtBy_one rfl]
      exact congrArg (fun z => (some ⟨.zset z, none⟩ : Option Cell)) (zAddExec_iterAsc z)
  | rateLimiter rl => exact absurd rfl (shown rl)
  | json doc =>
    have raw : [bulk (codec.toStr doc)].filterMap taggedBytes = [asBytes (codec.toStr doc)] := rfl
    have found : taggedCommand key "json" [asBytes (codec.toStr doc)] =
        some (.jSet key "$" (codec.toStr doc)) := by
      simp [taggedCommand]
    have root : parseJsonPath "$" = .ok [] := by decide
    refine (built raw).trans ?_
    rw [found, builtBy_one rfl, afterAct, jSetAct, root]
    dsimp only
    cases read : codec.fromStr (codec.toStr doc) with
    | error e => simp [retold, read, Except.toOption]
    | ok doc' =>
      rw [retold, read]
      rfl

/-! ## A notification -/

theorem mem_matchingKeys {now : ℕ} {pattern : String} {d : Data} {k : String} :
    k ∈ matchingKeys now pattern d ↔ globMatch pattern k = true ∧ (Lapse.live now d k).isSome = true := by
  have cell (e : Entry) (found : d[k]? = some e) :
      (Lapse.live now d k).isSome = !e.isExpired now := by
    rw [Lapse.live, found, Option.map_some, Lapse.settle, Option.filter_some]
    cases e.isExpired now <;> rfl
  unfold matchingKeys
  simp only [List.mem_map, List.mem_filter, Prod.exists, Std.ExtTreeMap.mem_toList_iff_getElem?_eq_some,
    Bool.and_eq_true]
  constructor
  · rintro ⟨_, e, ⟨found, alive, glob⟩, rfl⟩
    exact ⟨glob, (cell e found).trans alive⟩
  · rintro ⟨glob, alive⟩
    cases found : d[k]? with
    | none => simp [Lapse.live, found] at alive
    | some e => exact ⟨k, e, ⟨found, (cell e found).symm.trans alive, glob⟩, rfl⟩

/-- The keys of a list are deleted, if there are any. -/
theorem execute_del_some (h : s.Uncapped) (codec : Codec) (env : Env) (keys : List String) (k : String) :
    (if keys.isEmpty then s else (execute codec env (.del keys) s).2).live env.now k =
      if k ∈ keys then none else s.live env.now k := by
  cases keys with
  | nil => rfl
  | cons key keys => exact (execute_del h codec env (key :: keys)).2 k

/-- Without a state the key is gone; under the name of a live query so is every key that it matches. -/
theorem applyKeychange_nil (client : SyncClient) (h : client.store.Uncapped) (codec : Codec) (env : Env)
    (tag : Value) (key k : String) :
    (client.applyKeychange codec env [tag, bulk key, nil]).store.live env.now k =
      if k = key ∧ key ∉ client.liveQueries ∨ globMatch key k = true ∧ key ∈ client.liveQueries then none
      else client.store.live env.now k := by
  simp only [applyKeychange, bulk, nil, fromUtf8Lossy_asBytes]
  by_cases query : key ∈ client.liveQueries
  · have deleted := execute_del_some h codec env (matchingKeys env.now key client.store.data) k
    have store : (if (matchingKeys env.now key client.store.data).isEmpty then client
        else { client with store :=
          (execute codec env (.del (matchingKeys env.now key client.store.data)) client.store).2 }).store =
        if (matchingKeys env.now key client.store.data).isEmpty then client.store
        else (execute codec env (.del (matchingKeys env.now key client.store.data)) client.store).2 := by
      split_ifs <;> rfl
    rw [if_pos query, store, deleted]
    simp only [query, not_true_eq_false, and_false, false_or, and_true, mem_matchingKeys]
    by_cases glob : globMatch key k = true
    · simp only [glob, true_and, if_true]
      split_ifs with there
      · rfl
      · have there : ¬(client.store.live env.now k).isSome = true := there
        simpa using there
    · simp [glob]
  · rw [if_neg query]
    dsimp only
    rw [(execute_del h codec env [key]).2]
    simp [query]

theorem applyKeychange_state (client : SyncClient) (codec : Codec) (env : Env) (tag : Value) (key : String)
    {state : Value} (there : state ≠ nil) :
    client.applyKeychange codec env [tag, bulk key, state] =
      { client with store := applyState codec env key state client.store } := by
  simp only [applyKeychange, bulk, fromUtf8Lossy_asBytes]
  cases state with
  | bulkString data =>
    cases data with
    | none => exact absurd rfl there
    | some val => rfl
  | array items => cases items <;> rfl
  | _ => rfl

/-! ## A snapshot -/

/-- The items of a snapshot. -/
def snapshotItems (values : List (String × Value)) : List Value := values.flatMap fun e => [bulk e.1, e.2]

theorem applyEntries_snapshot (codec : Codec) (env : Env) (values : List (String × Value))
    (store : KeyValueStore) :
    applyEntries codec env (values.map fun e => (bulk e.1, e.2)) store =
      (values.map Prod.fst, values.foldl (fun s e => applyState codec env e.1 e.2 s) store) := by
  have run (present : List String) (store : KeyValueStore) :
      values.foldl (fun (acc : List String × KeyValueStore) e =>
        (acc.1 ++ [fromUtf8Lossy (asBytes e.1)],
          applyState codec env (fromUtf8Lossy (asBytes e.1)) e.2 acc.2)) (present, store) =
      (present ++ values.map Prod.fst, values.foldl (fun s e => applyState codec env e.1 e.2 s) store) := by
    induction values generalizing present store with
    | nil => simp
    | cons e values ih =>
      rw [List.foldl_cons, ih]
      simp only [fromUtf8Lossy_asBytes, List.map_cons, List.append_assoc, List.singleton_append,
        List.foldl_cons]
  rw [applyEntries, List.foldl_map]
  exact run [] store

/-- In the snapshot's order every entry sets its key. -/
theorem applyStates_live (codec : Codec) (env : Env) (values : List (String × Value)) (h : s.Uncapped) :
    let s' := values.foldl (fun s e => applyState codec env e.1 e.2 s) s
    s'.Uncapped ∧ ∀ k, (k ∉ values.map Prod.fst → s'.live env.now k = s.live env.now k) ∧
      ∀ value, (∀ rl, value ≠ .rateLimiter rl) → (values.map Prod.fst).Nodup →
        (k, encodeCurrentValue codec value) ∈ values →
        s'.live env.now k = (retold codec value).map fun value => ⟨value, none⟩ := by
  induction values generalizing s with
  | nil => exact ⟨h, fun k => ⟨fun _ => rfl, fun _ _ _ mem => by cases mem⟩⟩
  | cons e values ih =>
    obtain ⟨still, frame⟩ := applyState_frame h codec env e.1 e.2
    obtain ⟨still', rest⟩ := ih still
    refine ⟨still', fun k => ⟨fun other => ?_, fun value shown distinct mem => ?_⟩⟩
    · obtain ⟨ne, other⟩ := List.ne_and_not_mem_of_not_mem_cons other
      exact ((rest k).1 other).trans (frame k ne)
    · obtain ⟨new, distinct⟩ := List.nodup_cons.mp distinct
      rcases List.mem_cons.mp mem with rfl | mem
      · exact ((rest k).1 new).trans (applyState_told h codec env shown k)
      · exact (rest k).2 value shown distinct mem

/-- After the snapshot of a pattern a key is what the snapshot says; a key that the snapshot leaves out is gone
if it matches the pattern, unless the pattern is empty. -/
theorem applyQstate_live (codec : Codec) (env : Env) (h : s.Uncapped) (tag : Value) (pattern : String)
    (values : List (String × Value)) (k : String) :
    let s' := applyQstate codec env (tag :: bulk pattern :: snapshotItems values) s
    (k ∉ values.map Prod.fst → s'.live env.now k =
      if globMatch pattern k = true ∧ pattern ≠ "" then none else s.live env.now k) ∧
    ∀ value, (∀ rl, value ≠ .rateLimiter rl) → (values.map Prod.fst).Nodup →
      (k, encodeCurrentValue codec value) ∈ values →
      s'.live env.now k = (retold codec value).map fun value => ⟨value, none⟩ := by
  intro s'
  obtain ⟨still, states⟩ := applyStates_live codec env values h
  have chunks : chunkPairs (snapshotItems values) = values.map fun e => (bulk e.1, e.2) :=
    chunkPairs_flatMap ..
  set filled := values.foldl (fun s e => applyState codec env e.1 e.2 s) s
  set stale := (matchingKeys env.now pattern filled.data).filter fun k => k ∉ values.map Prod.fst with stale_eq
  have applied : s' = if pattern = "" then filled
      else if stale.isEmpty then filled else (execute codec env (.del stale) filled).2 := by
    simp only [s', applyQstate, bulk, fromUtf8Lossy_asBytes, List.drop_succ_cons, List.drop_zero]
    rw [chunks, applyEntries_snapshot]
  have live : s'.live env.now k =
      if pattern ≠ "" ∧ k ∈ stale then none else filled.live env.now k := by
    rw [applied]
    by_cases empty : pattern = ""
    · simp [empty]
    · rw [if_neg empty, execute_del_some still]
      simp only [empty, not_false_eq_true, ne_eq, true_and]
  have mem_stale : k ∈ stale ↔ (globMatch pattern k = true ∧ (filled.live env.now k).isSome = true) ∧
      k ∉ values.map Prod.fst := by
    rw [stale_eq, List.mem_filter, mem_matchingKeys, decide_eq_true_eq]
    rfl
  constructor
  · intro other
    rw [live, ← (states k).1 other]
    simp only [mem_stale, other, not_false_eq_true, and_true]
    cases filled.live env.now k <;> simp [and_comm]
  · intro value shown distinct mem
    have here : k ∈ values.map Prod.fst := List.mem_map.mpr ⟨_, mem, rfl⟩
    rw [live, if_neg fun h => (mem_stale.mp h.2).2 here]
    exact (states k).2 value shown distinct mem

end SyncClient

end Recached
