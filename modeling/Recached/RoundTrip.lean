import Recached.Account
import Recached.Simulation

/-!
# Taking a snapshot and restoring it

A snapshot holds every live entry in a form of its own: limiters without their attempts, documents as
text.  Every form but the text leads back to the value it came from, so that the live view comes back
exactly if the codec reads every live document back from its text.
-/

namespace Recached

open Text Lapse KeyValueStore

/-! ## The values of a snapshot -/

inductive SnapshotValue where
  | str (s : Bytes)
  | hash (m : List (String × Bytes))
  | list (l : List Bytes)
  | set (members : List String)
  | zSet (pairs : List (String × Binary64))
  /-- Older snapshots carry the times of the attempts. -/
  | rateLimiter (limit windowMs : ℕ) (events : List ℕ)
  | json (text : String)

/-- An entry as the snapshot file and a full synchronisation carry it. -/
structure StoredEntry where
  key : String
  value : SnapshotValue
  expiresAtMs : Option ℕ

namespace SnapshotValue

def ofEntry (codec : Codec) : EntryValue → SnapshotValue
  | .str s => .str s
  | .hash m => .hash m.toList
  | .list l => .list l
  | .set s => .set s.toList
  | .zset z => .zSet (iterAsc z)
  | .rateLimiter rl => .rateLimiter rl.limit rl.windowMs []
  | .json doc => .json (codec.toStr doc)

/-- A sorted set built by inserting pairs one after the other. -/
def fromPairs (pairs : List (String × Binary64)) : ZSet :=
  pairs.foldl (fun z p => z.insert p.1 p.2) ∅

def toEntry (codec : Codec) : SnapshotValue → EntryValue
  | .str s => .str s
  | .hash m => .hash (Std.ExtTreeMap.ofList m)
  | .list l => .list l
  | .set members => .set (Std.ExtTreeSet.ofList members)
  | .zSet pairs => .zset (fromPairs pairs)
  | .rateLimiter limit windowMs _ => .rateLimiter { limit, windowMs }
  | .json text => .json ((codec.fromStr text).toOption.getD .null)

theorem getElem?_ofList_iff {β : Type} {pairs : List (String × β)}
    (distinct : (pairs.map Prod.fst).Nodup) {k : String} {v : β} :
    (Std.ExtTreeMap.ofList pairs)[k]? = some v ↔ (k, v) ∈ pairs := by
  have apart : pairs.Pairwise fun a b => ¬compare a.1 b.1 = .eq :=
    (List.pairwise_map.mp distinct).imp fun ne eq => ne (Std.LawfulEqOrd.eq_of_compare eq)
  have listed {v : β} (mem : (k, v) ∈ pairs) : (Std.ExtTreeMap.ofList pairs)[k]? = some v :=
    Std.ExtTreeMap.getElem?_ofList_of_mem Std.ReflCmp.compare_self apart mem
  refine ⟨fun found => ?_, listed⟩
  have there : k ∈ Std.ExtTreeMap.ofList pairs :=
    Std.ExtTreeMap.mem_iff_isSome_getElem?.mpr (Option.isSome_of_eq_some found)
  rw [Std.ExtTreeMap.mem_ofList, List.contains_iff_mem] at there
  obtain ⟨⟨k, v'⟩, mem, rfl⟩ := List.mem_map.mp there
  obtain rfl := Option.some.inj (found.symm.trans (listed mem))
  exact mem

/-- A map comes back from its pairs in any order. -/
theorem ofList_of_perm {β : Type} {m : Std.ExtTreeMap String β} {pairs : List (String × β)}
    (perm : pairs.Perm m.toList) : Std.ExtTreeMap.ofList pairs = m := by
  have distinct : (pairs.map Prod.fst).Nodup := by
    rw [(perm.map Prod.fst).nodup_iff, Std.ExtTreeMap.map_fst_toList_eq_keys]
    exact Std.ExtTreeMap.nodup_keys
  refine Std.ExtTreeMap.ext_getElem? fun k => Option.ext fun v => ?_
  rw [getElem?_ofList_iff distinct, perm.mem_iff, Std.ExtTreeMap.mem_toList_iff_getElem?_eq_some]

theorem ofList_toList_set (s : MemberSet) : Std.ExtTreeSet.ofList s.toList = s := by
  refine Std.ExtTreeSet.ext_mem fun k => ?_
  rw [Std.ExtTreeSet.mem_ofList, List.contains_iff_mem, Std.ExtTreeSet.mem_toList]

theorem fromPairs_iterAsc (z : ZSet) : fromPairs (iterAsc z) = z := by
  rw [fromPairs, ← Std.ExtTreeMap.ofList_eq_foldl]
  exact ofList_of_perm (List.perm_insertionSort _ _)

/-- What comes back from the snapshot of a value. -/
theorem toEntry_ofEntry (codec : Codec) (v : EntryValue) :
    (ofEntry codec v).toEntry codec = v.restored codec := by
  cases v with
  | hash m => exact congrArg EntryValue.hash (ofList_of_perm (.refl _))
  | set s => exact congrArg EntryValue.set (ofList_toList_set s)
  | zset z => exact congrArg EntryValue.zset (fromPairs_iterAsc z)
  | str | list | rateLimiter | json => rfl

end SnapshotValue

def StoredEntry.decode (codec : Codec) (e : StoredEntry) : SnapshotEntry :=
  (e.key, ⟨e.value.toEntry codec, e.expiresAtMs⟩)

namespace KeyValueStore

def snapshotEntries (codec : Codec) (now : ℕ) (s : KeyValueStore) : List StoredEntry :=
  (s.data.toList.filter fun e => !e.2.isExpired now).map fun e =>
    ⟨e.1, .ofEntry codec e.2.value, e.2.expiresAtMs⟩

/-- Put every entry that still lives, and enter it in the books. -/
def restoreEntries (codec : Codec) (now : ℕ) (entries : List StoredEntry) (s : KeyValueStore) :
    KeyValueStore :=
  let data := entries.foldl (fun data e =>
    if e.expiresAtMs.any (· ≤ now) then data
    else data.insert e.key ⟨⟨e.value.toEntry codec, e.expiresAtMs⟩, now⟩) s.data
  { s with data }.rebuildMetadata now

def replaceEntries (codec : Codec) (now : ℕ) (entries : List StoredEntry) (s : KeyValueStore) :
    KeyValueStore :=
  { s with data := ∅, memoryBytes := 0, index := {} }.restoreEntries codec now entries

theorem decode_snapshotEntries (codec : Codec) (now : ℕ) (s : KeyValueStore) :
    (s.snapshotEntries codec now).map (StoredEntry.decode codec) = s.snapshot codec now := by
  rw [snapshotEntries, snapshot, List.map_map]
  refine List.map_congr_left fun e _ => ?_
  simp only [Function.comp, StoredEntry.decode, SnapshotValue.toEntry_ofEntry]

theorem restoreEntries_eq (codec : Codec) (now : ℕ) (entries : List StoredEntry) (s : KeyValueStore) :
    s.restoreEntries codec now entries = s.restore now (entries.map (StoredEntry.decode codec)) := by
  have same (data : Data) : entries.foldl (fun data e =>
      if e.expiresAtMs.any (· ≤ now) then data
      else data.insert e.key ⟨⟨e.value.toEntry codec, e.expiresAtMs⟩, now⟩) data =
      restoredData now (entries.map (StoredEntry.decode codec)) data := by
    rw [restoredData]
    induction entries generalizing data with
    | nil => rfl
    | cons e entries ih =>
      rw [List.foldl_cons, ih, List.map_cons, List.filter_cons]
      cases lapsed : e.expiresAtMs.any (· ≤ now) <;>
        simp [StoredEntry.decode, Lapse.Cell.isExpired, lapsed]
  rw [restoreEntries, same]
  rfl

/-! ## The live view of a restored snapshot -/

/-- What lives after entries of distinct keys are put into an empty map. -/
theorem live_restoredData {now : ℕ} {entries : List SnapshotEntry}
    (distinct : (entries.map Prod.fst).Nodup) {k : String} {c : Cell} :
    Lapse.live now (restoredData now entries ∅) k = some c ↔
      (k, c) ∈ entries ∧ c.isExpired now = false := by
  have same : restoredData now entries ∅ = Std.ExtTreeMap.ofList
      ((entries.filter fun e => !e.2.isExpired now).map fun e => (e.1, (⟨e.2, now⟩ : Entry))) := by
    rw [Std.ExtTreeMap.ofList_eq_foldl, List.foldl_map]
    rfl
  have apart : (((entries.filter fun e => !e.2.isExpired now).map
      fun e => (e.1, (⟨e.2, now⟩ : Entry))).map Prod.fst).Nodup := by
    rw [List.map_map]
    exact (List.filter_sublist.map _).nodup distinct
  rw [Lapse.live, Lapse.settle_eq_some, Option.map_eq_some_iff, same]
  simp only [SnapshotValue.getElem?_ofList_iff apart, List.mem_map, List.mem_filter]
  constructor
  · rintro ⟨⟨_, ⟨⟨k, c⟩, ⟨listed, -⟩, ⟨⟩⟩, rfl⟩, alive⟩
    exact ⟨listed, alive⟩
  · rintro ⟨listed, alive⟩
    exact ⟨⟨⟨c, now⟩, ⟨(k, c), ⟨listed, by simp [alive]⟩, rfl⟩, rfl⟩, alive⟩

variable {codec : Codec} {now : ℕ} {s t : KeyValueStore} {entries : List StoredEntry}

theorem nodup_snapshot (codec : Codec) (now : ℕ) (s : KeyValueStore) :
    ((s.snapshot codec now).map Prod.fst).Nodup := by
  rw [snapshot, List.map_map]
  refine (List.filter_sublist.map Prod.fst).nodup ?_
  rw [Std.ExtTreeMap.map_fst_toList_eq_keys]
  exact Std.ExtTreeMap.nodup_keys

/-- A snapshot lists the live cells, each with its value as it comes back. -/
theorem mem_snapshot {k : String} {c : Cell} : (k, c) ∈ s.snapshot codec now ↔
    (s.live now k).map (fun c => { c with value := c.value.restored codec }) = some c := by
  rw [snapshot, List.mem_map]
  constructor
  · rintro ⟨⟨k, e⟩, listed, ⟨⟩⟩
    obtain ⟨stored, alive⟩ := List.mem_filter.mp listed
    have found := Std.ExtTreeMap.mem_toList_iff_getElem?_eq_some.mp stored
    simp only [Bool.not_eq_true'] at alive
    have live : s.live now k = some e.toCell :=
      Lapse.settle_eq_some.mpr ⟨by rw [found]; rfl, alive⟩
    rw [live]
    rfl
  · intro shown
    obtain ⟨c, live, rfl⟩ := Option.map_eq_some_iff.mp shown
    obtain ⟨held, alive⟩ := Lapse.settle_eq_some.mp live
    obtain ⟨e, found, rfl⟩ := Option.map_eq_some_iff.mp held
    refine ⟨(k, e), List.mem_filter.mpr ⟨Std.ExtTreeMap.mem_toList_iff_getElem?_eq_some.mpr found, ?_⟩, rfl⟩
    simp only [Bool.not_eq_true']
    exact alive

/-- Restored into an empty store, a snapshot shows what was live, each value as it comes back. -/
theorem live_restoreEntries (empty : t.data = ∅) (listed : entries.Perm (s.snapshotEntries codec now))
    (k : String) : (t.restoreEntries codec now entries).live now k =
      (s.live now k).map fun c => { c with value := c.value.restored codec } := by
  have decoded : (entries.map (StoredEntry.decode codec)).Perm (s.snapshot codec now) :=
    decode_snapshotEntries codec now s ▸ listed.map _
  have distinct : ((entries.map (StoredEntry.decode codec)).map Prod.fst).Nodup :=
    (decoded.map Prod.fst).nodup_iff.mpr (nodup_snapshot codec now s)
  refine Option.ext fun c => ?_
  rw [restoreEntries_eq, restore_eq, empty]
  refine (live_restoredData distinct).trans ?_
  rw [decoded.mem_iff, mem_snapshot, and_iff_left_iff_imp]
  intro shown
  obtain ⟨c, live, rfl⟩ := Option.map_eq_some_iff.mp shown
  exact (Lapse.settle_eq_some.mp live).2

end KeyValueStore

/-- Every live document is read back from its text. -/
def ReadsBack (codec : Codec) (v : View) : Prop :=
  ∀ k doc expiresAtMs, v k = some ⟨.json doc, expiresAtMs⟩ → codec.fromStr (codec.toStr doc) = .ok doc

theorem restored_config_iff {codec : Codec} (null : codec.fromStr (codec.toStr .null) = .ok .null)
    (v : EntryValue) : (v.restored codec).config = v.config ↔
      ∀ doc, v = .json doc → codec.fromStr (codec.toStr doc) = .ok doc := by
  cases v with
  | json doc =>
    constructor
    · rintro same _ ⟨⟩
      have read := EntryValue.json.inj same
      cases text : codec.fromStr (codec.toStr doc) with
      | ok doc' =>
        rw [text] at read
        exact congrArg Except.ok read
      | error e =>
        -- the null that a document becomes that is not read is read itself
        rw [text] at read
        obtain rfl : Json.null = doc := read
        cases text.symm.trans null
    · intro reads
      rw [EntryValue.restored, reads doc rfl]
      rfl
  | str | hash | list | set | zset | rateLimiter => exact iff_of_true rfl nofun

theorem sameView_iff {codec : Codec} (null : codec.fromStr (codec.toStr .null) = .ok .null) {v w : View}
    (restored : ∀ k, w k = (v k).map fun c => { c with value := c.value.restored codec }) :
    SameView w v ↔ ReadsBack codec v := by
  constructor
  · intro same k doc expiresAtMs found
    have here := same k
    rw [restored k, found] at here
    have value := congrArg Lapse.Cell.value (Option.some.inj here)
    exact (restored_config_iff null _).mp value doc rfl
  · intro reads k
    rw [restored k]
    cases found : v k with
    | none => rfl
    | some c =>
      obtain ⟨value, expiresAtMs⟩ := c
      have kept := (restored_config_iff null value).mpr fun doc eq =>
        reads k doc expiresAtMs (by rw [found, eq])
      exact congrArg some (congrArg (Lapse.Cell.mk · expiresAtMs) kept)

/-- A snapshot, its entries in any order, put into an empty store or in place of any other gives the live
view it was taken from exactly if the codec reads every live document back from its text. -/
theorem snapshot_roundtrip_iff (codec : Codec) (null : codec.fromStr (codec.toStr .null) = .ok .null)
    (now : ℕ) (s t : KeyValueStore) (entries : List StoredEntry)
    (listed : entries.Perm (s.snapshotEntries codec now)) :
    (SameView ((t.replaceEntries codec now entries).live now) (s.live now) ↔
        ReadsBack codec (s.live now)) ∧
      (t.data = ∅ → (SameView ((t.restoreEntries codec now entries).live now) (s.live now) ↔
        ReadsBack codec (s.live now))) :=
  ⟨sameView_iff null fun k => live_restoreEntries rfl listed k,
    fun empty => sameView_iff null fun k => live_restoreEntries empty listed k⟩

/-- `JSET` in an empty store. -/
theorem live_jSet {codec : Codec} {env : Env} {key path value : String} {segs : List JsonPathSeg}
    {val doc : Json} (parsed : parseJsonPath path = .ok segs) (read : codec.fromStr value = .ok val)
    (noIndex : ∀ i rest, segs ≠ .index i :: rest) (set : jsonSetAt val segs .null = (doc, none)) :
    (execute codec env (.jSet key path value) {}).2.live env.now =
      Function.update (fun _ => none) key (some ⟨.json doc, none⟩) := by
  rw [(execute_uncapped codec env (.jSet key path value) (s := {}) ⟨rfl, rfl⟩ rfl).2, perform_one rfl]
  have empty : ({} : KeyValueStore).live env.now = fun _ => none := by
    funext k
    simp [KeyValueStore.live, Lapse.live]
  dsimp only
  rw [empty]
  refine congrArg (Function.update _ key) ?_
  unfold afterAct jSetAct
  simp only [parsed, read]
  split_ifs with leading
  · cases segs with
    | nil => cases leading
    | cons seg rest =>
      cases seg with
      | field name => cases leading
      | index i => exact absurd rfl (noIndex i rest)
  · simp [typedEntry, setInDocument, set, Lapse.settle, Lapse.Cell.isExpired, Kind.json]

theorem snapshot_roundtrip_true :
    let s := (execute .literals (.fixed 0) (.jSet "k" "$" "true") {}).2
    SameView ((({} : KeyValueStore).restoreEntries .literals 0 (s.snapshotEntries .literals 0)).live 0)
      (s.live 0) := by
  refine ((snapshot_roundtrip_iff .literals rfl 0 _ {} _ (.refl _)).2 rfl).mpr fun k doc exp found => ?_
  have live := @live_jSet .literals (.fixed 0) "k" "$" "true" [] (.bool true) (.bool true) rfl rfl nofun rfl
  rw [show KeyValueStore.live 0 _ = _ from live] at found
  by_cases same : k = "k"
  · subst same
    rw [Function.update_self] at found
    obtain ⟨value, -⟩ := Lapse.Cell.mk.inj (Option.some.inj found)
    obtain rfl := EntryValue.json.inj value
    rfl
  · rw [Function.update_of_ne same] at found
    cases found

/-! ## Documents that are too deep -/

/-- A value inside objects of one field. -/
def nest (v : Json) : ℕ → Json
  | 0 => v
  | n + 1 => .object [("a", nest v n)]

theorem config_nest_ne (n : ℕ) : config (some ⟨.json .null, none⟩) ≠
    config (some ⟨.json (nest (.array []) n), none⟩) := by
  cases n <;> simp [config, EntryValue.config, nest]

/-- The text of empty arrays inside objects of one field. -/
def nestedText : Json → List Char
  | .object [(name, v)] => '{' :: '"' :: name.toList ++ '"' :: ':' :: nestedText v ++ ['}']
  | .array [] => ['[', ']']
  | _ => ['n', 'u', 'l', 'l']

/-- The deepest nesting of brackets in a text, some of them open. -/
def nesting : (opened : ℕ) → List Char → ℕ
  | opened, [] => opened
  | opened, c :: text =>
    if c = '{' ∨ c = '[' then nesting (opened + 1) text
    else if c = '}' ∨ c = ']' then max opened (nesting (opened - 1) text)
    else nesting opened text

/-- A codec for the documents above that refuses a text nested deeper than 128. -/
def Codec.nested : Codec where
  toStr doc := String.ofList (nestedText doc)
  fromStr s :=
    if 128 < nesting 0 s.toList then .error "recursion limit exceeded"
    else if s = "[]" then .ok (.array [])
    else if s = "null" then .ok .null
    else .error "expected value"

def nestedPath (n : ℕ) : List Char := (List.replicate n ['.', 'a']).flatten

theorem parse_nestedPath (n more : ℕ) :
    parseJsonSegs (n + more) (nestedPath n) = .ok (List.replicate n (.field "a")) := by
  induction n with
  | zero => cases more <;> rfl
  | succ n ih =>
    have stop : (nestedPath n).takeWhile (fun c => c != '.' && c != '[') = [] ∧
        (nestedPath n).dropWhile (fun c => c != '.' && c != '[') = nestedPath n := by
      cases n with
      | zero => exact ⟨rfl, rfl⟩
      | succ n => exact ⟨rfl, rfl⟩
    have path : nestedPath (n + 1) = '.' :: 'a' :: nestedPath n := rfl
    rw [path, Nat.add_right_comm, parseJsonSegs]
    simp [stop, ih]
    rfl

theorem jsonSetAt_nested (v : Json) (n : ℕ) :
    jsonSetAt v (List.replicate n (.field "a")) .null = (nest v n, none) := by
  induction n with
  | zero => rfl
  | succ n ih =>
    rw [List.replicate_succ, jsonSetAt]
    simp [Json.isNull, ih, Json.insertField, nest]

theorem nesting_nested (n opened : ℕ) (rest : List Char) :
    opened + n + 1 ≤ nesting opened (nestedText (nest (.array []) n) ++ rest) := by
  induction n generalizing opened rest with
  | zero => simp [nest, nestedText, nesting]
  | succ n ih =>
    have inner := ih (opened + 1) ('}' :: rest)
    simp [nest, nestedText, nesting] at inner ⊢
    omega

theorem nested_unread {n : ℕ} (deep : 128 ≤ n) :
    Codec.nested.fromStr (Codec.nested.toStr (nest (.array []) n)) =
      .error "recursion limit exceeded" := by
  have brackets := nesting_nested n 0 []
  rw [List.append_nil] at brackets
  simp only [Codec.nested, String.toList_ofList]
  rw [if_pos (by omega)]

/-- `JSET` with a path of 128 fields builds a document whose text is too deep to be read, so that a null
comes back, into an empty store or in place of another. -/
theorem deep_document_lost :
    let s := (execute .nested (.fixed 0) (.jSet "k" (String.ofList ('$' :: nestedPath 128)) "[]") {}).2
    let restored := ({} : KeyValueStore).restoreEntries .nested 0 (s.snapshotEntries .nested 0)
    let replaced := s.replaceEntries .nested 0 (s.snapshotEntries .nested 0)
    s.live 0 "k" = some ⟨.json (nest (.array []) 128), none⟩ ∧
      restored.live 0 "k" = some ⟨.json .null, none⟩ ∧ replaced.live 0 "k" = some ⟨.json .null, none⟩ ∧
        ¬SameView (restored.live 0) (s.live 0) ∧ ¬SameView (replaced.live 0) (s.live 0) := by
  intro s restored replaced
  have held : s.live 0 "k" = some ⟨.json (nest (.array []) 128), none⟩ := by
    have parsed : parseJsonPath (String.ofList ('$' :: nestedPath 128)) =
        .ok (List.replicate 128 (.field "a")) := by
      rw [parseJsonPath, String.toList_ofList]
      exact parse_nestedPath 128 0
    have live := @live_jSet .nested (.fixed 0) "k" _ "[]" _ (.array []) _ parsed rfl
      (by simp [List.replicate_succ]) (jsonSetAt_nested _ 128)
    exact (congrFun live "k").trans (Function.update_self ..)
  have unread := nested_unread (le_refl 128)
  have lost (c : Option Cell) (shown : c = (s.live 0 "k").map fun c =>
      { c with value := c.value.restored .nested }) : c = some ⟨.json .null, none⟩ := by
    rw [shown, held, Option.map_some, EntryValue.restored, unread]
    rfl
  have restoredNull := lost (restored.live 0 "k") (live_restoreEntries rfl (.refl _) "k")
  have replacedNull := lost (replaced.live 0 "k") (live_restoreEntries
    (t := { s with data := ∅, memoryBytes := 0, index := {} }) rfl (.refl _) "k")
  have differ {v : View} (null : v "k" = some ⟨.json .null, none⟩) : ¬SameView v (s.live 0) := by
    intro same
    have here := same "k"
    rw [null, held] at here
    exact config_nest_ne 128 here
  exact ⟨held, restoredNull, replacedNull, differ restoredNull, differ replacedNull⟩

end Recached
