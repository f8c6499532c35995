import Recached.Lib.Distinct
import Recached.Lib.Transducers
import Recached.Values

/-!
# Compact hashes and sets

A small hash or set is kept inline, in a vector without order; an insertion that does not fit moves it
to a table for good.  `compact_refines` says that neither form nor the move between them can be seen:
all answers are those of a map and of a set.
-/

namespace Recached

open Distinct Transducers

/-! ## Hashes -/

def inlineHashFields : ℕ := 2

inductive CompactHash where
  | inline (fields : List (String × Bytes))
  | table (fields : Hash)

namespace CompactHash

def new : CompactHash := .inline []

/-- A map keeps its fields in an order that is of no importance. -/
def fromMap (map : Hash) : CompactHash :=
  if map.size ≤ inlineHashFields then .inline map.toList else .table map

def iter : CompactHash → List (String × Bytes)
  | .inline fields => fields
  | .table fields => fields.toList

def toMap (h : CompactHash) : Hash := h.iter.foldl (fun map e => map.insert e.1 e.2) ∅

def len : CompactHash → ℕ
  | .inline fields => fields.length
  | .table fields => fields.size

def get (key : String) : CompactHash → Option Bytes
  | .inline fields => fields.findSome? fun e => if e.1 = key then some e.2 else none
  | .table fields => fields[key]?

def containsKey (key : String) (h : CompactHash) : Bool := (h.get key).isSome

/-- The hash, and the value that was there before. -/
def insert (key : String) (value : Bytes) : CompactHash → CompactHash × Option Bytes
  | .inline fields =>
    match fields.findIdx? (·.1 = key) with
    | some i => (.inline (fields.set i (key, value)), fields[i]?.map Prod.snd)
    | none =>
      if fields.length < inlineHashFields then (.inline (fields ++ [(key, value)]), none)
      else
        let table : Hash := fields.foldl (fun table e => table.insert e.1 e.2) ∅
        (.table (table.insert key value), table[key]?)
  | .table fields => (.table (fields.insert key value), fields[key]?)

def insertIfAbsent (key : String) (value : Bytes) (h : CompactHash) : CompactHash × Bool :=
  if h.containsKey key then (h, false) else ((h.insert key value).1, true)

def remove (key : String) : CompactHash → CompactHash × Option Bytes
  | .inline fields =>
    match fields.findIdx? (·.1 = key) with
    | some i => (.inline (swapRemove fields i), fields[i]?.map Prod.snd)
    | none => (.inline fields, none)
  | .table fields => (.table (fields.erase key), fields[key]?)

end CompactHash

/-! ### Operations and their meaning -/

inductive HashOp where
  | insert (key : String) (value : Bytes)
  | insertIfAbsent (key : String) (value : Bytes)
  | remove (key : String)
  | get (key : String)
  | containsKey (key : String)
  | len
  | iter
  | toMap

inductive HashAnswer where
  | value (v : Option Bytes)
  | flag (b : Bool)
  | count (n : ℕ)
  | fields (l : List (String × Bytes))
  | map (m : Hash)

def CompactHash.step (h : CompactHash) : HashOp → CompactHash × HashAnswer
  | .insert key value => ((h.insert key value).1, .value (h.insert key value).2)
  | .insertIfAbsent key value => ((h.insertIfAbsent key value).1, .flag (h.insertIfAbsent key value).2)
  | .remove key => ((h.remove key).1, .value (h.remove key).2)
  | .get key => (h, .value (h.get key))
  | .containsKey key => (h, .flag (h.containsKey key))
  | .len => (h, .count h.len)
  | .iter => (h, .fields h.iter)
  | .toMap => (h, .map h.toMap)

/-- The operations on a map; its fields are listed once each, in any order. -/
def MapAllows (m : Hash) : HashOp → HashAnswer → Hash → Prop
  | .insert key value, a, m' => a = .value m[key]? ∧ m' = m.insert key value
  | .insertIfAbsent key value, a, m' =>
    a = .flag (!m.contains key) ∧ m' = if m.contains key then m else m.insert key value
  | .remove key, a, m' => a = .value m[key]? ∧ m' = m.erase key
  | .get key, a, m' => a = .value m[key]? ∧ m' = m
  | .containsKey key, a, m' => a = .flag (m.contains key) ∧ m' = m
  | .len, a, m' => a = .count m.size ∧ m' = m
  | .iter, a, m' => ∃ l, a = .fields l ∧ l.Perm m.toList ∧ m' = m
  | .toMap, a, m' => a = .map m ∧ m' = m

namespace CompactHash

/-- The map that a hash stands for. -/
def Shows : CompactHash → Hash → Prop
  | .inline fields, m => ListsMap fields m
  | .table fields, m => fields = m

variable {h : CompactHash} {m : Hash}

theorem Shows.iter (shown : h.Shows m) : ListsMap h.iter m := by
  cases h with
  | inline fields => exact shown
  | table fields =>
    obtain rfl : fields = m := shown
    exact .toList fields

theorem Shows.toMap (shown : h.Shows m) : h.toMap = m := shown.iter.foldl_insert

theorem Shows.len (shown : h.Shows m) : h.len = m.size := by
  cases h with
  | inline fields => exact ListsMap.length_eq shown
  | table fields => exact congrArg Std.ExtTreeMap.size shown

theorem Shows.get (shown : h.Shows m) (key : String) : h.get key = m[key]? := by
  cases h with
  | inline fields =>
    replace shown : ListsMap fields m := shown
    exact shown.findSome?_eq key
  | table fields => exact congrArg (·[key]?) shown

theorem Shows.containsKey (shown : h.Shows m) (key : String) : h.containsKey key = m.contains key := by
  rw [CompactHash.containsKey, shown.get, Std.ExtTreeMap.contains_eq_isSome_getElem?]

theorem Shows.insert (shown : h.Shows m) (key : String) (value : Bytes) :
    (h.insert key value).1.Shows (m.insert key value) ∧ (h.insert key value).2 = m[key]? := by
  cases h with
  | table fields =>
    obtain rfl : fields = m := shown
    exact ⟨rfl, rfl⟩
  | inline fields =>
    replace shown : ListsMap fields m := shown
    unfold CompactHash.insert
    dsimp only
    cases place : fields.findIdx? (·.1 = key) with
    | some i =>
      obtain ⟨old, there, held⟩ := shown.found place
      dsimp only
      rw [there, held]
      exact ⟨shown.set there value, rfl⟩
    | none =>
      have absent := shown.not_found place
      dsimp only
      split_ifs with room
      · exact ⟨shown.append absent value, absent.symm⟩
      · rw [shown.foldl_insert]
        exact ⟨rfl, rfl⟩

theorem Shows.insertIfAbsent (shown : h.Shows m) (key : String) (value : Bytes) :
    (h.insertIfAbsent key value).1.Shows (if m.contains key then m else m.insert key value) ∧
      (h.insertIfAbsent key value).2 = !m.contains key := by
  unfold CompactHash.insertIfAbsent
  rw [shown.containsKey]
  split_ifs with there
  · exact ⟨shown, by rw [there]; rfl⟩
  · exact ⟨(shown.insert key value).1, by simp [there]⟩

theorem Shows.remove (shown : h.Shows m) (key : String) :
    (h.remove key).1.Shows (m.erase key) ∧ (h.remove key).2 = m[key]? := by
  cases h with
  | table fields =>
    obtain rfl : fields = m := shown
    exact ⟨rfl, rfl⟩
  | inline fields =>
    replace shown : ListsMap fields m := shown
    unfold CompactHash.remove
    dsimp only
    cases place : fields.findIdx? (·.1 = key) with
    | some i =>
      obtain ⟨old, there, held⟩ := shown.found place
      dsimp only
      rw [there, held]
      exact ⟨shown.swapRemove there, rfl⟩
    | none =>
      have absent := shown.not_found place
      rw [erase_absent absent]
      exact ⟨shown, absent.symm⟩

theorem shows_fromMap (m : Hash) : (fromMap m).Shows m := by
  unfold fromMap
  split_ifs
  · exact ListsMap.toList m
  · rfl

/-- Every operation does to the hash what it does to the map, and answers so. -/
theorem implements_map : Implements Shows CompactHash.step MapAllows := by
  intro h m op shown
  cases op with
  | insert key value =>
    obtain ⟨kept, answer⟩ := shown.insert key value
    exact ⟨_, ⟨congrArg _ answer, rfl⟩, kept⟩
  | insertIfAbsent key value =>
    obtain ⟨kept, answer⟩ := shown.insertIfAbsent key value
    exact ⟨_, ⟨congrArg _ answer, rfl⟩, kept⟩
  | remove key =>
    obtain ⟨kept, answer⟩ := shown.remove key
    exact ⟨_, ⟨congrArg _ answer, rfl⟩, kept⟩
  | get key => exact ⟨m, ⟨congrArg _ (shown.get key), rfl⟩, shown⟩
  | containsKey key => exact ⟨m, ⟨congrArg _ (shown.containsKey key), rfl⟩, shown⟩
  | len => exact ⟨m, ⟨congrArg _ shown.len, rfl⟩, shown⟩
  | iter => exact ⟨m, ⟨_, rfl, shown.iter.perm_toList, rfl⟩, shown⟩
  | toMap => exact ⟨m, ⟨congrArg _ shown.toMap, rfl⟩, shown⟩

end CompactHash

/-! ## Sets -/

def inlineSetMembers : ℕ := 4

/-- What the code relies on of the indexed sets that it keeps large sets in: the items are distinct and
have indices, a new one goes to the end, and the last one moves into the place of a removed one. -/
structure IndexSet where
  Carrier : Type
  items : Carrier → List String
  nodup (t : Carrier) : (items t).Nodup
  empty : Carrier
  items_empty : items empty = []
  insert : Carrier → String → Carrier × Bool
  items_insert (t : Carrier) (a : String) :
    items (insert t a).1 = if a ∈ items t then items t else items t ++ [a]
  insert_answer (t : Carrier) (a : String) : (insert t a).2 = decide (a ∉ items t)
  removeIndex : Carrier → ℕ → Carrier × Option String
  items_removeIndex (t : Carrier) (i : ℕ) :
    items (removeIndex t i).1 = if i < (items t).length then swapRemove (items t) i else items t
  removeIndex_answer (t : Carrier) (i : ℕ) : (removeIndex t i).2 = (items t)[i]?
  remove : Carrier → String → Carrier × Bool
  items_remove (t : Carrier) (a : String) : items (remove t a).1 =
    if a ∈ items t then swapRemove (items t) ((items t).idxOf a) else items t
  remove_answer (t : Carrier) (a : String) : (remove t a).2 = decide (a ∈ items t)

/-- Lists without repetitions are such sets. -/
def IndexSet.lists : IndexSet where
  Carrier := { l : List String // l.Nodup }
  items := Subtype.val
  nodup := Subtype.property
  empty := ⟨[], .nil⟩
  items_empty := rfl
  insert t a :=
    if h : a ∈ t.val then (t, false) else (⟨t.val ++ [a], nodup_append_singleton t.property h⟩, true)
  items_insert t a := by split_ifs <;> rfl
  insert_answer t a := by split_ifs with h <;> simp [h]
  removeIndex t i :=
    (if h : i < t.val.length then ⟨swapRemove t.val i, nodup_swapRemove t.property h⟩ else t, t.val[i]?)
  items_removeIndex t i := by
    dsimp only
    split_ifs <;> rfl
  removeIndex_answer t i := rfl
  remove t a :=
    if h : a ∈ t.val then
      (⟨swapRemove t.val (t.val.idxOf a), nodup_swapRemove t.property (List.idxOf_lt_length_of_mem h)⟩, true)
    else (t, false)
  items_remove t a := by split_ifs <;> rfl
  remove_answer t a := by split_ifs with h <;> simp [h]

inductive CompactSet (T : IndexSet) where
  | inline (members : List String)
  | table (members : T.Carrier)

namespace CompactSet

variable {T : IndexSet}

def new : CompactSet T := .inline []

def fromIndexSet (set : T.Carrier) : CompactSet T :=
  if (T.items set).length ≤ inlineSetMembers then .inline (T.items set) else .table set

/-- A set that collects strings. -/
def fromIter (items : List String) : CompactSet T :=
  fromIndexSet (items.foldl (fun set a => (T.insert set a).1) T.empty)

def iter : CompactSet T → List String
  | .inline members => members
  | .table members => T.items members

def len : CompactSet T → ℕ
  | .inline members => members.length
  | .table members => (T.items members).length

def isEmpty (s : CompactSet T) : Bool := s.len = 0

def contains (member : String) : CompactSet T → Bool
  | .inline members => members.any (· = member)
  | .table members => member ∈ T.items members

def insert (member : String) : CompactSet T → CompactSet T × Bool
  | .inline members =>
    if members.any (· = member) then (.inline members, false)
    else if members.length < inlineSetMembers then (.inline (members ++ [member]), true)
    else
      let table := members.foldl (fun table a => (T.insert table a).1) T.empty
      (.table (T.insert table member).1, (T.insert table member).2)
  | .table members => (.table (T.insert members member).1, (T.insert members member).2)

def swapRemove (member : String) : CompactSet T → CompactSet T × Bool
  | .inline members =>
    match members.findIdx? (· = member) with
    | some i => (.inline (Distinct.swapRemove members i), true)
    | none => (.inline members, false)
  | .table members => (.table (T.remove members member).1, (T.remove members member).2)

def swapRemoveIndex (index : ℕ) : CompactSet T → CompactSet T × Option String
  | .inline members =>
    if index < members.length then (.inline (Distinct.swapRemove members index), members[index]?)
    else (.inline members, none)
  | .table members => (.table (T.removeIndex members index).1, (T.removeIndex members index).2)

def getIndex (index : ℕ) : CompactSet T → Option String
  | .inline members => members[index]?
  | .table members => (T.items members)[index]?

/-- Take out all members; the form stays. -/
def drainAll : CompactSet T → CompactSet T × List String
  | .inline members => (.inline [], members)
  | .table members => (.table T.empty, T.items members)

end CompactSet

/-! ### Operations and their meaning -/

inductive SetOp where
  | insert (member : String)
  | swapRemove (member : String)
  | swapRemoveIndex (index : ℕ)
  | getIndex (index : ℕ)
  | contains (member : String)
  | len
  | isEmpty
  | iter
  | drainAll

inductive SetAnswer where
  | flag (b : Bool)
  | member (m : Option String)
  | count (n : ℕ)
  | members (l : List String)

def CompactSet.step {T : IndexSet} (s : CompactSet T) : SetOp → CompactSet T × SetAnswer
  | .insert member => ((s.insert member).1, .flag (s.insert member).2)
  | .swapRemove member => ((s.swapRemove member).1, .flag (s.swapRemove member).2)
  | .swapRemoveIndex index => ((s.swapRemoveIndex index).1, .member (s.swapRemoveIndex index).2)
  | .getIndex index => (s, .member (s.getIndex index))
  | .contains member => (s, .flag (s.contains member))
  | .len => (s, .count s.len)
  | .isEmpty => (s, .flag s.isEmpty)
  | .iter => (s, .members s.iter)
  | .drainAll => (s.drainAll.1, .members s.drainAll.2)

/-- The operations on a set; its members are listed once each, in any order, and an index below their
number is one of any of them. -/
def SetAllows (m : MemberSet) : SetOp → SetAnswer → MemberSet → Prop
  | .insert member, a, m' => a = .flag (!m.contains member) ∧ m' = m.insert member
  | .swapRemove member, a, m' => a = .flag (m.contains member) ∧ m' = m.erase member
  | .swapRemoveIndex index, a, m' =>
    if index < m.size then ∃ member ∈ m, a = .member (some member) ∧ m' = m.erase member
    else a = .member none ∧ m' = m
  | .getIndex index, a, m' =>
    (if index < m.size then ∃ member ∈ m, a = .member (some member) else a = .member none) ∧ m' = m
  | .contains member, a, m' => a = .flag (m.contains member) ∧ m' = m
  | .len, a, m' => a = .count m.size ∧ m' = m
  | .isEmpty, a, m' => a = .flag m.isEmpty ∧ m' = m
  | .iter, a, m' => ∃ l, a = .members l ∧ l.Perm m.toList ∧ m' = m
  | .drainAll, a, m' => ∃ l, a = .members l ∧ l.Perm m.toList ∧ m' = ∅

namespace CompactSet

variable {T : IndexSet} {s : CompactSet T} {m : MemberSet}

/-- The set that a compact one stands for. -/
def Shows (s : CompactSet T) (m : MemberSet) : Prop := ListsSet s.iter m

theorem Shows.len (shown : s.Shows m) : s.len = m.size := by
  rw [← ListsSet.length_eq shown]
  cases s <;> rfl

theorem any_eq_contains {members : List String} (lists : ListsSet members m) (member : String) :
    members.any (· = member) = m.contains member := by
  rw [Bool.eq_iff_iff, Std.ExtTreeSet.contains_iff_mem, ← lists.mem_iff]
  simp

theorem Shows.contains (shown : s.Shows m) (member : String) : s.contains member = m.contains member := by
  cases s with
  | inline members => exact any_eq_contains shown member
  | table members =>
    rw [Bool.eq_iff_iff, Std.ExtTreeSet.contains_iff_mem, ← ListsSet.mem_iff shown]
    simp [CompactSet.contains, iter]

theorem Shows.getIndex (shown : s.Shows m) (index : ℕ) :
    (index < m.size → ∃ member ∈ m, s.getIndex index = some member) ∧
      (m.size ≤ index → s.getIndex index = none) := by
  have listed : s.getIndex index = s.iter[index]? := by cases s <;> rfl
  rw [listed, ← ListsSet.length_eq shown]
  refine ⟨fun inside => ?_, List.getElem?_eq_none⟩
  have there := List.getElem?_eq_getElem inside
  exact ⟨_, ListsSet.getElem?_mem shown there, there⟩

theorem not_contained {member : String} (absent : member ∉ m) : m.contains member = false := by
  rw [Bool.eq_false_iff, ne_eq, Std.ExtTreeSet.contains_iff_mem]
  exact absent

/-- A table that takes a member lists the set with the member. -/
theorem lists_insert {members : T.Carrier} (lists : ListsSet (T.items members) m) (member : String) :
    ListsSet (T.items (T.insert members member).1) (m.insert member) ∧
      (T.insert members member).2 = !m.contains member := by
  rw [T.items_insert, T.insert_answer]
  by_cases there : member ∈ m
  · have listed := (lists.mem_iff member).mpr there
    rw [if_pos listed, insert_contained there]
    exact ⟨lists, by simp [listed, there]⟩
  · have unlisted : member ∉ T.items members := fun mem => there ((lists.mem_iff member).mp mem)
    rw [if_neg unlisted]
    exact ⟨lists.append there, by simp [unlisted, not_contained there]⟩

/-- A table that is built from strings lists the set of them. -/
theorem lists_collected (strings : List String) :
    ListsSet (T.items (strings.foldl (fun table a => (T.insert table a).1) T.empty))
      (strings.foldl (fun set a => set.insert a) (∅ : MemberSet)) := by
  have all (table : T.Carrier) (m : MemberSet) (start : ListsSet (T.items table) m) :
      ListsSet (T.items (strings.foldl (fun table a => (T.insert table a).1) table))
        (strings.foldl (fun set a => set.insert a) m) := by
    induction strings generalizing table m with
    | nil => exact start
    | cons a strings ih => exact ih _ _ (lists_insert start a).1
  refine all T.empty ∅ ?_
  rw [T.items_empty]
  exact .empty

theorem Shows.insert (shown : s.Shows m) (member : String) :
    (s.insert member).1.Shows (m.insert member) ∧ (s.insert member).2 = !m.contains member := by
  cases s with
  | table members => exact lists_insert shown member
  | inline members =>
    replace shown : ListsSet members m := shown
    unfold CompactSet.insert
    dsimp only
    rw [any_eq_contains shown]
    split_ifs with there room
    · rw [insert_contained (Std.ExtTreeSet.contains_iff_mem.mp there)]
      exact ⟨shown, by rw [there]; rfl⟩
    · have new : member ∉ m := fun mem => there (Std.ExtTreeSet.contains_iff_mem.mpr mem)
      exact ⟨shown.append new, by simp [there]⟩
    · have collected := lists_collected (T := T) members
      rw [ListsSet.foldl_insert shown] at collected
      exact lists_insert collected member

theorem Shows.swapRemove (shown : s.Shows m) (member : String) :
    (s.swapRemove member).1.Shows (m.erase member) ∧ (s.swapRemove member).2 = m.contains member := by
  cases s with
  | inline members =>
    unfold CompactSet.swapRemove
    dsimp only
    obtain ⟨i, found, there, mem⟩ | ⟨found, absent⟩ := ListsSet.findIdx?_cases (l := members) shown member
    · rw [found]
      exact ⟨ListsSet.swapRemove shown there, (Std.ExtTreeSet.contains_iff_mem.mpr mem).symm⟩
    · rw [found, erase_missing absent]
      exact ⟨shown, (not_contained absent).symm⟩
  | table members =>
    replace shown : ListsSet (T.items members) m := shown
    have answer : (T.remove members member).2 = m.contains member := by
      rw [T.remove_answer, Bool.eq_iff_iff, Std.ExtTreeSet.contains_iff_mem, ← shown.mem_iff]
      exact decide_eq_true_iff
    refine ⟨?_, answer⟩
    show ListsSet (T.items (T.remove members member).1) _
    rw [T.items_remove]
    split_ifs with listed
    · exact shown.swapRemove (List.getElem?_idxOf listed)
    · rw [erase_missing fun mem => listed ((shown.mem_iff member).mpr mem)]
      exact shown

theorem Shows.swapRemoveIndex (shown : s.Shows m) (index : ℕ) :
    (index < m.size → ∃ member ∈ m, (s.swapRemoveIndex index).2 = some member ∧
        (s.swapRemoveIndex index).1.Shows (m.erase member)) ∧
      (m.size ≤ index → (s.swapRemoveIndex index).2 = none ∧ (s.swapRemoveIndex index).1.Shows m) := by
  have answer : (s.swapRemoveIndex index).2 = s.iter[index]? := by
    cases s with
    | inline members =>
      unfold CompactSet.swapRemoveIndex
      dsimp only
      split_ifs with inside
      · rfl
      · exact (List.getElem?_eq_none (not_lt.mp inside)).symm
    | table members => exact T.removeIndex_answer members index
  have left : (s.swapRemoveIndex index).1.iter =
      if index < s.iter.length then Distinct.swapRemove s.iter index else s.iter := by
    cases s with
    | inline members =>
      show (CompactSet.swapRemoveIndex index (inline (T := T) members)).1.iter =
        if index < members.length then Distinct.swapRemove members index else members
      unfold CompactSet.swapRemoveIndex
      dsimp only
      split_ifs <;> rfl
    | table members => exact T.items_removeIndex members index
  rw [answer, ← ListsSet.length_eq shown]
  unfold Shows
  rw [left]
  constructor
  · intro inside
    have there := List.getElem?_eq_getElem inside
    rw [if_pos inside]
    exact ⟨_, ListsSet.getElem?_mem shown there, there, ListsSet.swapRemove shown there⟩
  · intro outside
    rw [if_neg (not_lt.mpr outside)]
    exact ⟨List.getElem?_eq_none outside, shown⟩

theorem Shows.drainAll (shown : s.Shows m) :
    s.drainAll.1.Shows ∅ ∧ s.drainAll.2.Perm m.toList := by
  have listed := ListsSet.perm_toList shown
  cases s with
  | inline members => exact ⟨.empty, listed⟩
  | table members =>
    refine ⟨?_, listed⟩
    show ListsSet (T.items T.empty) ∅
    rw [T.items_empty]
    exact .empty

theorem shows_fromIndexSet (set : T.Carrier) {m : MemberSet} (lists : ListsSet (T.items set) m) :
    (fromIndexSet set).Shows m := by
  unfold fromIndexSet
  split_ifs <;> exact lists

theorem shows_fromIter (items : List String) :
    (fromIter (T := T) items).Shows (items.foldl (fun set a => set.insert a) ∅) :=
  shows_fromIndexSet _ (lists_collected items)

/-- Every operation does to the compact set what it may do to the set, and answers so. -/
theorem implements_set : Implements (Shows (T := T)) CompactSet.step SetAllows := by
  intro s m op shown
  cases op with
  | insert member =>
    obtain ⟨kept, answer⟩ := shown.insert member
    exact ⟨_, ⟨congrArg _ answer, rfl⟩, kept⟩
  | swapRemove member =>
    obtain ⟨kept, answer⟩ := shown.swapRemove member
    exact ⟨_, ⟨congrArg _ answer, rfl⟩, kept⟩
  | swapRemoveIndex index =>
    by_cases inside : index < m.size
    · obtain ⟨member, mem, answer, kept⟩ := (shown.swapRemoveIndex index).1 inside
      refine ⟨_, ?_, kept⟩
      rw [SetAllows, if_pos inside]
      exact ⟨member, mem, congrArg _ answer, rfl⟩
    · obtain ⟨answer, kept⟩ := (shown.swapRemoveIndex index).2 (not_lt.mp inside)
      refine ⟨_, ?_, kept⟩
      rw [SetAllows, if_neg inside]
      exact ⟨congrArg _ answer, rfl⟩
  | getIndex index =>
    refine ⟨m, ⟨?_, rfl⟩, shown⟩
    split_ifs with inside
    · obtain ⟨member, mem, answer⟩ := (shown.getIndex index).1 inside
      exact ⟨member, mem, congrArg _ answer⟩
    · exact congrArg _ ((shown.getIndex index).2 (not_lt.mp inside))
  | contains member => exact ⟨m, ⟨congrArg _ (shown.contains member), rfl⟩, shown⟩
  | len => exact ⟨m, ⟨congrArg _ shown.len, rfl⟩, shown⟩
  | isEmpty =>
    have empty : s.isEmpty = m.isEmpty := by
      rw [isEmpty, shown.len, Std.ExtTreeSet.isEmpty_eq_size_beq_zero]
      exact (beq_eq_decide _ _).symm
    exact ⟨m, ⟨congrArg SetAnswer.flag empty, rfl⟩, shown⟩
  | iter => exact ⟨m, ⟨_, rfl, ListsSet.perm_toList shown, rfl⟩, shown⟩
  | drainAll =>
    obtain ⟨kept, listed⟩ := shown.drainAll
    exact ⟨_, ⟨_, rfl, listed, rfl⟩, kept⟩

end CompactSet

/-! ## Runs -/

/-- Compact hashes and sets, however they were made, answer every sequence of operations as a map and
a set do, and stand for the resulting map and set. -/
structure CompactRefines (T : IndexSet) : Prop where
  hash : ∀ (map : Hash) (ops : List HashOp), ∃ m,
    Allows MapAllows map ops (run CompactHash.step (.fromMap map) ops).2 m ∧
      (run CompactHash.step (.fromMap map) ops).1.Shows m
  newHash : ∀ ops : List HashOp, ∃ m,
    Allows MapAllows ∅ ops (run CompactHash.step .new ops).2 m ∧
      (run CompactHash.step .new ops).1.Shows m
  set : ∀ (members : T.Carrier) (ops : List SetOp), ∃ m,
    Allows SetAllows ((T.items members).foldl (fun set a => set.insert a) ∅) ops
        (run CompactSet.step (.fromIndexSet members) ops).2 m ∧
      (run CompactSet.step (.fromIndexSet members) ops).1.Shows m
  collected : ∀ (items : List String) (ops : List SetOp), ∃ m,
    Allows SetAllows (items.foldl (fun set a => set.insert a) ∅) ops
        (run CompactSet.step (.fromIter (T := T) items) ops).2 m ∧
      (run CompactSet.step (.fromIter (T := T) items) ops).1.Shows m
  newSet : ∀ ops : List SetOp, ∃ m,
    Allows SetAllows ∅ ops (run CompactSet.step (.new (T := T)) ops).2 m ∧
      (run CompactSet.step (.new (T := T)) ops).1.Shows m

theorem compact_refines (T : IndexSet) : CompactRefines T where
  hash map := CompactHash.implements_map.run (CompactHash.shows_fromMap map)
  newHash := CompactHash.implements_map.run (s := .new) (t := ∅) (.toList ∅)
  set members := CompactSet.implements_set.run
    (CompactSet.shows_fromIndexSet members (.collected (T.nodup members)))
  collected items := CompactSet.implements_set.run (CompactSet.shows_fromIter items)
  newSet := CompactSet.implements_set.run (s := .new) (t := ∅) .empty

theorem compact_refines_lists : CompactRefines .lists := compact_refines .lists

end Recached
