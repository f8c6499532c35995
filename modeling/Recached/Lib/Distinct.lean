import Mathlib.Data.List.Nodup
import Mathlib.Data.List.Perm.Basic
import Mathlib.Tactic.Common
import Std.Data.ExtTreeMap
import Std.Data.ExtTreeSet

/-!
# Lists of distinct elements

A list without repetitions stands for a set, and one of pairs with different keys for a map, in any
order.  Appending, overwriting in place, and removing by moving the last element into the place that
becomes free are the operations of the set and of the map.
-/

namespace Distinct

open Std List

/-! ## Removal by moving the last element -/

section

variable {α : Type} {l : List α} {i : ℕ}

/-- Move the last element into a place and shorten the list by one. -/
def swapRemove (l : List α) (i : ℕ) : List α :=
  match l.getLast? with
  | some last => (l.set i last).dropLast
  | none => []

theorem swapRemove_perm (inside : i < l.length) : (l[i] :: swapRemove l i).Perm l := by
  obtain ⟨init, last, rfl⟩ : ∃ init last, l = init ++ [last] :=
    ⟨l.dropLast, l.getLast (List.ne_nil_of_length_pos (by omega)), (List.dropLast_append_getLast _).symm⟩
  have final : (init ++ [last]).getLast? = some last := List.getLast?_concat
  unfold swapRemove
  rw [final]
  dsimp only
  by_cases earlier : i < init.length
  · rw [List.set_append_left _ _ earlier, List.dropLast_concat, List.getElem_append_left earlier]
    calc init[i] :: init.set i last
      _ ~ init[i] :: last :: init.eraseIdx i := (List.set_perm_cons_eraseIdx earlier last).cons _
      _ ~ last :: init[i] :: init.eraseIdx i := .swap _ _ _
      _ ~ last :: init := (List.getElem_cons_eraseIdx_perm earlier).cons _
      _ ~ init ++ [last] := (List.perm_append_singleton last init).symm
  · rw [List.length_append, List.length_singleton] at inside
    obtain rfl : i = init.length := by omega
    have same : (init ++ [last]).set init.length last = init ++ [last] := by simp
    rw [same, List.dropLast_concat, List.getElem_concat_length rfl]
    exact (List.perm_append_singleton last init).symm

theorem swapRemove_perm_of_getElem? {a : α} (there : l[i]? = some a) : (a :: swapRemove l i).Perm l := by
  obtain ⟨inside, rfl⟩ := List.getElem?_eq_some_iff.mp there
  exact swapRemove_perm inside

theorem nodup_swapRemove (distinct : l.Nodup) (inside : i < l.length) : (swapRemove l i).Nodup :=
  (List.nodup_cons.mp ((swapRemove_perm inside).nodup_iff.mpr distinct)).2

theorem nodup_append_singleton {a : α} (distinct : l.Nodup) (new : a ∉ l) : (l ++ [a]).Nodup :=
  (List.perm_append_singleton a l).nodup_iff.mpr (List.nodup_cons.mpr ⟨new, distinct⟩)

end

/-- The first occurrences of the elements. -/
theorem nodup_eraseDups {α : Type} [BEq α] [LawfulBEq α] (l : List α) : l.eraseDups.Nodup := by
  induction len : l.length using Nat.strongRecOn generalizing l with
  | ind n ih =>
    cases l with
    | nil => exact List.nodup_nil
    | cons a l =>
      have shorter : (l.filter fun b => !b == a).length < n := by
        have := List.length_filter_le (fun b => !b == a) l
        rw [List.length_cons] at len
        omega
      rw [List.eraseDups_cons]
      refine List.nodup_cons.mpr ⟨fun again => ?_, ih _ shorter _ rfl⟩
      simpa using (List.mem_filter.mp (List.mem_eraseDups.mp again)).2

/-! ## Maps -/

/-- The pairs of a map, in any order. -/
structure ListsMap {κ ν : Type} {cmp : κ → κ → Ordering} [TransCmp cmp] (l : List (κ × ν))
    (m : ExtTreeMap κ ν cmp) : Prop where
  distinct : (l.map Prod.fst).Nodup
  mem_iff : ∀ k v, (k, v) ∈ l ↔ m[k]? = some v

theorem erase_absent {κ ν : Type} {cmp : κ → κ → Ordering} [TransCmp cmp] [LawfulEqCmp cmp]
    {m : ExtTreeMap κ ν cmp} {k : κ} (absent : m[k]? = none) : m.erase k = m := by
  refine ExtTreeMap.ext_getElem? fun k' => ?_
  rw [ExtTreeMap.getElem?_erase]
  split_ifs with same
  · rw [← LawfulEqCmp.eq_of_compare same, absent]
  · rfl

namespace ListsMap

variable {κ ν : Type} {cmp : κ → κ → Ordering} [TransCmp cmp] {l l' : List (κ × ν)}
  {m : ExtTreeMap κ ν cmp} {k : κ} {v old : ν} {i : ℕ}

theorem of_perm (h : ListsMap l m) (perm : l.Perm l') : ListsMap l' m :=
  ⟨(perm.map Prod.fst).nodup_iff.mp h.distinct, fun k v => perm.mem_iff.symm.trans (h.mem_iff k v)⟩

section

variable [DecidableEq κ]

theorem found (h : ListsMap l m) (first : l.findIdx? (·.1 = k) = some i) :
    ∃ v, l[i]? = some (k, v) ∧ m[k]? = some v := by
  obtain ⟨inside, key, -⟩ := List.findIdx?_eq_some_iff_getElem.mp first
  have there : l[i]? = some (k, l[i].2) := by
    rw [List.getElem?_eq_getElem inside, ← of_decide_eq_true key]
  exact ⟨_, there, (h.mem_iff _ _).mp (List.mem_of_getElem? there)⟩

theorem not_found (h : ListsMap l m) (none : l.findIdx? (·.1 = k) = none) : m[k]? = Option.none := by
  cases held : m[k]? with
  | none => rfl
  | some v =>
    have := List.findIdx?_eq_none_iff.mp none _ ((h.mem_iff k v).mpr held)
    simp at this

theorem findSome?_eq (h : ListsMap l m) (k : κ) :
    (l.findSome? fun e => if e.1 = k then some e.2 else none) = m[k]? := by
  cases found : l.findSome? fun e => if e.1 = k then some e.2 else none with
  | none =>
    cases held : m[k]? with
    | none => rfl
    | some v =>
      have := List.findSome?_eq_none_iff.mp found _ ((h.mem_iff k v).mpr held)
      simp at this
  | some v =>
    obtain ⟨⟨k', v'⟩, listed, here⟩ := List.exists_of_findSome?_eq_some found
    split_ifs at here with same
    obtain rfl := same
    rw [(h.mem_iff k' v').mp listed, here]

end

variable [LawfulEqCmp cmp]

theorem toList (m : ExtTreeMap κ ν cmp) : ListsMap m.toList m := by
  refine ⟨?_, fun k v => ExtTreeMap.mem_toList_iff_getElem?_eq_some⟩
  rw [List.Nodup, List.pairwise_map]
  exact ExtTreeMap.distinct_keys_toList.imp fun h eq => h (LawfulEqCmp.compare_eq_iff_eq.mpr eq)

theorem perm_toList (h : ListsMap l m) : l.Perm m.toList :=
  (List.perm_ext_iff_of_nodup (List.Nodup.of_map _ h.distinct)
    (List.Nodup.of_map _ (toList m).distinct)).mpr fun ⟨k, v⟩ =>
      (h.mem_iff k v).trans ((toList m).mem_iff k v).symm

theorem length_eq (h : ListsMap l m) : l.length = m.size := by
  rw [h.perm_toList.length_eq, ExtTreeMap.length_toList]

theorem cons (h : ListsMap l m) (new : m[k]? = none) (v : ν) : ListsMap ((k, v) :: l) (m.insert k v) := by
  constructor
  · rw [List.map_cons, List.nodup_cons]
    refine ⟨fun mem => ?_, h.distinct⟩
    obtain ⟨⟨k', v'⟩, listed, rfl⟩ := List.mem_map.mp mem
    rw [(h.mem_iff k' v').mp listed] at new
    cases new
  · intro k' v'
    simp only [List.mem_cons, h.mem_iff, ExtTreeMap.getElem?_insert, LawfulEqCmp.compare_eq_iff_eq,
      Prod.mk.injEq]
    by_cases same : k = k'
    · subst same
      simpa [new] using eq_comm
    · simp [same, Ne.symm same]

theorem tail (h : ListsMap ((k, v) :: l) m) : ListsMap l (m.erase k) := by
  obtain ⟨fresh, distinct⟩ := List.nodup_cons.mp (List.map_cons ▸ h.distinct)
  refine ⟨distinct, fun k' v' => ?_⟩
  simp only [ExtTreeMap.getElem?_erase, LawfulEqCmp.compare_eq_iff_eq]
  by_cases same : k = k'
  · subst same
    have gone : (k, v') ∉ l := fun mem => fresh (List.mem_map.mpr ⟨_, mem, rfl⟩)
    simp [gone]
  · simp [same, Ne.symm same, ← h.mem_iff]

theorem append (h : ListsMap l m) (new : m[k]? = none) (v : ν) : ListsMap (l ++ [(k, v)]) (m.insert k v) :=
  (h.cons new v).of_perm (List.perm_append_singleton _ _).symm

theorem swapRemove (h : ListsMap l m) (there : l[i]? = some (k, v)) :
    ListsMap (Distinct.swapRemove l i) (m.erase k) :=
  (h.of_perm (swapRemove_perm_of_getElem? there).symm).tail

theorem set (h : ListsMap l m) (there : l[i]? = some (k, old)) (v : ν) :
    ListsMap (l.set i (k, v)) (m.insert k v) := by
  obtain ⟨inside, at_i⟩ := List.getElem?_eq_some_iff.mp there
  have others : ListsMap (l.eraseIdx i) (m.erase k) := by
    have perm := List.getElem_cons_eraseIdx_perm inside
    rw [at_i] at perm
    exact (h.of_perm perm.symm).tail
  have overwritten : (m.erase k).insert k v = m.insert k v := by
    refine ExtTreeMap.ext_getElem? fun k' => ?_
    rw [ExtTreeMap.getElem?_insert, ExtTreeMap.getElem?_insert, ExtTreeMap.getElem?_erase]
    split_ifs <;> rfl
  have gone : (m.erase k)[k]? = none := by simp
  exact overwritten ▸ (others.cons gone v).of_perm (List.set_perm_cons_eraseIdx inside _).symm

theorem getElem?_foldl_insert (h : ListsMap l m) (acc : ExtTreeMap κ ν cmp) (k : κ) :
    (l.foldl (fun t e => t.insert e.1 e.2) acc)[k]? = (m[k]?).or acc[k]? := by
  induction l generalizing m acc with
  | nil =>
    have none : m[k]? = none := by
      cases held : m[k]? with
      | none => rfl
      | some v => exact absurd ((h.mem_iff k v).mpr held) (by simp)
    rw [List.foldl_nil, none, Option.none_or]
  | cons e l ih =>
    obtain ⟨k', v'⟩ := e
    rw [List.foldl_cons, ih h.tail]
    simp only [ExtTreeMap.getElem?_erase, ExtTreeMap.getElem?_insert]
    split_ifs with same
    · obtain rfl := LawfulEqCmp.compare_eq_iff_eq.mp same
      rw [(h.mem_iff k' v').mp (List.mem_cons_self ..)]
      rfl
    · rfl

/-- Inserting the pairs into an empty map gives the map. -/
theorem foldl_insert (h : ListsMap l m) : l.foldl (fun t e => t.insert e.1 e.2) ∅ = m := by
  refine ExtTreeMap.ext_getElem? fun k => ?_
  rw [h.getElem?_foldl_insert, ExtTreeMap.getElem?_empty, Option.or_none]

end ListsMap

/-! ## Sets -/

/-- The elements of a set, in any order. -/
structure ListsSet {α : Type} {cmp : α → α → Ordering} [TransCmp cmp] (l : List α)
    (s : ExtTreeSet α cmp) : Prop where
  distinct : l.Nodup
  mem_iff : ∀ a, a ∈ l ↔ a ∈ s

section

variable {α : Type} {cmp : α → α → Ordering} [TransCmp cmp] [LawfulEqCmp cmp] {s : ExtTreeSet α cmp} {a : α}

theorem insert_contained (there : a ∈ s) : s.insert a = s := by
  refine ExtTreeSet.ext_mem fun b => ?_
  rw [ExtTreeSet.mem_insert, LawfulEqCmp.compare_eq_iff_eq]
  refine ⟨?_, .inr⟩
  rintro (rfl | mem)
  exacts [there, mem]

theorem erase_missing (absent : a ∉ s) : s.erase a = s := by
  refine ExtTreeSet.ext_mem fun b => ?_
  rw [ExtTreeSet.mem_erase, ne_eq, LawfulEqCmp.compare_eq_iff_eq]
  refine ⟨And.right, fun mem => ⟨?_, mem⟩⟩
  rintro rfl
  exact absent mem

end

namespace ListsSet

variable {α : Type} {cmp : α → α → Ordering} [TransCmp cmp] {l l' : List α} {s : ExtTreeSet α cmp}
  {a : α} {i : ℕ}

theorem of_perm (h : ListsSet l s) (perm : l.Perm l') : ListsSet l' s :=
  ⟨perm.nodup_iff.mp h.distinct, fun a => perm.mem_iff.symm.trans (h.mem_iff a)⟩

theorem empty : ListsSet [] (∅ : ExtTreeSet α cmp) := ⟨.nil, by simp⟩

theorem getElem?_mem (h : ListsSet l s) (there : l[i]? = some a) : a ∈ s :=
  (h.mem_iff a).mp (List.mem_of_getElem? there)

variable [LawfulEqCmp cmp]

theorem toList (s : ExtTreeSet α cmp) : ListsSet s.toList s :=
  ⟨ExtTreeSet.distinct_toList.imp fun h eq => h (LawfulEqCmp.compare_eq_iff_eq.mpr eq),
    fun _ => ExtTreeSet.mem_toList⟩

theorem perm_toList (h : ListsSet l s) : l.Perm s.toList :=
  (List.perm_ext_iff_of_nodup h.distinct (toList s).distinct).mpr fun a =>
    (h.mem_iff a).trans ((toList s).mem_iff a).symm

theorem length_eq (h : ListsSet l s) : l.length = s.size := by
  rw [h.perm_toList.length_eq, ExtTreeSet.length_toList]

theorem append (h : ListsSet l s) (new : a ∉ s) : ListsSet (l ++ [a]) (s.insert a) := by
  refine ⟨nodup_append_singleton h.distinct ?_, fun b => ?_⟩
  · rwa [h.mem_iff]
  · rw [List.mem_append, List.mem_singleton, h.mem_iff, ExtTreeSet.mem_insert,
      LawfulEqCmp.compare_eq_iff_eq, or_comm, eq_comm]

theorem swapRemove (h : ListsSet l s) (there : l[i]? = some a) :
    ListsSet (Distinct.swapRemove l i) (s.erase a) := by
  have perm := swapRemove_perm_of_getElem? there
  obtain ⟨fresh, distinct⟩ := List.nodup_cons.mp (perm.nodup_iff.mpr h.distinct)
  refine ⟨distinct, fun b => ?_⟩
  rw [ExtTreeSet.mem_erase, ← h.mem_iff, ← perm.mem_iff, List.mem_cons, ne_eq,
    LawfulEqCmp.compare_eq_iff_eq]
  by_cases same : a = b
  · subst same
    simp [fresh]
  · simp [same, Ne.symm same]

theorem mem_foldl_insert (l : List α) (acc : ExtTreeSet α cmp) {b : α} :
    b ∈ l.foldl (fun t a => t.insert a) acc ↔ b ∈ l ∨ b ∈ acc := by
  induction l generalizing acc with
  | nil => simp
  | cons a l ih =>
    rw [List.foldl_cons, ih, ExtTreeSet.mem_insert, LawfulEqCmp.compare_eq_iff_eq, List.mem_cons,
      eq_comm (a := a)]
    tauto

/-- Elements that are distinct list the set that they are inserted into. -/
theorem collected (distinct : l.Nodup) : ListsSet l (l.foldl (fun t a => t.insert a) (∅ : ExtTreeSet α cmp)) :=
  ⟨distinct, fun b => by simp [mem_foldl_insert]⟩

/-- Inserting the elements into an empty set gives the set. -/
theorem foldl_insert (h : ListsSet l s) : l.foldl (fun t a => t.insert a) ∅ = s :=
  ExtTreeSet.ext_mem fun b => by simp [mem_foldl_insert, h.mem_iff]

section

variable [DecidableEq α]

omit [LawfulEqCmp cmp] in
/-- Where an element is, or that it is not there. -/
theorem findIdx?_cases (h : ListsSet l s) (a : α) :
    (∃ i, l.findIdx? (· = a) = some i ∧ l[i]? = some a ∧ a ∈ s) ∨ (l.findIdx? (· = a) = none ∧ a ∉ s) := by
  cases found : l.findIdx? (· = a) with
  | some i =>
    obtain ⟨inside, here, -⟩ := List.findIdx?_eq_some_iff_getElem.mp found
    have there : l[i]? = some a := by
      rw [List.getElem?_eq_getElem inside, of_decide_eq_true here]
    exact .inl ⟨i, rfl, there, h.getElem?_mem there⟩
  | none =>
    refine .inr ⟨rfl, fun mem => ?_⟩
    have := List.findIdx?_eq_none_iff.mp found a ((h.mem_iff a).mpr mem)
    simp at this

end

end ListsSet

end Distinct
