import Mathlib.Data.List.Sort
import Mathlib.Tactic.Common
import Std.Data.ExtTreeMap
import Std.Data.ExtTreeSet

/-!
# Secondary indexes

The pairs of a finite map, each with its value first, in an order of pairs: an index that lists the
map by value.  `pairs_insert_new`, `pairs_insert_old` and `pairs_erase` say how it is kept in step
with a write, and `toList_pairs` that it lists the map as sorting would.  `takeWhile_eq_filter` and
`dropWhile_eq_filter` are about cutting a sorted list in two.
-/

namespace SecondaryIndex

open Std

variable {κ ν : Type} {cmp : κ → κ → Ordering} {ord : ν × κ → ν × κ → Ordering}
  [TransCmp cmp] [TransCmp ord]

def pairs (ord : ν × κ → ν × κ → Ordering) [TransCmp ord] (m : ExtTreeMap κ ν cmp) :
    ExtTreeSet (ν × κ) ord :=
  m.toList.foldl (fun index e => index.insert (e.2, e.1)) ∅

variable [LawfulEqCmp cmp] [LawfulEqCmp ord] {m : ExtTreeMap κ ν cmp} {k : κ} {v old : ν}

theorem mem_foldl_insert (l : List (κ × ν)) (index : ExtTreeSet (ν × κ) ord) (p : ν × κ) :
    p ∈ l.foldl (fun index e => index.insert (e.2, e.1)) index ↔ (p.2, p.1) ∈ l ∨ p ∈ index := by
  induction l generalizing index with
  | nil => simp
  | cons e l ih =>
    rw [List.foldl_cons, ih, ExtTreeSet.mem_insert, LawfulEqCmp.compare_eq_iff_eq, List.mem_cons]
    obtain ⟨k, v⟩ := e
    obtain ⟨v', k'⟩ := p
    simp only [Prod.mk.injEq]
    tauto

theorem mem_pairs : (v, k) ∈ pairs ord m ↔ m[k]? = some v := by
  simp only [pairs, mem_foldl_insert, ExtTreeSet.not_mem_empty, or_false,
    ExtTreeMap.mem_toList_iff_getElem?_eq_some]

/-- The index is the only set with the pairs of the map. -/
theorem eq_pairs {index : ExtTreeSet (ν × κ) ord} (h : ∀ v k, (v, k) ∈ index ↔ m[k]? = some v) :
    index = pairs ord m :=
  ExtTreeSet.ext_mem fun p => (h p.1 p.2).trans mem_pairs.symm

/-! ## Writes -/

theorem pairs_insert_new (h : m[k]? = none) : (pairs ord m).insert (v, k) = pairs ord (m.insert k v) := by
  refine eq_pairs fun v' k' => ?_
  simp only [ExtTreeSet.mem_insert, LawfulEqCmp.compare_eq_iff_eq, mem_pairs,
    ExtTreeMap.getElem?_insert, Prod.mk.injEq]
  by_cases same : k = k'
  · subst same
    simp [h]
  · simp [same]

theorem mem_erase_pairs (h : m[k]? = some old) {v' : ν} {k' : κ} :
    (v', k') ∈ (pairs ord m).erase (old, k) ↔ k ≠ k' ∧ m[k']? = some v' := by
  simp only [ExtTreeSet.mem_erase, ne_eq, LawfulEqCmp.compare_eq_iff_eq, mem_pairs, Prod.mk.injEq]
  by_cases same : k = k'
  · subst same
    simp only [h, Option.some.injEq]
    tauto
  · simp [same]

theorem pairs_erase (h : m[k]? = some old) : (pairs ord m).erase (old, k) = pairs ord (m.erase k) := by
  refine eq_pairs fun v' k' => ?_
  simp only [mem_erase_pairs h, ExtTreeMap.getElem?_erase, LawfulEqCmp.compare_eq_iff_eq]
  by_cases same : k = k'
  · simp [same]
  · simp [same]

theorem pairs_insert_old (h : m[k]? = some old) :
    ((pairs ord m).erase (old, k)).insert (v, k) = pairs ord (m.insert k v) := by
  refine eq_pairs fun v' k' => ?_
  simp only [ExtTreeSet.mem_insert, LawfulEqCmp.compare_eq_iff_eq, mem_erase_pairs h,
    ExtTreeMap.getElem?_insert, Prod.mk.injEq]
  by_cases same : k = k'
  · simp [same]
  · simp [same]

/-! ## Listing -/

theorem toList_pairs_perm : (pairs ord m).toList.Perm (m.toList.map Prod.swap) := by
  have distinct : (pairs ord m).toList.Nodup :=
    ExtTreeSet.distinct_toList.imp fun h eq => h (LawfulEqCmp.compare_eq_iff_eq.mpr eq)
  have pairwise : m.toList.Pairwise fun a b => a ≠ b :=
    ExtTreeMap.distinct_keys_toList.imp fun h eq =>
      h (LawfulEqCmp.compare_eq_iff_eq.mpr (congrArg Prod.fst eq))
  refine (List.perm_ext_iff_of_nodup distinct
    (List.Nodup.map Prod.swap_injective pairwise)).mpr ?_
  rintro ⟨v, k⟩
  rw [ExtTreeSet.mem_toList, mem_pairs, ← ExtTreeMap.mem_toList_iff_getElem?_eq_some, List.mem_map]
  constructor
  · exact fun h => ⟨(k, v), h, rfl⟩
  · rintro ⟨⟨k', v'⟩, h, eq⟩
    cases eq
    exact h

/-- The index lists the pairs of the map as sorting them would, by any order that agrees with that
of the index. -/
theorem toList_pairs {before : κ × ν → κ × ν → Prop} [DecidableRel before]
    (agree : ∀ a b, before a b ↔ (ord a.swap b.swap).isLE) :
    (pairs ord m).toList.map Prod.swap = m.toList.insertionSort before := by
  have total : Std.Total before := ⟨fun a b => by
    have back : ord b.swap a.swap = (ord a.swap b.swap).swap := OrientedCmp.eq_swap
    rw [agree, agree, back]
    cases ord a.swap b.swap <;> simp⟩
  have trans : IsTrans (κ × ν) before := ⟨fun a b c hab hbc => by
    rw [agree] at *
    exact TransCmp.isLE_trans hab hbc⟩
  have perm : ((pairs ord m).toList.map Prod.swap).Perm (m.toList.insertionSort before) := by
    refine (toList_pairs_perm.map Prod.swap).trans ?_
    rw [List.map_map, Prod.swap_swap_eq, List.map_id]
    exact (List.perm_insertionSort before _).symm
  refine List.Perm.eq_of_pairwise (fun a b _ _ hab hba => ?_) ?_
    (List.pairwise_insertionSort before _) perm
  · rw [agree] at hab hba
    have eq := LawfulEqCmp.compare_eq_iff_eq.mp (OrientedCmp.isLE_antisymm hab hba)
    exact Prod.swap_injective eq
  · refine List.pairwise_map.mpr (ExtTreeSet.ordered_toList.imp fun {a b} h => ?_)
    rw [agree, Prod.swap_swap, Prod.swap_swap, h]
    rfl

/-! ## Cutting a sorted list

The predicate holds on a lower part of the order. -/

section

variable {α : Type} {R : α → α → Prop} {p : α → Bool} {l : List α}

theorem takeWhile_eq_filter (sorted : l.Pairwise R) (lower : ∀ a b, R a b → p b → p a) :
    l.takeWhile p = l.filter p := by
  induction sorted with
  | nil => rfl
  | @cons a l before sorted ih =>
    cases h : p a with
    | true => rw [List.takeWhile_cons_of_pos h, List.filter_cons_of_pos h, ih]
    | false =>
      have none : ∀ b ∈ l, ¬p b := fun b hb hp => by
        rw [lower a b (before b hb) hp] at h
        cases h
      rw [List.takeWhile_cons_of_neg (by simp [h]), List.filter_cons_of_neg (by simp [h]),
        List.filter_eq_nil_iff.mpr none]

theorem dropWhile_eq_filter (sorted : l.Pairwise R) (lower : ∀ a b, R a b → p b → p a) :
    l.dropWhile p = l.filter fun a => !p a := by
  induction sorted with
  | nil => rfl
  | @cons a l before sorted ih =>
    cases h : p a with
    | true => rw [List.dropWhile_cons_of_pos h, List.filter_cons_of_neg (by simp [h]), ih]
    | false =>
      have none : ∀ b ∈ l, !p b := fun b hb => by
        cases hp : p b with
        | false => rfl
        | true =>
          rw [lower a b (before b hb) hp] at h
          cases h
      rw [List.dropWhile_cons_of_neg (by simp [h]), List.filter_cons_of_pos (by simp [h]),
        List.filter_eq_self.mpr none]

end

end SecondaryIndex
