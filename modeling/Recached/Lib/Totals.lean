import Mathlib

/-!
# Totals over a finite map

The sum of a weight over the entries of a map.  `total_exchange` compares two maps that differ on a
list of keys only: their totals differ by what these keys weigh.
-/

namespace Totals

variable {κ α : Type} [Ord κ] [Std.TransOrd κ]

/-- The weight of the entry of a key, nothing if there is none. -/
def weightAt (w : κ → α → ℕ) (d : Std.ExtTreeMap κ α) (k : κ) : ℕ := (d[k]?.map (w k)).getD 0

def total (w : κ → α → ℕ) (d : Std.ExtTreeMap κ α) : ℕ := (d.toList.map fun e => w e.1 e.2).sum

variable (w : κ → α → ℕ) {d d' : Std.ExtTreeMap κ α} {k : κ} {a : α}

theorem weightAt_congr (same : d[k]? = d'[k]?) : weightAt w d k = weightAt w d' k := by
  rw [weightAt, weightAt, same]

@[simp] theorem total_empty : total w (∅ : Std.ExtTreeMap κ α) = 0 := by
  rw [total, Std.ExtTreeMap.toList_eq_nil_iff.mpr rfl]
  rfl

/-- Dropping entries lowers the total by what they weigh. -/
theorem total_filter (p : κ → α → Bool) (d : Std.ExtTreeMap κ α) :
    total w (d.filter p) + total w (d.filter fun k a => !p k a) = total w d := by
  simp only [total, Std.ExtTreeMap.toList_filter]
  induction d.toList with
  | nil => rfl
  | cons e rest ih =>
    cases h : p e.1 e.2 <;> simp [h] at ih ⊢ <;> omega

theorem total_filter_le (p : κ → α → Bool) (d : Std.ExtTreeMap κ α) :
    total w (d.filter p) ≤ total w d := by
  have := total_filter w p d
  omega

theorem nodup_toList (d : Std.ExtTreeMap κ α) : d.toList.Nodup := by
  refine d.distinct_keys_toList.imp fun {e e'} ne eq => ne ?_
  rw [eq]
  exact Std.ReflCmp.compare_self

variable [Std.LawfulEqOrd κ]

/-- Maps whose entries weigh the same have the same total. -/
theorem total_congr (same : ∀ k : κ, d[k]?.map (w k) = d'[k]?.map (w k)) : total w d = total w d' := by
  have weights (d : Std.ExtTreeMap κ α) : total w d = ((d.map w).toList.map Prod.snd).sum := by
    rw [Std.ExtTreeMap.toList_map, List.map_map]
    rfl
  have eq : d.map w = d'.map w := by
    refine Std.ExtTreeMap.ext_getElem? fun k => ?_
    rw [Std.ExtTreeMap.getElem?_map, Std.ExtTreeMap.getElem?_map]
    exact same k
  rw [weights, weights, eq]

theorem toList_perm_erase (found : d[k]? = some a) : d.toList.Perm ((k, a) :: (d.erase k).toList) := by
  have absent : (k, a) ∉ (d.erase k).toList := by simp
  refine (List.perm_ext_iff_of_nodup (nodup_toList d) (List.nodup_cons.mpr ⟨absent, nodup_toList _⟩)).mpr ?_
  rintro ⟨k', a'⟩
  rw [List.mem_cons, Std.ExtTreeMap.mem_toList_iff_getElem?_eq_some,
    Std.ExtTreeMap.mem_toList_iff_getElem?_eq_some, Std.ExtTreeMap.getElem?_erase]
  by_cases same : compare k k' = .eq
  · obtain rfl := Std.LawfulEqOrd.eq_of_compare same
    simp [found, eq_comm]
  · have ne : k' ≠ k := fun h => same (h ▸ Std.ReflCmp.compare_self)
    simp [same, ne]

theorem total_erase (d : Std.ExtTreeMap κ α) (k : κ) :
    total w (d.erase k) + weightAt w d k = total w d := by
  cases found : d[k]? with
  | none =>
    have same : d.erase k = d := by
      refine Std.ExtTreeMap.ext_getElem? fun k' => ?_
      rw [Std.ExtTreeMap.getElem?_erase]
      split_ifs with h
      · rw [← Std.LawfulEqOrd.eq_of_compare h, found]
      · rfl
    rw [same, weightAt, found]
    rfl
  | some a =>
    have perm := (toList_perm_erase found).map fun e => w e.1 e.2
    rw [total, total, perm.sum_eq]
    simp [weightAt, found, add_comm]

/-- What distinct keys weigh is part of the total. -/
theorem sum_weightAt_erase (keys : List κ) (distinct : keys.Nodup) (d : Std.ExtTreeMap κ α) :
    total w (keys.foldl (fun d k => d.erase k) d) + (keys.map (weightAt w d)).sum = total w d := by
  induction keys generalizing d with
  | nil => simp
  | cons k keys ih =>
    obtain ⟨fresh, distinct⟩ := List.nodup_cons.mp distinct
    have rest := ih distinct (d.erase k)
    have first := total_erase w d k
    have others : keys.map (weightAt w (d.erase k)) = keys.map (weightAt w d) := by
      refine List.map_congr_left fun k' mem => weightAt_congr w ?_
      have ne : compare k k' ≠ .eq := fun eq => fresh (Std.LawfulEqOrd.eq_of_compare eq ▸ mem)
      rw [Std.ExtTreeMap.getElem?_erase, if_neg ne]
    rw [others] at rest
    rw [List.foldl_cons, List.map_cons, List.sum_cons]
    omega

theorem getElem?_foldl_erase (keys : List κ) (d : Std.ExtTreeMap κ α) (k : κ) [DecidableEq κ] :
    (keys.foldl (fun d k => d.erase k) d)[k]? = if k ∈ keys then none else d[k]? := by
  induction keys generalizing d with
  | nil => simp
  | cons key keys ih =>
    rw [List.foldl_cons, ih, Std.ExtTreeMap.getElem?_erase]
    by_cases same : key = k
    · subst same
      simp
    · have ne : compare key k ≠ .eq := fun eq => same (Std.LawfulEqOrd.eq_of_compare eq)
      simp [ne, Ne.symm same]

/-- Two maps that agree outside some keys differ by what these keys weigh. -/
theorem total_exchange [DecidableEq κ] {keys : List κ} (distinct : keys.Nodup)
    (agree : ∀ k ∉ keys, d[k]? = d'[k]?) :
    total w d + (keys.map (weightAt w d')).sum = total w d' + (keys.map (weightAt w d)).sum := by
  have first := sum_weightAt_erase w keys distinct d
  have second := sum_weightAt_erase w keys distinct d'
  have same : keys.foldl (fun d k => d.erase k) d = keys.foldl (fun d k => d.erase k) d' := by
    refine Std.ExtTreeMap.ext_getElem? fun k => ?_
    rw [getElem?_foldl_erase, getElem?_foldl_erase]
    split_ifs with h
    · rfl
    · exact agree k h
  rw [same] at first
  omega

end Totals
