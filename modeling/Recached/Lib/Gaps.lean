import Mathlib.Data.List.Basic

/-!
# Readings with gaps

A list is read item by item, and an item that cannot be read is left out or read as a blank.  Such a
reading is exact iff every item can be read.
-/

namespace Recached

section

variable {α β : Type} {read : α → Option β} {blank : β}

/-- `bs` is a reading of `as` in which unreadable items are left out or are blanks. -/
inductive ReadsAs (read : α → Option β) (blank : β) : List α → List β → Prop
  | nil : ReadsAs read blank [] []
  | kept {a : α} {b : β} {as : List α} {bs : List β} (h : read a = some b)
      (rest : ReadsAs read blank as bs) : ReadsAs read blank (a :: as) (b :: bs)
  | left {a : α} {as : List α} {bs : List β} (h : read a = none)
      (rest : ReadsAs read blank as bs) : ReadsAs read blank (a :: as) bs
  | blanked {a : α} {as : List α} {bs : List β} (h : read a = none)
      (rest : ReadsAs read blank as bs) : ReadsAs read blank (a :: as) (blank :: bs)

namespace ReadsAs

theorem length_le {as : List α} {bs : List β} (h : ReadsAs read blank as bs) :
    bs.length ≤ as.length := by
  induction h with
  | nil => exact Nat.le_refl _
  | kept _ _ ih => exact Nat.succ_le_succ ih
  | left _ _ ih => exact Nat.le_succ_of_le ih
  | blanked _ _ ih => exact Nat.succ_le_succ ih

theorem getD {a : α} {as : List α} {bs : List β} (rest : ReadsAs read blank as bs) :
    ReadsAs read blank (a :: as) ((read a).getD blank :: bs) := by
  cases h : read a with
  | none => exact .blanked h rest
  | some b => exact .kept h rest

theorem toList {a : α} {as : List α} {bs : List β} (rest : ReadsAs read blank as bs) :
    ReadsAs read blank (a :: as) ((read a).toList ++ bs) := by
  cases h : read a with
  | none => exact .left h rest
  | some b => exact .kept h rest

theorem append {as as' : List α} {bs bs' : List β} (h : ReadsAs read blank as bs)
    (h' : ReadsAs read blank as' bs') : ReadsAs read blank (as ++ as') (bs ++ bs') := by
  induction h with
  | nil => exact h'
  | kept h _ ih => exact .kept h ih
  | left h _ ih => exact .left h ih
  | blanked h _ ih => exact .blanked h ih

theorem filterMap (as : List α) : ReadsAs read blank as (as.filterMap read) := by
  induction as with
  | nil => exact .nil
  | cons a as ih =>
    cases h : read a with
    | none => simpa [h] using ReadsAs.left h ih
    | some b => simpa [h] using ReadsAs.kept h ih

theorem map_getD (as : List α) : ReadsAs read blank as (as.map fun a => (read a).getD blank) := by
  induction as with
  | nil => exact .nil
  | cons a as ih => exact .getD ih

/-- A reading is exact iff it has no gap. -/
theorem exact_iff {as : List α} {bs : List β} (h : ReadsAs read blank as bs) :
    as.map read = bs.map some ↔ ∀ a ∈ as, (read a).isSome := by
  constructor
  · intro same a mem
    have : read a ∈ bs.map some := same ▸ List.mem_map_of_mem mem
    obtain ⟨b, -, said⟩ := List.mem_map.mp this
    rw [← said]
    rfl
  · intro all
    induction h with
    | nil => rfl
    | kept h _ ih => simp [h, ih fun a mem => all a (List.mem_cons_of_mem _ mem)]
    | left h _ _ => simp [h] at all
    | blanked h _ _ => simp [h] at all

end ReadsAs

end

end Recached
