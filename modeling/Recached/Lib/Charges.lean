import Mathlib.Algebra.BigOperators.Group.List.Basic
import Mathlib.Algebra.Order.BigOperators.Group.List
import Mathlib.Algebra.Order.Group.Nat
import Mathlib.Algebra.Ring.Nat
import Mathlib.Data.List.Perm.Basic

/-!
# Counters of charges

A machine word counts the charges of the items that are held.  An item is charged to it before it is
held, unless that would pass a limit, and its charge is taken back when it is let go.  The count stays
exact and within the limit, and taking back never wraps around.
-/

namespace Charges

/-- Add `n` unless the sum does not fit the word or passes the limit. -/
def tryCharge (word cap pending n : ℕ) : Option ℕ :=
  if pending + n < word ∧ pending + n ≤ cap then some (pending + n) else none

/-- Take `n` back, modulo the word. -/
def release (word pending n : ℕ) : ℕ := (pending + (word - n % word)) % word

theorem tryCharge_eq_some {word cap pending n next : ℕ} :
    tryCharge word cap pending n = some next ↔
      (pending + n < word ∧ pending + n ≤ cap) ∧ next = pending + n := by
  unfold tryCharge
  split_ifs with room
  · simp [room, eq_comm]
  · simp [room]

theorem release_of_le {word pending n : ℕ} (covered : n ≤ pending) (fits : pending < word) :
    release word pending n = pending - n := by
  unfold release
  rw [Nat.mod_eq_of_lt (by omega : n < word), show pending + (word - n) = pending - n + word by omega,
    Nat.add_mod_right, Nat.mod_eq_of_lt (by omega)]

section

variable {α : Type} {charge : α → ℕ} {word cap pending : ℕ} {held held' : List α} {x : α}

/-- The counter is what is charged for the items that are held, and within the limit. -/
structure Exact (charge : α → ℕ) (cap : ℕ) (held : List α) (pending : ℕ) : Prop where
  total : pending = (held.map charge).sum
  within : pending ≤ cap

namespace Exact

theorem empty (charge : α → ℕ) (cap : ℕ) : Exact charge cap [] 0 := ⟨rfl, Nat.zero_le cap⟩

theorem perm (h : Exact charge cap held pending) (same : held.Perm held') :
    Exact charge cap held' pending :=
  ⟨h.total.trans (same.map charge).sum_eq, h.within⟩

theorem covers (h : Exact charge cap held pending) (mem : x ∈ held) : charge x ≤ pending := by
  rw [h.total]
  exact List.le_sum_of_mem (List.mem_map_of_mem mem)

theorem charged {next : ℕ} (h : Exact charge cap held pending)
    (added : tryCharge word cap pending (charge x) = some next) : Exact charge cap (x :: held) next := by
  obtain ⟨⟨-, within⟩, rfl⟩ := tryCharge_eq_some.mp added
  refine ⟨?_, within⟩
  rw [List.map_cons, List.sum_cons, ← h.total, Nat.add_comm]

theorem released (h : Exact charge cap (x :: held) pending) (fits : cap < word) :
    Exact charge cap held (release word pending (charge x)) := by
  have covered := h.covers List.mem_cons_self
  have within := h.within
  rw [release_of_le covered (by omega)]
  refine ⟨?_, by omega⟩
  have total := h.total
  rw [List.map_cons, List.sum_cons] at total
  omega

end Exact

end

end Charges
