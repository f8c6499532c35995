import Recached.Lib.Places
import Recached.Bookkeeping
import Recached.Decoding

/-!
# Index ranges

An index counts from the head of a list, a negative one from its end.  `LRANGE`, `LTRIM`, `ZRANGE` and
`GETRANGE` select the elements whose places lie between two indexes, and `LREM` removes occurrences from
one end of a list.  The sections on machine numbers repeat the computations of the code with its casts
and with sums that stop the program when they overflow, and none does.
-/

namespace Recached

open Text Lapse

/-! ## Between two indexes -/

/-- The place that an index means; it may lie outside of the list. -/
def place (len : ℕ) (index : ℤ) : ℤ := if index < 0 then len + index else index

/-- The places of a list between two indexes. -/
def withinRange (start stop : ℤ) (len i : ℕ) : Bool := place len start ≤ i && (i : ℤ) ≤ place len stop

/-- `GETRANGE` takes an index before the head for the head. -/
def betweenBytes (start stop : ℤ) (len i : ℕ) : Bool :=
  max (place len start) 0 ≤ i && (i : ℤ) ≤ max (place len stop) 0

/-- No place, or an interval of them. -/
theorem select_bounds {α : Type} {items : List α} {p : ℕ → Bool} {s e : ℕ}
    (inside : ∀ i < items.length, p i = (s ≤ i && i ≤ e : Bool)) (le : s ≤ e) :
    Places.select items p = slice items s e := by
  rw [Places.select_congr inside, Places.select_interval, slice, Nat.sub_add_comm le]

theorem select_nothing {α : Type} {items : List α} {p : ℕ → Bool}
    (outside : ∀ i < items.length, p i = false) : Places.select items p = [] := by
  rw [Places.select_congr outside, Places.select_false]

theorem indexSlice_eq {α : Type} (items : List α) (start stop : ℤ) :
    indexSlice items start stop = Places.select items (withinRange start stop items.length) := by
  unfold indexSlice resolveRange withinRange place
  by_cases empty : items.length = 0
  · rw [List.length_eq_zero_iff.mp empty]
    rfl
  · simp only [if_neg empty]
    generalize (if start < 0 then (items.length : ℤ) + start else start) = first
    generalize (if stop < 0 then (items.length : ℤ) + stop else stop) = last
    split_ifs with none
    · refine (select_nothing fun i inside => ?_).symm
      simp only [Bool.and_eq_false_iff, decide_eq_false_iff_not]
      omega
    · refine (select_bounds (fun i inside => ?_) (by omega)).symm
      rw [Bool.eq_iff_iff]
      simp only [Bool.and_eq_true, decide_eq_true_eq]
      omega

theorem satAddInt_len {index : ℤ} {len : ℕ} (index64 : InI64 index) (negative : index < 0)
    (fits : (len : ℤ) ≤ Decimal.i64Max) : satAddInt index len = len + index := by
  have := index64.1
  unfold satAddInt
  simp only [Decimal.i64Min, Decimal.i64Max] at *
  omega

theorem byteRange_eq {data : Bytes} (fits : (data.length : ℤ) ≤ Decimal.i64Max) {start stop : ℤ}
    (start64 : InI64 start) (stop64 : InI64 stop) :
    byteRange data start stop = Places.select data (betweenBytes start stop data.length) := by
  have first : (if start < 0 then satAddInt start data.length else start) = place data.length start := by
    unfold place
    split_ifs with negative
    · exact satAddInt_len start64 negative fits
    · rfl
  have last : (if stop < 0 then satAddInt stop data.length else stop) = place data.length stop := by
    unfold place
    split_ifs with negative
    · exact satAddInt_len stop64 negative fits
    · rfl
  unfold byteRange betweenBytes
  simp only [first, last]
  generalize place data.length start = first
  generalize place data.length stop = last
  by_cases empty : (data.length : ℤ) = 0
  · rw [if_pos empty, List.length_eq_zero_iff.mp (Int.ofNat_eq_zero.mp empty)]
    rfl
  · rw [if_neg empty]
    split_ifs with none
    · refine (select_nothing fun i inside => ?_).symm
      simp only [Bool.and_eq_false_iff, decide_eq_false_iff_not]
      omega
    · refine (select_bounds (fun i inside => ?_) (by omega)).symm
      rw [Bool.eq_iff_iff]
      simp only [Bool.and_eq_true, decide_eq_true_eq]
      omega

/-! ### Machine numbers -/

/-- The unsigned number with the same 64 bits. -/
def asUsize (i : ℤ) : ℕ := (i % 2 ^ 64).toNat

/-- The place that an index means; `none` if the sum overflows. -/
def placeChecked (len : ℕ) (index : ℤ) : Option ℤ :=
  if index < 0 then checkedAdd (asI64 len) index else some index

def resolveIdxChecked (idx : ℤ) (len : ℕ) : Option (Option ℕ) := do
  let resolved ← placeChecked len idx
  some (if asUsize resolved < len then some (asUsize resolved) else none)

def resolveRangeChecked (start stop : ℤ) (len : ℕ) : Option (Option (ℕ × ℕ)) :=
  if len = 0 then some none
  else do
    let first ← placeChecked len start
    let s := asUsize (max first 0)
    let last ← placeChecked len stop
    let greatest ← checkedAdd (asI64 len) (-1)
    let e := min last greatest
    some (if e < 0 ∨ len ≤ s ∨ asUsize e < s then none else some (s, asUsize e))

/-- The number of elements from `s` to `e`. -/
def windowChecked (s e : ℕ) : Option ℕ := if s ≤ e ∧ e - s < Decimal.u64Max then some (e - s + 1) else none

def indexSliceChecked {α : Type} (ordered : List α) (start stop : ℤ) : Option (List α) := do
  match ← resolveRangeChecked start stop ordered.length with
  | none => some []
  | some (s, e) =>
    let n ← windowChecked s e
    some ((ordered.drop s).take n)

def byteRangeChecked (data : Bytes) (start stop : ℤ) : Option Bytes :=
  let len := asI64 data.length
  if len = 0 then some []
  else do
    let s := max (if start < 0 then satAddInt start len else start) 0
    let last := max (if stop < 0 then satAddInt stop len else stop) 0
    let greatest ← checkedAdd len (-1)
    let e := if len ≤ last then greatest else last
    if e < s then some []
    else do
      let n ← windowChecked (asUsize s) (asUsize e)
      some ((data.drop (asUsize s)).take n)

section

variable {len : ℕ} {start stop idx : ℤ}

theorem asI64_len (fits : (len : ℤ) ≤ Decimal.i64Max) : asI64 len = len := by
  simp only [Decimal.i64Max] at fits
  exact if_pos (by omega)

theorem asUsize_of_nonneg {i : ℤ} (nonneg : 0 ≤ i) (fits : i ≤ Decimal.i64Max) : asUsize i = i.toNat := by
  simp only [Decimal.i64Max] at fits
  rw [asUsize, Int.emod_eq_of_lt nonneg (by omega)]

theorem checkedAdd_len {i : ℤ} (fits : (len : ℤ) ≤ Decimal.i64Max) (i64 : InI64 i) (negative : i < 0) :
    checkedAdd (asI64 len) i = some (len + i) := by
  have := i64.1
  rw [asI64_len fits, checkedAdd, if_pos]
  omega

theorem placeChecked_eq {index : ℤ} (fits : (len : ℤ) ≤ Decimal.i64Max) (index64 : InI64 index) :
    placeChecked len index = some (place len index) := by
  unfold placeChecked place
  split_ifs with negative
  · exact checkedAdd_len fits index64 negative
  · rfl

theorem place_inI64 {index : ℤ} (fits : (len : ℤ) ≤ Decimal.i64Max) (index64 : InI64 index) :
    InI64 (place len index) := by
  have low := index64.1
  have high := index64.2
  unfold place
  split_ifs <;> constructor <;> omega

theorem resolveIdxChecked_eq (fits : (len : ℤ) ≤ Decimal.i64Max) (idx64 : InI64 idx) :
    resolveIdxChecked idx len = some (resolveIdx idx len) := by
  have same : (if 0 ≤ idx then idx else (len : ℤ) + idx) = place len idx := by
    unfold place
    split_ifs <;> omega
  obtain ⟨low, high⟩ := place_inI64 fits idx64
  unfold resolveIdxChecked resolveIdx
  rw [placeChecked_eq fits idx64, Option.bind_eq_bind, Option.bind_some, same]
  clear same
  generalize place len idx = resolved at *
  dsimp only
  simp only [Decimal.i64Min, Decimal.i64Max] at *
  by_cases nonneg : 0 ≤ resolved
  · rw [asUsize_of_nonneg nonneg high]
    have below : resolved.toNat < len ↔ resolved < len := by omega
    simp only [below, nonneg, true_and]
  · have large : asUsize resolved = (resolved + 2 ^ 64).toNat := by
      rw [asUsize, ← Int.add_emod_right, Int.emod_eq_of_lt (by omega) (by omega)]
    rw [if_neg (by rw [large]; omega), if_neg (by omega)]

theorem resolveRangeChecked_eq (fits : (len : ℤ) ≤ Decimal.i64Max) (start64 : InI64 start)
    (stop64 : InI64 stop) : resolveRangeChecked start stop len = some (resolveRange start stop len) := by
  unfold resolveRangeChecked resolveRange
  by_cases empty : len = 0
  · rw [if_pos empty, if_pos empty]
  · rw [if_neg empty, if_neg empty, placeChecked_eq fits start64, placeChecked_eq fits stop64,
      checkedAdd_len fits ⟨by decide, by decide⟩ (by decide)]
    obtain ⟨low, high⟩ := place_inI64 fits start64
    simp only [Option.bind_eq_bind, Option.bind_some]
    rw [← place, ← place]
    generalize place len start = first at *
    generalize place len stop = last
    rw [asUsize_of_nonneg (by omega) (by simp only [Decimal.i64Max] at *; omega)]
    congr 1
    by_cases negative : min last ((len : ℤ) + -1) < 0
    · rw [if_pos (.inl negative), if_pos (.inl negative)]
    · rw [asUsize_of_nonneg (Int.not_lt.mp negative) (by omega)]
      rfl

theorem windowChecked_eq {s e : ℕ} (fits : (len : ℤ) ≤ Decimal.i64Max) (le : s ≤ e) (inside : e < len) :
    windowChecked s e = some (e - s + 1) := by
  have short : e - s < Decimal.u64Max := by
    simp only [Decimal.i64Max, Decimal.u64Max] at *
    omega
  exact if_pos ⟨le, short⟩

theorem resolveRange_bounds {s e : ℕ} (range : resolveRange start stop len = some (s, e)) :
    s ≤ e ∧ e < len := by
  unfold resolveRange at range
  dsimp only at range
  generalize (if start < 0 then (len : ℤ) + start else start) = first at range
  generalize (if stop < 0 then (len : ℤ) + stop else stop) = last at range
  split_ifs at range with empty none
  obtain ⟨rfl, rfl⟩ := Prod.mk.inj (Option.some.inj range)
  omega

end

theorem indexSliceChecked_eq {α : Type} {ordered : List α} (fits : (ordered.length : ℤ) ≤ Decimal.i64Max)
    {start stop : ℤ} (start64 : InI64 start) (stop64 : InI64 stop) :
    indexSliceChecked ordered start stop = some (indexSlice ordered start stop) := by
  unfold indexSliceChecked indexSlice
  rw [resolveRangeChecked_eq fits start64 stop64, Option.bind_eq_bind, Option.bind_some]
  cases range : resolveRange start stop ordered.length with
  | none => rfl
  | some bounds =>
    obtain ⟨s, e⟩ := bounds
    obtain ⟨le, inside⟩ := resolveRange_bounds range
    dsimp only
    rw [windowChecked_eq fits le inside, Option.bind_eq_bind, Option.bind_some, slice]

theorem byteRangeChecked_eq {data : Bytes} (fits : (data.length : ℤ) ≤ Decimal.i64Max) {start stop : ℤ}
    (start64 : InI64 start) :
    byteRangeChecked data start stop = some (byteRange data start stop) := by
  have high : (if start < 0 then satAddInt start data.length else start) ≤ Decimal.i64Max := by
    split_ifs with negative
    · rw [satAddInt_len start64 negative fits]
      omega
    · exact start64.2
  unfold byteRangeChecked byteRange
  dsimp only
  by_cases empty : (data.length : ℤ) = 0
  · rw [asI64_len fits, if_pos empty, if_pos empty]
  · rw [checkedAdd_len fits ⟨by decide, by decide⟩ (by decide), asI64_len fits, if_neg empty,
      if_neg empty, Option.bind_eq_bind, Option.bind_some]
    generalize (if start < 0 then satAddInt start data.length else start) = first at *
    generalize (if stop < 0 then satAddInt stop data.length else stop) = last
    have greatest : (if (data.length : ℤ) ≤ max last 0 then (data.length : ℤ) + -1 else max last 0) =
        min (max last 0) (data.length - 1) := by
      split_ifs <;> omega
    rw [greatest]
    split_ifs with none
    · rfl
    · rw [asUsize_of_nonneg (by omega) (by simp only [Decimal.i64Max] at *; omega),
        asUsize_of_nonneg (by omega) (by omega), windowChecked_eq fits (by omega) (by omega),
        Option.bind_eq_bind, Option.bind_some, slice]

/-! ## Removing occurrences -/

/-- The occurrences that `LREM` removes: all of them, or the first or the last so many. -/
def isRemoved (count : ℤ) (element : Bytes) (list : List Bytes) (i : ℕ) : Bool :=
  list[i]? = some element &&
    (count = 0 || if 0 < count then ((list.take i).count element : ℤ) < count
      else ((list.drop (i + 1)).count element : ℤ) < -count)

/-- Among the elements equal to `element`, one with fewer than so many before it. -/
def isEarly (element : Bytes) (limit : Option ℕ) (list : List Bytes) (i : ℕ) : Bool :=
  list[i]? = some element && limit.all ((list.take i).count element < ·)

section

variable {element : Bytes}

theorem removeFirst_done (list : List Bytes) : removeFirst element (some 0) list = (0, list) := by
  cases list <;> rfl

theorem removeFirst_self {limit : Option ℕ} (more : limit ≠ some 0) (rest : List Bytes) :
    removeFirst element limit (element :: rest) =
      ((removeFirst element (limit.map (· - 1)) rest).1 + 1,
        (removeFirst element (limit.map (· - 1)) rest).2) := by
  rw [removeFirst, if_pos rfl]
  exact more

theorem removeFirst_of_ne {v : Bytes} (ne : v ≠ element) (limit : Option ℕ) (rest : List Bytes) :
    removeFirst element limit (v :: rest) =
      ((removeFirst element limit rest).1, v :: (removeFirst element limit rest).2) := by
  by_cases done : limit = some 0
  · subst done
    rw [removeFirst_done, removeFirst_done]
  · rw [removeFirst, if_neg ne]
    exact done

theorem isEarly_zero (element : Bytes) (list : List Bytes) (i : ℕ) :
    isEarly element (some 0) list i = false := by
  simp [isEarly]

theorem isEarly_next_self {limit : Option ℕ} (more : limit ≠ some 0) (rest : List Bytes) (i : ℕ) :
    isEarly element limit (element :: rest) (i + 1) = isEarly element (limit.map (· - 1)) rest i := by
  unfold isEarly
  rw [List.getElem?_cons_succ, List.take_succ_cons, List.count_cons_self]
  cases limit with
  | none => rfl
  | some n =>
    have less (k : ℕ) : k + 1 < n ↔ k < n - 1 := by omega
    simp only [Option.all_some, Option.map_some, less]

theorem isEarly_next_of_ne {v : Bytes} (ne : v ≠ element) (limit : Option ℕ) (rest : List Bytes) (i : ℕ) :
    isEarly element limit (v :: rest) (i + 1) = isEarly element limit rest i := by
  unfold isEarly
  rw [List.getElem?_cons_succ, List.take_succ_cons, List.count_cons_of_ne ne]

theorem removeFirst_eq (limit : Option ℕ) (list : List Bytes) :
    removeFirst element limit list =
      ((Places.select list (isEarly element limit list)).length,
        Places.select list fun i => !isEarly element limit list i) := by
  induction list generalizing limit with
  | nil => cases limit <;> rfl
  | cons v rest ih =>
    by_cases done : limit = some 0
    · subst done
      simp only [isEarly_zero, Bool.not_false, Places.select_true]
      rw [Places.select_congr fun i _ => isEarly_zero element (v :: rest) i, Places.select_false,
        removeFirst_done]
      rfl
    · by_cases same : v = element
      · subst same
        have first : isEarly v limit (v :: rest) 0 = true := by
          cases limit with
          | none => simp [isEarly]
          | some n => simpa [isEarly, Nat.pos_iff_ne_zero] using done
        rw [removeFirst_self done]
        simp only [Places.select, first, isEarly_next_self done, ih, List.length_cons, Bool.not_true,
          Bool.false_eq_true, if_false, if_true]
      · have first : isEarly element limit (v :: rest) 0 = false := by
          simp [isEarly, same]
        rw [removeFirst_of_ne same]
        simp only [Places.select, first, isEarly_next_of_ne same, ih, Bool.not_false, Bool.false_eq_true,
          if_false, if_true]

/-- Away from the smallest count `LREM` removes what it should. -/
theorem lRem_eq {count : ℤ} {list : List Bytes} (count64 : InI64 count) (ne : count ≠ Decimal.i64Min) :
    lRem list count element =
      ((Places.select list (isRemoved count element list)).length,
        Places.select list fun i => !isRemoved count element list i) := by
  obtain negative | rfl | positive := Int.lt_trichotomy count 0
  · have bound : (asI64 count.natAbs).toNat = count.natAbs := by
      have := count64.1
      simp only [Decimal.i64Min] at *
      rw [asI64, if_pos (by omega), Int.toNat_natCast]
    have mirrored (i : ℕ) (inside : i < list.length) :
        isEarly element (some count.natAbs) list.reverse (list.length - 1 - i) =
          isRemoved count element list i := by
      have before : list.length - (list.length - 1 - i) = i + 1 := by omega
      have fewer (k : ℕ) : k < count.natAbs ↔ (k : ℤ) < -count := by omega
      unfold isEarly isRemoved
      rw [List.getElem?_reverse (by omega), List.take_reverse, before, List.count_reverse,
        show list.length - 1 - (list.length - 1 - i) = i by omega]
      simp only [Option.all_some, fewer, negative.ne, Int.not_lt.mpr negative.le, decide_false,
        Bool.false_or, if_false]
    have kept : (Places.select list fun i =>
        !isEarly element (some count.natAbs) list.reverse (list.length - 1 - i)) =
          Places.select list fun i => !isRemoved count element list i :=
      Places.select_congr fun i inside => congrArg not (mirrored i inside)
    unfold lRem
    rw [if_neg negative.ne, if_neg (Int.not_lt.mpr negative.le), bound, removeFirst_eq]
    dsimp only
    rw [Places.select_reverse, Places.select_reverse, List.length_reverse, List.reverse_reverse,
      Places.select_congr mirrored, kept]
  · have same : isRemoved 0 element list = isEarly element none list := by
      funext i
      simp [isRemoved, isEarly]
    rw [lRem, if_pos rfl, removeFirst_eq, same]
  · have same : isRemoved count element list = isEarly element (some count.toNat) list := by
      funext i
      have fewer (k : ℕ) : k < count.toNat ↔ (k : ℤ) < count := by omega
      simp [isRemoved, isEarly, positive.ne', positive, fewer]
    rw [lRem, if_neg positive.ne', if_pos positive, removeFirst_eq, same]

/-- The smallest count has no positive counterpart, and nothing is removed. -/
theorem lRem_smallest (list : List Bytes) : lRem list Decimal.i64Min element = (0, list) := by
  have bound : (asI64 Decimal.i64Min.natAbs).toNat = 0 := by decide
  have nothing : removeFirst element (some 0) list.reverse = (0, list.reverse) := by
    cases list.reverse <;> rfl
  rw [lRem, if_neg (by decide), if_neg (by decide), bound, nothing]
  dsimp only
  rw [List.reverse_reverse]

theorem isRemoved_smallest {list : List Bytes} (fits : (list.length : ℤ) ≤ Decimal.i64Max) (i : ℕ) :
    isRemoved Decimal.i64Min element list i = list[i]?.any (· = element) := by
  have few : ((list.drop (i + 1)).count element : ℤ) < -Decimal.i64Min := by
    have := List.count_le_length (a := element) (l := list.drop (i + 1))
    rw [List.length_drop] at this
    simp only [Decimal.i64Min, Decimal.i64Max] at *
    omega
  have negative : ¬(0 : ℤ) < Decimal.i64Min := by decide
  simp only [isRemoved, if_neg negative, few, decide_true, Bool.or_true, Bool.and_true]
  cases list[i]? <;> simp

/-- `LREM` removes what it should unless the count is the smallest one and the element occurs. -/
theorem lRem_eq_iff {count : ℤ} {list : List Bytes} (count64 : InI64 count)
    (fits : (list.length : ℤ) ≤ Decimal.i64Max) :
    lRem list count element =
        ((Places.select list (isRemoved count element list)).length,
          Places.select list fun i => !isRemoved count element list i) ↔
      count ≠ Decimal.i64Min ∨ element ∉ list := by
  by_cases smallest : count = Decimal.i64Min
  · subst smallest
    have all : Places.select list (isRemoved Decimal.i64Min element list) = list.filter (· = element) := by
      rw [← Places.select_filter]
      exact Places.select_congr fun i _ => isRemoved_smallest fits i
    rw [lRem_smallest, all, Prod.mk.injEq]
    constructor
    · rintro ⟨none, -⟩
      refine .inr fun there => ?_
      have kept : element ∈ list.filter (· = element) := List.mem_filter.mpr ⟨there, decide_eq_true rfl⟩
      have := List.length_pos_of_mem kept
      omega
    · rintro (same | absent)
      · exact absurd rfl same
      · have none : list.filter (· = element) = [] := by
          refine List.filter_eq_nil_iff.mpr fun v mem same => ?_
          exact absent (of_decide_eq_true same ▸ mem)
        have kept : (Places.select list fun i => !isRemoved Decimal.i64Min element list i) = list := by
          refine (Places.select_congr fun i inside => ?_).trans (Places.select_true list)
          have other : list[i] ≠ element := fun same => absent (same ▸ List.getElem_mem inside)
          rw [isRemoved_smallest fits, List.getElem?_eq_getElem inside, Option.any_some,
            decide_eq_false other]
          rfl
        rw [none, kept]
        exact ⟨rfl, rfl⟩
  · exact ⟨fun _ => .inl smallest, fun _ => lRem_eq count64 smallest⟩

end

/-! ### Machine numbers -/

/-- The loop from the head; the index stays where it is when an element is removed. -/
def lRemUp (element : Bytes) (more : ℤ → Bool) : (fuel i : ℕ) → (removed : ℤ) → List Bytes →
    Option (ℤ × List Bytes)
  | 0, _, removed, list => some (removed, list)
  | fuel + 1, i, removed, list =>
    if i < list.length ∧ more removed then
      if list[i]? = some element then
        (checkedAdd removed 1).bind fun removed => lRemUp element more fuel i removed (list.eraseIdx i)
      else lRemUp element more fuel (i + 1) removed list
    else some (removed, list)

/-- The loop from the end. -/
def lRemDown (element : Bytes) (limit : ℤ) : (i : ℕ) → (removed : ℤ) → List Bytes →
    Option (ℤ × List Bytes)
  | 0, removed, list => some (removed, list)
  | i + 1, removed, list =>
    if removed < limit then
      if list[i]? = some element then
        (checkedAdd removed 1).bind fun removed => lRemDown element limit i removed (list.eraseIdx i)
      else lRemDown element limit i removed list
    else some (removed, list)

/-- `LREM` with its loops; the bound on the number removed is an unsigned number cast to a signed one. -/
def lRemChecked (list : List Bytes) (count : ℤ) (element : Bytes) : Option (ℤ × List Bytes) :=
  let abs := asI64 count.natAbs
  if 0 ≤ count then
    lRemUp element (fun removed => count = 0 || removed < abs) list.length 0 0 list
  else lRemDown element abs list.length 0 list

section

variable {element : Bytes}

theorem checkedAdd_one {removed : ℤ} (low : 0 ≤ removed) (high : removed < Decimal.i64Max) :
    checkedAdd removed 1 = some (removed + 1) := by
  rw [checkedAdd, if_pos]
  simp only [Decimal.i64Min, Decimal.i64Max] at *
  omega

/-- The loop from the head works on the rest of the list from its index on. -/
theorem lRemUp_eq {more : ℤ → Bool} {limit : Option ℕ} {removed : ℤ} (low : 0 ≤ removed)
    (pre : List Bytes) {rest : List Bytes} (fits : removed + rest.length ≤ Decimal.i64Max)
    (bound : ∀ k : ℕ, more (removed + k) = limit.all (k < ·)) :
    lRemUp element more rest.length pre.length removed (pre ++ rest) =
      some (removed + (removeFirst element limit rest).1, pre ++ (removeFirst element limit rest).2) := by
  induction rest generalizing pre removed limit with
  | nil =>
    have nothing : removeFirst element limit [] = (0, []) := by
      cases limit <;> rfl
    rw [nothing]
    simp [lRemUp]
  | cons v rest ih =>
    have here : (pre ++ v :: rest)[pre.length]? = some v := by simp
    have inside : pre.length < (pre ++ v :: rest).length := by simp
    have now := bound 0
    rw [Int.natCast_zero, Int.add_zero] at now
    rw [List.length_cons, Nat.cast_add, Nat.cast_one] at fits
    by_cases done : limit = some 0
    · subst done
      rw [List.length_cons, lRemUp, if_neg (by simp [now]), removeFirst_done]
      simp
    · have go : more removed = true := by
        rw [now]
        cases limit with
        | none => rfl
        | some n => simpa [Nat.pos_iff_ne_zero] using done
      rw [List.length_cons, lRemUp, if_pos ⟨inside, go⟩, here]
      by_cases same : v = element
      · subst same
        have taken : (pre ++ v :: rest).eraseIdx pre.length = pre ++ rest := by
          rw [List.eraseIdx_append_of_length_le le_rfl, Nat.sub_self, List.eraseIdx_cons_zero]
        have less (k : ℕ) : more (removed + 1 + k) = (limit.map (· - 1)).all (k < ·) := by
          have later : removed + 1 + k = removed + (k + 1 : ℕ) := by
            push_cast
            omega
          rw [later, bound]
          cases limit with
          | none => rfl
          | some n =>
            have before : k + 1 < n ↔ k < n - 1 := by omega
            simp only [Option.all_some, Option.map_some, before]
        rw [if_pos rfl, checkedAdd_one low (by omega), Option.bind_some, taken,
          ih (by omega) pre (by omega) less, removeFirst_self done]
        push_cast
        rw [Int.add_assoc, Int.add_comm 1]
      · have longer : pre ++ v :: rest = (pre ++ [v]) ++ rest := (List.append_cons ..)
        have later : pre.length + 1 = (pre ++ [v]).length := by rw [List.length_append, List.length_singleton]
        rw [if_neg (fun other => same (Option.some.inj other)), removeFirst_of_ne same, longer, later,
          ih low (pre ++ [v]) (by omega) bound, List.append_assoc, List.singleton_append]

/-- The loop from the end works on the list before its index, from its end on. -/
theorem lRemDown_eq {limit removed : ℤ} (low : 0 ≤ removed) {pre : List Bytes} (rest : List Bytes)
    (fits : removed + pre.length ≤ Decimal.i64Max) :
    lRemDown element limit pre.length removed (pre ++ rest) =
      some (removed + (removeFirst element (some (limit - removed).toNat) pre.reverse).1,
        (removeFirst element (some (limit - removed).toNat) pre.reverse).2.reverse ++ rest) := by
  induction pre using List.reverseRecOn generalizing removed rest with
  | nil =>
    simp [lRemDown, removeFirst]
  | append_singleton pre v ih =>
    have here : (pre ++ [v] ++ rest)[pre.length]? = some v := by simp
    rw [List.length_append, List.length_singleton, Nat.cast_add, Nat.cast_one] at fits
    rw [List.length_append, List.length_singleton, lRemDown, List.reverse_append, List.reverse_singleton,
      List.singleton_append]
    by_cases go : removed < limit
    · rw [if_pos go, here]
      by_cases same : v = element
      · subst same
        have taken : (pre ++ [v] ++ rest).eraseIdx pre.length = pre ++ rest := by
          rw [List.append_assoc, List.eraseIdx_append_of_length_le le_rfl, Nat.sub_self,
            List.singleton_append, List.eraseIdx_cons_zero]
        have more : some (limit - removed).toNat ≠ some 0 := by
          rw [ne_eq, Option.some.injEq]
          omega
        have less : (limit - (removed + 1)).toNat = (limit - removed).toNat - 1 := by omega
        rw [if_pos rfl, checkedAdd_one low (by omega), Option.bind_some, taken, ih (by omega) rest (by omega),
          removeFirst_self more, Option.map_some, less]
        push_cast
        rw [Int.add_assoc, Int.add_comm 1]
      · rw [if_neg (fun other => same (Option.some.inj other)), removeFirst_of_ne same, List.append_assoc,
          List.singleton_append, ih low (v :: rest) (by omega), List.reverse_cons, List.append_assoc,
          List.singleton_append]
    · have done : (limit - removed).toNat = 0 := by omega
      rw [if_neg go, done, removeFirst_done]
      simp

end

/-- `LREM` stops for no overflow. -/
theorem lRemChecked_eq {list : List Bytes} (fits : (list.length : ℤ) ≤ Decimal.i64Max) {count : ℤ}
    (count64 : InI64 count) (element : Bytes) :
    lRemChecked list count element = some (((lRem list count element).1 : ℤ), (lRem list count element).2) := by
  have down := @lRemDown_eq element (asI64 count.natAbs) 0 le_rfl list [] (by omega)
  unfold lRemChecked lRem
  dsimp only
  obtain negative | rfl | positive := Int.lt_trichotomy count 0
  · rw [if_neg (Int.not_le.mpr negative), if_neg negative.ne, if_neg (Int.not_lt.mpr negative.le)]
    rw [List.append_nil, List.append_nil, Int.sub_zero, Int.zero_add] at down
    exact down
  · have up := @lRemUp_eq element (fun _ => true) none 0 le_rfl [] list (by omega) fun k => rfl
    rw [if_pos le_rfl, if_pos rfl]
    simpa using up
  · have bound : asI64 count.natAbs = count := by
      have := count64.2
      simp only [Decimal.i64Max] at this
      rw [asI64, if_pos (by omega)]
      omega
    have up := @lRemUp_eq element (fun removed => count = 0 || removed < asI64 count.natAbs)
      (some count.toNat) 0 le_rfl [] list (by omega) fun k => by
        have fewer : (0 + (k : ℤ) < count) ↔ k < count.toNat := by omega
        simp only [bound, positive.ne', fewer, decide_false, Bool.false_or, Option.all_some]
    rw [if_pos positive.le, if_neg positive.ne', if_pos positive]
    simpa using up

/-! ## The commands -/

/-- The command replies so and leaves this cell at the key, and the other keys as they are. -/
structure Leaves (codec : Codec) (env : Env) (cmd : Command) (s : KeyValueStore) (key : String)
    (cell : Cell) (reply : Value) : Prop where
  reply : (executeInner codec env cmd s).1 = reply
  live : (executeInner codec env cmd s).2.1.live env.now = Function.update (s.live env.now) key (some cell)

/-- The elements between the indexes. -/
def range {α : Type} (items : List α) (start stop : ℤ) : List α :=
  Places.select items (withinRange start stop items.length)

/-- What the index ranges of a list, a sorted set and a string select. -/
structure Ranges (codec : Codec) (list : List Bytes) (z : ZSet) (data : Bytes) (start stop : ℤ) : Prop where
  lRange : ∀ env key s, held .list (s.live env.now key) = some list →
    (execute codec env (.lRange key start stop) s).1 = arrayOf ((range list start stop).map blob)
  lTrim : ∀ env key s cell, s.live env.now key = some cell → cell.value = .list list →
    Leaves codec env (.lTrim key start stop) s key { cell with value := .list (range list start stop) } ok
  zRange : ∀ env key s withscores, held .zset (s.live env.now key) = some z →
    (execute codec env (.zRange key start stop withscores) s).1 =
      encodeZRange (range (iterAsc z) start stop) withscores
  zRevRange : ∀ env key s withscores, held .zset (s.live env.now key) = some z →
    (execute codec env (.zRevRange key start stop withscores) s).1 =
      encodeZRange (range (iterAsc z).reverse start stop) withscores
  getRange : ∀ env key s, held .str (s.live env.now key) = some data →
    (execute codec env (.getRange key start stop) s).1 =
      blob (Places.select data (betweenBytes start stop data.length))

/-- What `LREM` removes. -/
def RemovesOccurrences (codec : Codec) (list : List Bytes) (count : ℤ) (element : Bytes) : Prop :=
  ∀ env key s cell, s.live env.now key = some cell → cell.value = .list list →
    Leaves codec env (.lRem key count element) s key
      { cell with value := .list (Places.select list fun i => !isRemoved count element list i) }
      (.integer (Places.select list (isRemoved count element list)).length)

/-- The computations in machine numbers stop for no overflow, and give the model's numbers. -/
structure NoOverflow (list : List Bytes) (z : ZSet) (data : Bytes) (start stop count : ℤ)
    (element : Bytes) : Prop where
  index : resolveIdxChecked start list.length = some (resolveIdx start list.length)
  slice : indexSliceChecked list start stop = some (indexSlice list start stop)
  zset : indexSliceChecked (iterAsc z) start stop = some (indexSlice (iterAsc z) start stop)
  rev : indexSliceChecked (iterAsc z).reverse start stop = some (indexSlice (iterAsc z).reverse start stop)
  bytes : byteRangeChecked data start stop = some (byteRange data start stop)
  removal : lRemChecked list count element =
    some (((lRem list count element).1 : ℤ), (lRem list count element).2)

/-- A command on one key changes a list in place. -/
theorem leaves_updateAs {codec : Codec} {env : Env} {cmd : Command} {key : String} {absent : Value}
    {f : List Bytes → List Bytes × Value} (one : program codec env cmd = .one key (updateAs .list absent f))
    (direct : readsKeyspace cmd = false) (uncapped : cappedKey cmd = none)
    (several : ∀ pairs, cmd = .mSet pairs → pairs = []) {s : KeyValueStore} {cell : Cell} {list : List Bytes}
    (there : s.live env.now key = some cell) (holds : cell.value = .list list) :
    Leaves codec env cmd s key { cell with value := .list (f list).1 } (f list).2 := by
  have performed := executeInner_performs codec env s direct uncapped several
  rw [perform_one one, there, updateAs_held (Kind.list.unwrap_eq_some.mpr holds)] at performed
  have lives : cell.isExpired env.now = false := (settle_eq_some.mp ((settle_live ..).trans there)).2
  refine ⟨performed.1, performed.2.trans ?_⟩
  have kept : afterAct env.now (updateAs .list absent f) (some cell) =
      some { cell with value := .list (f list).1 } := by
    rw [afterAct, updateAs_held (Kind.list.unwrap_eq_some.mpr holds)]
    exact settle_eq_some.mpr ⟨rfl, lives⟩
  rw [kept]

/-- What `LREM` leaves, by its own loops. -/
theorem leaves_lRem (codec : Codec) {env : Env} {key : String} {s : KeyValueStore} {cell : Cell}
    {list : List Bytes} (there : s.live env.now key = some cell) (holds : cell.value = .list list)
    (count : ℤ) (element : Bytes) :
    Leaves codec env (.lRem key count element) s key { cell with value := .list (lRem list count element).2 }
      (.integer (lRem list count element).1) :=
  leaves_updateAs (f := fun l => ((lRem l count element).2, .integer (lRem l count element).1)) rfl rfl rfl
    (by rintro _ ⟨⟩) there holds

/-- Every range selects the elements between its indexes, nothing overflows, and `LREM` removes what its
count says unless the count is the smallest number and the element occurs. -/
theorem index_ranges_iff (codec : Codec) {list : List Bytes} {z : ZSet} {data element : Bytes}
    {start stop count : ℤ} (start64 : InI64 start) (stop64 : InI64 stop) (count64 : InI64 count)
    (listed : (list.length : ℤ) ≤ Decimal.i64Max) (scored : ((iterAsc z).length : ℤ) ≤ Decimal.i64Max)
    (sized : (data.length : ℤ) ≤ Decimal.i64Max) :
    Ranges codec list z data start stop ∧ NoOverflow list z data start stop count element ∧
        RemovesOccurrences codec list count element ↔
      count ≠ Decimal.i64Min ∨ element ∉ list := by
  have ranges : Ranges codec list z data start stop :=
    { lRange := fun env key s there => by
        rw [execute_reads codec env s rfl rfl, perform_one rfl, readAs_of_held there, indexSlice_eq, range]
      lTrim := fun env key s cell there holds => by
        rw [range, ← indexSlice_eq]
        exact leaves_updateAs (f := fun l => (indexSlice l start stop, ok)) rfl rfl rfl (by rintro _ ⟨⟩)
          there holds
      zRange := fun env key s withscores there => by
        rw [execute_reads codec env s rfl rfl, perform_one rfl, zsetRead, readAs_of_held there,
          indexSlice_eq, range]
      zRevRange := fun env key s withscores there => by
        rw [execute_reads codec env s rfl rfl, perform_one rfl, zsetRead, readAs_of_held there,
          indexSlice_eq, range]
      getRange := fun env key s there => by
        rw [execute_reads codec env s rfl rfl, perform_one rfl, readAs_of_held there,
          byteRange_eq sized start64 stop64] }
  have machine : NoOverflow list z data start stop count element :=
    { index := resolveIdxChecked_eq listed start64
      slice := indexSliceChecked_eq listed start64 stop64
      zset := indexSliceChecked_eq scored start64 stop64
      rev := indexSliceChecked_eq (by rwa [List.length_reverse]) start64 stop64
      bytes := byteRangeChecked_eq sized start64
      removal := lRemChecked_eq listed count64 element }
  rw [← lRem_eq_iff count64 listed]
  constructor
  · rintro ⟨-, -, removes⟩
    let s : KeyValueStore := { data := (∅ : Data).insert "k" ⟨⟨.list list, none⟩, 0⟩ }
    have there : s.live 0 "k" = some ⟨.list list, none⟩ := rfl
    obtain ⟨reply, live⟩ := removes (.fixed 0) "k" s _ there rfl
    obtain ⟨reply', live'⟩ := @leaves_lRem codec (.fixed 0) "k" s _ list there rfl count element
    have same := congrFun (live'.symm.trans live) "k"
    rw [Function.update_self, Function.update_self] at same
    have number := Value.integer.inj (reply'.symm.trans reply)
    have kept := EntryValue.list.inj (congrArg Lapse.Cell.value (Option.some.inj same))
    exact Prod.ext (Int.ofNat.inj number) kept
  · intro same
    refine ⟨ranges, machine, fun env key s cell there holds => ?_⟩
    have done := leaves_lRem codec there holds count element
    rwa [same] at done

theorem index_ranges_iff_three :
    let list : List Bytes := [[1], [2], [1]]
    let z : ZSet := ((∅ : ZSet).insert "a" .zero).insert "b" .zero
    Ranges .literals list z [7, 8] (-2) Decimal.i64Max ∧
      NoOverflow list z [7, 8] (-2) Decimal.i64Max (-1) [1] ∧ RemovesOccurrences .literals list (-1) [1] :=
  (index_ranges_iff .literals (by decide) (by decide) (by decide) (by decide) (by decide) (by decide)).mpr
    (.inl (by decide))

/-- The smallest count has no positive counterpart: nothing is removed from the end. -/
theorem smallest_count_removes_nothing :
    ¬RemovesOccurrences .literals [[1]] Decimal.i64Min [1] := by
  intro removes
  let s : KeyValueStore := { data := (∅ : Data).insert "k" ⟨⟨.list [[1]], none⟩, 0⟩ }
  have one := (removes (.fixed 0) "k" s _ rfl rfl).reply
  have none := (@leaves_lRem .literals (.fixed 0) "k" s ⟨.list [[1]], none⟩ [[1]] rfl rfl
    Decimal.i64Min [1]).reply
  exact absurd (Value.integer.inj (one.symm.trans none)) (by decide)

end Recached
