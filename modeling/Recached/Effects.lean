import Recached.Views

/-!
# What the operations on values leave unchanged

An operation that counts what it did and counts nothing has changed nothing; popping members is
removing them; and `ZADD` treats every member on its own.
-/

namespace Recached

open Text Lapse

/-! ## Counting operations -/

theorem erase_of_not_contains {α : Type} {h : Std.ExtTreeMap String α} {k : String}
    (absent : h.contains k = false) : h.erase k = h := by
  refine Std.ExtTreeMap.ext_getElem? fun {x} => ?_
  rw [Std.ExtTreeMap.getElem?_erase]
  split_ifs with eq
  · obtain rfl := Std.LawfulEqOrd.eq_of_compare eq
    rw [Std.ExtTreeMap.contains_eq_isSome_getElem?] at absent
    exact (Option.not_isSome_iff_eq_none.mp (by simp [absent])).symm
  · rfl

/-- The loop behind `HDEL` and `ZREM` counts up, and leaves the map alone if it counts nothing. -/
theorem foldErase_count {α : Type} (names : List String) (h : Std.ExtTreeMap String α) (n : ℕ) :
    let r := names.foldl (fun (acc : Std.ExtTreeMap String α × ℕ) f =>
      (acc.1.erase f, if acc.1.contains f then acc.2 + 1 else acc.2)) (h, n)
    n ≤ r.2 ∧ (r.2 = n → r.1 = h) := by
  induction names generalizing h n with
  | nil => exact ⟨le_rfl, fun _ => rfl⟩
  | cons f names ih =>
    simp only [List.foldl_cons]
    cases there : h.contains f with
    | true =>
      obtain ⟨le, -⟩ := ih (h.erase f) (n + 1)
      exact ⟨by simpa using Nat.le_of_succ_le le, fun eq => by simp at eq le; omega⟩
    | false =>
      rw [erase_of_not_contains there]
      simpa using ih h n

theorem insert_of_contains {s : MemberSet} {m : String} (there : s.contains m = true) :
    s.insert m = s := by
  refine Std.ExtTreeSet.ext_contains fun {x} => ?_
  rw [Std.ExtTreeSet.contains_insert]
  by_cases eq : compare m x = .eq
  · obtain rfl := Std.LawfulEqOrd.eq_of_compare eq
    simp [there]
  · simp [eq]

theorem erase_of_not_member {s : MemberSet} {m : String} (absent : s.contains m = false) :
    s.erase m = s := by
  refine Std.ExtTreeSet.ext_contains fun {x} => ?_
  rw [Std.ExtTreeSet.contains_erase]
  by_cases eq : compare m x = .eq
  · obtain rfl := Std.LawfulEqOrd.eq_of_compare eq
    simp [absent]
  · simp [eq]

theorem insertAll_zero (ms : List String) (s : MemberSet) (h : (insertAll ms s).1 = 0) :
    (insertAll ms s).2 = s := by
  induction ms generalizing s with
  | nil => rfl
  | cons m ms ih =>
    simp only [insertAll] at h ⊢
    split_ifs at h with there
    rw [ih _ h, insert_of_contains there]

theorem removeAll_zero (ms : List String) (s : MemberSet) (h : (removeAll ms s).1 = 0) :
    (removeAll ms s).2 = s := by
  induction ms generalizing s with
  | nil => rfl
  | cons m ms ih =>
    simp only [removeAll] at h ⊢
    split_ifs at h with there
    rw [ih _ h, erase_of_not_member (Bool.eq_false_iff.mpr there)]

theorem removeFirst_zero (element : Bytes) (limit : Option ℕ) (l : List Bytes)
    (h : (removeFirst element limit l).1 = 0) : (removeFirst element limit l).2 = l := by
  fun_induction removeFirst element limit l with
  | case1 => rfl
  | case2 => rfl
  | case3 => contradiction
  | case4 limit v rest _ _ n rest' eq ih =>
    rw [eq] at ih
    exact congrArg (v :: ·) (ih h)

theorem lRem_zero (l : List Bytes) (count : ℤ) (element : Bytes) (h : (lRem l count element).1 = 0) :
    (lRem l count element).2 = l := by
  unfold lRem at h ⊢
  split_ifs at h ⊢
  · exact removeFirst_zero _ _ _ h
  · exact removeFirst_zero _ _ _ h
  · simp only [removeFirst_zero _ _ _ h, List.reverse_reverse]

/-! ## Popping members -/

theorem removeAll_popMembers (draws : ℕ → ℕ) (n : ℕ) (s : MemberSet) :
    (removeAll (popMembers draws n s).1 s).2 = (popMembers draws n s).2 := by
  induction n generalizing s with
  | zero => rfl
  | succ n ih =>
    unfold popMembers
    split
    · rfl
    · exact ih _

theorem popMembers_nil {draws : ℕ → ℕ} {n : ℕ} {s : MemberSet} (h : (popMembers draws n s).1 = []) :
    (popMembers draws n s).2 = s := by
  rw [← removeAll_popMembers, h]
  rfl

theorem length_popMembers_le (draws : ℕ → ℕ) (n : ℕ) (s : MemberSet) :
    (popMembers draws n s).1.length ≤ n := by
  induction n generalizing s with
  | zero => exact le_rfl
  | succ n ih =>
    unfold popMembers
    split
    · exact Nat.zero_le _
    · exact Nat.succ_le_succ (ih _)

/-! ## Scores one member at a time -/

/-- What one pair of `ZADD` makes of the score of its member. -/
def zScoreStep (opts : ZAddOptions) (score : Binary64) (old : Option Binary64) : Option Binary64 :=
  match opts.condition, old with
  | none, none | some .nx, none => some score
  | none, some old =>
    if opts.gt || opts.lt then some (if scoreShouldUpdate score old opts then score else old)
    else some score
  | some .nx, some old => some old
  | some .xx, none => none
  | some .xx, some old => some (if scoreShouldUpdate score old opts then score else old)

/-- The score `ZADD` leaves a member with. -/
def zScoreAfter (opts : ZAddOptions) (z : ZSet) (pairs : List (Binary64 × String)) (member : String) :
    Option Binary64 :=
  if opts.incr then
    match pairs with
    | (delta, m) :: _ =>
      if m = member then some ((z[m]?.getD .zero).add delta) else z[member]?
    | [] => z[member]?
  else
    (pairs.filter fun p => p.2 = member).foldl (fun old p => zScoreStep opts p.1 old) z[member]?

theorem getElem?_insert_string {α : Type} (z : Std.ExtTreeMap String α) (m x : String) (a : α) :
    (z.insert m a)[x]? = if m = x then some a else z[x]? := by
  rw [Std.ExtTreeMap.getElem?_insert]
  simp

theorem zAddPair_score (opts : ZAddOptions) (acc : ZSet × ℕ × ℕ) (p : Binary64 × String)
    (member : String) :
    (zAddPair opts acc p).1[member]? =
      if p.2 = member then zScoreStep opts p.1 acc.1[member]? else acc.1[member]? := by
  obtain ⟨z, added, changed⟩ := acc
  obtain ⟨score, m⟩ := p
  unfold zAddPair zScoreStep
  dsimp only
  by_cases same : m = member
  · subst same
    rw [if_pos rfl]
    cases opts.condition with
    | none =>
      cases found : z[m]? with
      | none => simp
      | some old => dsimp only; split_ifs <;> simp [found]
    | some condition =>
      cases condition <;> cases found : z[m]? <;> dsimp only <;> (try split_ifs) <;> simp [found]
  · rw [if_neg same]
    cases opts.condition with
    | none =>
      cases z[m]? <;> dsimp only <;> (try split_ifs) <;> simp [getElem?_insert_string, same]
    | some condition =>
      cases condition <;> cases z[m]? <;> dsimp only <;> (try split_ifs) <;>
        simp [getElem?_insert_string, same]

theorem foldPairs_score (opts : ZAddOptions) (pairs : List (Binary64 × String))
    (acc : ZSet × ℕ × ℕ) (member : String) :
    (pairs.foldl (zAddPair opts) acc).1[member]? =
      (pairs.filter fun p => p.2 = member).foldl (fun old p => zScoreStep opts p.1 old)
        acc.1[member]? := by
  induction pairs generalizing acc with
  | nil => rfl
  | cons p pairs ih =>
    rw [List.foldl_cons, ih, zAddPair_score, List.filter_cons]
    by_cases same : p.2 = member <;> simp [same]

theorem zAddExec_score (z : ZSet) (opts : ZAddOptions) (pairs : List (Binary64 × String))
    (member : String) : (zAddExec z opts pairs).1[member]? = zScoreAfter opts z pairs member := by
  unfold zAddExec zScoreAfter
  by_cases incr : opts.incr
  · rw [if_pos incr, if_pos incr]
    cases pairs with
    | nil => rfl
    | cons p pairs => exact getElem?_insert_string ..
  · rw [if_neg incr, if_neg incr]
    exact foldPairs_score opts pairs (z, 0, 0) member

theorem zScoreAfter_of_not_listed {opts : ZAddOptions} {z : ZSet} {pairs : List (Binary64 × String)}
    {member : String} (h : member ∉ pairs.map Prod.snd) : zScoreAfter opts z pairs member = z[member]? := by
  unfold zScoreAfter
  split_ifs
  · cases pairs with
    | nil => rfl
    | cons p pairs =>
      have ne : p.2 ≠ member := fun eq => h (eq ▸ List.mem_cons_self)
      exact if_neg ne
  · have none : pairs.filter (fun p => p.2 = member) = [] := by
      refine List.filter_eq_nil_iff.mpr fun p hp eq => h ?_
      exact List.mem_map.mpr ⟨p, hp, by simpa using eq⟩
    rw [none, List.foldl_nil]

end Recached
