import Recached.Lib.SecondaryIndex
import Recached.Lib.Transducers
import Recached.Values

/-!
# The score index of a sorted set

A sorted set keeps the scores of its members and, once a query has asked for an order, an index of
them.  Writes maintain an index that is there and build none; after many writes without a query they
drop it.  `ranked_by_scores` says that none of this can be seen: every answer is that of a sorted set
without index, whose queries sort the scores afresh.
-/

namespace Recached

open Transducers

/-! ## The order of scores -/

/-- By score in the total order, then by member. -/
def scoreCmp : Binary64 × String → Binary64 × String → Ordering :=
  compareLex (compareOn fun e => e.1.totalKey) (compareOn Prod.snd)

instance : Std.TransCmp scoreCmp := inferInstanceAs (Std.TransCmp (compareLex _ _))

instance : Std.LawfulEqCmp scoreCmp where
  eq_of_compare {a b} h := by
    obtain ⟨score, member⟩ := compareLex_eq_eq.mp h
    exact Prod.ext (Binary64.totalKey_injective (Std.LawfulEqOrd.eq_of_compare score))
      (Std.LawfulEqOrd.eq_of_compare member)

theorem isLE_compare_string (a b : String) : (compare a b).isLE ↔ a ≤ b := by
  have unfolded : compare a b = compareOfLessAndEq a b := rfl
  rw [unfolded, compareOfLessAndEq]
  split_ifs with lt eq
  · simp [Std.le_of_lt lt]
  · simp [eq]
  · simp only [Ordering.isLE_gt, Bool.false_eq_true, false_iff]
    intro le
    exact eq (Std.le_antisymm le (Std.not_lt.mp lt))

theorem isLE_scoreCmp {a b : Binary64 × String} :
    (scoreCmp a b).isLE ↔
      a.1.totalKey < b.1.totalKey ∨ (a.1.totalKey = b.1.totalKey ∧ a.2 ≤ b.2) := by
  simp only [scoreCmp, compareLex, compareOn, Ordering.isLE_then_iff_or, compare_lt_iff_lt,
    compare_eq_iff_eq, isLE_compare_string]

theorem scoreBefore_iff (a b : String × Binary64) :
    scoreBefore a b ↔ (scoreCmp a.swap b.swap).isLE := by
  simp [isLE_scoreCmp, scoreBefore]

/-! ## The sorted set -/

structure ZSetInner where
  scores : ZSet := ∅
  /-- Built by the first query that needs it. -/
  index : Option (Std.ExtTreeSet (Binary64 × String) scoreCmp) := none
  writesSinceRange : ℕ := 0

namespace ZSetInner

def indexAbandonFloor : ℕ := 1024

def len (z : ZSetInner) : ℕ := z.scores.size

def score (z : ZSetInner) (member : String) : Option Binary64 := z.scores[member]?

/-- Keep an index that is there in step with a write, or abandon it. -/
def reindex (z : ZSetInner) (old : Option Binary64) (score : Binary64) (key : String) : ZSetInner :=
  match z.index with
  | none => z
  | some index =>
    if max indexAbandonFloor z.scores.size < z.writesSinceRange then
      { z with index := none, writesSinceRange := 0 }
    else
      let index := match old with
        | some old => index.erase (old, key)
        | none => index
      -- the counter is a wrapping `u32`
      { z with
        index := some (index.insert (score, key))
        writesSinceRange := (z.writesSinceRange + 1) % 2 ^ 32 }

/-- Insert or update a member; also its previous score. -/
def insert (z : ZSetInner) (member : String) (score : Binary64) : ZSetInner × Option Binary64 :=
  match z.scores[member]? with
  | some old =>
    if old = score then (z, some old)
    else
      let z := z.reindex (some old) score member
      ({ z with scores := z.scores.insert member score }, some old)
  | none =>
    let z := z.reindex none score member
    ({ z with scores := z.scores.insert member score }, none)

/-- Remove a member; also its previous score. -/
def remove (z : ZSetInner) (member : String) : ZSetInner × Option Binary64 :=
  match z.scores[member]? with
  | none => (z, none)
  | some old =>
    ({ z with
        scores := z.scores.erase member
        index := z.index.map fun index => index.erase (old, member) }, some old)

/-- The index, built if it is not there; queries that use it reset the count of writes. -/
def ordered (z : ZSetInner) : ZSetInner × Std.ExtTreeSet (Binary64 × String) scoreCmp :=
  let index := z.index.getD (SecondaryIndex.pairs scoreCmp z.scores)
  ({ z with index := some index, writesSinceRange := 0 }, index)

def iterAsc (z : ZSetInner) : ZSetInner × List (String × Binary64) :=
  let (z, index) := z.ordered
  (z, index.toList.map Prod.swap)

def rangeByScore (z : ZSetInner) (min max : ScoreBound) : ZSetInner × List (String × Binary64) :=
  let (z, index) := z.ordered
  let fromStart := index.toList.filter fun e => (scoreCmp (min.start, "") e).isLE
  (z, ((fromStart.takeWhile fun e => belowMax e.1 max).filter fun e => aboveMin e.1 min).map Prod.swap)

def rank (z : ZSetInner) (member : String) : ZSetInner × Option ℕ :=
  match z.score member with
  | none => (z, none)
  | some score =>
    let (z, index) := z.ordered
    (z, some (index.toList.filter fun e => (scoreCmp e (score, member)).isLT).length)

end ZSetInner

/-! ## Operations -/

inductive ScoreOp where
  | insert (member : String) (score : Binary64)
  | remove (member : String)
  | score (member : String)
  | len
  | members
  | iterAsc
  | iterDesc
  | rangeByScore (min max : ScoreBound)
  | rank (member : String)

inductive ScoreAnswer where
  | score (s : Option Binary64)
  | len (n : ℕ)
  | items (pairs : List (String × Binary64))
  | rank (i : Option ℕ)

def ZSetInner.step (z : ZSetInner) : ScoreOp → ZSetInner × ScoreAnswer
  | .insert member score => ((z.insert member score).1, .score (z.insert member score).2)
  | .remove member => ((z.remove member).1, .score (z.remove member).2)
  | .score member => (z, .score (z.score member))
  | .len => (z, .len z.len)
  | .members => (z, .items z.scores.toList)
  | .iterAsc => (z.iterAsc.1, .items z.iterAsc.2)
  | .iterDesc => (z.iterAsc.1, .items z.iterAsc.2.reverse)
  | .rangeByScore min max => ((z.rangeByScore min max).1, .items (z.rangeByScore min max).2)
  | .rank member => ((z.rank member).1, .rank (z.rank member).2)

/-- The same operations on the scores alone, with a list sorted afresh for every query. -/
def scoresStep (z : ZSet) : ScoreOp → ZSet × ScoreAnswer
  | .insert member score => (z.insert member score, .score z[member]?)
  | .remove member => (z.erase member, .score z[member]?)
  | .score member => (z, .score z[member]?)
  | .len => (z, .len z.size)
  | .members => (z, .items z.toList)
  | .iterAsc => (z, .items (iterAsc z))
  | .iterDesc => (z, .items (iterAsc z).reverse)
  | .rangeByScore min max => (z, .items (rangeByScore z min max))
  | .rank member => (z, .rank (((iterAsc z).map Prod.fst).idxOf? member))

/-! ## The index is that of the scores -/

namespace ZSetInner

/-- An index that is there holds exactly the pairs of the scores. -/
def InStep (z : ZSetInner) : Prop :=
  ∀ index ∈ z.index, index = SecondaryIndex.pairs scoreCmp z.scores

@[simp] theorem scores_reindex (z : ZSetInner) (old : Option Binary64) (score : Binary64) (key : String) :
    (z.reindex old score key).scores = z.scores := by
  unfold reindex
  cases z.index with
  | none => rfl
  | some index =>
    dsimp only
    split <;> rfl

/-- A write to the scores after the index has been told of it. -/
theorem InStep.write {z : ZSetInner} (h : z.InStep) (member : String) (score : Binary64) :
    ({ z.reindex z.scores[member]? score member with
        scores := z.scores.insert member score } : ZSetInner).InStep := by
  intro index built
  unfold reindex at built
  cases there : z.index with
  | none => simp [there] at built
  | some index₀ =>
    obtain rfl := h index₀ there
    simp only [there] at built
    split at built
    · cases built
    · obtain rfl := Option.some.inj built
      cases held : z.scores[member]? with
      | none => exact SecondaryIndex.pairs_insert_new held
      | some old => exact SecondaryIndex.pairs_insert_old held

theorem scores_insert (z : ZSetInner) (member : String) (score : Binary64) :
    (z.insert member score).1.scores = z.scores.insert member score := by
  unfold insert
  split
  next old held =>
    split
    next same =>
      -- writing the score a member already has changes no score
      refine Std.ExtTreeMap.ext_getElem? fun k => ?_
      rw [Std.ExtTreeMap.getElem?_insert]
      split
      next eq => rw [← Std.LawfulEqCmp.eq_of_compare eq, held, same]
      · rfl
    · simp only [scores_reindex]
  · simp only [scores_reindex]

theorem answer_insert (z : ZSetInner) (member : String) (score : Binary64) :
    (z.insert member score).2 = z.scores[member]? := by
  unfold insert
  split
  next old held =>
    rw [held]
    split <;> rfl
  next held => exact held.symm

theorem InStep.insert {z : ZSetInner} (h : z.InStep) (member : String) (score : Binary64) :
    (z.insert member score).1.InStep := by
  have write := h.write member score
  unfold ZSetInner.insert
  split
  next old held =>
    split
    · exact h
    · rw [held] at write
      simpa only [scores_reindex] using write
  next held =>
    rw [held] at write
    simpa only [scores_reindex] using write

theorem InStep.remove {z : ZSetInner} (h : z.InStep) (member : String) :
    (z.remove member).1.InStep := by
  unfold ZSetInner.remove
  cases held : z.scores[member]? with
  | none => exact h
  | some old =>
    intro index built
    obtain ⟨index₀, there, rfl⟩ := Option.map_eq_some_iff.mp built
    rw [h index₀ there]
    exact SecondaryIndex.pairs_erase held

theorem scores_remove (z : ZSetInner) (member : String) :
    (z.remove member).1.scores = z.scores.erase member := by
  unfold remove
  cases held : z.scores[member]? with
  | some old => rfl
  | none =>
    dsimp only
    refine Std.ExtTreeMap.ext_getElem? fun k => ?_
    rw [Std.ExtTreeMap.getElem?_erase]
    split
    next eq => rw [← Std.LawfulEqCmp.eq_of_compare eq, held]
    · rfl

theorem answer_remove (z : ZSetInner) (member : String) :
    (z.remove member).2 = z.scores[member]? := by
  unfold remove
  cases held : z.scores[member]? <;> rfl

theorem InStep.ordered {z : ZSetInner} (h : z.InStep) :
    z.ordered = ({ z with
      index := some (SecondaryIndex.pairs scoreCmp z.scores), writesSinceRange := 0 },
      SecondaryIndex.pairs scoreCmp z.scores) := by
  unfold ZSetInner.ordered
  cases there : z.index with
  | none => rfl
  | some index => rw [← h index there]; rfl

/-! ## Queries -/

theorem InStep.iterAsc {z : ZSetInner} (h : z.InStep) : z.iterAsc.2 = Recached.iterAsc z.scores := by
  rw [ZSetInner.iterAsc, h.ordered]
  exact SecondaryIndex.toList_pairs scoreBefore_iff

end ZSetInner

theorem empty_le (s : String) : "" ≤ s := by
  intro lt
  exact List.not_lt_nil s.toList lt

theorem isLE_start (score : Binary64) (e : Binary64 × String) :
    (scoreCmp (score, "") e).isLE = !decide (e.1.totalKey < score.totalKey) := by
  rw [Bool.eq_iff_iff, isLE_scoreCmp]
  simp only [empty_le, and_true, Bool.not_eq_true', decide_eq_false_iff_not, not_lt]
  exact le_iff_lt_or_eq.symm

theorem iterAsc_pairwise (z : ZSet) : (iterAsc z).Pairwise fun a b => scoreBefore a b := by
  have total : Std.Total fun a b : String × Binary64 => scoreBefore a b := ⟨fun a b => by
    have back : scoreCmp b.swap a.swap = (scoreCmp a.swap b.swap).swap := Std.OrientedCmp.eq_swap
    rw [scoreBefore_iff, scoreBefore_iff, back]
    cases scoreCmp a.swap b.swap <;> simp⟩
  have trans : IsTrans (String × Binary64) fun a b => scoreBefore a b := ⟨fun a b c hab hbc => by
    rw [scoreBefore_iff] at *
    exact Std.TransCmp.isLE_trans hab hbc⟩
  exact List.pairwise_insertionSort _ _

theorem totalKey_le_of_before {a b : String × Binary64} (h : scoreBefore a b) :
    a.2.totalKey ≤ b.2.totalKey := by
  rw [scoreBefore_iff, isLE_scoreCmp] at h
  exact h.elim le_of_lt fun h => h.1.le

namespace ZSetInner

theorem InStep.rangeByScore {z : ZSetInner} (h : z.InStep) (min max : ScoreBound) :
    (z.rangeByScore min max).2 = Recached.rangeByScore z.scores min max := by
  have listed := h.iterAsc
  rw [ZSetInner.iterAsc, h.ordered] at listed
  have cut : (Recached.iterAsc z.scores).dropWhile (fun e => e.2.totalKey < min.start.totalKey) =
      (Recached.iterAsc z.scores).filter fun e => (scoreCmp (min.start, "") e.swap).isLE := by
    rw [SecondaryIndex.dropWhile_eq_filter (iterAsc_pairwise z.scores) fun a b before lt => by
      have := totalKey_le_of_before before
      simp only [decide_eq_true_eq] at lt ⊢
      omega]
    simp only [isLE_start, Prod.fst_swap]
  rw [Recached.rangeByScore, cut, ← listed, ZSetInner.rangeByScore, h.ordered]
  simp only [List.filter_map, List.takeWhile_map, Function.comp_def, Prod.swap_swap, Prod.snd_swap]

end ZSetInner

/-! ## Ranks -/

theorem mem_iterAsc {z : ZSet} {member : String} {score : Binary64} :
    (member, score) ∈ iterAsc z ↔ z[member]? = some score := by
  rw [iterAsc, List.mem_insertionSort, Std.ExtTreeMap.mem_toList_iff_getElem?_eq_some]

/-- The members before a member are others. -/
theorem iterAsc_split {z : ZSet} {member : String} {score : Binary64} (h : z[member]? = some score) :
    ∃ before after, iterAsc z = before ++ (member, score) :: after ∧ ∀ e ∈ before, e.1 ≠ member := by
  obtain ⟨before, after, split⟩ := List.append_of_mem (mem_iterAsc.mpr h)
  refine ⟨before, after, split, ?_⟩
  rintro ⟨m, s⟩ mem rfl
  have held : z[m]? = some s := mem_iterAsc.mp (split ▸ List.mem_append_left _ mem)
  obtain rfl : s = score := Option.some.inj (held.symm.trans h)
  have distinct : (iterAsc z).Nodup := by
    refine (List.perm_insertionSort _ _).nodup_iff.mpr ?_
    exact Std.ExtTreeMap.distinct_keys_toList.imp fun differ eq =>
      differ (Std.LawfulEqCmp.compare_eq_iff_eq.mpr (congrArg Prod.fst eq))
  rw [split] at distinct
  exact (List.nodup_append.mp distinct).2.2 _ mem _ List.mem_cons_self rfl

theorem idxOf?_iterAsc {z : ZSet} {member : String} {score : Binary64}
    {before after : List (String × Binary64)} (split : iterAsc z = before ++ (member, score) :: after)
    (others : ∀ e ∈ before, e.1 ≠ member) :
    ((iterAsc z).map Prod.fst).idxOf? member = some before.length := by
  have absent : (before.map Prod.fst).findIdx? (· == member) = none := by
    rw [List.findIdx?_eq_none_iff]
    intro m mem
    obtain ⟨e, he, rfl⟩ := List.mem_map.mp mem
    simpa using others e he
  rw [split, List.idxOf?, List.map_append, List.findIdx?_append, absent]
  simp [List.findIdx?_cons]

theorem idxOf?_absent {z : ZSet} {member : String} (h : z[member]? = none) :
    ((iterAsc z).map Prod.fst).idxOf? member = none := by
  rw [List.idxOf?_eq_none_iff, List.mem_map]
  rintro ⟨⟨m, s⟩, mem, rfl⟩
  rw [mem_iterAsc.mp mem] at h
  cases h

/-- `ZRANK` counts what stands before a member in the list. -/
theorem zRank_eq (z : ZSet) (member : String) :
    zRank z member = ((iterAsc z).map Prod.fst).idxOf? member := by
  unfold zRank
  cases held : z[member]? with
  | none => rw [idxOf?_absent held]; rfl
  | some score =>
    obtain ⟨before, after, split, others⟩ := iterAsc_split held
    rw [idxOf?_iterAsc split others, Option.map_some]
    have sorted := iterAsc_pairwise z
    rw [split] at sorted ⊢
    have taken : ∀ e ∈ before, (scoreBefore e (member, score) && e.1 != member) = true := by
      intro e he
      have first := (List.pairwise_append.mp sorted).2.2 e he _ List.mem_cons_self
      simp [first, others e he]
    rw [List.takeWhile_append_of_pos taken]
    simp

namespace ZSetInner

theorem InStep.rank {z : ZSetInner} (h : z.InStep) (member : String) :
    (z.rank member).2 = ((Recached.iterAsc z.scores).map Prod.fst).idxOf? member := by
  unfold ZSetInner.rank ZSetInner.score
  cases held : z.scores[member]? with
  | none => exact (idxOf?_absent held).symm
  | some score =>
    obtain ⟨before, after, split, others⟩ := iterAsc_split held
    have listed := h.iterAsc
    rw [ZSetInner.iterAsc, h.ordered, split] at listed
    dsimp only at listed ⊢
    rw [idxOf?_iterAsc split others, h.ordered]
    have index : (SecondaryIndex.pairs scoreCmp z.scores).toList =
        before.map Prod.swap ++ (score, member) :: after.map Prod.swap := by
      have swapped := congrArg (List.map Prod.swap) listed
      simpa using swapped
    have sorted := Std.ExtTreeSet.ordered_toList (t := SecondaryIndex.pairs scoreCmp z.scores)
    rw [index] at sorted ⊢
    obtain ⟨-, fromHere, across⟩ := List.pairwise_append.mp sorted
    have low : ∀ e ∈ before.map Prod.swap, (scoreCmp e (score, member)).isLT := fun e he => by
      rw [across e he _ List.mem_cons_self]
      rfl
    have high : ∀ e ∈ (score, member) :: after.map Prod.swap, ¬(scoreCmp e (score, member)).isLT := by
      intro e he lt
      rcases List.mem_cons.mp he with rfl | later
      · have self : scoreCmp (score, member) (score, member) = .eq := Std.ReflCmp.compare_self
        rw [self] at lt
        cases lt
      · have gt : scoreCmp e (score, member) = .gt :=
          Std.OrientedCmp.gt_iff_lt.mpr ((List.pairwise_cons.mp fromHere).1 e later)
        rw [gt] at lt
        cases lt
    rw [List.filter_append, List.filter_eq_self.mpr low, List.filter_eq_nil_iff.mpr high]
    simp

end ZSetInner

/-! ## Runs -/

theorem ZSetInner.step_refines :
    Refines (fun (z : ZSetInner) (s : ZSet) => z.scores = s ∧ z.InStep) ZSetInner.step scoresStep where
  related := by
    rintro z _ op ⟨rfl, h⟩
    have built : z.ordered.1.InStep := by
      rw [h.ordered]
      intro index eq
      exact (Option.some.inj eq).symm
    cases op with
    | insert member score => exact ⟨z.scores_insert member score, h.insert member score⟩
    | remove member => exact ⟨z.scores_remove member, h.remove member⟩
    | score | len | members => exact ⟨rfl, h⟩
    | iterAsc | iterDesc | rangeByScore => exact ⟨rfl, built⟩
    | rank member =>
      simp only [ZSetInner.step, scoresStep, ZSetInner.rank]
      cases z.score member with
      | none => exact ⟨rfl, h⟩
      | some score => exact ⟨rfl, built⟩
  answer := by
    rintro z _ op ⟨rfl, h⟩
    cases op with
    | insert member score => exact congrArg ScoreAnswer.score (z.answer_insert member score)
    | remove member => exact congrArg ScoreAnswer.score (z.answer_remove member)
    | score | len | members => rfl
    | iterAsc => exact congrArg ScoreAnswer.items h.iterAsc
    | iterDesc => exact congrArg (fun l => ScoreAnswer.items l.reverse) h.iterAsc
    | rangeByScore min max => exact congrArg ScoreAnswer.items (h.rangeByScore min max)
    | rank member => exact congrArg ScoreAnswer.rank (h.rank member)

/-- After any operations on an empty sorted set, an index that is there holds exactly the pairs of
the scores, and every answer was that of a list sorted afresh. -/
theorem ranked_by_scores (ops : List ScoreOp) :
    (∀ index ∈ (run ZSetInner.step {} ops).1.index, ∀ score member,
      (score, member) ∈ index ↔ (run ZSetInner.step {} ops).1.scores[member]? = some score) ∧
    (run ZSetInner.step {} ops).1.scores = (run scoresStep ∅ ops).1 ∧
    (run ZSetInner.step {} ops).2 = (run scoresStep ∅ ops).2 := by
  have start : ({} : ZSetInner).scores = (∅ : ZSet) ∧ ({} : ZSetInner).InStep := ⟨rfl, by
    intro index eq
    cases eq⟩
  obtain ⟨⟨scores, inStep⟩, answers⟩ := ZSetInner.step_refines.run start ops
  refine ⟨fun index built score member => ?_, scores, answers⟩
  rw [inStep index built]
  exact SecondaryIndex.mem_pairs

end Recached
