import Recached.Execute
import Recached.ScoreIndex

/-!
# Score ranges

A range query starts at a place of the index, which is in the total order of scores, and stops at
the first score past the upper bound, which is compared as a number.  `rangeLinear_iff` says when the
walk gives what a scan of all members gives: it passes over a member with the score `-0` if the range
starts at `+0`, and over a NaN of negative sign if the range has no bounds.
-/

namespace Recached

open Text Lapse

/-- The straightforward definition of "in range". -/
def inScoreRange (score : Binary64) (min max : ScoreBound) : Bool :=
  aboveMin score min && belowMax score max

/-- The members in range, by score and then by member. -/
def linearScan (z : ZSet) (min max : ScoreBound) : List (String × Binary64) :=
  (iterAsc z).filter fun e => inScoreRange e.2 min max

/-! ## The walk as a filter -/

theorem aboveMin_of_nan {min : ScoreBound} (h : min.start.isNaN) (score : Binary64) :
    aboveMin score min = false := by
  cases min with
  | negInf => cases h
  | posInf => rfl
  | inclusive v | exclusive v => simp [aboveMin, Binary64.le, Binary64.lt, show v.isNaN = true from h]

/-- From a number on, the scores under the upper bound come first. -/
theorem belowMax_lower {start a b : Binary64} {max : ScoreBound} (number : start.isNaN = false)
    (first : start.totalKey ≤ a.totalKey) (next : a.totalKey ≤ b.totalKey) (h : belowMax b max) :
    belowMax a max := by
  have numeric := Binary64.numericKey_le_of_totalKey next
  cases max with
  | negInf => cases h
  | posInf => rfl
  | inclusive v =>
    obtain ⟨nan, bound, le⟩ := Binary64.le_iff.mp h
    exact Binary64.le_iff.mpr
      ⟨Binary64.isNaN_of_between number nan first next, bound, numeric.trans le⟩
  | exclusive v =>
    obtain ⟨nan, bound, lt⟩ := Binary64.lt_iff.mp h
    exact Binary64.lt_iff.mpr
      ⟨Binary64.isNaN_of_between number nan first next, bound, numeric.trans_lt lt⟩

theorem rangeByScore_eq_filter (z : ZSet) (min max : ScoreBound) :
    rangeByScore z min max = (iterAsc z).filter fun e =>
      !decide (e.2.totalKey < min.start.totalKey) && inScoreRange e.2 min max := by
  unfold rangeByScore
  cases nan : min.start.isNaN with
  | true =>
    have none := aboveMin_of_nan nan
    simp [none, inScoreRange]
  | false =>
    set fromStart := fun e : String × Binary64 => !decide (e.2.totalKey < min.start.totalKey)
    have dropped : (iterAsc z).dropWhile (fun e => e.2.totalKey < min.start.totalKey) =
        (iterAsc z).filter fromStart :=
      SecondaryIndex.dropWhile_eq_filter (iterAsc_pairwise z) fun a b before lt => by
        have := totalKey_le_of_before before
        simp only [decide_eq_true_eq] at lt ⊢
        omega
    have sorted : ((iterAsc z).filter fromStart).Pairwise fun a b =>
        min.start.totalKey ≤ a.2.totalKey ∧ a.2.totalKey ≤ b.2.totalKey := by
      refine ((iterAsc_pairwise z).filter fromStart).imp_of_mem fun {a b} ha _ before => ?_
      have first := (List.mem_filter.mp ha).2
      simp only [fromStart, Bool.not_eq_true', decide_eq_false_iff_not, not_lt] at first
      exact ⟨first, totalKey_le_of_before before⟩
    rw [dropped, SecondaryIndex.takeWhile_eq_filter sorted fun a b h =>
      belowMax_lower nan h.1 h.2, List.filter_filter, List.filter_filter]
    refine List.filter_congr fun e _ => ?_
    simp only [inScoreRange, fromStart]
    ac_rfl

/-! ## What the walk passes over -/

/-- In range, but before the place where the walk starts. -/
theorem passedOver_iff {score : Binary64} {min max : ScoreBound} :
    inScoreRange score min max ∧ score.totalKey < min.start.totalKey ↔
      (min = .inclusive .zero ∧ score = Binary64.zero.negate ∧ belowMax score max) ∨
        (min = .negInf ∧ max = .posInf ∧ score.isNaN ∧ score.neg) := by
  simp only [inScoreRange, Bool.and_eq_true]
  constructor
  · rintro ⟨⟨above, below⟩, before⟩
    cases min with
    | negInf =>
      right
      have nan : score.isNaN ∧ score.neg := by
        simp only [ScoreBound.start, Binary64.totalKey, Binary64.negate, Binary64.infinity,
          Bool.not_false, if_true] at before
        simp only [Binary64.isNaN, decide_eq_true_eq]
        split_ifs at before with neg
        · exact ⟨by omega, neg⟩
        · omega
      cases max with
      | posInf => exact ⟨rfl, rfl, nan⟩
      | negInf => cases below
      | inclusive v => exact absurd (Binary64.le_iff.mp below).1 (by simp [nan.1])
      | exclusive v => exact absurd (Binary64.lt_iff.mp below).1 (by simp [nan.1])
    | posInf => cases above
    | inclusive v =>
      obtain ⟨rfl, rfl⟩ := Binary64.zeros_of_orders (Binary64.le_iff.mp above).2.2 before
      exact .inl ⟨rfl, rfl, below⟩
    | exclusive v =>
      have := Binary64.totalKey_lt_of_numericKey (Binary64.lt_iff.mp above).2.2
      exact absurd before (not_lt.mpr this.le)
  · rintro (⟨rfl, rfl, below⟩ | ⟨rfl, rfl, nan, neg⟩)
    · exact ⟨⟨by decide, below⟩, by decide⟩
    · refine ⟨⟨rfl, rfl⟩, ?_⟩
      simp only [Binary64.isNaN, decide_eq_true_eq] at nan
      simp only [ScoreBound.start, Binary64.totalKey, Binary64.negate, Binary64.infinity,
        Bool.not_false, if_true, neg]
      omega

/-- No member of the range is passed over: none has the score `-0` if the range starts at `+0`, and
none is a NaN of negative sign if the range has no bounds. -/
def NonePassedOver (z : ZSet) (min max : ScoreBound) : Prop :=
  ∀ (member : String) (score : Binary64), z[member]? = some score →
    ¬(min = .inclusive .zero ∧ score = Binary64.zero.negate ∧ belowMax score max) ∧
      ¬(min = .negInf ∧ max = .posInf ∧ score.isNaN ∧ score.neg)

theorem filter_eq_filter_iff {α : Type} {p q : α → Bool} {l : List α} :
    l.filter p = l.filter q ↔ ∀ a ∈ l, p a = q a := by
  refine ⟨fun h a ha => ?_, List.filter_congr⟩
  have same : a ∈ l.filter p ↔ a ∈ l.filter q := by rw [h]
  simp only [List.mem_filter, ha, true_and] at same
  exact Bool.eq_iff_iff.mpr same

theorem rangeByScore_eq_iff (z : ZSet) (min max : ScoreBound) :
    rangeByScore z min max = linearScan z min max ↔ NonePassedOver z min max := by
  rw [rangeByScore_eq_filter, linearScan, filter_eq_filter_iff]
  have skip (score : Binary64) :
      (!decide (score.totalKey < min.start.totalKey) && inScoreRange score min max) =
          inScoreRange score min max ↔
        ¬(inScoreRange score min max ∧ score.totalKey < min.start.totalKey) := by
    cases inScoreRange score min max <;> simp
  constructor
  · intro h member score held
    have same := (skip score).mp (h _ (mem_iterAsc.mpr held))
    rw [passedOver_iff] at same
    exact not_or.mp same
  · rintro h ⟨member, score⟩ mem
    rw [skip, passedOver_iff, not_or]
    exact h member score (mem_iterAsc.mp mem)

/-! ## The commands -/

/-- The walk gives the linear scan, and so does every range command at a key that holds the set. -/
structure RangeLinear (z : ZSet) (min max : ScoreBound) : Prop where
  walk : rangeByScore z min max = linearScan z min max
  replies : ∀ (codec : Codec) (env : Env) (data : Data) (key minS maxS : String) (cell : Cell),
    ScoreBound.parse minS = .ok min → ScoreBound.parse maxS = .ok max →
    Lapse.live env.now data key = some cell → cell.value = .zset z →
    (∀ withscores limit,
      ((program codec env (.zRangeByScore key minS maxS withscores limit)).run env.now data).1 =
        encodeZRange (applyLimit (linearScan z min max) limit) withscores ∧
      ((program codec env (.zRevRangeByScore key maxS minS withscores limit)).run env.now data).1 =
        encodeZRange (applyLimit (linearScan z min max).reverse limit) withscores) ∧
    ((program codec env (.zCount key minS maxS)).run env.now data).1 =
      .integer (linearScan z min max).length

theorem zRangeByScoreRead_held {min max : ScoreBound} {minS maxS : String} {z : ZSet} {cell : Cell}
    (hmin : ScoreBound.parse minS = .ok min) (hmax : ScoreBound.parse maxS = .ok max)
    (held : cell.value = .zset z) (f : List (String × Binary64) → Value) :
    (zRangeByScoreRead minS maxS f (some cell)).2 = f (rangeByScore z min max) := by
  have unwrap : Kind.zset.unwrap cell.value = some z := Kind.zset.unwrap_eq_some.mpr held
  simp only [zRangeByScoreRead, zsetRead, readAs, unwrap, hmin, hmax]
  rfl

/-- Every range query on the set gives what a linear scan gives exactly if no member of the range is
passed over. -/
theorem rangeLinear_iff (z : ZSet) (min max : ScoreBound) :
    RangeLinear z min max ↔ NonePassedOver z min max := by
  rw [← rangeByScore_eq_iff]
  refine ⟨RangeLinear.walk, fun walk => ⟨walk, ?_⟩⟩
  intro codec env data key minS maxS cell hmin hmax live held
  have read (f : List (String × Binary64) → Value) :
      ((Prog.one key (zRangeByScoreRead minS maxS f)).run env.now data).1 =
        f (linearScan z min max) := by
    rw [Prog.run_fst, Prog.eval_one, live, zRangeByScoreRead_held hmin hmax held, walk]
  exact ⟨fun withscores limit => ⟨read _, read _⟩, read _⟩

/-- A member with the score `-0` is in the range from `0` up, and the walk passes over it. -/
theorem negativeZero_passedOver :
    Binary64.parse (asBytes "-0") = some Binary64.zero.negate ∧
      ScoreBound.parse "0" = .ok (.inclusive .zero) ∧ ScoreBound.parse "+inf" = .ok .posInf ∧
      inScoreRange Binary64.zero.negate (.inclusive .zero) .posInf ∧
      rangeByScore ((∅ : ZSet).insert "m" Binary64.zero.negate) (.inclusive .zero) .posInf = [] ∧
      ¬RangeLinear ((∅ : ZSet).insert "m" Binary64.zero.negate) (.inclusive .zero) .posInf := by
  refine ⟨by decide, rfl, rfl, by decide, by decide +kernel, fun h => ?_⟩
  have held : ((∅ : ZSet).insert "m" Binary64.zero.negate)["m"]? = some Binary64.zero.negate :=
    Std.ExtTreeMap.getElem?_insert_self
  exact ((rangeByScore_eq_iff _ _ _).mp h.walk "m" _ held).1 ⟨rfl, rfl, rfl⟩

end Recached
