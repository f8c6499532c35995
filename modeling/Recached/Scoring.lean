import Recached.Scores
import Recached.Transparency

/-!
# What `ZADD` does with its options

`zAddSpec` states what each option means: a pair is carried out if its conditions permit it, and
nothing else matters.  `zAdd_follows_iff` says when the code does that: it ignores the conditions of
`INCR`, and it takes scores that differ by at most `ε` for equal, which `XX` then does not write and
`CH` does not count.
-/

namespace Recached

open Text Lapse

/-! ## The meaning of the options -/

/-- The same number; both zeros are. -/
def sameScore (a b : Binary64) : Bool := a = b || (a.mag = 0 && b.mag = 0)

/-- The options let a pair give its score to a member that has the old one, if it is there. -/
def permits (opts : ZAddOptions) : Option Binary64 → Binary64 → Bool
  | none, _ => opts.condition ≠ some .xx
  | some old, score =>
    opts.condition ≠ some .nx && (!opts.gt || old.lt score) && (!opts.lt || score.lt old)

/-- Carry out one pair if it is permitted: the sorted set, and the numbers added and changed. -/
def updatePair (opts : ZAddOptions) (acc : ZSet × ℕ × ℕ) (pair : Binary64 × String) : ZSet × ℕ × ℕ :=
  let (z, added, changed) := acc
  let (score, member) := pair
  if permits opts z[member]? score then
    (z.insert member score,
      if z[member]?.isNone then added + 1 else added,
      if z[member]?.all fun old => !sameScore old score then changed + 1 else changed)
  else acc

/-- The sorted set after `ZADD` and the reply, from left to right. -/
def zAddSpec (z : ZSet) (opts : ZAddOptions) (pairs : List (Binary64 × String)) : ZSet × Value :=
  if opts.incr then
    match pairs with
    | [] => (z, .bulkString none)
    | (delta, member) :: _ =>
      let score := (z[member]?.getD .zero).add delta
      if permits opts z[member]? score then
        (z.insert member score, .bulkString (some (formatScore score)))
      else (z, .bulkString none)
  else
    let (z, added, changed) := pairs.foldl (updatePair opts) (z, 0, 0)
    (z, .integer (if opts.ch then changed else added))

/-- The options that the parser accepts together. -/
def acceptedOptions (opts : ZAddOptions) (pairs : List (Binary64 × String)) : Bool :=
  !(opts.gt && opts.lt) && !((opts.gt || opts.lt) && opts.condition = some .nx) &&
    (!opts.incr || pairs.length = 1)

/-! ## Scores that differ -/

section

variable {a b : Binary64}

/-- Equal scores differ by zero, or by a NaN. -/
theorem sub_of_sameScore (same : sameScore a b) : (a.sub b).isNaN ∨ (a.sub b).mag = 0 := by
  simp only [sameScore, Bool.or_eq_true, decide_eq_true_eq, Bool.and_eq_true] at same
  unfold Binary64.sub Binary64.add
  obtain rfl | ⟨ha, hb⟩ := same
  · have number : a.negate.isNaN = a.isNaN := rfl
    have inf : a.negate.isInfinite = a.isInfinite := rfl
    have scale : a.negate.scale = a.scale := rfl
    rw [number, inf]
    cases nan : a.isNaN with
    | true => exact .inl rfl
    | false =>
      cases infinite : a.isInfinite with
      | true =>
        left
        simp [Binary64.negate]
        decide
      | false =>
        right
        have cancel : a.signedAt a.scale + a.negate.signedAt a.scale = 0 := by
          unfold Binary64.signedAt
          rw [scale, show a.negate.significand = a.significand from rfl]
          cases h : a.neg <;> simp [Binary64.negate, h]
        simp only [Bool.or_self, Bool.false_eq_true, if_false, scale, min_self, cancel]
        split_ifs
        · rfl
        · simp [Binary64.ofRatio, Binary64.roundMag]
  · right
    simp [Binary64.isNaN, Binary64.isInfinite, Binary64.negate, ha, hb, Binary64.infMag, Binary64.zero]

theorem differs_of_sameScore (same : sameScore a b) : differs a b = false := by
  have none : ¬epsilon.lt (a.sub b).abs := fun lt => by
    obtain ⟨-, number, less⟩ := Binary64.lt_iff.mp lt
    obtain nan | zero := sub_of_sameScore same
    · exact Bool.false_ne_true (number.symm.trans nan)
    · have key : (a.sub b).abs.numericKey = 0 := by
        simp [Binary64.numericKey, Binary64.abs, zero]
      rw [key] at less
      exact absurd less (by decide)
  simpa [differs] using none

theorem numericKey_of_sameScore (same : sameScore a b) : a.numericKey = b.numericKey := by
  simp only [sameScore, Bool.or_eq_true, decide_eq_true_eq, Bool.and_eq_true] at same
  obtain rfl | ⟨ha, hb⟩ := same
  · rfl
  · simp [Binary64.numericKey, ha, hb]

theorem sameScore_comm : sameScore a b = sameScore b a := by
  unfold sameScore
  rw [Bool.and_comm, show decide (a = b) = decide (b = a) from decide_eq_decide.mpr eq_comm]

theorem not_sameScore_of_lt (lt : a.lt b) : sameScore a b = false := by
  cases same : sameScore a b with
  | false => rfl
  | true =>
    have less := (Binary64.lt_iff.mp lt).2.2
    rw [numericKey_of_sameScore same] at less
    exact absurd less (lt_irrefl _)

end

/-! ## What the parser accepts -/

/-- A decoded `ZADD` has options that go together. -/
def zAddAccepted : Command → Bool
  | .zAdd _ opts pairs => acceptedOptions opts pairs
  | _ => true

theorem parseZAdd_accepted (name : String) (args : List Value) :
    yieldsOnly zAddAccepted (parseZAdd name args) = true := by
  refine yieldsOnly_onKey (fun key args => ?_) _ _
  dsimp only
  generalize parseZAddOptions {} (argsFrom args 2) = parsed
  obtain ⟨opts, rest⟩ := parsed
  dsimp only
  split
  · rfl
  refine yieldsOnly_bind fun pairs => ?_
  split
  · rfl
  next ordered =>
    split
    · rfl
    next conditions =>
      split
      · rfl
      next single =>
        show acceptedOptions opts pairs = true
        rw [Bool.not_eq_true] at ordered conditions single
        rw [acceptedOptions, ordered, conditions]
        simpa [Bool.or_eq_true, or_iff_not_imp_left] using single

theorem accepted_of_fromValue {value : Value} {key : String} {opts : ZAddOptions}
    {pairs : List (Binary64 × String)} (parsed : fromValue value = .ok (.zAdd key opts pairs)) :
    acceptedOptions opts pairs := by
  unfold fromValue at parsed
  split at parsed
  · next parts =>
    have accepted := @fromArray_yields zAddAccepted
      (fun cmd plain => by cases cmd <;> first | rfl | cases plain) parseZAdd_accepted
      (fun _ _ _ _ => rfl) parts
    rw [parsed] at accepted
    exact accepted
  · cases parsed

/-! ## Where the code follows the meaning -/

/-- Writing the score over the old one is told from leaving it: by `XX`, and by `CH`. -/
def Tells (opts : ZAddOptions) (old score : Binary64) : Prop :=
  if opts.condition = some .xx then old = score ∨ differs score old
  else opts.ch → sameScore old score ∨ differs old score

/-- Each pair is told from the score that its member has then: from the pair before that named it
last, or from the set. -/
def Distinct (opts : ZAddOptions) : ZSet → List (Binary64 × String) → Prop
  | _, [] => True
  | given, (score, member) :: rest =>
    (∀ old, given[member]? = some old → Tells opts old score) ∧
      Distinct opts (if opts.condition = some .xx ∧ member ∉ given then given
        else given.insert member score) rest

/-- The conditions permit an increment, and no other `ZADD` meets a score that is almost its own. -/
def ZAddTells (z : ZSet) (opts : ZAddOptions) (pairs : List (Binary64 × String)) : Prop :=
  if opts.incr then
    ∀ delta member, pairs.head? = some (delta, member) →
      permits opts z[member]? ((z[member]?.getD .zero).add delta)
  else guarded opts ∨ Distinct opts z pairs

section

variable {opts : ZAddOptions} {z : ZSet} {a a' c c' : ℕ} {score old : Binary64} {member : String}

/-- Under one of `GT` and `LT` a score is written if it improves, and then it is another number. -/
theorem scoreShouldUpdate_ordered (ordered : opts.gt || opts.lt) (one : ¬(opts.gt && opts.lt)) :
    scoreShouldUpdate score old opts =
        ((!opts.gt || old.lt score) && (!opts.lt || score.lt old)) ∧
      (scoreShouldUpdate score old opts → sameScore old score = false) := by
  unfold scoreShouldUpdate
  cases gt : opts.gt with
  | true =>
    have lt : opts.lt = false := by simpa [gt] using one
    simpa [lt] using not_sameScore_of_lt
  | false =>
    have lt : opts.lt = true := by simpa [gt] using ordered
    refine ⟨by simp [lt], fun down => ?_⟩
    rw [sameScore_comm]
    exact not_sameScore_of_lt (by simpa [lt] using down)

theorem zAddPair_eq_updatePair (conditions : guarded opts) (one : ¬(opts.gt && opts.lt))
    (acc : ZSet × ℕ × ℕ) (pair : Binary64 × String) : zAddPair opts acc pair = updatePair opts acc pair := by
  obtain ⟨z, a, c⟩ := acc
  obtain ⟨score, member⟩ := pair
  unfold zAddPair updatePair
  dsimp only
  cases held : z[member]? with
  | none =>
    cases eq : opts.condition with
    | none => simp [permits, eq]
    | some condition => cases condition <;> simp [permits, eq]
  | some old =>
    by_cases nx : opts.condition = some .nx
    · simp [permits, nx]
    have ordered : (opts.gt || opts.lt) = true := by simpa [guarded, nx, Bool.or_assoc] using conditions
    obtain ⟨update, differ⟩ := @scoreShouldUpdate_ordered opts score old ordered one
    have permitted : permits opts (some old) score = scoreShouldUpdate score old opts := by
      rw [update, permits, decide_eq_true nx, Bool.true_and]
    rw [permitted]
    cases write : scoreShouldUpdate score old opts with
    | true =>
      cases eq : opts.condition with
      | none => simp [ordered, write, differ write]
      | some condition => cases condition <;> simp_all
    | false =>
      cases eq : opts.condition with
      | none => simp [ordered, write]
      | some condition => cases condition <;> simp_all

/-- The same sorted set, and the same number in the reply. -/
def Agree (opts : ZAddOptions) (x y : ZSet × ℕ × ℕ) : Prop :=
  x.1 = y.1 ∧ (if opts.ch then x.2.2 else x.2.1) = if opts.ch then y.2.2 else y.2.1

theorem zAddExec_eq_iff (plain : opts.incr = false) (pairs : List (Binary64 × String)) :
    zAddExec z opts pairs = zAddSpec z opts pairs ↔
      Agree opts (pairs.foldl (zAddPair opts) (z, 0, 0)) (pairs.foldl (updatePair opts) (z, 0, 0)) := by
  simp only [zAddExec, zAddSpec, plain, Bool.false_eq_true, if_false, Agree, Prod.mk.injEq,
    Value.integer.injEq]
  split_ifs <;> simp

theorem insert_eq_self_iff : z.insert member score = z ↔ z[member]? = some score := by
  constructor
  · intro same
    rw [← same]
    exact Std.ExtTreeMap.getElem?_insert_self
  · intro held
    refine Std.ExtTreeMap.ext_getElem? fun m => ?_
    rw [Std.ExtTreeMap.getElem?_insert]
    split_ifs with eq
    · rw [← Std.LawfulEqCmp.eq_of_compare eq, held]
    · rfl

/-- Without `NX`, `GT` and `LT` a pair is carried out as permitted exactly if writing tells. -/
theorem agree_pair (bare : guarded opts = false) (same : Agree opts (z, a, c) (z, a', c')) :
    Agree opts (zAddPair opts (z, a, c) (score, member)) (updatePair opts (z, a', c') (score, member)) ↔
      ∀ old, z[member]? = some old → Tells opts old score := by
  simp only [guarded, Bool.or_eq_false_iff, decide_eq_false_iff_not] at bare
  obtain ⟨⟨nx, gt⟩, lt⟩ := bare
  have writes (old : Binary64) (held : z[member]? = some old) :
      z = z.insert member score ↔ old = score := by
    rw [eq_comm, insert_eq_self_iff, held, Option.some.injEq]
  have itself : sameScore score score := by simp [sameScore]
  -- the number in the reply: with `CH` those changed, otherwise those added
  have number := same.2
  unfold zAddPair updatePair permits scoreShouldUpdate Agree Tells
  dsimp only
  cases held : z[member]? with
  | none =>
    cases eq : opts.condition with
    | none => cases ch : opts.ch <;> simp_all
    | some condition =>
      cases condition with
      | nx => exact absurd eq nx
      | xx => cases ch : opts.ch <;> simp_all
  | some old =>
    cases eq : opts.condition with
    | none =>
      cases ch : opts.ch with
      | false => simpa [gt, lt, ch] using number
      | true =>
        have changed : c = c' := by simpa [ch] using number
        cases s : sameScore old score with
        | false => cases d : differs old score <;> simp [gt, lt, changed, s, d]
        | true => simp [gt, lt, changed, s, differs_of_sameScore s]
    | some condition =>
      cases condition with
      | nx => exact absurd eq nx
      | xx =>
        cases d : differs score old with
        | true =>
          have s : sameScore old score = false := by
            cases s : sameScore old score
            · rfl
            · rw [sameScore_comm] at s
              rw [differs_of_sameScore s] at d
              exact d.symm
          cases ch : opts.ch
          · simpa [gt, lt, ch, s, d] using number
          · simpa [gt, lt, ch, s, d] using number
        | false =>
          cases ch : opts.ch
          · have added : a = a' := by simpa [ch] using number
            simp [gt, lt, d, writes old held, added]
          · have changed : c = c' := by simpa [ch] using number
            simp +contextual [gt, lt, d, writes old held, changed, itself]

theorem updatePair_bare (bare : guarded opts = false) :
    (updatePair opts (z, a, c) (score, member)).1 =
      if opts.condition = some .xx ∧ member ∉ z then z else z.insert member score := by
  simp only [guarded, Bool.or_eq_false_iff, decide_eq_false_iff_not] at bare
  obtain ⟨⟨nx, gt⟩, lt⟩ := bare
  simp only [Std.ExtTreeMap.mem_iff_isSome_getElem?]
  unfold updatePair permits
  dsimp only
  cases z[member]? with
  | none => by_cases xx : opts.condition = some .xx <;> simp [xx]
  | some old => simp [nx, gt, lt]

theorem agree_iff_distinct (bare : guarded opts = false) (pairs : List (Binary64 × String))
    (same : Agree opts (z, a, c) (z, a', c')) :
    (∀ done rest, pairs = done ++ rest →
        Agree opts (done.foldl (zAddPair opts) (z, a, c)) (done.foldl (updatePair opts) (z, a', c'))) ↔
      Distinct opts z pairs := by
  induction pairs generalizing z a a' c c' with
  | nil =>
    refine ⟨fun _ => trivial, fun _ done rest eq => ?_⟩
    obtain ⟨rfl, -⟩ := List.append_eq_nil_iff.mp eq.symm
    exact same
  | cons pair pairs ih =>
    obtain ⟨score, member⟩ := pair
    have step := @agree_pair opts z a a' c c' score member bare same
    rw [Distinct, ← @updatePair_bare opts z a' c' score member bare, ← step]
    have next {out out' : ZSet × ℕ × ℕ} (agree : Agree opts out out') :
        (∀ done rest, pairs = done ++ rest →
          Agree opts (done.foldl (zAddPair opts) out) (done.foldl (updatePair opts) out')) ↔
        Distinct opts out'.1 pairs := by
      obtain ⟨z₁, a₁, c₁⟩ := out
      obtain ⟨z₂, a₂, c₂⟩ := out'
      obtain rfl : z₁ = z₂ := agree.1
      exact ih agree
    constructor
    · intro all
      have first := all [(score, member)] pairs rfl
      refine ⟨first, (next first).mp fun done rest eq => ?_⟩
      exact all ((score, member) :: done) rest (by rw [eq]; rfl)
    · rintro ⟨first, rest⟩ done after eq
      cases done with
      | nil => exact same
      | cons pair done =>
        obtain ⟨rfl, tail⟩ := List.cons.inj eq
        exact (next first).mpr rest done after tail

end

/-! ## `ZADD` -/

/-- `ZADD` carries out its pairs from left to right as its options say, and answers so. -/
structure ZAddFollows (z : ZSet) (opts : ZAddOptions) (pairs : List (Binary64 × String)) : Prop where
  prefixes : ∀ done rest, pairs = done ++ rest → zAddExec z opts done = zAddSpec z opts done
  command : ∀ (codec : Codec) (env : Env) (s : KeyValueStore) (key : String),
    (∀ cell, s.live env.now key = some cell → ∃ z, cell.value = .zset z) → scoredSet env.now key s = z →
    ((program codec env (.zAdd key opts pairs)).run env.now s.data).1 = (zAddSpec z opts pairs).2 ∧
      scoredSet env.now key { s with data :=
        ((program codec env (.zAdd key opts pairs)).run env.now s.data).2 } = (zAddSpec z opts pairs).1

theorem prefixes_iff (z : ZSet) {opts : ZAddOptions} (pairs : List (Binary64 × String))
    (one : ¬(opts.gt && opts.lt)) :
    (∀ done rest, pairs = done ++ rest → zAddExec z opts done = zAddSpec z opts done) ↔
      ZAddTells z opts pairs := by
  unfold ZAddTells
  cases incr : opts.incr with
  | true =>
    rw [if_pos rfl]
    have answers (delta : Binary64) (member : String) (rest : List (Binary64 × String)) :
        zAddExec z opts ((delta, member) :: rest) = zAddSpec z opts ((delta, member) :: rest) ↔
          permits opts z[member]? ((z[member]?.getD .zero).add delta) := by
      unfold zAddExec zAddSpec
      simp only [incr, if_true]
      split_ifs with permitted <;> simp [permitted]
    constructor
    · intro all delta member first
      cases pairs with
      | nil => cases first
      | cons pair pairs =>
        obtain rfl := Option.some.inj first
        exact (answers delta member pairs).mp (all _ [] (List.append_nil _).symm)
    · rintro permitted done rest rfl
      cases done with
      | nil => simp [zAddExec, zAddSpec, incr]
      | cons pair done => exact (answers _ _ done).mpr (permitted _ _ rfl)
  | false =>
    rw [if_neg (by decide)]
    cases conditions : guarded opts with
    | true =>
      refine ⟨fun _ => .inl rfl, fun _ done rest _ => (zAddExec_eq_iff incr done).mpr ?_⟩
      have pair : zAddPair opts = updatePair opts :=
        funext fun acc => funext fun pair => zAddPair_eq_updatePair conditions one acc pair
      rw [pair]
      exact ⟨rfl, rfl⟩
    | false =>
      simp only [zAddExec_eq_iff incr, Bool.false_eq_true, false_or]
      exact agree_iff_distinct conditions pairs ⟨rfl, rfl⟩

theorem run_zAdd {codec : Codec} {env : Env} {s : KeyValueStore} {z : ZSet} {key : String}
    {opts : ZAddOptions} {pairs : List (Binary64 × String)}
    (typed : ∀ cell, s.live env.now key = some cell → ∃ z, cell.value = .zset z)
    (held : scoredSet env.now key s = z) :
    ((program codec env (.zAdd key opts pairs)).run env.now s.data).1 = (zAddExec z opts pairs).2 ∧
      scoredSet env.now key { s with data :=
        ((program codec env (.zAdd key opts pairs)).run env.now s.data).2 } = (zAddExec z opts pairs).1 := by
  have one : program codec env (.zAdd key opts pairs) =
    .one key (typedEntry .zset ∅ fun z => zAddExec z opts pairs) := rfl
  unfold scoredSet KeyValueStore.live at *
  dsimp only
  rw [Prog.run_fst, live_run, one, Prog.eval_one]
  simp only [Function.update_self]
  have unexpired := settle_live env.now s.data key
  cases there : live env.now s.data key with
  | none =>
    rw [there] at held
    obtain rfl : ∅ = z := held
    exact ⟨rfl, rfl⟩
  | some cell =>
    rw [there] at held unexpired
    obtain ⟨z', value⟩ := typed cell there
    have unwrap : Kind.zset.unwrap cell.value = some z' := Kind.zset.unwrap_eq_some.mpr value
    obtain rfl : z' = z := by simpa [unwrap] using held
    rw [typedEntry_held unwrap]
    have kept (value : EntryValue) : settle env.now (some { cell with value }) =
        some { cell with value } := settle_eq_some.mpr ⟨rfl, (settle_eq_some.mp unexpired).2⟩
    rw [Effect.apply_modify, kept]
    exact ⟨rfl, rfl⟩

/-- For every `ZADD` that the parser accepts, the code follows the options exactly if an increment is
permitted and no score without conditions is almost the one that its member has. -/
theorem zAdd_follows_iff {value : Value} {key : String} {opts : ZAddOptions}
    {pairs : List (Binary64 × String)} (parsed : fromValue value = .ok (.zAdd key opts pairs)) (z : ZSet) :
    ZAddFollows z opts pairs ↔ ZAddTells z opts pairs := by
  have accepted := accepted_of_fromValue parsed
  simp only [acceptedOptions, Bool.and_eq_true, Bool.not_eq_true'] at accepted
  have one : ¬(opts.gt && opts.lt) := by
    rw [accepted.1.1]
    decide
  refine ⟨fun follows => (prefixes_iff z pairs one).mp follows.prefixes, fun tells => ?_⟩
  have prefixes := (prefixes_iff z pairs one).mpr tells
  refine ⟨prefixes, fun codec env s key typed held => ?_⟩
  rw [← prefixes pairs [] (List.append_nil pairs).symm]
  exact run_zAdd typed held

theorem zAdd_follows_iff_greater :
    ZAddFollows ((∅ : ZSet).insert "m" .zero) { gt := true } [(.infinity, "m")] ↔
      ZAddTells ((∅ : ZSet).insert "m" .zero) { gt := true } [(.infinity, "m")] := by
  have parsed : fromValue (arrayOf [bulk "ZADD", bulk "z", bulk "GT", bulk "inf", bulk "m"]) =
      .ok (.zAdd "z" { gt := true } [(.infinity, "m")]) := by
    rfl
  exact zAdd_follows_iff parsed _

/-- `ZADD` with `NX` and `INCR` changes the score of a member that is there. -/
theorem increment_unconditional :
    fromValue (arrayOf [bulk "ZADD", bulk "z", bulk "NX", bulk "INCR", bulk "inf", bulk "m"]) =
        .ok (.zAdd "z" { condition := some .nx, incr := true } [(.infinity, "m")]) ∧
      ¬ZAddFollows ((∅ : ZSet).insert "m" .zero) { condition := some .nx, incr := true }
        [(.infinity, "m")] := by
  refine ⟨by rfl, fun follows => ?_⟩
  have held : ((∅ : ZSet).insert "m" .zero)["m"]? = some .zero :=
    Std.ExtTreeMap.getElem?_insert_self
  have told := (prefixes_iff _ _ (by decide)).mp follows.prefixes
  rw [ZAddTells, if_pos rfl] at told
  have permitted := told .infinity "m" rfl
  rw [held] at permitted
  cases permitted

end Recached
