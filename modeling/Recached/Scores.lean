import Recached.Index

/-!
# Scores that are numbers

Sorted sets compare, order and add scores as if none were NaN.  `number_scores` says that none ever
is, as long as no restored snapshot brings one in and no `ZADD` stores one: the parser reads `nan` as
a score, and `ZADD` with `INCR` adds infinities of opposite sign.
-/

namespace Recached

open Lapse Runs KeyValueStore

def AllNumbers (z : ZSet) : Prop :=
  ∀ (member : String) (score : Binary64), z[member]? = some score → score.isNaN = false

/-- If the cell holds a sorted set, all its scores are numbers. -/
def NumberCell (c : Cell) : Prop := ∀ z, c.value = .zset z → AllNumbers z

def KeyValueStore.AllNumbers (s : KeyValueStore) : Prop := Every NumberCell s.data

theorem AllNumbers.empty : AllNumbers ∅ := by
  intro member score held
  simp at held

theorem AllNumbers.insert {z : ZSet} (h : AllNumbers z) (member : String) {score : Binary64}
    (number : score.isNaN = false) : AllNumbers (z.insert member score) := by
  intro m s held
  rw [Std.ExtTreeMap.getElem?_insert] at held
  split_ifs at held
  · exact Option.some.inj held ▸ number
  · exact h m s held

theorem not_allNumbers_insert (z : ZSet) (member : String) {score : Binary64} (nan : score.isNaN = true) :
    ¬AllNumbers (z.insert member score) := fun h => by
  rw [h member score Std.ExtTreeMap.getElem?_insert_self] at nan
  cases nan

/-! ## One pair of `ZADD` -/

section

variable {z : ZSet} {opts : ZAddOptions} {score old : Binary64} {member : String} {a c : ℕ}

theorem differs_nan (nan : score.isNaN = true) (old : Binary64) : differs score old = false := by
  have sum : (score.sub old).abs.isNaN = true := by
    rw [Binary64.sub, Binary64.add, nan]
    rfl
  rw [differs, Binary64.lt, sum]
  simp

theorem scoreShouldUpdate_nan (nan : score.isNaN = true) (old : Binary64) (opts : ZAddOptions) :
    scoreShouldUpdate score old opts = false := by
  unfold scoreShouldUpdate
  split_ifs
  · simp [Binary64.lt, nan]
  · simp [Binary64.lt, nan]
  · exact differs_nan nan old

theorem zAddPair_fst (opts : ZAddOptions) (z : ZSet) (a c : ℕ) (score : Binary64) (member : String) :
    (zAddPair opts (z, a, c) (score, member)).1 = z ∨
      (zAddPair opts (z, a, c) (score, member)).1 = z.insert member score := by
  unfold zAddPair
  dsimp only
  split
  · exact .inr rfl
  · split_ifs <;> first | exact .inl rfl | exact .inr rfl
  · exact .inl rfl
  · exact .inr rfl
  · exact .inl rfl
  · split_ifs
    · exact .inr rfl
    · exact .inl rfl

/-- The options can leave a member that is there as it is. -/
def guarded (opts : ZAddOptions) : Bool := opts.condition = some .nx || opts.gt || opts.lt

/-- A NaN is stored unless a condition forbids it. -/
theorem zAddPair_nan (nan : score.isNaN = true) :
    (zAddPair opts (z, a, c) (score, member)).1 =
      if opts.condition = some .xx ∨ (member ∈ z ∧ guarded opts) then z else z.insert member score := by
  have update (old : Binary64) : scoreShouldUpdate score old opts = false :=
    scoreShouldUpdate_nan nan old opts
  unfold zAddPair guarded
  dsimp only
  cases held : z[member]? with
  | none =>
    have absent : member ∉ z := by
      rw [Std.ExtTreeMap.mem_iff_isSome_getElem?, held]
      decide
    cases opts.condition with
    | none => simp [absent]
    | some condition => cases condition <;> simp [absent]
  | some old =>
    have present : member ∈ z := Std.ExtTreeMap.mem_iff_isSome_getElem?.mpr (by rw [held]; rfl)
    cases opts.condition with
    | none =>
      simp only [present, update]
      cases opts.gt <;> cases opts.lt <;> simp
    | some condition => cases condition <;> simp [present, update]

theorem allNumbers_zAddPair (h : AllNumbers z) :
    AllNumbers (zAddPair opts (z, a, c) (score, member)).1 ↔
      (score.isNaN → opts.condition = some .xx ∨ (member ∈ z ∧ guarded opts)) := by
  cases nan : score.isNaN with
  | false =>
    refine ⟨fun _ => by rintro ⟨⟩, fun _ => ?_⟩
    obtain eq | eq := zAddPair_fst opts z a c score member <;> rw [eq]
    · exact h
    · exact h.insert member nan
  | true =>
    rw [zAddPair_nan nan]
    split_ifs with forbidden
    · exact ⟨fun _ _ => forbidden, fun _ => h⟩
    · exact ⟨fun numbers => absurd numbers (not_allNumbers_insert z member nan),
        fun allowed => absurd (allowed rfl) forbidden⟩

/-- Unless the condition is `XX`, the member of a pair is there afterwards. -/
theorem mem_zAddPair (condition : opts.condition ≠ some .xx) {m : String} :
    m ∈ (zAddPair opts (z, a, c) (score, member)).1 ↔ m = member ∨ m ∈ z := by
  have inserted : m ∈ z.insert member score ↔ m = member ∨ m ∈ z := by
    rw [Std.ExtTreeMap.mem_insert, Std.LawfulEqCmp.compare_eq_iff_eq, eq_comm]
  have kept (present : member ∈ z) : m ∈ z ↔ m = member ∨ m ∈ z :=
    ⟨.inr, by rintro (rfl | h); exacts [present, h]⟩
  unfold zAddPair
  dsimp only
  split
  · exact inserted
  next held =>
    have present : member ∈ z := Std.ExtTreeMap.mem_iff_isSome_getElem?.mpr (by rw [held]; rfl)
    split_ifs <;> first | exact inserted | exact kept present
  next held => exact kept (Std.ExtTreeMap.mem_iff_isSome_getElem?.mpr (by rw [held]; rfl))
  · exact inserted
  next xx held => exact absurd xx condition
  next xx held => exact absurd xx condition

end

/-! ## `ZADD` -/

/-- No pair stores a NaN: one is given with `XX` only, or where a condition protects a member that is
known, from the set or from a pair before. -/
def NumberPairs (opts : ZAddOptions) : Set String → List (Binary64 × String) → Prop
  | _, [] => True
  | known, (score, member) :: rest =>
    (score.isNaN → opts.condition = some .xx ∨ (member ∈ known ∧ guarded opts)) ∧
      NumberPairs opts (insert member known) rest

/-- `ZADD` stores no NaN in a set. -/
def NumbersAdded (z : ZSet) (opts : ZAddOptions) (pairs : List (Binary64 × String)) : Prop :=
  if opts.incr then
    ∀ delta member, pairs.head? = some (delta, member) →
      ((z[member]?.getD .zero).add delta).isNaN = false
  else NumberPairs opts {m | m ∈ z} pairs

/-- The pairs are exactly those of which none, processed after the ones before, leaves a NaN. -/
theorem numberPairs_iff {opts : ZAddOptions} {z : ZSet} {known : Set String} (h : AllNumbers z)
    (same : opts.condition ≠ some .xx → ∀ m, m ∈ known ↔ m ∈ z) (pairs : List (Binary64 × String))
    (a c : ℕ) :
    NumberPairs opts known pairs ↔ ∀ before rest, pairs = before ++ rest →
      AllNumbers (before.foldl (zAddPair opts) (z, a, c)).1 := by
  induction pairs generalizing z known a c with
  | nil =>
    refine ⟨fun _ before rest eq => ?_, fun _ => trivial⟩
    obtain ⟨rfl, -⟩ := List.append_eq_nil_iff.mp eq.symm
    exact h
  | cons pair pairs ih =>
    obtain ⟨score, member⟩ := pair
    have first : (score.isNaN → opts.condition = some .xx ∨ (member ∈ known ∧ guarded opts)) ↔
        AllNumbers (zAddPair opts (z, a, c) (score, member)).1 := by
      rw [allNumbers_zAddPair h]
      by_cases xx : opts.condition = some .xx
      · simp [xx]
      · rw [same xx]
    have next (numbers : AllNumbers (zAddPair opts (z, a, c) (score, member)).1) :=
      @ih _ (insert member known) numbers (fun xx m => by
        rw [mem_zAddPair xx, Set.mem_insert_iff, same xx])
        (zAddPair opts (z, a, c) (score, member)).2.1 (zAddPair opts (z, a, c) (score, member)).2.2
    rw [NumberPairs, first]
    constructor
    · rintro ⟨numbers, rest⟩ before after eq
      cases before with
      | nil => exact h
      | cons p before =>
        obtain ⟨rfl, tail⟩ := List.cons.inj eq
        exact (next numbers).mp rest before after tail
    · intro all
      have numbers := all [(score, member)] pairs rfl
      refine ⟨numbers, (next numbers).mpr fun before after eq => ?_⟩
      exact all ((score, member) :: before) after (by rw [eq]; rfl)

theorem zAddExec_fst {z : ZSet} {opts : ZAddOptions} (plain : opts.incr = false)
    (pairs : List (Binary64 × String)) :
    (zAddExec z opts pairs).1 = (pairs.foldl (zAddPair opts) (z, 0, 0)).1 := by
  simp only [zAddExec, plain, Bool.false_eq_true, if_false]

theorem zAddExec_numbers {z : ZSet} (h : AllNumbers z) {opts : ZAddOptions}
    {pairs : List (Binary64 × String)} (added : NumbersAdded z opts pairs) :
    AllNumbers (zAddExec z opts pairs).1 := by
  unfold NumbersAdded at added
  cases incr : opts.incr with
  | true =>
    rw [incr, if_pos rfl] at added
    unfold zAddExec
    rw [incr, if_pos rfl]
    cases pairs with
    | nil => exact h
    | cons pair pairs =>
      obtain ⟨delta, member⟩ := pair
      exact h.insert member (added delta member rfl)
  | false =>
    rw [incr, if_neg (by decide)] at added
    rw [zAddExec_fst incr]
    exact (numberPairs_iff h (fun _ _ => Iff.rfl) pairs 0 0).mp added pairs [] (List.append_nil pairs).symm

/-! ## The other commands -/

section

variable {l : Option Cell} {codec : Codec}

theorem numbers_updateAs {α : Type} {k : Kind α} (absent : Value) {f : α → α × Value}
    (keeps : ∀ x, (∀ d, NumberCell ⟨k.wrap x, d⟩) → ∀ d, NumberCell ⟨k.wrap (f x).1, d⟩)
    (h : Meets NumberCell l) : Meets NumberCell ((updateAs k absent f l).1.apply l) := by
  cases l with
  | none => exact h
  | some c =>
    unfold updateAs
    dsimp only
    split
    next x held =>
      refine .some (keeps x (fun d z eq => ?_) _)
      exact h c rfl z ((k.unwrap_eq_some.mp held).trans eq)
    · exact h

theorem numbers_typedEntry {α : Type} {k : Kind α} {default : α} {f : α → α × Value}
    (fresh : ∀ d, NumberCell ⟨k.wrap default, d⟩)
    (keeps : ∀ x, (∀ d, NumberCell ⟨k.wrap x, d⟩) → ∀ d, NumberCell ⟨k.wrap (f x).1, d⟩)
    (h : Meets NumberCell l) : Meets NumberCell ((typedEntry k default f l).1.apply l) := by
  cases l with
  | none => exact .some (keeps default fresh none)
  | some c =>
    unfold typedEntry
    dsimp only
    split
    next x held =>
      refine .some (keeps x (fun d z eq => ?_) _)
      exact h c rfl z ((k.unwrap_eq_some.mp held).trans eq)
    · exact h

/-- A kind of values that are not sorted sets. -/
def Unscored {α : Type} (k : Kind α) : Prop := ∀ x z, k.wrap x ≠ .zset z

theorem number_of_unscored {v : EntryValue} (other : ∀ z, v ≠ .zset z) (d : Option ℕ) :
    NumberCell ⟨v, d⟩ :=
  fun z eq => absurd eq (other z)

theorem numbers_updated {α : Type} {k : Kind α} (other : Unscored k) (absent : Value)
    (f : α → α × Value) (h : Meets NumberCell l) :
    Meets NumberCell ((updateAs k absent f l).1.apply l) :=
  numbers_updateAs absent (fun _ _ => number_of_unscored (other _)) h

theorem numbers_entered {α : Type} {k : Kind α} (other : Unscored k) (default : α)
    (f : α → α × Value) (h : Meets NumberCell l) :
    Meets NumberCell ((typedEntry k default f l).1.apply l) :=
  numbers_typedEntry (number_of_unscored (other _)) (fun _ _ => number_of_unscored (other _)) h

theorem unscored_str : Unscored .str := by rintro x z ⟨⟩
theorem unscored_hash : Unscored .hash := by rintro x z ⟨⟩
theorem unscored_list : Unscored .list := by rintro x z ⟨⟩
theorem unscored_set : Unscored .set := by rintro x z ⟨⟩
theorem unscored_rateLimiter : Unscored .rateLimiter := by rintro x z ⟨⟩
theorem unscored_json : Unscored .json := by rintro x z ⟨⟩

theorem number_str (s : Bytes) (d : Option ℕ) : NumberCell ⟨.str s, d⟩ :=
  number_of_unscored (unscored_str s) d

theorem numbers_setAct (now : ℕ) (val : Bytes) (opts : SetOptions) (h : Meets NumberCell l) :
    Meets NumberCell ((setAct now val opts l).1.apply l) := by
  unfold setAct
  dsimp only
  split
  · exact h
  · split
    · exact h
    · split
      · exact h
      · exact .some (number_str _ _)

theorem numbers_jSetAct (path value : String) (h : Meets NumberCell l) :
    Meets NumberCell ((jSetAct codec path value l).1.apply l) := by
  unfold jSetAct
  split
  · exact h
  · split
    · exact h
    · dsimp only
      split_ifs
      · exact h
      · exact numbers_entered unscored_json _ _ h

theorem numbers_jMergeAct (patch : String) (h : Meets NumberCell l) :
    Meets NumberCell ((jMergeAct codec patch l).1.apply l) := by
  unfold jMergeAct
  split
  · exact h
  · split_ifs
    · exact .none
    · exact h
    · exact numbers_entered unscored_json _ _ h

theorem numbers_rlCheckAct (now : ℕ) (key : String) (config : Option (ℕ × ℕ)) (h : Meets NumberCell l) :
    Meets NumberCell ((rlCheckAct now key config l).1.apply l) := by
  have attempt (rl : RateLimiter) (d : Option ℕ) : NumberCell (rlAttempt now rl d).1 :=
    number_of_unscored (unscored_rateLimiter _) _
  unfold rlCheckAct
  cases l with
  | none =>
    cases config with
    | none => exact h
    | some config => exact .some (attempt _ _)
  | some c =>
    dsimp only
    split
    · exact h
    · exact .some (attempt _ _)

theorem numbers_zIncrByAct (delta : Binary64) (member : String) (h : Meets NumberCell l) :
    Meets NumberCell ((zIncrByAct delta member l).1.apply l) := by
  refine numbers_typedEntry (fun _ z eq => ?_) (fun z numbers d z' eq => ?_) h
  · cases eq
    exact .empty
  · cases eq
    unfold addToScore
    dsimp only
    split_ifs with refused
    · exact numbers none z rfl
    · simp only [Bool.or_eq_true, not_or, Bool.not_eq_true] at refused
      exact (numbers none z rfl).insert member refused.1

theorem AllNumbers.erase {z : ZSet} (h : AllNumbers z) (member : String) : AllNumbers (z.erase member) := by
  intro m s held
  rw [Std.ExtTreeMap.getElem?_erase] at held
  split_ifs at held
  exact h m s held

theorem numbers_zRemAct (members : List String) (h : Meets NumberCell l) :
    Meets NumberCell ((zRemAct members l).1.apply l) := by
  refine numbers_updateAs _ (fun z numbers d z' eq => ?_) h
  cases eq
  have removed (n : ℕ) : AllNumbers (members.foldl (fun (acc : ZSet × ℕ) m =>
      (acc.1.erase m, if acc.1.contains m then acc.2 + 1 else acc.2)) (z, n)).1 := by
    have start := numbers none z rfl
    clear numbers
    induction members generalizing z n with
    | nil => exact start
    | cons member members ih => exact ih _ _ (start.erase member)
  exact removed 0

theorem keeps_delKeys (keys : List String) (n : ℕ) : (delKeys keys n).Keeps NumberCell := by
  induction keys generalizing n with
  | nil => trivial
  | cons key keys ih =>
    refine ⟨fun l h => ?_, fun _ _ => ih _⟩
    cases l with
    | none => exact h
    | some c => exact .none

theorem keeps_mSetPairs (pairs : List (String × Bytes)) : (mSetPairs pairs).Keeps NumberCell := by
  induction pairs with
  | nil => trivial
  | cons pair pairs ih => exact ⟨fun _ _ => .some (number_str _ _), fun _ _ => ih⟩

theorem keeps_combineStore (dst : String) (keys : List String)
    (f : List (Option MemberSet) → MemberSet) : (combineStore dst keys f).Keeps NumberCell := by
  refine (looks_readSets keys).keeps.bind fun sets => ?_
  cases sets with
  | error e => trivial
  | ok sets => exact .one fun _ _ => .some (number_of_unscored (unscored_set _) _)

theorem keeps_sMove (src dst member : String) : (sMove src dst member).Keeps NumberCell := by
  refine ⟨fun _ h => h, fun s _ => ⟨fun _ h => h, fun d _ => ?_⟩⟩
  dsimp only
  split_ifs
  · trivial
  · refine ⟨fun l h => numbers_updated unscored_set _ _ h, fun l _ => ?_⟩
    dsimp only
    split_ifs
    · exact .one fun l h => numbers_entered unscored_set _ _ h
    · trivial

end

/-- Every command but `ZADD` leaves numbers where there were numbers. -/
theorem program_numbers (codec : Codec) (env : Env) {cmd : Command}
    (other : ∀ key opts pairs, cmd ≠ .zAdd key opts pairs) :
    (program codec env cmd).Keeps NumberCell := by
  have deadline {l : Option Cell} (h : Meets NumberCell l) (d : ℕ) :
      Meets NumberCell ((setExpiry d l).1.apply l) := by
    cases l with
    | none => exact h
    | some c => exact .some (h c rfl)
  cases cmd
  case zAdd key opts pairs => exact absurd rfl (other key opts pairs)
  case mSet pairs => exact keeps_mSetPairs pairs
  case del keys | unlink keys => exact (keeps_delKeys keys 0).bind fun _ => trivial
  case rename src dst => exact fun _ => trivial
  case flushDb => trivial
  case sInterStore dst keys | sUnionStore dst keys | sDiffStore dst keys =>
    exact keeps_combineStore dst keys _
  case sMove src dst member => exact keeps_sMove src dst member
  case decrBy key delta =>
    simp only [program]
    split_ifs
    · trivial
    · exact .one fun l h => numbers_entered unscored_str _ _ h
  case eSet key val => exact .one fun l h => numbers_setAct _ val _ h
  case set key val opts => exact .one fun l h => numbers_setAct _ val opts h
  case setEx key secs val | pSetEx key ms val => exact .one fun l _ => .some (number_str _ _)
  case expire key d | pExpire key d | expireAt key d | pExpireAt key d => exact .one fun l h => deadline h _
  case jSet key path value => exact .one fun l h => numbers_jSetAct path value h
  case jMerge key patch => exact .one fun l h => numbers_jMergeAct patch h
  case rlCheck key config => exact .one fun l h => numbers_rlCheckAct _ key config h
  case zIncrBy key delta member => exact .one fun l h => numbers_zIncrByAct delta member h
  case zRem key members => exact .one fun l h => numbers_zRemAct members h
  case getSet key val =>
    refine .one fun l h => ?_
    unfold getSetAct
    split
    · exact .some (number_str _ _)
    · split
      · exact .some (number_str _ _)
      · exact h
  case setNx key val =>
    refine .one fun l h => ?_
    cases l with
    | none => exact .some (number_str _ _)
    | some c => exact h
  case persist key =>
    refine .one fun l h => ?_
    unfold persistAct
    split
    next value d => exact .some (h ⟨value, some d⟩ rfl)
    · exact h
  case rlSet key limit windowSecs =>
    refine .one fun l h => ?_
    have set (rl : RateLimiter) : NumberCell ⟨.rateLimiter rl, none⟩ :=
      number_of_unscored (unscored_rateLimiter rl) none
    unfold rlSetAct
    cases l with
    | none => exact .some (set _)
    | some c =>
      dsimp only
      split
      · exact .some (set _)
      · exact h
  all_goals first
    | exact (program_looks codec env rfl).keeps
    | exact .one fun l h => numbers_entered unscored_str _ _ h
    | exact .one fun l h => numbers_entered unscored_hash _ _ h
    | exact .one fun l h => numbers_entered unscored_list _ _ h
    | exact .one fun l h => numbers_entered unscored_set _ _ h
    | exact .one fun l h => numbers_updated unscored_hash _ _ h
    | exact .one fun l h => numbers_updated unscored_list _ _ h
    | exact .one fun l h => numbers_updated unscored_set _ _ h
    | trivial

/-! ## Operations on a store -/

section

variable {codec : Codec} {s : KeyValueStore}

/-- The sorted set that `ZADD` works on. -/
def scoredSet (now : ℕ) (key : String) (s : KeyValueStore) : ZSet :=
  ((s.live now key).bind fun c => Kind.zset.unwrap c.value).getD ∅

theorem run_zAdd_numbers (h : s.AllNumbers) {env : Env} {key : String} {opts : ZAddOptions}
    {pairs : List (Binary64 × String)} (added : NumbersAdded (scoredSet env.now key s) opts pairs) :
    Every NumberCell ((program codec env (.zAdd key opts pairs)).run env.now s.data).2 := by
  refine Every.store h env.now key ?_
  have live := Every.live h env.now key
  unfold scoredSet KeyValueStore.live at added
  cases held : Lapse.live env.now s.data key with
  | none =>
    rw [held] at added
    refine .some fun z eq => ?_
    cases eq
    exact zAddExec_numbers .empty added
  | some c =>
    rw [held] at added live
    unfold typedEntry
    dsimp only [Option.bind_some] at added ⊢
    cases kind : Kind.zset.unwrap c.value with
    | none => exact live
    | some z =>
      rw [kind] at added
      refine .some fun z' eq => ?_
      cases eq
      exact zAddExec_numbers (live c rfl z (Kind.zset.unwrap_eq_some.mp kind)) added

/-- A step stores no NaN: a `ZADD` adds numbers only, and so does a snapshot. -/
def StoresNumbers (s : KeyValueStore) : StoreOp → Prop
  | .execute env (.zAdd key opts pairs) => NumbersAdded (scoredSet env.now key s) opts pairs
  | .restore _ entries | .replace _ entries => ∀ e ∈ entries, NumberCell e.2
  | _ => True

theorem KeyValueStore.AllNumbers.execute {env : Env} {cmd : Command} (h : s.AllNumbers)
    (stores : StoresNumbers s (.execute env cmd)) :
    (executeReporting codec env cmd s).2.1.AllNumbers := by
  refine every_execute h fun room => ?_
  by_cases adds : ∃ key opts pairs, cmd = .zAdd key opts pairs
  · obtain ⟨key, opts, pairs, rfl⟩ := adds
    rw [makeRoom_of_not_capped env s rfl (by rintro _ ⟨⟩)]
    exact run_zAdd_numbers h stores
  · simp only [not_exists] at adds
    exact Prog.run_keeps (program_numbers codec env adds) env.now room

theorem KeyValueStore.AllNumbers.apply {op : StoreOp} (h : s.AllNumbers) (stores : StoresNumbers s op) :
    (op.apply codec s).AllNumbers := by
  refine every_apply h (fun env cmd is => ?_) fun e listed => ?_
  · subst is
    exact AllNumbers.execute h stores
  · cases op with
    | restore now entries | replace now entries => exact stores e listed
    | _ => cases listed

/-- No score of any sorted set is a NaN after a run whose steps store none. -/
theorem number_scores (codec : Codec) (s s' : KeyValueStore) (ops : List StoreOp)
    (start : s.AllNumbers) (run : exec (storeStep codec) s ops = some s')
    (each : Each (storeStep codec) StoresNumbers s ops) : s'.AllNumbers := by
  refine Runs.invariant (P := KeyValueStore.AllNumbers) (fun s op s' h stores next => ?_) run each start
  obtain rfl := Option.some.inj next
  exact h.apply stores

end

theorem number_scores_added :
    let ops := [.execute (.fixed 0) (.zAdd "z" {} [(.infinity, "m")]),
      .execute (.fixed 1) (.zAdd "z" { incr := true } [(.infinity, "m")])]
    ∃ s, exec (storeStep .literals) {} ops = some s ∧ s.AllNumbers := by
  intro ops
  have empty : ({} : KeyValueStore).AllNumbers := fun k => by simpa using .none
  refine ⟨_, rfl, number_scores .literals {} _ ops empty rfl ?_⟩
  refine ⟨?_, fun s first => ⟨?_, fun _ _ => trivial⟩⟩
  · rw [StoresNumbers, NumbersAdded, if_neg (by decide)]
    exact ⟨fun nan => absurd nan (by decide), trivial⟩
  · obtain rfl := Option.some.inj first
    rw [StoresNumbers, NumbersAdded, if_pos rfl]
    rintro delta member ⟨⟩
    decide

/-- `ZADD` stores a NaN that the parser reads, and the sum of infinities of opposite sign. -/
theorem nan_stored :
    (fromValue (arrayOf [bulk "ZADD", bulk "z", bulk "nan", bulk "m"]) =
        .ok (.zAdd "z" {} [(.nan, "m")]) ∧
      ¬(StoreOp.apply .literals {} (.execute (.fixed 0) (.zAdd "z" {} [(.nan, "m")]))).AllNumbers) ∧
    fromValue (arrayOf [bulk "ZADD", bulk "z", bulk "INCR", bulk "-inf", bulk "m"]) =
        .ok (.zAdd "z" { incr := true } [(Binary64.infinity.negate, "m")]) ∧
      ∃ s, exec (storeStep .literals) {} [.execute (.fixed 0) (.zAdd "z" {} [(.infinity, "m")]),
        .execute (.fixed 1) (.zAdd "z" { incr := true } [(Binary64.infinity.negate, "m")])] = some s ∧
        ¬s.AllNumbers := by
  have stored {s : KeyValueStore} {z : ZSet} {d : Option ℕ}
      (held : s.data["z"]?.map Entry.toCell = some ⟨.zset z, d⟩) (nan : z["m"]?.any Binary64.isNaN) :
      ¬s.AllNumbers := fun numbers => by
    obtain ⟨score, there, bad⟩ := (Option.any_eq_true _ _).mp nan
    rw [numbers "z" _ held z rfl "m" score there] at bad
    cases bad
  exact ⟨⟨rfl, stored rfl (by decide)⟩, rfl, _, rfl, stored rfl (by decide)⟩

end Recached
