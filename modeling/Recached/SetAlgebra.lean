import Recached.Bookkeeping

/-!
# Set algebra

`SINTER`, `SUNION` and `SDIFF` compute the intersection, the union and the difference of the sets at
their keys, whatever keys are missing, repeated or the destination of their storing forms, which put
exactly that set there.  `SMOVE` moves one member and leaves the union of its two keys as it is.
-/

namespace Recached

open Lapse

/-! ## The operations on sets of members -/

/-- A missing set has no members. -/
def elements (s : Option MemberSet) : Set String := {m | ∃ t ∈ s, m ∈ t}

/-- Without sets there is nothing to intersect, and the code answers the empty set. -/
def interOf (sets : List (Set String)) : Set String := {m | sets ≠ [] ∧ ∀ s ∈ sets, m ∈ s}

def unionOf (sets : List (Set String)) : Set String := {m | ∃ s ∈ sets, m ∈ s}

def diffOf : List (Set String) → Set String
  | [] => ∅
  | first :: rest => first \ unionOf rest

section

variable {m : String}

theorem mem_foldl_filter (p : MemberSet → String → Bool) (sets : List MemberSet) (start : MemberSet) :
    m ∈ sets.foldl (fun acc s => acc.filter (p s)) start ↔ m ∈ start ∧ ∀ s ∈ sets, p s m = true := by
  induction sets generalizing start with
  | nil => simp
  | cons s sets ih =>
    rw [List.foldl_cons, ih]
    have kept : m ∈ start.filter (p s) ↔ m ∈ start ∧ p s m = true := by
      simp [Std.ExtTreeSet.mem_filter, Std.ExtTreeSet.get_eq]
    rw [kept, and_assoc, List.forall_mem_cons]

theorem mem_foldl_union (sets : List MemberSet) (start : MemberSet) :
    m ∈ sets.foldl (· ∪ ·) start ↔ m ∈ start ∨ ∃ s ∈ sets, m ∈ s := by
  induction sets generalizing start with
  | nil => simp
  | cons s sets ih =>
    rw [List.foldl_cons, ih, Std.ExtTreeSet.mem_union_iff, or_assoc]
    simp only [List.mem_cons, exists_eq_or_imp]

theorem mem_setUnion (sets : List (Option MemberSet)) :
    m ∈ setUnion sets ↔ m ∈ unionOf (sets.map elements) := by
  rw [setUnion, mem_foldl_union]
  simp [unionOf, elements]

theorem mem_setDiff (sets : List (Option MemberSet)) :
    m ∈ setDiff sets ↔ m ∈ diffOf (sets.map elements) := by
  cases sets with
  | nil => simp [setDiff, diffOf]
  | cons first rest =>
    have start : m ∈ first.getD ∅ ↔ m ∈ elements first := by
      cases first <;> simp [elements]
    have others : (∀ s ∈ rest.filterMap id, (!s.contains m) = true) ↔ m ∉ unionOf (rest.map elements) := by
      have absent (s : MemberSet) : s.contains m = false ↔ m ∉ s := by
        rw [← Bool.not_eq_true, Std.ExtTreeSet.contains_iff_mem]
      simp [unionOf, elements, absent]
    rw [setDiff, mem_foldl_filter fun s m => !s.contains m, start, others]
    rfl

theorem mem_setInter (sets : List (Option MemberSet)) :
    m ∈ setInter sets ↔ m ∈ interOf (sets.map elements) := by
  unfold setInter
  split_ifs with missing
  · obtain ⟨s, mem, absent⟩ := List.any_eq_true.mp missing
    obtain rfl := Option.isNone_iff_eq_none.mp absent
    refine iff_of_false (by simp) fun inter => ?_
    obtain ⟨t, there, -⟩ := inter.2 _ (List.mem_map_of_mem mem)
    cases there
  · obtain ⟨present, rfl⟩ : ∃ present : List MemberSet, sets = present.map some := by
      refine ⟨sets.filterMap id, ?_⟩
      induction sets with
      | nil => rfl
      | cons s rest ih =>
        cases s with
        | none => exact absurd rfl missing
        | some t => exact congrArg (some t :: ·) (ih missing)
    have same : (present.map some).filterMap id = present := by simp
    rw [same]
    cases present with
    | nil => simp [interOf]
    | cons first rest =>
      rw [mem_foldl_filter fun s m => s.contains m]
      simp [interOf, elements]

end

/-! ## Reading the sets -/

section

variable {codec : Codec} {env : Env} {v : View} {keys : List String}

theorem eval_readSets_sets (live : ∀ k, settle env.now (v k) = v k) (sets : ∀ k ∈ keys, Holds .set (v k)) :
    (readSets keys).eval env.now v = (.ok (keys.map fun k => held .set (v k)), v) := by
  induction keys with
  | nil => rfl
  | cons key keys ih =>
    have rest := ih fun k mem => sets k (List.mem_cons_of_mem key mem)
    have first := sets key List.mem_cons_self
    simp only [readSets, Prog.read, Prog.eval, Effect.apply_keep, live, Function.update_eq_self, List.map_cons]
    cases there : v key with
    | none =>
      dsimp only
      rw [Prog.eval_bind, rest]
      rfl
    | some c =>
      obtain ⟨s, holds⟩ := Option.isSome_iff_exists.mp (first c there)
      dsimp only
      rw [holds]
      dsimp only
      rw [Prog.eval_bind, rest, held, Option.bind_some, holds]
      rfl

/-- A key of another kind refuses the command. -/
theorem eval_readSets_other (live : ∀ k, settle env.now (v k) = v k) {key : String} (mem : key ∈ keys)
    (other : ¬Holds .set (v key)) : (readSets keys).eval env.now v = (.error wrongType, v) := by
  induction keys with
  | nil => cases mem
  | cons first keys ih =>
    simp only [readSets, Prog.read, Prog.eval, Effect.apply_keep, live, Function.update_eq_self]
    have later (sets : Holds .set (v first)) : (readSets keys).eval env.now v = (.error wrongType, v) := by
      obtain rfl | rest := List.mem_cons.mp mem
      · exact absurd sets other
      · exact ih rest
    cases there : v first with
    | none =>
      dsimp only
      rw [Prog.eval_bind, later (by rw [there]; rintro _ ⟨⟩)]
      rfl
    | some c =>
      dsimp only
      cases holds : Kind.set.unwrap c.value with
      | none => rfl
      | some s =>
        dsimp only
        rw [Prog.eval_bind, later ?_]
        · rfl
        · rintro c' found
          obtain rfl := Option.some.inj (there.symm.trans found)
          rw [holds]
          rfl

/-- What a command on sets says of the sets at its keys. -/
theorem eval_combine {f : List (Option MemberSet) → MemberSet} (live : ∀ k, settle env.now (v k) = v k)
    (sets : ∀ k ∈ keys, Holds .set (v k)) :
    (combine keys f).eval env.now v =
      (arrayOf ((f (keys.map fun k => held .set (v k))).toList.map bulk), v) := by
  rw [combine, Prog.eval_bind, eval_readSets_sets live sets]
  rfl

theorem eval_combineStore {f : List (Option MemberSet) → MemberSet} {dst : String}
    (live : ∀ k, settle env.now (v k) = v k) (sets : ∀ k ∈ keys, Holds .set (v k)) :
    (combineStore dst keys f).eval env.now v =
      (.integer (f (keys.map fun k => held .set (v k))).size,
        Function.update v dst (some ⟨.set (f (keys.map fun k => held .set (v k))), none⟩)) := by
  rw [combineStore, Prog.eval_bind, eval_readSets_sets live sets]
  exact Prog.eval_one ..

end

/-- The members of the set at a key. -/
def membersAt (v : View) (key : String) : Set String := elements (held .set (v key))

/-- A command answers with the members of a set, each once, and changes nothing. -/
structure AnswersSet (codec : Codec) (env : Env) (s : KeyValueStore) (cmd : Command) (result : Set String) :
    Prop where
  reply : ∃ listed : List String, listed.Nodup ∧ (∀ m, m ∈ listed ↔ m ∈ result) ∧
    (executeInner codec env cmd s).1 = arrayOf (listed.map bulk)
  live : (executeInner codec env cmd s).2.1.live env.now = s.live env.now

/-- A command puts a set at its destination, without a deadline, and answers its size. -/
structure Stores (codec : Codec) (env : Env) (s : KeyValueStore) (cmd : Command) (dst : String)
    (result : Set String) : Prop where
  stored : ∃ members : MemberSet, (∀ m, m ∈ members ↔ m ∈ result) ∧
    (executeInner codec env cmd s).1 = .integer members.size ∧
    (executeInner codec env cmd s).2.1.live env.now =
      Function.update (s.live env.now) dst (some ⟨.set members, none⟩)

/-- A member is in the destination and in no other set it came from. -/
structure Moved (before after : View) (src dst member : String) : Prop where
  source : src ≠ dst → membersAt after src = membersAt before src \ {member}
  destination : membersAt after dst = insert member (membersAt before dst)
  union : membersAt after src ∪ membersAt after dst = membersAt before src ∪ membersAt before dst
  kinds : Holds .set (after src) ∧ Holds .set (after dst)
  deadlines : ∀ k, (after k).bind Cell.expiresAtMs = (before k).bind Cell.expiresAtMs
  others : ∀ k, k ≠ src → k ≠ dst → after k = before k

/-- The command is refused for the kind of a value and changes nothing. -/
structure RefusesKind (codec : Codec) (env : Env) (s : KeyValueStore) (cmd : Command) : Prop where
  reply : (executeInner codec env cmd s).1 = wrongType
  live : (executeInner codec env cmd s).2.1.live env.now = s.live env.now

/-- The commands on several sets, in one state of the store. -/
structure SetLaws (codec : Codec) (env : Env) (s : KeyValueStore) : Prop where
  inter : ∀ keys, (∀ k ∈ keys, Holds .set (s.live env.now k)) →
    AnswersSet codec env s (.sInter keys) (interOf (keys.map (membersAt (s.live env.now)))) ∧
      ∀ dst, Stores codec env s (.sInterStore dst keys) dst
        (interOf (keys.map (membersAt (s.live env.now))))
  union : ∀ keys, (∀ k ∈ keys, Holds .set (s.live env.now k)) →
    AnswersSet codec env s (.sUnion keys) (unionOf (keys.map (membersAt (s.live env.now)))) ∧
      ∀ dst, Stores codec env s (.sUnionStore dst keys) dst
        (unionOf (keys.map (membersAt (s.live env.now))))
  diff : ∀ keys, (∀ k ∈ keys, Holds .set (s.live env.now k)) →
    AnswersSet codec env s (.sDiff keys) (diffOf (keys.map (membersAt (s.live env.now)))) ∧
      ∀ dst, Stores codec env s (.sDiffStore dst keys) dst
        (diffOf (keys.map (membersAt (s.live env.now))))
  refused : ∀ keys, (∃ k ∈ keys, ¬Holds .set (s.live env.now k)) → ∀ dst, ∀ cmd ∈ [.sInter keys,
    .sInterStore dst keys, .sUnion keys, .sUnionStore dst keys, .sDiff keys, .sDiffStore dst keys],
    RefusesKind codec env s cmd
  move : ∀ src dst member, Holds .set (s.live env.now src) → Holds .set (s.live env.now dst) →
    member ∈ membersAt (s.live env.now) src →
    (executeInner codec env (.sMove src dst member) s).1 = .integer 1 ∧
      Moved (s.live env.now) ((executeInner codec env (.sMove src dst member) s).2.1.live env.now)
        src dst member
  stay : ∀ src dst member, Holds .set (s.live env.now src) → Holds .set (s.live env.now dst) →
    member ∉ membersAt (s.live env.now) src →
    (executeInner codec env (.sMove src dst member) s).1 = .integer 0 ∧
      (executeInner codec env (.sMove src dst member) s).2.1.live env.now = s.live env.now

section

variable {codec : Codec} {env : Env} {s : KeyValueStore} {keys : List String}

theorem nodup_toList (s : MemberSet) : s.toList.Nodup :=
  Std.ExtTreeSet.ordered_toList.imp fun lt => ne_of_lt (compare_lt_iff_lt.mp lt)

/-- An operation on sets of members and the function that computes it. -/
theorem answers_combine {cmd : Command} {f : List (Option MemberSet) → MemberSet}
    {g : List (Set String) → Set String} (computes : ∀ sets m, m ∈ f sets ↔ m ∈ g (sets.map elements))
    (is : program codec env cmd = combine keys f) (direct : readsKeyspace cmd = false)
    (one : cappedKey cmd = none) (several : ∀ pairs, cmd = .mSet pairs → pairs = [])
    (sets : ∀ k ∈ keys, Holds .set (s.live env.now k)) :
    AnswersSet codec env s cmd (g (keys.map (membersAt (s.live env.now)))) := by
  have performed := executeInner_performs codec env s direct one several
  have settled : ∀ k, settle env.now (s.live env.now k) = s.live env.now k := fun k => settle_live ..
  rw [perform, is, eval_combine settled sets] at performed
  refine ⟨⟨_, nodup_toList _, fun m => ?_, performed.1⟩, performed.2⟩
  rw [Std.ExtTreeSet.mem_toList, computes, List.map_map]
  rfl

theorem stores_combine {cmd : Command} {dst : String} {f : List (Option MemberSet) → MemberSet}
    {g : List (Set String) → Set String} (computes : ∀ sets m, m ∈ f sets ↔ m ∈ g (sets.map elements))
    (is : program codec env cmd = combineStore dst keys f) (direct : readsKeyspace cmd = false)
    (one : cappedKey cmd = none) (several : ∀ pairs, cmd = .mSet pairs → pairs = [])
    (sets : ∀ k ∈ keys, Holds .set (s.live env.now k)) :
    Stores codec env s cmd dst (g (keys.map (membersAt (s.live env.now)))) := by
  have performed := executeInner_performs codec env s direct one several
  have settled : ∀ k, settle env.now (s.live env.now k) = s.live env.now k := fun k => settle_live ..
  rw [perform, is, eval_combineStore settled sets] at performed
  refine ⟨_, fun m => ?_, performed.1, performed.2⟩
  rw [computes, List.map_map]
  rfl

theorem refusesKind {cmd : Command} {p : Except Value (List (Option MemberSet)) → Prog Value}
    (is : program codec env cmd = (readSets keys).bind p) (stops : p (.error wrongType) = .done wrongType)
    (direct : readsKeyspace cmd = false) (one : cappedKey cmd = none)
    (several : ∀ pairs, cmd = .mSet pairs → pairs = [])
    (other : ∃ k ∈ keys, ¬Holds .set (s.live env.now k)) : RefusesKind codec env s cmd := by
  have performed := executeInner_performs codec env s direct one several
  have settled : ∀ k, settle env.now (s.live env.now k) = s.live env.now k := fun k => settle_live ..
  obtain ⟨key, mem, kind⟩ := other
  rw [perform, is, Prog.eval_bind, eval_readSets_other settled mem kind, stops] at performed
  exact ⟨performed.1, performed.2⟩

/-! ## Moving a member -/

variable {v : View} {src dst member : String}

/-- The view after a member has left its source. -/
def leftSource (v : View) (src member : String) (c : Cell) (t : MemberSet) : View :=
  Function.update v src (some { c with value := .set (t.erase member) })

theorem leftSource_self (v : View) (src member : String) (c : Cell) (t : MemberSet) :
    leftSource v src member c t src = some { c with value := .set (t.erase member) } :=
  Function.update_self ..

theorem leftSource_of_ne {k : String} (other : k ≠ src) (v : View) (member : String) (c : Cell)
    (t : MemberSet) : leftSource v src member c t k = v k :=
  Function.update_of_ne other ..

/-- The view after it has come to its destination, too. -/
def cameTo (v : View) (dst member : String) : View :=
  Function.update v dst (some ⟨.set (((held .set (v dst)).getD ∅).insert member),
    (v dst).bind Cell.expiresAtMs⟩)

theorem eval_sMove_there (live : ∀ k, settle env.now (v k) = v k) {c : Cell} {t : MemberSet}
    (there : v src = some c) (holds : c.value = .set t) (mem : member ∈ t) (sets : Holds .set (v dst)) :
    (sMove src dst member).eval env.now v =
      (.integer 1, cameTo (leftSource v src member c t) dst member) := by
  have unwrap : Kind.set.unwrap c.value = some t := Kind.set.unwrap_eq_some.mpr holds
  have keep (k : String) : Function.update v k (settle env.now (Effect.keep.apply (v k))) = v := by
    rw [Effect.apply_keep, live, Function.update_eq_self]
  have typed : (notSet (v src) || notSet (v dst)) = false := by
    rw [Bool.or_eq_false_iff, ← holds_set_iff, ← holds_set_iff]
    refine ⟨?_, sets⟩
    rw [there]
    rintro _ ⟨⟩
    rw [unwrap]
    rfl
  have alive : c.isExpired env.now = false := (settle_eq_some.mp ((live src).trans there)).2
  have left : Function.update v src (settle env.now
      ((updateAs .set nil (fun s => (s.erase member, nil)) (v src)).1.apply (v src))) =
        leftSource v src member c t := by
    rw [there, updateAs_held unwrap]
    exact congrArg (Function.update v src) (settle_eq_some.mpr ⟨rfl, alive⟩)
  have found : ((v src).bind fun c => Kind.set.unwrap c.value).any fun s => s.contains member := by
    rw [there, Option.bind_some, unwrap]
    exact Std.ExtTreeSet.contains_iff_mem.mpr mem
  have both : Holds .set (leftSource v src member c t dst) ∧
      settle env.now (leftSource v src member c t dst) = leftSource v src member c t dst := by
    by_cases same : dst = src
    · rw [same, leftSource_self]
      exact ⟨by rintro _ ⟨⟩; rfl, settle_eq_some.mpr ⟨rfl, alive⟩⟩
    · rw [leftSource_of_ne same]
      exact ⟨sets, live dst⟩
  simp only [sMove, Prog.read, Prog.eval, keep, typed, Bool.false_eq_true, if_false, left, found, if_true]
  rw [Prog.eval_one, (typedEntry_apply both.1 _ _).1, (typedEntry_apply both.1 _ _).2, settle_kept both.2]
  rfl

theorem eval_sMove_absent (live : ∀ k, settle env.now (v k) = v k) (kinds : Holds .set (v src))
    (sets : Holds .set (v dst)) (absent : member ∉ membersAt v src) :
    (sMove src dst member).eval env.now v = (.integer 0, v) := by
  have keep (k : String) : Function.update v k (settle env.now (Effect.keep.apply (v k))) = v := by
    rw [Effect.apply_keep, live, Function.update_eq_self]
  have typed : (notSet (v src) || notSet (v dst)) = false := by
    rw [Bool.or_eq_false_iff, ← holds_set_iff, ← holds_set_iff]
    exact ⟨kinds, sets⟩
  have missing : (held .set (v src)).any (fun s => s.contains member) = false := by
    cases there : held .set (v src) with
    | none => rfl
    | some t =>
      rw [Option.any_some, ← Bool.not_eq_true, Std.ExtTreeSet.contains_iff_mem]
      exact fun mem => absent ⟨t, there, mem⟩
  have reply : ((sMove src dst member).eval env.now v).1 = .integer 0 := by
    simp only [sMove, Prog.read, Prog.eval, keep, typed, Bool.false_eq_true, if_false]
    rw [← held, missing, if_neg Bool.false_ne_true]
    rfl
  have silent := @sMove_unchanged .literals env v src dst member live
  rw [perform, program, reply] at silent
  exact Prod.ext reply (silent rfl rfl)

theorem members_of_set (t : MemberSet) (d : Option ℕ) : elements (held .set (some ⟨.set t, d⟩)) = {m | m ∈ t} := by
  ext m
  simp [elements, held, Kind.set]

theorem membersAt_cameTo (v : View) (dst member : String) :
    membersAt (cameTo v dst member) dst = insert member (membersAt v dst) := by
  rw [membersAt, cameTo, Function.update_self, members_of_set, membersAt]
  ext m
  cases held .set (v dst) with
  | none => simp [elements]
  | some t =>
    rw [Set.mem_insert_iff, eq_comm (b := member)]
    simp [elements]

theorem membersAt_leftSource {c : Cell} {t : MemberSet} (there : v src = some c) (holds : c.value = .set t) :
    membersAt (leftSource v src member c t) src = membersAt v src \ {member} := by
  obtain ⟨value, d⟩ := c
  obtain rfl : value = .set t := holds
  rw [membersAt, leftSource_self, members_of_set, membersAt, there, members_of_set]
  ext m
  rw [Set.mem_sdiff, Set.mem_singleton_iff, eq_comm (b := member)]
  simp [and_comm]

theorem moved {c : Cell} {t : MemberSet} (there : v src = some c) (holds : c.value = .set t)
    (mem : member ∈ t) (sets : Holds .set (v dst)) :
    Moved v (cameTo (leftSource v src member c t) dst member) src dst member := by
  have was : member ∈ membersAt v src := by
    rw [membersAt, there]
    exact ⟨t, (Kind.set.unwrap_eq_some.mpr holds), mem⟩
  have came (k : String) (other : k ≠ dst) :
      cameTo (leftSource v src member c t) dst member k = leftSource v src member c t k :=
    Function.update_of_ne other ..
  have left : membersAt (leftSource v src member c t) src = membersAt v src \ {member} :=
    membersAt_leftSource there holds
  have stayed (k : String) (other : k ≠ src) :
      membersAt (leftSource v src member c t) k = membersAt v k := by
    rw [membersAt, leftSource_of_ne other, membersAt]
  have destination : membersAt (cameTo (leftSource v src member c t) dst member) dst =
      insert member (membersAt v dst) := by
    rw [membersAt_cameTo]
    by_cases same : dst = src
    · rw [same, left, Set.insert_sdiff_singleton]
    · rw [stayed dst same]
  have source (other : src ≠ dst) : membersAt (cameTo (leftSource v src member c t) dst member) src =
      membersAt v src \ {member} := by
    rw [membersAt, came src other, ← membersAt, left]
  have dated (k : String) : (leftSource v src member c t k).bind Cell.expiresAtMs =
      (v k).bind Cell.expiresAtMs := by
    by_cases same : k = src
    · rw [same, leftSource_self, there]
      rfl
    · rw [leftSource_of_ne same]
  refine ⟨source, destination, ?_, ⟨?_, ?_⟩, fun k => ?_, fun k notSrc notDst => ?_⟩
  · by_cases same : src = dst
    · subst same
      rw [destination, Set.insert_eq_of_mem was]
    · rw [destination, source same, Set.union_insert, ← Set.insert_union, Set.insert_sdiff_singleton,
        Set.insert_eq_of_mem was]
  · by_cases same : src = dst
    · rw [same, cameTo, Function.update_self]
      rintro _ ⟨⟩
      rfl
    · rw [came src same, leftSource_self]
      rintro _ ⟨⟩
      rfl
  · rw [cameTo, Function.update_self]
    rintro _ ⟨⟩
    rfl
  · by_cases same : k = dst
    · rw [same, cameTo, Function.update_self, ← dated]
      rfl
    · rw [came k same, dated]
  · rw [came k notDst, leftSource_of_ne notSrc]

end

/-- The commands on several sets compute what they say, in every state of the store. -/
theorem set_laws (codec : Codec) (env : Env) (s : KeyValueStore) : SetLaws codec env s where
  inter keys sets :=
    ⟨answers_combine (fun sets m => mem_setInter sets) rfl rfl rfl (by rintro _ ⟨⟩) sets, fun dst =>
      stores_combine (fun sets m => mem_setInter sets) rfl rfl rfl (by rintro _ ⟨⟩) sets⟩
  union keys sets :=
    ⟨answers_combine (fun sets m => mem_setUnion sets) rfl rfl rfl (by rintro _ ⟨⟩) sets, fun dst =>
      stores_combine (fun sets m => mem_setUnion sets) rfl rfl rfl (by rintro _ ⟨⟩) sets⟩
  diff keys sets :=
    ⟨answers_combine (fun sets m => mem_setDiff sets) rfl rfl rfl (by rintro _ ⟨⟩) sets, fun dst =>
      stores_combine (fun sets m => mem_setDiff sets) rfl rfl rfl (by rintro _ ⟨⟩) sets⟩
  refused keys other dst cmd mem := by
    simp only [List.mem_cons, List.not_mem_nil, or_false] at mem
    obtain rfl | rfl | rfl | rfl | rfl | rfl := mem <;>
      exact refusesKind rfl rfl rfl rfl (by rintro _ ⟨⟩) other
  move src dst member _ sets mem := by
    have settled : ∀ k, settle env.now (s.live env.now k) = s.live env.now k := fun k => settle_live ..
    obtain ⟨t, there, mem⟩ := mem
    obtain ⟨c, found, unwrap⟩ := Option.bind_eq_some_iff.mp there
    have holds : c.value = .set t := Kind.set.unwrap_eq_some.mp unwrap
    obtain ⟨reply, live⟩ := @executeInner_performs codec env (.sMove src dst member) s rfl rfl
      (by rintro _ ⟨⟩)
    rw [perform, program, eval_sMove_there settled found holds mem sets] at reply live
    exact ⟨reply, live ▸ moved found holds mem sets⟩
  stay src dst member kinds sets absent := by
    have settled : ∀ k, settle env.now (s.live env.now k) = s.live env.now k := fun k => settle_live ..
    obtain ⟨reply, live⟩ := @executeInner_performs codec env (.sMove src dst member) s rfl rfl
      (by rintro _ ⟨⟩)
    rw [perform, program, eval_sMove_absent settled kinds sets absent] at reply live
    exact ⟨reply, live⟩

theorem set_laws_aliased :
    let s : KeyValueStore := { data := (∅ : Data).insert "a" ⟨⟨.set ((∅ : MemberSet).insert "x"), none⟩, 0⟩ }
    (executeInner .literals (.fixed 0) (.sMove "a" "a" "x") s).1 = .integer 1 ∧
      Moved (s.live 0) ((executeInner .literals (.fixed 0) (.sMove "a" "a" "x") s).2.1.live 0) "a" "a" "x" := by
  intro s
  have sets : Holds .set (s.live 0 "a") := by
    rintro _ ⟨⟩
    rfl
  exact (set_laws .literals (.fixed 0) s).move "a" "a" "x" sets sets
    ⟨(∅ : MemberSet).insert "x", rfl, Std.ExtTreeSet.mem_insert_self⟩

end Recached
