import Recached.Capacity
import Recached.Simulation

/-!
# What a command changes

On any store, with or without limits, a command finds no room, is refused for its memory, or runs
between two rounds of eviction; `executeReporting_fares` says so on live views.  The rest says which
keys a write changes and when a refused or unpropagated write changes nothing.
-/

namespace Recached

open Text Lapse KeyValueStore

variable {codec : Codec} {env : Env} {cmd : Command} {s : KeyValueStore}

/-! ## How a command fares -/

/-- The entries without some keys. -/
def dropped (keys : List String) (d : Data) : Data := keys.foldl (fun d key => d.erase key) d

theorem dropped_append (keys keys' : List String) (d : Data) :
    dropped (keys ++ keys') d = dropped keys' (dropped keys d) :=
  List.foldl_append

theorem getElem?_dropped (keys : List String) (d : Data) {k : String} (hk : k ∉ keys) :
    (dropped keys d)[k]? = d[k]? := by
  induction keys generalizing d with
  | nil => rfl
  | cons key keys ih =>
    obtain ⟨ne, rest⟩ := List.ne_and_not_mem_of_not_mem_cons hk
    have other : compare key k ≠ .eq := fun eq => ne (Std.LawfulEqOrd.eq_of_compare eq).symm
    exact (ih _ rest).trans (by simp [Std.ExtTreeMap.getElem?_erase, other])

/-- The reply, the entries afterwards and the victims of a command. -/
inductive Fares (codec : Codec) (env : Env) (cmd : Command) (d : Data) :
    Value → Data → List String → Prop
  | full (victims : List String) :
    Fares codec env cmd d (.error "ERR max keys limit reached") (dropped victims d) victims
  | outOfMemory :
    Fares codec env cmd d (.error "OOM command not allowed when used memory > 'maxmemory'.") d []
  | ran (pre post : List String) :
    (pre ≠ [] → (cappedKey cmd).isSome = true ∨ ∃ pairs, cmd = .mSet pairs) →
    Fares codec env cmd d ((program codec env cmd).run env.now (dropped pre d)).1
      (dropped post ((program codec env cmd).run env.now (dropped pre d)).2) (pre ++ post)

theorem makeRoom_evicts : Evicts s (makeRoom env cmd s).2.1 (makeRoom env cmd s).2.2 := by
  have many (n : ℕ) : Evicts s (s.evictMany env n []).2.1 (s.evictMany env n []).2.2 := by
    obtain ⟨victims, list, evicts⟩ := evictMany_evicts env n [] s
    rw [list]
    exact evicts
  unfold makeRoom
  split
  · exact .refl s
  · split
    · exact many _
    · split
      · exact .refl s
      · split
        · exact many 1
        · exact .refl s

theorem makeRoom_noEviction (never : s.evictionPolicy = .noEviction) :
    (makeRoom env cmd s).2 = (s, []) := by
  have many (n : ℕ) : (s.evictMany env n []).2 = (s, []) := by
    cases n with
    | zero => rfl
    | succ n => simp [evictMany, evictOne, never]
  unfold makeRoom
  split
  · rfl
  · split
    · exact many _
    · split
      · rfl
      · split
        · exact many 1
        · rfl

theorem tryEvictForMemory_noEviction (never : s.evictionPolicy = .noEviction) (evicted : List String) :
    (s.tryEvictForMemory env evicted).2 = (s, evicted) := by
  have one : s.evictOne env.now (env.samples evicted.length) = none := by simp [evictOne, never]
  unfold tryEvictForMemory
  split
  · rfl
  · simp only [evictUntil, one]
    split_ifs <;> rfl

theorem scope_listed {ks : List String} (scope : mutationScope cmd = .keys ks) :
    ∀ k ∈ (commandScope cmd).listed, k ∈ ks := by
  induction cmd with
  | dedup client id inner ih => exact ih scope
  | _ =>
    cases scope
    all_goals simp [commandScope, CommandScope.listed, or_comm]

theorem getElem?_restore (keys : List String) (saved d : Data) (k : String) :
    ((keys.map fun key => (key, saved[key]?)).foldl restoreEntry d)[k]? =
      if k ∈ keys then saved[k]? else d[k]? := by
  induction keys generalizing d with
  | nil => rfl
  | cons key keys ih =>
    rw [List.map_cons, List.foldl_cons, ih]
    by_cases rest : k ∈ keys
    · simp [rest]
    · by_cases same : k = key
      · subst same
        rw [if_neg rest, if_pos List.mem_cons_self]
        unfold restoreEntry
        cases saved[k]? <;> simp
      · have ne : compare key k ≠ .eq := fun eq => same (Std.LawfulEqOrd.eq_of_compare eq).symm
        simp only [rest, if_false, List.mem_cons, same, or_self]
        unfold restoreEntry
        cases saved[key]? <;>
          simp [Std.ExtTreeMap.getElem?_insert, Std.ExtTreeMap.getElem?_erase, ne]

/-- A command without its bookkeeping. -/
theorem executeInner_fares (direct : readsKeyspace cmd = false) :
    ((executeInner codec env cmd s).1 = .error "ERR max keys limit reached" ∧
        Evicts s (executeInner codec env cmd s).2.1 (executeInner codec env cmd s).2.2) ∨
      ∃ s₁ pre, Evicts s s₁ pre ∧ SameLimits s s₁ ∧
        (pre ≠ [] → (cappedKey cmd).isSome = true ∨ ∃ pairs, cmd = .mSet pairs) ∧
        (s.evictionPolicy = .noEviction → s₁ = s ∧ pre = []) ∧
        executeInner codec env cmd s = (((program codec env cmd).run env.now s₁.data).1,
          { s₁ with data := ((program codec env cmd).run env.now s₁.data).2 }, pre) := by
  have evicts := @makeRoom_evicts env cmd s
  have limits := makeRoom_limits env cmd s
  have never := @makeRoom_noEviction env cmd s
  have capped : (makeRoom env cmd s).2.2 ≠ [] →
      (cappedKey cmd).isSome = true ∨ ∃ pairs, cmd = .mSet pairs := by
    intro some
    by_contra neither
    obtain ⟨notOne, notSeveral⟩ := not_or.mp neither
    rw [makeRoom_of_not_capped env s (Option.not_isSome_iff_eq_none.mp notOne)
      fun pairs eq => absurd ⟨pairs, eq⟩ notSeveral] at some
    exact some rfl
  cases room : makeRoom env cmd s with
  | mk made rest =>
    obtain ⟨s₁, pre⟩ := rest
    rw [room] at evicts limits never capped
    cases made with
    | false =>
      rw [executeInner_of_no_room codec direct room]
      exact .inl ⟨rfl, evicts⟩
    | true =>
      refine .inr ⟨s₁, pre, evicts, limits, capped, fun policy => ?_, executeInner_of_room codec direct room⟩
      exact Prod.mk.inj (never policy)

/-- Without eviction a command leaves the keys that its scope does not list. -/
theorem executeInner_keeps (direct : readsKeyspace cmd = false) (notFlush : cmd ≠ .flushDb)
    (never : s.evictionPolicy = .noEviction) {k : String} (hk : k ∉ (commandScope cmd).listed) :
    (executeInner codec env cmd s).2.1.data[k]? = s.data[k]? := by
  have same := @makeRoom_noEviction env cmd s never
  cases room : makeRoom env cmd s with
  | mk made rest =>
    rw [room] at same
    obtain rfl := same
    cases made with
    | false => rw [executeInner_of_no_room codec direct room]
    | true =>
      rw [executeInner_of_room codec direct room]
      exact Prog.run_frame (program_on codec env notFlush) env.now s.data hk

theorem Fares.untouched {d d' : Data} (same : d' = d) :
    Fares codec env cmd d (.error "OOM command not allowed when used memory > 'maxmemory'.") d' [] := by
  rw [same]
  exact .outOfMemory

theorem executeReporting_fares (codec : Codec) (env : Env) (s : KeyValueStore)
    (direct : readsKeyspace cmd = false) :
    Fares codec env cmd s.data (executeReporting codec env cmd s).1
      (executeReporting codec env cmd s).2.1.data (executeReporting codec env cmd s).2.2 := by
  have inner := @executeInner_fares codec env cmd s direct
  -- the bookkeeping only evicts once more
  have finish (s' : KeyValueStore) (evicted : List String)
      (same : s'.data = (executeInner codec env cmd s).2.1.data)
      (list : evicted = (executeInner codec env cmd s).2.2) :
      Fares codec env cmd s.data (executeInner codec env cmd s).1
        (s'.tryEvictForMemory env evicted).2.1.data (s'.tryEvictForMemory env evicted).2.2 := by
    obtain ⟨post, listed, evicts⟩ := tryEvictForMemory_evicts env evicted s'
    rw [listed, evicts.data, same, list]
    obtain ⟨refused, before⟩ | ⟨s₁, pre, before, -, capped, -, eq⟩ := inner
    · rw [refused, before.data]
      refine (congrArg (Fares codec env cmd s.data _ · _) ?_).mp (.full _)
      exact dropped_append _ _ _
    · rw [eq, before.data]
      exact .ran pre post capped
  unfold executeReporting
  split
  · obtain ⟨refused, before⟩ | ⟨s₁, pre, before, -, capped, -, eq⟩ := inner
    · rw [refused, before.data]
      exact .full _
    · rw [eq, before.data]
      have ran := @Fares.ran codec env cmd s.data pre [] capped
      rwa [List.append_nil] at ran
  · exact finish _ _ rfl rfl
  · next keys scope =>
    dsimp only
    split_ifs with refused
    · have policy := of_decide_eq_true (Bool.and_eq_true_iff.mp refused).2
      have notFlush : cmd ≠ .flushDb := by
        rintro rfl
        cases scope
      rw [(bookkeeping_limits _ _ _ _).2.2] at policy
      have same : ∀ s' : KeyValueStore, s'.data = (executeInner codec env cmd s).2.1.data →
          s'.evictionPolicy = .noEviction → ∀ evicted : List String,
            (((keys.insertionSort (· ≤ ·)).dedup.map fun key => (key, s.data[key]?)).foldl
              restoreEntry (s'.tryEvictForMemory env evicted).2.1.data) = s.data := by
        intro s' data never evicted
        rw [tryEvictForMemory_noEviction never, data]
        refine Std.ExtTreeMap.ext_getElem? fun k => ?_
        rw [getElem?_restore]
        split_ifs with listed
        · rfl
        · refine executeInner_keeps direct notFlush policy fun mem => listed ?_
          rw [List.mem_dedup, List.mem_insertionSort]
          exact scope_listed scope k mem
      have limits (before after : ℕ) :=
        (executeInner_limits codec env cmd s).trans (.trans (adjustMemory_limits _ before after)
          (syncKeys_limits (keys.insertionSort (· ≤ ·)).dedup _))
      have untouched (before after : ℕ) := same ((keys.insertionSort (· ≤ ·)).dedup.foldl
        .syncKeyMetadata ((executeInner codec env cmd s).2.1.adjustMemory before after)) (by simp)
        ((limits before after).2.2.trans policy)
      exact .untouched (untouched _ _ _)
    · exact finish _ _ (by simp) rfl

/-! ## Which entries a write changes -/

theorem retains_one {key : String} {act : Act} (kept : ∀ l, (act l).1 ≠ .remove) :
    Prog.Retains (Prog.one key act) :=
  ⟨kept, fun _ => trivial⟩

theorem updateAs_ne_remove {α : Type} (k : Kind α) (absent : Value) (f : α → α × Value)
    (l : Option Cell) : (updateAs k absent f l).1 ≠ .remove := by
  unfold updateAs
  split
  · exact nofun
  · split <;> exact nofun

theorem typedEntry_ne_remove {α : Type} (k : Kind α) (default : α) (f : α → α × Value)
    (l : Option Cell) : (typedEntry k default f l).1 ≠ .remove := by
  unfold typedEntry
  split
  · exact nofun
  · split <;> exact nofun

theorem retains_readSets (keys : List String) : (readSets keys).Retains := by
  induction keys with
  | nil => trivial
  | cons key keys ih =>
    refine ⟨fun _ => nofun, fun l => ?_⟩
    cases l with
    | none => exact ih.bind fun _ => trivial
    | some c =>
      dsimp only
      split
      · exact ih.bind fun _ => trivial
      · trivial

theorem retains_combineStore (dst : String) (keys : List String)
    (f : List (Option MemberSet) → MemberSet) : (combineStore dst keys f).Retains := by
  refine (retains_readSets keys).bind fun sets => ?_
  cases sets with
  | error e => trivial
  | ok sets => exact retains_one fun _ => nofun

theorem retains_sMove (src dst member : String) : (sMove src dst member).Retains := by
  refine ⟨fun _ => nofun, fun s => ⟨fun _ => nofun, fun d => ?_⟩⟩
  dsimp only
  split_ifs
  · trivial
  · refine ⟨fun l => updateAs_ne_remove .set nil _ l, fun l => ?_⟩
    dsimp only
    split_ifs
    · exact retains_one fun l => typedEntry_ne_remove _ _ _ l
    · trivial

theorem retains_mSetPairs (pairs : List (String × Bytes)) : (mSetPairs pairs).Retains := by
  induction pairs with
  | nil => trivial
  | cons pair pairs ih => exact ⟨fun _ => nofun, fun _ => ih⟩

theorem jSetAct_ne_remove (path value : String) (l : Option Cell) :
    (jSetAct codec path value l).1 ≠ .remove := by
  unfold jSetAct
  split
  · exact nofun
  · split
    · exact nofun
    · dsimp only
      split_ifs
      · exact nofun
      · exact typedEntry_ne_remove _ _ _ l

/-- `SET` leaves the cell or replaces it, and when it replaces it the reply is no error. -/
theorem setAct_cases (now : ℕ) (val : Bytes) (opts : SetOptions) (l : Option Cell) :
    (setAct now val opts l).1 = .keep ∨
      ∃ c, (setAct now val opts l).1 = .replace c ∧ (setAct now val opts l).2.isError = false := by
  unfold setAct
  dsimp only
  split
  · exact .inl rfl
  · split
    · exact .inl rfl
    · split
      · exact .inl rfl
      · exact .inr ⟨_, rfl, by dsimp only; split <;> rfl⟩

/-- The commands that can take an entry out of the store. -/
def takesEntries : Command → Bool
  | .del _ | .unlink _ | .rename _ _ | .flushDb | .jMerge _ _ => true
  | _ => false

theorem program_retains (codec : Codec) (env : Env) (write : isWriteCommand cmd = true)
    (takes : takesEntries cmd = false) : (program codec env cmd).Retains := by
  cases cmd
  case del | unlink | rename | flushDb | jMerge => cases takes
  case mSet pairs => exact retains_mSetPairs pairs
  case sInterStore dst keys | sUnionStore dst keys | sDiffStore dst keys =>
    exact retains_combineStore dst keys _
  case sMove src dst member => exact retains_sMove src dst member
  case dedup client id inner => trivial
  case decrBy key delta =>
    simp only [program]
    split_ifs
    · trivial
    · exact retains_one fun l => typedEntry_ne_remove _ _ _ l
  case eSet key val | set key val opts =>
    refine retains_one fun l => ?_
    obtain keep | ⟨c, replace, -⟩ := setAct_cases env.now val _ l
    · rw [keep]; rintro ⟨⟩
    · rw [replace]; rintro ⟨⟩
  case jSet key path value => exact retains_one fun l => jSetAct_ne_remove path value l
  case getSet key val =>
    refine retains_one fun l => ?_
    unfold getSetAct
    split
    · rintro ⟨⟩
    · split <;> rintro ⟨⟩
  case rlSet key limit windowSecs =>
    refine retains_one fun l => ?_
    unfold rlSetAct
    dsimp only
    split
    · rintro ⟨⟩
    · split <;> rintro ⟨⟩
  case rlCheck key config =>
    refine retains_one fun l => ?_
    unfold rlCheckAct
    split
    · split <;> rintro ⟨⟩
    · split <;> rintro ⟨⟩
  case setNx key val =>
    refine retains_one fun l => ?_
    cases l <;> rintro ⟨⟩
  case expire | pExpire | expireAt | pExpireAt =>
    refine retains_one fun l => ?_
    cases l <;> rintro ⟨⟩
  case persist key =>
    refine retains_one fun l => ?_
    unfold persistAct
    split <;> rintro ⟨⟩
  case setEx | pSetEx => exact retains_one fun _ => by rintro ⟨⟩
  all_goals first
    | cases (write : false = true)
    | exact retains_one fun l => typedEntry_ne_remove _ _ _ l
    | exact retains_one fun l => updateAs_ne_remove _ _ _ l

theorem run_readSets (now : ℕ) (keys : List String) (d : Data) :
    ((readSets keys).run now d).2 = d := by
  induction keys with
  | nil => rfl
  | cons key keys ih =>
    simp only [readSets, Prog.read, Prog.run, store]
    split
    · rw [Prog.run_bind]
      exact ih
    · split
      · rw [Prog.run_bind]
        exact ih
      · rfl

theorem getElem?_combineStore {now : ℕ} {dst k : String} (hk : k ≠ dst) (keys : List String)
    (f : List (Option MemberSet) → MemberSet) (d : Data) :
    ((combineStore dst keys f).run now d).2[k]? = d[k]? := by
  rw [combineStore, Prog.run_bind, run_readSets]
  cases ((readSets keys).run now d).1 with
  | error e => rfl
  | ok sets => exact getElem?_store_of_ne hk _ _

/-- A write leaves all entries but those of its primary keys as they are. -/
theorem getElem?_run_write (codec : Codec) (env : Env) (write : isWriteCommand cmd = true)
    (notFlush : cmd ≠ .flushDb) (notCheck : ∀ key config, cmd ≠ .rlCheck key config) {k : String}
    (hk : k ∉ primaryKeys cmd) (d : Data) :
    ((program codec env cmd).run env.now d).2[k]? = d[k]? := by
  have frame (listed : k ∉ (commandScope cmd).listed) :=
    Prog.run_frame (program_on codec env notFlush) env.now d listed
  cases cmd
  case flushDb => exact absurd rfl notFlush
  case rlCheck key config => exact absurd rfl (notCheck key config)
  case sInterStore dst keys | sUnionStore dst keys | sDiffStore dst keys =>
    exact getElem?_combineStore (by simpa [primaryKeys] using hk) keys _ d
  case dedup client id inner => rfl
  all_goals first
    | cases (write : false = true)
    | exact frame hk

/-! ## Refused writes -/

variable {v : View}

/-- What a command does before it fails leaves nothing behind: the increment is a signed number, the
key lives or the sum is a number, and `JSET` has created nothing on the way. -/
def FailsClean (codec : Codec) (cmd : Command) (v : View) : Prop :=
  match cmd with
  | .incrBy _ delta | .decrBy _ delta | .hIncrBy _ _ delta => InI64 delta
  | .hIncrByFloat key _ delta | .zIncrBy key delta _ => v key = none →
    ((Binary64.zero.add delta).isNaN || (Binary64.zero.add delta).isInfinite) = false
  | .jSet key path value => ∀ segs val, parseJsonPath path = .ok segs → codec.fromStr value = .ok val →
    match v key with
    | none => (jsonSetAt val segs .null).2 = none ∨ ∃ i rest, segs = .index i :: rest
    | some c => ∀ doc, c.value = .json doc →
      (jsonSetAt val segs doc).2 = none ∨ (jsonSetAt val segs doc).1 = doc
  | _ => True

theorem perform_unchanged {key : String} {act : Act} (one : program codec env cmd = .one key act)
    (live : Lapse.settle env.now (v key) = v key) (same : (act (v key)).1.apply (v key) = v key) :
    (perform codec env cmd v).2 = v := by
  rw [perform_one one, afterAct, same, live, Function.update_eq_self]

theorem refused_updateAs {α : Type} {k : Kind α} {absent : Value} {f : α → α × Value}
    (fixed : ∀ x, (f x).2.isError = true → (f x).1 = x) {l : Option Cell}
    (refused : (updateAs k absent f l).2.isError = true) : (updateAs k absent f l).1.apply l = l :=
  updateAs_unchanged (fun r => !r.isError) (fun x h => fixed x (by simpa using h)) (by simpa using refused)

theorem refused_typedEntry {α : Type} {k : Kind α} {default : α} {f : α → α × Value}
    (fixed : ∀ x, (f x).2.isError = true → (f x).1 = x) {l : Option Cell}
    (fresh : l = none → (f default).2.isError = false)
    (refused : (typedEntry k default f l).2.isError = true) : (typedEntry k default f l).1.apply l = l :=
  typedEntry_unchanged (fun r => !r.isError) (fun x h => fixed x (by simpa using h))
    (fun h => by simpa using fresh h) (by simpa using refused)

theorem refused_setAct {now : ℕ} {val : Bytes} {opts : SetOptions} {l : Option Cell}
    (refused : (setAct now val opts l).2.isError = true) : (setAct now val opts l).1.apply l = l := by
  obtain keep | ⟨c, -, ok⟩ := setAct_cases now val opts l
  · rw [keep]
    rfl
  · rw [ok] at refused
    exact absurd refused nofun

theorem refused_addToNumber {delta : ℤ} {s : Bytes} (refused : (addToNumber delta s).2.isError = true) :
    (addToNumber delta s).1 = s := by
  unfold addToNumber at refused ⊢
  split at refused
  · rfl
  · split at refused
    · rfl
    · exact absurd refused nofun

theorem refused_addToField {field : String} {delta : ℤ} {h : Hash}
    (refused : (addToField field delta h).2.isError = true) : (addToField field delta h).1 = h := by
  unfold addToField at refused ⊢
  split at refused
  · rfl
  · exact absurd refused nofun

theorem refused_addFloatToField {field : String} {delta : Binary64} {h : Hash}
    (refused : (addFloatToField field delta h).2.isError = true) :
    (addFloatToField field delta h).1 = h := by
  unfold addFloatToField at refused ⊢
  dsimp only at refused ⊢
  split_ifs at refused ⊢
  · rfl
  · exact absurd refused nofun

theorem refused_addToScore {delta : Binary64} {member : String} {z : ZSet}
    (refused : (addToScore delta member z).2.isError = true) : (addToScore delta member z).1 = z := by
  unfold addToScore at refused ⊢
  dsimp only at refused ⊢
  split_ifs at refused ⊢
  · rfl
  · exact absurd refused nofun

theorem setInDocument_fst (val : Json) (segs : List JsonPathSeg) (doc : Json) :
    (setInDocument val segs doc).1 = (jsonSetAt val segs doc).1 := by
  unfold setInDocument
  split <;> next eq => rw [eq]

theorem setInDocument_isError (val : Json) (segs : List JsonPathSeg) (doc : Json) :
    (setInDocument val segs doc).2.isError = (jsonSetAt val segs doc).2.isSome := by
  unfold setInDocument
  split <;> next eq => rw [eq]; rfl

theorem refused_jSetAct {key path value : String} (clean : FailsClean codec (.jSet key path value) v)
    (refused : (jSetAct codec path value (v key)).2.isError = true) :
    (jSetAct codec path value (v key)).1.apply (v key) = v key := by
  simp only [FailsClean] at clean
  unfold jSetAct at refused ⊢
  cases parsed : parseJsonPath path with
  | error e => rfl
  | ok segs =>
    cases read : codec.fromStr value with
    | error e => rfl
    | ok val =>
      have fits := clean segs val parsed read
      simp only [parsed, read] at refused ⊢
      generalize v key = l at fits refused ⊢
      cases l with
      | none =>
        obtain fits | ⟨i, rest, rfl⟩ := fits
        · split_ifs at refused ⊢
          · rfl
          · rw [typedEntry, setInDocument_isError, fits] at refused
            cases refused
        · rfl
      | some c =>
        simp only [Option.isNone_some, Bool.false_and, Bool.false_eq_true, if_false] at refused ⊢
        cases document : Kind.json.unwrap c.value with
        | none =>
          rw [typedEntry_other document]
          rfl
        | some doc =>
          rw [typedEntry_held document] at refused ⊢
          obtain set | same := fits doc (Kind.json.unwrap_eq_some.mp document)
          · rw [setInDocument_isError, set] at refused
            cases refused
          · rw [setInDocument_fst, same, ← Kind.json.unwrap_eq_some.mp document]
            rfl

theorem refused_jMergeAct {patch : String} {l : Option Cell}
    (refused : (jMergeAct codec patch l).2.isError = true) :
    (jMergeAct codec patch l).1.apply l = l := by
  unfold jMergeAct at refused ⊢
  split at refused
  · rfl
  · split_ifs at refused ⊢
    · exact absurd refused nofun
    · rfl
    · exact refused_typedEntry (fun _ h => by cases h) (fun _ => rfl) refused

theorem eval_readSets (live : ∀ k, Lapse.settle env.now (v k) = v k) (keys : List String) :
    ((readSets keys).eval env.now v).2 = v := by
  induction keys with
  | nil => rfl
  | cons key keys ih =>
    simp only [readSets, Prog.read, Prog.eval, Effect.apply_keep, live, Function.update_eq_self]
    split
    · rw [Prog.eval_bind]
      exact ih
    · split
      · rw [Prog.eval_bind]
        exact ih
      · rfl

theorem refused_combineStore {dst : String} {keys : List String}
    {f : List (Option MemberSet) → MemberSet} (live : ∀ k, Lapse.settle env.now (v k) = v k)
    (refused : ((combineStore dst keys f).eval env.now v).1.isError = true) :
    ((combineStore dst keys f).eval env.now v).2 = v := by
  rw [combineStore, Prog.eval_bind] at refused ⊢
  cases sets : ((readSets keys).eval env.now v).1 with
  | error e => exact eval_readSets live keys
  | ok sets' =>
    rw [sets] at refused
    cases refused

theorem eval_mSetPairs (now : ℕ) (pairs : List (String × Bytes)) (v : View) :
    ((mSetPairs pairs).eval now v).1 = ok := by
  induction pairs generalizing v with
  | nil => rfl
  | cons pair pairs ih => exact ih _

theorem holds_updateAs {α : Type} {k : Kind α} {absent : Value} {f : α → α × Value} {now : ℕ}
    {l : Option Cell} (holds : Holds k l) :
    Holds k (Lapse.settle now ((updateAs k absent f l).1.apply l)) := by
  intro c hc
  obtain ⟨hc, -⟩ := Lapse.settle_eq_some.mp hc
  cases l with
  | none => cases hc
  | some c' =>
    obtain ⟨x, hx⟩ := Option.isSome_iff_exists.mp (holds c' rfl)
    rw [updateAs_held hx, Effect.apply_modify] at hc
    rw [← Option.some.inj hc]
    simp

theorem holds_set_iff {l : Option Cell} : Holds .set l ↔ notSet l = false := by
  cases l with
  | none => exact iff_of_true nofun rfl
  | some c =>
    cases kind : Kind.set.unwrap c.value <;> simp [Holds, notSet, kind]

theorem refused_sMove {src dst member : String} (live : ∀ k, Lapse.settle env.now (v k) = v k)
    (refused : ((sMove src dst member).eval env.now v).1.isError = true) :
    ((sMove src dst member).eval env.now v).2 = v := by
  have keep : ∀ k, Function.update v k (Lapse.settle env.now (Effect.keep.apply (v k))) = v := fun k => by
    rw [Effect.apply_keep, live, Function.update_eq_self]
  simp only [sMove, Prog.read, Prog.eval, keep] at refused ⊢
  by_cases kinds : notSet (v src) || notSet (v dst)
  · rw [if_pos kinds, Prog.eval_done]
  · simp only [if_neg kinds, Prog.eval] at refused
    rw [Bool.or_eq_true, not_or, Bool.not_eq_true, Bool.not_eq_true, ← holds_set_iff,
      ← holds_set_iff] at kinds
    split at refused
    · have holds : Holds .set (Function.update v src (Lapse.settle env.now
          ((updateAs .set nil (fun s => (s.erase member, nil)) (v src)).1.apply (v src))) dst) := by
        by_cases same : dst = src
        · subst same
          rw [Function.update_self]
          exact holds_updateAs kinds.1
        · rw [Function.update_of_ne same]
          exact kinds.2
      rw [Prog.eval_one, (typedEntry_apply holds _ _).2] at refused
      cases refused
    · cases refused

theorem refused_getSetAct {val : Bytes} {l : Option Cell}
    (refused : (getSetAct val l).2.isError = true) : (getSetAct val l).1.apply l = l := by
  cases l with
  | none => cases refused
  | some c =>
    obtain ⟨value, exp⟩ := c
    cases value <;> first | rfl | cases refused

theorem refused_rlSetAct {limit windowSecs : ℕ} {l : Option Cell}
    (refused : (rlSetAct limit windowSecs l).2.isError = true) :
    (rlSetAct limit windowSecs l).1.apply l = l := by
  unfold rlSetAct at refused ⊢
  cases l with
  | none => cases refused
  | some c =>
    cases kind : Kind.rateLimiter.unwrap c.value with
    | none => simp [kind]
    | some rl =>
      simp only [kind] at refused
      cases refused

theorem refused_rlCheckAct {now : ℕ} {key : String} {config : Option (ℕ × ℕ)} {l : Option Cell}
    (refused : (rlCheckAct now key config l).2.isError = true) :
    (rlCheckAct now key config l).1.apply l = l := by
  unfold rlCheckAct at refused ⊢
  cases l with
  | none =>
    cases config with
    | none => rfl
    | some p => cases refused
  | some c =>
    cases kind : Kind.rateLimiter.unwrap c.value with
    | none => simp [kind]
    | some rl =>
      simp only [kind] at refused
      cases config <;> cases refused

theorem checkedAdd_zero {delta : ℤ} (h : InI64 delta) : checkedAdd 0 delta = some delta := by
  unfold InI64 at h
  simp [checkedAdd, h.1, h.2]

theorem InI64.neg {delta : ℤ} (h : InI64 delta) (notSmallest : delta ≠ Decimal.i64Min) :
    InI64 (-delta) := by
  unfold InI64 Decimal.i64Min Decimal.i64Max at *
  omega

theorem addToNumber_zero {delta : ℤ} (h : InI64 delta) :
    (addToNumber delta (asBytes "0")).2.isError = false := by
  have zero : Decimal.parseI64 (asBytes "0") = some 0 := by decide
  rw [addToNumber, zero]
  simp [checkedAdd_zero h, Value.isError]

theorem addToField_empty {field : String} {delta : ℤ} (h : InI64 delta) :
    (addToField field delta ∅).2.isError = false := by
  simp [addToField, checkedAdd_zero h, Value.isError]

theorem zAddExec_ok (z : ZSet) (opts : ZAddOptions) (pairs : List (Binary64 × String)) :
    (zAddExec z opts pairs).2.isError = false := by
  unfold zAddExec
  split
  · split <;> rfl
  · rfl

/-- A refused write leaves the view as it was. -/
theorem refused_unchanged (live : ∀ k, Lapse.settle env.now (v k) = v k)
    (write : isWriteCommand cmd = true) (clean : FailsClean codec cmd v)
    (refused : (perform codec env cmd v).1.isError = true) : (perform codec env cmd v).2 = v := by
  have one {key : String} {act : Act} (one : program codec env cmd = .one key act)
      (same : (act (v key)).2.isError = true → (act (v key)).1.apply (v key) = v key) :
      (perform codec env cmd v).2 = v := by
    refine perform_unchanged one (live key) (same ?_)
    rwa [perform_one one] at refused
  cases cmd
  case eSet key val | set key val opts => exact one rfl refused_setAct
  case getSet key val => exact one rfl refused_getSetAct
  case jSet key path value => exact one rfl (refused_jSetAct clean)
  case jMerge key patch => exact one rfl refused_jMergeAct
  case rlSet key limit windowSecs => exact one rfl refused_rlSetAct
  case rlCheck key config => exact one rfl refused_rlCheckAct
  case sInterStore dst keys | sUnionStore dst keys | sDiffStore dst keys =>
    exact refused_combineStore live refused
  case sMove src dst member => exact refused_sMove live refused
  case mSet pairs =>
    rw [perform, program, eval_mSetPairs] at refused
    cases refused
  case del keys | unlink keys =>
    rw [perform, program, Prog.eval_bind] at refused
    cases refused
  case flushDb => cases refused
  case rename src dst =>
    simp only [perform, program, Prog.eval] at refused ⊢
    split at refused
    · rfl
    · cases refused
  case incr key | decr key =>
    exact one rfl (refused_typedEntry (fun _ => refused_addToNumber) fun _ => rfl)
  case incrBy key delta =>
    exact one rfl (refused_typedEntry (fun _ => refused_addToNumber) fun _ => addToNumber_zero clean)
  case decrBy key delta =>
    by_cases smallest : delta = Decimal.i64Min
    · rw [perform, program, if_pos smallest]
      rfl
    · refine one (if_neg smallest) (refused_typedEntry (fun _ => refused_addToNumber) fun _ => ?_)
      exact addToNumber_zero (clean.neg smallest)
  case hIncrBy key field delta =>
    exact one rfl (refused_typedEntry (fun _ => refused_addToField) fun _ => addToField_empty clean)
  case hIncrByFloat key field delta =>
    refine one rfl (refused_typedEntry (fun _ => refused_addFloatToField) fun fresh => ?_)
    simp [addFloatToField, clean fresh, blob, Value.isError]
  case zIncrBy key delta member =>
    refine one rfl (refused_typedEntry (fun _ => refused_addToScore) fun fresh => ?_)
    simp [addToScore, clean fresh, blob, Value.isError]
  case setNx key val =>
    refine one rfl fun refused => ?_
    cases l : v key with
    | none => rw [l] at refused; cases refused
    | some c => rfl
  case expire | pExpire | expireAt | pExpireAt =>
    refine one rfl fun refused => ?_
    generalize v _ = l at refused ⊢
    cases l <;> cases refused
  case persist key =>
    refine one rfl fun refused => ?_
    unfold persistAct at refused ⊢
    split at refused <;> cases refused
  case setEx | pSetEx => cases refused
  case dedup => rfl
  case lSet key idx val =>
    refine one rfl (refused_updateAs fun l refused => ?_)
    split at refused
    · rfl
    · cases refused
  case append key suffix => exact one rfl (refused_typedEntry (fun _ h => by cases h) fun _ => rfl)
  case hSet key pairs => exact one rfl (refused_typedEntry (fun _ h => by cases h) fun _ => rfl)
  case hSetNx key field val =>
    have never (h : Hash) : (if h.contains field then (h, Value.integer 0)
        else (h.insert field val, .integer 1)).2.isError = false := by
      split <;> rfl
    exact one rfl (refused_typedEntry (fun h refused => by rw [never h] at refused; cases refused)
      fun _ => never ∅)
  case lPush key vals | rPush key vals =>
    exact one rfl (refused_typedEntry (fun _ h => by cases h) fun _ => rfl)
  case sAdd key members => exact one rfl (refused_typedEntry (fun _ h => by cases h) fun _ => rfl)
  case zAdd key opts pairs =>
    have never (z : ZSet) := zAddExec_ok z opts pairs
    exact one rfl (refused_typedEntry (fun z refused => by rw [never z] at refused; cases refused)
      fun _ => never ∅)
  case lPop key count =>
    refine one rfl (refused_updateAs fun l refused => ?_)
    cases count <;> cases refused
  case rPop key count =>
    refine one rfl (refused_updateAs fun l refused => ?_)
    cases count <;> cases refused
  case sPop key count =>
    refine one rfl (refused_updateAs fun s refused => ?_)
    cases count <;> cases refused
  -- the others change a value of one kind in place and do not fail on it
  all_goals first
    | cases (write : false = true)
    | exact one rfl (refused_updateAs fun _ h => by cases h)

/-! ## Writes that are not propagated -/

/-- The value of a key, recorded attempts left aside. -/
def shown (l : Option Cell) : Option EntryValue := l.map fun c => c.value.config

theorem shown_of_config {l l' : Option Cell} (h : config l = config l') : shown l = shown l' := by
  have := congrArg (Option.map Lapse.Cell.value) h
  simpa [config, shown, Function.comp_def] using this

/-- A check that counts an attempt and leaves the limits of the key as they are. -/
def OnlyCounts (now : ℕ) (config : Option (ℕ × ℕ)) : Option Cell → Prop
  | none => ∀ p ∈ config, satAdd now (satMul p.2 1000) ≤ now
  | some c => ∀ rl, c.value = .rateLimiter rl →
    (∀ p ∈ config, rl.limit = p.1 ∧ rl.windowMs = satMul p.2 1000) ∧
      (c.expiresAtMs.isSome = true → now < satAdd now rl.windowMs)

/-- The commands that can change a value without a frame leave it alone: `SADD` has members or a set
is there, a command that fails has created nothing, and `RLCHECK` only counts. -/
def LeavesValues (codec : Codec) (env : Env) (cmd : Command) (v : View) : Prop :=
  match cmd with
  | .sAdd key members => members = [] → (v key).isSome
  | .rlCheck key config => OnlyCounts env.now config (v key)
  | .zIncrBy _ _ _ => True
  | cmd => FailsClean codec cmd v

theorem shown_attempt {now : ℕ} {rl : RateLimiter} {exp : Option ℕ}
    (alive : exp.isSome = true → now < satAdd now rl.windowMs) :
    shown (Lapse.settle now (some (rlAttempt now rl exp).1)) =
      some (EntryValue.rateLimiter rl).config := by
  have kept : config (Lapse.settle now (some (rlAttempt now rl exp).1)) =
      some ⟨(EntryValue.rateLimiter rl).config, exp.map fun _ => satAdd now rl.windowMs⟩ := by
    rw [config_settle, rlAttempt_config, Lapse.settle_eq_some]
    refine ⟨rfl, ?_⟩
    cases exp with
    | none => rfl
    | some d => simpa [Lapse.Cell.isExpired] using alive rfl
  have := congrArg (Option.map Lapse.Cell.value) kept
  simpa [config, shown, Function.comp_def] using this

theorem shown_rlCheck (key : String) {cfg : Option (ℕ × ℕ)} {l : Option Cell} {now : ℕ}
    (live : Lapse.settle now l = l) (only : OnlyCounts now cfg l) :
    shown (afterAct now (rlCheckAct now key cfg) l) = shown l := by
  cases l with
  | none =>
    cases cfg with
    | none => rfl
    | some p =>
      have lapsed : satAdd now (satMul p.2 1000) ≤ now := only p rfl
      have gone : Lapse.settle now (some (rlAttempt now { limit := p.1, windowMs := satMul p.2 1000 }
          (some (satAdd now (satMul p.2 1000)))).1) = none := by
        simp only [Lapse.settle, Option.filter_some]
        rw [if_neg]
        simpa [Lapse.Cell.isExpired, rlAttempt] using lapsed
      exact congrArg shown gone
  | some c =>
    obtain ⟨value, exp⟩ := c
    cases value
    case rateLimiter rl =>
      obtain ⟨same, alive⟩ := only rl rfl
      cases cfg with
      | none => exact shown_attempt alive
      | some p =>
        obtain ⟨limit, window⟩ := same p rfl
        have alive' : exp.isSome = true → now < satAdd now (satMul p.2 1000) := window ▸ alive
        have attempt := @shown_attempt now { rl with limit := p.1, windowMs := satMul p.2 1000 } exp
        refine (attempt alive').trans ?_
        simp [shown, EntryValue.config, limit, window]
    all_goals
      rw [afterAct]
      exact congrArg shown live

theorem outcome_eq_none (silent : broadcastFor cmd (perform codec env cmd v).1 env.now = none)
    (text : ReplyIsText cmd (perform codec env cmd v).1) : outcome codec env cmd v = none := by
  rw [broadcastFor_eq text, Option.map_eq_none_iff] at silent
  exact silent

/-- A write that is not propagated has lost nothing, unless it is an `SADD` that creates a set. -/
theorem kept_of_silent (silent : outcome codec env cmd v = none)
    (notCheck : ∀ key config, cmd ≠ .rlCheck key config)
    (members : ∀ key, cmd = .sAdd key [] → (v key).isSome = true) : Kept env cmd v := by
  cases cmd
  case sAdd key ms =>
    intro none
    exact members key (by rw [none])
  case rlCheck key config => exact absurd rfl (notCheck key config)
  case set key val opts =>
    intro get
    simp [outcome, absolute, when, get] at silent
  case zAdd | zIncrBy => cases silent
  all_goals trivial

/-- A write without a frame leaves every value as it was. -/
theorem shown_of_silent (live : ∀ k, Lapse.settle env.now (v k) = v k)
    (write : isWriteCommand cmd = true) (leaves : LeavesValues codec env cmd v)
    (silent : outcome codec env cmd v = none) (k : String) :
    shown ((perform codec env cmd v).2 k) = shown (v k) := by
  by_cases check : ∃ key config, cmd = .rlCheck key config
  · obtain ⟨key, config, rfl⟩ := check
    rw [perform_one rfl]
    dsimp only
    by_cases same : k = key
    · subst same
      rw [Function.update_self]
      exact shown_rlCheck k (live k) leaves
    · rw [Function.update_of_ne same]
  · have notCheck : ∀ key config, cmd ≠ .rlCheck key config := fun key config eq => check ⟨key, config, eq⟩
    cases failed : (perform codec env cmd v).1.isError with
    | false =>
      have members : ∀ key, cmd = .sAdd key [] → (v key).isSome = true := by
        rintro key rfl
        exact leaves rfl
      have mirrored := (mirrored_iff live write failed).mpr (kept_of_silent silent notCheck members)
      exact shown_of_config ((mirrored_none silent).mp mirrored k)
    | true =>
      have clean : FailsClean codec cmd v := by
        cases cmd
        case zIncrBy => cases silent
        all_goals first
          | exact leaves
          | trivial
      rw [refused_unchanged live write clean failed]

/-! ## Which keys a write changes -/

/-- The live value of the key changes, or its lapsed entry is taken out of the store. -/
def Changed (now : ℕ) (d d' : Data) (k : String) : Prop :=
  shown (Lapse.live now d k) ≠ shown (Lapse.live now d' k) ∨ k ∈ d ∧ k ∉ d'

theorem not_changed_of_getElem? {now : ℕ} {d d' : Data} {k : String} (same : d'[k]? = d[k]?) :
    ¬Changed now d d' k := by
  rintro (value | ⟨before, after⟩)
  · exact value (by rw [Lapse.live, Lapse.live, same])
  · rw [Std.ExtTreeMap.mem_iff_isSome_getElem?] at before after
    exact after (same ▸ before)

/-- `RENAME` finds its source alive or not at all. -/
def RenamesLive (cmd : Command) (now : ℕ) (d : Data) : Prop :=
  ∀ src dst, cmd = .rename src dst → src ∈ d → (Lapse.live now d src).isSome = true

theorem leavesValues_without {pre : List String}
    (capped : pre ≠ [] → (cappedKey cmd).isSome = true ∨ ∃ pairs, cmd = .mSet pairs)
    (leaves : LeavesValues codec env cmd v) : LeavesValues codec env cmd (without pre v) := by
  by_cases none : pre = []
  · rw [none, without_nil]
    exact leaves
  · obtain one | ⟨pairs, rfl⟩ := capped none
    · cases cmd <;> first | cases (one : false = true) | trivial
    · trivial

theorem renamesLive_dropped {pre : List String} {now : ℕ} {d : Data}
    (capped : pre ≠ [] → (cappedKey cmd).isSome = true ∨ ∃ pairs, cmd = .mSet pairs)
    (renames : RenamesLive cmd now d) : RenamesLive cmd now (dropped pre d) := by
  by_cases none : pre = []
  · rw [none]
    exact renames
  · rintro src dst rfl
    obtain one | ⟨pairs, eq⟩ := capped none
    · cases one
    · cases eq

theorem jMergeAct_remove {patch : String} {l : Option Cell}
    (remove : (jMergeAct codec patch l).1 = .remove) : isSimple (jMergeAct codec patch l).2 = true := by
  unfold jMergeAct at remove ⊢
  split at remove
  · cases remove
  · split_ifs at remove ⊢
    · rfl
    · exact absurd remove (typedEntry_ne_remove _ _ _ l)

/-- A write without a frame takes no entry out of the store, a lapsed source of `RENAME` apart. -/
theorem mem_run_of_silent {d : Data} (write : isWriteCommand cmd = true)
    (renames : RenamesLive cmd env.now d)
    (silent : outcome codec env cmd (Lapse.live env.now d) = none) {k : String} (hk : k ∈ d) :
    k ∈ ((program codec env cmd).run env.now d).2 := by
  cases takes : takesEntries cmd with
  | false => exact Prog.mem_run (program_retains codec env write takes) env.now hk
  | true =>
    cases cmd
    case del | unlink | flushDb => cases silent
    case jMerge key patch =>
      refine mem_store (fun remove => ?_) hk
      have simple : isSimple (jMergeAct codec patch (Lapse.live env.now d key)).2 = true :=
        jMergeAct_remove remove
      have form : outcome codec env (.jMerge key patch) (Lapse.live env.now d) =
          when (isSimple (jMergeAct codec patch (Lapse.live env.now d key)).2) (.jMerge key patch) := rfl
      rw [form, simple] at silent
      cases silent
    case rename src dst =>
      cases found : Lapse.live env.now d src with
      | some c =>
        simp [outcome, absolute, when, perform, program, Prog.eval, found, ok, Value.isError] at silent
      | none =>
        have absent : d[src]? = none := by
          by_contra there
          have alive := renames src dst rfl (Std.ExtTreeMap.mem_iff_isSome_getElem?.mpr
            (Option.isSome_iff_ne_none.mpr there))
          rw [found] at alive
          cases alive
        simp only [program, Prog.run, move, absent]
        exact hk
    all_goals cases takes

/-- A command without a frame changes no key, and another changes its primary keys alone. -/
theorem run_changes {d : Data} (write : isWriteCommand cmd = true)
    (leaves : LeavesValues codec env cmd (Lapse.live env.now d)) (renames : RenamesLive cmd env.now d)
    {k : String} (changed : Changed env.now d ((program codec env cmd).run env.now d).2 k) :
    broadcastFor cmd ((program codec env cmd).run env.now d).1 env.now ≠ none ∧
      (cmd = .flushDb ∨ k ∈ primaryKeys cmd) := by
  have reply : ((program codec env cmd).run env.now d).1 = (perform codec env cmd (Lapse.live env.now d)).1 :=
    Prog.run_fst ..
  have after : Lapse.live env.now ((program codec env cmd).run env.now d).2 =
      (perform codec env cmd (Lapse.live env.now d)).2 := live_run ..
  have framed : broadcastFor cmd ((program codec env cmd).run env.now d).1 env.now ≠ none := by
    intro silent
    have form : outcome codec env cmd (Lapse.live env.now d) = none :=
      outcome_eq_none (reply ▸ silent) (reply ▸ replyIsText_run codec env cmd d)
    obtain value | ⟨before, gone⟩ := changed
    · rw [after, shown_of_silent (fun k => Lapse.settle_live _ _ k) write leaves form k] at value
      exact value rfl
    · exact gone (mem_run_of_silent write renames form before)
  refine ⟨framed, ?_⟩
  by_contra other
  obtain ⟨notFlush, notPrimary⟩ := not_or.mp other
  have notCheck : ∀ key config, cmd ≠ .rlCheck key config := by
    rintro key config rfl
    exact framed rfl
  exact not_changed_of_getElem? (getElem?_run_write codec env write notFlush notCheck notPrimary d) changed

theorem Changed.congr {now : ℕ} {d₁ d₁' d₂ d₂' : Data} {k : String} (before : d₂[k]? = d₁[k]?)
    (after : d₂'[k]? = d₁'[k]?) (changed : Changed now d₁ d₁' k) : Changed now d₂ d₂' k := by
  simpa only [Changed, Lapse.live, Std.ExtTreeMap.mem_iff_isSome_getElem?, before, after] using changed

/-- A key that is no victim has the entry it had, or the one with which the program left it; the
program has run unless the reply is an error. -/
theorem Fares.spared {d d' : Data} {reply : Value} {victims : List String} {k : String}
    (fares : Fares codec env cmd d reply d' victims) (spared : k ∉ victims) :
    reply.isError = true ∧ d'[k]? = d[k]? ∨ ∃ pre, (pre ≠ [] → (cappedKey cmd).isSome = true ∨ ∃ pairs, cmd = .mSet pairs) ∧
      reply = ((program codec env cmd).run env.now (dropped pre d)).1 ∧
      (dropped pre d)[k]? = d[k]? ∧
      d'[k]? = ((program codec env cmd).run env.now (dropped pre d)).2[k]? := by
  cases fares with
  | full => exact .inl ⟨rfl, getElem?_dropped _ _ spared⟩
  | outOfMemory => exact .inl ⟨rfl, rfl⟩
  | ran pre post capped =>
    obtain ⟨before, behind⟩ := not_or.mp (List.mem_append.not.mp spared)
    exact .inr ⟨pre, capped, rfl, getElem?_dropped pre _ before, getElem?_dropped post _ behind⟩

/-- Every key that a write changes is a victim of its evictions, or is propagated with it. -/
theorem executeReporting_changes (codec : Codec) (env : Env) {s : KeyValueStore}
    (write : isWriteCommand cmd = true) (leaves : LeavesValues codec env cmd (s.live env.now))
    (renames : RenamesLive cmd env.now s.data) {k : String}
    (changed : Changed env.now s.data (executeReporting codec env cmd s).2.1.data k) :
    k ∈ (executeReporting codec env cmd s).2.2 ∨
      broadcastFor cmd (executeReporting codec env cmd s).1 env.now ≠ none ∧
        (cmd = .flushDb ∨ k ∈ primaryKeys cmd) := by
  refine or_iff_not_imp_left.mpr fun spared => ?_
  obtain ⟨-, same⟩ | ⟨pre, capped, reply, before, after⟩ :=
    (executeReporting_fares codec env s (direct_of_write write)).spared spared
  · exact absurd changed (not_changed_of_getElem? same)
  · rw [reply]
    refine run_changes write ?_ (renamesLive_dropped capped renames) (changed.congr before after.symm)
    rw [dropped, live_foldl_erase]
    exact leavesValues_without capped leaves

/-- A key to which a successful write gives another live value or deadline is propagated with it. -/
theorem run_rewrites {d : Data} {k : String} (write : isWriteCommand cmd = true)
    (notCheck : ∀ key config, cmd ≠ .rlCheck key config)
    (members : cmd = .sAdd k [] → (Lapse.live env.now d k).isSome = true)
    (succeeds : ((program codec env cmd).run env.now d).1.isError = false)
    (rewritten : config (Lapse.live env.now d k) ≠
      config (Lapse.live env.now ((program codec env cmd).run env.now d).2 k)) :
    broadcastFor cmd ((program codec env cmd).run env.now d).1 env.now ≠ none ∧
      (cmd = .flushDb ∨ k ∈ primaryKeys cmd) := by
  have reply : ((program codec env cmd).run env.now d).1 = (perform codec env cmd (Lapse.live env.now d)).1 :=
    Prog.run_fst ..
  have after : Lapse.live env.now ((program codec env cmd).run env.now d).2 =
      (perform codec env cmd (Lapse.live env.now d)).2 := live_run ..
  have concerned : cmd = .flushDb ∨ k ∈ primaryKeys cmd := by
    by_contra other
    obtain ⟨notFlush, notPrimary⟩ := not_or.mp other
    rw [Lapse.live, Lapse.live, getElem?_run_write codec env write notFlush notCheck notPrimary] at rewritten
    exact rewritten rfl
  refine ⟨fun silent => ?_, concerned⟩
  have form : outcome codec env cmd (Lapse.live env.now d) = none :=
    outcome_eq_none (reply ▸ silent) (reply ▸ replyIsText_run codec env cmd d)
  have kept := kept_of_silent form notCheck fun key eq => by
    obtain rfl : k = key := by simpa [eq, primaryKeys] using concerned
    exact members eq
  have mirrored := (mirrored_iff (fun k => Lapse.settle_live _ _ k) write (reply ▸ succeeds)).mpr kept
  rw [after] at rewritten
  exact rewritten ((mirrored_none form).mp mirrored k).symm

/-- Every key to which a successful write gives another live value or deadline is a victim of its
evictions, or is propagated with it. -/
theorem executeReporting_rewrites (codec : Codec) (env : Env) {s : KeyValueStore} {k : String}
    (write : isWriteCommand cmd = true) (notCheck : ∀ key config, cmd ≠ .rlCheck key config)
    (members : cmd = .sAdd k [] → (s.live env.now k).isSome = true)
    (succeeds : (executeReporting codec env cmd s).1.isError = false)
    (rewritten : config (s.live env.now k) ≠ config ((executeReporting codec env cmd s).2.1.live env.now k)) :
    k ∈ (executeReporting codec env cmd s).2.2 ∨
      broadcastFor cmd (executeReporting codec env cmd s).1 env.now ≠ none ∧
        (cmd = .flushDb ∨ k ∈ primaryKeys cmd) := by
  simp only [KeyValueStore.live, Lapse.live] at rewritten members
  refine or_iff_not_imp_left.mpr fun spared => ?_
  obtain ⟨-, same⟩ | ⟨pre, -, reply, before, after⟩ :=
    (executeReporting_fares codec env s (direct_of_write write)).spared spared
  · rw [same] at rewritten
    exact absurd rfl rewritten
  · rw [reply] at succeeds ⊢
    rw [← before, after] at rewritten
    rw [← before] at members
    exact run_rewrites write notCheck members succeeds rewritten

end Recached
