import Recached.Bookkeeping

/-!
# Commands that answer an error

A failed command may still have evicted keys, before it fails or in the evictions that follow every
write, and a few commands create something before they fail.  Without both the live view is what it
was.
-/

namespace Recached

open Text Lapse KeyValueStore

variable {codec : Codec} {env : Env} {cmd : Command} {s : KeyValueStore} {v : View}

/-! ## What a failing command leaves behind -/

/-- If it fails, the command leaves something behind: an increment creates its key before it fails, and
`JSET` creates what is missing on its path. -/
def LeavesTrace (codec : Codec) (cmd : Command) (v : View) : Prop :=
  match cmd with
  | .incrBy key _ | .decrBy key _ | .hIncrBy key _ _ => v key = none ∧ ¬FailsClean codec cmd v
  | cmd => ¬FailsClean codec cmd v

theorem afterAct_typedEntry_none {α : Type} (now : ℕ) (k : Kind α) (default : α) (f : α → α × Value) :
    afterAct now (typedEntry k default f) none ≠ none := nofun

theorem jSetAct_trace {key path value : String} {now : ℕ}
    (trace : LeavesTrace codec (.jSet key path value) v) :
    afterAct now (jSetAct codec path value) (v key) ≠ v key := by
  simp only [LeavesTrace, FailsClean, not_forall] at trace
  obtain ⟨segs, val, parsed, read, unfit⟩ := trace
  unfold afterAct jSetAct
  simp only [parsed, read]
  cases held : v key with
  | none =>
    rw [held] at unfit
    obtain ⟨-, notIndex⟩ := not_or.mp unfit
    split_ifs with leading
    · rw [Option.isNone_none, Bool.true_and] at leading
      cases segs with
      | nil => cases leading
      | cons seg rest =>
        cases seg with
        | field name => cases leading
        | index i => exact absurd ⟨i, rest, rfl⟩ notIndex
    · exact afterAct_typedEntry_none now .json .null (setInDocument val segs)
  | some c =>
    rw [held] at unfit
    simp only [not_forall] at unfit
    obtain ⟨doc, document, both⟩ := unfit
    obtain ⟨-, moved⟩ := not_or.mp both
    have unwrapped := Kind.json.unwrap_eq_some.mpr document
    simp only [Option.isNone_some, Bool.false_and, Bool.false_eq_true, if_false]
    rw [typedEntry_held unwrapped, setInDocument_fst]
    intro same
    obtain ⟨same, -⟩ := Lapse.settle_eq_some.mp same
    have value := congrArg Lapse.Cell.value (Option.some.inj same)
    rw [document] at value
    exact moved (EntryValue.json.inj value)

/-- A command that leaves a trace changes its key, and no other. -/
theorem LeavesTrace.changes (trace : LeavesTrace codec cmd v) :
    ∃ key, primaryKeys cmd = [key] ∧ (perform codec env cmd v).2 key ≠ v key ∧
      ∀ k ≠ key, (perform codec env cmd v).2 k = v k := by
  have one {key : String} {act : Act} (one : program codec env cmd = .one key act)
      (moved : afterAct env.now act (v key) ≠ v key) : (perform codec env cmd v).2 key ≠ v key ∧
        ∀ k ≠ key, (perform codec env cmd v).2 k = v k := by
    rw [perform_one one]
    refine ⟨?_, fun k other => Function.update_of_ne other ..⟩
    dsimp only
    rwa [Function.update_self]
  have creates {key : String} {α : Type} {k : Kind α} {default : α} {f : α → α × Value}
      (is : program codec env cmd = .one key (typedEntry k default f)) (absent : v key = none) :=
    one is (by rw [absent]; exact afterAct_typedEntry_none env.now k default f)
  cases cmd
  case incrBy key delta => exact ⟨key, rfl, creates rfl trace.1⟩
  case hIncrBy key field delta => exact ⟨key, rfl, creates rfl trace.1⟩
  case decrBy key delta =>
    refine ⟨key, rfl, creates (if_neg fun smallest => trace.2 ?_) trace.1⟩
    rw [smallest, FailsClean]
    decide
  case hIncrByFloat key field delta =>
    exact ⟨key, rfl, creates rfl (Classical.not_imp.mp trace).1⟩
  case zIncrBy key delta member => exact ⟨key, rfl, creates rfl (Classical.not_imp.mp trace).1⟩
  case jSet key path value => exact ⟨key, rfl, one rfl (jSetAct_trace trace)⟩
  all_goals exact absurd trivial trace

theorem refused_unchanged_of_no_trace (live : ∀ k, Lapse.settle env.now (v k) = v k)
    (write : isWriteCommand cmd = true) (none : ¬LeavesTrace codec cmd v)
    (refused : (perform codec env cmd v).1.isError = true) : (perform codec env cmd v).2 = v := by
  by_cases clean : FailsClean codec cmd v
  · exact refused_unchanged live write clean refused
  · have one {key : String} {act : Act} (one : program codec env cmd = .one key act)
        (same : (act (v key)).2.isError = true → (act (v key)).1.apply (v key) = v key) :
        (perform codec env cmd v).2 = v := by
      refine perform_unchanged one (live key) (same ?_)
      rwa [perform_one one] at refused
    -- an increment of a key that lives changes nothing before it fails
    cases cmd
    case incrBy key delta =>
      refine one rfl (refused_typedEntry (fun _ => refused_addToNumber) fun absent => ?_)
      exact absurd ⟨absent, clean⟩ none
    case decrBy key delta =>
      by_cases smallest : delta = Decimal.i64Min
      · rw [perform, program, if_pos smallest]
        rfl
      · refine one (if_neg smallest) (refused_typedEntry (fun _ => refused_addToNumber) fun absent => ?_)
        exact absurd ⟨absent, clean⟩ none
    case hIncrBy key field delta =>
      refine one rfl (refused_typedEntry (fun _ => refused_addToField) fun absent => ?_)
      exact absurd ⟨absent, clean⟩ none
    all_goals exact absurd clean none

/-! ## What is evicted around a command -/

/-- The entries after a command is carried out or finds no room. -/
def carriedOut (codec : Codec) (env : Env) (cmd : Command) (s : KeyValueStore) : Data :=
  if (makeRoom env cmd s).1 then ((program codec env cmd).run env.now (makeRoom env cmd s).2.1.data).2
  else (makeRoom env cmd s).2.1.data

/-- The store that the evictions after a command start from. -/
def beforeEvictions (codec : Codec) (env : Env) (cmd : Command) (s : KeyValueStore) : KeyValueStore :=
  match mutationScope cmd with
  | .readOnly => s
  | .all => ({ s with data := carriedOut codec env cmd s }).rebuildMetadata env.now
  | .keys _ => (makeRoom env cmd s).2.1.commit (scopeKeys cmd) (footprint (scopeKeys cmd) s.data)
      (carriedOut codec env cmd s)

/-- The keys evicted to make room for a command, and those that the evictions after it take. -/
def evictedAround (codec : Codec) (env : Env) (cmd : Command) (s : KeyValueStore) : List String :=
  match mutationScope cmd with
  | .readOnly => []
  | _ => ((beforeEvictions codec env cmd s).tryEvictForMemory env (makeRoom env cmd s).2.2).2.2

theorem executeInner_of_keys {keys : List String} (scope : mutationScope cmd = .keys keys) :
    ∃ reply, executeInner codec env cmd s = (reply,
      { (makeRoom env cmd s).2.1 with data := carriedOut codec env cmd s }, (makeRoom env cmd s).2.2) := by
  have direct := direct_of_keys scope
  unfold carriedOut
  cases room : makeRoom env cmd s with
  | mk made rest =>
    obtain ⟨s₁, pre⟩ := rest
    cases made with
    | false => exact ⟨_, executeInner_of_no_room codec direct room⟩
    | true => exact ⟨_, executeInner_of_room codec direct room⟩

theorem executeReporting_of_keys {keys : List String} (scope : mutationScope cmd = .keys keys)
    (fits : ¬Outgrows codec env cmd s) :
    (executeReporting codec env cmd s).2 =
      ((beforeEvictions codec env cmd s).tryEvictForMemory env (makeRoom env cmd s).2.2).2 := by
  obtain ⟨reply, inner⟩ := @executeInner_of_keys codec env cmd s keys scope
  have limits := makeRoom_limits env cmd s
  have start : beforeEvictions codec env cmd s = (makeRoom env cmd s).2.1.commit (scopeKeys cmd)
      (footprint (scopeKeys cmd) s.data) (carriedOut codec env cmd s) := by
    rw [beforeEvictions, scope]
  have kept : ¬((beforeEvictions codec env cmd s).evictionPolicy = .noEviction ∧
      s.memoryBytes < (beforeEvictions codec env cmd s).memoryBytes ∧
        ∃ limit ∈ (beforeEvictions codec env cmd s).maxMemoryBytes,
          limit < (beforeEvictions codec env cmd s).memoryBytes) := by
    rintro ⟨policy, grown, past⟩
    rw [start, (commit_limits ..).2.2, limits.2.2] at policy
    have same : (makeRoom env cmd s).2.1 = s := congrArg Prod.fst (makeRoom_noEviction policy)
    rw [start, carriedOut, same] at grown past
    cases made : (makeRoom env cmd s).1 with
    | false =>
      rw [made, if_neg Bool.false_ne_true, commit_memory] at grown
      omega
    | true =>
      rw [made, if_pos rfl] at grown past
      rw [(commit_limits ..).2.1] at past
      exact fits ⟨policy, made, grown, past⟩
  rw [← @takenBack_iff env _ s.memoryBytes (makeRoom env cmd s).2.2, start] at kept
  rw [start]
  unfold executeReporting
  rw [scope]
  dsimp only
  rw [← scopeKeys_of_keys scope, inner]
  exact congrArg Prod.snd (if_neg kept)

theorem executeReporting_of_all (scope : mutationScope cmd = .all) :
    (executeReporting codec env cmd s).2 =
      ((beforeEvictions codec env cmd s).tryEvictForMemory env (makeRoom env cmd s).2.2).2 := by
  unfold executeReporting beforeEvictions carriedOut
  rw [scope]
  have room : makeRoom env cmd s = (true, s, []) := by
    refine makeRoom_of_not_capped env s ?_ fun pairs eq => ?_
    · cases cmd <;> first | rfl | cases scope
    · subst eq
      cases scope
  have direct : readsKeyspace cmd = false := by
    cases cmd <;> first | rfl | cases scope
  rw [executeInner_of_room codec direct room, room]
  rfl

/-- Unless the command only looks or is taken back, the evictions start from `beforeEvictions`. -/
theorem executeReporting_evicts (writes : mutationScope cmd ≠ .readOnly)
    (fits : ¬Outgrows codec env cmd s) :
    ∃ post, (executeReporting codec env cmd s).2.1.live env.now =
        without post (Lapse.live env.now (carriedOut codec env cmd s)) ∧
      evictedAround codec env cmd s = (makeRoom env cmd s).2.2 ++ post := by
  have after : (executeReporting codec env cmd s).2 =
      ((beforeEvictions codec env cmd s).tryEvictForMemory env (makeRoom env cmd s).2.2).2 := by
    cases scope : mutationScope cmd with
    | readOnly => exact absurd scope writes
    | all => exact executeReporting_of_all scope
    | keys keys => exact executeReporting_of_keys scope fits
  have start : (beforeEvictions codec env cmd s).data = carriedOut codec env cmd s := by
    unfold beforeEvictions
    split
    · next scope => exact absurd scope writes
    · rfl
    · exact commit_data ..
  obtain ⟨post, list, evicts⟩ := tryEvictForMemory_evicts env (makeRoom env cmd s).2.2
    (beforeEvictions codec env cmd s)
  refine ⟨post, ?_, ?_⟩
  · rw [after, KeyValueStore.live, evicts.data, start, live_foldl_erase]
  · rw [← list]
    unfold evictedAround
    split
    · next scope => exact absurd scope writes
    · rfl

/-! ## Errors -/

/-- A failed command has disturbed nothing: the memory cap has taken it back, or no live key was evicted
around it and it left no trace but a key that was evicted at once. -/
def Undisturbed (codec : Codec) (env : Env) (cmd : Command) (s : KeyValueStore) : Prop :=
  Outgrows codec env cmd s ∨
    (∀ key ∈ evictedAround codec env cmd s, s.live env.now key = none) ∧
      (LeavesTrace codec cmd (s.live env.now) →
        ∃ key ∈ primaryKeys cmd, key ∈ evictedAround codec env cmd s)

theorem without_eq_iff {keys : List String} {v w : View} :
    without keys w = v ↔ (∀ k ∈ keys, v k = none) ∧ ∀ k ∉ keys, w k = v k := by
  constructor
  · rintro rfl
    exact ⟨fun k hk => if_pos hk, fun k hk => (if_neg hk).symm⟩
  · rintro ⟨gone, kept⟩
    funext k
    by_cases hk : k ∈ keys
    · exact (if_pos hk).trans (gone k hk).symm
    · exact (if_neg hk).trans (kept k hk)

theorem refused_perform (live : ∀ k, Lapse.settle env.now (v k) = v k)
    (writes : mutationScope cmd ≠ .readOnly) (none : ¬LeavesTrace codec cmd v)
    (refused : (perform codec env cmd v).1.isError = true) : (perform codec env cmd v).2 = v := by
  cases cmd
  case dedup => rfl
  all_goals first
    | exact absurd rfl writes
    | exact refused_unchanged_of_no_trace live rfl none refused

/-- A capped command leaves no trace. -/
theorem LeavesTrace.makeRoom (trace : LeavesTrace codec cmd v) :
    Recached.makeRoom env cmd s = (true, s, []) := by
  refine makeRoom_of_not_capped env s ?_ fun pairs eq => ?_
  · cases cmd <;> first | rfl | exact absurd trivial trace
  · subst eq
    exact absurd trivial trace

theorem live_carriedOut (made : (makeRoom env cmd s).1 = true) :
    Lapse.live env.now (carriedOut codec env cmd s) =
      (perform codec env cmd (without (makeRoom env cmd s).2.2 (s.live env.now))).2 := by
  rw [carriedOut, if_pos made, live_run, ← makeRoom_evicts.live env.now]
  rfl

theorem refused_reply (writes : mutationScope cmd ≠ .readOnly) (fits : ¬Outgrows codec env cmd s)
    (made : (makeRoom env cmd s).1 = true)
    (refused : (executeReporting codec env cmd s).1.isError = true) :
    (perform codec env cmd (without (makeRoom env cmd s).2.2 (s.live env.now))).1.isError = true := by
  have books := executeReporting_books codec env cmd s
  generalize executeReporting codec env cmd s = r at books refused
  obtain ⟨reply, s', victims⟩ := r
  cases books with
  | looked scope _ => exact absurd scope writes
  | flushed _ => cases refused
  | rebuilt dedup _ _ _ =>
    subst dedup
    rfl
  | refused outgrows => exact absurd outgrows fits
  | full _ full _ _ => exact absurd (full.symm.trans made) Bool.false_ne_true
  | wrote _ _ _ _ _ =>
    rwa [Prog.run_fst, ← KeyValueStore.live, makeRoom_evicts.live env.now] at refused

/-- What a failed command has carried out: nothing, unless it leaves a trace. -/
theorem live_of_refused (writes : mutationScope cmd ≠ .readOnly) (fits : ¬Outgrows codec env cmd s)
    (refused : (executeReporting codec env cmd s).1.isError = true)
    (none : ¬LeavesTrace codec cmd (s.live env.now)) :
    Lapse.live env.now (carriedOut codec env cmd s) =
      without (makeRoom env cmd s).2.2 (s.live env.now) := by
  cases made : (makeRoom env cmd s).1 with
  | false =>
    rw [carriedOut, if_neg (by rw [made]; exact Bool.false_ne_true), ← makeRoom_evicts.live env.now]
    rfl
  | true =>
    rw [live_carriedOut made]
    refine refused_perform (fun k => ?_) writes (fun trace => ?_) (refused_reply writes fits made refused)
    · rw [← makeRoom_evicts.live env.now]
      exact Lapse.settle_live ..
    · rw [@LeavesTrace.makeRoom codec env cmd s _ trace, without_nil] at trace
      exact none trace

theorem KeyValueStore.Looked.live {s s' : KeyValueStore} (looked : Looked s s') (now : ℕ) :
    s'.live now = s.live now :=
  funext fun k => congrArg (Lapse.settle now) (looked.cell k)

theorem executeReporting_looked (codec : Codec) (env : Env) (s : KeyValueStore)
    (reads : mutationScope cmd = .readOnly) : Looked s (executeReporting codec env cmd s).2.1 := by
  unfold executeReporting
  rw [reads]
  exact (executeInner_looked reads).1

theorem Outgrows.scope (outgrows : Outgrows codec env cmd s) :
    ∃ keys, mutationScope cmd = .keys keys := by
  cases scope : mutationScope cmd with
  | keys keys => exact ⟨keys, rfl⟩
  | readOnly | all =>
    have grown := outgrows.2.2.1
    have none : scopeKeys cmd = [] := by
      unfold scopeKeys
      rw [scope]
    rw [written, commit_memory, none] at grown
    exact absurd grown (lt_irrefl _)

/-- A write that the memory cap refuses is taken back as a whole. -/
theorem live_of_outgrows (outgrows : Outgrows codec env cmd s) :
    (executeReporting codec env cmd s).2.1.live env.now = s.live env.now := by
  obtain ⟨keys, writes⟩ := outgrows.scope
  have books := executeReporting_books codec env cmd s
  generalize executeReporting codec env cmd s = r at books ⊢
  obtain ⟨reply, s', victims⟩ := r
  cases books with
  | looked scope _ => cases scope.symm.trans writes
  | flushed flush =>
    subst flush
    cases writes
  | rebuilt dedup scope _ _ =>
    subst dedup
    cases scope.symm.trans writes
  | refused _ => rfl
  | full _ full _ _ => exact absurd (full.symm.trans outgrows.2.1) Bool.false_ne_true
  | wrote _ _ fits _ _ => exact absurd outgrows fits

theorem undisturbed_of_readOnly (reads : mutationScope cmd = .readOnly) :
    Undisturbed codec env cmd s := by
  have none : evictedAround codec env cmd s = [] := by
    unfold evictedAround
    rw [reads]
  refine .inr ⟨fun key evicted => ?_, fun trace => ?_⟩
  · rw [none] at evicted
    cases evicted
  · cases cmd <;> first | exact absurd trivial trace | cases reads

theorem undisturbed_of_noEviction (never : s.evictionPolicy = .noEviction)
    (none : ¬LeavesTrace codec cmd (s.live env.now)) : Undisturbed codec env cmd s := by
  by_cases outgrows : Outgrows codec env cmd s
  · exact .inl outgrows
  by_cases reads : mutationScope cmd = .readOnly
  · exact undisturbed_of_readOnly reads
  have room := @makeRoom_noEviction env cmd s never
  have policy : (beforeEvictions codec env cmd s).evictionPolicy = .noEviction := by
    unfold beforeEvictions
    split
    · exact never
    · exact never
    · rw [(commit_limits ..).2.2, room, never]
  refine .inr ⟨fun key evicted => ?_, fun trace => absurd trace none⟩
  have empty : evictedAround codec env cmd s = [] := by
    unfold evictedAround
    split
    · rfl
    · rw [tryEvictForMemory_noEviction policy, room]
  rw [empty] at evicted
  cases evicted

/-- A command that answers an error leaves the live view as it was exactly if it has disturbed
nothing. -/
theorem errors_intact_iff (codec : Codec) (env : Env) (cmd : Command) (s : KeyValueStore)
    (refused : (executeReporting codec env cmd s).1.isError = true) :
    (executeReporting codec env cmd s).2.1.live env.now = s.live env.now ↔
      Undisturbed codec env cmd s := by
  by_cases outgrows : Outgrows codec env cmd s
  · exact iff_of_true (live_of_outgrows outgrows) (.inl outgrows)
  by_cases reads : mutationScope cmd = .readOnly
  · exact iff_of_true ((executeReporting_looked codec env s reads).live env.now)
      (undisturbed_of_readOnly reads)
  obtain ⟨post, after, around⟩ := @executeReporting_evicts codec env cmd s reads outgrows
  rw [after, Undisturbed, or_iff_right outgrows, around]
  by_cases trace : LeavesTrace codec cmd (s.live env.now)
  · have room : makeRoom env cmd s = (true, s, []) := trace.makeRoom
    obtain ⟨key, only, moved, others⟩ := @LeavesTrace.changes codec env cmd _ trace
    rw [live_carriedOut (by rw [room]), room, without_nil, List.nil_append, without_eq_iff, only]
    refine and_congr_right fun gone => ?_
    simp only [trace, true_imp_iff, List.mem_singleton, exists_eq_left]
    constructor
    · intro kept
      by_contra spared
      exact moved (kept key spared)
    · intro evicted k spared
      exact others k fun same => spared (same ▸ evicted)
  · rw [live_of_refused reads outgrows refused trace, ← without_append, without_eq_iff]
    exact and_congr_right fun _ => iff_of_true (fun _ _ => rfl) fun there => absurd there trace

theorem errors_intact_lPush :
    let s := (execute .literals (.fixed 0) (.set "k" [49] {}) {}).2
    (executeReporting .literals (.fixed 0) (.lPush "k" [[50]]) s).2.1.live 0 = s.live 0 :=
  (errors_intact_iff .literals (.fixed 0) (.lPush "k" [[50]]) _ rfl).mpr
    (undisturbed_of_noEviction rfl fun trace => trace trivial)

/-- `HINCRBYFLOAT` by infinity is an error and leaves an empty hash; `LPUSH` on a string is an error, and
the string, restored into a store that is too small for it, is evicted; `MSET` finds no room, but has evicted all there was. -/
theorem errors_disturb :
    let failed := executeReporting .literals (.fixed 0) (.hIncrByFloat "h" "f" .infinity) {}
    let large := (KeyValueStore.withConfig none (some 66) .allKeysLru 10).restore 0 [("k", ⟨.str [49], none⟩)]
    let other := executeReporting .literals (.fixed 0) (.lPush "k" [[50]]) large
    let full := (execute .literals (.fixed 0) (.set "a" [49] {})
      (.withConfig (some 1) none .allKeysRandom 10)).2
    let partway := executeReporting .literals (.fixed 0) (.mSet [("b", [50]), ("c", [51])]) full
    (failed.1.isError = true ∧ (failed.2.1.live 0 "h").isSome = true) ∧
      (other.1.isError = true ∧ (large.live 0 "k").isSome = true ∧ other.2.1.live 0 "k" = none) ∧
        partway.1.isError = true ∧ (full.live 0 "a").isSome = true ∧ partway.2.1.live 0 "a" = none :=
  ⟨⟨rfl, rfl⟩, ⟨rfl, rfl, rfl⟩, rfl, rfl, rfl⟩

end Recached
