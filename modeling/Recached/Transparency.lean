import Recached.Transactions
import Recached.Bookkeeping

/-!
# What `EXEC` does and what the same commands do on their own

`EXEC` runs its queue through a dispatcher of its own, which leaves out what the connection handler does
for single commands.  `exec_transparent_iff` says for which transactions the difference cannot be seen.
-/

namespace Recached

open Text Lapse

/-! ## The texts of the handler -/

/-- The errors with which the handler refuses a single command, and the one with which the store refuses
`DEDUP`. -/
def handlerTexts : List String :=
  ["ERR only (P)SUBSCRIBE / (P)UNSUBSCRIBE / PING / QUIT allowed in subscribe mode",
    "MISCONF persistence is unhealthy; writes are disabled until SAVE succeeds",
    "ERR DEDUP is only available on the WebSocket port"]

/-- The reply is none of them. -/
def Ordinary (v : Value) : Prop := ∀ t ∈ handlerTexts, v ≠ .error t

section

variable {α : Type} {k : Kind α} {absent : Value} {l : Option Cell}

theorem ordinary_of_isError {v : Value} (fine : v.isError = false) : Ordinary v := by
  rintro t - rfl
  cases fine

/-- A text is told from another by its beginning. -/
theorem error_ne {text : String} (start rest : String) (other : ¬start.toList <+: text.toList) :
    Value.error (start ++ rest) ≠ .error text := by
  intro same
  refine other ⟨rest.toList, ?_⟩
  rw [← String.toList_append, Value.error.inj same]

/-- How the texts begin. -/
def handlerStarts : List String := ["ERR only", "MISCONF", "ERR DEDUP"]

theorem start_of_handlerText {t : String} (ht : t ∈ handlerTexts) :
    ∃ start ∈ handlerStarts, start.toList <+: t.toList := by
  have begins (start rest : String) : start.toList <+: (start ++ rest).toList :=
    ⟨rest.toList, String.toList_append.symm⟩
  rcases ht with _ | ⟨_, _ | ⟨_, _ | ⟨_, ⟨⟩⟩⟩⟩
  · exact ⟨"ERR only", by decide,
      begins _ " (P)SUBSCRIBE / (P)UNSUBSCRIBE / PING / QUIT allowed in subscribe mode"⟩
  · exact ⟨"MISCONF", by decide,
      begins _ " persistence is unhealthy; writes are disabled until SAVE succeeds"⟩
  · exact ⟨"ERR DEDUP", by decide, begins _ " is only available on the WebSocket port"⟩

theorem ordinary_error (start rest : String)
    (other : ∀ t ∈ handlerStarts, ¬start.toList <+: t.toList ∧ ¬t.toList <+: start.toList) :
    Ordinary (.error (start ++ rest)) := by
  intro t ht
  refine error_ne start rest fun begins => ?_
  obtain ⟨known, listed, same⟩ := start_of_handlerText ht
  rcases List.prefix_or_prefix_of_prefix begins same with before | before
  · exact (other known listed).1 before
  · exact (other known listed).2 before

theorem ordinary_text {text : String} (other : text ∉ handlerTexts) : Ordinary (.error text) := by
  rintro t ht ⟨⟩
  exact other ht

theorem ordinary_wrongType : Ordinary wrongType := ordinary_text (by simp [handlerTexts])

section

variable {P : Value → Prop} (wrong : P wrongType)
include wrong

theorem reply_readAs {touch : Bool} {f : α → Value} (missing : P absent) (found : ∀ x, P (f x)) :
    P (readAs k touch absent f l).2 := by
  unfold readAs
  cases l with
  | none => exact missing
  | some c =>
    dsimp only
    split
    · exact found _
    · exact wrong

theorem reply_updateAs {f : α → α × Value} (missing : P absent) (found : ∀ x, P (f x).2) :
    P (updateAs k absent f l).2 := by
  unfold updateAs
  cases l with
  | none => exact missing
  | some c =>
    dsimp only
    split
    · exact found _
    · exact wrong

theorem reply_typedEntry {default : α} {f : α → α × Value} (found : ∀ x, P (f x).2) :
    P (typedEntry k default f l).2 := by
  unfold typedEntry
  cases l with
  | none => exact found _
  | some c =>
    dsimp only
    split
    · exact found _
    · exact wrong

end

theorem ordinary_readAs {touch : Bool} {f : α → Value} (missing : Ordinary absent)
    (found : ∀ x, Ordinary (f x)) : Ordinary (readAs k touch absent f l).2 :=
  reply_readAs ordinary_wrongType missing found

theorem ordinary_updateAs {f : α → α × Value} (missing : Ordinary absent)
    (found : ∀ x, Ordinary (f x).2) : Ordinary (updateAs k absent f l).2 :=
  reply_updateAs ordinary_wrongType missing found

theorem ordinary_typedEntry {default : α} {f : α → α × Value} (found : ∀ x, Ordinary (f x).2) :
    Ordinary (typedEntry k default f l).2 :=
  reply_typedEntry ordinary_wrongType found

end

theorem ordinary_incrBy (delta : ℤ) (l : Option Cell) : Ordinary (incrBy delta l).2 := by
  refine ordinary_typedEntry fun s => ?_
  unfold addToNumber
  split
  · exact ordinary_text (by simp [handlerTexts])
  · split
    · exact ordinary_text (by simp [handlerTexts])
    · exact nofun

theorem ordinary_setDeadline {now : ℕ} {existing : Option ℕ} {expiry : Option SetExpiry} {e : Value}
    (failed : setDeadline now existing expiry = .error e) : Ordinary e := by
  unfold setDeadline at failed
  split at failed
  case h_2 =>
    split_ifs at failed
    cases failed
    exact ordinary_text (by simp [handlerTexts])
  all_goals cases failed

theorem ordinary_setAct (now : ℕ) (val : Bytes) (opts : SetOptions) (l : Option Cell) :
    Ordinary (setAct now val opts l).2 := by
  unfold setAct
  dsimp only
  split
  · exact ordinary_wrongType
  · split
    · exact ordinary_of_isError (by split <;> rfl)
    · split
      · next failed => exact ordinary_setDeadline failed
      · exact ordinary_of_isError (by dsimp only; split <;> rfl)

theorem ordinary_getSetAct (val : Bytes) (l : Option Cell) : Ordinary (getSetAct val l).2 := by
  unfold getSetAct
  split
  · exact nofun
  · split
    · exact nofun
    · exact ordinary_wrongType

theorem ordinary_hashIncrInt (field : String) (delta : ℤ) (l : Option Cell) :
    Ordinary (hashIncrInt field delta l).2 := by
  refine ordinary_typedEntry fun h => ?_
  unfold addToField
  split
  · exact ordinary_text (by simp [handlerTexts])
  · exact nofun

theorem ordinary_notFinite : Ordinary notFinite := ordinary_text (by simp [handlerTexts])

theorem ordinary_hashIncrFloat (field : String) (delta : Binary64) (l : Option Cell) :
    Ordinary (hashIncrFloat field delta l).2 := by
  refine ordinary_typedEntry fun h => ?_
  unfold addFloatToField
  dsimp only
  split
  · exact ordinary_notFinite
  · exact nofun

theorem ordinary_zIncrByAct (delta : Binary64) (member : String) (l : Option Cell) :
    Ordinary (zIncrByAct delta member l).2 := by
  refine ordinary_typedEntry fun z => ?_
  unfold addToScore
  dsimp only
  split
  · exact ordinary_notFinite
  · exact nofun

theorem ordinary_parsedBound {text : String} {e : Value} (failed : ScoreBound.parse text = .error e) :
    Ordinary e := by
  unfold ScoreBound.parse at failed
  dsimp only at failed
  split_ifs at failed
  repeat' split at failed
  all_goals cases failed <;> exact ordinary_text (by simp [handlerTexts])

theorem ordinary_zsetRead {f : ZSet → Except Value Value} {l : Option Cell}
    (fine : ∀ z v, f z = .ok v → Ordinary v) (failed : ∀ z e, f z = .error e → Ordinary e) :
    Ordinary (zsetRead f l).2 := by
  refine ordinary_readAs ?_ fun z => ?_
  all_goals
    beta_reduce
    split
    · next v same => exact fine _ v same
    · next v same => exact failed _ v same

theorem ordinary_rangeByScore {min max : String} {f : List (String × Binary64) → Value}
    {l : Option Cell} (fine : ∀ items, Ordinary (f items)) :
    Ordinary (zRangeByScoreRead min max f l).2 := by
  refine ordinary_zsetRead (fun z v same => ?_) fun z e same => ?_
  all_goals
    cases low : ScoreBound.parse min with
    | error e => 
      rw [low] at same
      cases same
      try exact ordinary_parsedBound low
    | ok low' =>
      cases high : ScoreBound.parse max with
      | error e =>
        rw [low, high] at same
        cases same
        try exact ordinary_parsedBound high
      | ok high' =>
        rw [low, high] at same
        cases same
        try exact fine _

theorem ordinary_jsonSetAt {value : Json} {segs : List JsonPathSeg} {doc : Json} {e : String}
    (failed : (jsonSetAt value segs doc).2 = some e) : Ordinary (.error e) := by
  fun_induction jsonSetAt value segs doc with
  | case1 => cases failed
  | case2 f rest cur fields same slot error eq ih => exact ih (by rw [eq]; exact failed)
  | case3 f rest cur other =>
    obtain rfl := Option.some.inj failed
    simp only [String.append_assoc]
    exact ordinary_error "ERR path segment '." _ (by decide)
  | case4 i rest items item there slot error eq ih => exact ih (by rw [eq]; exact failed)
  | case5 i rest items len there =>
    obtain rfl := Option.some.inj failed
    simp only [String.append_assoc]
    exact ordinary_error "ERR index " _ (by decide)
  | case6 i rest other =>
    obtain rfl := Option.some.inj failed
    simp only [String.append_assoc]
    exact ordinary_error "ERR path segment '[" _ (by decide)

theorem ordinary_parseJsonSegs {budget : ℕ} {cs : List Char} {e : String}
    (failed : parseJsonSegs budget cs = .error e) : Ordinary (.error e) := by
  induction budget generalizing cs with
  | zero =>
    cases cs with
    | nil => cases failed
    | cons c cs => cases failed; exact ordinary_text (by simp [handlerTexts])
  | succ budget ih =>
    cases cs with
    | nil => cases failed
    | cons c cs =>
      have rest {cs : List Char} {f : List JsonPathSeg → List JsonPathSeg}
          (failed : (do let segs ← parseJsonSegs budget cs; .ok (f segs)) = Except.error e) :
          Ordinary (.error e) := by
        cases parsed : parseJsonSegs budget cs with
        | error e' =>
          rw [parsed] at failed
          cases failed
          exact ih parsed
        | ok segs =>
          rw [parsed] at failed
          cases failed
      unfold parseJsonSegs at failed
      dsimp only at failed
      split_ifs at failed
      · cases failed
        exact ordinary_text (by simp [handlerTexts])
      · exact rest failed
      · split at failed
        · cases failed
          exact ordinary_text (by simp [handlerTexts])
        · split at failed
          · cases failed
            exact ordinary_text (by simp [handlerTexts])
          · exact rest failed
      · exact rest failed

theorem ordinary_parseJsonPath {path : String} {e : String} (failed : parseJsonPath path = .error e) :
    Ordinary (.error e) := by
  unfold parseJsonPath at failed
  split at failed <;> exact ordinary_parseJsonSegs failed

theorem ordinary_setInDocument (val : Json) (segs : List JsonPathSeg) (doc : Json) :
    Ordinary (setInDocument val segs doc).2 := by
  unfold setInDocument
  split
  · exact nofun
  · next failed => exact ordinary_jsonSetAt (congrArg Prod.snd failed)

theorem ordinary_jSetAct (codec : Codec) (path value : String) (l : Option Cell) :
    Ordinary (jSetAct codec path value l).2 := by
  unfold jSetAct
  split
  · next failed => exact ordinary_parseJsonPath failed
  · split
    · exact ordinary_error "ERR invalid JSON value: " _ (by decide)
    · extract_lets leadingIndex
      split_ifs
      · exact ordinary_text (by simp [handlerTexts])
      · exact ordinary_typedEntry (ordinary_setInDocument _ _)

theorem ordinary_jGetAct (codec : Codec) (path : Option String) (l : Option Cell) :
    Ordinary (jGetAct codec path l).2 := by
  refine ordinary_readAs nofun fun doc => ?_
  split
  · next failed => exact ordinary_parseJsonPath failed
  · exact nofun

theorem ordinary_jMergeAct (codec : Codec) (patch : String) (l : Option Cell) :
    Ordinary (jMergeAct codec patch l).2 := by
  unfold jMergeAct
  split
  · exact ordinary_error "ERR invalid JSON patch: " _ (by decide)
  · split
    · split
      · exact nofun
      · exact ordinary_wrongType
    · exact ordinary_typedEntry fun doc => nofun

theorem ordinary_rlCheckAct (now : ℕ) (key : String) (config : Option (ℕ × ℕ)) (l : Option Cell) :
    Ordinary (rlCheckAct now key config l).2 := by
  unfold rlCheckAct
  split
  · split
    · simp only [String.append_assoc]
      exact ordinary_error "ERR no rate limit configured for '" _ (by decide)
    · exact nofun
  · split
    · exact ordinary_wrongType
    · exact nofun

theorem ordinary_rlSetAct (limit windowSecs : ℕ) (l : Option Cell) :
    Ordinary (rlSetAct limit windowSecs l).2 := by
  unfold rlSetAct
  dsimp only
  split
  · exact nofun
  · split
    · exact nofun
    · exact ordinary_wrongType

/-! ## The replies of the store -/

theorem yields_readSets (keys : List String) :
    (readSets keys).Yields fun sets => ∀ e, sets = .error e → Ordinary e := by
  induction keys with
  | nil => exact nofun
  | cons key keys ih =>
    intro l
    dsimp only
    split
    · refine ih.bind fun rest fine => ?_
      rintro e same
      cases rest with
      | error e' => exact fine e (by simpa [Except.map] using same)
      | ok sets => cases same
    · split
      · refine ih.bind fun rest fine => ?_
        rintro e same
        cases rest with
        | error e' => exact fine e (by simpa [Except.map] using same)
        | ok sets => cases same
      · rintro e ⟨⟩
        exact ordinary_wrongType

theorem yields_combine (keys : List String) (f : List (Option MemberSet) → MemberSet) :
    (combine keys f).Yields Ordinary := by
  refine (yields_readSets keys).bind fun sets fine => ?_
  cases sets with
  | error e => exact fine e rfl
  | ok sets => exact nofun

theorem yields_combineStore (dst : String) (keys : List String)
    (f : List (Option MemberSet) → MemberSet) : (combineStore dst keys f).Yields Ordinary := by
  refine (yields_readSets keys).bind fun sets fine => ?_
  cases sets with
  | error e => exact fine e rfl
  | ok sets => exact fun l => nofun

theorem yields_sMove (src dst member : String) : (sMove src dst member).Yields Ordinary := by
  intro s d
  dsimp only
  split
  · exact ordinary_wrongType
  · intro l
    dsimp only
    split
    · exact fun l => ordinary_typedEntry fun s => nofun
    · exact nofun

theorem yields_mSetPairs (pairs : List (String × Bytes)) : (mSetPairs pairs).Yields Ordinary := by
  induction pairs with
  | nil => exact nofun
  | cons p pairs ih => exact fun l => ih

theorem program_ordinary (codec : Codec) (env : Env) {cmd : Command}
    (plain : ∀ client id inner, cmd ≠ .dedup client id inner) :
    (program codec env cmd).Yields Ordinary := by
  cases cmd
  case dedup => exact absurd rfl (plain _ _ _)
  case ping msg => cases msg <;> exact ordinary_of_isError rfl
  case get | strlen | getRange | hGet | hGetAll | hKeys | hVals | hLen | hExists | hMGet | hScan | lRange
    | lLen | lIndex | sMembers | sCard | sIsMember | sMIsMember | sScan | zScore | zMScore | zCard =>
    exact fun l => ordinary_readAs (ordinary_of_isError rfl) fun _ => ordinary_of_isError rfl
  case eSet | set => exact fun l => ordinary_setAct _ _ _ l
  case append | hSet | lPush | rPush | sAdd => exact fun l => ordinary_typedEntry fun _ => ordinary_of_isError rfl
  case hSetNx =>
    refine fun l => ordinary_typedEntry fun h => ?_
    split <;> exact ordinary_of_isError rfl
  case zAdd key opts pairs =>
    exact fun l => ordinary_typedEntry fun z => ordinary_of_isError (zAddExec_ok z opts pairs)
  case lPushX | rPushX | lRem | lTrim | hDel | sRem | zRem =>
    exact fun l => ordinary_updateAs (ordinary_of_isError rfl) fun _ => ordinary_of_isError rfl
  case lPop key count | rPop key count =>
    refine fun l => ordinary_updateAs ?_ fun l => ?_
    all_goals cases count <;> exact ordinary_of_isError rfl
  case sPop key count =>
    refine fun l => ordinary_updateAs ?_ fun l => ?_
    all_goals cases count <;> exact ordinary_of_isError rfl
  case lSet =>
    refine fun l => ordinary_updateAs (ordinary_text (by simp [handlerTexts])) fun l => ?_
    split
    · exact ordinary_text (by simp [handlerTexts])
    · exact ordinary_of_isError rfl
  case sRandMember key count =>
    refine fun l => ordinary_readAs ?_ fun s => ?_
    · split <;> exact ordinary_of_isError rfl
    · split
      · exact ordinary_of_isError rfl
      · split <;> exact ordinary_of_isError rfl
  case zRank | zRevRank =>
    refine fun l => ordinary_readAs (ordinary_of_isError rfl) fun z => ?_
    refine ordinary_of_isError ?_
    cases zRank z _ <;> rfl
  case zRange | zRevRange | zScan =>
    refine fun l => ordinary_zsetRead ?_ ?_
    · rintro z v ⟨⟩
      exact ordinary_of_isError rfl
    · rintro z e ⟨⟩
  case zRangeByScore | zRevRangeByScore | zCount => exact fun l => ordinary_rangeByScore fun _ => ordinary_of_isError rfl
  case getSet => exact fun l => ordinary_getSetAct _ l
  case setNx => exact fun l => by cases l <;> exact ordinary_of_isError rfl
  case setEx | pSetEx => exact fun _ => ordinary_of_isError rfl
  case incr | decr | incrBy => exact fun l => ordinary_incrBy _ l
  case decrBy =>
    simp only [program]
    split_ifs
    · exact ordinary_text (by simp [handlerTexts])
    · exact fun l => ordinary_incrBy _ l
  case expire | pExpire | expireAt | pExpireAt => exact fun l => by cases l <;> exact ordinary_of_isError rfl
  case ttl | pTtl | persist => exact fun l => by rcases l with _ | ⟨_, _ | _⟩ <;> exact ordinary_of_isError rfl
  case type => exact fun _ => ordinary_of_isError rfl
  case memoryUsage => exact fun l => by cases l <;> exact ordinary_of_isError rfl
  case hIncrBy => exact fun l => ordinary_hashIncrInt _ _ l
  case hIncrByFloat => exact fun l => ordinary_hashIncrFloat _ _ l
  case zIncrBy => exact fun l => ordinary_zIncrByAct _ _ l
  case jSet => exact fun l => ordinary_jSetAct _ _ _ l
  case jGet => exact fun l => ordinary_jGetAct _ _ l
  case jMerge => exact fun l => ordinary_jMergeAct _ _ l
  case rlSet => exact fun l => ordinary_rlSetAct _ _ l
  case rlCheck => exact fun l => ordinary_rlCheckAct _ _ _ l
  case del | unlink | «exists» | mGet => exact Prog.Yields.bind_of_forall fun _ => ordinary_of_isError rfl
  case mSet pairs => exact yields_mSetPairs pairs
  case flushDb => exact ordinary_of_isError rfl
  case rename =>
    intro moved
    cases moved
    · exact ordinary_text (by simp [handlerTexts])
    · exact ordinary_of_isError rfl
  case sInter | sUnion | sDiff => exact yields_combine _ _
  case sInterStore | sUnionStore | sDiffStore => exact yields_combineStore _ _ _
  case sMove => exact yields_sMove _ _ _
  case keys | scan | dbSize | multi | publish => exact ordinary_of_isError rfl
  case unknown name =>
    simp only [program, String.append_assoc]
    exact ordinary_error "ERR unknown command '" _ (by decide)
  all_goals exact ordinary_text (by decide)

/-! ## The replies of whole commands -/

/-- The limits replace replies by errors of their own. -/
theorem executeInner_replies (codec : Codec) (env : Env) {cmd : Command} (s : KeyValueStore)
    (direct : readsKeyspace cmd = false) : (executeInner codec env cmd s).1 = maxKeysError ∨
      ∃ d : Data, (executeInner codec env cmd s).1 = ((program codec env cmd).run env.now d).1 := by
  cases room : makeRoom env cmd s with
  | mk made rest =>
    obtain ⟨s₁, evicted⟩ := rest
    cases made with
    | false => exact .inl (congrArg Prod.fst (executeInner_of_no_room codec direct room))
    | true => exact .inr ⟨s₁.data, congrArg Prod.fst (executeInner_of_room codec direct room)⟩

theorem executeReporting_ordinary (codec : Codec) (env : Env) {cmd : Command} (s : KeyValueStore)
    (plain : ∀ client id inner, cmd ≠ .dedup client id inner) :
    Ordinary (executeReporting codec env cmd s).1 := by
  have inner : Ordinary (executeInner codec env cmd s).1 := by
    cases direct : readsKeyspace cmd with
    | true =>
      cases cmd
      case keys | dbSize => exact nofun
      case scan =>
        unfold executeInner scanKeys
        dsimp only
        split_ifs <;> exact nofun
      all_goals cases direct
    | false =>
      rcases executeInner_replies codec env s direct with full | ⟨d, reply⟩
      · rw [full]
        show Ordinary (.error "ERR max keys limit reached")
        exact ordinary_text (by simp [handlerTexts])
      · rw [reply]
        exact (program_ordinary codec env plain).run env.now d
  unfold executeReporting
  split
  · exact inner
  · exact inner
  · dsimp only
    split_ifs
    · exact ordinary_text (by simp [handlerTexts])
    · exact inner

/-- The store refuses `DEDUP`, whatever is inside. -/
theorem executeReporting_dedup (codec : Codec) (env : Env) (client : String) (id : ℕ) (inner : Command)
    (s : KeyValueStore) : (executeReporting codec env (.dedup client id inner) s).1 = dedupError := by
  have room : makeRoom env (.dedup client id inner) s = (true, s, []) :=
    makeRoom_of_not_capped env s rfl (by rintro _ ⟨⟩)
  cases scope : mutationScope (.dedup client id inner) with
  | readOnly =>
    unfold executeReporting
    rw [scope]
    exact congrArg Prod.fst (executeInner_of_room codec rfl room)
  | all | keys =>
    have books := executeReporting_books codec env (.dedup client id inner) s
    generalize executeReporting codec env (.dedup client id inner) s = r at books ⊢
    obtain ⟨reply, s', victims⟩ := r
    cases books with
    | looked reads _ => cases scope.symm.trans reads
    | flushed flush => cases flush
    | rebuilt _ _ _ _ => rfl
    | refused outgrows =>
      -- the account does not move, so the cap is not passed
      have grown := outgrows.2.2.1
      rw [written, KeyValueStore.commit_memory] at grown
      change _ < _ + (footprint _ s.data - _) - (_ - footprint _ s.data) at grown
      omega
    | full _ full _ _ => cases full.symm.trans (congrArg Prod.fst room)
    | wrote _ _ _ _ _ => rfl

/-! ## Decoded commands -/

/-- A decoded command has a property. -/
def yieldsOnly (P : Command → Bool) : Except String Command → Bool
  | .ok cmd => P cmd
  | .error _ => true

def isDedup : Command → Bool
  | .dedup _ _ _ => true
  | _ => false

def isNested : Command → Bool
  | .dedup _ _ inner => isDedup inner
  | _ => false

section

variable {P : Command → Bool} {n : ℕ} {f : String → List Value → Except String Command}

theorem yieldsOnly_bind {α : Type} {x : Except String α} {f : α → Except String Command}
    (h : ∀ a, yieldsOnly P (f a) = true) : yieldsOnly P (x >>= f) = true := by
  cases x with
  | error e => rfl
  | ok a => exact h a

theorem yieldsOnly_onName (h : ∀ key args, yieldsOnly P (f key args) = true) (name : String)
    (args : List Value) : yieldsOnly P (onName n f name args) = true :=
  yieldsOnly_bind fun _ => h _ _

theorem yieldsOnly_onKey (h : ∀ key args, yieldsOnly P (f key args) = true) (name : String)
    (args : List Value) : yieldsOnly P (onKey n f name args) = true :=
  yieldsOnly_bind fun _ => yieldsOnly_bind fun _ => h _ _

end

/-- Neither a wrapped command nor a `ZADD`, whose parser relates what it read. -/
def isPlain : Command → Bool
  | .dedup _ _ _ | .zAdd _ _ _ => false
  | _ => true

/-- What the parsers of the table yield: plain commands, and what `parseZAdd` yields. -/
theorem parsers_yield {P : Command → Bool} (plain : ∀ cmd, isPlain cmd = true → P cmd = true)
    (zAdd : ∀ name args, yieldsOnly P (parseZAdd name args) = true) : ∀ entry ∈ parsers, ∀ name args,
    yieldsOnly P (entry.2 name args) = true := by
  simp only [parsers, List.forall_mem_append]
  repeat' apply And.intro
  all_goals
    simp only [coreParsers, stringParsers, expiryParsers, keyParsers, jsonParsers, limiterParsers,
      hashParsers, listParsers, setParsers, sortedSetParsers, serverParsers, deadline, keyPayload,
      keyTimePayload, parseHSet, pushValues, popCount, keysOnly, storeKeys, indexRange, scoreRange, List.forall_mem_cons, List.not_mem_nil, IsEmpty.forall_iff, implies_true, and_true]
    repeat' apply And.intro
    all_goals
      intro name args
      try with_reducible exact zAdd name args
      repeat' first
        | with_reducible refine yieldsOnly_onName (fun key args => ?_) _ _
        | with_reducible refine yieldsOnly_onKey (fun key args => ?_) _ _
        | with_reducible refine yieldsOnly_bind fun _ => ?_
        | split
      all_goals first | rfl | exact plain _ rfl

theorem fromArray_yields {P : Command → Bool} (plain : ∀ cmd, isPlain cmd = true → P cmd = true)
    (zAdd : ∀ name args, yieldsOnly P (parseZAdd name args) = true)
    (wrapped : ∀ client id inner, isDedup inner = false → P (.dedup client id inner) = true)
    (parts : List Value) : yieldsOnly P (fromArray parts) = true := by
  cases parts with
  | nil => simp [fromArray, yieldsOnly]
  | cons name args =>
    unfold fromArray
    refine yieldsOnly_bind fun cmdName => ?_
    extract_lets rest
    have fine (r : Unit) : yieldsOnly P (rest r) = true := by
      unfold rest
      split
      · split
        · extract_lets clientId further
          have fine (r : Unit) : yieldsOnly P (further r) = true := by
            refine yieldsOnly_bind fun id => ?_
            extract_lets last
            have fine (r : Unit) : yieldsOnly P (last r) = true := by
              refine yieldsOnly_bind fun inner => ?_
              cases inner <;> first | rfl | exact wrapped _ _ _ rfl
            split
            · exact yieldsOnly_bind fun r => fine r
            · exact fine ()
          split
          · exact yieldsOnly_bind fun r => fine r
          · exact fine ()
        · rfl
      · split
        · next parser found =>
          obtain ⟨before, after, table, -⟩ := List.lookup_eq_some_iff.mp found
          exact parsers_yield plain zAdd (cmdName, parser) (by rw [table]; simp) cmdName args
        · exact plain _ rfl
    split
    · exact yieldsOnly_bind fun r => fine r
    · exact fine ()

theorem parseZAdd_bound {P : Command → Bool} (every : ∀ key opts pairs, P (.zAdd key opts pairs) = true)
    (name : String) (args : List Value) : yieldsOnly P (parseZAdd name args) = true := by
  refine yieldsOnly_onKey (fun key args => ?_) _ _
  repeat' first
    | with_reducible refine yieldsOnly_bind fun _ => ?_
    | split
  all_goals first | rfl | exact every _ _ _

theorem fromArray_unnested (parts : List Value) :
    yieldsOnly (fun cmd => !isNested cmd) (fromArray parts) = true := by
  refine fromArray_yields (fun cmd plain => ?_) (parseZAdd_bound fun _ _ _ => rfl) (fun _ _ inner h => ?_) parts
  · cases cmd <;> first | rfl | cases plain
  · simp [isNested, h]

theorem unnested_of_fromValue {value : Value} {client : String} {id : ℕ} {inner : Command}
    (parsed : fromValue value = .ok (.dedup client id inner)) :
    ∀ client' id' inner', inner ≠ .dedup client' id' inner' := by
  rintro client' id' inner' rfl
  unfold fromValue at parsed
  split at parsed
  · next parts =>
    have unnested := fromArray_unnested parts
    rw [parsed] at unnested
    cases unnested
  · cases parsed

/-! ## Sending commands and queueing them -/

/-- The server, with other owners of the ephemeral keys. -/
def ServerState.owning (owners : Std.ExtTreeMap String ℕ) (st : ServerState) : ServerState :=
  { st with ephemeral := owners }

namespace Node

def owning (owners : Std.ExtTreeMap String ℕ) (node : Node) : Node :=
  { node with server := node.server.owning owners }

/-- Something holds before each of the commands that `EXEC` runs. -/
def AllAlong (cfg : ServerConfig) (origin : ℕ) (P : Moment → Command → Node → Prop) :
    (ℕ → Moment) → List Command → Node → Prop
  | _, [], _ => True
  | moments, cmd :: queue, node => P (moments 0) cmd node ∧
    AllAlong cfg origin P (fun i => moments (i + 1)) queue (node.runQueued cfg (moments 0) origin cmd).2

end Node

namespace Session

/-- Send frames one after the other, each of them after the reply to the one before. -/
def sendEach (cfg : ServerConfig) : (ℕ → Moment) → List Bytes → Session → List (List Value) × Session
  | _, [], s => ([], s)
  | moments, raw :: raws, s =>
    let (replies, s) := s.handleFrame cfg moments false raw
    let (rest, s) := sendEach cfg (fun i => moments (i + 1)) raws s
    (replies :: rest, s)

end Session

/-- The commands that the connection handler answers without the store. -/
def isServerCommand : Command → Bool
  | .info _ | .client _ | .config _ | .commandQuery _ | .cluster _ | .module _ | .memory _ | .pubSub _
  | .save | .bgSave | .lastSave | .replicaOfNoOne => true
  | _ => false

/-- The commands of the session that a subscribed connection may send. -/
def subscribedMay : Command → Bool
  | .ping _ | .publish _ _ => true
  | _ => false

/-- The handler lets a single command reach the store, and the store takes it for what it is. -/
structure Direct (subscribed : Bool) (cmd : Command) (node : Node) : Prop where
  mode : subscribed = true → subscribedMay cmd = true
  store : isServerCommand cmd = false
  primary : isWriteCommand cmd = true → node.replica = false
  healthy : isWriteCommand cmd = true → node.server.persistenceHealthy = true
  unwrapped : isWriteCommand cmd = true → ∀ client id inner, cmd ≠ .dedup client id inner

/-- An ephemeral key that the command sets belongs to the connection already. -/
def OwnsEphemeral (cfg : ServerConfig) (origin : ℕ) (m : Moment) (cmd : Command) (node : Node) : Prop :=
  ∀ key val, cmd = .eSet key val →
    (executeReporting cfg.codec m.env cmd node.server.store).1.isError = false →
      node.server.ephemeral[key]? = some origin

/-- The owners after a single command with the reply. -/
def claimed (origin : ℕ) (cmd : Command) (reply : Value) (owners : Std.ExtTreeMap String ℕ) :
    Std.ExtTreeMap String ℕ :=
  match cmd with
  | .eSet key _ => if reply.isError then owners else owners.insert key origin
  | _ => owners

/-! ## Owners do not matter -/

section

variable (owners : Std.ExtTreeMap String ℕ)

theorem applyWriteEffects_owning (now origin : ℕ) (cmd : Command) (reply : Value) (st : ServerState) :
    (st.owning owners).applyWriteEffects now origin cmd reply =
      (st.applyWriteEffects now origin cmd reply).owning owners := by
  unfold ServerState.applyWriteEffects
  cases broadcastFor cmd reply now <;> rfl

theorem applyEvictionEffects_owning (now origin : ℕ) (evicted : List String) (st : ServerState) :
    (st.owning owners).applyEvictionEffects now origin evicted =
      (st.applyEvictionEffects now origin evicted).owning owners := by
  induction evicted generalizing st with
  | nil => rfl
  | cons key evicted ih =>
    have first := applyWriteEffects_owning owners now origin (.del [key]) (.integer 1) st
    have rest := ih (st.applyWriteEffects now origin (.del [key]) (.integer 1))
    rw [← first] at rest
    exact rest

theorem executeQueuedWrite_owning (codec : Codec) (env : Env) (origin : ℕ) (cmd : Command)
    (st : ServerState) : (st.owning owners).executeQueuedWrite codec env origin cmd =
      (st.executeQueuedWrite codec env origin cmd).owning owners := by
  have effects := applyWriteEffects_owning owners env.now origin cmd
    (executeReporting codec env cmd st.store).1
    { st with store := (executeReporting codec env cmd st.store).2.1 }
  have victims := applyEvictionEffects_owning owners env.now origin
    (executeReporting codec env cmd st.store).2.2
    (ServerState.applyWriteEffects env.now origin cmd (executeReporting codec env cmd st.store).1
      { st with store := (executeReporting codec env cmd st.store).2.1 })
  rw [← effects] at victims
  exact victims

theorem wrote_owning (before : Std.ExtTreeMap String ℕ) (cfg : ServerConfig) (m : Moment) (node : Node)
    (server : ServerState) : (node.owning before).wrote cfg m (server.owning owners) =
      (node.wrote cfg m server).owning owners := by
  unfold Node.wrote
  change Node.announcing cfg m (node.owning before)
    (if m.appendFails && node.server.log.length < server.log.length then _ else _) = _
  split_ifs <;> rfl

theorem runQueued_owning (cfg : ServerConfig) (m : Moment) (origin : ℕ) (cmd : Command) (node : Node) :
    (node.owning owners).runQueued cfg m origin cmd =
      ((node.runQueued cfg m origin cmd).1, (node.runQueued cfg m origin cmd).2.owning owners) := by
  unfold Node.runQueued
  split
  · rfl
  · split_ifs
    · rw [← wrote_owning owners owners, ← executeQueuedWrite_owning]
      rfl
    · rfl

end

/-! ## One command -/

section

variable {cfg : ServerConfig} {m : Moment} {cmd : Command} {s : Session} {node : Node}
  {owners : Std.ExtTreeMap String ℕ}

theorem unwrapDedup_plain (plain : ∀ client id inner, cmd ≠ .dedup client id inner) :
    ServerState.unwrapDedup cmd = (cmd, none) := by
  cases cmd
  case dedup => exact absurd rfl (plain _ _ _)
  all_goals rfl

/-- A write of a healthy server claims its key and is otherwise a write of `EXEC`. -/
theorem executeOrderedWrite_eq {codec : Codec} {env : Env} {st : ServerState}
    (healthy : st.persistenceHealthy = true) (plain : ∀ client id inner, cmd ≠ .dedup client id inner)
    (origin : ℕ) : (st.owning owners).executeOrderedWrite codec env origin cmd =
      ((executeReporting codec env cmd st.store).1, (st.executeQueuedWrite codec env origin cmd).owning
        (claimed origin cmd (executeReporting codec env cmd st.store).1 owners)) := by
  have same := executeQueuedWrite_owning owners codec env origin cmd st
  unfold ServerState.executeOrderedWrite
  rw [unwrapDedup_plain plain]
  change (if !st.persistenceHealthy then _ else _) = _
  rw [healthy]
  change ((executeReporting codec env cmd st.store).1,
    if (executeReporting codec env cmd st.store).1.isError then
      (st.owning owners).executeQueuedWrite codec env origin cmd
    else ((st.owning owners).executeQueuedWrite codec env origin cmd).commitWrite origin cmd none) = _
  rw [same]
  cases failed : (executeReporting codec env cmd st.store).1.isError with
  | true =>
    rw [if_pos rfl]
    unfold claimed
    split
    · rw [failed, if_pos rfl]
    · rfl
  | false =>
    rw [if_neg Bool.false_ne_true]
    unfold claimed ServerState.commitWrite
    cases cmd
    case eSet =>
      rw [failed]
      rfl
    all_goals rfl

/-- A command that is neither refused nor answered by the handler. -/
theorem direct_eq (mode : s.conn.isSubscribed = true → ∃ msg, cmd = .ping msg)
    (primary : ¬(s.node.replica && isWriteCommand cmd) = true) (store : isServerCommand cmd = false) :
    s.direct cfg m cmd =
      let r := if isWriteCommand cmd then s.node.executeOrderedWrite cfg m s.conn.origin cmd
        else s.node.executeAndRecord cfg m cmd
      (r.1, { s with node := r.2 }) := by
  refine (if_neg fun closed => ?_).trans ((if_neg primary).trans ?_)
  · obtain ⟨subscribed, other⟩ := (Bool.and_eq_true _ _).mp closed
    obtain ⟨msg, rfl⟩ := mode subscribed
    cases other
  cases cmd
  case dedup =>
    dsimp only
    split_ifs <;> rfl
  all_goals first
    | rfl
    | cases store

theorem runQueued_eq (other : ∀ channel message, cmd ≠ .publish channel message) (origin : ℕ) :
    node.runQueued cfg m origin cmd =
      if isWriteCommand cmd then
        ((executeReporting cfg.codec m.env cmd node.server.store).1,
          node.wrote cfg m (node.server.executeQueuedWrite cfg.codec m.env origin cmd))
      else node.executeAndRecord cfg m cmd := by
  cases cmd
  case publish => exact absurd rfl (other _ _)
  all_goals rfl

theorem dispatch_publish (channel : String) (message : Bytes) :
    s.dispatch cfg m (.publish channel message) =
      ([(s.node.publish cfg channel message).1],
        { s with node := (s.node.publish cfg channel message).2 }) := rfl

theorem dispatch_queueable {queue : List Command} (accepted : queueRefusal cfg queue cmd = none)
    (other : ∀ channel message, cmd ≠ .publish channel message) :
    s.dispatch cfg m cmd = ([(s.direct cfg m cmd).1], (s.direct cfg m cmd).2) := by
  cases cmd
  case publish => exact absurd rfl (other _ _)
  case subscribe | unsubscribe | pSubscribe | pUnsubscribe | watch | unwatch | qSub | qUnsub =>
    cases accepted
  all_goals rfl

/-- On its own the command does what it does in a transaction, except for the owners. -/
theorem dispatch_eq {queue : List Command} (accepted : queueRefusal cfg queue cmd = none)
    (d : Direct s.conn.isSubscribed cmd node) (same : s.node = node.owning owners) :
    s.dispatch cfg m cmd =
      let r := node.runQueued cfg m s.conn.origin cmd
      ([r.1], { s with node := r.2.owning (claimed s.conn.origin cmd r.1 owners) }) := by
  by_cases other : ∃ channel message, cmd = .publish channel message
  · obtain ⟨channel, message, rfl⟩ := other
    rw [dispatch_publish, same]
    rfl
  · push Not at other
    have mode (subscribed : s.conn.isSubscribed = true) : ∃ msg, cmd = .ping msg := by
      have may := d.mode subscribed
      cases cmd
      case publish => exact absurd rfl (other _ _)
      case ping => exact ⟨_, rfl⟩
      all_goals cases may
    have primary : ¬(s.node.replica && isWriteCommand cmd) = true := by
      rw [same]
      intro readOnly
      obtain ⟨replica, write⟩ := (Bool.and_eq_true _ _).mp readOnly
      exact absurd ((d.primary write).symm.trans replica) Bool.false_ne_true
    rw [dispatch_queueable accepted other, direct_eq mode primary d.store, runQueued_eq other]
    by_cases write : isWriteCommand cmd = true
    · rw [if_pos write, if_pos write, same]
      have server := @executeOrderedWrite_eq cmd owners cfg.codec m.env node.server (d.healthy write)
        (d.unwrapped write) s.conn.origin
      dsimp only
      rw [← wrote_owning _ owners]
      unfold Node.executeOrderedWrite
      dsimp only [Node.owning]
      rw [server]
    · have unclaimed (reply : Value) : claimed s.conn.origin cmd reply owners = owners := by
        cases cmd
        case eSet => exact absurd rfl write
        all_goals rfl
      rw [if_neg write, if_neg write, same]
      dsimp only
      rw [unclaimed]
      rfl

/-! ### Commands about the server -/

/-- Inside a transaction the store answers a command about the server. -/
theorem executeReporting_done {codec : Codec} {env : Env} {v : Value} (store : KeyValueStore)
    (reads : mutationScope cmd = .readOnly) (direct : readsKeyspace cmd = false)
    (answer : program codec env cmd = .done v) : (executeReporting codec env cmd store).1 = v := by
  unfold executeReporting
  rw [reads]
  dsimp only
  rw [executeInner_of_room codec direct (makeRoom_of_readOnly reads), answer]
  rfl

theorem unknownSubcommand_ne (container sub : String) {text : String}
    (other : ¬"ERR Unknown subcommand".toList <+: text.toList) :
    unknownSubcommand container sub ≠ .error text := by
  unfold unknownSubcommand
  simp only [String.append_assoc]
  have split : "ERR Unknown subcommand or wrong number of arguments for '" =
    "ERR Unknown subcommand" ++ " or wrong number of arguments for '" := by decide
  change Value.error ("ERR Unknown subcommand or wrong number of arguments for '" ++ _) ≠ _
  rw [split, String.append_assoc]
  exact error_ne _ _ other

theorem handleClientCommand_ne (facts : ServerFacts) (args : List String) (client : ClientMeta) :
    (handleClientCommand facts args client).1 ≠ handledElsewhere "CLIENT" := by
  unfold handleClientCommand
  split
  case h_4 => split <;> exact nofun
  case h_5 =>
    split_ifs
    · exact fun same => absurd (Value.error.inj same) (by decide)
    · exact nofun
  case h_6 =>
    split
    · exact nofun
    · exact nofun
    · simp only [String.append_assoc]
      exact error_ne "ERR Unrecognized option '" _ (by decide)
  case h_8 => exact unknownSubcommand_ne _ _ (by decide)
  all_goals exact nofun

theorem handleConfigCommand_ne (facts : ServerFacts) (store : KeyValueStore) (args : List String) :
    handleConfigCommand facts store args ≠ handledElsewhere "CONFIG" := by
  unfold handleConfigCommand
  split
  case h_1 => exact nofun
  case h_2 =>
    simp only [String.append_assoc]
    refine error_ne _ _ ?_
    decide
  case h_3 =>
    refine error_ne _ _ ?_
    decide
  case h_4 => exact unknownSubcommand_ne _ _ (by decide)

theorem handleModuleCommand_ne (args : List String) :
    handleModuleCommand args ≠ handledElsewhere "MODULE" := by
  unfold handleModuleCommand
  split
  case h_3 => exact unknownSubcommand_ne _ _ (by decide)
  all_goals exact nofun

theorem handleMemoryCommand_ne (args : List String) :
    handleMemoryCommand args ≠ handledElsewhere "MEMORY" := by
  unfold handleMemoryCommand
  split
  case h_1 => exact nofun
  case h_6 => exact unknownSubcommand_ne _ _ (by decide)
  all_goals
    next sub _ =>
      dsimp only
      rw [sub]
      exact fun same => absurd (Value.error.inj same) (by decide)

theorem handlePubSubCommand_ne (args : List String) (hub : PubSubHub) :
    handlePubSubCommand args hub ≠ handledElsewhere "PUBSUB" := by
  unfold handlePubSubCommand
  split
  case h_6 => exact unknownSubcommand_ne _ _ (by decide)
  all_goals exact nofun

theorem handleCommandQuery_ne (facts : ServerFacts) (args : List String) (protover : ℕ) :
    handleCommandQuery facts args protover ≠ handledElsewhere "COMMAND" := by
  unfold handleCommandQuery
  split
  · exact nofun
  · split
    case h_5 =>
      unfold mapOrFlat
      split_ifs <;> exact nofun
    case h_6 => exact unknownSubcommand_ne _ _ (by decide)
    all_goals exact nofun

/-- A command about the server has no such answer outside transactions. -/
theorem serverCommand_ne (server : isServerCommand cmd = true) (free : s.conn.isSubscribed = false)
    (store : KeyValueStore) :
    (s.direct cfg m cmd).1 ≠ (executeReporting cfg.codec m.env cmd store).1 := by
  have reads : isWriteCommand cmd = false := by
    cases cmd <;> first | rfl | cases server
  unfold Session.direct
  rw [if_neg (by rw [free]; exact Bool.false_ne_true), reads, Bool.and_false,
    if_neg Bool.false_ne_true]
  cases cmd
  case info | bgSave | lastSave | replicaOfNoOne =>
    rw [executeReporting_done store rfl rfl rfl]
    exact nofun
  case client =>
    rw [executeReporting_done store rfl rfl rfl]
    exact handleClientCommand_ne _ _ _
  case config =>
    rw [executeReporting_done store rfl rfl rfl]
    exact handleConfigCommand_ne _ _ _
  case commandQuery =>
    rw [executeReporting_done store rfl rfl rfl]
    exact handleCommandQuery_ne _ _ _
  case cluster =>
    rw [executeReporting_done store rfl rfl rfl]
    exact fun same => absurd (Value.error.inj same) (by decide)
  case module =>
    rw [executeReporting_done store rfl rfl rfl]
    exact handleModuleCommand_ne _
  case memory =>
    rw [executeReporting_done store rfl rfl rfl]
    exact handleMemoryCommand_ne _
  case pubSub =>
    rw [executeReporting_done store rfl rfl rfl]
    exact handlePubSubCommand_ne _ _
  case save =>
    rw [executeReporting_done store rfl rfl rfl]
    dsimp only
    split
    · exact nofun
    · refine error_ne _ _ ?_
      decide
  all_goals cases server

theorem runQueued_reply (other : ∀ channel message, cmd ≠ .publish channel message) (origin : ℕ) :
    (node.runQueued cfg m origin cmd).1 =
      (executeReporting cfg.codec m.env cmd node.server.store).1 := by
  rw [runQueued_eq other]
  split_ifs <;> rfl

/-- A reply of the store in a transaction is none of the handler's, if it is not about `DEDUP`. -/
theorem runQueued_ne {text : String} (listed : text ∈ handlerTexts) (origin : ℕ)
    (other : ∀ channel message, cmd ≠ .publish channel message)
    (own : dedupError ≠ .error text ∨ ∀ client id inner, cmd ≠ .dedup client id inner) :
    (node.runQueued cfg m origin cmd).1 ≠ .error text := by
  rw [runQueued_reply other]
  by_cases wrapped : ∃ client id inner, cmd = .dedup client id inner
  · obtain ⟨client, id, inner, rfl⟩ := wrapped
    rw [executeReporting_dedup]
    exact own.resolve_right fun plain => plain _ _ _ rfl
  · push Not at wrapped
    exact executeReporting_ordinary cfg.codec m.env _ wrapped _ listed

theorem dedupError_ne_onlyPubSub : dedupError ≠ Session.onlyPubSub :=
  fun same => absurd (Value.error.inj same) (by decide)

theorem dedupError_ne_unhealthy : dedupError ≠ unhealthy :=
  fun same => absurd (Value.error.inj same) (by decide)

/-- If the command on its own has the reply that it has in a transaction, it reaches the store. -/
theorem direct_of_reply {queue : List Command} (accepted : queueRefusal cfg queue cmd = none)
    (single : ∀ client id inner, cmd = .dedup client id inner →
      ∀ client' id' inner', inner ≠ .dedup client' id' inner')
    (primary : isWriteCommand cmd = true → node.replica = false) (same : s.node = node.owning owners)
    (reply : (s.dispatch cfg m cmd).1 = [(node.runQueued cfg m s.conn.origin cmd).1]) :
    Direct s.conn.isSubscribed cmd node := by
  by_cases other : ∃ channel message, cmd = .publish channel message
  · obtain ⟨channel, message, rfl⟩ := other
    exact ⟨fun _ => rfl, rfl, nofun, nofun, nofun⟩
  push Not at other
  rw [dispatch_queueable accepted other, List.singleton_inj] at reply
  have mode (subscribed : s.conn.isSubscribed = true) : ∃ msg, cmd = .ping msg := by
    by_contra closed
    have refused : (s.direct cfg m cmd).1 = Session.onlyPubSub := by
      unfold Session.direct
      rw [if_pos]
      rw [subscribed, Bool.true_and]
      cases cmd
      case ping => exact absurd ⟨_, rfl⟩ closed
      all_goals rfl
    exact runQueued_ne List.mem_cons_self _ other (.inl dedupError_ne_onlyPubSub)
      (reply.symm.trans refused)
  have store : isServerCommand cmd = false := by
    by_contra server
    have free : s.conn.isSubscribed = false := by
      by_contra subscribed
      obtain ⟨msg, rfl⟩ := mode (by simpa using subscribed)
      exact server rfl
    exact serverCommand_ne (by simpa using server) free _ (reply.trans (runQueued_reply other _))
  have readOnly : ¬(s.node.replica && isWriteCommand cmd) = true := by
    rw [same, Bool.and_eq_true]
    rintro ⟨replica, write⟩
    exact absurd ((primary write).symm.trans replica) Bool.false_ne_true
  have written (write : isWriteCommand cmd = true) : (node.runQueued cfg m s.conn.origin cmd).1 =
      ((node.server.owning owners).executeOrderedWrite cfg.codec m.env s.conn.origin cmd).1 := by
    rw [← reply, direct_eq mode readOnly store, if_pos write, same]
    rfl
  have healthy (write : isWriteCommand cmd = true) : node.server.persistenceHealthy = true := by
    by_contra sick
    refine runQueued_ne (List.mem_cons_of_mem _ List.mem_cons_self) _ other
      (.inl dedupError_ne_unhealthy) ((written write).trans ?_)
    unfold ServerState.executeOrderedWrite
    rw [if_pos (by simpa [ServerState.owning] using sick)]
  refine ⟨fun subscribed => ?_, store, primary, healthy, ?_⟩
  · obtain ⟨msg, rfl⟩ := mode subscribed
    rfl
  · rintro write client id inner rfl
    have answer := written write
    rw [runQueued_reply other, executeReporting_dedup] at answer
    have plain := single client id inner rfl
    unfold ServerState.executeOrderedWrite at answer
    rw [if_neg (by simpa [ServerState.owning] using healthy write)] at answer
    dsimp only [ServerState.unwrapDedup] at answer
    split at answer
    · cases answer
    · exact executeReporting_ordinary cfg.codec m.env _ plain _ (by decide) answer.symm

end

/-! ## Frames -/

/-- A command that a transaction of the connection accepts. -/
structure Queueable (cfg : ServerConfig) (conn : Connection) (cmd : Command) : Prop where
  command : isSessionCommand conn.transport cmd = false
  inScope : ∀ node, (Session.mk conn node).refusal cfg cmd = none
  plain : cmd ≠ .multi ∧ cmd ≠ .discard ∧ cmd ≠ .exec
  accepted : ∃ queue, queueRefusal cfg queue cmd = none
  single : ∀ client id inner, cmd = .dedup client id inner →
    ∀ client' id' inner', inner ≠ .dedup client' id' inner'

section

variable {cfg : ServerConfig} {s : Session} {raw : Bytes} {cmd : Command}

theorem handleFrame_command (parsed : commandOf raw = some cmd) (moments : ℕ → Moment) (together : Bool) :
    s.handleFrame cfg moments together raw = (s.wake together).parsed cfg moments cmd := by
  unfold commandOf at parsed
  unfold Session.handleFrame
  split at parsed
  · next value rest frame =>
    rw [frame]
    dsimp only
    cases decoded : fromValue value with
    | error e =>
      rw [decoded] at parsed
      cases parsed
    | ok cmd' =>
      rw [decoded] at parsed
      cases parsed
      rfl
  · cases parsed

theorem unanswered_of_none (undecoded : commandOf raw = none) (moments : ℕ → Moment) :
    (s.handleFrame cfg moments false raw).1 ≠ [queued] := by
  unfold commandOf at undecoded
  unfold Session.handleFrame
  dsimp only
  split at undecoded
  · next value rest frame =>
    rw [frame]
    cases decoded : fromValue value with
    | error e =>
      dsimp only
      rw [decoded]
      exact nofun
    | ok cmd =>
      rw [decoded] at undecoded
      cases undecoded
  · next e frame =>
    rw [frame]
    dsimp only
    unfold protocolError
    split
    · exact nofun
    · split_ifs <;> exact nofun

theorem unnested_of_commandOf (parsed : commandOf raw = some cmd) (client : String) (id : ℕ)
    (inner : Command) (wrapped : cmd = .dedup client id inner) :
    ∀ client' id' inner', inner ≠ .dedup client' id' inner' := by
  unfold commandOf at parsed
  split at parsed
  · next value rest frame =>
    cases decoded : fromValue value with
    | error e =>
      rw [decoded] at parsed
      cases parsed
    | ok cmd' =>
      rw [decoded] at parsed
      obtain rfl : cmd' = cmd := Option.some.inj parsed
      exact unnested_of_fromValue (wrapped ▸ decoded)
  · cases parsed

theorem exec_ne_queued (moments : ℕ → Moment) : (s.exec cfg moments).1 ≠ queued := by
  unfold Session.exec
  split
  · exact nofun
  · dsimp only
    split_ifs <;> exact nofun

theorem discard_ne_queued : s.discard.1 ≠ queued := by
  unfold Session.discard
  split
  · exact nofun
  · simp [ok, queued]

theorem multi_ne_queued : s.multi.1 ≠ queued := by
  unfold Session.multi
  split_ifs
  · exact nofun
  · simp [ok, queued]

/-- A frame that is answered with `QUEUED` is a command in the queue, and nothing else has happened. -/
theorem queued_frame {queue : List Command} (opened : s.conn.multiQueue = some queue)
    (authenticated : s.conn.authenticated = true) (moments : ℕ → Moment)
    (answered : (s.handleFrame cfg moments false raw).1 = [queued]) :
    ∃ cmd, commandOf raw = some cmd ∧ Queueable cfg s.conn cmd ∧
      (s.handleFrame cfg moments false raw).2 =
        { s with conn := { (s.wake false).conn with multiQueue := some (queue ++ [cmd]) } } := by
  cases parsed : commandOf raw with
  | none => exact absurd answered (unanswered_of_none parsed moments)
  | some cmd =>
    rw [handleFrame_command parsed] at answered ⊢
    have woken : (s.wake false).conn.authenticated = true := authenticated
    cases command : isSessionCommand (s.wake false).conn.transport cmd with
    | true =>
      obtain ⟨reply, conn, eq, other, -⟩ := parsed_of_session woken command moments
      rw [eq] at answered
      exact absurd (List.singleton_inj.mp answered) other
    | false =>
      rw [parsed_of_not_session woken command] at answered ⊢
      cases refused : (s.wake false).refusal cfg cmd with
      | some reply =>
        obtain ⟨e, rfl⟩ := refusal_isError refused
        rw [refused] at answered
        cases answered
      | none =>
        rw [refused] at answered
        dsimp only at answered ⊢
        have plain : cmd ≠ .multi ∧ cmd ≠ .discard ∧ cmd ≠ .exec := by
          refine ⟨?_, ?_, ?_⟩
          · rintro rfl
            exact multi_ne_queued (List.singleton_inj.mp answered)
          · rintro rfl
            exact discard_ne_queued (List.singleton_inj.mp answered)
          · rintro rfl
            exact exec_ne_queued moments (List.singleton_inj.mp answered)
        have inside : (s.wake false).Inside queue (s.conn.multiDirty = true) :=
          ⟨opened, Iff.rfl, authenticated⟩
        rw [command_of_open inside.opened plain] at answered ⊢
        obtain ⟨accepted, -, -⟩ | ⟨e, -, refusal, -⟩ := inside.enqueue cmd
        · refine ⟨cmd, rfl, ⟨command, fun _ => refused, plain, ⟨queue, accepted⟩,
            unnested_of_commandOf parsed⟩, ?_⟩
          unfold Session.enqueue
          rw [accepted]
          rfl
        · cases refusal.symm.trans (List.singleton_inj.mp answered)

/-- The queue does not decide what is accepted into it. -/
theorem Queueable.congr {conn conn' : Connection} (h : Queueable cfg conn cmd)
    (transport : conn'.transport = conn.transport) (scopes : conn'.syncScopes = conn.syncScopes) :
    Queueable cfg conn' cmd := by
  refine ⟨transport ▸ h.command, fun node => ?_, h.plain, h.accepted, h.single⟩
  have inScope := h.inScope node
  unfold Session.refusal at inScope ⊢
  dsimp only at inScope ⊢
  rwa [transport, scopes]

theorem wake_of_awake (awake : s.conn.isSubscribed = decide (0 < s.conn.subscriptions)) :
    s.wake false = s := by
  unfold Session.wake
  simp only [Bool.and_false, Bool.false_eq_true, if_false]
  rw [← awake]

theorem sendEach_cons (moments : ℕ → Moment) (raw : Bytes) (raws : List Bytes) :
    s.sendEach cfg moments (raw :: raws) =
      ((s.handleFrame cfg moments false raw).1 ::
        ((s.handleFrame cfg moments false raw).2.sendEach cfg (fun i => moments (i + 1)) raws).1,
      ((s.handleFrame cfg moments false raw).2.sendEach cfg (fun i => moments (i + 1)) raws).2) := rfl

/-- Frames that are all answered with `QUEUED` fill the queue. -/
theorem queued_frames {queue : List Command} {raws : List Bytes}
    (opened : s.conn.multiQueue = some queue) (authenticated : s.conn.authenticated = true)
    (awake : s.conn.isSubscribed = decide (0 < s.conn.subscriptions)) (moments : ℕ → Moment)
    (answered : ∀ replies ∈ (s.sendEach cfg moments raws).1, replies = [queued]) :
    ∃ cmds, raws.map commandOf = cmds.map some ∧ (∀ cmd ∈ cmds, Queueable cfg s.conn cmd) ∧
      (s.sendEach cfg moments raws).2 =
        { s with conn := { s.conn with multiQueue := some (queue ++ cmds) } } := by
  induction raws generalizing s queue moments with
  | nil =>
    refine ⟨[], rfl, nofun, ?_⟩
    rw [List.append_nil, ← opened]
    rfl
  | cons raw raws ih =>
    rw [sendEach_cons, List.forall_mem_cons] at answered
    obtain ⟨first, rest⟩ := answered
    obtain ⟨cmd, parsed, queueable, after⟩ := queued_frame opened authenticated moments first
    rw [wake_of_awake awake] at after
    rw [after] at rest
    obtain ⟨cmds, all, each, final⟩ := ih
      (s := { s with conn := { s.conn with multiQueue := some (queue ++ [cmd]) } }) rfl authenticated
      awake (fun i => moments (i + 1)) rest
    refine ⟨cmd :: cmds, ?_, ?_, ?_⟩
    · rw [List.map_cons, List.map_cons, parsed, all]
    · exact List.forall_mem_cons.mpr ⟨queueable, fun cmd hcmd => (each cmd hcmd).congr rfl rfl⟩
    · rw [sendEach_cons, after, final, List.append_assoc]
      rfl

theorem handleFrame_direct (parsed : commandOf raw = some cmd) (queueable : Queueable cfg s.conn cmd)
    (idle : s.conn.multiQueue = none) (authenticated : s.conn.authenticated = true)
    (moments : ℕ → Moment) :
    s.handleFrame cfg moments false raw = (s.wake false).dispatch cfg (moments 0) cmd := by
  rw [handleFrame_command parsed]
  have woken : (s.wake false).conn.authenticated = true := authenticated
  have command : isSessionCommand (s.wake false).conn.transport cmd = false := queueable.command
  have inScope : (s.wake false).refusal cfg cmd = none := queueable.inScope s.node
  rw [parsed_of_not_session woken command, inScope]
  have free : (s.wake false).conn.multiQueue = none := idle
  cases cmd
  case multi => exact absurd rfl queueable.plain.1
  case discard => exact absurd rfl queueable.plain.2.1
  case exec => exact absurd rfl queueable.plain.2.2
  all_goals simp only [Session.command, free]

/-- The owners after the commands on their own. -/
def Node.claimedAlong (cfg : ServerConfig) (origin : ℕ) :
    (ℕ → Moment) → List Command → Node → Std.ExtTreeMap String ℕ → Std.ExtTreeMap String ℕ
  | _, [], _, owners => owners
  | moments, cmd :: queue, node, owners =>
    let r := node.runQueued cfg (moments 0) origin cmd
    claimedAlong cfg origin (fun i => moments (i + 1)) queue r.2 (claimed origin cmd r.1 owners)

theorem runQueued_replica (m : Moment) (origin : ℕ) (node : Node) :
    (node.runQueued cfg m origin cmd).2.replica = node.replica := by
  unfold Node.runQueued
  split
  · rfl
  · split_ifs <;> rfl

/-- Commands sent one after the other have the replies of a transaction if and only if each of them
reaches the store, and then they differ from it in the owners only. -/
theorem sendEach_direct (owners : Std.ExtTreeMap String ℕ) (node : Node) {cmds : List Command}
    {raws : List Bytes} (parsed : raws.map commandOf = cmds.map some)
    (queueable : ∀ cmd ∈ cmds, Queueable cfg s.conn cmd) (idle : s.conn.multiQueue = none)
    (authenticated : s.conn.authenticated = true)
    (primary : ∀ cmd ∈ cmds, isWriteCommand cmd = true → node.replica = false)
    (same : s.node = node.owning owners) (moments : ℕ → Moment) :
    let direct := node.AllAlong cfg s.conn.origin
      (fun _ cmd node => Direct (0 < s.conn.subscriptions) cmd node) moments cmds
    let run := node.runQueue cfg s.conn.origin moments cmds
    ((s.sendEach cfg moments raws).1 = run.1.map (fun v => [v]) ↔ direct) ∧
      (direct → (s.sendEach cfg moments raws).2.node =
        run.2.owning (node.claimedAlong cfg s.conn.origin moments cmds owners)) := by
  induction cmds generalizing raws s node owners moments with
  | nil =>
    obtain rfl := List.map_eq_nil_iff.mp parsed
    exact ⟨iff_of_true rfl trivial, fun _ => same⟩
  | cons cmd cmds ih =>
    cases raws with
    | nil => cases parsed
    | cons raw raws =>
      obtain ⟨head, tail⟩ := List.cons.inj parsed
      obtain ⟨accepts, others⟩ := List.forall_mem_cons.mp queueable
      obtain ⟨first, rest⟩ := List.forall_mem_cons.mp primary
      obtain ⟨queue, accepted⟩ := accepts.accepted
      rw [sendEach_cons, handleFrame_direct head accepts idle authenticated]
      have mode : (s.wake false).conn.isSubscribed = decide (0 < s.conn.subscriptions) := by
        unfold Session.wake
        simp only [Bool.and_false, Bool.false_eq_true, if_false]
      by_cases direct : Direct (0 < s.conn.subscriptions) cmd node
      · have step := dispatch_eq (m := moments 0) (s := s.wake false) accepted
          (mode ▸ direct) same
        dsimp only at step
        rw [step]
        obtain ⟨replies, nodes⟩ := ih _ _ tail (s := { (s.wake false) with
            node := (node.runQueued cfg (moments 0) s.conn.origin cmd).2.owning
              (claimed s.conn.origin cmd (node.runQueued cfg (moments 0) s.conn.origin cmd).1 owners) })
          (fun cmd hcmd => (others cmd hcmd).congr rfl rfl) idle authenticated
          (fun cmd hcmd write => (runQueued_replica ..).trans (rest cmd hcmd write)) rfl
          (fun i => moments (i + 1))
        refine ⟨⟨fun all => ⟨direct, replies.mp (List.cons.inj all).2⟩, fun along => ?_⟩,
          fun along => nodes along.2⟩
        exact congrArg (List.cons _) (replies.mpr along.2)
      · refine ⟨⟨fun all => absurd ?_ direct, fun along => absurd along.1 direct⟩,
          fun along => absurd along.1 direct⟩
        rw [← mode]
        exact direct_of_reply (s := s.wake false) accepted accepts.single first same
          (List.cons.inj all).1

/-! ## Owners -/

theorem runQueued_ephemeral (cfg : ServerConfig) (cmd : Command) (m : Moment) (origin : ℕ) (node : Node) :
    (node.runQueued cfg m origin cmd).2.server.ephemeral = node.server.ephemeral := by
  have own := runQueued_owning node.server.ephemeral cfg m origin cmd node
  exact congrArg (fun r => r.2.server.ephemeral) own

variable {node : Node} {owners : Std.ExtTreeMap String ℕ} {origin : ℕ}

/-- A claim is without effect if and only if the key belongs to the claimant already. -/
theorem insert_eq_iff {key : String} {before : Std.ExtTreeMap String ℕ}
    (agree : ∀ k : String, owners[k]? = before[k]? ∨ owners[k]? = some origin) :
    owners.insert key origin = before ↔ owners = before ∧ before[key]? = some origin := by
  constructor
  · rintro rfl
    have there : (owners.insert key origin)[key]? = some origin := by simp
    refine ⟨Std.ExtTreeMap.ext_getElem? fun k => ?_, there⟩
    rcases agree k with same | owned
    · exact same
    · by_cases eq : k = key
      · subst eq
        exact owned.trans there.symm
      · simp [Std.ExtTreeMap.getElem?_insert, Ne.symm eq]
  · rintro ⟨rfl, owned⟩
    refine Std.ExtTreeMap.ext_getElem? fun k => ?_
    rw [Std.ExtTreeMap.getElem?_insert]
    split_ifs with eq
    · rw [← Std.LawfulEqCmp.eq_of_compare eq, owned]
    · rfl

theorem claimed_iff {m : Moment}
    (agree : ∀ k : String, owners[k]? = node.server.ephemeral[k]? ∨ owners[k]? = some origin) :
    claimed origin cmd (node.runQueued cfg m origin cmd).1 owners = node.server.ephemeral ↔
      owners = node.server.ephemeral ∧ OwnsEphemeral cfg origin m cmd node := by
  cases cmd
  case eSet key val =>
    rw [runQueued_reply (by rintro _ _ ⟨⟩)]
    unfold claimed
    cases failed : (executeReporting cfg.codec m.env (.eSet key val) node.server.store).1.isError with
    | true =>
      exact (and_iff_left fun _ _ _ fine => absurd (fine.symm.trans failed) Bool.false_ne_true).symm
    | false =>
      refine (insert_eq_iff agree).trans
        (and_congr_right fun _ => ⟨?_, fun owned => owned key val rfl failed⟩)
      rintro owned key' val' ⟨⟩ -
      exact owned
  all_goals exact (and_iff_left (by rintro key val ⟨⟩)).symm

theorem claimed_agree
    (agree : ∀ k : String, owners[k]? = node.server.ephemeral[k]? ∨ owners[k]? = some origin)
    (reply : Value) (k : String) :
    (claimed origin cmd reply owners)[k]? = node.server.ephemeral[k]? ∨
      (claimed origin cmd reply owners)[k]? = some origin := by
  unfold claimed
  split
  · split_ifs
    · exact agree k
    · rw [Std.ExtTreeMap.getElem?_insert]
      split_ifs
      · exact .inr rfl
      · exact agree k
  · exact agree k

variable (cfg origin node owners) in
theorem claimedAlong_iff (cmds : List Command)
    (agree : ∀ k : String, owners[k]? = node.server.ephemeral[k]? ∨ owners[k]? = some origin)
    (moments : ℕ → Moment) :
    node.claimedAlong cfg origin moments cmds owners = node.server.ephemeral ↔
      owners = node.server.ephemeral ∧ node.AllAlong cfg origin (OwnsEphemeral cfg origin) moments cmds := by
  induction cmds generalizing node owners moments with
  | nil => exact (and_iff_left trivial).symm
  | cons cmd cmds ih =>
    have same := runQueued_ephemeral cfg cmd (moments 0) origin node
    have further := @ih (node.runQueued cfg (moments 0) origin cmd).2
      (claimed origin cmd (node.runQueued cfg (moments 0) origin cmd).1 owners)
      (by rw [same]; exact claimed_agree agree _) (fun i => moments (i + 1))
    rw [same, claimed_iff agree] at further
    exact further.trans and_assoc

/-! ## Transactions -/

theorem allAlong_and {P Q : Moment → Command → Node → Prop} {cmds : List Command}
    (moments : ℕ → Moment) :
    node.AllAlong cfg origin (fun m cmd node => P m cmd node ∧ Q m cmd node) moments cmds ↔
      node.AllAlong cfg origin P moments cmds ∧ node.AllAlong cfg origin Q moments cmds := by
  induction cmds generalizing node moments with
  | nil => exact (and_iff_left trivial).symm
  | cons cmd cmds ih => exact (and_congr_right' (ih _)).trans and_and_and_comm

variable (cfg origin node) in
theorem runQueue_ephemeral (cmds : List Command) (moments : ℕ → Moment) :
    (node.runQueue cfg origin moments cmds).2.server.ephemeral = node.server.ephemeral := by
  induction cmds generalizing node moments with
  | nil => rfl
  | cons cmd cmds ih => exact (ih _ _).trans (runQueued_ephemeral ..)

theorem runQueued_healthy {m : Moment} (reads : isWriteCommand cmd = false) :
    (node.runQueued cfg m origin cmd).2.server.persistenceHealthy = node.server.persistenceHealthy := by
  unfold Node.runQueued
  split
  · rfl
  · rw [reads]
    rfl

/-- A transaction whose commands all reach the store on their own is not refused as a whole. -/
theorem writable_of_direct {subscribed : Bool} {cmds : List Command} {moments : ℕ → Moment}
    (direct : node.AllAlong cfg origin (fun _ cmd node => Direct subscribed cmd node) moments cmds)
    (write : cmds.any isWriteCommand = true) :
    node.replica = false ∧ node.server.persistenceHealthy = true := by
  induction cmds generalizing node moments with
  | nil => cases write
  | cons cmd cmds ih =>
    cases here : isWriteCommand cmd with
    | true => exact ⟨direct.1.primary here, direct.1.healthy here⟩
    | false =>
      rw [List.any_cons, here, Bool.false_or] at write
      obtain ⟨primary, healthy⟩ := ih direct.2 write
      exact ⟨(runQueued_replica ..).symm.trans primary, (runQueued_healthy here).symm.trans healthy⟩

theorem refusal_of_keyLess (keyLess : commandScope cmd = .keyLess) : s.refusal cfg cmd = none := by
  unfold Session.refusal scopeRefusal
  rw [keyLess]
  split_ifs <;> rfl

/-- A transaction of the connection with a queue. -/
def Session.withQueue (queue : List Command) (s : Session) : Session :=
  { s with conn := { (s.wake false).conn with multiQueue := some queue, multiDirty := false } }

theorem multi_frame (idle : s.conn.multiQueue = none) (authenticated : s.conn.authenticated = true)
    (opens : commandOf raw = some .multi) (moments : ℕ → Moment) :
    (s.handleFrame cfg moments false raw).2 = s.withQueue [] := by
  have woken : (s.wake false).conn.authenticated = true := authenticated
  have free : ¬(s.wake false).conn.multiQueue.isSome = true := by
    change ¬s.conn.multiQueue.isSome = true
    rw [idle]
    exact Bool.false_ne_true
  rw [handleFrame_command opens, parsed_of_not_session woken rfl, refusal_of_keyLess rfl]
  change (s.wake false).multi.2 = _
  unfold Session.multi
  rw [if_neg free]
  rfl

variable (cfg) in
theorem exec_frame (authenticated : s.conn.authenticated = true)
    (awake : s.conn.isSubscribed = decide (0 < s.conn.subscriptions))
    (closes : commandOf raw = some .exec) (moments : ℕ → Moment) :
    s.handleFrame cfg moments false raw = ([(s.exec cfg moments).1], (s.exec cfg moments).2) := by
  rw [handleFrame_command closes, wake_of_awake awake, parsed_of_not_session authenticated rfl,
    refusal_of_keyLess rfl]
  rfl

/-- `EXEC` takes a queue: its writes are allowed, and no watched key has changed. -/
def Session.Passes (queue : List Command) (s : Session) : Prop :=
  (queue.any isWriteCommand = true →
    s.node.replica = false ∧ s.node.server.persistenceHealthy = true) ∧ s.invalidated = false

variable (cfg) in
theorem exec_of_passes {queue : List Command} (opened : s.conn.multiQueue = some queue)
    (clean : s.conn.multiDirty = false) (passes : s.Passes queue) (moments : ℕ → Moment) :
    s.exec cfg moments =
      let run := s.node.runQueue cfg s.conn.origin moments queue
      (arrayOf run.1,
        (Session.mk { s.conn with multiQueue := none } run.2).flushWatches) := by
  obtain ⟨writable, valid⟩ := passes
  have primary : (s.node.replica && queue.any isWriteCommand) = false := by
    cases write : queue.any isWriteCommand with
    | true => rw [(writable write).1, Bool.false_and]
    | false => rw [Bool.and_false]
  have healthy : (queue.any isWriteCommand && !s.node.server.persistenceHealthy) = false := by
    cases write : queue.any isWriteCommand with
    | true => rw [(writable write).2, Bool.not_true, Bool.and_false]
    | false => rw [Bool.false_and]
  unfold Session.exec
  rw [opened]
  simp only [clean, primary, healthy, valid, Bool.false_eq_true, if_false]

theorem exec_of_not_passes {queue : List Command} (opened : s.conn.multiQueue = some queue)
    (clean : s.conn.multiDirty = false) (stops : ¬s.Passes queue) (moments : ℕ → Moment)
    (responses : List Value) : (s.exec cfg moments).1 ≠ arrayOf responses := by
  unfold Session.exec
  rw [opened]
  simp only [clean, Bool.false_eq_true, if_false]
  split_ifs with readOnly sick stale
  · exact nofun
  · exact nofun
  · exact nofun
  · refine absurd ⟨fun write => ⟨?_, ?_⟩, by simpa using stale⟩ stops
    · rw [write, Bool.and_true] at readOnly
      simpa using readOnly
    · rw [write, Bool.true_and] at sick
      simpa using sick

end

/-- What a connection sends for a transaction, at which moments it is queued and run, and when its
commands are sent on their own instead. -/
structure Script where
  multi : Bytes
  raws : List Bytes
  exec : Bytes
  queueing : ℕ → Moment
  running : ℕ → Moment

namespace Script

variable (cfg : ServerConfig) (script : Script) (s : Session)

/-- The answers to the commands inside the transaction, and the session before `EXEC`. -/
def queue : List (List Value) × Session :=
  (s.handleFrame cfg script.queueing false script.multi).2.sendEach cfg script.queueing script.raws

/-- `EXEC` answers with the replies to the same commands sent one after the other, and leaves the same
node. -/
def Transparent : Prop :=
  let (replies, after) := (script.queue cfg s).2.handleFrame cfg script.running false script.exec
  let (each, single) := s.sendEach cfg script.running script.raws
  (∃ responses, replies = [arrayOf responses] ∧ each = responses.map fun v => [v]) ∧
    after.node.SameContent single.node

end Script

/-- `EXEC` is transparent if and only if no watched key has changed, every command would reach the store
on its own, and the connection owns the ephemeral keys that it sets. -/
theorem exec_transparent_iff (cfg : ServerConfig) {s : Session} (idle : s.conn.multiQueue = none)
    (authenticated : s.conn.authenticated = true) (script : Script)
    (opens : commandOf script.multi = some .multi) (closes : commandOf script.exec = some .exec)
    (accepted : ∀ replies ∈ (script.queue cfg s).1, replies = [queued]) :
    script.Transparent cfg s ↔
      s.invalidated = false ∧ s.node.AllAlong cfg s.conn.origin
        (fun m cmd node =>
          Direct (0 < s.conn.subscriptions) cmd node ∧ OwnsEphemeral cfg s.conn.origin m cmd node)
        script.running (script.raws.filterMap commandOf) := by
  obtain ⟨multi, raws, exec, before, moments⟩ := script
  dsimp only at opens closes
  unfold Script.Transparent
  unfold Script.queue at accepted ⊢
  dsimp only at accepted ⊢
  rw [multi_frame idle authenticated opens] at accepted ⊢
  have mode : (s.wake false).conn.isSubscribed = decide (0 < s.conn.subscriptions) := by
    unfold Session.wake
    simp only [Bool.and_false, Bool.false_eq_true, if_false]
  obtain ⟨cmds, parsed, allowed, filled⟩ :=
    queued_frames (s := s.withQueue []) rfl authenticated mode before accepted
  have filled : ((s.withQueue []).sendEach cfg before raws).2 = s.withQueue cmds := filled
  have queueable (cmd : Command) (hcmd : cmd ∈ cmds) : Queueable cfg s.conn cmd :=
    (allowed cmd hcmd).congr rfl rfl
  have all : raws.filterMap commandOf = cmds := by
    simpa [List.filterMap_map] using congrArg (List.filterMap id) parsed
  have closing := exec_frame cfg (s := s.withQueue cmds) authenticated mode closes moments
  rw [filled]
  rw [closing, all, allAlong_and]
  by_cases passes : s.Passes cmds
  · have run := exec_of_passes cfg (s := s.withQueue cmds) rfl rfl passes moments
    have primary (cmd : Command) (hcmd : cmd ∈ cmds) (write : isWriteCommand cmd = true) :
        s.node.replica = false := (passes.1 (List.any_eq_true.mpr ⟨cmd, hcmd, write⟩)).1
    obtain ⟨replies, content⟩ := sendEach_direct s.node.server.ephemeral s.node
      parsed queueable idle authenticated primary rfl moments
    have owners := claimedAlong_iff cfg s.node s.node.server.ephemeral s.conn.origin cmds
      (fun _ => .inl rfl) moments
    have kept := runQueue_ephemeral cfg s.node s.conn.origin cmds moments
    rw [run]
    constructor
    · rintro ⟨⟨responses, array, each⟩, same⟩
      obtain rfl := Option.some.inj (Value.array.inj (List.singleton_inj.mp array))
      have direct := replies.mp each
      refine ⟨passes.2, direct, (owners.mp ?_).2⟩
      have final := congrArg (fun node => node.server.ephemeral) same
      rw [content direct] at final
      exact final.symm.trans kept
    · rintro ⟨-, direct, owned⟩
      refine ⟨⟨_, rfl, replies.mpr direct⟩, ?_⟩
      rw [content direct, owners.mpr ⟨rfl, owned⟩, ← kept]
      rfl
  · constructor
    · rintro ⟨⟨responses, array, -⟩, -⟩
      exact absurd (List.singleton_inj.mp array)
        (exec_of_not_passes (s := s.withQueue cmds) rfl rfl passes moments responses)
    · rintro ⟨valid, direct, -⟩
      exact absurd ⟨writable_of_direct direct, valid⟩ passes

/-- Send requests of a session as a transaction, all at one moment. -/
def Script.ofRequests (requests : List (List String)) : Script where
  multi := request ["MULTI"]
  raws := requests.map request
  exec := request ["EXEC"]
  queueing := atStart
  running := atStart

/-- A write that must not be repeated. -/
def wrappedWrite : Script := .ofRequests [["DEDUP", "c", "1", "SET", "a", "1"]]

/-- A transaction accepts a wrapped write, and does not run it. -/
theorem wrapped_write_lost : (∀ replies ∈ (wrappedWrite.queue .scoped scopedSession).1, replies = [queued]) ∧
    ¬wrappedWrite.Transparent .scoped scopedSession := by
  constructor
  · rintro replies (_ | ⟨_, ⟨⟩⟩)
    rfl
  · rintro ⟨⟨responses, array, each⟩, -⟩
    obtain rfl : [dedupError] = responses := Option.some.inj (Value.array.inj (List.singleton_inj.mp array))
    have single : [[ok]] = [[dedupError]] := each
    exact absurd (List.singleton_inj.mp (List.singleton_inj.mp single)) nofun

/-- A write and a read. -/
def writeAndRead : Script := .ofRequests [["SET", "a", "1"], ["GET", "a"]]

theorem exec_transparent_iff_write_and_read : writeAndRead.Transparent .scoped scopedSession := by
  refine (exec_transparent_iff .scoped rfl rfl writeAndRead rfl rfl ?_).mpr ⟨rfl, ?_⟩
  · rintro replies (_ | ⟨_, _ | ⟨_, ⟨⟩⟩⟩) <;> rfl
  · have direct (cmd : Command) (node : Node) (store : isServerCommand cmd = false)
        (primary : node.replica = false) (healthy : node.server.persistenceHealthy = true)
        (plain : ∀ client id inner, cmd ≠ .dedup client id inner) : Direct false cmd node :=
      ⟨nofun, store, fun _ => primary, fun _ => healthy, fun _ => plain⟩
    exact ⟨⟨direct _ _ rfl rfl rfl nofun, nofun⟩, ⟨direct _ _ rfl rfl rfl nofun, nofun⟩, trivial⟩

end Recached
