import Recached.Reading
import Recached.Refusals
import Recached.Simulation
import Recached.Transparency

/-!
# What a command lists first

A client takes an array for a push if it begins with a tag, and arrays carry data.  `listed` says, of the
state before a command, what the array begins with that answers it: the first of the keys, fields, values
or members that it lists.
-/

namespace Recached

open Text Lapse

section

variable {α : Type} (env : Env) (v : View)

/-- The sorted set of a key; a key that does not live holds the empty one. -/
def zsetAt (key : String) : Option ZSet :=
  match v key with
  | none => some ∅
  | some c => Kind.zset.unwrap c.value

/-- The sets of the keys, unless one of them holds something else. -/
def setsAt : List String → Option (List (Option MemberSet))
  | [] => some []
  | key :: keys =>
    match v key with
    | none => (setsAt keys).map (none :: ·)
    | some c => (Kind.set.unwrap c.value).bind fun s => (setsAt keys).map (some s :: ·)

def firstMember (members : List String) : Option Bytes := members.head?.map asBytes

def firstScored (items : List (String × Binary64)) : Option Bytes := firstMember (items.map Prod.fst)

/-- The members of a sorted set between two bounds. -/
def between (key min max : String) : Option (List (String × Binary64)) :=
  (zsetAt v key).bind fun z =>
    match ScoreBound.parse min, ScoreBound.parse max with
    | .ok min, .ok max => some (rangeByScore z min max)
    | _, _ => none

/-- The first of the keys, fields, values or members that a command answers with a list of. -/
def listed : Command → Option Bytes
  | .mGet (key :: _) => existingStr (v key)
  | .hGetAll key | .hKeys key => (held .hash (v key)).bind fun h => firstMember (h.toList.map Prod.fst)
  | .hVals key => (held .hash (v key)).bind fun h => (h.toList.map Prod.snd).head?
  | .hMGet key (field :: _) => (held .hash (v key)).bind fun h => h[field]?
  | .lRange key start stop => (held .list (v key)).bind fun l => (indexSlice l start stop).head?
  | .lPop key (some n) => (held .list (v key)).bind fun l => (l.take n).head?
  | .rPop key (some n) => (held .list (v key)).bind fun l => (l.reverse.take n).head?
  | .sMembers key => (held .set (v key)).bind fun s => firstMember s.toList
  | .sInter keys => (setsAt v keys).bind fun sets => firstMember (setInter sets).toList
  | .sUnion keys => (setsAt v keys).bind fun sets => firstMember (setUnion sets).toList
  | .sDiff keys => (setsAt v keys).bind fun sets => firstMember (setDiff sets).toList
  | .sPop key (some n) => (held .set (v key)).bind fun s =>
    firstMember (popMembers env.draws (min n s.size) s).1
  | .sRandMember key (some n) => (held .set (v key)).bind fun s =>
    firstMember (if 0 ≤ n then (popMembers env.draws (min n.toNat s.size) s).1
      else drawMembers env.draws (min n.natAbs maxArrayElements) s)
  | .zRange key start stop _ => (zsetAt v key).bind fun z => firstScored (indexSlice (iterAsc z) start stop)
  | .zRevRange key start stop _ => (zsetAt v key).bind fun z =>
    firstScored (indexSlice (iterAsc z).reverse start stop)
  | .zRangeByScore key min max _ limit => (between v key min max).bind fun items =>
    firstScored (applyLimit items limit)
  | .zRevRangeByScore key max min _ limit => (between v key min max).bind fun items =>
    firstScored (applyLimit items.reverse limit)
  | .zMScore key (member :: _) => (held .zset (v key)).bind fun z => z[member]?.map formatScore
  | _ => none

end

/-- A value that is no push and begins, if it is an array, with this text or with a number. -/
def Heads (h : Option Bytes) (v : Value) : Prop :=
  v.tag ≠ 62 ∧ (v.title = h ∨ h = none ∧ ∃ n : ℕ, v.title = some (Decimal.digits n))

/-- A value that is no push and begins with no text. -/
def Value.untitled : Value → Bool
  | .array (some (first :: _)) => first.text.isNone
  | .push _ => false
  | _ => true

theorem heads_of_untitled {v : Value} (h : v.untitled = true) : Heads none v := by
  cases v with
  | array items =>
    refine ⟨?_, .inl ?_⟩
    · show (42 : UInt8) ≠ 62
      decide
    · cases items with
      | none => rfl
      | some items =>
        cases items with
        | nil => rfl
        | cons first rest => exact Option.isNone_iff_eq_none.mp h
  | push items => cases h
  | _ => exact ⟨nofun, .inl rfl⟩

theorem heads_blobs (items : List Bytes) : Heads items.head? (arrayOf (items.map blob)) := by
  refine ⟨(by decide : (42 : UInt8) ≠ 62), .inl ?_⟩
  cases items <;> rfl

theorem heads_members (members : List String) : Heads (firstMember members) (arrayOf (members.map bulk)) := by
  refine ⟨(by decide : (42 : UInt8) ≠ 62), .inl ?_⟩
  cases members <;> rfl

section

variable {α : Type} {k : Kind α} {absent : Value} {l : Option Cell} {h : α → Option Bytes}

theorem heads_readAs {touch : Bool} {f : α → Value} (missing : absent.untitled = true)
    (found : ∀ x, Heads (h x) (f x)) : Heads ((held k l).bind h) (readAs k touch absent f l).2 := by
  unfold readAs held
  cases l with
  | none => exact heads_of_untitled missing
  | some c =>
    dsimp only [Option.bind_some]
    cases k.unwrap c.value with
    | some x => exact found x
    | none => exact heads_of_untitled rfl

theorem heads_updateAs {f : α → α × Value} (missing : absent.untitled = true)
    (found : ∀ x, Heads (h x) (f x).2) : Heads ((held k l).bind h) (updateAs k absent f l).2 := by
  unfold updateAs held
  cases l with
  | none => exact heads_of_untitled missing
  | some c =>
    dsimp only [Option.bind_some]
    cases k.unwrap c.value with
    | some x => exact found x
    | none => exact heads_of_untitled rfl

end

theorem heads_encodeZRange (items : List (String × Binary64)) (withscores : Bool) :
    Heads (firstScored items) (encodeZRange items withscores) := by
  refine ⟨(by decide : (42 : UInt8) ≠ 62), .inl ?_⟩
  cases items <;> cases withscores <;> rfl

theorem heads_zsetRead {v : View} {key : String} {f : ZSet → Except Value Value}
    {h : ZSet → Option Bytes} (fine : ∀ z r, f z = .ok r → Heads (h z) r)
    (failed : ∀ z e, f z = .error e → Heads (h z) e) :
    Heads ((zsetAt v key).bind h) (zsetRead f (v key)).2 := by
  unfold zsetAt zsetRead readAs
  cases v key with
  | none =>
    dsimp only
    split
    · next r same => exact fine ∅ r same
    · next e same => exact failed ∅ e same
  | some c =>
    dsimp only
    cases Kind.zset.unwrap c.value with
    | some z =>
      dsimp only
      split
      · next r same => exact fine z r same
      · next e same => exact failed z e same
    | none => exact heads_of_untitled rfl

theorem heads_between {v : View} {key min max : String} {f : List (String × Binary64) → Value}
    {h : List (String × Binary64) → Option Bytes} (fine : ∀ items, Heads (h items) (f items)) :
    Heads ((between v key min max).bind h) (zRangeByScoreRead min max f (v key)).2 := by
  unfold between
  rw [Option.bind_assoc]
  have bound {text : String} {e : Value} (failed : ScoreBound.parse text = .error e) :
      e.untitled = true := by
    unfold ScoreBound.parse at failed
    dsimp only at failed
    split_ifs at failed
    repeat' split at failed
    all_goals cases failed <;> rfl
  refine heads_zsetRead (fun z r same => ?_) fun z e same => ?_
  all_goals
    cases low : ScoreBound.parse min with
    | error e =>
      rw [low] at same
      cases same
      try exact heads_of_untitled (bound low)
    | ok low' =>
      cases high : ScoreBound.parse max with
      | error e =>
        rw [low, high] at same
        cases same
        try exact heads_of_untitled (bound high)
      | ok high' =>
        rw [low, high] at same
        cases same
        try exact fine _

theorem readSets_setsAt (now : ℕ) (keys : List String) (d : Data) :
    match setsAt (Lapse.live now d) keys with
    | some sets => (readSets keys).run now d = (.ok sets, d)
    | none => (readSets keys).run now d = (.error wrongType, d) := by
  induction keys with
  | nil => rfl
  | cons key keys ih =>
    unfold setsAt readSets
    simp only [Prog.read, Prog.run, Lapse.store]
    cases Lapse.live now d key with
    | none =>
      dsimp only
      rw [Prog.run_bind]
      cases found : setsAt (Lapse.live now d) keys with
      | none =>
        rw [found] at ih
        rw [ih]
        rfl
      | some sets =>
        rw [found] at ih
        rw [ih]
        rfl
    | some c =>
      dsimp only
      cases Kind.set.unwrap c.value with
      | none => rfl
      | some s =>
        dsimp only [Option.bind_some]
        rw [Prog.run_bind]
        cases found : setsAt (Lapse.live now d) keys with
        | none =>
          rw [found] at ih
          rw [ih]
          rfl
        | some sets =>
          rw [found] at ih
          rw [ih]
          rfl

theorem heads_combine (now : ℕ) (keys : List String) (f : List (Option MemberSet) → MemberSet) (d : Data) :
    Heads ((setsAt (Lapse.live now d) keys).bind fun sets => firstMember (f sets).toList)
      ((combine keys f).run now d).1 := by
  have read := readSets_setsAt now keys d
  unfold combine
  rw [Prog.run_bind]
  cases found : setsAt (Lapse.live now d) keys with
  | none =>
    rw [found] at read
    rw [read]
    exact heads_of_untitled rfl
  | some sets =>
    rw [found] at read
    rw [read]
    exact heads_members _

theorem heads_mGet (now : ℕ) (keys : List String) (d : Data) :
    Heads (match keys with
        | key :: _ => existingStr (Lapse.live now d key)
        | [] => none)
      (((mGetKeys keys).bind fun vs => .done (arrayOf vs)).run now d).1 := by
  refine ⟨?_, .inl ?_⟩
  · rw [Prog.run_bind]
    exact (by decide : (42 : UInt8) ≠ 62)
  · cases keys with
    | nil => rfl
    | cons key keys =>
      simp only [Prog.run_bind, mGetKeys, Prog.run]
      rfl

theorem heads_scan (next : ℕ) (items : List Value) : Heads none (scanReply next items) :=
  ⟨(by decide : (42 : UInt8) ≠ 62), .inr ⟨rfl, next, rfl⟩⟩

/-! ### Commands that answer with no list -/

def Untitled (v : Value) : Prop := v.untitled = true

section

variable {α : Type} {k : Kind α} {absent : Value} {l : Option Cell}

theorem untitled_readAs {touch : Bool} {f : α → Value} (missing : Untitled absent)
    (found : ∀ x, Untitled (f x)) : Untitled (readAs k touch absent f l).2 :=
  reply_readAs (P := Untitled) rfl missing found

theorem untitled_updateAs {f : α → α × Value} (missing : Untitled absent) (found : ∀ x, Untitled (f x).2) :
    Untitled (updateAs k absent f l).2 :=
  reply_updateAs (P := Untitled) rfl missing found

theorem untitled_typedEntry {default : α} {f : α → α × Value} (found : ∀ x, Untitled (f x).2) :
    Untitled (typedEntry k default f l).2 :=
  reply_typedEntry (P := Untitled) rfl found

end

theorem untitled_setAct (now : ℕ) (val : Bytes) (opts : SetOptions) (l : Option Cell) :
    Untitled (setAct now val opts l).2 := by
  unfold setAct
  dsimp only
  split
  · rfl
  · split
    · split <;> rfl
    · split
      next e failed =>
        unfold setDeadline at failed
        split at failed
        case h_2 =>
          split_ifs at failed
          cases failed
          rfl
        all_goals cases failed
      · dsimp only
        split <;> rfl

theorem untitled_getSetAct (val : Bytes) (l : Option Cell) : Untitled (getSetAct val l).2 := by
  unfold getSetAct
  split
  · rfl
  · split <;> rfl

theorem untitled_setNxAct (val : Bytes) (l : Option Cell) : Untitled (setNxAct val l).2 := by
  cases l <;> rfl

theorem untitled_incrBy (delta : ℤ) (l : Option Cell) : Untitled (incrBy delta l).2 := by
  refine untitled_typedEntry fun s => ?_
  unfold addToNumber
  split
  · rfl
  · split <;> rfl

theorem untitled_setExpiry (ts : ℕ) (l : Option Cell) : Untitled (setExpiry ts l).2 := by
  cases l <;> rfl

theorem untitled_zAddExec (z : ZSet) (opts : ZAddOptions) (pairs : List (Binary64 × String)) :
    Untitled (zAddExec z opts pairs).2 := by
  unfold zAddExec
  split
  · split <;> rfl
  · rfl

theorem untitled_jSetAct (codec : Codec) (path value : String) (l : Option Cell) :
    Untitled (jSetAct codec path value l).2 := by
  unfold jSetAct
  split
  · rfl
  · split
    · rfl
    · extract_lets leadingIndex
      split_ifs
      · rfl
      · refine untitled_typedEntry fun doc => ?_
        unfold setInDocument
        split <;> rfl

theorem untitled_jGetAct (codec : Codec) (path : Option String) (l : Option Cell) :
    Untitled (jGetAct codec path l).2 := by
  refine untitled_readAs rfl fun doc => ?_
  split <;> rfl

theorem untitled_jMergeAct (codec : Codec) (patch : String) (l : Option Cell) :
    Untitled (jMergeAct codec patch l).2 := by
  unfold jMergeAct
  split
  · rfl
  · split
    · split <;> rfl
    · exact untitled_typedEntry fun doc => rfl

theorem untitled_rlSetAct (limit windowSecs : ℕ) (l : Option Cell) :
    Untitled (rlSetAct limit windowSecs l).2 := by
  unfold rlSetAct
  dsimp only
  split
  · rfl
  · split <;> rfl

theorem untitled_rlCheckAct (now : ℕ) (key : String) (config : Option (ℕ × ℕ)) (l : Option Cell) :
    Untitled (rlCheckAct now key config l).2 := by
  unfold rlCheckAct
  split
  · split <;> rfl
  · split <;> rfl

theorem untitled_combineStore (now : ℕ) (dst : String) (keys : List String)
    (f : List (Option MemberSet) → MemberSet) (d : Data) :
    Untitled ((combineStore dst keys f).run now d).1 := by
  have read := readSets_setsAt now keys d
  unfold combineStore
  rw [Prog.run_bind]
  split at read <;> (rw [read]; rfl)

theorem untitled_mSetPairs (pairs : List (String × Bytes)) : (mSetPairs pairs).Yields Untitled := by
  induction pairs with
  | nil => rfl
  | cons p pairs ih => exact fun l => ih

theorem untitled_sMove (src dst member : String) : (sMove src dst member).Yields Untitled := by
  intro s d
  dsimp only
  split
  · rfl
  · intro l
    dsimp only
    split
    · exact fun l => untitled_typedEntry fun s => rfl
    · rfl

/-- A program answers with what it lists. -/
theorem program_heads (codec : Codec) (env : Env) (cmd : Command) (d : Data) :
    Heads (listed env (live env.now d) cmd) ((program codec env cmd).run env.now d).1 := by
  cases cmd
  case mGet keys =>
    have heads := heads_mGet env.now keys d
    cases keys <;> exact heads
  case hGetAll =>
    refine heads_readAs rfl fun h => ⟨(by decide : (42 : UInt8) ≠ 62), .inl ?_⟩
    cases h.toList <;> rfl
  case hKeys =>
    refine heads_readAs rfl fun h => ⟨(by decide : (42 : UInt8) ≠ 62), .inl ?_⟩
    cases h.toList <;> rfl
  case hVals =>
    refine heads_readAs rfl fun h => ⟨(by decide : (42 : UInt8) ≠ 62), .inl ?_⟩
    cases h.toList <;> rfl
  case hMGet key fields =>
    cases fields with
    | nil => exact heads_of_untitled (untitled_readAs rfl fun h => rfl)
    | cons field fields =>
      exact heads_readAs rfl fun h => ⟨(by decide : (42 : UInt8) ≠ 62), .inl rfl⟩
  case lRange => exact heads_readAs rfl fun l => heads_blobs _
  case lPop key count =>
    cases count with
    | none => exact heads_of_untitled (untitled_updateAs rfl fun l => rfl)
    | some n => exact heads_updateAs rfl fun l => heads_blobs _
  case rPop key count =>
    cases count with
    | none => exact heads_of_untitled (untitled_updateAs rfl fun l => rfl)
    | some n =>
      refine heads_updateAs rfl fun l => ?_
      rw [List.take_reverse]
      exact heads_blobs _
  case sMembers => exact heads_readAs rfl fun s => heads_members _
  case sInter keys => exact heads_combine env.now keys setInter d
  case sUnion keys => exact heads_combine env.now keys setUnion d
  case sDiff keys => exact heads_combine env.now keys setDiff d
  case sPop key count =>
    cases count with
    | none => exact heads_of_untitled (untitled_updateAs rfl fun s => rfl)
    | some n => exact heads_updateAs rfl fun s => heads_members _
  case sRandMember key count =>
    cases count with
    | none => exact heads_of_untitled (untitled_readAs rfl fun s => rfl)
    | some n =>
      refine heads_readAs rfl fun s => ?_
      dsimp only
      split_ifs <;> exact heads_members _
  case zRange | zRevRange =>
    refine heads_zsetRead ?_ nofun
    rintro z r ⟨⟩
    exact heads_encodeZRange _ _
  case zRangeByScore | zRevRangeByScore => exact heads_between fun items => heads_encodeZRange _ _
  case zMScore key members =>
    cases members with
    | nil => exact heads_of_untitled (untitled_readAs rfl fun z => rfl)
    | cons member members =>
      exact heads_readAs rfl fun z => ⟨(by decide : (42 : UInt8) ≠ 62), .inl rfl⟩
  case hScan | sScan =>
    exact reply_readAs (P := Heads none) (heads_of_untitled rfl) (heads_scan 0 []) fun x => heads_scan _ _
  case zScan =>
    exact reply_readAs (P := Heads none) (heads_of_untitled rfl) (heads_scan _ _) fun z => heads_scan _ _
  case zCount key min max =>
    have heads : Heads ((between (live env.now d) key min max).bind fun _ => none)
        (zRangeByScoreRead min max (fun items => .integer items.length) (live env.now d key)).2 :=
      heads_between fun items => heads_of_untitled rfl
    rw [Option.bind_fun_none] at heads
    exact heads
  all_goals refine heads_of_untitled ?_
  case ping msg => cases msg <;> rfl
  case get | strlen | getRange | hGet | hLen | hExists | lLen | lIndex | sCard | sIsMember | zScore | zCard =>
    exact untitled_readAs rfl fun x => rfl
  case sMIsMember key members => cases members <;> exact untitled_readAs rfl fun s => rfl
  case eSet | set => exact untitled_setAct _ _ _ _
  case append | hSet | lPush | rPush | sAdd => exact untitled_typedEntry fun x => rfl
  case hSetNx =>
    refine untitled_typedEntry fun h => ?_
    split <;> rfl
  case zAdd key opts pairs => exact untitled_typedEntry fun z => untitled_zAddExec z opts pairs
  case lPushX | rPushX | lRem | lTrim | hDel | sRem | zRem => exact untitled_updateAs rfl fun x => rfl
  case lSet =>
    refine untitled_updateAs rfl fun l => ?_
    split <;> rfl
  case zRank | zRevRank =>
    refine untitled_readAs rfl fun z => ?_
    cases zRank z _ <;> rfl
  case getSet => exact untitled_getSetAct _ _
  case setNx => exact untitled_setNxAct _ _
  case setEx | pSetEx => rfl
  case incr | decr | incrBy => exact untitled_incrBy _ _
  case decrBy =>
    simp only [program]
    split_ifs
    · rfl
    · exact untitled_incrBy _ _
  case expire | pExpire | expireAt | pExpireAt => exact untitled_setExpiry _ _
  case ttl | pTtl | persist =>
    have each (l : Option Cell) (unit : ℕ → ℤ) : Untitled (ttlAct env.now unit l).2 ∧ Untitled (persistAct l).2 := by
      rcases l with _ | ⟨_, _ | _⟩ <;> exact ⟨rfl, rfl⟩
    first | exact (each _ _).1 | exact (each _ fun n => n).2
  case type => rfl
  case memoryUsage key =>
    have each (l : Option Cell) : Untitled ((l.map fun c => Value.integer (entrySize key c.value)).getD nil) := by
      cases l <;> rfl
    exact each _
  case hIncrBy =>
    refine untitled_typedEntry fun h => ?_
    unfold addToField
    split <;> rfl
  case hIncrByFloat =>
    refine untitled_typedEntry fun h => ?_
    unfold addFloatToField
    dsimp only
    split <;> rfl
  case zIncrBy =>
    refine untitled_typedEntry fun z => ?_
    unfold addToScore
    dsimp only
    split <;> rfl
  case jSet => exact untitled_jSetAct _ _ _ _
  case jGet => exact untitled_jGetAct _ _ _
  case jMerge => exact untitled_jMergeAct _ _ _
  case rlSet => exact untitled_rlSetAct _ _ _
  case rlCheck => exact untitled_rlCheckAct _ _ _ _
  case del | unlink | «exists» =>
    simp only [program, Prog.run_bind]
    rfl
  case mSet pairs => exact (untitled_mSetPairs pairs).run _ _
  case rename src dst =>
    have each (moved : Bool) : Untitled (if moved then ok else .error "ERR no such key") := by
      cases moved <;> rfl
    exact each _
  case sInterStore | sUnionStore | sDiffStore => exact untitled_combineStore _ _ _ _ _
  case sMove => exact (untitled_sMove _ _ _).run _ _
  all_goals rfl

/-! ### Taking out of a collection -/

/-- The value of a cell does not grow. -/
def Shrinks (act : Act) : Prop :=
  ∀ c, (act (some c)).1 = .keep ∨ ∃ c', (act (some c)).1 = .modify c' ∧ c'.value.size ≤ c.value.size

theorem shrinks_updateAs {α : Type} {k : Kind α} {absent : Value} {f : α → α × Value}
    (smaller : ∀ x, (k.wrap (f x).1).size ≤ (k.wrap x).size) : Shrinks (updateAs k absent f) := by
  intro c
  cases found : k.unwrap c.value with
  | none => exact .inl (congrArg Prod.fst (updateAs_other found absent f))
  | some x =>
    refine .inr ⟨_, congrArg Prod.fst (updateAs_held found absent f), ?_⟩
    rw [k.unwrap_eq_some.mp found]
    exact smaller x

theorem entryMemory_shrinks {act : Act} (shrinks : Shrinks act) (missing : (act none).1 = .keep) (now : ℕ)
    (key k : String) (d : Data) :
    KeyValueStore.entryMemory (store now key d (act (live now d key)).1) k ≤
      KeyValueStore.entryMemory d k := by
  cases found : live now d key with
  | none =>
    rw [missing]
    exact le_rfl
  | some c =>
    obtain kept | ⟨c', changed, smaller⟩ := shrinks c
    · rw [kept]
      exact le_rfl
    · rw [changed]
      by_cases same : k = key
      · subst same
        have there : d[k]?.map Entry.toCell = some c := by
          unfold live settle at found
          exact (Option.filter_eq_some_iff.mp found).1
        obtain ⟨e, held, rfl⟩ := Option.map_eq_some_iff.mp there
        simp only [KeyValueStore.entryMemory, store, Std.ExtTreeMap.getElem?_alter_self, held, Option.map_some,
          Option.getD_some, entrySize]
        omega
      · rw [KeyValueStore.entryMemory, getElem?_store_of_ne same, KeyValueStore.entryMemory]

theorem size_drop (n : ℕ) (l : List Bytes) : (EntryValue.list (l.drop n)).size ≤ (EntryValue.list l).size :=
  ((List.drop_sublist n l).map _).sum_le_sum fun _ _ => Nat.zero_le _

theorem size_take (n : ℕ) (l : List Bytes) : (EntryValue.list (l.take n)).size ≤ (EntryValue.list l).size :=
  ((List.take_sublist n l).map _).sum_le_sum fun _ _ => Nat.zero_le _

theorem size_erase (m : String) (s : MemberSet) : (EntryValue.set (s.erase m)).size ≤ (EntryValue.set s).size := by
  have distinct : (s.erase m).toList.Nodup := by
    refine (Std.ExtTreeSet.distinct_toList (t := s.erase m)).imp ?_
    rintro a _ ne rfl
    exact ne Std.ReflCmp.compare_self
  have fewer : (s.erase m).toList.Subperm s.toList := by
    refine distinct.subperm fun a mem => ?_
    rw [Std.ExtTreeSet.mem_toList] at mem ⊢
    exact (Std.ExtTreeSet.mem_erase.mp mem).2
  obtain ⟨l, perm, sublist⟩ := fewer
  exact ((perm.map _).sum_eq.symm).trans_le ((sublist.map _).sum_le_sum fun _ _ => Nat.zero_le _)

theorem size_popMembers (draws : ℕ → ℕ) (n : ℕ) (s : MemberSet) :
    (EntryValue.set (popMembers draws n s).2).size ≤ (EntryValue.set s).size := by
  induction n generalizing s with
  | zero => exact le_rfl
  | succ n ih =>
    unfold popMembers
    split
    · exact le_rfl
    next m _ => exact (ih _).trans (size_erase m s)

/-! ### Whole commands -/

section

variable (codec : Codec) (env : Env) (s : KeyValueStore)

/-- What a command lists first, on a store. -/
def KeyValueStore.listed : Command → Option Bytes
  | .keys pattern => firstMember (matchingKeys env.now pattern s.data)
  | cmd => Recached.listed env (s.live env.now) cmd

theorem executeInner_heads (cmd : Command) :
    Heads (s.listed env cmd) (executeInner codec env cmd s).1 := by
  cases direct : readsKeyspace cmd with
  | true =>
    cases cmd
    case keys pattern => exact heads_members _
    case scan =>
      unfold executeInner scanKeys
      dsimp only
      split_ifs <;> exact heads_scan _ _
    case dbSize => exact heads_of_untitled rfl
    all_goals cases direct
  | false =>
    have same : s.listed env cmd = Recached.listed env (s.live env.now) cmd := by
      cases cmd <;> first | rfl | cases direct
    rw [same]
    by_cases capped : (cappedKey cmd).isSome = true ∨ ∃ pairs, cmd = .mSet pairs
    · have nothing (v : View) : Recached.listed env v cmd = none := by
        obtain capped | ⟨pairs, rfl⟩ := capped
        · cases cmd <;> first | rfl | cases capped
        · rfl
      rcases executeInner_replies codec env s direct with full | ⟨d, reply⟩
      · rw [full, nothing]
        exact heads_of_untitled rfl
      · rw [reply, nothing, ← nothing (live env.now d)]
        exact program_heads codec env cmd d
    · have room : makeRoom env cmd s = (true, s, []) := by
        refine makeRoom_of_not_capped env s ?_ ?_
        · cases key : cappedKey cmd with
          | none => rfl
          | some k => exact absurd (.inl (by rw [key]; rfl)) capped
        · exact fun pairs same => absurd (.inr ⟨pairs, same⟩) capped
      rw [executeInner_of_room codec direct room]
      exact program_heads codec env cmd s.data

/-- Beyond the reply of the command itself there is one refusal. -/
theorem executeReporting_inner (cmd : Command) :
    (executeReporting codec env cmd s).1 = (executeInner codec env cmd s).1 ∨
      (executeReporting codec env cmd s).1 =
        .error "OOM command not allowed when used memory > 'maxmemory'." := by
  unfold executeReporting
  split
  · exact .inl rfl
  · exact .inl rfl
  · dsimp only
    split_ifs
    · exact .inr rfl
    · exact .inl rfl

theorem listed_of_error {h : Option Bytes} {e : String} (heads : Heads h (.error e)) : h = none := by
  obtain ⟨-, same | ⟨none, -⟩⟩ := heads
  · exact same.symm
  · exact none

variable {codec env s}

/-- A command that takes out of one collection is not refused for its memory. -/
theorem pop_heads {cmd : Command} {key : String} {act : Act} (shrinks : Shrinks act)
    (missing : (act none).1 = .keep) (scope : mutationScope cmd = .keys [key])
    (acts : program codec env cmd = .one key act) (direct : readsKeyspace cmd = false)
    (room : makeRoom env cmd s = (true, s, [])) :
    Heads (s.listed env cmd) (executeReporting codec env cmd s).1 := by
  have inner := executeInner_heads codec env s cmd
  obtain same | refused := executeReporting_inner codec env s cmd
  · rw [same]
    exact inner
  · cases failed : (executeInner codec env cmd s).1.isError with
    | true =>
      rw [refused]
      cases reply : (executeInner codec env cmd s).1 with
      | error e =>
        rw [reply] at inner
        rw [listed_of_error inner]
        exact heads_of_untitled rfl
      | _ =>
        rw [reply] at failed
        cases failed
    | false =>
      have result := executeInner_of_room codec direct room
      have fine := not_refused_of_shrinks scope failed (by rw [result]) fun k => by
        rw [result, acts]
        exact entryMemory_shrinks shrinks missing env.now key k s.data
      rw [refused] at fine
      cases fine

theorem executeReporting_heads (cmd : Command) :
    Heads (s.listed env cmd) (executeReporting codec env cmd s).1 := by
  have others (nothing : s.listed env cmd = none ∨ mutationScope cmd = .readOnly) :
      Heads (s.listed env cmd) (executeReporting codec env cmd s).1 := by
    have inner := executeInner_heads codec env s cmd
    obtain nothing | reads := nothing
    · obtain same | refused := executeReporting_inner codec env s cmd
      · rw [same]
        exact inner
      · rw [refused, nothing]
        exact heads_of_untitled rfl
    · unfold executeReporting
      rw [reads]
      exact inner
  cases cmd
  case lPop key count =>
    refine pop_heads (shrinks_updateAs fun l => ?_) rfl rfl rfl rfl (makeRoom_of_not_capped env s rfl nofun)
    cases count with
    | none => exact List.drop_one (l := l) ▸ size_drop 1 l
    | some n => exact size_drop n l
  case rPop key count =>
    refine pop_heads (shrinks_updateAs fun l => ?_) rfl rfl rfl rfl (makeRoom_of_not_capped env s rfl nofun)
    cases count with
    | none => exact List.dropLast_eq_take (l := l) ▸ size_take _ l
    | some n => exact size_take _ l
  case sPop key count =>
    exact pop_heads (shrinks_updateAs fun s => size_popMembers _ _ _) rfl rfl rfl rfl
      (makeRoom_of_not_capped env s rfl nofun)
  case dedup => exact others (.inl rfl)
  all_goals first | exact others (.inl rfl) | exact others (.inr rfl)

end

end Recached
