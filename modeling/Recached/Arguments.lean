import Recached.Decoding
import Recached.Lib.Gaps

/-!
# What a decoded command carries

`layout` says for every command which of its arguments are keys, fields, members, channels, patterns
and payloads, and how many of them the command holds; `Command.carried` lists those of a decoded
command as bytes.  A parser reads the former as the latter with gaps: an argument that is not a
string is left out or becomes an empty one.
-/

namespace Recached

open Text

/-! ## Layouts -/

def ScanArgs.carried (args : ScanArgs) : List Bytes := args.pattern.toList.map asBytes

/-- The texts and payloads of a command, in the order of its arguments. -/
def Command.carried : Command → List Bytes
  | .ping msg => msg.toList.map asBytes
  | .hello protover => protover.toList.map asBytes
  | .qUnsub pattern => pattern.toList.map asBytes
  | .scan _ pattern _ => pattern.toList.map asBytes
  | .info args | .client args | .config args | .commandQuery args | .cluster args | .module args
  | .pubSub args | .memory args | .del args | .unlink args | .mGet args | .exists args | .sInter args
  | .sUnion args | .sDiff args | .subscribe args | .unsubscribe args | .pSubscribe args
  | .pUnsubscribe args | .watch args | .unwatch args | .sync args => args.map asBytes
  | .auth name | .get name | .strlen name | .getRange name _ _ | .incr name | .decr name
  | .incrBy name _ | .decrBy name _ | .expire name _ | .pExpire name _ | .expireAt name _
  | .pExpireAt name _ | .ttl name | .pTtl name | .persist name | .keys name | .type name
  | .memoryUsage name | .hGetAll name | .hKeys name | .hVals name | .hLen name | .lPop name _
  | .rPop name _ | .lRange name _ _ | .lLen name | .lIndex name _ | .lTrim name _ _ | .sMembers name
  | .sCard name | .sPop name _ | .sRandMember name _ | .zRange name _ _ _ | .zRevRange name _ _ _
  | .zCard name | .rlSet name _ _ | .rlCheck name _ | .qSub name => [asBytes name]
  | .rename a b | .hGet a b | .hIncrBy a b _ | .hIncrByFloat a b _ | .hExists a b | .sIsMember a b
  | .zScore a b | .zRank a b | .zRevRank a b | .zIncrBy a _ b | .jMerge a b => [asBytes a, asBytes b]
  | .sMove a b c | .zRangeByScore a b c _ _ | .zRevRangeByScore a b c _ _ | .zCount a b c
  | .jSet a b c => [asBytes a, asBytes b, asBytes c]
  | .jGet key path => asBytes key :: path.toList.map asBytes
  | .set key val _ | .eSet key val | .append key val | .getSet key val | .setNx key val
  | .setEx key _ val | .pSetEx key _ val | .lSet key _ val | .lRem key _ val | .publish key val =>
    [asBytes key, val]
  | .hSetNx key field val => [asBytes key, asBytes field, val]
  | .mSet pairs => pairs.flatMap fun p => [asBytes p.1, p.2]
  | .hSet key pairs => asBytes key :: pairs.flatMap fun p => [asBytes p.1, p.2]
  | .hDel key names | .hMGet key names | .sAdd key names | .sRem key names | .sMIsMember key names
  | .sInterStore key names | .sUnionStore key names | .sDiffStore key names | .zMScore key names
  | .zRem key names => asBytes key :: names.map asBytes
  | .lPush key vals | .rPush key vals | .lPushX key vals | .rPushX key vals => asBytes key :: vals
  | .hScan key args | .sScan key args | .zScan key args => asBytes key :: args.carried
  | .zAdd key _ pairs => asBytes key :: pairs.map fun p => asBytes p.2
  | .dedup clientId _ inner => asBytes clientId :: inner.carried
  | .quit | .dbSize | .flushDb | .multi | .exec | .discard | .save | .bgSave | .lastSave
  | .replicaOfNoOne | .unknown _ => []

structure Layout where
  /-- The arguments that are neither counts, times or scores nor options. -/
  carried : List Value → List Value
  /-- How many of them the command has a place for, if there is a limit. -/
  room : Option ℕ

/-- Texts or payloads at the positions `is`, and others up to `stop`, where the arguments end. -/
def Layout.fixed (is : List ℕ) (stop : ℕ) : Layout where
  carried args := is.filterMap (args[·]?) ++ args.drop stop
  room := some is.length

/-- All arguments from the first on. -/
def Layout.all : Layout := ⟨id, none⟩

/-- The first `n` arguments, followed by options. -/
def Layout.front (n : ℕ) : Layout := ⟨List.take n, none⟩

/-- The patterns among the options of a scan. -/
def scanPatterns : List Value → List Value
  | [] => []
  | opt :: rest =>
    match toUppercase (stringArg opt), rest with
    | "MATCH", p :: rest => p :: scanPatterns rest
    | "COUNT", _ :: rest => scanPatterns rest
    | _, rest => scanPatterns rest

/-- The first `n` arguments, a cursor, and options among which are patterns. -/
def Layout.scan (n : ℕ) : Layout :=
  ⟨fun args => args.take n ++ scanPatterns (args.drop (n + 1)), some (n + 1)⟩

def isZAddOption (v : Value) : Bool :=
  toUppercase (stringArg v) ∈ ["NX", "XX", "GT", "LT", "CH", "INCR"]

/-- The members among scores and members. -/
def zAddMembers : List Value → List Value
  | _ :: member :: rest => member :: zAddMembers rest
  | _ => []

def layoutZAdd : Layout :=
  ⟨fun args => args.take 1 ++ zAddMembers ((args.drop 1).dropWhile isZAddOption), none⟩

/-- A key, two indices, and `WITHSCORES`. -/
def layoutIndexRange : Layout :=
  ⟨fun args => args.take 1 ++ args.drop (if isWithscores args then 4 else 3), some 1⟩

def layoutMemory : Layout :=
  ⟨fun args => if toUppercase (stringArg (argAt args 1)) = "USAGE" then (args.drop 1).take 1 else args,
    none⟩

/-- What is what among the arguments of a command. -/
def layout (cmdName : String) : Layout :=
  if cmdName ∈ ["PING", "AUTH", "HELLO", "GET", "STRLEN", "INCR", "DECR", "TTL", "PTTL", "PERSIST",
      "KEYS", "TYPE", "QSUB", "QUNSUB", "HGETALL", "HKEYS", "HVALS", "HLEN", "LLEN", "SMEMBERS",
      "SCARD", "ZCARD"] then .fixed [0] 1
  else if cmdName ∈ ["INCRBY", "DECRBY", "EXPIRE", "PEXPIRE", "EXPIREAT", "PEXPIREAT", "LINDEX", "LPOP",
      "RPOP", "SPOP", "SRANDMEMBER"] then .fixed [0] 2
  else if cmdName ∈ ["GETRANGE", "LRANGE", "LTRIM", "RLSET", "RLCHECK"] then .fixed [0] 3
  else if cmdName ∈ ["ESET", "APPEND", "GETSET", "SETNX", "RENAME", "HGET", "HEXISTS", "SISMEMBER",
      "ZSCORE", "ZRANK", "ZREVRANK", "PUBLISH", "JGET", "JMERGE"] then .fixed [0, 1] 2
  else if cmdName ∈ ["HINCRBY", "HINCRBYFLOAT"] then .fixed [0, 1] 3
  else if cmdName ∈ ["SETEX", "PSETEX", "LSET", "LREM", "ZINCRBY"] then .fixed [0, 2] 3
  else if cmdName ∈ ["HSETNX", "SMOVE", "ZCOUNT", "JSET"] then .fixed [0, 1, 2] 3
  else if cmdName ∈ ["INFO", "CLIENT", "CONFIG", "COMMAND", "CLUSTER", "MODULE", "PUBSUB", "DEL",
      "UNLINK", "MGET", "MSET", "EXISTS", "SYNC", "HSET", "HMSET", "HDEL", "HMGET", "LPUSH", "RPUSH",
      "LPUSHX", "RPUSHX", "SADD", "SREM", "SMISMEMBER", "SINTER", "SINTERSTORE", "SUNION",
      "SUNIONSTORE", "SDIFF", "SDIFFSTORE", "ZMSCORE", "ZREM", "SUBSCRIBE", "UNSUBSCRIBE",
      "PSUBSCRIBE", "PUNSUBSCRIBE", "WATCH", "UNWATCH"] then .all
  else if cmdName = "SET" then .front 2
  else if cmdName ∈ ["ZRANGEBYSCORE", "ZREVRANGEBYSCORE"] then .front 3
  else if cmdName ∈ ["ZRANGE", "ZREVRANGE"] then layoutIndexRange
  else if cmdName = "ZADD" then layoutZAdd
  else if cmdName = "SCAN" then .scan 0
  else if cmdName ∈ ["HSCAN", "SSCAN", "ZSCAN"] then .scan 1
  else if cmdName = "MEMORY" then layoutMemory
  else if cmdName = "REPLICAOF" then .fixed [] 2
  else .fixed [] 0

/-! ## Text arguments -/

/-- An argument whose bytes, if it is a bulk string, are valid UTF-8. -/
def IsTextArg (v : Value) : Prop := ∀ b, v = .bulkString (some b) → IsText b

theorem isTextArg_null : IsTextArg (.array none) := fun b h => by cases h

theorem takeString_eq (v : Value) : takeString v = extractString v := by
  rcases v with _ | _ | _ | (_ | data) | _
  all_goals try rfl
  simp only [takeString, extractString, Option.some.injEq]
  cases h : fromUtf8 data with
  | none => rfl
  | some s => simp [fromUtf8Lossy, h]

theorem takeBytes_eq (v : Value) : takeBytes v = extractBytes v := rfl

theorem IsTextArg.extractString {v : Value} (h : IsTextArg v) :
    (extractString v).map asBytes = extractBytes v := by
  rcases v with _ | _ | _ | (_ | data) | _
  all_goals try rfl
  simpa [Recached.extractString, extractBytes] using (h data rfl).asBytes_lossy

theorem IsTextArg.stringArg {v : Value} (h : IsTextArg v) :
    asBytes (stringArg v) = (extractBytes v).getD [] := by
  rw [← h.extractString]
  unfold Recached.stringArg
  cases Recached.extractString v <;> rfl

theorem isTextArg_iff (v : Value) :
    (match v with
      | .bulkString (some b) => (fromUtf8 b).isNone
      | _ => false) = false ↔ IsTextArg v := by
  constructor
  · rintro h b rfl
    obtain ⟨s, said⟩ := Option.isSome_iff_exists.mp (Option.isNone_eq_false_iff.mp h)
    exact ⟨s, asBytes_of_fromUtf8 said⟩
  · intro h
    split
    · exact (h _ rfl).fromUtf8_isNone
    · rfl

theorem found_eq_none {bad : Bool} {i : ℕ} {later : Option ℕ} :
    (if bad then some i else later) = none ↔ bad = false ∧ later = none := by
  cases bad <;> simp

/-- The check for valid UTF-8 passes iff every argument outside the payload positions is text. -/
theorem invalidTextFrom_eq_none {name : String} {i : ℕ} {vs : List Value} :
    invalidTextFrom name i vs = none ↔
      ∀ k v, vs[k]? = some v → isPayloadIndex name (i + k) = false → IsTextArg v := by
  induction vs generalizing i with
  | nil => simp [invalidTextFrom]
  | cons v vs ih =>
    have first : (isPayloadIndex name i = false → IsTextArg v) ↔
        (!isPayloadIndex name i && match v with
          | .bulkString (some b) => (fromUtf8 b).isNone
          | _ => false) = false := by
      rw [← isTextArg_iff]
      cases isPayloadIndex name i <;> simp
    have later : (∀ k w, (v :: vs)[k]? = some w → isPayloadIndex name (i + k) = false → IsTextArg w) ↔
        (isPayloadIndex name i = false → IsTextArg v) ∧
          ∀ k w, vs[k]? = some w → isPayloadIndex name (i + 1 + k) = false → IsTextArg w := by
      constructor
      · intro h
        refine ⟨h 0 v rfl, fun k w at_k free => h (k + 1) w at_k ?_⟩
        rwa [show i + (k + 1) = i + 1 + k by omega]
      · rintro ⟨h, rest⟩ (_ | k) w at_k free
        · cases at_k
          exact h free
        · exact rest k w at_k (by rwa [show i + 1 + k = i + (k + 1) by omega])
    rw [later, first, ← ih]
    conv_lhs => unfold invalidTextFrom
    exact found_eq_none

/-- The commands that carry payloads. -/
def payloadNames : List String :=
  ["SET", "ESET", "APPEND", "GETSET", "SETNX", "PUBLISH", "SETEX", "PSETEX", "HSETNX", "LSET", "LREM",
    "LPUSH", "RPUSH", "LPUSHX", "RPUSHX", "HSET", "HMSET", "MSET"]

theorem isPayloadIndex_free {name : String} (other : payloadNames.contains name = false) (i : ℕ) :
    isPayloadIndex name i = false := by
  simp only [payloadNames, List.contains_eq_mem, List.mem_cons, List.not_mem_nil, or_false,
    decide_eq_false_iff_not, not_or] at other
  simp [isPayloadIndex, other]

/-- Every argument outside the payload positions is text. -/
def TextArgs (cmdName : String) (args : List Value) : Prop :=
  ∀ k v, args[k]? = some v → isPayloadIndex cmdName (k + 1) = false → IsTextArg v

theorem textArgs_iff {name : String} {args : List Value} :
    TextArgs name args ↔ invalidTextFrom name 1 args = none := by
  simp only [TextArgs, invalidTextFrom_eq_none, Nat.add_comm]

theorem TextArgs.argAt {name : String} {args : List Value} (text : TextArgs name args) {i : ℕ}
    (free : isPayloadIndex name (i - 1 + 1) = false) :
    asBytes (stringArg (argAt args i)) = (extractBytes (argAt args i)).getD [] := by
  refine IsTextArg.stringArg ?_
  unfold Recached.argAt
  rw [List.getD_eq_getElem?_getD]
  cases found : args[i - 1]? with
  | none => exact isTextArg_null
  | some v => exact text (i - 1) v found free

/-! ## What a parser makes of its arguments -/

/-- The bytes of an argument, folded to lower case if it names a section of `INFO`. -/
def saidBytes (cmdName : String) (v : Value) : Option Bytes :=
  if cmdName = "INFO" then (extractBytes v).map fun b => asBytes (toLowercase (fromUtf8Lossy b))
  else extractBytes v

theorem saidBytes_eq {name : String} (plain : (name == "INFO") = false) :
    saidBytes name = extractBytes := by
  funext v
  have other : name ≠ "INFO" := by simpa using plain
  simp [saidBytes, other]

/-- A decoded command, if there is one, has a property. -/
def WhenOk (P : Command → Prop) (x : Except String Command) : Prop := ∀ c, x = .ok c → P c

section

variable {P : Command → Prop} {n : ℕ} {f : String → List Value → Except String Command}

@[simp] theorem whenOk_ok (c : Command) : WhenOk P (.ok c) ↔ P c := by
  simp [WhenOk]

@[simp] theorem whenOk_error (e : String) : WhenOk P (.error e) := fun c h => by cases h

@[simp] theorem whenOk_bind {α : Type} {x : Except String α} {f : α → Except String Command} :
    WhenOk P (x >>= f) ↔ ∀ a, x = .ok a → WhenOk P (f a) := by
  cases x <;> simp [bind, Except.bind]

theorem extractKey_eq {v : Value} {key : String} (h : extractKey v = .ok key) : key = stringArg v := by
  obtain ⟨_, -, same⟩ := bind_ok_iff.mp h
  exact (Except.ok.inj same).symm

theorem takeKey_eq {v : Value} {key : String} (h : takeKey v = .ok key) : key = stringArg v := by
  obtain ⟨_, -, same⟩ := bind_ok_iff.mp h
  rw [takeString_eq] at same
  exact (Except.ok.inj same).symm

theorem whenOk_onName {name : String} {args : List Value}
    (h : n ≤ args.length + 1 → WhenOk P (f (stringArg (argAt args 1)) args)) :
    WhenOk P (onName n f name args) :=
  whenOk_bind.mpr fun u arity => h ((need_ok u).mp arity)

theorem whenOk_onKey {name : String} {args : List Value}
    (h : n ≤ args.length + 1 → WhenOk P (f (stringArg (argAt args 1)) args)) :
    WhenOk P (onKey n f name args) :=
  whenOk_bind.mpr fun u arity => whenOk_bind.mpr fun key said => by
    rw [extractKey_eq said]
    exact h ((need_ok u).mp arity)

end

/-- The parser of a command reads the arguments that its layout names, with gaps. -/
def Carries (name : String) (parser : Parser) : Prop :=
  ∀ args, TextArgs name args → WhenOk (fun c =>
    (∀ n ∈ (layout name).room, c.carried.length ≤ n) ∧
      ((∀ n ∈ (layout name).room, ((layout name).carried args).length ≤ n) →
        ReadsAs (saidBytes name) [] ((layout name).carried args) c.carried)) (parser name args)

section

variable {name : String} {parser : Parser} {is : List ℕ} {stop n : ℕ}
variable {f : String → List Value → Except String Command}

/-- `INFO` takes any number of arguments. -/
theorem saidBytes_of_room {l : Layout} (found : layout name = l) (limit : l.room.isSome = true) :
    saidBytes name = extractBytes := by
  refine saidBytes_eq (Bool.eq_false_iff.mpr fun info => ?_)
  rw [← found, eq_of_beq info] at limit
  cases limit

theorem carries_fixed (found : layout name = .fixed is stop) (low : is.all (· < stop) = true)
    (h : ∀ args, TextArgs name args → WhenOk (fun c =>
      ReadsAs extractBytes [] (is.filterMap (args[·]?)) c.carried) (parser name args)) :
    Carries name parser := by
  intro args text c decoded
  have reads := h args text c decoded
  have low (i : ℕ) (mem : i ∈ is) : i < stop := of_decide_eq_true (List.all_eq_true.mp low i mem)
  rw [saidBytes_of_room found rfl]
  have most : (is.filterMap (args[·]?)).length ≤ is.length := List.length_filterMap_le _ _
  simp only [found, Layout.fixed, Option.mem_some_iff, forall_eq', List.length_append]
  refine ⟨reads.length_le.trans most, fun fits => ?_⟩
  -- either every position is taken, or the arguments end before `stop`
  have ended : args.drop stop = [] := by
    rw [List.drop_eq_nil_iff]
    by_contra beyond
    have full : (is.filterMap (args[·]?)).length = is.length := by
      rw [List.length_filterMap_eq_countP, List.countP_eq_length]
      intro i mem
      have := low i mem
      rw [List.getElem?_eq_getElem (by omega)]
      rfl
    have : (args.drop stop).length = 0 := by omega
    rw [List.length_drop] at this
    omega
  rw [ended, List.append_nil]
  exact reads

/-- What the arguments at some positions are read as. -/
def readAt (args : List Value) (is : List ℕ) : List Bytes :=
  is.map fun i => (extractBytes (argAt args (i + 1))).getD []

theorem readAt_one {args : List Value} {i : ℕ} {a : Bytes}
    (first : a = (extractBytes (argAt args (i + 1))).getD []) : [a] = readAt args [i] := by
  rw [first]
  rfl

theorem readAt_two {args : List Value} {i j : ℕ} {a b : Bytes}
    (first : a = (extractBytes (argAt args (i + 1))).getD [])
    (second : b = (extractBytes (argAt args (j + 1))).getD []) : [a, b] = readAt args [i, j] := by
  rw [first, second]
  rfl

theorem readAt_three {args : List Value} {i j k : ℕ} {a b c : Bytes}
    (first : a = (extractBytes (argAt args (i + 1))).getD [])
    (second : b = (extractBytes (argAt args (j + 1))).getD [])
    (third : c = (extractBytes (argAt args (k + 1))).getD []) : [a, b, c] = readAt args [i, j, k] := by
  rw [first, second, third]
  rfl

theorem carries_required (found : layout name = .fixed is stop) (low : is.all (· < stop) = true)
    (h : ∀ args, TextArgs name args → WhenOk (fun c =>
      (∀ i ∈ is, i < args.length) ∧ c.carried = readAt args is) (parser name args)) :
    Carries name parser := by
  refine carries_fixed found low fun args text c decoded => ?_
  obtain ⟨present, same⟩ := h args text c decoded
  have taken : is.filterMap (args[·]?) = is.map fun i => argAt args (i + 1) := by
    rw [← List.filterMap_eq_map]
    refine List.filterMap_congr fun i mem => ?_
    simp [argAt, present i mem]
  have reads : ReadsAs extractBytes [] (is.map fun i => argAt args (i + 1)) _ := .map_getD _
  rw [List.map_map] at reads
  show ReadsAs extractBytes [] _ c.carried
  rw [same, taken]
  exact reads

theorem carries_onName (found : layout name = .fixed is stop)
    (low : (is.all fun i => i < stop && i + 2 ≤ n) = true)
    (h : ∀ args, TextArgs name args → WhenOk (fun c => c.carried = readAt args is)
      (f (stringArg (argAt args 1)) args)) : Carries name (onName n f) := by
  simp only [List.all_eq_true, Bool.and_eq_true, decide_eq_true_eq] at low
  refine carries_required found ?_ fun args text => whenOk_onName fun arity c decoded => ⟨?_, ?_⟩
  · simpa using fun i mem => (low i mem).1
  · intro i mem
    have := (low i mem).2
    omega
  · exact h args text c decoded

theorem carries_onKey (found : layout name = .fixed is stop)
    (low : (is.all fun i => i < stop && i + 2 ≤ n) = true)
    (h : ∀ args, TextArgs name args → WhenOk (fun c => c.carried = readAt args is)
      (f (stringArg (argAt args 1)) args)) : Carries name (onKey n f) := by
  simp only [List.all_eq_true, Bool.and_eq_true, decide_eq_true_eq] at low
  refine carries_required found ?_ fun args text => whenOk_onKey fun arity c decoded => ⟨?_, ?_⟩
  · simpa using fun i mem => (low i mem).1
  · intro i mem
    have := (low i mem).2
    omega
  · exact h args text c decoded

end

/-! ## Lists of names -/

theorem collectStrings_eq {vs : List Value} (text : ∀ v ∈ vs, IsTextArg v) :
    (collectStrings vs).map asBytes = vs.filterMap extractBytes := by
  rw [collectStrings, List.map_filterMap]
  refine List.filterMap_congr fun v mem => ?_
  rw [takeString_eq]
  exact (text v mem).extractString

theorem map_stringArg {vs : List Value} (text : ∀ v ∈ vs, IsTextArg v) :
    (vs.map stringArg).map asBytes = vs.map fun v => (extractBytes v).getD [] := by
  rw [List.map_map]
  exact List.map_congr_left fun v mem => (text v mem).stringArg

theorem extractKeys_eq {vs : List Value} {keys : List String} (h : extractKeys vs = .ok keys) :
    keys = vs.map stringArg := by
  unfold extractKeys at h
  induction vs generalizing keys with
  | nil => exact (Except.ok.inj h).symm
  | cons v vs ih =>
    rw [List.mapM_cons] at h
    obtain ⟨key, first, h⟩ := bind_ok_iff.mp h
    obtain ⟨rest, later, same⟩ := bind_ok_iff.mp h
    rw [← Except.ok.inj same, ih later, extractKey_eq first, List.map_cons]

theorem TextArgs.mem {name : String} {args : List Value} (text : TextArgs name args)
    (free : payloadNames.contains name = false) : ∀ v ∈ args, IsTextArg v := fun v mem => by
  obtain ⟨k, found⟩ := List.mem_iff_getElem?.mp mem
  exact text k v found (isPayloadIndex_free free _)

theorem args_eq {args : List Value} (h : 1 ≤ args.length) :
    args = argAt args 1 :: argsFrom args 2 := by
  cases args with
  | nil => cases h
  | cons v vs => rfl

section

variable {name : String} {parser : Parser} {n : ℕ}

theorem carries_all (found : layout name = .all) (plain : (name == "INFO") = false)
    (h : ∀ args, TextArgs name args → WhenOk (fun c =>
      ReadsAs extractBytes [] args c.carried) (parser name args)) : Carries name parser := by
  intro args text c decoded
  simp only [found, Layout.all, saidBytes_eq plain]
  exact ⟨by simp, fun _ => h args text c decoded⟩

/-- A command of names. -/
theorem carries_names (found : layout name = .all) (plain : (name == "INFO") = false)
    (free : payloadNames.contains name = false)
    (h : ∀ args, WhenOk (fun c => c.carried = (collectStrings args).map asBytes) (parser name args)) :
    Carries name parser := by
  refine carries_all found plain fun args text c decoded => ?_
  show ReadsAs extractBytes [] args c.carried
  rw [h args c decoded, collectStrings_eq (text.mem free)]
  exact .filterMap args

/-- A command of keys that are checked. -/
theorem carries_keys (found : layout name = .all) (plain : (name == "INFO") = false)
    (free : payloadNames.contains name = false)
    (h : ∀ args, WhenOk (fun c => ∃ keys, extractKeys args = .ok keys ∧ c.carried = keys.map asBytes)
      (parser name args)) : Carries name parser := by
  refine carries_all found plain fun args text c decoded => ?_
  obtain ⟨keys, said, same⟩ := h args c decoded
  show ReadsAs extractBytes [] args c.carried
  rw [same, extractKeys_eq said, map_stringArg (text.mem free)]
  exact .map_getD args

/-- A key and names after it. -/
theorem carries_keyNames (found : layout name = .all) (plain : (name == "INFO") = false)
    (free : payloadNames.contains name = false)
    (h : ∀ args, WhenOk (fun c => 1 ≤ args.length ∧ c.carried =
      asBytes (stringArg (argAt args 1)) :: (collectStrings (argsFrom args 2)).map asBytes)
      (parser name args)) : Carries name parser := by
  refine carries_all found plain fun args text c decoded => ?_
  obtain ⟨some, same⟩ := h args c decoded
  have texts := text.mem free
  rw [args_eq some, List.forall_mem_cons] at texts
  have reads : ReadsAs extractBytes [] (argAt args 1 :: argsFrom args 2) _ := .getD (.filterMap _)
  rw [← args_eq some] at reads
  show ReadsAs extractBytes [] args c.carried
  rw [same, texts.1.stringArg, collectStrings_eq texts.2]
  exact reads

end

theorem need_length {n : ℕ} {name : String} {args : List Value} {u : Unit}
    (h : need n name args = .ok u) : n ≤ args.length + 1 := (need_ok u).mp h

end Recached
