import Recached.Cmd
import Recached.Resp

/-!
# Decoding commands

`fromValue` turns a RESP array into a command.  The name selects a parser from a table, one section
of it per data type; `need`, the `extract` and `take` functions and the option loops are shared.
Arguments that name something must be text; payload arguments may be any bytes.
-/

namespace Recached

open Text

/-! ## Arguments -/

def maxKeyBytes : ℕ := 512 * 1024

def maxPatternBytes : ℕ := 1024

def validateKey (key : String) : Except String Unit :=
  let len := (asBytes key).length
  if key = "" then .error "ERR key cannot be empty"
  else if maxKeyBytes < len then .error s!"ERR key too large ({len} > {maxKeyBytes} bytes)"
  else .ok ()

def checkPattern (p : String) : Except String Unit :=
  let len := (asBytes p).length
  if maxPatternBytes < len then
    .error s!"ERR pattern is too long ({len} > {maxPatternBytes} bytes)"
  else .ok ()

def checkPatterns (ps : List String) : Except String Unit := ps.forM checkPattern

def extractString : Value → Option String
  | .bulkString (some data) => some (fromUtf8Lossy data)
  | .simpleString s => some s
  | _ => none

def takeString : Value → Option String
  | .bulkString (some data) => some ((fromUtf8 data).getD (fromUtf8Lossy data))
  | .simpleString s => some s
  | _ => none

def extractBytes : Value → Option Bytes
  | .bulkString (some data) => some data
  | .simpleString s => some (asBytes s)
  | _ => none

def takeBytes : Value → Option Bytes
  | .bulkString (some data) => some data
  | .simpleString s => some (asBytes s)
  | _ => none

/-- A string argument, empty if it is not a string. -/
def stringArg (v : Value) : String := (extractString v).getD ""

def bytesArg (v : Value) : Bytes := (extractBytes v).getD []

def extractKey (v : Value) : Except String String := do
  validateKey (stringArg v)
  return stringArg v

def takeKey (v : Value) : Except String String := do
  validateKey ((takeString v).getD "")
  return (takeString v).getD ""

def extractKeys (vals : List Value) : Except String (List String) := vals.mapM extractKey

def collectStrings (vals : List Value) : List String := vals.filterMap takeString

def notAnInteger : String := "ERR value is not an integer or out of range"

def extractInt : Value → Except String ℤ
  | .bulkString (some data) =>
    match Decimal.parseI64 (asBytes (fromUtf8Lossy data)) with
    | some i => .ok i
    | none => .error notAnInteger
  | .simpleString s =>
    match Decimal.parseI64 (asBytes s) with
    | some i => .ok i
    | none => .error notAnInteger
  | .integer i => .ok i
  | _ => .error notAnInteger

def extractCount (v : Value) : Except String ℕ := do
  let n ← extractInt v
  if n < 0 then .error "ERR value is out of range, must be positive" else .ok n.toNat

def extractFloat : Value → Except String Binary64
  | .bulkString (some data) =>
    let s := fromUtf8Lossy data
    if s = "inf" ∨ s = "+inf" then .ok .infinity
    else if s = "-inf" then .ok Binary64.infinity.negate
    else
      match Binary64.parse (asBytes s) with
      | some x => .ok x
      | none => .error "ERR value is not a valid float"
  | .simpleString s =>
    match Binary64.parse (asBytes s) with
    | some x => .ok x
    | none => .error "ERR value is not a valid float"
  | .integer i => .ok (.ofRatio (i < 0) i.natAbs 1)
  | _ => .error "ERR value is not a valid float"

/-- Whether the argument at position `i` of a command is a payload rather than an identifier. -/
def isPayloadIndex (cmdName : String) (i : ℕ) : Bool :=
  if cmdName ∈ ["SET", "ESET", "APPEND", "GETSET", "SETNX", "PUBLISH"] then i = 2
  else if cmdName ∈ ["SETEX", "PSETEX", "HSETNX", "LSET", "LREM"] then i = 3
  else if cmdName ∈ ["LPUSH", "RPUSH", "LPUSHX", "RPUSHX"] then 2 ≤ i
  else if cmdName ∈ ["HSET", "HMSET"] then 3 ≤ i && i % 2 != 0
  else if cmdName = "MSET" then 2 ≤ i && i % 2 = 0
  else false

/-- The position of the first identifier argument from `i` on that is not valid UTF-8. -/
def invalidTextFrom (cmdName : String) : (i : ℕ) → List Value → Option ℕ
  | _, [] => none
  | i, v :: vs =>
    let invalid := match v with
      | .bulkString (some b) => (fromUtf8 b).isNone
      | _ => false
    if !isPayloadIndex cmdName i && invalid then some i else invalidTextFrom cmdName (i + 1) vs

/-! ## Arity -/

/-- A parser gets the name of the command and the arguments after it. -/
abbrev Parser := String → List Value → Except String Command

def wrongArity (cmdName : String) : String :=
  let name := toLowercase cmdName
  s!"ERR wrong number of arguments for '{name}' command"

/-- The command, its name included, must have at least `n` parts. -/
def need (n : ℕ) (cmdName : String) (args : List Value) : Except String Unit :=
  if args.length + 1 < n then .error (wrongArity cmdName) else .ok ()

/-- The argument at position `i`, where the name of the command is at position `0`. -/
def argAt (args : List Value) (i : ℕ) : Value := args.getD (i - 1) (.array none)

/-- The arguments from position `i` on. -/
def argsFrom (args : List Value) (i : ℕ) : List Value := args.drop (i - 1)

def syntaxError : String := "ERR syntax error"

/-- A command whose first argument is a key that is checked. -/
def onKey (n : ℕ) (f : String → List Value → Except String Command) : Parser := fun cmd args => do
  need n cmd args
  let key ← extractKey (argAt args 1)
  f key args

/-- A command whose first argument is a key that is taken as it is. -/
def onName (n : ℕ) (f : String → List Value → Except String Command) : Parser := fun cmd args => do
  need n cmd args
  f (stringArg (argAt args 1)) args

/-! ## Option loops -/

def expireTime (cmdName : String) (v : Value) : Except String ℕ := do
  let n ← extractInt v
  if n ≤ 0 then .error s!"ERR invalid expire time in '{cmdName}' command" else .ok n.toNat

def parseSetOptions (opts : SetOptions) : List Value → Except String SetOptions
  | [] => .ok opts
  | flag :: rest =>
    let timed (f : ℕ → SetExpiry) : Except String SetOptions :=
      match rest with
      | [] => .error syntaxError
      | v :: rest => do
        let n ← expireTime "set" v
        parseSetOptions { opts with expiry := some (f n) } rest
    match toUppercase (stringArg flag) with
    | "EX" => timed .ex
    | "PX" => timed .px
    | "EXAT" => timed .exAt
    | "PXAT" => timed .pxAt
    | "KEEPTTL" => parseSetOptions { opts with expiry := some .keepTtl } rest
    | "NX" => parseSetOptions { opts with condition := some .nx } rest
    | "XX" => parseSetOptions { opts with condition := some .xx } rest
    | "GET" => parseSetOptions { opts with get := true } rest
    | _ => .error syntaxError

/-- Leading options of `ZADD`, and the arguments after them. -/
def parseZAddOptions (opts : ZAddOptions) : List Value → ZAddOptions × List Value
  | [] => (opts, [])
  | tok :: rest =>
    match toUppercase (stringArg tok) with
    | "NX" => parseZAddOptions { opts with condition := some .nx } rest
    | "XX" => parseZAddOptions { opts with condition := some .xx } rest
    | "GT" => parseZAddOptions { opts with gt := true } rest
    | "LT" => parseZAddOptions { opts with lt := true } rest
    | "CH" => parseZAddOptions { opts with ch := true } rest
    | "INCR" => parseZAddOptions { opts with incr := true } rest
    | _ => (opts, tok :: rest)

def parseZAddPairs : List Value → Except String (List (Binary64 × String))
  | score :: member :: rest => do
    let s ← extractFloat score
    let pairs ← parseZAddPairs rest
    .ok ((s, stringArg member) :: pairs)
  | _ => .ok []

def parseScanOptions (novaluesOk : Bool) (args : ScanArgs) : List Value → Except String ScanArgs
  | [] => .ok args
  | opt :: rest =>
    match toUppercase (stringArg opt) with
    | "MATCH" =>
      match rest with
      | [] => .error syntaxError
      | p :: rest => do
        match extractString p with
        | some p => checkPattern p
        | none => .ok ()
        parseScanOptions novaluesOk { args with pattern := extractString p } rest
    | "COUNT" =>
      match rest with
      | [] => .error syntaxError
      | n :: rest => do
        let n ← extractInt n
        if n < 1 then .error syntaxError
        parseScanOptions novaluesOk { args with count := some n.toNat } rest
    | "NOVALUES" =>
      if novaluesOk then parseScanOptions novaluesOk { args with novalues := true } rest
      else .error syntaxError
    | _ => .error syntaxError

def parseScanArgs (cursor : Value) (tokens : List Value) (novaluesOk : Bool) :
    Except String ScanArgs :=
  match Decimal.parseU64 (asBytes (stringArg cursor)) with
  | none => .error "ERR invalid cursor"
  | some cursor => parseScanOptions novaluesOk { cursor } tokens

def parseZRangeOpts (withscores : Bool) (limit : Option (ℤ × ℤ)) :
    List Value → Except String (Bool × Option (ℤ × ℤ))
  | [] => .ok (withscores, limit)
  | opt :: rest =>
    match toUppercase (stringArg opt) with
    | "WITHSCORES" => parseZRangeOpts true limit rest
    | "LIMIT" =>
      match rest with
      | offset :: count :: rest => do
        let offset ← extractInt offset
        let count ← extractInt count
        parseZRangeOpts withscores (some (offset, count)) rest
      | _ => .error syntaxError
    | _ => .error syntaxError

def parseRlConfig (limit window : Value) (cmd : String) : Except String (ℕ × ℕ) := do
  let limit ← extractInt limit
  let window ← extractInt window
  if limit ≤ 0 then .error s!"ERR limit must be >= 1 in '{cmd}' command"
  if window ≤ 0 then .error s!"ERR window must be >= 1 in '{cmd}' command"
  .ok (limit.toNat, window.toNat)

def parsePairs (key : Value → Except String String) : List Value → Except String (List (String × Bytes))
  | k :: v :: rest => do
    let k ← key k
    let pairs ← parsePairs key rest
    .ok ((k, (takeBytes v).getD []) :: pairs)
  | _ => .ok []

/-! ## The table of parsers -/

def coreParsers : List (String × Parser) := [
  ("PING", fun _ args => .ok (.ping (args.head?.bind extractString))),
  ("AUTH", onName 2 fun password _ => .ok (.auth password)),
  ("HELLO", fun _ args => .ok (.hello (args.head?.map stringArg))),
  ("INFO", fun _ args => .ok (.info (args.map fun v => toLowercase (stringArg v)))),
  ("QUIT", fun _ _ => .ok .quit),
  ("CLIENT", fun cmd args => do need 2 cmd args; .ok (.client (collectStrings args))),
  ("CONFIG", fun cmd args => do need 2 cmd args; .ok (.config (collectStrings args))),
  ("COMMAND", fun _ args => .ok (.commandQuery (collectStrings args))),
  ("CLUSTER", fun cmd args => do need 2 cmd args; .ok (.cluster (collectStrings args))),
  ("MODULE", fun cmd args => do need 2 cmd args; .ok (.module (collectStrings args))),
  ("PUBSUB", fun cmd args => do need 2 cmd args; .ok (.pubSub (collectStrings args))),
  ("MEMORY", fun cmd args => do
    need 2 cmd args
    if toUppercase (stringArg (argAt args 1)) ≠ "USAGE" then .ok (.memory (collectStrings args))
    else
      need 3 cmd args
      let key ← takeKey (argAt args 2)
      if args.length = 2 then .ok (.memoryUsage key)
      else if args.length = 4 ∧ (stringArg (argAt args 3)).map Char.toUpper = "SAMPLES" then
        let n ← extractInt (argAt args 4)
        if n < 0 then .error syntaxError else .ok (.memoryUsage key)
      else .error syntaxError)]

def keyPayload (f : String → Bytes → Command) : Parser := fun cmd args => do
  need 3 cmd args
  let key ← takeKey (argAt args 1)
  .ok (f key ((takeBytes (argAt args 2)).getD []))

def keyTimePayload (name : String) (f : String → ℕ → Bytes → Command) : Parser := fun cmd args => do
  need 4 cmd args
  let n ← expireTime name (argAt args 2)
  let key ← extractKey (argAt args 1)
  .ok (f key n (bytesArg (argAt args 3)))

def stringParsers : List (String × Parser) := [
  ("SET", fun cmd args => do
    need 3 cmd args
    let key ← takeKey (argAt args 1)
    let val := (takeBytes (argAt args 2)).getD []
    let opts ← parseSetOptions {} (argsFrom args 3)
    .ok (.set key val opts)),
  ("GET", onKey 2 fun key _ => .ok (.get key)),
  ("ESET", onKey 3 fun key args => .ok (.eSet key (bytesArg (argAt args 2)))),
  ("DEL", fun cmd args => do need 2 cmd args; let keys ← extractKeys args; .ok (.del keys)),
  ("UNLINK", fun cmd args => do need 2 cmd args; let keys ← extractKeys args; .ok (.unlink keys)),
  ("APPEND", keyPayload .append),
  ("STRLEN", onKey 2 fun key _ => .ok (.strlen key)),
  ("GETRANGE", onKey 4 fun key args => do
    let start ← extractInt (argAt args 2)
    let stop ← extractInt (argAt args 3)
    .ok (.getRange key start stop)),
  ("GETSET", keyPayload .getSet),
  ("MGET", fun cmd args => do need 2 cmd args; let keys ← extractKeys args; .ok (.mGet keys)),
  ("MSET", fun _ args =>
    if args.length < 2 ∨ args.length % 2 ≠ 0 then
      .error "ERR wrong number of arguments for 'mset' command"
    else do
      let pairs ← parsePairs takeKey args
      .ok (.mSet pairs)),
  ("SETNX", keyPayload .setNx),
  ("SETEX", keyTimePayload "setex" .setEx),
  ("PSETEX", keyTimePayload "psetex" .pSetEx),
  ("INCR", onKey 2 fun key _ => .ok (.incr key)),
  ("DECR", onKey 2 fun key _ => .ok (.decr key)),
  ("INCRBY", onKey 3 fun key args => do
    let delta ← extractInt (argAt args 2)
    .ok (.incrBy key delta)),
  ("DECRBY", onKey 3 fun key args => do
    let delta ← extractInt (argAt args 2)
    .ok (.decrBy key delta))]

def deadline (name : String) (f : String → ℕ → Command) : Parser := fun cmd args => do
  need 3 cmd args
  let n ← extractInt (argAt args 2)
  if n < 0 then .error s!"ERR invalid expire time in '{name}' command"
  else .ok (f (stringArg (argAt args 1)) n.toNat)

def expiryParsers : List (String × Parser) := [
  ("EXPIRE", deadline "expire" .expire),
  ("PEXPIRE", deadline "pexpire" .pExpire),
  ("EXPIREAT", deadline "expireat" .expireAt),
  ("PEXPIREAT", deadline "pexpireat" .pExpireAt),
  ("TTL", onName 2 fun key _ => .ok (.ttl key)),
  ("PTTL", onName 2 fun key _ => .ok (.pTtl key)),
  ("PERSIST", onName 2 fun key _ => .ok (.persist key))]

def keyParsers : List (String × Parser) := [
  ("EXISTS", fun cmd args => do need 2 cmd args; let keys ← extractKeys args; .ok (.exists keys)),
  ("KEYS", onName 2 fun pattern _ => do checkPattern pattern; .ok (.keys pattern)),
  ("SCAN", fun cmd args => do
    need 2 cmd args
    let scan ← parseScanArgs (argAt args 1) (argsFrom args 2) false
    .ok (.scan scan.cursor scan.pattern scan.count)),
  ("DBSIZE", fun _ _ => .ok .dbSize),
  ("FLUSHDB", fun _ _ => .ok .flushDb),
  ("RENAME", onName 3 fun src args => .ok (.rename src (stringArg (argAt args 2)))),
  ("TYPE", onName 2 fun key _ => .ok (.type key)),
  ("SYNC", fun _ args => do checkPatterns (args.map stringArg); .ok (.sync (args.map stringArg))),
  ("QSUB", onName 2 fun pattern _ => do
    if pattern = "" then .error "ERR QSUB requires a non-empty pattern"
    checkPattern pattern
    .ok (.qSub pattern)),
  ("QUNSUB", fun _ args => do
    checkPatterns (args.head?.map stringArg).toList
    .ok (.qUnsub (args.head?.map stringArg)))]

def jsonParsers : List (String × Parser) := [
  ("JSET", fun cmd args => do
    need 4 cmd args
    let key ← takeKey (argAt args 1)
    .ok (.jSet key ((takeString (argAt args 2)).getD "") ((takeString (argAt args 3)).getD ""))),
  ("JGET", onKey 2 fun key args => .ok (.jGet key ((args.drop 1).head?.map stringArg))),
  ("JMERGE", fun cmd args => do
    need 3 cmd args
    let key ← takeKey (argAt args 1)
    .ok (.jMerge key ((takeString (argAt args 2)).getD "")))]

def limiterParsers : List (String × Parser) := [
  ("RLSET", onKey 4 fun key args => do
    let (limit, window) ← parseRlConfig (argAt args 2) (argAt args 3) "rlset"
    .ok (.rlSet key limit window)),
  ("RLCHECK", onKey 2 fun key args => do
    if args.length = 1 then .ok (.rlCheck key none)
    else if args.length = 3 then
      let config ← parseRlConfig (argAt args 2) (argAt args 3) "rlcheck"
      .ok (.rlCheck key (some config))
    else .error "ERR wrong number of arguments for 'rlcheck' command")]

def parseHSet : Parser := fun cmd args => do
  if args.length < 3 ∨ (args.length - 1) % 2 ≠ 0 then .error (wrongArity cmd)
  let key ← extractKey (argAt args 1)
  let pairs ← parsePairs (fun f => .ok ((takeString f).getD "")) (argsFrom args 2)
  .ok (.hSet key pairs)

def hashParsers : List (String × Parser) := [
  ("HSET", parseHSet),
  ("HMSET", parseHSet),
  ("HGET", onName 3 fun key args => .ok (.hGet key (stringArg (argAt args 2)))),
  ("HGETALL", onName 2 fun key _ => .ok (.hGetAll key)),
  ("HDEL", onKey 3 fun key args => .ok (.hDel key (collectStrings (argsFrom args 2)))),
  ("HKEYS", onName 2 fun key _ => .ok (.hKeys key)),
  ("HVALS", onName 2 fun key _ => .ok (.hVals key)),
  ("HLEN", onName 2 fun key _ => .ok (.hLen key)),
  ("HINCRBY", onName 4 fun key args => do
    let delta ← extractInt (argAt args 3)
    .ok (.hIncrBy key (stringArg (argAt args 2)) delta)),
  ("HINCRBYFLOAT", onName 4 fun key args => do
    let delta ← extractFloat (argAt args 3)
    .ok (.hIncrByFloat key (stringArg (argAt args 2)) delta)),
  ("HEXISTS", onName 3 fun key args => .ok (.hExists key (stringArg (argAt args 2)))),
  ("HSETNX", onName 4 fun key args =>
    .ok (.hSetNx key (stringArg (argAt args 2)) (bytesArg (argAt args 3)))),
  ("HMGET", onKey 3 fun key args => .ok (.hMGet key (collectStrings (argsFrom args 2)))),
  ("HSCAN", onKey 3 fun key args => do
    let scan ← parseScanArgs (argAt args 2) (argsFrom args 3) true
    .ok (.hScan key scan))]

def pushValues (f : String → List Bytes → Command) : Parser :=
  onKey 3 fun key args => .ok (f key ((argsFrom args 2).filterMap takeBytes))

def optionalCount (args : List Value) : Except String (Option ℕ) :=
  if 1 < args.length then do
    let n ← extractCount (argAt args 2)
    .ok (some n)
  else .ok none

def popCount (f : String → Option ℕ → Command) : Parser := onKey 2 fun key args => do
  let count ← optionalCount args
  .ok (f key count)

def listParsers : List (String × Parser) := [
  ("LPUSH", pushValues .lPush),
  ("RPUSH", pushValues .rPush),
  ("LPUSHX", pushValues .lPushX),
  ("RPUSHX", pushValues .rPushX),
  ("LPOP", popCount .lPop),
  ("RPOP", popCount .rPop),
  ("LRANGE", onName 4 fun key args => do
    let start ← extractInt (argAt args 2)
    let stop ← extractInt (argAt args 3)
    .ok (.lRange key start stop)),
  ("LLEN", onName 2 fun key _ => .ok (.lLen key)),
  ("LINDEX", onName 3 fun key args => do
    let idx ← extractInt (argAt args 2)
    .ok (.lIndex key idx)),
  ("LSET", onName 4 fun key args => do
    let idx ← extractInt (argAt args 2)
    .ok (.lSet key idx (bytesArg (argAt args 3)))),
  ("LREM", onName 4 fun key args => do
    let count ← extractInt (argAt args 2)
    .ok (.lRem key count (bytesArg (argAt args 3)))),
  ("LTRIM", onName 4 fun key args => do
    let start ← extractInt (argAt args 2)
    let stop ← extractInt (argAt args 3)
    .ok (.lTrim key start stop))]

def keysOnly (f : List String → Command) : Parser := fun cmd args => do
  need 2 cmd args
  .ok (f (collectStrings args))

def storeKeys (f : String → List String → Command) : Parser :=
  onName 3 fun dst args => .ok (f dst (collectStrings (argsFrom args 2)))

def setParsers : List (String × Parser) := [
  ("SADD", fun cmd args => do
    need 3 cmd args
    let key ← takeKey (argAt args 1)
    .ok (.sAdd key (collectStrings (argsFrom args 2)))),
  ("SMEMBERS", onName 2 fun key _ => .ok (.sMembers key)),
  ("SREM", onKey 3 fun key args => .ok (.sRem key (collectStrings (argsFrom args 2)))),
  ("SCARD", onName 2 fun key _ => .ok (.sCard key)),
  ("SISMEMBER", onName 3 fun key args => .ok (.sIsMember key (stringArg (argAt args 2)))),
  ("SMISMEMBER", onKey 3 fun key args => .ok (.sMIsMember key (collectStrings (argsFrom args 2)))),
  ("SINTER", keysOnly .sInter),
  ("SINTERSTORE", storeKeys .sInterStore),
  ("SUNION", keysOnly .sUnion),
  ("SUNIONSTORE", storeKeys .sUnionStore),
  ("SDIFF", keysOnly .sDiff),
  ("SDIFFSTORE", storeKeys .sDiffStore),
  ("SPOP", popCount .sPop),
  ("SRANDMEMBER", onKey 2 fun key args =>
    if 1 < args.length then do
      let n ← extractInt (argAt args 2)
      if n < 0 ∧ maxArrayElements < n.natAbs then
        .error "ERR count is out of range in 'srandmember' command"
      else .ok (.sRandMember key (some n))
    else .ok (.sRandMember key none)),
  ("SMOVE", onName 4 fun src args =>
    .ok (.sMove src (stringArg (argAt args 2)) (stringArg (argAt args 3)))),
  ("SSCAN", onKey 3 fun key args => do
    let scan ← parseScanArgs (argAt args 2) (argsFrom args 3) false
    .ok (.sScan key scan))]

def parseZAdd : Parser := onKey 4 fun key args => do
  let (opts, rest) := parseZAddOptions {} (argsFrom args 2)
  if rest.length < 2 ∨ rest.length % 2 ≠ 0 then .error syntaxError
  let pairs ← parseZAddPairs rest
  if opts.gt && opts.lt then
    .error "ERR GT and LT options at the same time are not compatible"
  if (opts.gt || opts.lt) && opts.condition = some .nx then
    .error "ERR GT, LT, and NX options at the same time are not compatible"
  if opts.incr && pairs.length != 1 then
    .error "ERR INCR option supports a single increment-element pair"
  .ok (.zAdd key opts pairs)

def isWithscores (args : List Value) : Bool :=
  ((args.drop 3).head?.bind extractString).any fun s => toUppercase s = "WITHSCORES"

def indexRange (f : String → ℤ → ℤ → Bool → Command) : Parser := onKey 4 fun key args => do
  let start ← extractInt (argAt args 2)
  let stop ← extractInt (argAt args 3)
  .ok (f key start stop (isWithscores args))

def scoreRange (f : String → String → String → Bool → Option (ℤ × ℤ) → Command) : Parser :=
  onKey 4 fun key args => do
    let (withscores, limit) ← parseZRangeOpts false none (argsFrom args 4)
    .ok (f key (stringArg (argAt args 2)) (stringArg (argAt args 3)) withscores limit)

def sortedSetParsers : List (String × Parser) := [
  ("ZADD", parseZAdd),
  ("ZRANGE", indexRange .zRange),
  ("ZREVRANGE", indexRange .zRevRange),
  ("ZRANGEBYSCORE", scoreRange .zRangeByScore),
  ("ZREVRANGEBYSCORE", scoreRange .zRevRangeByScore),
  ("ZSCORE", onName 3 fun key args => .ok (.zScore key (stringArg (argAt args 2)))),
  ("ZMSCORE", onKey 3 fun key args => .ok (.zMScore key (collectStrings (argsFrom args 2)))),
  ("ZRANK", onName 3 fun key args => .ok (.zRank key (stringArg (argAt args 2)))),
  ("ZREVRANK", onName 3 fun key args => .ok (.zRevRank key (stringArg (argAt args 2)))),
  ("ZREM", onKey 3 fun key args => .ok (.zRem key (collectStrings (argsFrom args 2)))),
  ("ZCARD", onName 2 fun key _ => .ok (.zCard key)),
  ("ZINCRBY", onName 4 fun key args => do
    let delta ← extractFloat (argAt args 2)
    .ok (.zIncrBy key delta (stringArg (argAt args 3)))),
  ("ZCOUNT", onName 4 fun key args =>
    .ok (.zCount key (stringArg (argAt args 2)) (stringArg (argAt args 3)))),
  ("ZSCAN", onKey 3 fun key args => do
    let scan ← parseScanArgs (argAt args 2) (argsFrom args 3) false
    .ok (.zScan key scan))]

def serverParsers : List (String × Parser) := [
  ("MULTI", fun _ _ => .ok .multi),
  ("EXEC", fun _ _ => .ok .exec),
  ("DISCARD", fun _ _ => .ok .discard),
  ("SUBSCRIBE", keysOnly .subscribe),
  ("UNSUBSCRIBE", fun _ args => .ok (.unsubscribe (collectStrings args))),
  ("PSUBSCRIBE", fun cmd args => do
    need 2 cmd args
    checkPatterns (collectStrings args)
    .ok (.pSubscribe (collectStrings args))),
  ("PUNSUBSCRIBE", fun _ args => do
    checkPatterns (collectStrings args)
    .ok (.pUnsubscribe (collectStrings args))),
  ("PUBLISH", onName 3 fun channel args => .ok (.publish channel (bytesArg (argAt args 2)))),
  ("WATCH", keysOnly .watch),
  ("UNWATCH", fun _ args => .ok (.unwatch (collectStrings args))),
  ("SAVE", fun _ _ => .ok .save),
  ("BGSAVE", fun _ _ => .ok .bgSave),
  ("LASTSAVE", fun _ _ => .ok .lastSave),
  ("REPLICAOF", fun cmd args => do
    need 3 cmd args
    if toUppercase (stringArg (argAt args 1)) = "NO" ∧
        toUppercase (stringArg (argAt args 2)) = "ONE" then
      .ok .replicaOfNoOne
    else .error "ERR REPLICAOF supports only 'REPLICAOF NO ONE' at runtime")]

def parsers : List (String × Parser) :=
  coreParsers ++ stringParsers ++ expiryParsers ++ keyParsers ++ jsonParsers ++ limiterParsers ++
    hashParsers ++ listParsers ++ setParsers ++ sortedSetParsers ++ serverParsers

def commandName : Value → Except String String
  | .bulkString (some data) => .ok (toUppercase (fromUtf8Lossy data))
  | .simpleString s => .ok (toUppercase s)
  | _ => .error "Invalid command name type"

/-- Decode the parts of a command.  `DEDUP` wraps a whole command after its two arguments. -/
def fromArray : List Value → Except String Command
  | [] => .error "Empty command"
  | name :: args => do
    let cmdName ← commandName name
    if let some pos := invalidTextFrom cmdName 1 args then
      .error (s!"ERR argument {pos} is not valid UTF-8. Keys, fields, members and " ++
        "patterns must be text; only values may be binary")
    if cmdName = "DEDUP" then
      match args with
      | client :: id :: part :: parts =>
        let clientId := stringArg client
        if clientId = "" ∨ 64 < (asBytes clientId).length then
          .error "ERR DEDUP client id must be 1-64 characters"
        let id ← extractInt id
        if id < 0 then .error "ERR DEDUP id must be non-negative"
        match ← fromArray (part :: parts) with
        | .dedup _ _ _ => .error "ERR DEDUP cannot be nested"
        | inner => .ok (.dedup clientId id.toNat inner)
      | _ => .error (wrongArity cmdName)
    else
      match parsers.lookup cmdName with
      | some parser => parser cmdName args
      | none => .ok (.unknown cmdName)

/-- Decode a command. -/
def fromValue : Value → Except String Command
  | .array (some parts) => fromArray parts
  | _ => .error "Commands must be RESP Arrays"

end Recached
