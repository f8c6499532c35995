import Recached.Execute

/-!
# Propagation

The frame an executed command becomes for the append-only file, the replicas and the browser sync
clients, and the server step that executes a write and propagates it.

Every relative deadline is rewritten into an absolute one against the clock.  The frame is built from
the command and its reply.
-/

namespace Recached

open Text

def isWriteCommand : Command → Bool
  | .set _ _ _ | .eSet _ _ | .del _ | .unlink _ | .append _ _ | .getSet _ _ | .mSet _ | .setNx _ _
  | .setEx _ _ _ | .pSetEx _ _ _ | .incr _ | .decr _ | .incrBy _ _ | .decrBy _ _ | .expire _ _
  | .pExpire _ _ | .expireAt _ _ | .pExpireAt _ _ | .persist _ | .flushDb | .rename _ _ | .hSet _ _
  | .hDel _ _ | .hIncrBy _ _ _ | .hIncrByFloat _ _ _ | .hSetNx _ _ _ | .lPush _ _ | .rPush _ _
  | .lPushX _ _ | .rPushX _ _ | .lPop _ _ | .rPop _ _ | .lSet _ _ _ | .lRem _ _ _ | .lTrim _ _ _
  | .sAdd _ _ | .sRem _ _ | .sInterStore _ _ | .sUnionStore _ _ | .sDiffStore _ _ | .sPop _ _
  | .sMove _ _ _ | .zAdd _ _ _ | .zRem _ _ | .zIncrBy _ _ _ | .rlSet _ _ _ | .rlCheck _ _
  | .jSet _ _ _ | .jMerge _ _ => true
  | .dedup _ _ inner => isWriteCommand inner
  | _ => false

/-- The keys a command writes. -/
def primaryKeys : Command → List String
  | .eSet key _ | .set key _ _ | .append key _ | .getSet key _ | .setNx key _ | .setEx key _ _
  | .pSetEx key _ _ | .incr key | .decr key | .incrBy key _ | .decrBy key _ | .expire key _
  | .pExpire key _ | .expireAt key _ | .pExpireAt key _ | .persist key | .hSet key _ | .hDel key _
  | .hSetNx key _ _ | .hIncrBy key _ _ | .hIncrByFloat key _ _ | .lPush key _ | .rPush key _
  | .lPushX key _ | .rPushX key _ | .lPop key _ | .rPop key _ | .lSet key _ _ | .lRem key _ _
  | .lTrim key _ _ | .sAdd key _ | .sRem key _ | .sPop key _ | .sInterStore key _
  | .sUnionStore key _ | .sDiffStore key _ | .zAdd key _ _ | .zRem key _ | .zIncrBy key _ _
  | .rlSet key _ _ | .jSet key _ _ | .jMerge key _ => [key]
  | .del keys | .unlink keys => keys
  | .mSet pairs => pairs.map Prod.fst
  | .rename src dst | .sMove src dst _ => [src, dst]
  | .dedup _ _ inner => primaryKeys inner
  | _ => []

/-- The keys whose state can affect a write's result; `none` stands for every key. -/
def orderingKeys : Command → Option (List String)
  | .flushDb => none
  | .sInterStore dst keys | .sUnionStore dst keys | .sDiffStore dst keys => some (dst :: keys)
  | .dedup _ _ inner => orderingKeys inner
  | cmd => some (primaryKeys cmd)

/-! ## Frames -/

/-- A push frame of byte strings. -/
def respPush (parts : List Bytes) : Bytes :=
  62 :: Decimal.digits parts.length ++ crlf ++
    parts.flatMap fun part => 36 :: Decimal.digits part.length ++ crlf ++ part ++ crlf

def formatF64Score (s : Binary64) : Bytes :=
  if s = .infinity then asBytes "inf"
  else if s = Binary64.infinity.negate then asBytes "-inf"
  else if s.isIntegral && s.absLt (10 ^ 15) then Decimal.ofInt s.truncate
  else s.display

/-- The parts of a frame: the name of the command, and its arguments. -/
def frame (name : String) (args : List Bytes) : Option (List Bytes) := some (asBytes name :: args)

def isPositive : Value → Bool
  | .integer n => 0 < n
  | _ => false

def isOne : Value → Bool
  | .integer n => n = 1
  | _ => false

def isInteger : Value → Bool
  | .integer _ => true
  | _ => false

def isSimple : Value → Bool
  | .simpleString _ => true
  | _ => false

def isNil : Value → Bool
  | .bulkString none => true
  | _ => false

/-- A pop that took nothing. -/
def isEmptyPop : Value → Bool
  | .bulkString none | .array (some []) => true
  | _ => false

def bulkText : Value → Option String
  | .bulkString (some data) => some (fromUtf8Lossy data)
  | _ => none

/-- The members an `SPOP` reply lists. -/
def poppedMembers : Value → List String
  | .bulkString (some data) => [fromUtf8Lossy data]
  | .array (some items) => items.filterMap bulkText
  | _ => []

/-- The deadline part of a `SET` frame. -/
def expiryParts (nowMs : ℕ) : Option SetExpiry → List Bytes
  | none => []
  | some (.ex s) => [asBytes "PXAT", Decimal.digits (satAdd nowMs (satMul s 1000))]
  | some (.px ms) => [asBytes "PXAT", Decimal.digits (satAdd nowMs ms)]
  | some (.exAt ts) => [asBytes "PXAT", Decimal.digits (satMul ts 1000)]
  | some (.pxAt ts) => [asBytes "PXAT", Decimal.digits ts]
  | some .keepTtl => [asBytes "KEEPTTL"]

def setFrame (key : String) (val : Bytes) (expiry : List Bytes) : Option (List Bytes) :=
  frame "SET" (asBytes key :: val :: expiry)

/-- A counter is propagated by its new value, and its deadline is kept. -/
def counterFrame (key : String) : Value → Option (List Bytes)
  | .integer n => setFrame key (Decimal.ofInt n) [asBytes "KEEPTTL"]
  | _ => none

def deadlineFrame (key : String) (tsMs : ℕ) (response : Value) : Option (List Bytes) :=
  if isOne response then frame "PEXPIREAT" [asBytes key, Decimal.digits tsMs] else none

def popFrame (name key : String) (count : Option ℕ) (response : Value) : Option (List Bytes) :=
  if isEmptyPop response then none
  else frame name (asBytes key :: (count.map Decimal.digits).toList)

/-- A frame of a key and names that is sent only if the command counted something. -/
def countedFrame (name key : String) (args : List Bytes) (response : Value) : Option (List Bytes) :=
  if isPositive response then frame name (asBytes key :: args) else none

def zAddOptionParts (opts : ZAddOptions) : List Bytes :=
  (match opts.condition with
    | some .nx => [asBytes "NX"]
    | some .xx => [asBytes "XX"]
    | none => []) ++
  (if opts.ch then [asBytes "CH"] else []) ++ (if opts.incr then [asBytes "INCR"] else [])

/-- The parts of the frame a command is propagated as, `none` if it changed nothing. -/
def frameParts (cmd : Command) (response : Value) (nowMs : ℕ) : Option (List Bytes) :=
  match cmd with
  | .eSet key val => setFrame key val []
  | .set key val opts =>
    -- without GET a nil reply means that the condition failed
    if opts.get || !isNil response then setFrame key val (expiryParts nowMs opts.expiry) else none
  | .del keys | .unlink keys => frame "DEL" (keys.map asBytes)
  | .mSet pairs => frame "MSET" (pairs.flatMap fun p => [asBytes p.1, p.2])
  | .setNx key val => if isOne response then setFrame key val [] else none
  | .setEx key secs val => setFrame key val (expiryParts nowMs (some (.ex secs)))
  | .pSetEx key ms val => setFrame key val (expiryParts nowMs (some (.px ms)))
  | .append key val => if isInteger response then frame "APPEND" [asBytes key, val] else none
  | .getSet key val => setFrame key val []
  | .incr key | .decr key | .incrBy key _ | .decrBy key _ => counterFrame key response
  | .expire key secs => deadlineFrame key (satAdd nowMs (satMul secs 1000)) response
  | .pExpire key ms => deadlineFrame key (satAdd nowMs ms) response
  | .expireAt key ts => deadlineFrame key (satMul ts 1000) response
  | .pExpireAt key ts => deadlineFrame key ts response
  | .persist key => if isOne response then frame "PERSIST" [asBytes key] else none
  | .flushDb => frame "FLUSHDB" []
  | .rename src dst =>
    if response.isError then none else frame "RENAME" [asBytes src, asBytes dst]
  -- hashes
  | .hSet key pairs => frame "HSET" (asBytes key :: pairs.flatMap fun p => [asBytes p.1, p.2])
  | .hDel key fields => countedFrame "HDEL" key (fields.map asBytes) response
  | .hIncrBy key field _ =>
    match response with
    | .integer n => frame "HSET" [asBytes key, asBytes field, Decimal.ofInt n]
    | _ => none
  | .hIncrByFloat key field _ =>
    match response with
    | .bulkString (some data) =>
      frame "HSET" [asBytes key, asBytes field, asBytes (fromUtf8Lossy data)]
    | _ => none
  | .hSetNx key field val =>
    if isOne response then frame "HSET" [asBytes key, asBytes field, val] else none
  -- lists
  | .lPush key vals => frame "LPUSH" (asBytes key :: vals)
  | .rPush key vals => frame "RPUSH" (asBytes key :: vals)
  | .lPushX key vals => countedFrame "LPUSH" key vals response
  | .rPushX key vals => countedFrame "RPUSH" key vals response
  | .lPop key count => popFrame "LPOP" key count response
  | .rPop key count => popFrame "RPOP" key count response
  | .lSet key idx val =>
    if isSimple response then frame "LSET" [asBytes key, Decimal.ofInt idx, val] else none
  | .lRem key count element => countedFrame "LREM" key [Decimal.ofInt count, element] response
  | .lTrim key start stop =>
    frame "LTRIM" [asBytes key, Decimal.ofInt start, Decimal.ofInt stop]
  -- sets
  | .sAdd key members => countedFrame "SADD" key (members.map asBytes) response
  | .sRem key members => countedFrame "SREM" key (members.map asBytes) response
  | .sPop key _ =>
    if (poppedMembers response).isEmpty then none
    else frame "SREM" (asBytes key :: (poppedMembers response).map asBytes)
  | .sMove src dst member =>
    if isOne response then frame "SMOVE" [asBytes src, asBytes dst, asBytes member] else none
  | .sInterStore dst keys => frame "SINTERSTORE" (asBytes dst :: keys.map asBytes)
  | .sUnionStore dst keys => frame "SUNIONSTORE" (asBytes dst :: keys.map asBytes)
  | .sDiffStore dst keys => frame "SDIFFSTORE" (asBytes dst :: keys.map asBytes)
  -- sorted sets
  | .zAdd key opts pairs =>
    frame "ZADD" (asBytes key :: (zAddOptionParts opts ++
      pairs.flatMap fun p => [formatF64Score p.1, asBytes p.2]))
  | .zRem key members => countedFrame "ZREM" key (members.map asBytes) response
  | .zIncrBy key delta member =>
    frame "ZINCRBY" [asBytes key, formatF64Score delta, asBytes member]
  -- JSON
  | .jSet key path value =>
    if isSimple response then frame "JSET" [asBytes key, asBytes path, asBytes value] else none
  | .jMerge key patch =>
    if isSimple response then frame "JMERGE" [asBytes key, asBytes patch] else none
  -- rate limiting: the configuration is propagated, the attempts are not
  | .rlSet key limit windowSecs =>
    frame "RLSET" [asBytes key, Decimal.digits limit, Decimal.digits windowSecs]
  | _ => none

/-- The mutation to broadcast for an executed command. -/
def broadcastFor (cmd : Command) (response : Value) (nowMs : ℕ) : Option Bytes :=
  (frameParts cmd response nowMs).map respPush

/-! ## The server -/

/-- A mutation pushed to the browser sync clients. -/
structure SyncPush where
  origin : ℕ
  keys : List String
  resp : Bytes
deriving DecidableEq

/-- What a server keeps, and what it has sent out so far: the frames logged for the append-only file
and the replicas, the pushes to sync clients and the keys announced to watchers, where `none` is the
announcement that every key is gone. -/
structure ServerState where
  store : KeyValueStore
  persistenceHealthy : Bool := true
  dedup : Std.ExtTreeMap String ℕ := ∅
  ephemeral : Std.ExtTreeMap String ℕ := ∅
  log : List Bytes := []
  pushes : List SyncPush := []
  notices : List (Option (List String)) := []

namespace ServerState

/-- Fan out an executed command to everyone who follows the store. -/
def applyWriteEffects (nowMs origin : ℕ) (cmd : Command) (response : Value) (st : ServerState) :
    ServerState :=
  match broadcastFor cmd response nowMs with
  | none => st
  | some msg =>
    { st with
      log := st.log ++ [msg]
      notices := st.notices ++ [match cmd with
        | .flushDb => none
        | cmd => some (primaryKeys cmd)]
      pushes := st.pushes ++ [⟨origin, primaryKeys cmd, msg⟩] }

/-- Fan out the keys that capacity eviction removed, as deletions. -/
def applyEvictionEffects (nowMs origin : ℕ) (evicted : List String) (st : ServerState) :
    ServerState :=
  evicted.foldl (fun st key => st.applyWriteEffects nowMs origin (.del [key]) (.integer 1)) st

/-- The command inside a duplicate-suppressing wrapper, and the client and id that wrap it. -/
def unwrapDedup : Command → Command × Option (String × ℕ)
  | .dedup client id inner => (inner, some (client, id))
  | cmd => (cmd, none)

def dedupIsDuplicate (st : ServerState) (client : String) (id : ℕ) : Bool :=
  match st.dedup[client]? with
  | some mark => id ≤ mark
  | none => false

def commitDedup (st : ServerState) (client : String) (id : ℕ) : ServerState :=
  { st with dedup := st.dedup.insert client (max ((st.dedup[client]?).getD 0) id) }

/-- Record who owns an ephemeral key and which wrapped command took effect. -/
def commitWrite (origin : ℕ) (cmd : Command) (wrapper : Option (String × ℕ)) (st : ServerState) :
    ServerState :=
  let st := match cmd with
    | .eSet key _ => { st with ephemeral := st.ephemeral.insert key origin }
    | _ => st
  match wrapper with
  | some (client, id) => st.commitDedup client id
  | none => st

/-- Execute a write, propagate it and then the keys evicted for it. -/
def executeOrderedWrite (codec : Codec) (env : Env) (origin : ℕ) (cmd : Command) (st : ServerState) :
    Value × ServerState :=
  if !st.persistenceHealthy then
    (.error "MISCONF persistence is unhealthy; writes are disabled until SAVE succeeds", st)
  else
    let (effective, wrapper) := unwrapDedup cmd
    if wrapper.any fun w => st.dedupIsDuplicate w.1 w.2 then (.simpleString "DUP", st)
    else
      let (response, store, evicted) := executeReporting codec env effective st.store
      let st := ({ st with store }).applyWriteEffects env.now origin effective response
      let st := st.applyEvictionEffects env.now origin evicted
      (response, if response.isError then st else st.commitWrite origin effective wrapper)

end ServerState

end Recached
