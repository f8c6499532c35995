import Recached.Replay

/-!
# Mutations

The absolute form of a write: no relative deadline, no condition on what was there, no random
choice.  `absolute` gives the mutation an executed command amounts to and `Mutation.parts` how it is
written as a frame; `frameParts_eq` says that a frame is the written form of its mutation.
-/

namespace Recached

open Text

/-- What a `SET` does to the deadline of its key. -/
inductive Deadline where
  | none
  | till (ms : ℕ)
  | keep
deriving DecidableEq

namespace Deadline

def expiry : Deadline → Option SetExpiry
  | none => Option.none
  | till ms => some (.pxAt ms)
  | keep => some .keepTtl

def parts : Deadline → List Bytes
  | none => []
  | till ms => [asBytes "PXAT", Decimal.digits ms]
  | keep => [asBytes "KEEPTTL"]

/-- The absolute form of the deadline of a `SET`. -/
def ofExpiry (now : ℕ) : Option SetExpiry → Deadline
  | Option.none => none
  | some (.ex s) => till (satAdd now (satMul s 1000))
  | some (.px ms) => till (satAdd now ms)
  | some (.exAt ts) => till (satMul ts 1000)
  | some (.pxAt ts) => till ts
  | some .keepTtl => keep

theorem expiryParts_eq (now : ℕ) (expiry : Option SetExpiry) :
    expiryParts now expiry = (ofExpiry now expiry).parts := by
  unfold expiryParts ofExpiry
  split <;> rfl

end Deadline

inductive Mutation where
  | set (key : String) (val : Bytes) (deadline : Deadline)
  | del (keys : List String)
  | mSet (pairs : List (String × Bytes))
  | append (key : String) (suffix : Bytes)
  | pExpireAt (key : String) (ts : ℕ)
  | persist (key : String)
  | flushDb
  | rename (src dst : String)
  | hSet (key : String) (pairs : List (String × Bytes))
  | hDel (key : String) (fields : List String)
  | lPush (key : String) (vals : List Bytes)
  | rPush (key : String) (vals : List Bytes)
  | lPop (key : String) (count : Option ℕ)
  | rPop (key : String) (count : Option ℕ)
  | lSet (key : String) (idx : ℤ) (val : Bytes)
  | lRem (key : String) (count : ℤ) (element : Bytes)
  | lTrim (key : String) (start stop : ℤ)
  | sAdd (key : String) (members : List String)
  | sRem (key : String) (members : List String)
  | sMove (src dst member : String)
  | sInterStore (dst : String) (keys : List String)
  | sUnionStore (dst : String) (keys : List String)
  | sDiffStore (dst : String) (keys : List String)
  | zAdd (key : String) (opts : ZAddOptions) (pairs : List (Binary64 × String))
  | zRem (key : String) (members : List String)
  | zIncrBy (key : String) (delta : Binary64) (member : String)
  | jSet (key path value : String)
  | jMerge (key patch : String)
  | rlSet (key : String) (limit windowSecs : ℕ)
deriving DecidableEq

namespace Mutation

def toCommand : Mutation → Command
  | set key val deadline => .set key val { expiry := deadline.expiry }
  | del keys => .del keys
  | mSet pairs => .mSet pairs
  | append key suffix => .append key suffix
  | pExpireAt key ts => .pExpireAt key ts
  | persist key => .persist key
  | flushDb => .flushDb
  | rename src dst => .rename src dst
  | hSet key pairs => .hSet key pairs
  | hDel key fields => .hDel key fields
  | lPush key vals => .lPush key vals
  | rPush key vals => .rPush key vals
  | lPop key count => .lPop key count
  | rPop key count => .rPop key count
  | lSet key idx val => .lSet key idx val
  | lRem key count element => .lRem key count element
  | lTrim key start stop => .lTrim key start stop
  | sAdd key members => .sAdd key members
  | sRem key members => .sRem key members
  | sMove src dst member => .sMove src dst member
  | sInterStore dst keys => .sInterStore dst keys
  | sUnionStore dst keys => .sUnionStore dst keys
  | sDiffStore dst keys => .sDiffStore dst keys
  | zAdd key opts pairs => .zAdd key opts pairs
  | zRem key members => .zRem key members
  | zIncrBy key delta member => .zIncrBy key delta member
  | jSet key path value => .jSet key path value
  | jMerge key patch => .jMerge key patch
  | rlSet key limit windowSecs => .rlSet key limit windowSecs

def pairParts (pairs : List (String × Bytes)) : List Bytes := pairs.flatMap fun p => [asBytes p.1, p.2]

def scoreParts (pairs : List (Binary64 × String)) : List Bytes :=
  pairs.flatMap fun p => [formatF64Score p.1, asBytes p.2]

/-- The name of the command and its arguments. -/
def written : Mutation → String × List Bytes
  | set key val deadline => ("SET", asBytes key :: val :: deadline.parts)
  | del keys => ("DEL", keys.map asBytes)
  | mSet pairs => ("MSET", pairParts pairs)
  | append key suffix => ("APPEND", [asBytes key, suffix])
  | pExpireAt key ts => ("PEXPIREAT", [asBytes key, Decimal.digits ts])
  | persist key => ("PERSIST", [asBytes key])
  | flushDb => ("FLUSHDB", [])
  | rename src dst => ("RENAME", [asBytes src, asBytes dst])
  | hSet key pairs => ("HSET", asBytes key :: pairParts pairs)
  | hDel key fields => ("HDEL", asBytes key :: fields.map asBytes)
  | lPush key vals => ("LPUSH", asBytes key :: vals)
  | rPush key vals => ("RPUSH", asBytes key :: vals)
  | lPop key count => ("LPOP", asBytes key :: (count.map Decimal.digits).toList)
  | rPop key count => ("RPOP", asBytes key :: (count.map Decimal.digits).toList)
  | lSet key idx val => ("LSET", [asBytes key, Decimal.ofInt idx, val])
  | lRem key count element => ("LREM", [asBytes key, Decimal.ofInt count, element])
  | lTrim key start stop => ("LTRIM", [asBytes key, Decimal.ofInt start, Decimal.ofInt stop])
  | sAdd key members => ("SADD", asBytes key :: members.map asBytes)
  | sRem key members => ("SREM", asBytes key :: members.map asBytes)
  | sMove src dst member => ("SMOVE", [asBytes src, asBytes dst, asBytes member])
  | sInterStore dst keys => ("SINTERSTORE", asBytes dst :: keys.map asBytes)
  | sUnionStore dst keys => ("SUNIONSTORE", asBytes dst :: keys.map asBytes)
  | sDiffStore dst keys => ("SDIFFSTORE", asBytes dst :: keys.map asBytes)
  | zAdd key opts pairs => ("ZADD", asBytes key :: (zAddOptionParts opts ++ scoreParts pairs))
  | zRem key members => ("ZREM", asBytes key :: members.map asBytes)
  | zIncrBy key delta member => ("ZINCRBY", [asBytes key, formatF64Score delta, asBytes member])
  | jSet key path value => ("JSET", [asBytes key, asBytes path, asBytes value])
  | jMerge key patch => ("JMERGE", [asBytes key, asBytes patch])
  | rlSet key limit windowSecs =>
    ("RLSET", [asBytes key, Decimal.digits limit, Decimal.digits windowSecs])

def parts (m : Mutation) : List Bytes := asBytes m.written.1 :: m.written.2

end Mutation

/-! ## The mutation of an executed command -/

/-- The mutation, if the reply says that something changed. -/
def when (changed : Bool) (m : Mutation) : Option Mutation := if changed then some m else none

/-- The mutation an executed command amounts to, `none` if it changed nothing. -/
def absolute (now : ℕ) (reply : Value) : Command → Option Mutation
  | .eSet key val => some (.set key val .none)
  | .set key val opts =>
    when (opts.get || !isNil reply) (.set key val (.ofExpiry now opts.expiry))
  | .del keys | .unlink keys => some (.del keys)
  | .mSet pairs => some (.mSet pairs)
  | .setNx key val => when (isOne reply) (.set key val .none)
  | .setEx key secs val => some (.set key val (.till (satAdd now (satMul secs 1000))))
  | .pSetEx key ms val => some (.set key val (.till (satAdd now ms)))
  | .append key val => when (isInteger reply) (.append key val)
  | .getSet key val => some (.set key val .none)
  | .incr key | .decr key | .incrBy key _ | .decrBy key _ =>
    match reply with
    | .integer n => some (.set key (Decimal.ofInt n) .keep)
    | _ => none
  | .expire key secs => when (isOne reply) (.pExpireAt key (satAdd now (satMul secs 1000)))
  | .pExpire key ms => when (isOne reply) (.pExpireAt key (satAdd now ms))
  | .expireAt key ts => when (isOne reply) (.pExpireAt key (satMul ts 1000))
  | .pExpireAt key ts => when (isOne reply) (.pExpireAt key ts)
  | .persist key => when (isOne reply) (.persist key)
  | .flushDb => some .flushDb
  | .rename src dst => when (!reply.isError) (.rename src dst)
  | .hSet key pairs => some (.hSet key pairs)
  | .hDel key fields => when (isPositive reply) (.hDel key fields)
  | .hIncrBy key field _ =>
    match reply with
    | .integer n => some (.hSet key [(field, Decimal.ofInt n)])
    | _ => none
  | .hIncrByFloat key field _ =>
    match reply with
    | .bulkString (some data) => some (.hSet key [(field, data)])
    | _ => none
  | .hSetNx key field val => when (isOne reply) (.hSet key [(field, val)])
  | .lPush key vals => some (.lPush key vals)
  | .rPush key vals => some (.rPush key vals)
  | .lPushX key vals => when (isPositive reply) (.lPush key vals)
  | .rPushX key vals => when (isPositive reply) (.rPush key vals)
  | .lPop key count => when (!isEmptyPop reply) (.lPop key count)
  | .rPop key count => when (!isEmptyPop reply) (.rPop key count)
  | .lSet key idx val => when (isSimple reply) (.lSet key idx val)
  | .lRem key count element => when (isPositive reply) (.lRem key count element)
  | .lTrim key start stop => some (.lTrim key start stop)
  | .sAdd key members => when (isPositive reply) (.sAdd key members)
  | .sRem key members => when (isPositive reply) (.sRem key members)
  | .sPop key _ => when (!(poppedMembers reply).isEmpty) (.sRem key (poppedMembers reply))
  | .sMove src dst member => when (isOne reply) (.sMove src dst member)
  | .sInterStore dst keys => some (.sInterStore dst keys)
  | .sUnionStore dst keys => some (.sUnionStore dst keys)
  | .sDiffStore dst keys => some (.sDiffStore dst keys)
  | .zAdd key opts pairs => some (.zAdd key opts pairs)
  | .zRem key members => when (isPositive reply) (.zRem key members)
  | .zIncrBy key delta member => some (.zIncrBy key delta member)
  | .jSet key path value => when (isSimple reply) (.jSet key path value)
  | .jMerge key patch => when (isSimple reply) (.jMerge key patch)
  | .rlSet key limit windowSecs => some (.rlSet key limit windowSecs)
  | _ => none

/-- The reply to `HINCRBYFLOAT` is a number in text. -/
def ReplyIsText (cmd : Command) (reply : Value) : Prop :=
  match cmd, reply with
  | .hIncrByFloat _ _ _, .bulkString (some data) => IsText data
  | _, _ => True

theorem eq_of_when {changed : Bool} {m m' : Mutation} (sent : when changed m' = some m) : m' = m := by
  unfold when at sent
  split_ifs at sent
  exact Option.some.inj sent

theorem map_when (b : Bool) (m : Mutation) :
    (when b m).map Mutation.parts = if b then some m.parts else none := by
  cases b <;> rfl

theorem ite_not (b : Bool) (x : Option (List Bytes)) :
    (if (!b) = true then x else none) = if b = true then none else x := by
  cases b <;> rfl

/-- A frame is the written form of a mutation. -/
theorem frameParts_eq {cmd : Command} {reply : Value} (text : ReplyIsText cmd reply) (now : ℕ) :
    frameParts cmd reply now = (absolute now reply cmd).map Mutation.parts := by
  cases cmd
  case set key val opts =>
    simp only [frameParts, absolute, map_when, Deadline.expiryParts_eq]
    rfl
  case hIncrByFloat key field delta =>
    cases reply
    case bulkString data =>
      cases data with
      | none => rfl
      | some data =>
        simp only [frameParts, IsText.asBytes_lossy (b := data) text]
        rfl
    all_goals rfl
  case incr | decr | incrBy | decrBy | hIncrBy =>
    cases reply <;> rfl
  all_goals first
    | rfl
    | (simp only [frameParts, absolute, map_when, deadlineFrame, countedFrame, popFrame, ite_not]; rfl)

end Recached
