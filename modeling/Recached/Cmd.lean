import Recached.Lib.Binary64

/-!
# Commands

The command type that the parser produces and the store executes.
-/

namespace Recached

inductive SetExpiry where
  | ex (seconds : ℕ)
  | px (ms : ℕ)
  | exAt (seconds : ℕ)
  | pxAt (ms : ℕ)
  | keepTtl
deriving DecidableEq

inductive SetCondition where
  | nx
  | xx
deriving DecidableEq

structure SetOptions where
  expiry : Option SetExpiry := none
  condition : Option SetCondition := none
  get : Bool := false
deriving DecidableEq

inductive ZAddCondition where
  | nx
  | xx
deriving DecidableEq

structure ZAddOptions where
  condition : Option ZAddCondition := none
  gt : Bool := false
  lt : Bool := false
  ch : Bool := false
  incr : Bool := false
deriving DecidableEq

/-- Arguments shared by `HSCAN`, `SSCAN` and `ZSCAN`. -/
structure ScanArgs where
  cursor : ℕ := 0
  pattern : Option String := none
  count : Option ℕ := none
  novalues : Bool := false
deriving DecidableEq

inductive Command where
  | ping (msg : Option String)
  | auth (password : String)
  | hello (protover : Option String)
  | info (sections : List String)
  | quit
  | client (args : List String)
  | config (args : List String)
  | commandQuery (args : List String)
  | cluster (args : List String)
  | module (args : List String)
  | pubSub (args : List String)
  | memory (args : List String)
  -- strings
  | set (key : String) (val : Bytes) (opts : SetOptions)
  | get (key : String)
  | eSet (key : String) (val : Bytes)
  | del (keys : List String)
  | unlink (keys : List String)
  | append (key : String) (suffix : Bytes)
  | strlen (key : String)
  | getRange (key : String) (start stop : ℤ)
  | getSet (key : String) (val : Bytes)
  | mGet (keys : List String)
  | mSet (pairs : List (String × Bytes))
  | setNx (key : String) (val : Bytes)
  | setEx (key : String) (secs : ℕ) (val : Bytes)
  | pSetEx (key : String) (ms : ℕ) (val : Bytes)
  | incr (key : String)
  | decr (key : String)
  | incrBy (key : String) (delta : ℤ)
  | decrBy (key : String) (delta : ℤ)
  -- expiry
  | expire (key : String) (secs : ℕ)
  | pExpire (key : String) (ms : ℕ)
  | expireAt (key : String) (ts : ℕ)
  | pExpireAt (key : String) (ts : ℕ)
  | ttl (key : String)
  | pTtl (key : String)
  | persist (key : String)
  -- keys
  | exists (keys : List String)
  | keys (pattern : String)
  | scan (cursor : ℕ) (pattern : Option String) (count : Option ℕ)
  | dbSize
  | flushDb
  | rename (src dst : String)
  | type (key : String)
  | memoryUsage (key : String)
  -- hashes
  | hSet (key : String) (pairs : List (String × Bytes))
  | hGet (key field : String)
  | hGetAll (key : String)
  | hDel (key : String) (fields : List String)
  | hKeys (key : String)
  | hVals (key : String)
  | hLen (key : String)
  | hIncrBy (key field : String) (delta : ℤ)
  | hIncrByFloat (key field : String) (delta : Binary64)
  | hExists (key field : String)
  | hSetNx (key field : String) (val : Bytes)
  | hMGet (key : String) (fields : List String)
  | hScan (key : String) (args : ScanArgs)
  -- lists
  | lPush (key : String) (vals : List Bytes)
  | rPush (key : String) (vals : List Bytes)
  | lPushX (key : String) (vals : List Bytes)
  | rPushX (key : String) (vals : List Bytes)
  | lPop (key : String) (count : Option ℕ)
  | rPop (key : String) (count : Option ℕ)
  | lRange (key : String) (start stop : ℤ)
  | lLen (key : String)
  | lIndex (key : String) (idx : ℤ)
  | lSet (key : String) (idx : ℤ) (val : Bytes)
  | lRem (key : String) (count : ℤ) (element : Bytes)
  | lTrim (key : String) (start stop : ℤ)
  -- sets
  | sAdd (key : String) (members : List String)
  | sMembers (key : String)
  | sRem (key : String) (members : List String)
  | sCard (key : String)
  | sIsMember (key member : String)
  | sMIsMember (key : String) (members : List String)
  | sInter (keys : List String)
  | sInterStore (dst : String) (keys : List String)
  | sUnion (keys : List String)
  | sUnionStore (dst : String) (keys : List String)
  | sDiff (keys : List String)
  | sDiffStore (dst : String) (keys : List String)
  | sPop (key : String) (count : Option ℕ)
  | sRandMember (key : String) (count : Option ℤ)
  | sMove (src dst member : String)
  | sScan (key : String) (args : ScanArgs)
  -- sorted sets
  | zAdd (key : String) (opts : ZAddOptions) (pairs : List (Binary64 × String))
  | zRange (key : String) (start stop : ℤ) (withscores : Bool)
  | zRevRange (key : String) (start stop : ℤ) (withscores : Bool)
  | zRangeByScore (key min max : String) (withscores : Bool) (limit : Option (ℤ × ℤ))
  | zRevRangeByScore (key max min : String) (withscores : Bool) (limit : Option (ℤ × ℤ))
  | zScore (key member : String)
  | zMScore (key : String) (members : List String)
  | zRank (key member : String)
  | zRevRank (key member : String)
  | zRem (key : String) (members : List String)
  | zCard (key : String)
  | zIncrBy (key : String) (delta : Binary64) (member : String)
  | zCount (key min max : String)
  | zScan (key : String) (args : ScanArgs)
  -- JSON
  | jSet (key path value : String)
  | jGet (key : String) (path : Option String)
  | jMerge (key patch : String)
  -- rate limiting
  | rlSet (key : String) (limit windowSecs : ℕ)
  | rlCheck (key : String) (config : Option (ℕ × ℕ))
  -- transactions
  | multi
  | exec
  | discard
  -- pub/sub
  | subscribe (channels : List String)
  | unsubscribe (channels : List String)
  | pSubscribe (patterns : List String)
  | pUnsubscribe (patterns : List String)
  | publish (channel : String) (message : Bytes)
  -- connection state of WebSocket clients
  | watch (keys : List String)
  | unwatch (keys : List String)
  | sync (args : List String)
  | dedup (clientId : String) (id : ℕ) (inner : Command)
  | qSub (pattern : String)
  | qUnsub (pattern : Option String)
  -- persistence and replication
  | save
  | bgSave
  | lastSave
  | replicaOfNoOne
  | unknown (name : String)

end Recached
