import Recached.Parse
import Recached.Propagation

/-!
# The sync client

A browser client keeps a store of its own, executes its writes there at once, replays the mutations
the server pushes and applies the states of keys it has asked to be told about.
-/

namespace Recached

open Text

/-- The mutations that are safe to replay into the local store. -/
def isReplayableMutation : Command → Bool
  | .set _ _ _ | .del _ | .unlink _ | .mSet _ | .incr _ | .decr _ | .incrBy _ _ | .decrBy _ _
  | .expire _ _ | .pExpire _ _ | .expireAt _ _ | .pExpireAt _ _ | .persist _ | .flushDb | .rename _ _
  | .hSet _ _ | .hDel _ _ | .hSetNx _ _ _ | .lPush _ _ | .rPush _ _ | .lPop _ _ | .rPop _ _
  | .lSet _ _ _ | .lRem _ _ _ | .lTrim _ _ _ | .sAdd _ _ | .sRem _ _ | .sMove _ _ _
  | .sInterStore _ _ | .sUnionStore _ _ | .sDiffStore _ _ | .zAdd _ _ _ | .zRem _ _ | .zIncrBy _ _ _
  | .jSet _ _ _ | .jMerge _ _ => true
  | _ => false

/-- What the client makes of a frame; a reply retires the write it answers from the outbox. -/
inductive Incoming where
  | pubSub (channel : String) (message : Bytes)
  | applied
  | appliedReply (retired : Option ℕ)
  | reply (retired : Option ℕ)
  | ignored
  | malformed
deriving DecidableEq

/-- The channel and payload of a pub/sub message. -/
def pubSubMessage : List Value → Option (String × Bytes)
  | [.bulkString (some kind), .bulkString (some channel), .bulkString (some payload)] =>
    if kind.map Binary64.asciiLower = asBytes "message" then some (fromUtf8Lossy channel, payload)
    else none
  | _ => none

/-- Handle a push frame of the server: a replayable mutation is executed on the local store. -/
def handlePush (codec : Codec) (env : Env) (items : List Value) (store : KeyValueStore) :
    Incoming × KeyValueStore :=
  match pubSubMessage items with
  | some (channel, message) => (.pubSub channel message, store)
  | none =>
    match fromValue (.array (some items)) with
    | .ok cmd =>
      if isReplayableMutation cmd then (.applied, (execute codec env cmd store).2) else (.ignored, store)
    | .error _ => (.ignored, store)

/-- The state of a client; `inflight` has one place for each frame that awaits a reply, with the
outbox row it answers. -/
structure SyncClient where
  store : KeyValueStore := {}
  outbox : List (ℕ × Bytes) := []
  inflight : List (Option ℕ) := []
  liveQueries : List String := []

namespace SyncClient

/-- Acknowledge the oldest command in flight. -/
def ackReply (client : SyncClient) : Option ℕ × SyncClient :=
  match client.inflight with
  | some id :: rest =>
    (some id, { client with inflight := rest, outbox := client.outbox.filter fun row => row.1 != id })
  | none :: rest => (none, { client with inflight := rest })
  | [] => (none, client)

def taggedText : Value → Option String
  | .bulkString (some data) => some (fromUtf8Lossy data)
  | .simpleString s => some s
  | _ => none

def taggedBytes : Value → Option Bytes
  | .bulkString (some data) => some data
  | .simpleString s => some (asBytes s)
  | _ => none

def chunkPairs {α : Type} : List α → List (α × α)
  | a :: b :: rest => (a, b) :: chunkPairs rest
  | _ => []

/-- The command that rebuilds a collection from the items behind its tag. -/
def taggedCommand (key tag : String) (raw : List Bytes) : Option Command :=
  match tag with
  | "hash" =>
    let pairs := (chunkPairs raw).map fun c => (fromUtf8Lossy c.1, c.2)
    if pairs.isEmpty then none else some (.hSet key pairs)
  | "list" => if raw.isEmpty then none else some (.rPush key raw)
  | "set" => if raw.isEmpty then none else some (.sAdd key (raw.map fromUtf8Lossy))
  | "zset" =>
    let members := (chunkPairs raw).filterMap fun c =>
      (Binary64.parse (asBytes (fromUtf8Lossy c.2))).map fun score => (score, fromUtf8Lossy c.1)
    if members.isEmpty then none else some (.zAdd key {} members)
  | "json" => raw.head?.map fun doc => .jSet key "$" (fromUtf8Lossy doc)
  | _ => none

section

variable (codec : Codec) (env : Env)

/-- Replace a key by a type-tagged collection. -/
def applyTagged (key : String) (items : List Value) (store : KeyValueStore) : KeyValueStore :=
  match items with
  | [] => store
  | first :: rest =>
    match taggedText first with
    | none => store
    | some tag =>
      let store := (execute codec env (.del [key]) store).2
      match taggedCommand key tag (rest.filterMap taggedBytes) with
      | none => store
      | some cmd => (execute codec env cmd store).2

/-- Apply the state of a key.  Without a value a registered pattern stands for all keys it matches. -/
def applyKeychange (items : List Value) (client : SyncClient) : SyncClient :=
  match items with
  | [_, .bulkString (some name), state] =>
    let key := fromUtf8Lossy name
    match state with
    | .bulkString (some val) =>
      { client with store := (execute codec env (.set key val {}) client.store).2 }
    | .bulkString none =>
      if key ∈ client.liveQueries then
        let matched := matchingKeys env.now key client.store.data
        if matched.isEmpty then client
        else { client with store := (execute codec env (.del matched) client.store).2 }
      else { client with store := (execute codec env (.del [key]) client.store).2 }
    | .array (some items) => { client with store := applyTagged codec env key items client.store }
    | _ => client
  | _ => client

/-- Apply the entries of a snapshot; also the keys they name. -/
def applyEntries (pairs : List (Value × Value)) (store : KeyValueStore) :
    List String × KeyValueStore :=
  pairs.foldl (fun acc pair =>
    match pair.1 with
    | .bulkString (some name) =>
      let key := fromUtf8Lossy name
      (acc.1 ++ [key], match pair.2 with
        | .bulkString (some val) => (execute codec env (.set key val {}) acc.2).2
        | .array (some items) => applyTagged codec env key items acc.2
        | _ => acc.2)
    | _ => acc) ([], store)

/-- Apply the snapshot of a pattern: local keys that match it and are not in it are gone. -/
def applyQstate (items : List Value) (store : KeyValueStore) : KeyValueStore :=
  let pattern := match items with
    | _ :: .bulkString (some pattern) :: _ => fromUtf8Lossy pattern
    | _ => ""
  let (present, store) := applyEntries codec env (chunkPairs (items.drop 2)) store
  if pattern = "" then store
  else
    let stale := (matchingKeys env.now pattern store.data).filter fun k => k ∉ present
    if stale.isEmpty then store else (execute codec env (.del stale) store).2

/-- Classify and apply one incoming frame. -/
def handleFrame (raw : Bytes) (client : SyncClient) : Incoming × SyncClient :=
  match Value.parse raw with
  | .ok (.push items, _) =>
    let (incoming, store) := handlePush codec env items client.store
    (incoming, { client with store })
  | .ok (.array (some items), _) =>
    let tag := match items.head? with
      | some (.bulkString (some tag)) => tag
      | _ => []
    if tag = asBytes "keychange" then (.applied, client.applyKeychange codec env items)
    else
      let (retired, client) := client.ackReply
      if tag = asBytes "qstate" then
        (.appliedReply retired, { client with store := applyQstate codec env items client.store })
      else (.reply retired, client)
  | .ok _ =>
    let (retired, client) := client.ackReply
    (.reply retired, client)
  | .error _ => (.malformed, client)

end

end SyncClient

end Recached
