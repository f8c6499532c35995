import Recached.Replication
import Recached.WriteOrder

/-!
# Watched keys

The registry behind `WATCH` and the live queries of `QSUB`, the bounded queues through which the
connections are told of changes, and the routes by which a node changes its store.  A write is one
step here: what it executes and what it announces happen under the guards of its keys.
-/

namespace Recached

open Text

/-! ## What is told -/

/-- The state of a key as watchers see it. -/
def encodeCurrentValue (codec : Codec) : EntryValue → Value
  | .str s => blob s
  | .hash h => arrayOf (bulk "hash" :: h.toList.flatMap fun f => [bulk f.1, blob f.2])
  | .list l => arrayOf (bulk "list" :: l.map blob)
  | .set s => arrayOf (bulk "set" :: s.toList.map bulk)
  | .zset z =>
    arrayOf (bulk "zset" :: (iterAsc z).flatMap fun e => [bulk e.1, blob (formatScore e.2)])
  | .rateLimiter _ => .simpleString "ratelimit"
  | .json doc => arrayOf [bulk "json", bulk (codec.toStr doc)]

def KeyValueStore.getCurrent (codec : Codec) (now : ℕ) (key : String) (s : KeyValueStore) : Value :=
  match s.live now key with
  | none => nil
  | some c => encodeCurrentValue codec c.value

mutual

def Value.heapBytes : Value → ℕ
  | .simpleString s | .error s => (asBytes s).length
  | .integer _ => 8
  | .bulkString none => 0
  | .bulkString (some data) => data.length
  | .array none => 0
  | .array (some items) | .push items => itemsHeapBytes items
  | .map pairs => pairsHeapBytes pairs

def itemsHeapBytes : List Value → ℕ
  | [] => 0
  | v :: vs => v.heapBytes + itemsHeapBytes vs

def pairsHeapBytes : List (Value × Value) → ℕ
  | [] => 0
  | (k, v) :: ps => k.heapBytes + v.heapBytes + pairsHeapBytes ps

end

/-! ## Queues -/

def notificationQueueItems : ℕ := 256

def notificationQueueBytes : ℕ := 8 * 1024 * 1024

/-- A key and its state. -/
abbrev WatchNotif := String × Value

/-- The queue of a connection, and whether it has been told to disconnect for falling behind. -/
structure WatchChannel where
  queue : List WatchNotif := []
  overflowed : Bool := false

section

-- the size of a queued notification apart from its key and its value
variable (itemBytes : ℕ)

def chargedBytes (n : WatchNotif) : ℕ := (asBytes n.1).length + n.2.heapBytes + itemBytes

/-- Queue a notification without waiting; whether there was room. -/
def WatchChannel.notify (n : WatchNotif) (c : WatchChannel) : Bool × WatchChannel :=
  if (c.queue.map (chargedBytes itemBytes)).sum + chargedBytes itemBytes n ≤ notificationQueueBytes ∧
      c.queue.length < notificationQueueItems then
    (true, { c with queue := c.queue ++ [n] })
  else (false, { c with overflowed := true })

abbrev WatchChannels := ℕ → WatchChannel

/-- Notify subscribers; those with no room are dropped from the list. -/
def notifySubs (n : WatchNotif) : List ℕ → WatchChannels → List ℕ × WatchChannels
  | [], channels => ([], channels)
  | id :: rest, channels =>
    let (kept, channel) := (channels id).notify itemBytes n
    let (subs, channels) := notifySubs n rest (Function.update channels id channel)
    (if kept then id :: subs else subs, channels)

/-- Notify the same subscribers of one change after another. -/
def notifyEach (ns : List WatchNotif) (subs : List ℕ) (channels : WatchChannels) :
    List ℕ × WatchChannels :=
  ns.foldl (fun acc n => notifySubs itemBytes n acc.1 acc.2) (subs, channels)

/-- The subscribers by name, in the order in which the map yields them. -/
abbrev WatchMap := List (String × List ℕ)

/-- Notify the subscribers of every name of what concerns it. -/
def notifyNames (concerns : String → List WatchNotif) :
    WatchMap → WatchChannels → WatchMap × WatchChannels
  | [], channels => ([], channels)
  | (name, subs) :: rest, channels =>
    let (subs, channels) := notifyEach itemBytes (concerns name) subs channels
    let (rest, channels) := notifyNames concerns rest channels
    ((name, subs) :: rest, channels)

def WatchMap.prune (map : WatchMap) : WatchMap := map.filter fun e => !e.2.isEmpty

/-! ## The registry -/

/-- Who watches which keys and patterns, and the queue of every connection. -/
structure WatchHub where
  map : WatchMap := []
  patterns : WatchMap := []
  channels : WatchChannels := fun _ => {}

namespace WatchHub

/-- Tell the watchers of each key and then the live queries. -/
def fanOut (ns : List WatchNotif) (hub : WatchHub) : WatchHub :=
  let (map, channels) := ns.foldl (fun (acc : WatchMap × WatchChannels) n =>
    let (map, channels) :=
      notifyNames itemBytes (fun name => if name = n.1 then [n] else []) acc.1 acc.2
    (map.prune, channels)) (hub.map, hub.channels)
  let (patterns, channels) :=
    notifyNames itemBytes (fun pattern => ns.filter fun n => globMatch pattern n.1) hub.patterns channels
  { map, patterns := patterns.prune, channels }

/-- Tell every watcher that its key is gone, and every live query by the name of its pattern. -/
def notifyFlushdb (hub : WatchHub) : WatchHub :=
  let (map, channels) := notifyNames itemBytes (fun name => [(name, nil)]) hub.map hub.channels
  let (patterns, channels) :=
    notifyNames itemBytes (fun pattern => [(pattern, nil)]) hub.patterns channels
  { map, patterns := patterns.prune, channels }

end WatchHub

/-- What the watchers are told at once: changes of keys, or that every key is gone. -/
inductive Announcement where
  | changes (ns : List WatchNotif)
  | flushed

def WatchHub.announce (hub : WatchHub) : Announcement → WatchHub
  | .changes ns => hub.fanOut itemBytes ns
  | .flushed => hub.notifyFlushdb itemBytes

end

/-- The announcement of a notice: the keys of a write with their state after it. -/
def Announcement.ofNotice (codec : Codec) (now : ℕ) (s : KeyValueStore) :
    Option (List String) → Announcement
  | none => .flushed
  | some keys => .changes (keys.map fun key => (key, s.getCurrent codec now key))

/-! ## Registrations -/

/-- What a connection asks to be told about: a key, or the keys that match a pattern. -/
inductive Subscription where
  | watch (key : String)
  | qsub (pattern : String)
deriving DecidableEq

namespace Subscription

def name : Subscription → String
  | watch key => key
  | qsub pattern => pattern

def wants : Subscription → String → Bool
  | watch key, k => key = k
  | qsub pattern, k => globMatch pattern k

end Subscription

def WatchMap.subscribe (name : String) (id : ℕ) (map : WatchMap) : WatchMap :=
  if map.any fun e => e.1 = name then
    map.map fun e => if e.1 = name then (e.1, e.2 ++ [id]) else e
  else map ++ [(name, [id])]

def WatchMap.unsubscribe (name : String) (id : ℕ) (map : WatchMap) : WatchMap :=
  WatchMap.prune (map.map fun e => if e.1 = name then (e.1, e.2.filter fun sub => sub != id) else e)

namespace WatchHub

def register (r : Subscription) (id : ℕ) (hub : WatchHub) : WatchHub :=
  match r with
  | .watch key => { hub with map := hub.map.subscribe key id }
  | .qsub pattern => { hub with patterns := hub.patterns.subscribe pattern id }

def unregister (r : Subscription) (id : ℕ) (hub : WatchHub) : WatchHub :=
  match r with
  | .watch key => { hub with map := hub.map.unsubscribe key id }
  | .qsub pattern => { hub with patterns := hub.patterns.unsubscribe pattern id }

def mapOf (hub : WatchHub) : Subscription → WatchMap
  | .watch _ => hub.map
  | .qsub _ => hub.patterns

/-- The connection is registered for the subscription. -/
def Registered (hub : WatchHub) (r : Subscription) (id : ℕ) : Prop :=
  ∃ subs, (r.name, subs) ∈ hub.mapOf r ∧ id ∈ subs

end WatchHub

/-! ## The node -/

/-- The keys among the candidates of the sweeper whose lapsed entries it removes. -/
def KeyValueStore.sweptKeys (now : ℕ) : List String → KeyValueStore → List String
  | [], _ => []
  | key :: keys, s =>
    let rest := sweptKeys now keys (s.removeExpired now [key])
    if (s.data[key]?).any fun e => e.isExpired now then key :: rest else rest

/-- A primary or a replica with its watchers. -/
structure WatchedNode where
  server : ServerState
  hub : WatchHub := {}

/-- What a node does: registrations, deliveries, and the routes that reach the store.  `queued` is a
write of a transaction that `EXEC` runs; closed connections delete their ephemeral keys by `write`. -/
inductive WatchAction where
  | register (r : Subscription) (id : ℕ)
  | unregister (r : Subscription) (id : ℕ)
  | receive (id : ℕ)
  | write (env : Env) (origin : ℕ) (cmd : Command)
  | queued (env : Env) (origin : ℕ) (cmd : Command)
  | sweep (env : Env) (keys : List String)
  | replicated (env : Env) (bytes : Bytes)
  | install (now : ℕ) (entries : List SnapshotEntry)

namespace ServerState

/-- A write that `EXEC` runs: the checks have been made and `DEDUP` is not looked at. -/
def executeQueuedWrite (codec : Codec) (env : Env) (origin : ℕ) (cmd : Command) (st : ServerState) :
    ServerState :=
  let (response, store, evicted) := executeReporting codec env cmd st.store
  (({ st with store }).applyWriteEffects env.now origin cmd response).applyEvictionEffects env.now
    origin evicted

/-- The sweeper removes lapsed entries and then evicts for memory. -/
def sweep (env : Env) (keys : List String) (st : ServerState) : ServerState :=
  let (_, store, evicted) := (st.store.removeExpired env.now keys).tryEvictForMemory env []
  ({ st with store }).applyEvictionEffects env.now 0 evicted

end ServerState

namespace WatchedNode

section

variable (codec : Codec) (itemBytes : ℕ)

/-- A new state of the server, and its announcements: the notices it has added. -/
def announcing (now : ℕ) (first : List Announcement) (node : WatchedNode) (server : ServerState) :
    WatchedNode :=
  let notices := server.notices.drop node.server.notices.length
  let announcements := first ++ notices.map (Announcement.ofNotice codec now server.store)
  { server, hub := announcements.foldl (WatchHub.announce itemBytes) node.hub }

def step (node : WatchedNode) : WatchAction → Option WatchedNode
  | .register r id => some { node with hub := node.hub.register r id }
  | .unregister r id => some { node with hub := node.hub.unregister r id }
  | .receive id =>
    match (node.hub.channels id).queue with
    | [] => none
    | _ :: rest =>
      some { node with
        hub := { node.hub with
          channels := Function.update node.hub.channels id { node.hub.channels id with queue := rest } } }
  | .write env origin cmd =>
    if isWriteCommand cmd then
      some (node.announcing codec itemBytes env.now []
        (node.server.executeOrderedWrite codec env origin cmd).2)
    else none
  | .queued env origin cmd =>
    if isWriteCommand cmd then
      some (node.announcing codec itemBytes env.now []
        (node.server.executeQueuedWrite codec env origin cmd))
    else none
  | .sweep env keys =>
    let removed := (node.server.store.sweptKeys env.now keys).map fun key => (key, nil)
    some (node.announcing codec itemBytes env.now [.changes removed] (node.server.sweep env keys))
  | .replicated env bytes =>
    some { node with server := (node.server.applyReplFrame codec env bytes).2 }
  | .install now entries =>
    some { node with
      server := { node.server with store := node.server.store.replace now entries } }

end

end WatchedNode

end Recached
