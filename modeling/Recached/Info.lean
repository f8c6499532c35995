import Recached.Scopes
import Recached.Watch

/-!
# Commands about the server

The commands that the connection handler answers without the store (`INFO`, `CLIENT`, `CONFIG`,
`COMMAND` and their kind) and the hub of published messages.

The text of `INFO`, the rendering of `CLIENT LIST` and the catalog of commands are given.
-/

namespace Recached

open Text

def unknownSubcommand (container sub : String) : Value :=
  .error s!"ERR Unknown subcommand or wrong number of arguments for '{sub}'. Try {container} HELP."

/-- The lines of a `HELP` reply. -/
def helpLines (lines : List String) : Value := arrayOf (lines.map .simpleString)

/-! ## What is reported -/

/-- What a connection has told about itself. -/
structure ClientMeta where
  id : ℕ := 0
  name : String := ""
  libName : String := ""
  libVer : String := ""
deriving DecidableEq

structure CommandSpec where
  name : String
  arity : ℤ
  flags : List String
  firstKey : ℤ
  lastKey : ℤ
  step : ℤ
  group : String
  summary : String

/-- What the server reports about itself apart from its store. -/
structure ServerFacts where
  version : String
  info : List String → String
  clientInfo : ClientMeta → String
  clientList : String
  catalog : List CommandSpec
  maxConnections : ℕ
  tcpPort : ℕ
  tlsEnabled : Bool
  authEnabled : Bool
  aofEnabled : Bool

/-! ## The handlers -/

def handleClientCommand (facts : ServerFacts) (args : List String) (client : ClientMeta) :
    Value × ClientMeta :=
  match toUppercase (args.headD ""), args.tail with
  | "ID", [] => (.integer client.id, client)
  | "INFO", [] => (bulk (facts.clientInfo client), client)
  | "LIST", [] => (bulk facts.clientList, client)
  | "GETNAME", [] => (if client.name = "" then nil else bulk client.name, client)
  | "SETNAME", [name] =>
    if name.contains ' ' || name.contains '\n' then
      (.error "ERR Client names cannot contain spaces, newlines or special characters.", client)
    else (ok, { client with name })
  | "SETINFO", [option, value] =>
    match toUppercase option with
    | "LIB-NAME" => (ok, { client with libName := value })
    | "LIB-VER" => (ok, { client with libVer := value })
    | other => (.error s!"ERR Unrecognized option '{other}'", client)
  | "HELP", [] =>
    (helpLines ["CLIENT <subcommand>", "ID -- Return this connection's identifier.",
      "INFO -- Return information about this connection.",
      "LIST -- Return information about all connections.",
      "GETNAME -- Return this connection's name.", "SETNAME <name> -- Set this connection's name.",
      "SETINFO <LIB-NAME|LIB-VER> <value> -- Identify the client library."], client)
  | _, _ => (unknownSubcommand "CLIENT" (" ".intercalate args), client)

def EvictionPolicy.name : EvictionPolicy → String
  | .noEviction => "noeviction"
  | .allKeysLru => "allkeys-lru"
  | .allKeysRandom => "allkeys-random"
  | .volatileLru => "volatile-lru"
  | .volatileTtl => "volatile-ttl"

def configParameters (facts : ServerFacts) (store : KeyValueStore) : List (String × String) :=
  [("maxmemory", toString (store.maxMemoryBytes.getD 0)),
    ("maxmemory-policy", store.evictionPolicy.name), ("maxclients", toString facts.maxConnections),
    ("port", toString facts.tcpPort),
    ("tls-port", if facts.tlsEnabled then toString facts.tcpPort else "0"),
    ("appendonly", if facts.aofEnabled then "yes" else "no"), ("databases", "1"),
    ("requirepass", if facts.authEnabled then "*" else ""),
    ("proto-max-bulk-len", toString maxBulkStringBytes), ("timeout", "0"), ("save", "")]

def handleConfigCommand (facts : ServerFacts) (store : KeyValueStore) (args : List String) : Value :=
  match toUppercase (args.headD ""), args.tail with
  | "GET", pattern :: patterns =>
    let params := (configParameters facts store).filter fun p =>
      (pattern :: patterns).any fun pat => globMatch pat p.1
    arrayOf (params.flatMap fun p => [bulk p.1, bulk p.2])
  | "SET", name :: _ :: _ =>
    .error (s!"ERR CONFIG SET is not supported: Recached is configured at startup. Set '{name}' " ++
      "through the environment and restart.")
  | "RESETSTAT", [] =>
    .error ("ERR CONFIG RESETSTAT is not supported: counters are exported to Prometheus, " ++
      "where resetting them would break rate calculations.")
  | _, _ => unknownSubcommand "CONFIG" (" ".intercalate args)

def handleClusterCommand (_args : List String) : Value :=
  .error "ERR This instance has cluster support disabled"

def handleModuleCommand (args : List String) : Value :=
  match toUppercase (args.headD ""), args.tail with
  | "LIST", [] => arrayOf []
  | "HELP", [] =>
    helpLines ["MODULE <subcommand>",
      "LIST -- Return a list of loaded modules. Recached loads none."]
  | _, _ => unknownSubcommand "MODULE" (" ".intercalate args)

def handleMemoryCommand (args : List String) : Value :=
  match toUppercase (args.headD ""), args.tail with
  | "HELP", [] =>
    helpLines ["MEMORY <subcommand>",
      "USAGE <key> [SAMPLES <count>] -- Bytes held by one key. SAMPLES is accepted " ++
        "and ignored: the estimate always covers every element."]
  | "DOCTOR", [] | "STATS", [] | "PURGE", [] | "MALLOC-STATS", [] =>
    let sub := toUppercase (args.headD "")
    .error (s!"ERR MEMORY {sub} is not supported: Recached does not manage " ++
      "its own allocator, so it has nothing to report or free. MEMORY USAGE and INFO " ++
      "memory are the measurements it can make.")
  | _, _ => unknownSubcommand "MEMORY" (" ".intercalate args)

/-! ## `COMMAND` -/

/-- A map, or its flat list of keys and values on the older protocol. -/
def mapOrFlat (fields : List (String × Value)) (protover : ℕ) : Value :=
  if 3 ≤ protover then .map (fields.map fun f => (bulk f.1, f.2))
  else arrayOf (fields.flatMap fun f => [bulk f.1, f.2])

def commandInfoEntry (spec : CommandSpec) : Value :=
  arrayOf [bulk spec.name, .integer spec.arity, arrayOf (spec.flags.map .simpleString),
    .integer spec.firstKey, .integer spec.lastKey, .integer spec.step, arrayOf [], arrayOf [],
    arrayOf [], arrayOf []]

def commandDocsEntry (protover : ℕ) (spec : CommandSpec) : Value :=
  mapOrFlat [("summary", bulk spec.summary), ("since", bulk "1.0.0"), ("group", bulk spec.group),
    ("arity", .integer spec.arity)] protover

def ServerFacts.lookup (facts : ServerFacts) (name : String) : Option CommandSpec :=
  facts.catalog.find? fun spec => spec.name.map Char.toLower = name.map Char.toLower

def handleCommandQuery (facts : ServerFacts) (args : List String) (protover : ℕ) : Value :=
  match args with
  | [] => arrayOf (facts.catalog.map commandInfoEntry)
  | sub :: names =>
    match toUppercase sub, names with
    | "COUNT", [] => .integer facts.catalog.length
    | "LIST", [] => arrayOf (facts.catalog.map fun spec => bulk spec.name)
    | "INFO", [] => arrayOf (facts.catalog.map commandInfoEntry)
    | "INFO", names =>
      arrayOf (names.map fun n => ((facts.lookup n).map commandInfoEntry).getD (.array none))
    | "DOCS", names =>
      let specs := if names.isEmpty then facts.catalog else names.filterMap facts.lookup
      mapOrFlat (specs.map fun spec => (spec.name, commandDocsEntry protover spec)) protover
    | _, _ => unknownSubcommand "COMMAND" (" ".intercalate args)

/-! ## Published messages -/

inductive PubSubMsg where
  | message (channel : String) (message : Bytes)
  | pMessage (pattern channel : String) (message : Bytes)
deriving DecidableEq

/-- A delivery as it goes out: a push, or an array on the older protocol. -/
def encodePubSubMsg (m : PubSubMsg) (protover : ℕ) : Value :=
  let frame (parts : List Value) : Value := if 3 ≤ protover then .push parts else arrayOf parts
  match m with
  | .message channel message => frame [bulk "message", bulk channel, blob message]
  | .pMessage pattern channel message =>
    frame [bulk "pmessage", bulk pattern, bulk channel, blob message]

def respSubscribeAck (kind channel : String) (count : ℕ) : Value :=
  arrayOf [bulk kind, bulk channel, .integer count]

/-- The bounded queue of deliveries of a connection. -/
structure PubSubQueue where
  queue : List PubSubMsg := []
  overflowed : Bool := false
deriving DecidableEq

def PubSubMsg.bytes : PubSubMsg → ℕ
  | message channel payload => (asBytes channel).length + payload.length
  | pMessage pattern channel payload =>
    (asBytes pattern).length + (asBytes channel).length + payload.length

def pubSubQueueItems : ℕ := 256

def pubSubQueueBytes : ℕ := 8 * 1024 * 1024

/-- Subscribers by channel and by pattern, and the queue of every connection. -/
structure PubSubHub where
  channelSubs : List (String × List ℕ) := []
  patternSubs : List (String × ℕ) := []
  queues : ℕ → PubSubQueue := fun _ => {}

namespace PubSubHub

-- the size of a queued delivery apart from its texts
variable (itemBytes : ℕ)

/-- Queue a delivery; whether there was room. -/
def send (id : ℕ) (m : PubSubMsg) (hub : PubSubHub) : Bool × PubSubHub :=
  let q := hub.queues id
  if (q.queue.map fun m => m.bytes + itemBytes).sum + (m.bytes + itemBytes) ≤ pubSubQueueBytes ∧
      q.queue.length < pubSubQueueItems then
    (true, { hub with queues := Function.update hub.queues id { q with queue := q.queue ++ [m] } })
  else (false, { hub with queues := Function.update hub.queues id { q with overflowed := true } })

/-- Deliver to some subscribers; those without room are dropped from the list. -/
def sendEach (m : PubSubMsg) : List ℕ → PubSubHub → List ℕ × PubSubHub
  | [], hub => ([], hub)
  | id :: ids, hub =>
    let (sent, hub) := hub.send itemBytes id m
    let (kept, hub) := sendEach m ids hub
    (if sent then id :: kept else kept, hub)

/-- Deliver to the subscribers whose patterns match; the number of deliveries. -/
def sendPatterns (channel : String) (message : Bytes) : List (String × ℕ) → PubSubHub → ℕ × PubSubHub
  | [], hub => (0, hub)
  | (pattern, id) :: subs, hub =>
    let (sent, hub) := hub.send itemBytes id (.pMessage pattern channel message)
    let (n, hub) := sendPatterns channel message subs hub
    (if sent then n + 1 else n, hub)

/-- Deliver to all matching subscribers; the number of deliveries. -/
def publish (channel : String) (message : Bytes) (hub : PubSubHub) : ℕ × PubSubHub :=
  let subs := ((hub.channelSubs.find? fun e => e.1 = channel).map Prod.snd).getD []
  let (kept, hub) := hub.sendEach itemBytes (.message channel message) subs
  let channelSubs := (hub.channelSubs.map fun e => if e.1 = channel then (e.1, kept) else e).filter
    fun e => e.1 != channel || !e.2.isEmpty
  let hub := { hub with channelSubs }
  let (n, hub) := hub.sendPatterns itemBytes channel message
    (hub.patternSubs.filter fun e => globMatch e.1 channel)
  (kept.length + n, hub)

variable (hub : PubSubHub)

def subscribe (id : ℕ) (channel : String) : PubSubHub :=
  { hub with
    channelSubs := if hub.channelSubs.any fun e => e.1 = channel then
        hub.channelSubs.map fun e => if e.1 = channel then (e.1, e.2 ++ [id]) else e
      else hub.channelSubs ++ [(channel, [id])] }

def unsubscribe (id : ℕ) (channel : String) : PubSubHub :=
  { hub with
    channelSubs := (hub.channelSubs.map fun e =>
      if e.1 = channel then (e.1, e.2.filter (· != id)) else e).filter
        fun e => e.1 != channel || !e.2.isEmpty }

def pSubscribe (id : ℕ) (pattern : String) : PubSubHub :=
  { hub with patternSubs := hub.patternSubs ++ [(pattern, id)] }

def pUnsubscribe (id : ℕ) (pattern : String) : PubSubHub :=
  { hub with patternSubs := hub.patternSubs.filter fun e => !(e.1 = pattern && e.2 = id) }

def activeChannels : List String := (hub.channelSubs.filter fun e => !e.2.isEmpty).map Prod.fst

def subscriberCount (channel : String) : ℕ :=
  (((hub.channelSubs.find? fun e => e.1 = channel).map Prod.snd).getD []).length

def patternCount : ℕ := (hub.patternSubs.map Prod.fst).dedup.length

end PubSubHub

def handlePubSubCommand (args : List String) (hub : PubSubHub) : Value :=
  match toUppercase (args.headD ""), args.tail with
  | "CHANNELS", [] => arrayOf (hub.activeChannels.map bulk)
  | "CHANNELS", [pattern] => arrayOf ((hub.activeChannels.filter fun c => globMatch pattern c).map bulk)
  | "NUMSUB", channels =>
    arrayOf (channels.flatMap fun c => [bulk c, .integer (hub.subscriberCount c)])
  | "NUMPAT", [] => .integer hub.patternCount
  | "HELP", [] =>
    helpLines ["PUBSUB <subcommand>", "CHANNELS [pattern] -- Return the currently active channels.",
      "NUMSUB [channel ...] -- Return the subscriber count per channel.",
      "NUMPAT -- Return the number of distinct subscribed patterns."]
  | _, _ => unknownSubcommand "PUBSUB" (" ".intercalate args)

end Recached
