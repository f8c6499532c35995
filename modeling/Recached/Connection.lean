import Recached.Info
import Recached.Parse

/-!
# Connections

The handler of a connection on either port: what it answers to a frame and what it does to the node.
Both ports parse a frame, answer the commands of the session itself, and open, fill and run
transactions in the same way; only the WebSocket port has scopes and live queries.

Frames of other connections, and what happens around a command of this one, are not in this module:
one command is one step here.
-/

namespace Recached

open Text

/-! ## The parties -/

inductive Transport where
  | tcp
  | ws
deriving DecidableEq

/-- The settings of a server that a connection handler reads. -/
structure ServerConfig where
  codec : Codec
  password : Option String := none
  /-- A secret for sync tokens is set. -/
  strict : Bool := false
  verifySyncToken : String → Except String (List String)
  maxMultiQueueLen : ℕ
  maxWatchesPerConn : ℕ
  maxPubSubSubscriptionsPerConn : ℕ
  maxQSubsPerConn : ℕ
  maxQSubInitialKeys : ℕ
  /-- The sizes of queued notifications and deliveries apart from their contents. -/
  watchItemBytes : ℕ
  pubSubItemBytes : ℕ

/-- What the handling of a command observes besides the node.  An append that is made then may fail, and
so may a save that starts then. -/
structure Moment where
  env : Env
  facts : ServerFacts
  appendFails : Bool := false
  save : Except String Unit := .ok ()

/-- A node with its role, its hub and what it has saved. -/
structure Node extends WatchedNode where
  replica : Bool := false
  pubSub : PubSubHub := {}
  saved : List (KeyValueStore × Std.ExtTreeMap String ℕ) := []
  lastSave : ℤ := 0

/-- What the handler of a connection keeps. -/
structure Connection where
  transport : Transport
  id : ℕ
  authenticated : Bool := false
  authFailures : ℕ := 0
  protover : ℕ := 2
  client : ClientMeta := {}
  syncScopes : Option (List String) := none
  multiQueue : Option (List Command) := none
  multiDirty : Bool := false
  subscribedChannels : List String := []
  subscribedPatterns : List String := []
  /-- Whether there were subscriptions when the handler last waited for input. -/
  isSubscribed : Bool := false
  watchedKeys : List String := []
  watchDirty : Bool := false
  qSubPatterns : List String := []
  closed : Bool := false

/-- A connection and its node. -/
structure Session where
  conn : Connection
  node : Node

namespace Connection

variable (conn : Connection)

/-- The queues of a connection: for watched keys and for live queries. -/
def watchQueue : ℕ := 2 * conn.id

def queryQueue : ℕ := 2 * conn.id + 1

def subscriptions : ℕ := conn.subscribedChannels.length + conn.subscribedPatterns.length

/-- Mutations over TCP are those of no sync client. -/
def origin : ℕ :=
  match conn.transport with
  | .tcp => 0
  | .ws => conn.id

end Connection

/-! ## The node -/

namespace Node

variable (cfg : ServerConfig) (m : Moment)

/-- A new state of the server, with its announcements. -/
def announcing (node : Node) (server : ServerState) : Node :=
  { node with
    toWatchedNode := node.toWatchedNode.announcing cfg.codec cfg.watchItemBytes m.env.now [] server }

/-- What a write leaves: a failed append of its frames disables further writes. -/
def wrote (node : Node) (server : ServerState) : Node :=
  node.announcing cfg m (if m.appendFails && node.server.log.length < server.log.length then
    { server with persistenceHealthy := false } else server)

def executeOrderedWrite (origin : ℕ) (cmd : Command) (node : Node) : Value × Node :=
  let (response, server) := node.server.executeOrderedWrite cfg.codec m.env origin cmd
  (response, node.wrote cfg m server)

/-- A command that is no write. -/
def executeAndRecord (cmd : Command) (node : Node) : Value × Node :=
  let (response, store) := execute cfg.codec m.env cmd node.server.store
  (response, { node with server := { node.server with store } })

def publish (channel : String) (message : Bytes) (node : Node) : Value × Node :=
  let (count, pubSub) := node.pubSub.publish cfg.pubSubItemBytes channel message
  (.integer count, { node with pubSub })

/-- A command that `EXEC` runs. -/
def runQueued (origin : ℕ) (cmd : Command) (node : Node) : Value × Node :=
  match cmd with
  | .publish channel message => node.publish cfg channel message
  | cmd =>
    if isWriteCommand cmd then
      ((executeReporting cfg.codec m.env cmd node.server.store).1,
        node.wrote cfg m (node.server.executeQueuedWrite cfg.codec m.env origin cmd))
    else node.executeAndRecord cfg m cmd

/-- The commands of a transaction, one after the other. -/
def runQueue (origin : ℕ) : (ℕ → Moment) → List Command → Node → List Value × Node
  | _, [], node => ([], node)
  | moments, cmd :: queue, node =>
    let (response, node) := node.runQueued cfg (moments 0) origin cmd
    let (responses, node) := runQueue origin (fun i => moments (i + 1)) queue node
    (response :: responses, node)

/-- A checkpoint of the store and the marks, or a failure that disables writes. -/
def save (node : Node) : Except String Unit × Node :=
  match m.save with
  | .ok () =>
    (.ok (), { node with
      saved := node.saved ++ [(node.server.store, node.server.dedup)]
      lastSave := m.env.now / 1000
      server := { node.server with persistenceHealthy := true } })
  | .error e => (.error e, { node with server := { node.server with persistenceHealthy := false } })

def promoteToPrimary (node : Node) : Node := { node with replica := false }

/-- The keys of a pattern with their states, unless there are too many. -/
def initialQState (pattern : String) (node : Node) : Except ℕ (List (String × Value)) :=
  let store := node.server.store
  let values := ((matchingKeys m.env.now pattern store.data).take (cfg.maxQSubInitialKeys + 1)).map
    fun key => (key, store.getCurrent cfg.codec m.env.now key)
  if cfg.maxQSubInitialKeys < values.length then .error cfg.maxQSubInitialKeys else .ok values

end Node

/-! ## The commands of the session -/

def maxAuthFailures : ℕ := 5

def processAuth (cfg : ServerConfig) (pwd : String) (conn : Connection) : Value × Connection :=
  match cfg.password with
  | none => (.error "ERR Client sent AUTH, but no password is set", conn)
  | some password =>
    if pwd = password then (ok, { conn with authenticated := true, authFailures := 0 })
    else if maxAuthFailures ≤ conn.authFailures + 1 then
      (.error "ERR too many authentication failures",
        { conn with authFailures := conn.authFailures + 1, closed := true })
    else (.error "ERR invalid password", { conn with authFailures := conn.authFailures + 1 })

/-- The reply to `HELLO` and the protocol afterwards. -/
def processHello (facts : ServerFacts) (requested : Option String) (protover : ℕ)
    (isAuthenticated isReplica : Bool) : Value × ℕ :=
  let version := match requested with
    | none => some protover
    | some raw =>
      match Decimal.parseU64 (asBytes raw) with
      | some v => if v = 2 ∨ v = 3 then some v else none
      | none => none
  match version with
  | none => (.error "NOPROTO unsupported protocol version", protover)
  | some protover =>
    if !isAuthenticated then
      (.error "NOAUTH HELLO must be called with authentication", protover)
    else
      (mapOrFlat [("server", bulk "recached"), ("version", bulk facts.version),
        ("proto", .integer protover), ("mode", bulk "standalone"),
        ("role", bulk (if isReplica then "replica" else "master")), ("modules", arrayOf [])] protover,
        protover)

/-- `HELLO` cannot leave the protocol of the WebSocket port. -/
def handleHello (facts : ServerFacts) (requested : Option String) (isReplica : Bool) (conn : Connection) :
    Value × Connection :=
  match conn.transport with
  | .tcp =>
    let (reply, protover) := processHello facts requested conn.protover conn.authenticated isReplica
    (reply, { conn with protover })
  | .ws =>
    if requested = some "2" then (.error "NOPROTO the WebSocket transport requires RESP3", conn)
    else ((processHello facts requested 3 conn.authenticated isReplica).1, conn)

def patternsReply (patterns : List String) : Value := arrayOf (patterns.map bulk)

def handleSyncCommand (cfg : ServerConfig) (args : List String) (scopes : Option (List String)) :
    Value × Option (List String) :=
  let grant (patterns : List String) : Value × Option (List String) :=
    if cfg.strict then
      (.error "ERR this server requires signed scopes: use SYNC TOKEN <token>", scopes)
    else
      let pats := patterns.filter fun p => p != ""
      if pats.isEmpty then (.error "ERR SYNC requires at least one pattern", scopes)
      else (patternsReply pats, some pats)
  match args with
  | [] => (patternsReply (scopes.getD []), scopes)
  | [kw, token] =>
    if kw.map Char.toLower = "token" then
      if !cfg.strict then
        (.error "ERR SYNC TOKEN requires RECACHED_SYNC_SECRET to be configured on the server", scopes)
      else
        match cfg.verifySyncToken token with
        | .ok patterns => (patternsReply patterns, some patterns)
        | .error e => (.error s!"ERR invalid sync token: {e}", scopes)
    else grant args
  | patterns => grant patterns

/-- The refusal of a command outside the scopes of a connection. -/
def scopeRefusal (scopes : Option (List String)) (cmd : Command) : Option Value :=
  match commandScope cmd with
  | .keyLess => none
  | .admin => some (.error ("NOSCOPE keyspace-wide and administrative commands are not available " ++
      "on scoped WebSocket connections"))
  | .keys keys =>
    match scopes with
    | none => some (.error "NOSCOPE send SYNC TOKEN <token> before issuing commands")
    | some scopes =>
      (keys.find? fun k => !scopesMatch scopes [k]).map fun denied =>
        .error s!"NOSCOPE key '{denied}' is outside this connection's sync scopes"

/-- A granted scope includes every key of a requested pattern. -/
def scopeCoversPattern (grant requested : String) : Bool :=
  if grant = requested || grant = "*" then true
  else
    match grant.toList.reverse with
    | '*' :: rest =>
      let special (c : Char) : Bool := c = '*' || c = '?'
      !rest.any special && rest.reverse.isPrefixOf (requested.toList.takeWhile fun c => !special c)
    | _ => false

/-! ## Transactions -/

def execAbort : Value := .error "EXECABORT Transaction discarded because of previous errors."

def queued : Value := .simpleString "QUEUED"

def notAllowedInside : Value := .error "ERR Command not allowed inside a transaction"

def readOnlyReplica : Value := .error "READONLY You can't write against a read only replica."

def unhealthy : Value :=
  .error "MISCONF persistence is unhealthy; writes are disabled until SAVE succeeds"

/-- Why a command is not queued inside `MULTI`. -/
def queueRefusal (cfg : ServerConfig) (queue : List Command) (cmd : Command) : Option Value :=
  match cmd with
  | .unknown name => some (.error s!"ERR unknown command '{name}'")
  | .subscribe _ | .unsubscribe _ | .pSubscribe _ | .pUnsubscribe _ | .watch _ | .unwatch _ | .qSub _
  | .qUnsub _ => some notAllowedInside
  | _ =>
    if cfg.maxMultiQueueLen ≤ queue.length then some (.error "ERR transaction queue limit reached")
    else none

namespace Session

/-- Stop watching, and forget what has been told. -/
def flushWatches (s : Session) : Session :=
  let hub := s.conn.watchedKeys.foldl (fun hub key => hub.unregister (.watch key) s.conn.watchQueue)
    s.node.hub
  let hub := { hub with
    channels := Function.update hub.channels s.conn.watchQueue
      { hub.channels s.conn.watchQueue with queue := [] } }
  { conn := { s.conn with watchedKeys := [], watchDirty := false }, node := { s.node with hub } }

def multi (s : Session) : Value × Session :=
  if s.conn.multiQueue.isSome then (.error "ERR MULTI calls can not be nested", s)
  else (ok, { s with conn := { s.conn with multiQueue := some [], multiDirty := false } })

def discard (s : Session) : Value × Session :=
  match s.conn.multiQueue with
  | none => (.error "ERR DISCARD without MULTI", s)
  | some _ =>
    (ok, { s with conn := { s.conn with multiQueue := none, multiDirty := false } }.flushWatches)

/-- A watched key has changed since it was watched, as far as the connection has been told. -/
def invalidated (s : Session) : Bool :=
  s.conn.watchDirty || !(s.node.hub.channels s.conn.watchQueue).queue.isEmpty

def exec (cfg : ServerConfig) (moments : ℕ → Moment) (s : Session) : Value × Session :=
  match s.conn.multiQueue with
  | none => (.error "ERR EXEC without MULTI", s)
  | some queue =>
    let closing : Session := { s with conn := { s.conn with multiQueue := none } }
    if s.conn.multiDirty then
      (execAbort, { closing with conn := { closing.conn with multiDirty := false } }.flushWatches)
    else if s.node.replica && queue.any isWriteCommand then (readOnlyReplica, closing.flushWatches)
    else if queue.any isWriteCommand && !s.node.server.persistenceHealthy then
      (unhealthy, closing.flushWatches)
    else if s.invalidated then (.array none, closing.flushWatches)
    else
      let (responses, node) := s.node.runQueue cfg s.conn.origin moments queue
      (arrayOf responses, { closing with node }.flushWatches)

/-- Queue a command inside `MULTI`. -/
def enqueue (cfg : ServerConfig) (queue : List Command) (cmd : Command) (s : Session) :
    Value × Session :=
  match queueRefusal cfg queue cmd with
  | some refusal => (refusal, { s with conn := { s.conn with multiDirty := true } })
  | none => (queued, { s with conn := { s.conn with multiQueue := some (queue ++ [cmd]) } })

/-! ## Commands outside transactions -/

def onlyPubSub : Value :=
  .error "ERR only (P)SUBSCRIBE / (P)UNSUBSCRIBE / PING / QUIT allowed in subscribe mode"

def subscriptionLimit : Value := .error "ERR pubsub subscription limit per connection reached"

/-- Subscribe to channels, with one reply for each. -/
def subscribe (cfg : ServerConfig) : List String → Session → List Value × Session
  | [], s => ([], s)
  | ch :: rest, s =>
    if ch ∉ s.conn.subscribedChannels && cfg.maxPubSubSubscriptionsPerConn ≤ s.conn.subscriptions then
      let (replies, s) := subscribe cfg rest s
      (subscriptionLimit :: replies, s)
    else
      let s := if ch ∈ s.conn.subscribedChannels then s else
        { conn := { s.conn with subscribedChannels := s.conn.subscribedChannels ++ [ch] }
          node := { s.node with pubSub := s.node.pubSub.subscribe s.conn.id ch } }
      let ack := respSubscribeAck "subscribe" ch s.conn.subscriptions
      let (replies, s) := subscribe cfg rest s
      (ack :: replies, s)

def pSubscribe (cfg : ServerConfig) : List String → Session → List Value × Session
  | [], s => ([], s)
  | pat :: rest, s =>
    if pat ∉ s.conn.subscribedPatterns && cfg.maxPubSubSubscriptionsPerConn ≤ s.conn.subscriptions then
      let (replies, s) := pSubscribe cfg rest s
      (subscriptionLimit :: replies, s)
    else
      let s := if pat ∈ s.conn.subscribedPatterns then s else
        { conn := { s.conn with subscribedPatterns := s.conn.subscribedPatterns ++ [pat] }
          node := { s.node with pubSub := s.node.pubSub.pSubscribe s.conn.id pat } }
      let ack := respSubscribeAck "psubscribe" pat s.conn.subscriptions
      let (replies, s) := pSubscribe cfg rest s
      (ack :: replies, s)

/-- The names among those asked for that are held, in order; all that are held if none is asked for. -/
def targets (names held : List String) : List String :=
  if names.isEmpty then held else names.eraseDups.filter (· ∈ held)

def unsubscribe (channels : List String) (s : Session) : List Value × Session :=
  let targets := targets channels s.conn.subscribedChannels
  let subscribedChannels := s.conn.subscribedChannels.filter (· ∉ targets)
  let conn := { s.conn with subscribedChannels }
  (if targets.isEmpty then [respSubscribeAck "unsubscribe" "" 0]
    else targets.map fun ch => respSubscribeAck "unsubscribe" ch conn.subscriptions,
    { conn
      node := { s.node with
        pubSub := targets.foldl (fun hub ch => hub.unsubscribe conn.id ch) s.node.pubSub } })

def pUnsubscribe (patterns : List String) (s : Session) : List Value × Session :=
  let targets := targets patterns s.conn.subscribedPatterns
  let subscribedPatterns := s.conn.subscribedPatterns.filter (· ∉ targets)
  let conn := { s.conn with subscribedPatterns }
  (if targets.isEmpty then [respSubscribeAck "punsubscribe" "" 0]
    else targets.map fun pat => respSubscribeAck "punsubscribe" pat conn.subscriptions,
    { conn
      node := { s.node with
        pubSub := targets.foldl (fun hub pat => hub.pUnsubscribe conn.id pat) s.node.pubSub } })

def watch (cfg : ServerConfig) (keys : List String) (s : Session) : Value × Session :=
  if cfg.maxWatchesPerConn <
      s.conn.watchedKeys.length + (keys.filter fun k => k ∉ s.conn.watchedKeys).length then
    (.error "ERR watch limit per connection reached", s)
  else
    (ok, keys.foldl (fun s key =>
      if key ∈ s.conn.watchedKeys then s
      else
        { conn := { s.conn with watchedKeys := s.conn.watchedKeys ++ [key] }
          node := { s.node with hub := s.node.hub.register (.watch key) s.conn.watchQueue } }) s)

def unwatch (keys : List String) (s : Session) : Value × Session :=
  let targets := targets keys s.conn.watchedKeys
  let watchedKeys := s.conn.watchedKeys.filter (· ∉ targets)
  let hub := targets.foldl (fun hub key => hub.unregister (.watch key) s.conn.watchQueue) s.node.hub
  let s : Session := { conn := { s.conn with watchedKeys }, node := { s.node with hub } }
  -- a connection that watches nothing starts clean
  (ok, if watchedKeys.isEmpty then s.flushWatches else s)

def qSub (cfg : ServerConfig) (m : Moment) (pattern : String) (s : Session) : Value × Session :=
  if cfg.strict && !((s.conn.syncScopes.getD []).any fun scope => scopeCoversPattern scope pattern) then
    (.error "NOSCOPE pattern is outside this connection's sync scopes", s)
  else if pattern ∉ s.conn.qSubPatterns && cfg.maxQSubsPerConn ≤ s.conn.qSubPatterns.length then
    (.error "ERR live query limit per connection reached", s)
  else
    match s.node.initialQState cfg m pattern with
    | .error limit =>
      (.error s!"ERR live query initial state exceeds {limit} keys; narrow the pattern", s)
    | .ok values =>
      (arrayOf (bulk "qstate" :: bulk pattern :: values.flatMap fun kv => [bulk kv.1, kv.2]),
        if pattern ∈ s.conn.qSubPatterns then s
        else
          { conn := { s.conn with qSubPatterns := s.conn.qSubPatterns ++ [pattern] }
            node := { s.node with hub := s.node.hub.register (.qsub pattern) s.conn.queryQueue } })

def qUnsub (pattern : Option String) (s : Session) : Value × Session :=
  let targets := match pattern with
    | some p => if p ∈ s.conn.qSubPatterns then [p] else []
    | none => s.conn.qSubPatterns
  let qSubPatterns := s.conn.qSubPatterns.filter (· ∉ targets)
  let hub := targets.foldl (fun hub p => hub.unregister (.qsub p) s.conn.queryQueue) s.node.hub
  (ok, { conn := { s.conn with qSubPatterns }, node := { s.node with hub } })

/-- A command that is neither about subscriptions nor about watched keys. -/
def direct (cfg : ServerConfig) (m : Moment) (cmd : Command) (s : Session) : Value × Session :=
  let answer (reply : Value) : Value × Session := (reply, s)
  let onNode (r : Value × Node) : Value × Session := (r.1, { s with node := r.2 })
  if s.conn.isSubscribed && !(cmd matches .ping _) then answer onlyPubSub
  else if s.node.replica && isWriteCommand cmd then answer readOnlyReplica
  else
    match cmd with
    | .save =>
      match s.node.save m with
      | (.ok (), node) => (ok, { s with node })
      | (.error e, node) => (.error s!"MISCONF snapshot failed: {e}", { s with node })
    | .bgSave => (.simpleString "Background saving started", { s with node := (s.node.save m).2 })
    | .lastSave => answer (.integer s.node.lastSave)
    | .info sections => answer (bulk (m.facts.info sections))
    | .client args =>
      let (reply, client) := handleClientCommand m.facts args s.conn.client
      (reply, { s with conn := { s.conn with client } })
    | .config args => answer (handleConfigCommand m.facts s.node.server.store args)
    | .commandQuery args => answer (handleCommandQuery m.facts args s.conn.protover)
    | .cluster args => answer (handleClusterCommand args)
    | .module args => answer (handleModuleCommand args)
    | .memory args => answer (handleMemoryCommand args)
    | .pubSub args => answer (handlePubSubCommand args s.node.pubSub)
    | .replicaOfNoOne => (ok, { s with node := s.node.promoteToPrimary })
    | cmd =>
      if isWriteCommand cmd then onNode (s.node.executeOrderedWrite cfg m s.conn.origin cmd)
      else onNode (s.node.executeAndRecord cfg m cmd)

/-- A command outside `MULTI`. -/
def dispatch (cfg : ServerConfig) (m : Moment) (cmd : Command) (s : Session) : List Value × Session :=
  let one (r : Value × Session) : List Value × Session := ([r.1], r.2)
  match cmd with
  | .subscribe channels => s.subscribe cfg channels
  | .unsubscribe channels => s.unsubscribe channels
  | .pSubscribe patterns => s.pSubscribe cfg patterns
  | .pUnsubscribe patterns => s.pUnsubscribe patterns
  | .publish channel message =>
    let (reply, node) := s.node.publish cfg channel message
    ([reply], { s with node })
  | .watch keys => one (s.watch cfg keys)
  | .unwatch keys => one (s.unwatch keys)
  | .qSub pattern =>
    match s.conn.transport with
    | .ws => one (s.qSub cfg m pattern)
    | .tcp => one (s.direct cfg m cmd)
  | .qUnsub pattern =>
    match s.conn.transport with
    | .ws => one (s.qUnsub pattern)
    | .tcp => one (s.direct cfg m cmd)
  | cmd => one (s.direct cfg m cmd)

/-! ## Frames -/

/-- A command of an authenticated connection. -/
def command (cfg : ServerConfig) (moments : ℕ → Moment) (cmd : Command) (s : Session) :
    List Value × Session :=
  let one (r : Value × Session) : List Value × Session := ([r.1], r.2)
  match cmd with
  | .multi => one s.multi
  | .discard => one s.discard
  | .exec => one (s.exec cfg moments)
  | cmd =>
    match s.conn.multiQueue with
    | some queue => one (s.enqueue cfg queue cmd)
    | none => s.dispatch cfg (moments 0) cmd

/-- The refusal of the scope check: only the WebSocket port has scopes. -/
def refusal (cfg : ServerConfig) (s : Session) (cmd : Command) : Option Value :=
  if s.conn.transport = .ws && cfg.strict then scopeRefusal s.conn.syncScopes cmd else none

/-- The arguments of `SYNC`, which only the WebSocket port handles. -/
def syncArgs : Transport → Command → Option (List String)
  | .ws, .sync args => some args
  | _, _ => none

/-- A frame that is a command. -/
def parsed (cfg : ServerConfig) (moments : ℕ → Moment) (cmd : Command) (s : Session) :
    List Value × Session :=
  match cmd with
  | .auth pwd =>
    let (reply, conn) := processAuth cfg pwd s.conn
    ([reply], { s with conn })
  | .hello requested =>
    let (reply, conn) := handleHello (moments 0).facts requested s.node.replica s.conn
    ([reply], { s with conn })
  | .quit => ([ok], { s with conn := { s.conn with closed := true } })
  | cmd =>
    if !s.conn.authenticated then ([.error "NOAUTH Authentication required."], s)
    else
      match syncArgs s.conn.transport cmd with
      | some args =>
        let (reply, syncScopes) := handleSyncCommand cfg args s.conn.syncScopes
        ([reply], { s with conn := { s.conn with syncScopes } })
      | none =>
        match s.refusal cfg cmd with
        | some error => ([error], s)
        | none => s.command cfg moments cmd

/-- A frame that is no command poisons an open transaction. -/
def poison (s : Session) : Session :=
  if s.conn.multiQueue.isSome then { s with conn := { s.conn with multiDirty := true } } else s

end Session

/-- How the parser's errors read. -/
def ParseError.describe : ParseError → String
  | .incomplete _ => "Incomplete"
  | .invalidType b => s!"Invalid RESP type (byte 0x{String.ofList (hexDigits b)})"
  | .invalidHeader what => what
  | .tooLarge what declared max unit => s!"ERR {what} too large ({declared} > {max} {unit})"
  | .depthExceeded => "ERR max nesting depth exceeded"
  | .messageTooLarge => "ERR message too large"
where
  hexDigits (b : UInt8) : List Char := [Nat.digitChar (b.toNat / 16), Nat.digitChar (b.toNat % 16)]

/-- The answer to a frame that is no RESP value.  Over TCP an unfinished frame is waited for. -/
def protocolError (transport : Transport) (e : ParseError) : List Value :=
  match transport with
  | .ws => [.error s!"ERR Protocol error: {e.describe}"]
  | .tcp => if e.isIncomplete then [] else [.error "ERR Protocol error"]

/-- Look at the subscriptions anew, unless the frame was read together with the one before. -/
def Session.wake (together : Bool) (s : Session) : Session :=
  let isSubscribed := if s.conn.transport = .tcp && together then s.conn.isSubscribed
    else 0 < s.conn.subscriptions
  { s with conn := { s.conn with isSubscribed } }

/-- Handle the bytes that are next on a connection: the replies, and the session afterwards.  The
commands of a transaction are at successive moments, any other command at the first. -/
def Session.handleFrame (cfg : ServerConfig) (moments : ℕ → Moment) (together : Bool) (raw : Bytes)
    (s : Session) : List Value × Session :=
  let s := s.wake together
  match Value.parse raw with
  | .error e => (protocolError s.conn.transport e, s)
  | .ok (value, _) =>
    match fromValue value with
    | .error e => ([.error e], s.poison)
    | .ok cmd => s.parsed cfg moments cmd

end Recached
