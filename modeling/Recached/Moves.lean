import Mathlib.Logic.Relation
import Recached.Transparency

/-!
# What a frame does to a session

Whatever frame comes in, the handler changes its connection and the node by a chain of moves: it greets
the client, opens, fills or closes a transaction, registers or unregisters the connection somewhere, or lets
one command reach the node.  `handleFrame_moves` says so once, with the checks that each move passed.
-/

namespace Recached

open Relation

namespace Session

/-! ## Moves -/

def withConn (s : Session) (conn : Connection) : Session := { s with conn }

def withNode (s : Session) (node : Node) : Session := { s with node }

/-- Stop watching some keys. -/
def forgetWatches (targets : List String) (s : Session) : Session :=
  let hub := targets.foldl (fun hub key => hub.unregister (.watch key) s.conn.watchQueue) s.node.hub
  { conn := { s.conn with watchedKeys := s.conn.watchedKeys.filter (· ∉ targets) }
    node := { s.node with hub } }

/-- End some live queries. -/
def forgetQueries (targets : List String) (s : Session) : Session :=
  let hub := targets.foldl (fun hub p => hub.unregister (.qsub p) s.conn.queryQueue) s.node.hub
  { conn := { s.conn with qSubPatterns := s.conn.qSubPatterns.filter (· ∉ targets) }
    node := { s.node with hub } }

/-- Watch one more key. -/
def startWatch (key : String) (s : Session) : Session where
  conn := { s.conn with watchedKeys := s.conn.watchedKeys ++ [key] }
  node := { s.node with hub := s.node.hub.register (.watch key) s.conn.watchQueue }

/-- One more live query. -/
def startQuery (pattern : String) (s : Session) : Session where
  conn := { s.conn with qSubPatterns := s.conn.qSubPatterns ++ [pattern] }
  node := { s.node with hub := s.node.hub.register (.qsub pattern) s.conn.queryQueue }

/-- One more channel. -/
def startChannel (ch : String) (s : Session) : Session where
  conn := { s.conn with subscribedChannels := s.conn.subscribedChannels ++ [ch] }
  node := { s.node with pubSub := s.node.pubSub.subscribe s.conn.id ch }

/-- One more pattern of channels. -/
def startPattern (pat : String) (s : Session) : Session where
  conn := { s.conn with subscribedPatterns := s.conn.subscribedPatterns ++ [pat] }
  node := { s.node with pubSub := s.node.pubSub.pSubscribe s.conn.id pat }

/-- What any connection may do. -/
inductive Greeting (cfg : ServerConfig) (s : Session) : Session → Prop
  | wake (isSubscribed : Bool) : Greeting cfg s (s.withConn { s.conn with isSubscribed })
  | auth (pwd : String) : Greeting cfg s (s.withConn (processAuth cfg pwd s.conn).2)
  | hello (facts : ServerFacts) (requested : Option String) :
    Greeting cfg s (s.withConn (handleHello facts requested s.node.replica s.conn).2)
  | quit : Greeting cfg s (s.withConn { s.conn with closed := true })
  | poison : Greeting cfg s s.poison

/-- What a connection does that has authenticated itself. -/
inductive Request (cfg : ServerConfig) (s : Session) : Session → Prop
  | sync (args : List String) (ws : s.conn.transport = .ws) :
    Request cfg s (s.withConn
      { s.conn with syncScopes := (handleSyncCommand cfg args s.conn.syncScopes).2 })
  | multi (idle : s.conn.multiQueue = none) :
    Request cfg s (s.withConn { s.conn with multiQueue := some [], multiDirty := false })
  | enqueue (queue : List Command) (cmd : Command) (opened : s.conn.multiQueue = some queue)
    (room : queue.length < cfg.maxMultiQueueLen) :
    Request cfg s (s.withConn { s.conn with multiQueue := some (queue ++ [cmd]) })
  | refuse : Request cfg s (s.withConn { s.conn with multiDirty := true })
  | finish : Request cfg s (s.withConn { s.conn with multiQueue := none })
  | clean : Request cfg s (s.withConn { s.conn with multiDirty := false })
  | client (client : ClientMeta) : Request cfg s (s.withConn { s.conn with client })
  | subscribe (ch : String) (new : ch ∉ s.conn.subscribedChannels)
    (room : s.conn.subscriptions < cfg.maxPubSubSubscriptionsPerConn) :
    Request cfg s (s.startChannel ch)
  | pSubscribe (pat : String) (new : pat ∉ s.conn.subscribedPatterns)
    (room : s.conn.subscriptions < cfg.maxPubSubSubscriptionsPerConn) :
    Request cfg s (s.startPattern pat)
  | unsubscribe (channels : List String) : Request cfg s (s.unsubscribe channels).2
  | pUnsubscribe (patterns : List String) : Request cfg s (s.pUnsubscribe patterns).2
  | watch (key : String) (new : key ∉ s.conn.watchedKeys)
    (room : s.conn.watchedKeys.length < cfg.maxWatchesPerConn) : Request cfg s (s.startWatch key)
  | qSub (pattern : String) (ws : s.conn.transport = .ws) (new : pattern ∉ s.conn.qSubPatterns)
    (room : s.conn.qSubPatterns.length < cfg.maxQSubsPerConn) : Request cfg s (s.startQuery pattern)
  | qUnsub (targets : List String) : Request cfg s (s.forgetQueries targets)
  | publish (channel : String) (message : Bytes) :
    Request cfg s (s.withNode (s.node.publish cfg channel message).2)
  | read (m : Moment) (cmd : Command) (read : isWriteCommand cmd = false) :
    Request cfg s (s.withNode (s.node.executeAndRecord cfg m cmd).2)
  | write (m : Moment) (cmd : Command) (write : isWriteCommand cmd = true)
    (primary : s.node.replica = false) :
    Request cfg s (s.withNode (s.node.executeOrderedWrite cfg m s.conn.origin cmd).2)
  | queued (m : Moment) (cmd : Command) (write : isWriteCommand cmd = true)
    (primary : s.node.replica = false) :
    Request cfg s (s.withNode (s.node.wrote cfg m
      (s.node.server.executeQueuedWrite cfg.codec m.env s.conn.origin cmd)))
  | save (m : Moment) : Request cfg s (s.withNode (s.node.save m).2)
  | promote : Request cfg s (s.withNode s.node.promoteToPrimary)

/-- The ends of watches. -/
inductive Forgetting (s : Session) : Session → Prop
  | unwatch (targets : List String) : Forgetting s (s.forgetWatches targets)
  | flush : Forgetting s s.flushWatches

/-- One move of a connection, which may end watches or may not. -/
def Move (cfg : ServerConfig) (may : Bool) (s s' : Session) : Prop :=
  Greeting cfg s s' ∨ s.conn.authenticated = true ∧ (Request cfg s s' ∨ may = true ∧ Forgetting s s')

/-- A chain of moves. -/
abbrev Moves (cfg : ServerConfig) (may : Bool) : Session → Session → Prop := ReflTransGen (Move cfg may)

/-- The commands that end watches. -/
def forgetsWatches : Command → Bool
  | .exec | .discard | .unwatch _ => true
  | _ => false

/-! ## Chains -/

variable {cfg : ServerConfig} {may : Bool} {s s' s'' : Session}

theorem Moves.greeting (greets : Greeting cfg s s') : Moves cfg may s s' := .single (.inl greets)

theorem Moves.request (known : s.conn.authenticated = true) (asks : Request cfg s s') :
    Moves cfg may s s' := .single (.inr ⟨known, .inl asks⟩)

theorem Moves.forget (known : s.conn.authenticated = true) (forgets : Forgetting s s') :
    Moves cfg true s s' := .single (.inr ⟨known, .inr ⟨rfl, forgets⟩⟩)

/-- A queued command is a delivery, a write or a read. -/
theorem runQueued_moves (known : s.conn.authenticated = true) (m : Moment) {cmd : Command}
    (primary : isWriteCommand cmd = true → s.node.replica = false) :
    Moves cfg may s (s.withNode (s.node.runQueued cfg m s.conn.origin cmd).2) := by
  have plain (cmd : Command) (primary : isWriteCommand cmd = true → s.node.replica = false) :
      Moves cfg may s (s.withNode (if isWriteCommand cmd then
        ((executeReporting cfg.codec m.env cmd s.node.server.store).1,
          s.node.wrote cfg m (s.node.server.executeQueuedWrite cfg.codec m.env s.conn.origin cmd))
        else s.node.executeAndRecord cfg m cmd).2) := by
    split_ifs with write
    · exact .request known (.queued m cmd write (primary write))
    · exact .request known (.read m cmd (by simpa using write))
  cases cmd
  case publish channel message => exact .request known (.publish channel message)
  all_goals exact plain _ primary

theorem runQueue_moves (known : s.conn.authenticated = true) {queue : List Command}
    (primary : queue.any isWriteCommand = true → s.node.replica = false) (moments : ℕ → Moment) :
    Moves cfg may s (s.withNode (s.node.runQueue cfg s.conn.origin moments queue).2) := by
  induction queue generalizing s moments with
  | nil => exact .refl
  | cons cmd queue ih =>
    rw [List.any_cons] at primary
    have first := @runQueued_moves cfg may s known (moments 0) cmd fun write =>
      primary (by rw [write, Bool.true_or])
    have still (write : queue.any isWriteCommand = true) :
        (s.node.runQueued cfg (moments 0) s.conn.origin cmd).2.replica = false :=
      (runQueued_replica ..).trans (primary (by rw [write, Bool.or_true]))
    exact first.trans (@ih (s.withNode (s.node.runQueued cfg (moments 0) s.conn.origin cmd).2) known
      still fun i => moments (i + 1))

theorem subscribe_moves (known : s.conn.authenticated = true) (channels : List String) :
    Moves cfg may s (s.subscribe cfg channels).2 := by
  induction channels generalizing s with
  | nil => exact .refl
  | cons ch rest ih =>
    unfold subscribe
    split_ifs with full held
    · exact ih known
    · exact ih known
    · have room : s.conn.subscriptions < cfg.maxPubSubSubscriptionsPerConn := by
        simpa [held] using full
      have start : Moves cfg may s (s.startChannel ch) := .request known (.subscribe ch held room)
      exact start.trans (@ih (s.startChannel ch) known)

theorem pSubscribe_moves (known : s.conn.authenticated = true) (patterns : List String) :
    Moves cfg may s (s.pSubscribe cfg patterns).2 := by
  induction patterns generalizing s with
  | nil => exact .refl
  | cons pat rest ih =>
    unfold pSubscribe
    split_ifs with full held
    · exact ih known
    · exact ih known
    · have room : s.conn.subscriptions < cfg.maxPubSubSubscriptionsPerConn := by
        simpa [held] using full
      have start : Moves cfg may s (s.startPattern pat) := .request known (.pSubscribe pat held room)
      exact start.trans (@ih (s.startPattern pat) known)

/-- The check of `WATCH` counts every key that is not watched yet, so there is room for each in turn. -/
theorem watchEach_moves (known : s.conn.authenticated = true) {keys : List String}
    (room : s.conn.watchedKeys.length + (keys.filter fun k => k ∉ s.conn.watchedKeys).length ≤
      cfg.maxWatchesPerConn) :
    Moves cfg may s (keys.foldl (fun s key =>
      if key ∈ s.conn.watchedKeys then s else s.startWatch key) s) := by
  induction keys generalizing s with
  | nil => exact .refl
  | cons key keys ih =>
    rw [List.foldl_cons]
    split_ifs with held
    · rw [List.filter_cons_of_neg (by simpa using held)] at room
      exact ih known room
    · rw [List.filter_cons_of_pos (by simpa using held), List.length_cons] at room
      have start : Moves cfg may s (s.startWatch key) := .request known (.watch key held (by omega))
      refine start.trans (@ih (s.startWatch key) known ?_)
      have fewer : (keys.filter fun k => k ∉ s.conn.watchedKeys ++ [key]).length ≤
          (keys.filter fun k => k ∉ s.conn.watchedKeys).length :=
        (List.monotone_filter_right keys fun k out => by simp_all).length_le
      calc (s.conn.watchedKeys ++ [key]).length +
            (keys.filter fun k => k ∉ s.conn.watchedKeys ++ [key]).length
        _ ≤ s.conn.watchedKeys.length + 1 + (keys.filter fun k => k ∉ s.conn.watchedKeys).length :=
          Nat.add_le_add (Nat.le_of_eq List.length_append) fewer
        _ ≤ cfg.maxWatchesPerConn := by omega

theorem watch_moves (known : s.conn.authenticated = true) (keys : List String) :
    Moves cfg may s (s.watch cfg keys).2 := by
  unfold watch
  split_ifs with full
  · exact .refl
  · exact watchEach_moves known (by omega)

theorem unwatch_moves (known : s.conn.authenticated = true) (keys : List String) :
    Moves cfg true s (s.unwatch keys).2 := by
  have forget : Moves cfg true s (s.forgetWatches (targets keys s.conn.watchedKeys)) :=
    .forget known (.unwatch _)
  unfold unwatch
  dsimp only
  split_ifs
  · exact forget.trans (@Moves.forget cfg (s.forgetWatches _) _ known .flush)
  · exact forget

theorem qSub_moves (known : s.conn.authenticated = true) (ws : s.conn.transport = .ws) (m : Moment)
    (pattern : String) : Moves cfg may s (s.qSub cfg m pattern).2 := by
  unfold qSub
  split_ifs with outside full held
  · exact .refl
  · exact .refl
  · cases s.node.initialQState cfg m pattern <;> exact .refl
  · have room : s.conn.qSubPatterns.length < cfg.maxQSubsPerConn := by simpa [held] using full
    cases s.node.initialQState cfg m pattern with
    | error limit => exact .refl
    | ok values => exact .request known (.qSub pattern ws held room)

/-! ## Commands -/

theorem exec_moves (known : s.conn.authenticated = true) (moments : ℕ → Moment) :
    Moves cfg true s (s.exec cfg moments).2 := by
  have finish : Moves cfg true s (s.withConn { s.conn with multiQueue := none }) := .request known .finish
  unfold exec
  cases s.conn.multiQueue with
  | none => exact .refl
  | some queue =>
    dsimp only
    split_ifs with dirty readOnly unhealthy invalid
    · have cleaned := finish.trans (@Moves.request cfg true (s.withConn _) _ known .clean)
      exact cleaned.trans (@Moves.forget cfg (Session.withConn _ _) _ known .flush)
    · exact finish.trans (@Moves.forget cfg (s.withConn _) _ known .flush)
    · exact finish.trans (@Moves.forget cfg (s.withConn _) _ known .flush)
    · exact finish.trans (@Moves.forget cfg (s.withConn _) _ known .flush)
    · have primary : queue.any isWriteCommand = true → s.node.replica = false := by
        intro write
        simpa [write] using readOnly
      have ran := @runQueue_moves cfg true (s.withConn { s.conn with multiQueue := none }) known queue primary
        moments
      exact (finish.trans ran).trans (@Moves.forget cfg (Session.withNode _ _) _ known .flush)

theorem enqueue_moves (known : s.conn.authenticated = true) {queue : List Command}
    (opened : s.conn.multiQueue = some queue) (cmd : Command) :
    Moves cfg may s (s.enqueue cfg queue cmd).2 := by
  unfold enqueue
  cases refusal : queueRefusal cfg queue cmd with
  | some error => exact .request known .refuse
  | none =>
    have room : queue.length < cfg.maxMultiQueueLen := by
      unfold queueRefusal at refusal
      split at refusal
      case h_10 =>
        split_ifs at refusal with full
        exact not_le.mp full
      all_goals cases refusal
    exact .request known (.enqueue queue cmd opened room)

theorem direct_moves (known : s.conn.authenticated = true) (m : Moment) (cmd : Command) :
    Moves cfg may s (s.direct cfg m cmd).2 := by
  unfold direct
  dsimp only
  split_ifs with mode readOnly
  · exact .refl
  · exact .refl
  · have stored (cmd : Command) (readOnly : ¬(s.node.replica && isWriteCommand cmd) = true) :
        Moves cfg may s (if isWriteCommand cmd then
          ((s.node.executeOrderedWrite cfg m s.conn.origin cmd).1,
            s.withNode (s.node.executeOrderedWrite cfg m s.conn.origin cmd).2)
          else ((s.node.executeAndRecord cfg m cmd).1,
            s.withNode (s.node.executeAndRecord cfg m cmd).2)).2 := by
      split_ifs with write
      · have primary : s.node.replica = false := by simpa [write] using readOnly
        exact .request known (.write m cmd write primary)
      · exact .request known (.read m cmd (by simpa using write))
    cases cmd
    case save =>
      have saved : Moves cfg may s (s.withNode (s.node.save m).2) := .request known (.save m)
      dsimp only
      split
      all_goals
        rename_i eq
        rw [eq] at saved
        exact saved
    case bgSave => exact .request known (.save m)
    case client args => exact .request known (.client _)
    case replicaOfNoOne => exact .request known .promote
    case lastSave | info | config | commandQuery | cluster | module | memory | pubSub => exact .refl
    all_goals exact stored _ readOnly

theorem dispatch_moves (known : s.conn.authenticated = true) (m : Moment) (cmd : Command) :
    Moves cfg (forgetsWatches cmd) s (s.dispatch cfg m cmd).2 := by
  unfold dispatch
  cases cmd
  case subscribe channels => exact subscribe_moves known channels
  case pSubscribe patterns => exact pSubscribe_moves known patterns
  case unsubscribe channels => exact .request known (.unsubscribe channels)
  case pUnsubscribe patterns => exact .request known (.pUnsubscribe patterns)
  case publish channel message => exact .request known (.publish channel message)
  case watch keys => exact watch_moves known keys
  case unwatch keys => exact unwatch_moves known keys
  case qSub pattern =>
    cases port : s.conn.transport
    · exact direct_moves known m _
    · exact qSub_moves known port m pattern
  case qUnsub pattern =>
    cases s.conn.transport
    · exact direct_moves known m _
    · exact .request known (.qUnsub _)
  all_goals exact direct_moves known m _

theorem command_of_idle (idle : s.conn.multiQueue = none) {cmd : Command}
    (plain : cmd ≠ .multi ∧ cmd ≠ .discard ∧ cmd ≠ .exec) (moments : ℕ → Moment) :
    s.command cfg moments cmd = s.dispatch cfg (moments 0) cmd := by
  cases cmd
  case multi => exact absurd rfl plain.1
  case discard => exact absurd rfl plain.2.1
  case exec => exact absurd rfl plain.2.2
  all_goals simp only [Session.command, idle]

theorem command_moves (known : s.conn.authenticated = true) (moments : ℕ → Moment) (cmd : Command) :
    Moves cfg (forgetsWatches cmd) s (s.command cfg moments cmd).2 := by
  by_cases opens : cmd = .multi
  · subst opens
    unfold command multi
    cases idle : s.conn.multiQueue with
    | none => exact .request known (.multi idle)
    | some queue => exact .refl
  by_cases drops : cmd = .discard
  · subst drops
    unfold command discard
    cases s.conn.multiQueue with
    | none => exact .refl
    | some queue =>
      have finish : Moves cfg true s (s.withConn { s.conn with multiQueue := none }) := .request known .finish
      have cleaned := finish.trans (@Moves.request cfg true (s.withConn _) _ known .clean)
      exact cleaned.trans (@Moves.forget cfg (Session.withConn _ _) _ known .flush)
  by_cases runs : cmd = .exec
  · subst runs
    exact exec_moves known moments
  cases opened : s.conn.multiQueue with
  | none =>
    rw [command_of_idle opened ⟨opens, drops, runs⟩]
    exact dispatch_moves known _ cmd
  | some queue =>
    rw [command_of_open opened ⟨opens, drops, runs⟩]
    exact enqueue_moves known opened cmd

/-! ## Frames -/

/-- A command that is heard before authentication too. -/
def isGreeting (cmd : Command) : Bool := isSessionCommand .tcp cmd

theorem parsed_of_stranger (unknown : s.conn.authenticated = false) {cmd : Command}
    (other : isGreeting cmd = false) (moments : ℕ → Moment) :
    s.parsed cfg moments cmd = ([.error "NOAUTH Authentication required."], s) := by
  cases cmd
  case auth | hello | quit => cases other
  all_goals simp only [parsed, unknown, Bool.not_false, if_true]

/-- A known client's command is answered from the scopes, refused, or carried out. -/
theorem parsed_of_known (known : s.conn.authenticated = true) {cmd : Command}
    (other : isGreeting cmd = false) (moments : ℕ → Moment) :
    (∃ args, s.conn.transport = .ws ∧ cmd = .sync args ∧
        s.parsed cfg moments cmd = ([(handleSyncCommand cfg args s.conn.syncScopes).1],
          s.withConn { s.conn with syncScopes := (handleSyncCommand cfg args s.conn.syncScopes).2 })) ∨
      (∃ error, s.refusal cfg cmd = some error ∧ s.parsed cfg moments cmd = ([error], s)) ∨
      s.refusal cfg cmd = none ∧ s.parsed cfg moments cmd = s.command cfg moments cmd := by
  cases session : isSessionCommand s.conn.transport cmd with
  | true =>
    cases cmd
    case auth | hello | quit => cases other
    case sync args =>
      have ws : s.conn.transport = .ws := by simpa [isSessionCommand] using session
      refine .inl ⟨args, ws, rfl, ?_⟩
      simp only [parsed, known, ws, syncArgs, Bool.not_true, Bool.false_eq_true, if_false, withConn]
    all_goals cases session
  | false =>
    rw [parsed_of_not_session known session]
    cases s.refusal cfg cmd with
    | some error => exact .inr (.inl ⟨error, rfl, rfl⟩)
    | none => exact .inr (.inr ⟨rfl, rfl⟩)

theorem parsed_moves (moments : ℕ → Moment) (cmd : Command) :
    Moves cfg (forgetsWatches cmd) s (s.parsed cfg moments cmd).2 := by
  cases greets : isGreeting cmd with
  | true =>
    cases cmd
    case auth pwd => exact .greeting (.auth pwd)
    case hello requested => exact .greeting (.hello _ requested)
    case quit => exact .greeting .quit
    all_goals cases greets
  | false =>
    cases known : s.conn.authenticated with
    | false =>
      rw [parsed_of_stranger known greets]
    | true =>
      obtain ⟨args, ws, rfl, answered⟩ | ⟨error, -, refused⟩ | ⟨-, passed⟩ :=
        @parsed_of_known cfg s known cmd greets moments
      · rw [answered]
        exact .request known (.sync args ws)
      · rw [refused]
      · rw [passed]
        exact command_moves known moments cmd

/-- Every frame is a chain of moves, and only some commands end watches. -/
theorem handleFrame_moves (moments : ℕ → Moment) (together : Bool) (raw : Bytes) :
    Moves cfg ((commandOf raw).any forgetsWatches) s (s.handleFrame cfg moments together raw).2 := by
  have woken : Moves cfg ((commandOf raw).any forgetsWatches) s (s.wake together) := .greeting (.wake _)
  refine woken.trans ?_
  unfold handleFrame commandOf
  dsimp only
  cases Value.parse raw with
  | error e => exact .refl
  | ok parsed =>
    dsimp only
    cases fromValue parsed.1 with
    | error e => exact Moves.greeting .poison
    | ok cmd => exact parsed_moves moments cmd

end Session

end Recached
