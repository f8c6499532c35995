import Recached.Listing
import Recached.Sync

/-!
# Replies and pushes on one stream

A client tells the frames of the server apart by their shape alone: a push frame and an array that begins
with `keychange` are pushes, everything else is the reply to its oldest command.  So a reply is misread if
it is an array of data that begins with one of the tags.  `listed` says what the array that answers a
command begins with.
-/

namespace Recached

open Text Lapse

/-! ## What the client makes of a frame -/

/-- The frame was taken for a push. -/
def Incoming.isPush : Incoming → Bool
  | .pubSub _ _ | .applied | .ignored => true
  | _ => false

def Incoming.isReply : Incoming → Bool
  | .reply _ => true
  | _ => false

def Incoming.isAppliedReply : Incoming → Bool
  | .appliedReply _ => true
  | _ => false

def keychangeTag : Bytes := asBytes "keychange"

def qstateTag : Bytes := asBytes "qstate"

namespace SyncClient

variable (client : SyncClient) (codec : Codec) (env : Env)

theorem handlePush_isPush (items : List Value) (store : KeyValueStore) :
    (handlePush codec env items store).1.isPush = true := by
  unfold handlePush
  split
  · rfl
  · split
    · split <;> rfl
    · rfl

/-- The type of a frame and the text it begins with decide what it is taken for. -/
theorem handleFrame_kind {v : Value} (legible : v.Legible) :
    let incoming := (client.handleFrame codec env v.serialize).1
    if v.tag = 62 ∨ v.title = some keychangeTag then incoming.isPush = true
    else if v.title = some qstateTag then incoming.isAppliedReply = true
    else incoming.isReply = true := by
  obtain ⟨⟨r, n⟩, read⟩ := legible
  obtain ⟨tag, title⟩ := Value.parse_tag_title read
  unfold handleFrame
  rw [read, ← tag, ← title]
  cases r with
  | push items =>
    rw [if_pos (.inl rfl)]
    exact handlePush_isPush codec env items client.store
  | array items =>
    have other : (Value.array items).tag ≠ 62 := by
      show (42 : UInt8) ≠ 62
      decide
    simp only [other, false_or]
    have untagged {P Q R : Prop} (h : R) : if (none : Option Bytes) = some keychangeTag then P
        else if (none : Option Bytes) = some qstateTag then Q else R := by
      rw [if_neg nofun, if_neg nofun]
      exact h
    cases items with
    | none => exact untagged rfl
    | some items =>
      cases items with
      | nil => exact untagged rfl
      | cons first rest =>
        cases first with
        | bulkString data =>
          cases data with
          | none => exact untagged rfl
          | some text =>
            simp only [Value.title, Value.text, Option.some.injEq, keychangeTag, qstateTag]
            split_ifs <;> first | rfl | contradiction
        | _ => exact untagged rfl
  | _ =>
    rw [if_neg (by rintro (⟨⟨⟩⟩ | ⟨⟨⟩⟩)), if_neg nofun]
    rfl

theorem handleFrame_illegible {v : Value} (illegible : ¬v.Legible) :
    (client.handleFrame codec env v.serialize).1 = .malformed := by
  cases read : Value.parse v.serialize with
  | ok r => exact absurd ⟨r, read⟩ illegible
  | error e =>
    unfold handleFrame
    rw [read]

end SyncClient

/-! ## What the server answers -/

/-- The text is one of the tags. -/
def IsTag (text : Option Bytes) : Prop := text = some keychangeTag ∨ text = some qstateTag

theorem not_isTag_none : ¬IsTag none := nofun

theorem not_isTag_digits (n : ℕ) : ¬IsTag (some (Decimal.digits n)) := by
  rintro (same | same) <;>
  · have first := congrArg (fun text => text.bind List.head?) same
    obtain ⟨d, ds, digits⟩ := List.exists_cons_of_ne_nil (Decimal.digits_ne_nil n)
    have digit := Decimal.isDigit_of_mem_digits (n := n) (digits ▸ List.mem_cons_self)
    rw [digits] at first
    obtain rfl := Option.some.inj first
    exact absurd digit (by decide)

/-- A value that is no push and begins with a tag if and only if the text is one. -/
def Lists (text : Option Bytes) (v : Value) : Prop := v.tag ≠ 62 ∧ (IsTag v.title ↔ IsTag text)

theorem Heads.lists {h : Option Bytes} {v : Value} (heads : Heads h v) : Lists h v := by
  obtain ⟨answer, same | ⟨rfl, n, digits⟩⟩ := heads
  · exact ⟨answer, by rw [same]⟩
  · exact ⟨answer, by rw [digits]; exact iff_of_false (not_isTag_digits n) not_isTag_none⟩

theorem lists_untitled {v : Value} (h : v.untitled = true) : Lists none v :=
  (heads_of_untitled h).lists

/-- An answer that begins with a text that is no tag. -/
theorem lists_text {text : Bytes} (other : text ≠ keychangeTag ∧ text ≠ qstateTag) (rest : List Value) :
    Lists none (arrayOf (.bulkString (some text) :: rest)) := by
  refine ⟨(by decide : (42 : UInt8) ≠ 62), iff_of_false ?_ not_isTag_none⟩
  rintro (same | same)
  · exact other.1 (Option.some.inj same)
  · exact other.2 (Option.some.inj same)

theorem lists_helpLines (lines : List String) : Lists none (helpLines lines) := by
  cases lines <;> exact lists_untitled rfl

/-! ### Commands about the server -/

theorem lists_config (facts : ServerFacts) (store : KeyValueStore) (args : List String) :
    Lists none (handleConfigCommand facts store args) := by
  unfold handleConfigCommand
  split
  · next pattern patterns _ _ =>
    dsimp only
    cases found : (configParameters facts store).filter fun p =>
        (pattern :: patterns).any fun pat => globMatch pat p.1 with
    | nil => exact lists_untitled rfl
    | cons p params =>
      have known : p.1 ∈ (configParameters facts store).map Prod.fst :=
        List.mem_map_of_mem (List.mem_of_mem_filter (found ▸ List.mem_cons_self))
      have names : ∀ name ∈ (configParameters facts store).map Prod.fst,
          asBytes name ≠ keychangeTag ∧ asBytes name ≠ qstateTag := by
        show ∀ name ∈ ["maxmemory", "maxmemory-policy", "maxclients", "port", "tls-port", "appendonly",
          "databases", "requirepass", "proto-max-bulk-len", "timeout", "save"], _
        decide
      exact lists_text (names _ known) _
  all_goals exact lists_untitled rfl

/-- The name that `COMMAND LIST` begins with. -/
def listedCatalog (facts : ServerFacts) : List String → Option Bytes
  | [sub] => if toUppercase sub = "LIST" then firstMember (facts.catalog.map CommandSpec.name) else none
  | _ => none

theorem lists_commandQuery (facts : ServerFacts) (args : List String) {protover : ℕ} (resp3 : 3 ≤ protover) :
    Lists (listedCatalog facts args) (handleCommandQuery facts args protover) := by
  have entries (catalog : List CommandSpec) : (arrayOf (catalog.map commandInfoEntry)).untitled = true := by
    cases catalog <;> rfl
  have known (names : List String) : (arrayOf (names.map fun n =>
      ((facts.lookup n).map commandInfoEntry).getD (.array none))).untitled = true := by
    cases names with
    | nil => rfl
    | cons n names => cases found : facts.lookup n <;> (rw [List.map_cons, found]; rfl)
  unfold handleCommandQuery
  split
  · exact lists_untitled (entries _)
  next sub names =>
    have other (short : names = [] → toUppercase sub ≠ "LIST") : listedCatalog facts (sub :: names) = none := by
      cases names with
      | nil => exact if_neg (short rfl)
      | cons _ _ => rfl
    split
    · rw [other (by simp_all)]
      exact lists_untitled rfl
    next list =>
      have heads := heads_members (facts.catalog.map CommandSpec.name)
      rw [listedCatalog, if_pos list, List.map_map] at *
      exact heads.lists
    · rw [other (by simp_all)]
      exact lists_untitled (entries _)
    · rw [other (by simp_all)]
      exact lists_untitled (known _)
    next query =>
      rw [other (by simp_all)]
      dsimp only [mapOrFlat]
      rw [if_pos resp3]
      exact lists_untitled rfl
    · rw [other fun short list => by simp_all]
      exact lists_untitled rfl

/-- The channel that a reply of `PUBSUB` begins with. -/
def listedChannels (args : List String) (hub : PubSubHub) : Option Bytes :=
  match toUppercase (args.headD ""), args.tail with
  | "CHANNELS", [] => firstMember hub.activeChannels
  | "CHANNELS", [pattern] => firstMember (hub.activeChannels.filter fun c => globMatch pattern c)
  | "NUMSUB", channels => firstMember channels
  | _, _ => none

theorem lists_pubSub (args : List String) (hub : PubSubHub) :
    Lists (listedChannels args hub) (handlePubSubCommand args hub) := by
  unfold handlePubSubCommand listedChannels
  generalize toUppercase (args.headD "") = sub
  generalize args.tail = rest
  split
  · exact (heads_members _).lists
  · exact (heads_members _).lists
  · split
    case h_3 _ _ channels _ _ _ =>
      cases channels with
      | nil => exact lists_untitled rfl
      | cons c channels => exact ⟨(by decide : (42 : UInt8) ≠ 62), .rfl⟩
    all_goals simp_all
  · split
    case h_4 | h_6 => exact lists_untitled rfl
    case h_5 => exact lists_helpLines _
    all_goals simp_all

theorem lists_client (facts : ServerFacts) (args : List String) (client : ClientMeta) :
    Lists none (handleClientCommand facts args client).1 := by
  unfold handleClientCommand
  split
  · exact lists_untitled rfl
  · exact lists_untitled rfl
  · exact lists_untitled rfl
  · dsimp only
    split_ifs <;> exact lists_untitled rfl
  · split_ifs <;> exact lists_untitled rfl
  · split <;> exact lists_untitled rfl
  · exact lists_helpLines _
  · exact lists_untitled rfl

theorem lists_module (args : List String) : Lists none (handleModuleCommand args) := by
  unfold handleModuleCommand
  split
  · exact lists_untitled rfl
  · exact lists_helpLines _
  · exact lists_untitled rfl

theorem lists_memory (args : List String) : Lists none (handleMemoryCommand args) := by
  unfold handleMemoryCommand
  split
  · exact lists_helpLines _
  all_goals exact lists_untitled rfl

/-! ### Commands of a session -/

variable (cfg : ServerConfig) (m : Moment)

/-- What a command on its own lists first. -/
def Node.listed (cmd : Command) (node : Node) : Option Bytes :=
  if isWriteCommand cmd then
    let (effective, wrapper) := ServerState.unwrapDedup cmd
    if !node.server.persistenceHealthy || wrapper.any fun w => node.server.dedupIsDuplicate w.1 w.2 then none
    else node.server.store.listed m.env effective
  else node.server.store.listed m.env cmd

theorem lists_executeOrderedWrite {cmd : Command} (write : isWriteCommand cmd = true) (origin : ℕ)
    (node : Node) : Lists (node.listed m cmd) (node.executeOrderedWrite cfg m origin cmd).1 := by
  show Lists _ (node.server.executeOrderedWrite cfg.codec m.env origin cmd).1
  unfold Node.listed ServerState.executeOrderedWrite
  rw [if_pos write]
  cases node.server.persistenceHealthy with
  | false => exact lists_untitled rfl
  | true =>
    simp only [Bool.not_true, Bool.false_or, Bool.false_eq_true, if_false]
    split_ifs
    · exact lists_untitled rfl
    all_goals exact (executeReporting_heads _).lists

theorem lists_executeAndRecord {cmd : Command} (reads : isWriteCommand cmd = false) (node : Node) :
    Lists (node.listed m cmd) (node.executeAndRecord cfg m cmd).1 := by
  unfold Node.listed
  rw [if_neg (by rw [reads]; exact Bool.false_ne_true)]
  exact Heads.lists (executeReporting_heads cmd)

namespace Session

variable (s : Session)

/-- What the array begins with that answers a command outside transactions. -/
def listedDirect (cmd : Command) : Option Bytes :=
  if s.conn.isSubscribed && !(cmd matches .ping _) then none
  else if s.node.replica && isWriteCommand cmd then none
  else
    match cmd with
    | .commandQuery args => listedCatalog m.facts args
    | .pubSub args => listedChannels args s.node.pubSub
    | cmd => s.node.listed m cmd

theorem lists_direct (resp3 : 3 ≤ s.conn.protover) (cmd : Command) :
    Lists (s.listedDirect m cmd) (s.direct cfg m cmd).1 := by
  have stored (cmd : Command) : Lists (s.node.listed m cmd)
      (if isWriteCommand cmd then
        ((s.node.executeOrderedWrite cfg m s.conn.origin cmd).1,
          { s with node := (s.node.executeOrderedWrite cfg m s.conn.origin cmd).2 })
      else ((s.node.executeAndRecord cfg m cmd).1,
        { s with node := (s.node.executeAndRecord cfg m cmd).2 })).1 := by
    cases write : isWriteCommand cmd with
    | true => exact lists_executeOrderedWrite cfg m write _ _
    | false => exact lists_executeAndRecord cfg m write _
  rcases Bool.eq_false_or_eq_true (s.conn.isSubscribed && !(cmd matches .ping _)) with listening | idle
  · have answer : s.direct cfg m cmd = (onlyPubSub, s) := if_pos listening
    have silent : s.listedDirect m cmd = none := if_pos listening
    rw [answer, silent]
    exact lists_untitled rfl
  have plain := Bool.eq_false_iff.mp idle
  rcases Bool.eq_false_or_eq_true (s.node.replica && isWriteCommand cmd) with readOnly | writable
  · have answer : s.direct cfg m cmd = (readOnlyReplica, s) := (if_neg plain).trans (if_pos readOnly)
    have silent : s.listedDirect m cmd = none := (if_neg plain).trans (if_pos readOnly)
    rw [answer, silent]
    exact lists_untitled rfl
  have answer : s.direct cfg m cmd = _ := (if_neg plain).trans (if_neg (Bool.eq_false_iff.mp writable))
  have text : s.listedDirect m cmd = _ := (if_neg plain).trans (if_neg (Bool.eq_false_iff.mp writable))
  rw [answer, text]
  clear answer text plain idle writable
  cases cmd
  case save =>
    dsimp only
    split <;> exact lists_untitled rfl
  case client args => exact lists_client m.facts args s.conn.client
  case config args => exact lists_config m.facts s.node.server.store args
  case commandQuery args => exact lists_commandQuery m.facts args resp3
  case module args => exact lists_module args
  case memory args => exact lists_memory args
  case pubSub args => exact lists_pubSub args s.node.pubSub
  case bgSave | lastSave | info | cluster | replicaOfNoOne => exact lists_untitled rfl
  all_goals exact stored _

/-- The patterns that `SYNC` answers with. -/
def listedPatterns (args : List String) (scopes : Option (List String)) : List String :=
  let grant (patterns : List String) : List String :=
    if cfg.strict then [] else patterns.filter fun p => p != ""
  match args with
  | [] => scopes.getD []
  | [kw, token] =>
    if kw.map Char.toLower = "token" then
      if cfg.strict then (cfg.verifySyncToken token).toOption.getD [] else []
    else grant args
  | patterns => grant patterns

theorem lists_sync (args : List String) (scopes : Option (List String)) :
    Lists (firstMember (listedPatterns cfg args scopes)) (handleSyncCommand cfg args scopes).1 := by
  have patterns (patterns : List String) : Lists (firstMember patterns) (patternsReply patterns) :=
    (heads_members patterns).lists
  have grant (patterns' : List String) :
      Lists (firstMember (if cfg.strict then [] else patterns'.filter fun p => p != ""))
        (if cfg.strict then
          (Value.error "ERR this server requires signed scopes: use SYNC TOKEN <token>", scopes)
        else if (patterns'.filter fun p => p != "").isEmpty then
          (.error "ERR SYNC requires at least one pattern", scopes)
        else (patternsReply (patterns'.filter fun p => p != ""),
          some (patterns'.filter fun p => p != ""))).1 := by
    split_ifs with strict empty
    · exact lists_untitled rfl
    · rw [List.isEmpty_iff.mp empty]
      exact lists_untitled rfl
    · exact patterns _
  unfold listedPatterns handleSyncCommand
  rcases args with - | ⟨kw, - | ⟨token, - | ⟨next, rest⟩⟩⟩
  · exact patterns _
  · exact grant [kw]
  · dsimp only
    by_cases signed : kw.map Char.toLower = "token"
    · rw [if_pos signed, if_pos signed]
      cases strict : cfg.strict with
      | false => exact lists_untitled rfl
      | true =>
        cases cfg.verifySyncToken token with
        | error e => exact lists_untitled rfl
        | ok granted => exact patterns granted
    · rw [if_neg signed, if_neg signed]
      exact grant [kw, token]
  · exact grant (kw :: token :: next :: rest)

/-- What the first command of a transaction answers, unless the transaction does not run. -/
def listedExec (moments : ℕ → Moment) : Option Bytes :=
  match s.conn.multiQueue with
  | some (cmd :: queue) =>
    if s.conn.multiDirty then none
    else if s.node.replica && (cmd :: queue).any isWriteCommand then none
    else if (cmd :: queue).any isWriteCommand && !s.node.server.persistenceHealthy then none
    else if s.invalidated then none
    else (s.node.runQueued cfg (moments 0) s.conn.origin cmd).1.text
  | _ => none

theorem lists_exec (moments : ℕ → Moment) :
    Lists (s.listedExec cfg moments) (s.exec cfg moments).1 := by
  unfold listedExec exec
  cases queued : s.conn.multiQueue with
  | none => exact lists_untitled rfl
  | some queue =>
    dsimp only
    cases queue with
    | nil => split_ifs <;> exact lists_untitled rfl
    | cons cmd queue =>
      dsimp only
      split_ifs <;> first
        | exact lists_untitled rfl
        | exact ⟨(by decide : (42 : UInt8) ≠ 62), .rfl⟩

/-- What the array begins with that answers a command outside transactions over the WebSocket port, unless
it is the snapshot of a live query. -/
def listedOutside (cmd : Command) : Option Bytes :=
  match cmd with
  | .subscribe _ | .unsubscribe _ | .pSubscribe _ | .pUnsubscribe _ | .publish _ _ | .watch _
  | .unwatch _ | .qSub _ | .qUnsub _ => none
  | cmd => s.listedDirect m cmd

/-- The snapshot that answers a live query. -/
def Snapshots (cmd : Command) (v : Value) : Prop :=
  (∃ pattern, cmd = .qSub pattern) ∧ v.tag ≠ 62 ∧ v.title = some qstateTag

theorem lists_ack {kind : String} (other : asBytes kind ≠ keychangeTag ∧ asBytes kind ≠ qstateTag)
    (channel : String) (count : ℕ) : Lists none (respSubscribeAck kind channel count) :=
  lists_text other _

theorem lists_subscribe {channels : List String} {v : Value}
    (answered : v ∈ (s.subscribe cfg channels).1) : Lists none v := by
  induction channels generalizing s with
  | nil => cases answered
  | cons ch rest ih =>
    unfold subscribe at answered
    split_ifs at answered <;>
    · obtain rfl | later := List.mem_cons.mp answered
      · first
          | exact lists_untitled rfl
          | exact lists_ack (by decide) _ _
      · exact ih _ later

theorem lists_pSubscribe {patterns : List String} {v : Value}
    (answered : v ∈ (s.pSubscribe cfg patterns).1) : Lists none v := by
  induction patterns generalizing s with
  | nil => cases answered
  | cons pat rest ih =>
    unfold pSubscribe at answered
    split_ifs at answered <;>
    · obtain rfl | later := List.mem_cons.mp answered
      · first
          | exact lists_untitled rfl
          | exact lists_ack (by decide) _ _
      · exact ih _ later

theorem lists_unsubscribe {channels : List String} {v : Value}
    (answered : v ∈ (s.unsubscribe channels).1) : Lists none v := by
  unfold unsubscribe at answered
  dsimp only at answered
  split_ifs at answered
  · obtain rfl := List.mem_singleton.mp answered
    exact lists_ack (by decide) _ _
  · obtain ⟨ch, -, rfl⟩ := List.mem_map.mp answered
    exact lists_ack (by decide) _ _

theorem lists_pUnsubscribe {patterns : List String} {v : Value}
    (answered : v ∈ (s.pUnsubscribe patterns).1) : Lists none v := by
  unfold pUnsubscribe at answered
  dsimp only at answered
  split_ifs at answered
  · obtain rfl := List.mem_singleton.mp answered
    exact lists_ack (by decide) _ _
  · obtain ⟨pat, -, rfl⟩ := List.mem_map.mp answered
    exact lists_ack (by decide) _ _

theorem lists_qSub (pattern : String) :
    Lists none (s.qSub cfg m pattern).1 ∨ Snapshots (.qSub pattern) (s.qSub cfg m pattern).1 := by
  unfold qSub
  split_ifs
  · exact .inl (lists_untitled rfl)
  · exact .inl (lists_untitled rfl)
  all_goals
    cases s.node.initialQState cfg m pattern with
    | error limit => exact .inl (lists_untitled rfl)
    | ok values => exact .inr ⟨⟨pattern, rfl⟩, (by decide : (42 : UInt8) ≠ 62), rfl⟩

/-- The replies to a command: each begins with a tag if and only if the text is one, or is a snapshot. -/
structure Answers (text : Option Bytes) (cmd : Command) (replies : List Value) : Prop where
  silent : replies = [] → text = none
  each : ∀ v ∈ replies, Lists text v ∨ Snapshots cmd v

theorem Answers.one {text : Option Bytes} {cmd : Command} {v : Value}
    (lists : Lists text v ∨ Snapshots cmd v) : Answers text cmd [v] :=
  ⟨nofun, fun w answered => by rwa [List.mem_singleton.mp answered]⟩

theorem Answers.all {cmd : Command} {replies : List Value} (lists : ∀ v ∈ replies, Lists none v) :
    Answers none cmd replies :=
  ⟨fun _ => rfl, fun v answered => .inl (lists v answered)⟩

variable {cfg m s}

theorem answers_dispatch (ws : s.conn.transport = .ws) (resp3 : 3 ≤ s.conn.protover) (cmd : Command) :
    Answers (s.listedOutside m cmd) cmd (s.dispatch cfg m cmd).1 := by
  unfold dispatch
  cases cmd
  case subscribe => exact .all fun v => lists_subscribe cfg s
  case pSubscribe => exact .all fun v => lists_pSubscribe cfg s
  case unsubscribe => exact .all fun v => lists_unsubscribe s
  case pUnsubscribe => exact .all fun v => lists_pUnsubscribe s
  case publish => exact .one (.inl (lists_untitled rfl))
  case watch =>
    unfold watch
    dsimp only
    split_ifs <;> exact .one (.inl (lists_untitled rfl))
  case unwatch => exact .one (.inl (lists_untitled rfl))
  case qSub pattern =>
    rw [ws]
    exact .one (lists_qSub cfg m s pattern)
  case qUnsub =>
    rw [ws]
    exact .one (.inl (lists_untitled rfl))
  all_goals exact .one (.inl (lists_direct cfg m s resp3 _))

variable (cfg s)

/-- What the array begins with that answers a command of an authenticated connection. -/
def listedCommand (moments : ℕ → Moment) (cmd : Command) : Option Bytes :=
  match cmd with
  | .multi | .discard => none
  | .exec => s.listedExec cfg moments
  | cmd => if s.conn.multiQueue.isSome then none else s.listedOutside (moments 0) cmd

variable {cfg s}

theorem lists_refused {v : Value} (refused : ∃ e, v = .error e) : Lists none v := by
  obtain ⟨e, rfl⟩ := refused
  exact lists_untitled rfl

theorem lists_enqueue (cmd : Command) (queue : List Command) :
    Lists none (s.enqueue cfg queue cmd).1 := by
  unfold enqueue
  cases refused : queueRefusal cfg queue cmd with
  | none => exact lists_untitled rfl
  | some refusal => exact lists_refused (queueRefusal_isError refused)

theorem answers_queued (ws : s.conn.transport = .ws) (resp3 : 3 ≤ s.conn.protover) (moments : ℕ → Moment)
    (cmd : Command) :
    Answers (if s.conn.multiQueue.isSome then none else s.listedOutside (moments 0) cmd) cmd
      (match s.conn.multiQueue with
      | some queue => ([(s.enqueue cfg queue cmd).1], (s.enqueue cfg queue cmd).2)
      | none => s.dispatch cfg (moments 0) cmd).1 := by
  cases s.conn.multiQueue with
  | none => exact answers_dispatch ws resp3 cmd
  | some queue => exact .one (.inl (lists_enqueue cmd queue))

theorem answers_command (ws : s.conn.transport = .ws) (resp3 : 3 ≤ s.conn.protover)
    {moments : ℕ → Moment} (cmd : Command) :
    Answers (s.listedCommand cfg moments cmd) cmd (s.command cfg moments cmd).1 := by
  unfold command
  cases cmd
  case multi =>
    unfold multi
    dsimp only
    split_ifs <;> exact .one (.inl (lists_untitled rfl))
  case discard =>
    unfold discard
    cases s.conn.multiQueue <;> exact .one (.inl (lists_untitled rfl))
  case exec => exact .one (.inl (lists_exec cfg s moments))
  all_goals exact answers_queued ws resp3 moments _

variable (cfg s)

/-- What the array begins with that answers a command over the WebSocket port, unless it is the snapshot of
a live query. -/
def listed (moments : ℕ → Moment) (cmd : Command) : Option Bytes :=
  match cmd with
  | .auth _ | .hello _ | .quit => none
  | cmd =>
    if !s.conn.authenticated then none
    else
      match syncArgs s.conn.transport cmd with
      | some args => firstMember (listedPatterns cfg args s.conn.syncScopes)
      | none => if (s.refusal cfg cmd).isSome then none else s.listedCommand cfg moments cmd

variable {cfg s}

theorem lists_auth (pwd : String) (conn : Connection) : Lists none (processAuth cfg pwd conn).1 := by
  unfold processAuth
  split
  · exact lists_untitled rfl
  · split_ifs <;> exact lists_untitled rfl

theorem lists_greeting (facts : ServerFacts) (version : Option ℕ) (replica : Bool) (protover : ℕ)
    (authenticated : Bool) :
    Lists none (match version with
      | none => ((Value.error "NOPROTO unsupported protocol version", protover) : Value × ℕ)
      | some protover =>
        if !authenticated then (.error "NOAUTH HELLO must be called with authentication", protover)
        else
          (mapOrFlat [("server", bulk "recached"), ("version", bulk facts.version),
            ("proto", .integer protover), ("mode", bulk "standalone"),
            ("role", bulk (if replica then "replica" else "master")), ("modules", arrayOf [])] protover,
            protover)).1 := by
  cases version with
  | none => exact lists_untitled rfl
  | some protover =>
    cases authenticated with
    | false => exact lists_untitled rfl
    | true =>
      show Lists none (mapOrFlat _ protover)
      unfold mapOrFlat
      by_cases resp3 : 3 ≤ protover
      · rw [if_pos resp3]
        exact lists_untitled rfl
      · rw [if_neg resp3]
        have other : asBytes "server" ≠ keychangeTag ∧ asBytes "server" ≠ qstateTag := by decide
        exact lists_text other _

theorem lists_hello (facts : ServerFacts) (requested : Option String) (replica : Bool)
    (conn : Connection) : Lists none (handleHello facts requested replica conn).1 := by
  unfold handleHello
  split
  · exact lists_greeting facts _ replica _ _
  · split_ifs
    · exact lists_untitled rfl
    · exact lists_greeting facts _ replica _ _

theorem answers_authenticated (ws : s.conn.transport = .ws) (resp3 : 3 ≤ s.conn.protover)
    (moments : ℕ → Moment) (cmd : Command) :
    Answers (if !s.conn.authenticated then none
      else
        match syncArgs s.conn.transport cmd with
        | some args => firstMember (listedPatterns cfg args s.conn.syncScopes)
        | none => if (s.refusal cfg cmd).isSome then none else s.listedCommand cfg moments cmd) cmd
      (if !s.conn.authenticated then ([Value.error "NOAUTH Authentication required."], s)
      else
        match syncArgs s.conn.transport cmd with
        | some args =>
          ([(handleSyncCommand cfg args s.conn.syncScopes).1], { s with conn := { s.conn with
            syncScopes := (handleSyncCommand cfg args s.conn.syncScopes).2 } })
        | none =>
          match s.refusal cfg cmd with
          | some error => ([error], s)
          | none => s.command cfg moments cmd).1 := by
  cases s.conn.authenticated with
  | false => exact .one (.inl (lists_untitled rfl))
  | true =>
    cases syncArgs s.conn.transport cmd with
    | some args => exact .one (.inl (lists_sync cfg args _))
    | none =>
      cases refused : s.refusal cfg cmd with
      | some error => exact .one (.inl (lists_refused (refusal_isError refused)))
      | none => exact answers_command ws resp3 cmd

/-- Every reply to a command begins with a tag if and only if `listed` says so, apart from the snapshot that
answers a live query. -/
theorem answers_parsed (ws : s.conn.transport = .ws) (resp3 : 3 ≤ s.conn.protover) (moments : ℕ → Moment)
    (cmd : Command) : Answers (s.listed cfg moments cmd) cmd (s.parsed cfg moments cmd).1 := by
  unfold parsed
  cases cmd
  case auth pwd => exact .one (.inl (lists_auth pwd s.conn))
  case hello requested => exact .one (.inl (lists_hello _ requested _ s.conn))
  case quit => exact .one (.inl (lists_untitled rfl))
  all_goals exact answers_authenticated ws resp3 moments _

end Session

/-! ## The frames of a connection -/

section

variable {cfg : ServerConfig} {s : Session}

/-- A frame that is no command is answered with an error. -/
theorem handleFrame_garbage (ws : s.conn.transport = .ws) {raw : Bytes} (garbage : commandOf raw = none)
    (moments : ℕ → Moment) (together : Bool) :
    ∀ v ∈ (s.handleFrame cfg moments together raw).1, ∃ e, v = .error e := by
  intro v answered
  unfold commandOf at garbage
  unfold Session.handleFrame at answered
  cases read : Value.parse raw with
  | error e =>
    rw [read] at answered
    have reported : v ∈ protocolError .ws e := by rw [← ws]; exact answered
    exact ⟨_, List.mem_singleton.mp reported⟩
  | ok parsed =>
    rw [read] at answered garbage
    dsimp only at answered garbage
    cases meant : fromValue parsed.1 with
    | error e =>
      rw [meant] at answered
      exact ⟨_, List.mem_singleton.mp answered⟩
    | ok cmd =>
      rw [meant] at garbage
      cases garbage

/-- A frame that the server sends on its own. -/
inductive ServerFrame where
  | mutation (parts : List Bytes)
  | keychange (key : String) (state : Value)
  | delivery (m : PubSubMsg)

/-- Deliveries on the WebSocket port speak the newer protocol. -/
def ServerFrame.value : ServerFrame → Value
  | mutation parts => .push (bulks parts)
  | keychange key state => arrayOf [bulk "keychange", bulk key, state]
  | delivery m => encodePubSubMsg m 3

/-- What the server sends on its own is a push by its shape. -/
theorem ServerFrame.isPush (frame : ServerFrame) :
    frame.value.tag = 62 ∨ frame.value.title = some keychangeTag := by
  cases frame with
  | mutation parts => exact .inl rfl
  | keychange key state => exact .inr rfl
  | delivery m => cases m <;> exact .inl rfl

/-- The client takes the value for a reply, and for one to apply only if the command was a live query. -/
def TakenForReply (client : SyncClient) (codec : Codec) (env : Env) (cmd : Option Command) (v : Value) :
    Prop :=
  let incoming := (client.handleFrame codec env v.serialize).1
  incoming.isReply = true ∨ incoming.isAppliedReply = true ∧ ∃ pattern, cmd = some (.qSub pattern)

/-- The client takes the frame for a push. -/
def TakenForPush (client : SyncClient) (codec : Codec) (env : Env) (frame : ServerFrame) : Prop :=
  (client.handleFrame codec env frame.value.serialize).1.isPush = true

variable {client : SyncClient} {codec : Codec} {env : Env}

theorem takenForPush_iff (frame : ServerFrame) :
    TakenForPush client codec env frame ↔ frame.value.Legible := by
  constructor
  · intro taken
    by_contra illegible
    rw [TakenForPush, client.handleFrame_illegible codec env illegible] at taken
    cases taken
  · intro legible
    have kind := client.handleFrame_kind codec env legible
    dsimp only at kind
    rwa [if_pos frame.isPush] at kind

theorem not_reply_of_isPush {i : Incoming} (push : i.isPush = true) :
    i.isReply = false ∧ i.isAppliedReply = false := by
  cases i <;> first | exact ⟨rfl, rfl⟩ | cases push

theorem not_isReply_of_isAppliedReply {i : Incoming} (applied : i.isAppliedReply = true) :
    i.isReply = false := by
  cases i <;> first | rfl | cases applied

theorem takenForReply_iff {cmd : Option Command} {text : Option Bytes} {v : Value}
    (lists : Lists text v ∨ ∃ c ∈ cmd, Session.Snapshots c v) :
    TakenForReply client codec env cmd v ↔
      v.Legible ∧ (¬IsTag text ∨ ∃ c ∈ cmd, Session.Snapshots c v) := by
  by_cases legible : v.Legible
  · rw [and_iff_right legible]
    have kind := client.handleFrame_kind codec env legible
    dsimp only at kind
    have answer : v.tag ≠ 62 := lists.elim And.left fun ⟨_, _, snapshots⟩ => snapshots.2.1
    by_cases change : v.title = some keychangeTag
    · -- data that begins with `keychange` is taken for a push
      rw [if_pos (.inr change)] at kind
      obtain ⟨notReply, notApplied⟩ := not_reply_of_isPush kind
      refine iff_of_false ?_ ?_
      · rintro (reply | ⟨applied, -⟩)
        · exact Bool.false_ne_true (notReply.symm.trans reply)
        · exact Bool.false_ne_true (notApplied.symm.trans applied)
      · have stateless (c : Command) : ¬Session.Snapshots c v := fun snapshots =>
          absurd (change.symm.trans snapshots.2.2) (by decide)
        obtain lists | ⟨c, -, snapshots⟩ := lists
        · rintro (other | ⟨c, -, snapshots⟩)
          · exact other (lists.2.mp (.inl change))
          · exact stateless c snapshots
        · exact absurd snapshots (stateless c)
    · rw [if_neg (by rintro (push | title); exacts [answer push, change title])] at kind
      by_cases state : v.title = some qstateTag
      · rw [if_pos state] at kind
        have notReply := not_isReply_of_isAppliedReply kind
        constructor
        · rintro (reply | ⟨-, pattern, rfl⟩)
          · exact absurd (notReply.symm.trans reply) Bool.false_ne_true
          · exact .inr ⟨_, rfl, ⟨pattern, rfl⟩, answer, state⟩
        · rintro (other | ⟨c, rfl, ⟨pattern, rfl⟩, -⟩)
          · obtain lists | ⟨c, rfl, ⟨pattern, rfl⟩, -⟩ := lists
            · exact absurd (lists.2.mp (.inr state)) other
            · exact .inr ⟨kind, pattern, rfl⟩
          · exact .inr ⟨kind, pattern, rfl⟩
      · rw [if_neg state] at kind
        refine iff_of_true (.inl kind) (.inl fun tagged => ?_)
        obtain lists | ⟨c, -, snapshots⟩ := lists
        · exact (lists.2.mpr tagged).elim change state
        · exact state snapshots.2.2
  · rw [TakenForReply, client.handleFrame_illegible codec env legible]
    constructor
    · rintro (⟨⟨⟩⟩ | ⟨⟨⟩, -⟩)
    · exact fun h => absurd h.1 legible

theorem listed_qSub (moments : ℕ → Moment) (pattern : String) :
    s.listed cfg moments (.qSub pattern) = none := by
  unfold Session.listed Session.listedCommand Session.listedOutside
  have plain : Session.syncArgs s.conn.transport (.qSub pattern) = none := by
    cases s.conn.transport <;> rfl
  simp only [plain]
  split_ifs <;> rfl

/-- The client tells the replies to a frame from what the server sends on its own, if and only if it can
read them all and the array that answers the frame does not list a tag first. -/
theorem frames_classified_iff (cfg : ServerConfig) (s : Session) (ws : s.conn.transport = .ws)
    (resp3 : s.conn.protover = 3) (moments : ℕ → Moment) (together : Bool) (raw : Bytes)
    (frames : List ServerFrame) (client : SyncClient) (codec : Codec) (env : Env) :
    let replies := (s.handleFrame cfg moments together raw).1
    ((∀ v ∈ replies, TakenForReply client codec env (commandOf raw) v) ∧
        ∀ frame ∈ frames, TakenForPush client codec env frame) ↔
      ((∀ v ∈ replies, v.Legible) ∧ ∀ frame ∈ frames, frame.value.Legible) ∧
        ∀ cmd ∈ commandOf raw, ¬IsTag ((s.wake together).listed cfg moments cmd) := by
  dsimp only
  simp only [takenForPush_iff]
  suffices replies : (∀ v ∈ (s.handleFrame cfg moments together raw).1,
      TakenForReply client codec env (commandOf raw) v) ↔
      (∀ v ∈ (s.handleFrame cfg moments together raw).1, v.Legible) ∧
        ∀ cmd ∈ commandOf raw, ¬IsTag ((s.wake together).listed cfg moments cmd) by
    rw [replies, and_right_comm]
  cases meant : commandOf raw with
  | none =>
    have errors := @handleFrame_garbage cfg s ws raw meant moments together
    have read (v : Value) (answered : v ∈ (s.handleFrame cfg moments together raw).1) :
        TakenForReply client codec env none v ↔ v.Legible := by
      rw [takenForReply_iff (.inl (Session.lists_refused (errors v answered)))]
      exact and_iff_left (.inl not_isTag_none)
    rw [and_iff_left (by rintro cmd ⟨⟩)]
    exact forall₂_congr read
  | some cmd =>
    rw [handleFrame_command meant]
    set s' := s.wake together
    have answers : Session.Answers (s'.listed cfg moments cmd) cmd (s'.parsed cfg moments cmd).1 :=
      Session.answers_parsed (s := s') ws (le_of_eq resp3.symm) moments cmd
    have read (v : Value) (answered : v ∈ (s'.parsed cfg moments cmd).1) :
        TakenForReply client codec env (some cmd) v ↔ v.Legible ∧
          (¬IsTag (s'.listed cfg moments cmd) ∨ ∃ c ∈ some cmd, Session.Snapshots c v) :=
      takenForReply_iff ((answers.each v answered).imp_right fun snapshots => ⟨cmd, rfl, snapshots⟩)
    constructor
    · intro taken
      refine ⟨fun v answered => ((read v answered).mp (taken v answered)).1, ?_⟩
      rintro _ ⟨⟩ tagged
      by_cases silent : (s'.parsed cfg moments cmd).1 = []
      · rw [answers.silent silent] at tagged
        exact not_isTag_none tagged
      · obtain ⟨v, answered⟩ := List.exists_mem_of_ne_nil _ silent
        obtain other | ⟨_, ⟨⟩, ⟨pattern, rfl⟩, -⟩ := ((read v answered).mp (taken v answered)).2
        · exact other tagged
        · rw [listed_qSub] at tagged
          exact not_isTag_none tagged
    · rintro ⟨legible, other⟩ v answered
      exact (read v answered).mpr ⟨legible v answered, .inl (other cmd rfl)⟩

end

def listStore : KeyValueStore :=
  { data := (∅ : Data).insert "l" { value := .list [keychangeTag, [107], [118]], lastAccessMs := 0 } }

/-- A WebSocket connection to a server with a list that begins with the text `keychange`. -/
def listSession : Session where
  conn := { transport := .ws, id := 1, authenticated := true, protover := 3, syncScopes := some ["l"] }
  node := { server := { store := listStore } }

def rangeRequest (start : String) : Bytes := request ["LRANGE", "l", start, "-1"]

theorem rangeRequest_all : (listSession.handleFrame .scoped atStart false (rangeRequest "0")).1 =
    [arrayOf [blob keychangeTag, blob [107], blob [118]]] := by
  have parsed : commandOf (rangeRequest "0") = some (.lRange "l" 0 (-1)) := rfl
  rw [handleFrame_command parsed]
  rfl

theorem rangeRequest_rest : (listSession.handleFrame .scoped atStart false (rangeRequest "1")).1 =
    [arrayOf [blob [107], blob [118]]] := by
  have parsed : commandOf (rangeRequest "1") = some (.lRange "l" 1 (-1)) := rfl
  rw [handleFrame_command parsed]
  rfl

/-- A range that lists `keychange`, a key and a value is taken for a push. -/
theorem range_taken_for_push :
    ¬∀ v ∈ (listSession.handleFrame .scoped atStart false (rangeRequest "0")).1,
      TakenForReply {} .literals (.fixed 0) (commandOf (rangeRequest "0")) v := by
  intro taken
  rw [rangeRequest_all] at taken
  obtain reply | ⟨applied, -⟩ := taken _ List.mem_cons_self
  · exact absurd reply (by decide)
  · exact absurd applied (by decide)

/-- A range that leaves out the first element is taken for a reply. -/
theorem frames_classified_iff_range :
    (∀ v ∈ (listSession.handleFrame .scoped atStart false (rangeRequest "1")).1,
      TakenForReply {} .literals (.fixed 0) (commandOf (rangeRequest "1")) v) ∧
    ∀ frame ∈ [ServerFrame.keychange "l" (.bulkString none)],
      TakenForPush {} .literals (.fixed 0) frame := by
  refine (frames_classified_iff .scoped listSession rfl rfl atStart false _ _ {} .literals (.fixed 0)).mpr
    ⟨⟨?_, ?_⟩, ?_⟩
  · intro v answered
    rw [rangeRequest_rest] at answered
    rw [List.mem_singleton.mp answered]
    exact ⟨_, rfl⟩
  · intro frame sent
    rw [List.mem_singleton.mp sent]
    exact ⟨_, rfl⟩
  · rintro cmd parsed tagged
    obtain rfl : Command.lRange "l" 1 (-1) = cmd := Option.some.inj parsed
    exact absurd tagged (by
      rintro (same | same) <;> exact absurd (Option.some.inj same) (by decide))

end Recached
