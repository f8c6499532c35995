import Recached.Connection

/-!
# All or nothing

Between `MULTI` and `EXEC` every frame is queued, refused, or a command of the session.  A refusal by
the command parser or by the queue poisons the transaction; a refusal by the RESP parser or by the
scope check, and another `MULTI`, do not.  `all_or_nothing_iff` says what follows for `EXEC`.
-/

namespace Recached

/-! ## Frames inside a transaction -/

/-- The command that a frame is. -/
def commandOf (raw : Bytes) : Option Command :=
  match Value.parse raw with
  | .ok (value, _) => (fromValue value).toOption
  | .error _ => none

/-- The commands that are answered at once, inside a transaction too. -/
def isSessionCommand (transport : Transport) : Command → Bool
  | .auth _ | .hello _ | .quit => true
  | .sync _ => transport = .ws
  | _ => false

/-- What happens on a connection between `MULTI` and `EXEC`: a frame comes in, the handler takes a
notification from its queue, or others have changed the node. -/
inductive Interim where
  | frame (moments : ℕ → Moment) (together : Bool) (raw : Bytes)
  | notified
  | around (node : Node)

def Interim.raw : Interim → Option Bytes
  | frame _ _ raw => some raw
  | _ => none

def Interim.command (e : Interim) : Option Command := e.raw.bind commandOf

/-- Something that happened, where it happened and what the handler answered. -/
structure Exchange where
  before : Session
  event : Interim
  replies : List Value

namespace Session

variable (cfg : ServerConfig)

/-- The handler takes a notification from its queue. -/
def notified (s : Session) : Session :=
  let channel := s.node.hub.channels s.conn.watchQueue
  { conn := { s.conn with watchDirty := s.conn.watchDirty || !channel.queue.isEmpty }
    node := { s.node with
      hub := { s.node.hub with
        channels := Function.update s.node.hub.channels s.conn.watchQueue
          { channel with queue := channel.queue.tail } } } }

def interim (s : Session) : Interim → List Value × Session
  | .frame moments together raw => s.handleFrame cfg moments together raw
  | .notified => ([], s.notified)
  | .around node => ([], { s with node })

/-- What happens one after the other. -/
def history : List Interim → Session → List Exchange × Session
  | [], s => ([], s)
  | e :: es, s =>
    let (replies, s') := s.interim cfg e
    let (exchanges, s'') := history es s'
    (⟨s, e, replies⟩ :: exchanges, s'')

end Session

namespace Exchange

variable (cfg : ServerConfig) (x : Exchange)

/-- The frame was answered with an error; session commands are not counted. -/
def Refused : Prop :=
  (∃ e, Value.error e ∈ x.replies) ∧
    ∀ cmd ∈ x.event.command, isSessionCommand x.before.conn.transport cmd = false

/-- The command that the frame put into the queue. -/
def queuedCommand : Option Command :=
  match x.replies with
  | [.simpleString reply] => if reply = "QUEUED" then x.event.command else none
  | _ => none

/-- The frame is refused before the handler looks at the transaction: it is no RESP value, its command
is out of scope, or it is another `MULTI`. -/
def RefusedEarly : Prop :=
  match x.event with
  | .frame _ _ raw =>
    match Value.parse raw with
    | .error e => protocolError x.before.conn.transport e ≠ []
    | .ok (value, _) =>
      match fromValue value with
      | .error _ => False
      | .ok cmd => isSessionCommand x.before.conn.transport cmd = false ∧
        (x.before.refusal cfg cmd ≠ none ∨ cmd = .multi)
  | _ => False

/-- The frame poisons the transaction: it is a RESP value but no command, or a command that is in scope
and not queued. -/
def Poisons : Prop :=
  match x.event with
  | .frame _ _ raw =>
    match Value.parse raw with
    | .error _ => False
    | .ok (value, _) =>
      match fromValue value with
      | .error _ => True
      | .ok cmd => isSessionCommand x.before.conn.transport cmd = false ∧ cmd ≠ .multi ∧
        x.before.refusal cfg cmd = none ∧
          queueRefusal cfg (x.before.conn.multiQueue.getD []) cmd ≠ none
  | _ => False

end Exchange

/-- The nodes differ at most in who is registered for which changes and has been told of which. -/
def Node.SameContent (node node' : Node) : Prop := { node with hub := node'.hub } = node'

/-- `EXEC` runs nothing and says that the transaction is discarded because of an error. -/
def Aborts (s s' : Session) (replies : List Value) : Prop :=
  replies = [execAbort] ∧ s.node.SameContent s'.node

/-- `EXEC` refuses the transaction as a whole, or aborts it because of a watched key, and runs
nothing. -/
def RefusesWhole (queue : List Command) (s s' : Session) (replies : List Value) : Prop :=
  s.node.SameContent s'.node ∧
    ((queue.any isWriteCommand ∧ s.node.replica ∧ replies = [readOnlyReplica]) ∨
      (queue.any isWriteCommand ∧ s.node.server.persistenceHealthy = false ∧ replies = [unhealthy]) ∨
      (s.invalidated ∧ replies = [.array none]))

/-- `EXEC` runs the commands, each of them once and in order. -/
def RunsAll (cfg : ServerConfig) (moments : ℕ → Moment) (queue : List Command) (s s' : Session)
    (replies : List Value) : Prop :=
  let (responses, node) := s.node.runQueue cfg s.conn.origin moments queue
  replies = [arrayOf responses] ∧ node.SameContent s'.node

/-- All or nothing: after a refused frame `EXEC` runs nothing and says so; otherwise it runs all queued
commands, unless it refuses them as a whole. -/
def AllOrNothing (cfg : ServerConfig) (exchanges : List Exchange) (moments : ℕ → Moment)
    (s s' : Session) (replies : List Value) : Prop :=
  let queue := exchanges.filterMap Exchange.queuedCommand
  ((∃ x ∈ exchanges, x.Refused) → Aborts s s' replies) ∧
    ((∀ x ∈ exchanges, ¬x.Refused) →
      RefusesWhole queue s s' replies ∨ RunsAll cfg moments queue s s' replies)

/-! ## One frame -/

section

variable {cfg : ServerConfig} {s : Session} {cmd : Command} {queue : List Command}

theorem Node.SameContent.refl (node : Node) : node.SameContent node := rfl

theorem parsed_of_not_session (authenticated : s.conn.authenticated = true)
    (other : isSessionCommand s.conn.transport cmd = false) (moments : ℕ → Moment) :
    s.parsed cfg moments cmd =
      match s.refusal cfg cmd with
      | some error => ([error], s)
      | none => s.command cfg moments cmd := by
  have noSync : Session.syncArgs s.conn.transport cmd = none := by
    cases cmd
    case sync args =>
      cases transport : s.conn.transport with
      | tcp => rfl
      | ws => simp [isSessionCommand, transport] at other
    all_goals cases s.conn.transport <;> rfl
  cases refused : s.refusal cfg cmd
  all_goals
    cases cmd
    case auth | hello | quit => cases other
    all_goals
      simp only [Session.parsed, authenticated, Bool.not_true, Bool.false_eq_true, if_false, noSync, refused]

theorem command_of_open (opened : s.conn.multiQueue = some queue)
    (plain : cmd ≠ .multi ∧ cmd ≠ .discard ∧ cmd ≠ .exec) (moments : ℕ → Moment) :
    s.command cfg moments cmd = ([(s.enqueue cfg queue cmd).1], (s.enqueue cfg queue cmd).2) := by
  cases cmd
  case multi => exact absurd rfl plain.1
  case discard => exact absurd rfl plain.2.1
  case exec => exact absurd rfl plain.2.2
  all_goals simp only [Session.command, opened]

/-- The part of a connection that a session command does not touch. -/
def Connection.SameTransaction (conn conn' : Connection) : Prop :=
  conn'.multiQueue = conn.multiQueue ∧ conn'.multiDirty = conn.multiDirty ∧
    (conn.authenticated = true → conn'.authenticated = true)

theorem processAuth_spec (cfg : ServerConfig) (pwd : String) (conn : Connection) :
    (processAuth cfg pwd conn).1 ≠ queued ∧ conn.SameTransaction (processAuth cfg pwd conn).2 := by
  unfold processAuth
  split
  · exact ⟨nofun, rfl, rfl, id⟩
  · split_ifs
    · exact ⟨by simp [ok, queued], rfl, rfl, fun _ => rfl⟩
    · exact ⟨nofun, rfl, rfl, id⟩
    · exact ⟨nofun, rfl, rfl, id⟩

theorem mapOrFlat_ne_queued (fields : List (String × Value)) (protover : ℕ) :
    mapOrFlat fields protover ≠ queued := by
  unfold mapOrFlat
  split_ifs <;> exact nofun

theorem processHello_ne_queued (facts : ServerFacts) (requested : Option String) (protover : ℕ)
    (authenticated replica : Bool) :
    (processHello facts requested protover authenticated replica).1 ≠ queued := by
  unfold processHello
  dsimp only
  split
  · exact nofun
  · split
    · exact nofun
    · exact mapOrFlat_ne_queued _ _

theorem handleHello_spec (facts : ServerFacts) (requested : Option String) (replica : Bool)
    (conn : Connection) : (handleHello facts requested replica conn).1 ≠ queued ∧
      conn.SameTransaction (handleHello facts requested replica conn).2 := by
  unfold handleHello
  split
  · exact ⟨processHello_ne_queued _ _ _ _ _, rfl, rfl, id⟩
  · split_ifs
    · exact ⟨nofun, rfl, rfl, id⟩
    · exact ⟨processHello_ne_queued _ _ _ _ _, rfl, rfl, id⟩

theorem handleSyncCommand_ne_queued (cfg : ServerConfig) (args : List String)
    (scopes : Option (List String)) : (handleSyncCommand cfg args scopes).1 ≠ queued := by
  unfold handleSyncCommand
  dsimp only
  repeat' split
  all_goals exact nofun

/-- A session command leaves the transaction alone, and does not look like an element of the queue. -/
theorem parsed_of_session (authenticated : s.conn.authenticated = true)
    (session : isSessionCommand s.conn.transport cmd = true) (moments : ℕ → Moment) :
    ∃ reply conn, s.parsed cfg moments cmd = ([reply], { s with conn }) ∧ reply ≠ queued ∧
      s.conn.SameTransaction conn := by
  cases cmd
  case auth pwd => exact ⟨_, _, rfl, processAuth_spec cfg pwd s.conn⟩
  case hello requested => exact ⟨_, _, rfl, handleHello_spec ..⟩
  case quit => exact ⟨_, _, rfl, by simp [ok, queued], rfl, rfl, id⟩
  case sync args =>
    have ws : s.conn.transport = .ws := by simpa [isSessionCommand] using session
    simp only [Session.parsed, authenticated, ws, Session.syncArgs, Bool.not_true, Bool.false_eq_true,
      if_false]
    exact ⟨_, _, rfl, handleSyncCommand_ne_queued _ _ _, rfl, rfl, fun _ => rfl⟩
  all_goals cases session

theorem queueRefusal_isError {reply : Value} (refused : queueRefusal cfg queue cmd = some reply) :
    ∃ e, reply = .error e := by
  unfold queueRefusal at refused
  split at refused
  · exact ⟨_, (Option.some.inj refused).symm⟩
  all_goals first
    | exact ⟨_, (Option.some.inj refused).symm⟩
    | split_ifs at refused; exact ⟨_, (Option.some.inj refused).symm⟩

/-- A session in an open transaction. -/
structure Session.Inside (queue : List Command) (dirty : Prop) (s : Session) : Prop where
  opened : s.conn.multiQueue = some queue
  dirty_iff : s.conn.multiDirty = true ↔ dirty
  authenticated : s.conn.authenticated = true

namespace Session.Inside

variable {dirty : Prop} {conn : Connection}

theorem keep (inside : s.Inside queue dirty) (same : s.conn.SameTransaction conn) (node : Node) :
    (Session.mk conn node).Inside queue dirty :=
  ⟨same.1.trans inside.opened, by rw [same.2.1]; exact inside.dirty_iff, same.2.2 inside.authenticated⟩

theorem congr {dirty' : Prop} (inside : s.Inside queue dirty) (same : dirty ↔ dirty') :
    s.Inside queue dirty' :=
  ⟨inside.opened, inside.dirty_iff.trans same, inside.authenticated⟩

theorem wake (inside : s.Inside queue dirty) (together : Bool) :
    (s.wake together).Inside queue dirty :=
  ⟨inside.opened, inside.dirty_iff, inside.authenticated⟩

theorem poison (inside : s.Inside queue dirty) : s.poison.Inside queue True := by
  unfold Session.poison
  rw [inside.opened]
  exact ⟨inside.opened, iff_of_true rfl trivial, inside.authenticated⟩

/-- A command that reaches the queue is put into it or poisons the transaction. -/
theorem enqueue (inside : s.Inside queue dirty) (cmd : Command) :
    (queueRefusal cfg queue cmd = none ∧ (s.enqueue cfg queue cmd).1 = queued ∧
        (s.enqueue cfg queue cmd).2.Inside (queue ++ [cmd]) dirty) ∨
      ∃ e, queueRefusal cfg queue cmd = some (.error e) ∧ (s.enqueue cfg queue cmd).1 = .error e ∧
        (s.enqueue cfg queue cmd).2.Inside queue True := by
  unfold Session.enqueue
  cases refused : queueRefusal cfg queue cmd with
  | none => exact .inl ⟨rfl, rfl, rfl, inside.dirty_iff, inside.authenticated⟩
  | some reply =>
    obtain ⟨e, rfl⟩ := queueRefusal_isError refused
    exact .inr ⟨e, rfl, rfl, inside.opened, iff_of_true rfl trivial, inside.authenticated⟩

end Session.Inside

theorem refusal_isError {reply : Value} (refused : s.refusal cfg cmd = some reply) :
    ∃ e, reply = .error e := by
  unfold Session.refusal scopeRefusal at refused
  split_ifs at refused
  split at refused
  · cases refused
  · exact ⟨_, (Option.some.inj refused).symm⟩
  · split at refused
    · exact ⟨_, (Option.some.inj refused).symm⟩
    · obtain ⟨denied, -, rfl⟩ := Option.map_eq_some_iff.mp refused
      exact ⟨_, rfl⟩

/-- What a command inside a transaction comes to. -/
theorem parsed_inside {dirty : Prop} (inside : s.Inside queue dirty)
    (stays : cmd ≠ .discard ∧ cmd ≠ .exec) (moments : ℕ → Moment) :
    (isSessionCommand s.conn.transport cmd = true ∧ ∃ reply, reply ≠ queued ∧
        (s.parsed cfg moments cmd).1 = [reply] ∧ (s.parsed cfg moments cmd).2.Inside queue dirty) ∨
      isSessionCommand s.conn.transport cmd = false ∧
        ((s.refusal cfg cmd ≠ none ∨ cmd = .multi) ∧
            (∃ e, (s.parsed cfg moments cmd).1 = [.error e]) ∧
            (s.parsed cfg moments cmd).2.Inside queue dirty ∨
          (s.refusal cfg cmd = none ∧ cmd ≠ .multi) ∧
            (queueRefusal cfg queue cmd = none ∧ (s.parsed cfg moments cmd).1 = [queued] ∧
                (s.parsed cfg moments cmd).2.Inside (queue ++ [cmd]) dirty ∨
              queueRefusal cfg queue cmd ≠ none ∧
                (∃ e, (s.parsed cfg moments cmd).1 = [.error e]) ∧
                (s.parsed cfg moments cmd).2.Inside queue True)) := by
  cases session : isSessionCommand s.conn.transport cmd with
  | true =>
    obtain ⟨reply, conn, answered, other, same⟩ :=
      parsed_of_session inside.authenticated session moments
    rw [answered]
    exact .inl ⟨rfl, reply, other, rfl, inside.keep same s.node⟩
  | false =>
    refine .inr ⟨rfl, ?_⟩
    rw [parsed_of_not_session inside.authenticated session]
    cases refused : s.refusal cfg cmd with
    | some reply =>
      obtain ⟨e, rfl⟩ := refusal_isError refused
      exact .inl ⟨.inl nofun, ⟨e, rfl⟩, inside⟩
    | none =>
      by_cases nested : cmd = .multi
      · subst nested
        have again : s.multi = (.error "ERR MULTI calls can not be nested", s) := by
          simp [Session.multi, inside.opened]
        simp only [Session.command, again]
        exact .inl ⟨.inr trivial, ⟨_, rfl⟩, inside⟩
      · simp only [command_of_open inside.opened ⟨nested, stays⟩]
        refine .inr ⟨⟨trivial, nested⟩, ?_⟩
        obtain ⟨free, reply, after⟩ | ⟨e, refused, reply, after⟩ := inside.enqueue cmd
        · exact .inl ⟨free, by rw [reply], after⟩
        · exact .inr ⟨by rw [refused]; exact nofun, ⟨e, by rw [reply]⟩, after⟩

namespace Exchange

theorem queuedCommand_of_ne {x : Exchange} {reply : Value} (answered : x.replies = [reply])
    (other : reply ≠ queued) : x.queuedCommand = none := by
  unfold queuedCommand
  rw [answered]
  split
  · next text eq =>
    obtain rfl : reply = .simpleString text := by simpa using eq
    exact if_neg fun same => other (by rw [same]; rfl)
  · rfl

theorem queuedCommand_of_queued {x : Exchange} (answered : x.replies = [queued]) :
    x.queuedCommand = x.event.command := by
  simp [queuedCommand, answered, queued]

end Exchange

/-- What happens inside a transaction keeps it open; a frame is refused if it is refused early or
poisons the transaction, and the queue has the commands of the frames that were answered `QUEUED`. -/
theorem frame_inside {dirty : Prop} (inside : s.Inside queue dirty) (moments : ℕ → Moment)
    (together : Bool) {raw : Bytes}
    (stays : ∀ cmd ∈ commandOf raw, cmd ≠ .discard ∧ cmd ≠ .exec) :
    let x : Exchange := ⟨s, .frame moments together raw, (s.handleFrame cfg moments together raw).1⟩
    (s.handleFrame cfg moments together raw).2.Inside (queue ++ x.queuedCommand.toList)
        (dirty ∨ x.Poisons cfg) ∧
      (x.Refused ↔ x.RefusedEarly cfg ∨ x.Poisons cfg) := by
  intro x
  cases parse : Value.parse raw with
  | error err =>
    have handled : s.handleFrame cfg moments together raw =
        (protocolError s.conn.transport err, s.wake together) := by
      simp only [Session.handleFrame, parse]
      rfl
    have unqueued : x.queuedCommand = none := by
      simp only [Exchange.queuedCommand, x, handled, protocolError]
      cases s.conn.transport with
      | ws => rfl
      | tcp => cases err.isIncomplete <;> rfl
    have unknown : x.event.command = none := by
      simp [Interim.command, Interim.raw, x, commandOf, parse]
    have poisons : ¬x.Poisons cfg := by simp [Exchange.Poisons, x, parse]
    have early : x.RefusedEarly cfg ↔ protocolError s.conn.transport err ≠ [] := by
      simp only [Exchange.RefusedEarly, x, parse]
    refine ⟨?_, ?_⟩
    · rw [handled, unqueued, Option.toList_none, List.append_nil]
      exact (inside.wake together).congr (or_iff_left poisons).symm
    · rw [or_iff_left poisons, early, Exchange.Refused, unknown]
      simp only [x, handled, protocolError]
      cases s.conn.transport with
      | ws => simp
      | tcp => cases err.isIncomplete <;> simp
  | ok parsed =>
    obtain ⟨value, n⟩ := parsed
    cases decoded : fromValue value with
    | error err =>
      have handled : s.handleFrame cfg moments together raw =
          ([.error err], (s.wake together).poison) := by
        simp only [Session.handleFrame, parse, decoded]
      have unqueued : x.queuedCommand = none := by simp only [Exchange.queuedCommand, x, handled]
      have unknown : x.event.command = none := by
        simp [Interim.command, Interim.raw, x, commandOf, parse, decoded, Except.toOption]
      have poisons : x.Poisons cfg := by simp [Exchange.Poisons, x, parse, decoded]
      refine ⟨?_, iff_of_true ⟨⟨err, ?_⟩, ?_⟩ (.inr poisons)⟩
      · rw [handled, unqueued, Option.toList_none, List.append_nil]
        exact (inside.wake together).poison.congr (iff_of_true trivial (.inr poisons))
      · simp [x, handled]
      · simp [unknown]
    | ok cmd =>
      have handled : s.handleFrame cfg moments together raw =
          (s.wake together).parsed cfg moments cmd := by
        simp only [Session.handleFrame, parse, decoded]
      have command : commandOf raw = some cmd := by
        simp [commandOf, parse, decoded, Except.toOption]
      have early : x.RefusedEarly cfg ↔ isSessionCommand s.conn.transport cmd = false ∧
          (s.refusal cfg cmd ≠ none ∨ cmd = .multi) := by
        simp only [Exchange.RefusedEarly, x, parse, decoded]
      have poisons : x.Poisons cfg ↔ isSessionCommand s.conn.transport cmd = false ∧ cmd ≠ .multi ∧
          s.refusal cfg cmd = none ∧ queueRefusal cfg queue cmd ≠ none := by
        simp only [Exchange.Poisons, x, parse, decoded, inside.opened, Option.getD_some]
      have known : x.event.command = some cmd := command
      have refused : x.Refused ↔ (∃ e, Value.error e ∈ x.replies) ∧
          isSessionCommand s.conn.transport cmd = false := by
        simp [Exchange.Refused, known, x]
      have replies : x.replies = ((s.wake together).parsed cfg moments cmd).1 := by
        simp [x, handled]
      rw [handled, refused, early, poisons, replies]
      obtain ⟨session, reply, other, answered, after⟩ | ⟨free, rest⟩ :=
        parsed_inside (inside.wake together) (stays cmd command) moments
      · have session : isSessionCommand s.conn.transport cmd = true := session
        rw [Exchange.queuedCommand_of_ne (replies.trans answered) other]
        refine ⟨by simpa [session] using after, by simp [session]⟩
      · have free : isSessionCommand s.conn.transport cmd = false := free
        obtain ⟨early, ⟨e, answered⟩, after⟩ | ⟨⟨inScope, plain⟩, accepted | rejected⟩ := rest
        · have early : s.refusal cfg cmd ≠ none ∨ cmd = .multi := early
          have unpoisoned : ¬(cmd ≠ .multi ∧ s.refusal cfg cmd = none ∧
              queueRefusal cfg queue cmd ≠ none) := fun h => early.elim (· h.2.1) h.1
          rw [Exchange.queuedCommand_of_ne (replies.trans answered) (by rintro ⟨⟩), answered]
          exact ⟨by simpa [free, unpoisoned] using after, by simp [free, early]⟩
        · have inScope : s.refusal cfg cmd = none := inScope
          obtain ⟨room, answered, after⟩ := accepted
          rw [Exchange.queuedCommand_of_queued (replies.trans answered), known, answered]
          exact ⟨by simpa [room] using after, by simp [queued, inScope, plain, room]⟩
        · have inScope : s.refusal cfg cmd = none := inScope
          obtain ⟨full, ⟨e, answered⟩, after⟩ := rejected
          rw [Exchange.queuedCommand_of_ne (replies.trans answered) (by rintro ⟨⟩), answered]
          exact ⟨by simpa [free, plain, inScope, full] using after, by simp [free, inScope, plain, full]⟩

theorem interim_inside {dirty : Prop} (inside : s.Inside queue dirty) (e : Interim)
    (stays : ∀ cmd ∈ e.command, cmd ≠ .discard ∧ cmd ≠ .exec) :
    let x : Exchange := ⟨s, e, (s.interim cfg e).1⟩
    (s.interim cfg e).2.Inside (queue ++ x.queuedCommand.toList) (dirty ∨ x.Poisons cfg) ∧
      (x.Refused ↔ x.RefusedEarly cfg ∨ x.Poisons cfg) := by
  intro x
  cases e with
  | frame moments together raw => exact frame_inside inside moments together stays
  | notified | around node =>
    have after (s' : Session) (same : s'.conn.multiQueue = s.conn.multiQueue ∧
        s'.conn.multiDirty = s.conn.multiDirty ∧ s'.conn.authenticated = s.conn.authenticated) :
        s'.Inside queue dirty :=
      ⟨same.1.trans inside.opened, by rw [same.2.1, inside.dirty_iff],
        same.2.2.trans inside.authenticated⟩
    have unqueued : x.queuedCommand = none := rfl
    refine ⟨?_, iff_of_false (fun h => ?_) (fun h => h.elim id id)⟩
    · rw [unqueued, Option.toList_none, List.append_nil]
      refine (after _ ?_).congr (or_iff_left id).symm
      exact ⟨rfl, rfl, rfl⟩
    · obtain ⟨e, mem⟩ := h.1
      cases mem

theorem history_inside {dirty : Prop} (inside : s.Inside queue dirty) {events : List Interim}
    (stay : ∀ e ∈ events, ∀ cmd ∈ e.command, cmd ≠ .discard ∧ cmd ≠ .exec) :
    (s.history cfg events).2.Inside
        (queue ++ (s.history cfg events).1.filterMap Exchange.queuedCommand)
        (dirty ∨ ∃ x ∈ (s.history cfg events).1, x.Poisons cfg) ∧
      ∀ x ∈ (s.history cfg events).1, x.Refused ↔ x.RefusedEarly cfg ∨ x.Poisons cfg := by
  induction events generalizing s queue dirty with
  | nil => simpa [Session.history] using inside
  | cons e events ih =>
    obtain ⟨first, refused⟩ := interim_inside inside e (stay e List.mem_cons_self)
    obtain ⟨rest, all⟩ := ih first fun e' he' => stay e' (List.mem_cons_of_mem e he')
    have split : (s.history cfg (e :: events)) =
        (⟨s, e, (s.interim cfg e).1⟩ :: ((s.interim cfg e).2.history cfg events).1,
          ((s.interim cfg e).2.history cfg events).2) := rfl
    rw [split]
    refine ⟨?_, List.forall_mem_cons.mpr ⟨refused, all⟩⟩
    simp only [List.exists_mem_cons_iff, List.filterMap_cons, ← or_assoc]
    cases queuedOne : (Exchange.queuedCommand ⟨s, e, (s.interim cfg e).1⟩) <;>
      simpa [queuedOne, List.append_assoc] using rest

/-! ## `EXEC` -/

theorem exec_inside {dirty : Prop} (inside : s.Inside queue dirty) (moments : ℕ → Moment) :
    (dirty → Aborts s (s.exec cfg moments).2 [(s.exec cfg moments).1]) ∧
      (¬dirty → (s.exec cfg moments).1 ≠ execAbort ∧
        (RefusesWhole queue s (s.exec cfg moments).2 [(s.exec cfg moments).1] ∨
          RunsAll cfg moments queue s (s.exec cfg moments).2 [(s.exec cfg moments).1])) := by
  unfold Session.exec
  rw [inside.opened]
  dsimp only
  constructor
  · intro poisoned
    rw [if_pos (inside.dirty_iff.mpr poisoned)]
    exact ⟨rfl, rfl⟩
  · intro clean
    rw [if_neg (mt inside.dirty_iff.mp clean)]
    split_ifs with readOnly failed changed
    · rw [Bool.and_eq_true] at readOnly
      exact ⟨by simp [readOnlyReplica, execAbort], .inl ⟨rfl, .inl ⟨readOnly.2, readOnly.1, rfl⟩⟩⟩
    · simp only [Bool.and_eq_true, Bool.not_eq_true'] at failed
      exact ⟨by simp [unhealthy, execAbort], .inl ⟨rfl, .inr (.inl ⟨failed.1, failed.2, rfl⟩)⟩⟩
    · exact ⟨nofun, .inl ⟨rfl, .inr (.inr ⟨changed, rfl⟩)⟩⟩
    · exact ⟨nofun, .inr ⟨rfl, rfl⟩⟩

/-- `EXEC` is in nobody's scope and no session command: it always reaches the transaction. -/
theorem handleFrame_exec (authenticated : s.conn.authenticated = true) {raw : Bytes}
    (exec : commandOf raw = some .exec) (moments : ℕ → Moment) (together : Bool) :
    s.handleFrame cfg moments together raw =
      ([((s.wake together).exec cfg moments).1], ((s.wake together).exec cfg moments).2) := by
  unfold commandOf at exec
  split at exec
  · next value n parse =>
    have decoded : fromValue value = .ok .exec := by
      cases decoded : fromValue value with
      | error e => simp [decoded, Except.toOption] at exec
      | ok cmd => simpa [decoded, Except.toOption] using exec
    simp only [Session.handleFrame, parse, decoded]
    rw [parsed_of_not_session (s := s.wake together) authenticated rfl]
    have free : (s.wake together).refusal cfg .exec = none := by
      unfold Session.refusal
      split_ifs <;> rfl
    rw [free]
    rfl
  · cases exec

/-- A transaction is all or nothing unless a frame is refused early and no frame poisons it. -/
theorem all_or_nothing_iff (cfg : ServerConfig) {s : Session} (idle : s.conn.multiQueue = none)
    (authenticated : s.conn.authenticated = true) {events : List Interim}
    (stay : ∀ e ∈ events, ∀ cmd ∈ e.command, cmd ≠ .discard ∧ cmd ≠ .exec) {raw : Bytes}
    (exec : commandOf raw = some .exec) (moments : ℕ → Moment) (together : Bool) :
    let (exchanges, s₁) := s.multi.2.history cfg events
    let (replies, s₂) := s₁.handleFrame cfg moments together raw
    AllOrNothing cfg exchanges moments s₁ s₂ replies ↔
      (∀ x ∈ exchanges, ¬x.RefusedEarly cfg) ∨ ∃ x ∈ exchanges, x.Poisons cfg := by
  have opened : s.multi.2.Inside [] False := by
    simp only [Session.multi, idle, Option.isSome_none, Bool.false_eq_true, if_false]
    exact ⟨rfl, by simp, authenticated⟩
  obtain ⟨inside, refused⟩ := history_inside opened stay
  generalize s.multi.2.history cfg events = h at inside refused ⊢
  obtain ⟨exchanges, s₁⟩ := h
  dsimp only at inside refused ⊢
  rw [handleFrame_exec inside.authenticated exec]
  rw [List.nil_append, false_or] at inside
  obtain ⟨aborts, runs⟩ := exec_inside (inside.wake together) moments
  constructor
  · rintro ⟨discards, -⟩
    by_contra neither
    obtain ⟨early, clean⟩ := not_or.mp neither
    push Not at early
    obtain ⟨x, mem, early⟩ := early
    have discarded := discards ⟨x, mem, (refused x mem).mpr (.inl early)⟩
    exact (runs clean).1 (List.singleton_inj.mp discarded.1)
  · intro condition
    refine ⟨fun ⟨x, mem, wasRefused⟩ => aborts ?_, fun none => (runs ?_).2⟩
    · obtain early | poisons := (refused x mem).mp wasRefused
      · exact condition.resolve_left fun never => never x mem early
      · exact ⟨x, mem, poisons⟩
    · rintro ⟨x, mem, poisons⟩
      exact none x mem ((refused x mem).mpr (.inr poisons))

end

/-! ## A scoped connection -/

/-- The frame of a request. -/
def request (parts : List String) : Bytes := (arrayOf (parts.map bulk)).serialize

def ServerConfig.scoped : ServerConfig where
  codec := .literals
  strict := true
  verifySyncToken _ := .error "invalid"
  maxMultiQueueLen := 1000
  maxWatchesPerConn := 100
  maxPubSubSubscriptionsPerConn := 100
  maxQSubsPerConn := 64
  maxQSubInitialKeys := 10000
  watchItemBytes := 0
  pubSubItemBytes := 0

/-- A WebSocket connection with access to the key `a`. -/
def scopedSession : Session where
  conn := { transport := .ws, id := 1, authenticated := true, protover := 3, syncScopes := some ["a"] }
  node := { server := { store := {} } }

def ServerFacts.bare : ServerFacts where
  version := "0.3.0"
  info _ := ""
  clientInfo _ := ""
  clientList := ""
  catalog := []
  maxConnections := 0
  tcpPort := 6379
  tlsEnabled := false
  authEnabled := false
  aofEnabled := false

def atStart (_ : ℕ) : Moment := { env := .fixed 0, facts := .bare }

/-- A command out of scope and one that is queued. -/
def refusedThenQueued : List Interim :=
  [.frame atStart false (request ["SET", "b", "1"]), .frame atStart false (request ["SET", "a", "1"])]

/-- After a command out of scope `EXEC` runs the rest of the transaction. -/
theorem out_of_scope_runs :
    ¬(let (exchanges, s₁) := scopedSession.multi.2.history .scoped refusedThenQueued
      let (replies, s₂) := s₁.handleFrame .scoped atStart false (request ["EXEC"])
      AllOrNothing .scoped exchanges atStart s₁ s₂ replies) := by
  rintro ⟨aborts, -⟩
  have refused : Exchange.Refused ⟨scopedSession.multi.2, .frame atStart false (request ["SET", "b", "1"]),
      [.error "NOSCOPE key 'b' is outside this connection's sync scopes"]⟩ := by
    refine ⟨⟨_, List.mem_singleton_self _⟩, ?_⟩
    rintro cmd ⟨⟩
    rfl
  obtain ⟨discarded, -⟩ := aborts ⟨_, List.mem_cons_self, refused⟩
  exact absurd (List.singleton_inj.mp discarded) nofun

/-- A command out of scope and one without its key. -/
def refusedThenPoisoned : List Interim :=
  [.frame atStart false (request ["SET", "b", "1"]), .frame atStart false (request ["GET"])]

theorem all_or_nothing_iff_get :
    let (exchanges, s₁) := scopedSession.multi.2.history .scoped refusedThenPoisoned
    let (replies, s₂) := s₁.handleFrame .scoped atStart false (request ["EXEC"])
    replies = [execAbort] ∧ AllOrNothing .scoped exchanges atStart s₁ s₂ replies := by
  have condition := @all_or_nothing_iff .scoped scopedSession rfl rfl refusedThenPoisoned ?_
    (request ["EXEC"]) rfl atStart false
  · exact ⟨rfl, condition.mpr (.inr ⟨_, List.mem_cons_of_mem _ List.mem_cons_self, trivial⟩)⟩
  · intro e he cmd hcmd
    rcases List.mem_cons.mp he with rfl | he
    · cases hcmd
      exact ⟨nofun, nofun⟩
    · obtain rfl := List.mem_singleton.mp he
      cases hcmd

end Recached
