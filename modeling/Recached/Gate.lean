import Recached.Server

/-!
# The password

A server with a password hears from a stranger only greetings and attempts to log in.  Whoever is
authenticated has sent the password, whoever has not sent it gets a few attempts, leaves no trace on the
node or on the other clients, and hears nothing that it does not know.
-/

namespace Recached

/-! ## Strangers -/

/-- A connection that has never been authenticated. -/
structure Connection.Stranger (conn : Connection) : Prop where
  authenticated : conn.authenticated = false
  multiQueue : conn.multiQueue = none
  channels : conn.subscribedChannels = []
  patterns : conn.subscribedPatterns = []
  isSubscribed : conn.isSubscribed = false
  watchedKeys : conn.watchedKeys = []
  qSubPatterns : conn.qSubPatterns = []

namespace Connection

/-- Another attempt with a wrong password. -/
def miss (conn : Connection) : Value × Connection :=
  if maxAuthFailures ≤ conn.authFailures + 1 then
    (.error "ERR too many authentication failures",
      { conn with authFailures := conn.authFailures + 1, closed := true })
  else (.error "ERR invalid password", { conn with authFailures := conn.authFailures + 1 })

/-- What a stranger's command does to it and lets it hear.  `HELLO` answers as on any server. -/
def address (cmd : Command) (conn : Connection) : Value × Connection :=
  match cmd with
  | .auth _ => conn.miss
  | .hello requested => handleHello .bare requested false conn
  | .quit => (ok, { conn with closed := true })
  | _ => (.error "NOAUTH Authentication required.", conn)

/-- What any bytes of a stranger do. -/
def knock (raw : Bytes) (conn : Connection) : List Value × Connection :=
  match Value.parse raw with
  | .error e => (protocolError conn.transport e, conn)
  | .ok (value, _) =>
    match fromValue value with
    | .error e => ([.error e], conn)
    | .ok cmd => ([(conn.address cmd).1], (conn.address cmd).2)

end Connection

/-- The bytes ask to log in with the password. -/
def Presents (password : String) (raw : Bytes) : Prop := commandOf raw = some (.auth password)

/-- The bytes ask to log in. -/
def asksToLogIn (raw : Bytes) : Bool := (commandOf raw).any (· matches .auth _)

section

variable {cfg : ServerConfig} {password : String} {conn : Connection} {raw : Bytes}

theorem commandOf_error {e : ParseError} (broken : Value.parse raw = .error e) : commandOf raw = none := by
  rw [commandOf, broken]

theorem commandOf_unread {value : Value} {n : ℕ} (read : Value.parse raw = .ok (value, n)) :
    commandOf raw = (fromValue value).toOption := by rw [commandOf, read]

/-- The version asked for decides what `HELLO` tells a stranger. -/
theorem handleHello_of_stranger (unknown : conn.authenticated = false) (facts facts' : ServerFacts)
    (replica replica' : Bool) (requested : Option String) :
    handleHello facts requested replica conn = handleHello facts' requested replica' conn := by
  have same (protover : ℕ) : processHello facts requested protover conn.authenticated replica =
      processHello facts' requested protover conn.authenticated replica' := by
    unfold processHello
    dsimp only
    split
    · rfl
    · rw [unknown]
      rfl
  unfold handleHello
  rw [same, same]

theorem processAuth_wrong (secret : cfg.password = some password) {pwd : String} (wrong : pwd ≠ password)
    (conn : Connection) : processAuth cfg pwd conn = conn.miss := by
  simp only [processAuth, secret, if_neg wrong, Connection.miss]

theorem processAuth_right (secret : cfg.password = some password) (conn : Connection) :
    processAuth cfg password conn = (ok, { conn with authenticated := true, authFailures := 0 }) := by
  simp only [processAuth, secret, if_true]

namespace Connection.Stranger

variable (stranger : conn.Stranger)
include stranger

theorem wake (together : Bool) (node : Node) :
    Session.wake together ⟨conn, node⟩ = ⟨conn, node⟩ := by
  have none : conn.subscriptions = 0 := by
    rw [Connection.subscriptions, stranger.channels, stranger.patterns]
    rfl
  have asleep : conn.isSubscribed = false := stranger.isSubscribed
  cases conn
  simp only [Session.wake] at none asleep ⊢
  subst asleep
  simp [none]

/-- What a stranger is told does not depend on the node, and the node does not depend on what it says. -/
theorem handleFrame (secret : cfg.password = some password) (guess : ¬Presents password raw)
    (moments : ℕ → Moment) (together : Bool) (node : Node) :
    Session.handleFrame cfg moments together raw ⟨conn, node⟩ =
      ((conn.knock raw).1, ⟨(conn.knock raw).2, node⟩) := by
  unfold Session.handleFrame Connection.knock
  rw [stranger.wake]
  cases read : Value.parse raw with
  | error e => rfl
  | ok parsed =>
    dsimp only
    cases meant : fromValue parsed.1 with
    | error e =>
      have idle : ¬conn.multiQueue.isSome = true := by simp [stranger.multiQueue]
      simp only [Session.poison, if_neg idle]
    | ok cmd =>
      dsimp only
      by_cases greets : Session.isGreeting cmd = true
      · cases cmd
        case auth pwd =>
          have wrong : pwd ≠ password := by
            rintro rfl
            exact guess (by rw [Presents, commandOf_unread read, meant]; rfl)
          simp only [Session.parsed, Connection.address, processAuth_wrong secret wrong]
        case hello requested =>
          have same := @handleHello_of_stranger conn stranger.authenticated (moments 0).facts .bare
            node.replica false requested
          simp only [Session.parsed, Connection.address, same]
        case quit => rfl
        all_goals cases greets
      · rw [Bool.not_eq_true] at greets
        rw [Session.parsed_of_stranger stranger.authenticated greets]
        cases cmd
        case auth | hello | quit => cases greets
        all_goals rfl

/-- The password opens the door. -/
theorem handleFrame_right (secret : cfg.password = some password) (presents : Presents password raw)
    (moments : ℕ → Moment) (together : Bool) (node : Node) :
    (Session.handleFrame cfg moments together raw ⟨conn, node⟩).2.conn =
      { conn with authenticated := true, authFailures := 0 } := by
  rw [handleFrame_command presents, stranger.wake]
  simp only [Session.parsed, processAuth_right secret]

theorem miss : conn.miss.2.Stranger := by
  unfold Connection.miss
  split_ifs
  all_goals
    exact ⟨stranger.authenticated, stranger.multiQueue, stranger.channels, stranger.patterns,
      stranger.isSubscribed, stranger.watchedKeys, stranger.qSubPatterns⟩

end Connection.Stranger

end

end Recached
