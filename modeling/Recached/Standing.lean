import Recached.Transactions

/-!
# What a command leaves of its connection

The port of a connection, its protocol, its failed logins and whether it is open depend on the commands of
the session alone.
-/

namespace Recached

/-- The connections are on one port, at one protocol, with one count of failed logins, and both open or both
closed. -/
structure Connection.SameStanding (conn conn' : Connection) : Prop where
  transport : conn'.transport = conn.transport
  protover : conn'.protover = conn.protover
  closed : conn'.closed = conn.closed
  authFailures : conn'.authFailures = conn.authFailures

namespace Connection.SameStanding

theorem refl (conn : Connection) : conn.SameStanding conn := ⟨rfl, rfl, rfl, rfl⟩

theorem trans {conn conn' conn'' : Connection} (first : conn.SameStanding conn')
    (second : conn'.SameStanding conn'') : conn.SameStanding conn'' :=
  ⟨second.transport.trans first.transport, second.protover.trans first.protover,
    second.closed.trans first.closed, second.authFailures.trans first.authFailures⟩

end Connection.SameStanding

namespace Session

/-- The connection of a session keeps its standing. -/
abbrev Keeps (s s' : Session) : Prop := s.conn.SameStanding s'.conn

variable {cfg : ServerConfig} {m : Moment} (s : Session)

theorem keeps_poison : s.Keeps s.poison := by
  unfold poison
  split_ifs <;> exact ⟨rfl, rfl, rfl, rfl⟩

/-! ## Transactions -/

theorem keeps_multi : s.Keeps s.multi.2 := by
  unfold multi
  split_ifs <;> exact ⟨rfl, rfl, rfl, rfl⟩

theorem keeps_discard : s.Keeps s.discard.2 := by
  unfold discard
  cases s.conn.multiQueue <;> exact ⟨rfl, rfl, rfl, rfl⟩

theorem keeps_exec (moments : ℕ → Moment) : s.Keeps (s.exec cfg moments).2 := by
  unfold exec
  cases s.conn.multiQueue with
  | none => exact .refl _
  | some queue =>
    dsimp only
    split_ifs <;> exact ⟨rfl, rfl, rfl, rfl⟩

theorem keeps_enqueue (queue : List Command) (cmd : Command) : s.Keeps (s.enqueue cfg queue cmd).2 := by
  unfold enqueue
  cases queueRefusal cfg queue cmd <;> exact ⟨rfl, rfl, rfl, rfl⟩

/-! ## Subscriptions -/

variable {s}

theorem keeps_subscribe (channels : List String) : s.Keeps (s.subscribe cfg channels).2 := by
  induction channels generalizing s with
  | nil => exact .refl _
  | cons ch rest ih =>
    unfold subscribe
    split_ifs
    · exact ih
    · exact ih
    · dsimp only
      refine Connection.SameStanding.trans ?_ ih
      exact ⟨rfl, rfl, rfl, rfl⟩

theorem keeps_pSubscribe (patterns : List String) : s.Keeps (s.pSubscribe cfg patterns).2 := by
  induction patterns generalizing s with
  | nil => exact .refl _
  | cons pat rest ih =>
    unfold pSubscribe
    split_ifs
    · exact ih
    · exact ih
    · dsimp only
      refine Connection.SameStanding.trans ?_ ih
      exact ⟨rfl, rfl, rfl, rfl⟩

theorem keeps_watch (keys : List String) : s.Keeps (s.watch cfg keys).2 := by
  have joins (f : Session → String → Session) (each : ∀ s key, Keeps s (f s key)) (keys : List String)
      (s : Session) :
      s.Keeps (keys.foldl f s) := by
    induction keys generalizing s with
    | nil => exact .refl _
    | cons key keys ih => exact (each s key).trans (ih _)
  unfold watch
  split_ifs
  · exact .refl _
  · refine joins _ (fun s key => ?_) keys s
    split_ifs <;> exact ⟨rfl, rfl, rfl, rfl⟩

theorem keeps_unwatch (keys : List String) : s.Keeps (s.unwatch keys).2 := by
  unfold unwatch
  dsimp only
  split_ifs <;> exact ⟨rfl, rfl, rfl, rfl⟩

theorem keeps_qSub (pattern : String) : s.Keeps (s.qSub cfg m pattern).2 := by
  unfold qSub
  split_ifs
  · exact .refl _
  · exact .refl _
  all_goals
    cases s.node.initialQState cfg m pattern with
    | error limit => exact .refl _
    | ok values => exact ⟨rfl, rfl, rfl, rfl⟩

/-! ## Any command -/

theorem keeps_direct (cmd : Command) : s.Keeps (s.direct cfg m cmd).2 := by
  unfold direct
  dsimp only
  split_ifs
  · exact .refl _
  · exact .refl _
  · split
    all_goals first
      | exact ⟨rfl, rfl, rfl, rfl⟩
      | split <;> exact ⟨rfl, rfl, rfl, rfl⟩

theorem keeps_dispatch (cmd : Command) : s.Keeps (s.dispatch cfg m cmd).2 := by
  unfold dispatch
  cases cmd
  case subscribe channels => exact keeps_subscribe channels
  case pSubscribe patterns => exact keeps_pSubscribe patterns
  case unsubscribe | pUnsubscribe | publish => exact ⟨rfl, rfl, rfl, rfl⟩
  case watch keys => exact keeps_watch keys
  case unwatch keys => exact keeps_unwatch keys
  case qSub pattern =>
    cases s.conn.transport
    · exact keeps_direct _
    · exact keeps_qSub pattern
  case qUnsub pattern =>
    cases s.conn.transport
    · exact keeps_direct _
    · exact ⟨rfl, rfl, rfl, rfl⟩
  all_goals exact keeps_direct _

theorem keeps_queued (moments : ℕ → Moment) (cmd : Command) : s.Keeps
    (match s.conn.multiQueue with
    | some queue => ([(s.enqueue cfg queue cmd).1], (s.enqueue cfg queue cmd).2)
    | none => s.dispatch cfg (moments 0) cmd).2 := by
  cases s.conn.multiQueue with
  | none => exact keeps_dispatch cmd
  | some queue => exact keeps_enqueue s queue cmd

theorem keeps_command (moments : ℕ → Moment) (cmd : Command) : s.Keeps (s.command cfg moments cmd).2 := by
  unfold command
  cases cmd
  case multi => exact keeps_multi s
  case discard => exact keeps_discard s
  case exec => exact keeps_exec s moments
  all_goals exact keeps_queued moments _


theorem keeps_authenticated (moments : ℕ → Moment) (cmd : Command) : s.Keeps
    (if !s.conn.authenticated then ([Value.error "NOAUTH Authentication required."], s)
    else
      match syncArgs s.conn.transport cmd with
      | some args =>
        ([(handleSyncCommand cfg args s.conn.syncScopes).1], { s with conn := { s.conn with
          syncScopes := (handleSyncCommand cfg args s.conn.syncScopes).2 } })
      | none =>
        match s.refusal cfg cmd with
        | some error => ([error], s)
        | none => s.command cfg moments cmd).2 := by
  split_ifs
  · exact .refl _
  · cases syncArgs s.conn.transport cmd with
    | some args => exact ⟨rfl, rfl, rfl, rfl⟩
    | none =>
      cases s.refusal cfg cmd with
      | some error => exact .refl _
      | none => exact keeps_command moments cmd

theorem keeps_parsed (moments : ℕ → Moment) {cmd : Command}
    (other : cmd ≠ .quit ∧ (∀ pwd, cmd ≠ .auth pwd) ∧ ∀ requested, cmd ≠ .hello requested) :
    s.Keeps (s.parsed cfg moments cmd).2 := by
  unfold parsed
  cases cmd
  case quit => exact absurd rfl other.1
  case auth pwd => exact absurd rfl (other.2.1 pwd)
  case hello requested => exact absurd rfl (other.2.2 requested)
  all_goals exact keeps_authenticated moments _

/-- `HELLO` changes the protocol of a connection at most, and not that of the WebSocket port. -/
theorem keeps_hello (cfg : ServerConfig) (s : Session) (moments : ℕ → Moment) (requested : Option String) :
    let conn := (s.parsed cfg moments (.hello requested)).2.conn
    conn.transport = s.conn.transport ∧ conn.closed = s.conn.closed ∧
      conn.authFailures = s.conn.authFailures ∧ (s.conn.transport = .ws → conn.protover = s.conn.protover) := by
  intro conn
  simp only [conn, parsed, handleHello]
  cases transport : s.conn.transport with
  | tcp => exact ⟨rfl, rfl, rfl, by rintro ⟨⟩⟩
  | ws =>
    dsimp only
    split_ifs <;> exact ⟨transport, rfl, rfl, fun _ => rfl⟩

end Session

end Recached
