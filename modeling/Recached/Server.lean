import Recached.Bounded
import Recached.Lib.Runs

/-!
# Servers

A server has its node and its open connections.  Connections come and go, each of them handles its frames
and its notifications one at a time, and the sweeper and the primary of a replica change the store in between.
In every run the tables of the node are those of the open connections, and each connection is within its
limits.
-/

namespace Recached

/-! ## Connections come and go -/

/-- A connection when its handler starts. -/
def Connection.accepted (cfg : ServerConfig) (transport : Transport) (id : ℕ) : Connection where
  transport
  id
  authenticated := cfg.password.isNone
  protover := match transport with
    | .tcp => 2
    | .ws => 3
  client := { id }

namespace ServerState

/-- The keys that a connection still owns. -/
def ephemeralOf (id : ℕ) (st : ServerState) : List String :=
  (st.ephemeral.toList.filter fun e => e.2 = id).map Prod.fst

/-- Take the keys of a connection out of the registry. -/
def takeEphemeralFor (id : ℕ) (st : ServerState) : ServerState :=
  { st with ephemeral := st.ephemeral.filter fun _ owner => owner != id }

end ServerState

namespace Session

variable (cfg : ServerConfig)

/-- The handler takes a notification of a live query from its queue. -/
def queried (s : Session) : Session :=
  let channel := s.node.hub.channels s.conn.queryQueue
  { s with
    node := { s.node with
      hub := { s.node.hub with
        channels := Function.update s.node.hub.channels s.conn.queryQueue
          { channel with queue := channel.queue.tail } } } }

/-- The handler takes a publication from its queue. -/
def received (s : Session) : Session :=
  let queue := s.node.pubSub.queues s.conn.id
  { s with
    node := { s.node with
      pubSub := { s.node.pubSub with
        queues := Function.update s.node.pubSub.queues s.conn.id
          { queue with queue := queue.queue.tail } } } }

/-- The subscriptions of the connection and its watched keys have left the tables. -/
def unregistered (s : Session) : Node :=
  let pubSub := if s.conn.subscriptions = 0 then s.node.pubSub else s.node.pubSub.unsubscribeAll s.conn.id
  let hub := s.conn.watchedKeys.foldl (fun hub key => hub.unregister (.watch key) s.conn.watchQueue)
    s.node.hub
  { s.node with pubSub, hub }

/-- So have its live queries, and its keys the registry of ephemeral keys. -/
def departed (s : Session) : Node :=
  let hub := s.conn.qSubPatterns.foldl (fun hub p => hub.unregister (.qsub p) s.conn.queryQueue)
    s.unregistered.hub
  { s.unregistered with hub, server := s.node.server.takeEphemeralFor s.conn.id }

/-- The end of a connection: its registrations go, and over WebSocket the keys that it still owns, which
the registry yields in the order of `owned`. -/
def close (m : Moment) (owned : List String) (s : Session) : Node :=
  match s.conn.transport with
  | .tcp => s.unregistered
  | .ws =>
    if owned.isEmpty then s.departed
    else (s.departed.executeOrderedWrite cfg m s.conn.id (.del owned)).2

end Session

/-! ## The server -/

/-- A node and its open connections by their ids. -/
structure Server where
  node : Node
  conns : ℕ → Option Connection := fun _ => none
  nextId : ℕ := 1

inductive ServerAction where
  | accept (transport : Transport)
  | frame (id : ℕ) (moments : ℕ → Moment) (together : Bool) (raw : Bytes)
  | notified (id : ℕ)
  | queried (id : ℕ)
  | received (id : ℕ)
  | close (id : ℕ) (m : Moment) (owned : List String)
  | sweep (env : Env) (keys : List String)
  | replicated (env : Env) (bytes : Bytes)
  | install (now : ℕ) (entries : List SnapshotEntry)

namespace Server

variable (cfg : ServerConfig)

/-- What a handler has done. -/
def withSession (s : Server) (id : ℕ) (session : Session) : Server :=
  { s with node := session.node, conns := Function.update s.conns id (some session.conn) }

/-- Something that the handler of an open connection does when it can. -/
def handling (s : Server) (id : ℕ) (enabled : Session → Bool) (work : Session → Server) : Option Server :=
  (s.conns id).bind fun conn => if enabled ⟨conn, s.node⟩ then some (work ⟨conn, s.node⟩) else none

/-- The store has changed without a client. -/
def background (s : Server) (action : WatchAction) : Option Server :=
  (s.node.toWatchedNode.step cfg.codec cfg.watchItemBytes action).map fun watched =>
    { s with node := { s.node with toWatchedNode := watched } }

/-- What may happen next.  A handler waits for a queue only as long as its connection has asked for what
comes from there. -/
def step (s : Server) : ServerAction → Option Server
  | .accept transport =>
    some { s with
      conns := Function.update s.conns s.nextId (some (.accepted cfg transport s.nextId))
      nextId := s.nextId + 1 }
  | .frame id moments together raw =>
    s.handling id (fun session => !session.conn.closed) fun session =>
      s.withSession id (session.handleFrame cfg moments together raw).2
  | .notified id =>
    s.handling id (fun session => !session.conn.watchedKeys.isEmpty &&
        !(session.node.hub.channels session.conn.watchQueue).queue.isEmpty)
      fun session => s.withSession id session.notified
  | .queried id =>
    s.handling id (fun session => !session.conn.qSubPatterns.isEmpty &&
        !(session.node.hub.channels session.conn.queryQueue).queue.isEmpty)
      fun session => s.withSession id session.queried
  | .received id =>
    s.handling id (fun session => session.conn.isSubscribed &&
        !(session.node.pubSub.queues session.conn.id).queue.isEmpty)
      fun session => s.withSession id session.received
  | .close id m owned =>
    s.handling id (fun session => owned.isPerm (session.node.server.ephemeralOf id)) fun session =>
      { s with node := session.close cfg m owned, conns := Function.update s.conns id none }
  | .sweep env keys => s.background cfg (.sweep env keys)
  | .replicated env bytes => if s.node.replica then s.background cfg (.replicated env bytes) else none
  | .install now entries => if s.node.replica then s.background cfg (.install now entries) else none

theorem handling_eq_some {s s' : Server} {id : ℕ} {enabled : Session → Bool} {work : Session → Server} :
    s.handling id enabled work = some s' ↔
      ∃ conn, s.conns id = some conn ∧ enabled ⟨conn, s.node⟩ = true ∧ work ⟨conn, s.node⟩ = s' := by
  simp [handling, Option.bind_eq_some_iff]

end Server

/-! ## Owners -/

section

variable {st st' : ServerState} {origin : ℕ}

/-- The registry has no new owner but one. -/
def OwnersFrom (origin : ℕ) (st st' : ServerState) : Prop :=
  ∀ (key : String) (id : ℕ), st'.ephemeral[key]? = some id → st.ephemeral[key]? = some id ∨ id = origin

theorem OwnersFrom.of_same (same : st'.ephemeral = st.ephemeral) : OwnersFrom origin st st' :=
  fun _ _ owned => .inl (same ▸ owned)

theorem ephemeral_applyWriteEffects (now : ℕ) (cmd : Command) (reply : Value) (st : ServerState) :
    (st.applyWriteEffects now origin cmd reply).ephemeral = st.ephemeral := by
  unfold ServerState.applyWriteEffects
  split <;> rfl

theorem ephemeral_applyEvictionEffects (now : ℕ) (victims : List String) (st : ServerState) :
    (st.applyEvictionEffects now origin victims).ephemeral = st.ephemeral := by
  unfold ServerState.applyEvictionEffects
  induction victims generalizing st with
  | nil => rfl
  | cons key victims ih =>
    exact (ih _).trans (ephemeral_applyWriteEffects now (.del [key]) (.integer 1) st)

theorem ephemeral_executeQueuedWrite (codec : Codec) (env : Env) (cmd : Command) (st : ServerState) :
    (st.executeQueuedWrite codec env origin cmd).ephemeral = st.ephemeral :=
  (ephemeral_applyEvictionEffects ..).trans (ephemeral_applyWriteEffects ..)

theorem owners_commitWrite (cmd : Command) (wrapper : Option (String × ℕ)) (st : ServerState) :
    OwnersFrom origin st (st.commitWrite origin cmd wrapper) := by
  have claims (key : String) :
      OwnersFrom origin st { st with ephemeral := st.ephemeral.insert key origin } := by
    intro key' id owned
    rw [Std.ExtTreeMap.getElem?_insert] at owned
    split_ifs at owned
    · exact .inr (Option.some.inj owned).symm
    · exact .inl owned
  unfold ServerState.commitWrite
  cases wrapper with
  | none =>
    cases cmd
    case eSet key val => exact claims key
    all_goals exact .of_same rfl
  | some w =>
    cases cmd
    case eSet key val => exact claims key
    all_goals exact .of_same rfl

theorem owners_executeOrderedWrite (codec : Codec) (env : Env) (cmd : Command) (st : ServerState) :
    OwnersFrom origin st (st.executeOrderedWrite codec env origin cmd).2 := by
  have queued (cmd : Command) := @ephemeral_executeQueuedWrite origin codec env cmd st
  unfold ServerState.executeOrderedWrite
  split
  · exact .of_same rfl
  · dsimp only
    split
    · exact .of_same rfl
    · split
      · exact .of_same (queued _)
      · intro key id owned
        refine (owners_commitWrite _ _ _ key id owned).imp_left fun before => ?_
        exact (congrArg (fun owners : Std.ExtTreeMap String ℕ => owners[key]?) (queued _)).symm.trans before

theorem ephemeral_del (codec : Codec) (env : Env) (keys : List String) (st : ServerState) :
    (st.executeOrderedWrite codec env origin (.del keys)).2.ephemeral = st.ephemeral := by
  have queued := @ephemeral_executeQueuedWrite origin codec env (.del keys) st
  unfold ServerState.executeOrderedWrite
  split
  · rfl
  · dsimp only [ServerState.unwrapDedup]
    split
    · rfl
    · split
      · exact queued
      · exact queued

theorem ephemeral_applyReplFrame (codec : Codec) (env : Env) (bytes : Bytes) (st : ServerState) :
    (st.applyReplFrame codec env bytes).2.ephemeral = st.ephemeral := by
  unfold ServerState.applyReplFrame
  split
  · rfl
  · split <;> rfl

theorem OwnersFrom.trans {st'' : ServerState} (h : OwnersFrom origin st st')
    (h' : OwnersFrom origin st' st'') : OwnersFrom origin st st'' := by
  intro key id owned
  rcases h' key id owned with before | new
  · exact h key id before
  · exact .inr new

theorem owners_wrote (cfg : ServerConfig) (m : Moment) (node : Node) {server : ServerState}
    (owners : OwnersFrom origin node.server server) :
    OwnersFrom origin node.server (node.wrote cfg m server).server := by
  unfold Node.wrote
  split_ifs <;> exact owners

theorem ephemeral_wrote (cfg : ServerConfig) (m : Moment) (node : Node) (server : ServerState) :
    (node.wrote cfg m server).server.ephemeral = server.ephemeral := by
  unfold Node.wrote
  split_ifs <;> rfl

theorem owners_save (m : Moment) (node : Node) :
    OwnersFrom origin node.server (node.save m).2.server := by
  unfold Node.save
  split <;> exact .of_same rfl

end

theorem Connection.origin_eq {conn conn' : Connection} (own : conn'.id = conn.id)
    (port : conn'.transport = conn.transport) : conn'.origin = conn.origin := by
  unfold origin
  rw [own, port]

namespace Session

variable {cfg : ServerConfig} {may : Bool} {s s' : Session}

/-- A connection makes no one an owner but itself. -/
theorem Move.owners (move : Move cfg may s s') : OwnersFrom s.conn.origin s.node.server s'.node.server := by
  rcases move with greets | ⟨-, asks | ⟨-, forgets⟩⟩
  · have same : s'.node = s.node := greets.spares.2.2
    exact .of_same (by rw [same])
  · cases asks with
    | read m cmd read => exact .of_same rfl
    | write m cmd write primary =>
      exact owners_wrote cfg m s.node (owners_executeOrderedWrite cfg.codec m.env cmd s.node.server)
    | queued m cmd write primary =>
      exact owners_wrote cfg m s.node (.of_same (ephemeral_executeQueuedWrite ..))
    | save m => exact owners_save m s.node
    | _ => exact .of_same rfl
  · cases forgets <;> exact .of_same rfl

theorem Moves.owners (moves : Moves cfg may s s') (sound : s.Sound cfg) :
    OwnersFrom s.conn.origin s.node.server s'.node.server := by
  induction moves with
  | refl => exact .of_same rfl
  | tail moves move ih =>
    obtain ⟨-, own, port, -⟩ := Moves.sound moves sound
    exact ih.trans (Connection.origin_eq own port ▸ move.owners)

end Session

/-! ## Runs -/

/-- The tables are those of the open connections, and each connection is within its limits. -/
structure Server.Sound (cfg : ServerConfig) (s : Server) : Prop where
  next : 0 < s.nextId
  ids : ∀ id conn, s.conns id = some conn → conn.id = id ∧ 0 < id ∧ id < s.nextId
  tidy : s.node.Tidy
  bounded : ∀ id conn, s.conns id = some conn → conn.Bounded cfg
  linked : ∀ id conn, s.conns id = some conn → s.node.Linked conn
  closed : ∀ id, s.conns id = none → ∀ i, ¬s.node.Holds id i
  owners : ∀ (key : String) (id : ℕ), s.node.server.ephemeral[key]? = some id → id ≠ 0 →
    ∃ conn, s.conns id = some conn ∧ conn.transport = .ws

namespace Server

variable {cfg : ServerConfig} {s s' : Server}

/-- What everyone is spared keeps a server in order. -/
theorem Sound.spared (sound : s.Sound cfg) {node : Node} (tidy : node.Tidy)
    (spares : ∀ id, Node.Spares id s.node node)
    (owners : node.server.ephemeral = s.node.server.ephemeral) : Sound cfg { s with node } where
  next := sound.next
  ids := sound.ids
  tidy := tidy
  bounded := sound.bounded
  linked id conn there := by
    obtain ⟨own, -⟩ := sound.ids id conn there
    exact (sound.linked id conn there).spared (own ▸ spares id)
  closed id gone i holds := sound.closed id gone i ((spares id).gained i holds)
  owners key id owned := sound.owners key id (owners ▸ owned)

/-- The handler of an open connection has done something and is in order afterwards. -/
theorem Sound.replaced (sound : s.Sound cfg) {id : ℕ} {conn : Connection} (there : s.conns id = some conn)
    {session : Session} (after : session.Sound cfg) (own : session.conn.id = conn.id)
    (port : session.conn.transport = conn.transport)
    (spares : ∀ other ≠ conn.id, Node.Spares other s.node session.node)
    (owners : OwnersFrom conn.origin s.node.server session.node.server) :
    (s.withSession id session).Sound cfg := by
  obtain ⟨self, positive, fresh⟩ := sound.ids id conn there
  have place {other : ℕ} {conn' : Connection}
      (there' : (s.withSession id session).conns other = some conn') :
      other = id ∧ conn' = session.conn ∨ other ≠ id ∧ s.conns other = some conn' := by
    by_cases same : other = id
    · subst same
      exact .inl ⟨rfl, by simpa [withSession, eq_comm] using there'⟩
    · exact .inr ⟨same, by simpa [withSession, same] using there'⟩
  exact {
    next := sound.next
    ids := fun other conn' there' => by
      rcases place there' with ⟨rfl, rfl⟩ | ⟨other, there'⟩
      · exact ⟨own.trans self, positive, fresh⟩
      · exact sound.ids _ conn' there'
    tidy := after.tidy
    bounded := fun other conn' there' => by
      rcases place there' with ⟨rfl, rfl⟩ | ⟨other, there'⟩
      · exact after.bounded
      · exact sound.bounded _ conn' there'
    linked := fun other conn' there' => by
      rcases place there' with ⟨rfl, rfl⟩ | ⟨other, there'⟩
      · exact after.linked
      · have same := (sound.ids _ conn' there').1
        exact (sound.linked _ conn' there').spared (same ▸ spares _ (self ▸ other))
    closed := fun other gone i holds => by
      have apart : other ≠ id := by
        rintro rfl
        simp [withSession] at gone
      have gone : s.conns other = none := by simpa [withSession, apart] using gone
      exact sound.closed other gone i ((spares other (self ▸ apart)).gained i holds)
    owners := fun key owner owned nonzero => by
      rcases owners key owner owned with old | rfl
      · obtain ⟨conn', there', ws⟩ := sound.owners key owner old nonzero
        by_cases same : owner = id
        · subst same
          obtain rfl := Option.some.inj (there.symm.trans there')
          exact ⟨session.conn, by simp [withSession], port.trans ws⟩
        · exact ⟨conn', by simpa [withSession, same] using there', ws⟩
      · cases transport : conn.transport with
        | tcp => simp [Connection.origin, transport] at nonzero
        | ws =>
          have origin : conn.origin = id := by simpa [Connection.origin, transport] using self
          exact ⟨session.conn, by simp [withSession, origin], port.trans transport⟩ }

theorem Sound.session (sound : s.Sound cfg) {id : ℕ} {conn : Connection} (there : s.conns id = some conn) :
    Session.Sound cfg ⟨conn, s.node⟩ :=
  ⟨sound.bounded id conn there, sound.tidy, sound.linked id conn there⟩

/-- The handler of an open connection has made its moves. -/
theorem Sound.moved (sound : s.Sound cfg) {id : ℕ} {conn : Connection} (there : s.conns id = some conn)
    {may : Bool} {session : Session} (moves : Session.Moves cfg may ⟨conn, s.node⟩ session) :
    (s.withSession id session).Sound cfg := by
  have before := sound.session there
  obtain ⟨after, own, port, spares⟩ := Session.Moves.sound moves before
  exact sound.replaced there after own port spares (Session.Moves.owners moves before)

/-- The handler has taken something from one of its queues. -/
theorem Sound.emptied (sound : s.Sound cfg) {id : ℕ} {conn : Connection} (there : s.conns id = some conn)
    {session : Session} (same : conn.SameSets session.conn)
    (transaction : session.conn.multiQueue = conn.multiQueue)
    (server : session.node.server = s.node.server) (tidy : session.node.Tidy)
    (leaves : Node.Leaves conn.id (fun _ => False) s.node session.node) :
    (s.withSession id session).Sound cfg := by
  obtain ⟨bounded, -, linked⟩ := sound.session there
  have after : session.Sound cfg :=
    ⟨same.bounded (transaction ▸ bounded.queue) bounded, tidy,
      linked.leaves leaves same.id fun j => (same.wants j).trans (by simp)⟩
  exact sound.replaced there after same.id same.transport (fun other => leaves.spares)
    (.of_same (by rw [server]))

/-- No table has a connection that has just come. -/
theorem Sound.accepted (sound : s.Sound cfg) (transport : Transport) :
    Sound cfg { s with
      conns := Function.update s.conns s.nextId (some (.accepted cfg transport s.nextId))
      nextId := s.nextId + 1 } := by
  have fresh : s.conns s.nextId = none := by
    cases there : s.conns s.nextId with
    | none => rfl
    | some conn => exact absurd (sound.ids _ conn there).2.2 (lt_irrefl _)
  have place {id : ℕ} {conn : Connection}
      (there : Function.update s.conns s.nextId (some (.accepted cfg transport s.nextId)) id = some conn) :
      id = s.nextId ∧ conn = .accepted cfg transport s.nextId ∨ id ≠ s.nextId ∧ s.conns id = some conn := by
    by_cases same : id = s.nextId
    · subst same
      exact .inl ⟨rfl, by simpa [eq_comm] using there⟩
    · exact .inr ⟨same, by simpa [same] using there⟩
  exact {
    next := Nat.succ_pos _
    ids := fun id conn there => by
      rcases place there with ⟨rfl, rfl⟩ | ⟨-, there⟩
      · exact ⟨rfl, sound.next, Nat.lt_succ_self _⟩
      · obtain ⟨own, positive, old⟩ := sound.ids id conn there
        exact ⟨own, positive, Nat.lt_succ_of_lt old⟩
    tidy := sound.tidy
    bounded := fun id conn there => by
      rcases place there with ⟨rfl, rfl⟩ | ⟨-, there⟩
      · exact {
          watchedKeys := List.nodup_nil
          watches := Nat.zero_le _
          qSubPatterns := List.nodup_nil
          qSubs := Nat.zero_le _
          channels := List.nodup_nil
          patterns := List.nodup_nil
          subscriptions := Nat.zero_le _
          queue := fun queue opened => by cases opened
          tcp := fun _ => rfl }
      · exact sound.bounded id conn there
    linked := fun id conn there => by
      rcases place there with ⟨rfl, rfl⟩ | ⟨-, there⟩
      · refine ⟨fun i holds => absurd holds (sound.closed _ fresh i), fun i wants => ?_⟩
        cases i <;> cases wants
      · exact sound.linked id conn there
    closed := fun id gone i => by
      have apart : id ≠ s.nextId := by
        rintro rfl
        simp at gone
      exact sound.closed id (by simpa [apart] using gone) i
    owners := fun key id owned nonzero => by
      obtain ⟨conn, there, ws⟩ := sound.owners key id owned nonzero
      have apart : id ≠ s.nextId := by
        rintro rfl
        cases fresh.symm.trans there
      exact ⟨conn, by simpa [apart] using there, ws⟩ }

/-- What the end of a connection does to the tables of subscriptions and of watched keys. -/
theorem unregistered_leaves {session : Session} (tidy : session.node.Tidy) :
    session.unregistered.Tidy ∧ Node.Leaves session.conn.id (fun j =>
      (j.Published ∧ session.conn.subscriptions ≠ 0) ∨ ∃ key ∈ session.conn.watchedKeys, j = .watch key)
      session.node session.unregistered := by
  have first : Node.Tidy { session.node with
      pubSub := if session.conn.subscriptions = 0 then session.node.pubSub
        else session.node.pubSub.unsubscribeAll session.conn.id } ∧
      Node.Leaves session.conn.id (fun j => j.Published ∧ session.conn.subscriptions ≠ 0) session.node
        { session.node with
          pubSub := if session.conn.subscriptions = 0 then session.node.pubSub
            else session.node.pubSub.unsubscribeAll session.conn.id } := by
    split_ifs with none
    · exact ⟨tidy, (Node.Leaves.refl session.conn.id session.node).congr fun j => by simp [none]⟩
    · exact ⟨⟨tidy.hub, tidy.watches, tidy.queries, tidy.pubSub.unsubscribeAll session.conn.id⟩,
        (Node.unsubscribeAll_leaves session.node session.conn.id).congr fun j => by simp [none]⟩
  exact ⟨first.1.unregisterEach .watch _ _, first.2.trans (Node.unwatch_leaves _ session.conn.id _)⟩

theorem published_of_wants {conn : Connection} {j : Interest} (wants : conn.Wants j)
    (published : j.Published) : conn.subscriptions ≠ 0 := by
  unfold Connection.subscriptions
  cases j with
  | watch | query => cases published
  | channel ch =>
    have some := List.length_pos_of_mem (show ch ∈ conn.subscribedChannels from wants)
    omega
  | pattern pat =>
    have some := List.length_pos_of_mem (show pat ∈ conn.subscribedPatterns from wants)
    omega

/-- The end of a connection leaves nothing of it in the tables and spares the others. -/
theorem close_leaves {session : Session} (sound : session.Sound cfg) (m : Moment) (owned : List String) :
    (session.close cfg m owned).Tidy ∧ (∀ i, ¬(session.close cfg m owned).Holds session.conn.id i) ∧
      ∀ id ≠ session.conn.id, Node.Spares id session.node (session.close cfg m owned) := by
  obtain ⟨bounded, tidy, linked⟩ := sound
  obtain ⟨tidy', leaves⟩ := unregistered_leaves tidy
  have stays {gone : Interest → Prop} {node : Node}
      (leaves : Node.Leaves session.conn.id gone session.node node)
      (all : ∀ j, session.conn.Wants j → gone j) (i : Interest) : ¬node.Holds session.conn.id i := by
    intro holds
    obtain ⟨old, stays⟩ := (leaves.holds _ i).mp holds
    exact stays ⟨rfl, all i (linked.known i old)⟩
  unfold Session.close
  cases port : session.conn.transport with
  | tcp =>
    refine ⟨tidy', stays leaves fun j wants => ?_, fun id other => leaves.spares other⟩
    cases j with
    | watch key => exact .inr ⟨key, wants, rfl⟩
    | query pattern =>
      have held : pattern ∈ session.conn.qSubPatterns := wants
      rw [bounded.tcp port] at held
      cases held
    | channel ch => exact .inl ⟨trivial, published_of_wants wants trivial⟩
    | pattern pat => exact .inl ⟨trivial, published_of_wants wants trivial⟩
  | ws =>
    have both := leaves.trans
      (Node.unquery_leaves session.unregistered session.conn.id session.conn.qSubPatterns)
    have taken : Node.Leaves session.conn.id _ session.node session.departed := ⟨both.told, both.holds⟩
    have tidy'' : session.departed.Tidy :=
      (tidy'.unregisterEach .qsub session.conn.queryQueue session.conn.qSubPatterns).of_same rfl rfl
    have none := stays taken fun j wants => by
      cases j with
      | watch key => exact .inl (.inr ⟨key, wants, rfl⟩)
      | query pattern => exact .inr ⟨pattern, wants, rfl⟩
      | channel ch => exact .inl (.inl ⟨trivial, published_of_wants wants trivial⟩)
      | pattern pat => exact .inl (.inl ⟨trivial, published_of_wants wants trivial⟩)
    dsimp only
    split_ifs
    · exact ⟨tidy'', none, fun id other => taken.spares other⟩
    · have deleted (id : ℕ) : Node.Spares id session.departed
          (session.departed.executeOrderedWrite cfg m session.conn.id (.del owned)).2 :=
        Node.announced_spares cfg session.departed _ [] _ id
      exact ⟨Node.announced_tidy cfg tidy'' _ [] _, fun i holds => none i ((deleted _).gained i holds),
        fun id other => (taken.spares other).trans (deleted id)⟩

/-- A connection that has ended owns no key any more. -/
theorem owners_close {session : Session} (m : Moment) (owned : List String) (key : String) (id : ℕ)
    (owns : (session.close cfg m owned).server.ephemeral[key]? = some id) :
    session.node.server.ephemeral[key]? = some id ∧
      (session.conn.transport = .ws → id ≠ session.conn.id) := by
  have same (port : session.conn.transport = .ws) :
      (session.close cfg m owned).server.ephemeral = session.departed.server.ephemeral := by
    unfold Session.close
    rw [port]
    dsimp only
    split_ifs
    · rfl
    · exact (ephemeral_wrote ..).trans (ephemeral_del ..)
  cases port : session.conn.transport with
  | tcp =>
    unfold Session.close at owns
    rw [port] at owns
    exact ⟨owns, by rintro ⟨⟩⟩
  | ws =>
    rw [same port] at owns
    have kept : (session.node.server.ephemeral.filter fun _ owner => owner != session.conn.id)[key]? =
      some id := owns
    rw [Std.ExtTreeMap.getElem?_filter', Option.filter_eq_some_iff] at kept
    exact ⟨kept.1, fun _ => by simpa using kept.2⟩

theorem Sound.closes (sound : s.Sound cfg) {id : ℕ} {conn : Connection} (there : s.conns id = some conn)
    (m : Moment) (owned : List String) :
    Sound cfg { s with
      node := Session.close cfg m owned ⟨conn, s.node⟩, conns := Function.update s.conns id none } := by
  obtain ⟨self, positive, fresh⟩ := sound.ids id conn there
  obtain ⟨tidy, none, spares⟩ := close_leaves (sound.session there) m owned
  have place {other : ℕ} {conn' : Connection}
      (there' : Function.update s.conns id Option.none other = some conn') :
      other ≠ id ∧ s.conns other = some conn' := by
    by_cases same : other = id
    · subst same
      simp at there'
    · exact ⟨same, by simpa [same] using there'⟩
  exact {
    next := sound.next
    ids := fun other conn' there' => sound.ids other conn' (place there').2
    tidy
    bounded := fun other conn' there' => sound.bounded other conn' (place there').2
    linked := fun other conn' there' => by
      obtain ⟨apart, there'⟩ := place there'
      have same := (sound.ids other conn' there').1
      exact (sound.linked other conn' there').spared (same ▸ spares other (self ▸ apart))
    closed := fun other gone i holds => by
      by_cases same : other = id
      · subst same
        exact none i (self ▸ holds)
      · have gone : s.conns other = Option.none := by simpa [same] using gone
        exact sound.closed other gone i ((spares other (self ▸ same)).gained i holds)
    owners := fun key owner owned' nonzero => by
      obtain ⟨before, other⟩ := owners_close m owned key owner owned'
      obtain ⟨conn', there', ws⟩ := sound.owners key owner before nonzero
      have apart : owner ≠ id := by
        rintro rfl
        obtain rfl := Option.some.inj (there.symm.trans there')
        exact other ws self.symm
      exact ⟨conn', by simpa [apart] using there', ws⟩ }

theorem background_eq_some {action : WatchAction} (ran : s.background cfg action = some s') :
    ∃ watched, s.node.toWatchedNode.step cfg.codec cfg.watchItemBytes action = some watched ∧
      { s with node := { s.node with toWatchedNode := watched } } = s' := Option.map_eq_some_iff.mp ran

theorem Sound.swept (sound : s.Sound cfg) {env : Env} {keys : List String}
    (ran : s.background cfg (.sweep env keys) = some s') : s'.Sound cfg := by
  obtain ⟨watched, swept, rfl⟩ := background_eq_some ran
  obtain rfl := Option.some.inj swept
  exact sound.spared (Node.announced_tidy cfg sound.tidy ..)
    (fun id => Node.announced_spares cfg s.node _ _ _ id) (ephemeral_applyEvictionEffects ..)

theorem Sound.replicated (sound : s.Sound cfg) {env : Env} {bytes : Bytes}
    (ran : s.background cfg (.replicated env bytes) = some s') : s'.Sound cfg := by
  obtain ⟨watched, applied, rfl⟩ := background_eq_some ran
  obtain rfl := Option.some.inj applied
  exact sound.spared (sound.tidy.of_same rfl rfl) (fun id => .of_same rfl rfl)
    (ephemeral_applyReplFrame ..)

theorem Sound.installed (sound : s.Sound cfg) {now : ℕ} {entries : List SnapshotEntry}
    (ran : s.background cfg (.install now entries) = some s') : s'.Sound cfg := by
  obtain ⟨watched, installed, rfl⟩ := background_eq_some ran
  obtain rfl := Option.some.inj installed
  exact sound.spared (sound.tidy.of_same rfl rfl) (fun id => .of_same rfl rfl) rfl

theorem Sound.step (sound : s.Sound cfg) (action : ServerAction) (next : s.step cfg action = some s') :
    s'.Sound cfg := by
  cases action with
  | accept transport =>
    obtain rfl := Option.some.inj next
    exact sound.accepted transport
  | frame id moments together raw =>
    dsimp only [Server.step] at next
    obtain ⟨conn, there, -, rfl⟩ := handling_eq_some.mp next
    exact sound.moved there (Session.handleFrame_moves moments together raw)
  | notified id =>
    dsimp only [Server.step] at next
    obtain ⟨conn, there, -, rfl⟩ := handling_eq_some.mp next
    refine sound.emptied there ⟨rfl, rfl, rfl, rfl, rfl, rfl⟩ rfl rfl ?_ (Node.taken_leaves s.node _ _ _)
    exact sound.tidy.fewer ⟨.refl _, .refl _⟩
  | queried id =>
    dsimp only [Server.step] at next
    obtain ⟨conn, there, -, rfl⟩ := handling_eq_some.mp next
    refine sound.emptied there ⟨rfl, rfl, rfl, rfl, rfl, rfl⟩ rfl rfl ?_ (Node.taken_leaves s.node _ _ _)
    exact sound.tidy.fewer ⟨.refl _, .refl _⟩
  | received id =>
    dsimp only [Server.step] at next
    obtain ⟨conn, there, -, rfl⟩ := handling_eq_some.mp next
    refine sound.emptied there ⟨rfl, rfl, rfl, rfl, rfl, rfl⟩ rfl rfl ?_ (Node.received_leaves s.node _ _ _)
    exact ⟨sound.tidy.hub, sound.tidy.watches, sound.tidy.queries,
      ⟨sound.tidy.pubSub.channels, sound.tidy.pubSub.patterns⟩⟩
  | close id m owned =>
    dsimp only [Server.step] at next
    obtain ⟨conn, there, -, rfl⟩ := handling_eq_some.mp next
    exact sound.closes there m owned
  | sweep env keys => exact sound.swept next
  | replicated env bytes =>
    simp only [Server.step] at next
    split_ifs at next
    exact sound.replicated next
  | install now entries =>
    simp only [Server.step] at next
    split_ifs at next
    exact sound.installed next

/-- A server without connections is in order when its hubs are empty. -/
theorem Sound.start {node : Node} (hub : node.hub.map = [] ∧ node.hub.patterns = [])
    (pubSub : node.pubSub.channelSubs = [] ∧ node.pubSub.patternSubs = [])
    (owners : node.server.ephemeral = ∅) : Sound cfg { node } := by
  have empty (id : ℕ) (i : Interest) : ¬node.Holds id i := by
    cases i <;> simp [Node.Holds, WatchHub.Registered, WatchHub.mapOf, PubSubHub.Registered,
      Multimap.Lists, hub, pubSub]
  exact {
    next := Nat.one_pos
    ids := fun id conn there => by cases there
    tidy := {
      hub := ⟨hub.1 ▸ Multimap.wf_nil.toDistinct, hub.2 ▸ Multimap.wf_nil.toDistinct⟩
      watches := fun key queue there => by
        simp [WatchHub.Registered, WatchHub.mapOf, hub] at there
      queries := fun pattern queue there => by
        simp [WatchHub.Registered, WatchHub.mapOf, hub] at there
      pubSub := ⟨pubSub.1 ▸ Multimap.wf_nil, pubSub.2 ▸ List.nodup_nil⟩ }
    bounded := fun id conn there => by cases there
    linked := fun id conn there => by cases there
    closed := fun id _ => empty id
    owners := fun key id owned => by simp [owners] at owned }

end Server

end Recached
