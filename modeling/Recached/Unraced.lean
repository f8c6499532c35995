import Recached.Footprint
import Recached.Server

/-!
# Transactions and watched keys

While a connection watches a key, every change of the key is queued for it or overflows its queue, whoever
makes the change, and a connection that has been warned stays so until it forgets its watches.  So a
transaction that runs found its keys as they were.
-/

namespace Recached

open WatchChannel

/-- The live state of the key has another type or value. -/
def Alters (now : ℕ) (d d' : Data) (k : String) : Prop :=
  shown (Lapse.live now d k) ≠ shown (Lapse.live now d' k)

theorem Alters.changed {now : ℕ} {d d' : Data} {k : String} (alters : Alters now d d' k) :
    Changed now d d' k := .inl alters

theorem not_alters_of_same {now : ℕ} {d d' : Data} {k : String} (same : d' = d) : ¬Alters now d d' k := by
  subst same
  exact fun alters => alters rfl

/-- What is no write alters nothing. -/
theorem not_alters_of_read {codec : Codec} {env : Env} {cmd : Command} {s : KeyValueStore} {k : String}
    (read : isWriteCommand cmd = false) :
    ¬Alters env.now s.data (execute codec env cmd s).2.data k := by
  have same := (executeReporting_looked codec env s (readOnly_of_not_write read)).live env.now
  intro alters
  exact alters (congrArg shown (congrFun same k)).symm

/-! ## Warnings -/

namespace Node

/-- A queue of watched keys has something in it or has overflowed. -/
def Warns (node : Node) (queue : ℕ) : Prop :=
  (node.hub.channels queue).queue ≠ [] ∨ (node.hub.channels queue).overflowed = true

/-- Between two nodes a queue has only been added to. -/
def Adds (queue : ℕ) (node node' : Node) : Prop :=
  Took [] (node.hub.channels queue) (node'.hub.channels queue)

variable {node node' node'' : Node} {queue : ℕ}

theorem Adds.of_same (same : node'.hub.channels = node.hub.channels) : Adds queue node node' := by
  unfold Adds
  rw [same]
  exact .refl _

theorem Adds.trans (h : Adds queue node node') (h' : Adds queue node' node'') : Adds queue node node'' :=
  Took.trans h h'

theorem Adds.warns (h : Adds queue node node') (warns : node.Warns queue) : node'.Warns queue := by
  obtain ⟨stays, added, longer, -⟩ := h
  refine warns.imp (fun some => ?_) stays
  rw [longer]
  exact fun none => some (List.append_eq_nil_iff.mp none).1

theorem warns_of_told {n : WatchNotif}
    (told : (node.hub.channels queue).Told n (node'.hub.channels queue)) : node'.Warns queue := by
  obtain full | ⟨added, longer, mem⟩ := told
  · exact .inr full
  · refine .inl ?_
    rw [longer]
    exact fun none => List.ne_nil_of_mem mem (List.append_eq_nil_iff.mp none).2

section

variable (cfg : ServerConfig) (m : Moment)

theorem announced_adds (node : Node) (now : ℕ) (first : List Announcement) (server : ServerState)
    (queue : ℕ) :
    Adds queue node { node with
      toWatchedNode := node.toWatchedNode.announcing cfg.codec cfg.watchItemBytes now first server } :=
  (announceAll_served _ node.hub (.watch "") queue).keeps

/-- A write that is executed tells the watchers of what it alters. -/
theorem wrote_warns {cmd : Command} (write : isWriteCommand cmd = true) {server : ServerState}
    (leaves : LeavesValues cfg.codec m.env cmd (node.server.store.live m.env.now))
    (renames : RenamesLive cmd m.env.now node.server.store.data)
    (executed : Executed cfg.codec m.env cmd node.server server) {key : String}
    (alters : Alters m.env.now node.server.store.data server.store.data key)
    (there : node.hub.Registered (.watch key) queue) : (node.wrote cfg m server).Warns queue := by
  unfold Node.wrote
  generalize eq : (if m.appendFails && node.server.log.length < server.log.length then
    { server with persistenceHealthy := false } else server : ServerState) = server'
  have executed' : Executed cfg.codec m.env cmd node.server server' := by
    subst eq
    split_ifs
    · exact ⟨executed.store, executed.notices⟩
    · exact executed
  have store : server'.store = server.store := by
    subst eq
    split_ifs <;> rfl
  have wants : (Subscription.watch key).wants key = true := decide_eq_true rfl
  have changed : Changed m.env.now node.server.store.data server'.store.data key := (store ▸ alters).changed
  have told : (node.hub.channels queue).Told _ ((node.announcing cfg m server').hub.channels queue) ∨
      cmd = .flushDb ∧
        (node.hub.channels queue).Told _ ((node.announcing cfg m server').hub.channels queue) :=
    executed_announces write leaves renames executed' changed there wants
  exact told.elim warns_of_told fun flush => warns_of_told flush.2

end

end Node

/-! ## Moves -/

namespace Session

variable {cfg : ServerConfig} {may : Bool} {s s' : Session}

theorem watchDirty_processAuth (pwd : String) (conn : Connection) :
    (processAuth cfg pwd conn).2.watchDirty = conn.watchDirty := by
  unfold processAuth
  split
  · rfl
  · split_ifs <;> rfl

theorem watchDirty_handleHello (facts : ServerFacts) (requested : Option String) (replica : Bool)
    (conn : Connection) : (handleHello facts requested replica conn).2.watchDirty = conn.watchDirty := by
  unfold handleHello
  cases conn.transport with
  | tcp => rfl
  | ws =>
    dsimp only
    split_ifs <;> rfl

/-- What a move that ends no watches leaves of them. -/
structure Watches (s s' : Session) : Prop where
  id : s'.conn.id = s.conn.id
  keys : ∀ key ∈ s.conn.watchedKeys, key ∈ s'.conn.watchedKeys
  dirty : s'.conn.watchDirty = s.conn.watchDirty
  adds : ∀ queue, s.node.Adds queue s'.node

theorem Watches.refl (s : Session) : s.Watches s := ⟨rfl, fun _ mem => mem, rfl, fun _ => .of_same rfl⟩

theorem Watches.trans {s'' : Session} (h : s.Watches s') (h' : s'.Watches s'') : s.Watches s'' :=
  ⟨h'.id.trans h.id, fun key mem => h'.keys key (h.keys key mem), h'.dirty.trans h.dirty,
    fun queue => (h.adds queue).trans (h'.adds queue)⟩

theorem Greeting.watches (greets : Greeting cfg s s') : s.Watches s' := by
  cases greets with
  | wake isSubscribed => exact ⟨rfl, fun _ mem => mem, rfl, fun _ => .of_same rfl⟩
  | auth pwd =>
    have same := (@same_processAuth cfg pwd s.conn).1
    exact ⟨same.id, fun _ mem => same.watchedKeys ▸ mem, watchDirty_processAuth pwd s.conn,
      fun _ => .of_same rfl⟩
  | hello facts requested =>
    have same := (same_handleHello facts requested s.node.replica s.conn).1
    exact ⟨same.id, fun _ mem => same.watchedKeys ▸ mem, watchDirty_handleHello .., fun _ => .of_same rfl⟩
  | quit => exact ⟨rfl, fun _ mem => mem, rfl, fun _ => .of_same rfl⟩
  | poison =>
    unfold Session.poison
    split_ifs <;> exact ⟨rfl, fun _ mem => mem, rfl, fun _ => .of_same rfl⟩

theorem channels_register (hub : WatchHub) (r : Subscription) (queue : ℕ) :
    (hub.register r queue).channels = hub.channels := by
  cases r <;> rfl

theorem channels_unregister (hub : WatchHub) (r : Subscription) (queue : ℕ) :
    (hub.unregister r queue).channels = hub.channels := by
  cases r <;> rfl

theorem channels_unregisterEach (r : String → Subscription) (queue : ℕ) (names : List String)
    (hub : WatchHub) :
    (names.foldl (fun hub name => hub.unregister (r name) queue) hub).channels = hub.channels := by
  induction names generalizing hub with
  | nil => rfl
  | cons name names ih => exact (ih _).trans (channels_unregister hub (r name) queue)

theorem Request.watches (asks : Request cfg s s') : s.Watches s' := by
  cases asks with
  | watch key =>
    exact ⟨rfl, fun _ mem => List.mem_append_left _ mem, rfl, fun _ => .of_same (channels_register ..)⟩
  | qSub pattern => exact ⟨rfl, fun _ mem => mem, rfl, fun _ => .of_same (channels_register ..)⟩
  | qUnsub targets =>
    exact ⟨rfl, fun _ mem => mem, rfl, fun _ => .of_same (channels_unregisterEach .qsub ..)⟩
  | write m cmd => exact ⟨rfl, fun _ mem => mem, rfl, Node.announced_adds cfg s.node _ [] _⟩
  | queued m cmd => exact ⟨rfl, fun _ mem => mem, rfl, Node.announced_adds cfg s.node _ [] _⟩
  | save m =>
    have same : (s.node.save m).2.hub.channels = s.node.hub.channels := by rw [(same_save m s.node).1]
    exact ⟨rfl, fun _ mem => mem, rfl, fun _ => .of_same same⟩
  | _ => exact ⟨rfl, fun _ mem => mem, rfl, fun _ => .of_same rfl⟩

theorem watchQueue_eq {conn conn' : Connection} (own : conn'.id = conn.id) :
    conn'.watchQueue = conn.watchQueue := congrArg (2 * ·) own

/-- The end of watches empties no other queue. -/
theorem Forgetting.adds (forgets : Forgetting s s') {queue : ℕ} (other : queue ≠ s.conn.watchQueue) :
    s'.conn.id = s.conn.id ∧ s.node.Adds queue s'.node := by
  cases forgets with
  | unwatch targets => exact ⟨rfl, .of_same (channels_unregisterEach .watch ..)⟩
  | flush =>
    refine ⟨rfl, ?_⟩
    have same : s.flushWatches.node.hub.channels queue = s.node.hub.channels queue := by
      refine (Function.update_of_ne other _ _).trans ?_
      exact congrFun (channels_unregisterEach .watch s.conn.watchQueue s.conn.watchedKeys s.node.hub) queue
    unfold Node.Adds
    rw [same]
    exact .refl _

/-- Moves that end no watches. -/
theorem Moves.watches (moves : Moves cfg false s s') : s.Watches s' := by
  induction moves with
  | refl => exact .refl s
  | tail moves move ih =>
    rcases move with greets | ⟨-, asks | ⟨off, -⟩⟩
    · exact ih.trans greets.watches
    · exact ih.trans asks.watches
    · cases off

/-- The moves of a connection add to the queues of the others. -/
theorem Moves.adds (moves : Moves cfg may s s') {queue : ℕ} (other : queue ≠ s.conn.watchQueue) :
    s'.conn.id = s.conn.id ∧ s.node.Adds queue s'.node := by
  induction moves with
  | refl => exact ⟨rfl, .of_same rfl⟩
  | tail moves move ih =>
    obtain ⟨own, adds⟩ := ih
    rcases move with greets | ⟨-, asks | ⟨-, forgets⟩⟩
    · exact ⟨greets.watches.id.trans own, adds.trans (greets.watches.adds queue)⟩
    · exact ⟨asks.watches.id.trans own, adds.trans (asks.watches.adds queue)⟩
    · obtain ⟨own', adds'⟩ := forgets.adds fun same => other (same.trans (watchQueue_eq own))
      exact ⟨own'.trans own, adds.trans adds'⟩

/-! ## Frames -/

end Session

/-! ## Watched keys -/

namespace Node

/-- The queue is registered for the key, or has a warning in it. -/
def Guards (node : Node) (queue : ℕ) (key : String) : Prop :=
  node.Warns queue ∨ node.hub.Registered (.watch key) queue

variable {cfg : ServerConfig} {node node' : Node} {queue : ℕ} {key : String}

theorem Guards.announced (guards : node.Guards queue key) (now : ℕ) (first : List Announcement)
    (server : ServerState) : Guards { node with
      toWatchedNode := node.toWatchedNode.announcing cfg.codec cfg.watchItemBytes now first server }
      queue key := by
  rcases guards with warns | there
  · exact .inl ((announced_adds cfg node now first server queue).warns warns)
  · obtain ⟨-, there' | full⟩ := (announceAll_served _ node.hub (.watch key) queue).takes there
    · exact .inr there'
    · exact .inl (.inr full)

/-- A write that alters the key leaves a warning. -/
theorem Guards.wrote (guards : node.Guards queue key) {m : Moment} {cmd : Command}
    (write : isWriteCommand cmd = true) {server : ServerState}
    (leaves : LeavesValues cfg.codec m.env cmd (node.server.store.live m.env.now))
    (renames : RenamesLive cmd m.env.now node.server.store.data)
    (executed : Executed cfg.codec m.env cmd node.server server)
    (alters : Alters m.env.now node.server.store.data server.store.data key) :
    (node.wrote cfg m server).Warns queue := by
  rcases guards with warns | there
  · exact (announced_adds cfg node _ [] _ queue).warns warns
  · exact wrote_warns cfg m write leaves renames executed alters there

theorem store_wrote (m : Moment) (server : ServerState) :
    (node.wrote cfg m server).server.store = server.store := by
  unfold Node.wrote
  split_ifs <;> rfl

/-- A command of a transaction leaves the key alone or a warning. -/
theorem Guards.queued (guards : node.Guards queue key) {m : Moment} {origin : ℕ} {cmd : Command}
    (heeds : isWriteCommand cmd = true → Heeded cfg.codec node.toWatchedNode (.queued m.env origin cmd)) :
    let node' := (node.runQueued cfg m origin cmd).2
    node'.Guards queue key ∧ node.Adds queue node' ∧
      (¬Alters m.env.now node.server.store.data node'.server.store.data key ∨ node'.Warns queue) := by
  have plain (cmd : Command) (heeds : isWriteCommand cmd = true →
      Heeded cfg.codec node.toWatchedNode (.queued m.env origin cmd)) :
      let node' := (if isWriteCommand cmd then
        ((executeReporting cfg.codec m.env cmd node.server.store).1,
          node.wrote cfg m (node.server.executeQueuedWrite cfg.codec m.env origin cmd))
        else node.executeAndRecord cfg m cmd).2
      node'.Guards queue key ∧ node.Adds queue node' ∧
        (¬Alters m.env.now node.server.store.data node'.server.store.data key ∨ node'.Warns queue) := by
    split_ifs with write
    · refine ⟨guards.announced _ [] _, announced_adds cfg node _ [] _ queue, ?_⟩
      by_cases alters : Alters m.env.now node.server.store.data
        (node.server.executeQueuedWrite cfg.codec m.env origin cmd).store.data key
      · obtain ⟨leaves, renames⟩ := heeds write
        exact .inr (guards.wrote write leaves renames (executeQueuedWrite_executed ..) alters)
      · refine .inl ?_
        rw [store_wrote]
        exact alters
    · exact ⟨guards, .of_same rfl, .inl (not_alters_of_read (by simpa using write))⟩
  cases cmd
  case publish channel message =>
    exact ⟨guards, .of_same rfl, .inl (not_alters_of_same rfl)⟩
  all_goals exact plain _ heeds

theorem Guards.ran {origin : ℕ} {cmds : List Command} {moments : ℕ → Moment}
    (guards : node.Guards queue key)
    (heeds : node.AllAlong cfg origin (fun m cmd node => isWriteCommand cmd = true →
      Heeded cfg.codec node.toWatchedNode (.queued m.env origin cmd)) moments cmds) :
    node.Adds queue (node.runQueue cfg origin moments cmds).2 ∧
      (node.AllAlong cfg origin (fun m cmd node => ¬Alters m.env.now node.server.store.data
          (node.runQueued cfg m origin cmd).2.server.store.data key) moments cmds ∨
        (node.runQueue cfg origin moments cmds).2.Warns queue) := by
  induction cmds generalizing node moments with
  | nil => exact ⟨.of_same rfl, .inl trivial⟩
  | cons cmd cmds ih =>
    obtain ⟨here, rest⟩ := heeds
    obtain ⟨guards', adds, first⟩ := guards.queued here
    obtain ⟨adds', others⟩ := ih guards' rest
    refine ⟨adds.trans adds', ?_⟩
    rcases first with spared | warns
    · exact others.imp_left fun others => ⟨spared, others⟩
    · exact .inr (adds'.warns warns)

end Node

namespace Session

variable {cfg : ServerConfig} {s : Session} {queue : ℕ} {key : String}

/-- The writes of a frame are ones that are announced. -/
def Heeds (cfg : ServerConfig) (moments : ℕ → Moment) (raw : Bytes) (s : Session) : Prop :=
  match commandOf raw, s.conn.multiQueue with
  | some .exec, some cmds =>
    s.node.AllAlong cfg s.conn.origin (fun m cmd node => isWriteCommand cmd = true →
      Heeded cfg.codec node.toWatchedNode (.queued m.env s.conn.origin cmd)) moments cmds
  | some cmd, _ => Heeded cfg.codec s.node.toWatchedNode (.write (moments 0).env s.conn.origin cmd)
  | none, _ => True

/-- The transaction of a frame has run. -/
def Ran (cfg : ServerConfig) (moments : ℕ → Moment) (together : Bool) (raw : Bytes) (cmds : List Command)
    (s : Session) : Prop :=
  (s.handleFrame cfg moments together raw).1 =
    [arrayOf (s.node.runQueue cfg s.conn.origin moments cmds).1]

/-- No command that the frame runs alters the key. -/
def LeavesAlone (cfg : ServerConfig) (moments : ℕ → Moment) (together : Bool) (raw : Bytes) (key : String)
    (s : Session) : Prop :=
  match commandOf raw, s.conn.multiQueue with
  | some .exec, some cmds => s.Ran cfg moments together raw cmds →
    s.node.AllAlong cfg s.conn.origin (fun m cmd node => ¬Alters m.env.now node.server.store.data
      (node.runQueued cfg m s.conn.origin cmd).2.server.store.data key) moments cmds
  | _, _ => ¬Alters (moments 0).env.now s.node.server.store.data
    (s.handleFrame cfg moments together raw).2.node.server.store.data key

end Session

/-! ## Runs -/

namespace ServerAction

/-- The writes of the action are ones that are announced. -/
def Heeds (cfg : ServerConfig) (s : Server) : ServerAction → Prop
  | .frame id moments _ raw => ∀ conn ∈ s.conns id, Session.Heeds cfg moments raw ⟨conn, s.node⟩
  | .replicated env bytes => Heeded cfg.codec s.node.toWatchedNode (.replicated env bytes)
  | .install now entries => Heeded cfg.codec s.node.toWatchedNode (.install now entries)
  | _ => True

/-- The connection neither ends nor forgets its watches. -/
def Stays (id : ℕ) : ServerAction → Prop
  | .frame id' _ _ raw => id' = id → (commandOf raw).any Session.forgetsWatches = false
  | .close id' _ _ => id' ≠ id
  | _ => True

/-- The action does not alter the key. -/
def LeavesAlone (cfg : ServerConfig) (key : String) (s : Server) : ServerAction → Prop
  | .frame id moments together raw =>
    ∀ conn ∈ s.conns id, Session.LeavesAlone cfg moments together raw key ⟨conn, s.node⟩
  | .close id m owned => ∀ s' ∈ s.step cfg (.close id m owned),
    ¬Alters m.env.now s.node.server.store.data s'.node.server.store.data key
  | .sweep env keys => ∀ s' ∈ s.step cfg (.sweep env keys),
    ¬Alters env.now s.node.server.store.data s'.node.server.store.data key
  | .replicated env bytes => ∀ s' ∈ s.step cfg (.replicated env bytes),
    ¬Alters env.now s.node.server.store.data s'.node.server.store.data key
  | .install now entries => ∀ s' ∈ s.step cfg (.install now entries),
    ¬Alters now s.node.server.store.data s'.node.server.store.data key
  | .accept _ | .notified _ | .queried _ | .received _ => True

end ServerAction

namespace Server

variable {cfg : ServerConfig} {s s' : Server} {id : ℕ} {key : String}

/-- The connection is open and watches the key. -/
def Watching (s : Server) (id : ℕ) (key : String) : Prop :=
  ∃ conn, s.conns id = some conn ∧ key ∈ conn.watchedKeys

/-- The connection has been told of a change. -/
def Warned (s : Server) (id : ℕ) : Prop :=
  ∃ conn, s.conns id = some conn ∧ (conn.watchDirty = true ∨ s.node.Warns (2 * id))

theorem Sound.guards (sound : s.Sound cfg) (watching : s.Watching id key) :
    s.node.Guards (2 * id) key := by
  obtain ⟨conn, there, wants⟩ := watching
  obtain ⟨own, -⟩ := sound.ids id conn there
  have held := (sound.linked id conn there).held (.watch key) wants
  rw [own] at held
  exact held.elim .inr fun full => .inl (.inr full)

/-- What a step does for a connection that watches the key: it still does, it still is warned if it was,
and it is warned if the key is altered. -/
structure Guarded (cfg : ServerConfig) (id : ℕ) (key : String) (action : ServerAction) (s s' : Server) :
    Prop where
  watching : s'.Watching id key
  warned : s.Warned id → s'.Warned id
  alters : action.Heeds cfg s → action.LeavesAlone cfg key s ∨ s'.Warned id

end Server

end Recached
