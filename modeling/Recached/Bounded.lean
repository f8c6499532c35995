import Recached.Interests

/-!
# What a connection keeps

A connection has what it asked for, once each and within the limits, and the tables of the node have it for
these interests and for no others.  Every move keeps that, and spares the other connections.
-/

namespace Recached

open Node

/-! ## Sessions in order -/

/-- The sets of a connection have no repetitions and stay within the limits. -/
structure Connection.Bounded (cfg : ServerConfig) (conn : Connection) : Prop where
  watchedKeys : conn.watchedKeys.Nodup
  watches : conn.watchedKeys.length ≤ cfg.maxWatchesPerConn
  qSubPatterns : conn.qSubPatterns.Nodup
  qSubs : conn.qSubPatterns.length ≤ cfg.maxQSubsPerConn
  channels : conn.subscribedChannels.Nodup
  patterns : conn.subscribedPatterns.Nodup
  subscriptions : conn.subscriptions ≤ cfg.maxPubSubSubscriptionsPerConn
  queue : ∀ queue ∈ conn.multiQueue, queue.length ≤ cfg.maxMultiQueueLen
  tcp : conn.transport = .tcp → conn.qSubPatterns = []

/-- The tables have the connection for each of its interests, unless it has been told to disconnect, and
for nothing else. -/
structure Node.Linked (node : Node) (conn : Connection) : Prop where
  known : ∀ i, node.Holds conn.id i → conn.Wants i
  held : ∀ i, conn.Wants i → node.Holds conn.id i ∨ node.Overflowed conn.id i

structure Session.Sound (cfg : ServerConfig) (s : Session) : Prop where
  bounded : s.conn.Bounded cfg
  tidy : s.node.Tidy
  linked : s.node.Linked s.conn

section

variable {cfg : ServerConfig} {may : Bool} {s s' : Session} {node node' : Node} {conn conn' : Connection}

theorem Node.Linked.spared (linked : node.Linked conn) (spares : Node.Spares conn.id node node') :
    node'.Linked conn := by
  refine ⟨fun i there => linked.known i (spares.gained i there), fun i wants => ?_⟩
  rcases linked.held i wants with there | full
  · exact spares.kept i there
  · exact .inr (spares.told i full)

/-- The interests of a connection are all that its tables depend on. -/
theorem Node.Linked.congr (linked : node.Linked conn) (id : conn'.id = conn.id)
    (wants : ∀ i, conn'.Wants i ↔ conn.Wants i) : node.Linked conn' := by
  refine ⟨fun i there => (wants i).mpr (linked.known i (id ▸ there)), fun i want => ?_⟩
  rw [id]
  exact linked.held i ((wants i).mp want)

theorem Node.Linked.enters (linked : node.Linked conn) {i : Interest}
    (enters : Node.Enters conn.id i node node') (id : conn'.id = conn.id)
    (wants : ∀ j, conn'.Wants j ↔ conn.Wants j ∨ j = i) : node'.Linked conn' := by
  refine ⟨fun j there => ?_, fun j want => ?_⟩
  · rw [id] at there
    refine (wants j).mpr (((enters.holds _ j).mp there).imp (linked.known j) fun new => new.2)
  · rw [id, enters.told, enters.holds]
    rcases (wants j).mp want with old | rfl
    · exact (linked.held j old).imp_left .inl
    · exact .inl (.inr ⟨rfl, rfl⟩)

theorem Node.Linked.leaves (linked : node.Linked conn) {gone : Interest → Prop}
    (leaves : Node.Leaves conn.id gone node node') (id : conn'.id = conn.id)
    (wants : ∀ j, conn'.Wants j ↔ conn.Wants j ∧ ¬gone j) : node'.Linked conn' := by
  refine ⟨fun j there => ?_, fun j want => ?_⟩
  · rw [id] at there
    obtain ⟨old, stays⟩ := (leaves.holds _ j).mp there
    exact (wants j).mpr ⟨linked.known j old, fun left => stays ⟨rfl, left⟩⟩
  · rw [id, leaves.told, leaves.holds]
    obtain ⟨old, stays⟩ := (wants j).mp want
    exact (linked.held j old).imp_left fun there => ⟨there, fun left => stays left.2⟩

/-- The tables have a connection no more than once where it enters only what it does not want yet. -/
theorem Node.Linked.new (linked : node.Linked conn) {i : Interest} (new : ¬conn.Wants i) :
    ¬node.Holds conn.id i := fun there => new (linked.known i there)

/-! ## What leaves the sets alone -/

/-- The connections have one place and the same interests. -/
structure Connection.SameSets (conn conn' : Connection) : Prop where
  id : conn'.id = conn.id
  transport : conn'.transport = conn.transport
  watchedKeys : conn'.watchedKeys = conn.watchedKeys
  qSubPatterns : conn'.qSubPatterns = conn.qSubPatterns
  channels : conn'.subscribedChannels = conn.subscribedChannels
  patterns : conn'.subscribedPatterns = conn.subscribedPatterns

theorem Connection.SameSets.wants (same : conn.SameSets conn') (i : Interest) :
    conn'.Wants i ↔ conn.Wants i := by
  obtain ⟨-, -, watchedKeys, qSubPatterns, channels, patterns⟩ := same
  cases i <;> simp only [Connection.Wants, *]

theorem Connection.SameSets.bounded (same : conn.SameSets conn')
    (queue : ∀ queue ∈ conn'.multiQueue, queue.length ≤ cfg.maxMultiQueueLen)
    (bounded : conn.Bounded cfg) : conn'.Bounded cfg := by
  have subscriptions : conn'.subscriptions = conn.subscriptions := by
    unfold Connection.subscriptions
    rw [same.channels, same.patterns]
  exact {
    watchedKeys := same.watchedKeys ▸ bounded.watchedKeys
    watches := same.watchedKeys ▸ bounded.watches
    qSubPatterns := same.qSubPatterns ▸ bounded.qSubPatterns
    qSubs := same.qSubPatterns ▸ bounded.qSubs
    channels := same.channels ▸ bounded.channels
    patterns := same.patterns ▸ bounded.patterns
    subscriptions := subscriptions ▸ bounded.subscriptions
    queue
    tcp := same.transport ▸ same.qSubPatterns ▸ bounded.tcp }

namespace Session

/-- The interests are the same, and the node is. -/
theorem Sound.still (sound : s.Sound cfg) (same : s.conn.SameSets conn)
    (queue : ∀ queue ∈ conn.multiQueue, queue.length ≤ cfg.maxMultiQueueLen) :
    (s.withConn conn).Sound cfg :=
  ⟨same.bounded queue sound.bounded, sound.tidy, sound.linked.congr same.id same.wants⟩

/-- The node has done something that spares the connection. -/
theorem Sound.spared (sound : s.Sound cfg) (spares : Node.Spares s.conn.id s.node node) (tidy : node.Tidy) :
    (s.withNode node).Sound cfg := ⟨sound.bounded, tidy, sound.linked.spared spares⟩

/-! ## Moves of the own connection -/

theorem same_processAuth (pwd : String) (conn : Connection) :
    conn.SameSets (processAuth cfg pwd conn).2 ∧ (processAuth cfg pwd conn).2.multiQueue = conn.multiQueue := by
  unfold processAuth
  split
  · exact ⟨⟨rfl, rfl, rfl, rfl, rfl, rfl⟩, rfl⟩
  · split_ifs <;> exact ⟨⟨rfl, rfl, rfl, rfl, rfl, rfl⟩, rfl⟩

theorem same_handleHello (facts : ServerFacts) (requested : Option String) (replica : Bool)
    (conn : Connection) : conn.SameSets (handleHello facts requested replica conn).2 ∧
      (handleHello facts requested replica conn).2.multiQueue = conn.multiQueue := by
  unfold handleHello
  cases port : conn.transport with
  | tcp => exact ⟨⟨rfl, port.symm, rfl, rfl, rfl, rfl⟩, rfl⟩
  | ws =>
    dsimp only
    split_ifs <;> exact ⟨⟨rfl, rfl, rfl, rfl, rfl, rfl⟩, rfl⟩

theorem Greeting.sound (greets : Greeting cfg s s') (sound : s.Sound cfg) : s'.Sound cfg := by
  have queue := sound.bounded.queue
  cases greets with
  | wake isSubscribed => exact sound.still ⟨rfl, rfl, rfl, rfl, rfl, rfl⟩ queue
  | auth pwd =>
    obtain ⟨same, transaction⟩ := @same_processAuth cfg pwd s.conn
    exact sound.still same (transaction ▸ queue)
  | hello facts requested =>
    obtain ⟨same, transaction⟩ := same_handleHello facts requested s.node.replica s.conn
    exact sound.still same (transaction ▸ queue)
  | quit => exact sound.still ⟨rfl, rfl, rfl, rfl, rfl, rfl⟩ queue
  | poison =>
    unfold Session.poison
    split_ifs
    · exact sound.still ⟨rfl, rfl, rfl, rfl, rfl, rfl⟩ queue
    · exact sound

theorem startChannel_sound (sound : s.Sound cfg) {ch : String} (new : ch ∉ s.conn.subscribedChannels)
    (room : s.conn.subscriptions < cfg.maxPubSubSubscriptionsPerConn) : (s.startChannel ch).Sound cfg := by
  obtain ⟨bounded, tidy, linked⟩ := sound
  have enters := subscribe_enters s.node .channel s.conn.id ch
  refine ⟨{ bounded with channels := ?_, subscriptions := ?_ },
    ⟨tidy.hub, tidy.watches, tidy.queries, ?_⟩, ?_⟩
  · exact bounded.channels.append (List.nodup_singleton ch) (List.disjoint_singleton.mpr new)
  · have longer : (s.startChannel ch).conn.subscriptions = s.conn.subscriptions + 1 := by
      simp only [startChannel, Connection.subscriptions, List.length_append, List.length_singleton]
      omega
    omega
  · have fresh : ¬s.node.pubSub.Registered .channel s.conn.id ch := @Linked.new _ _ linked (.channel ch) new
    exact PubSubHub.Wf.register tidy.pubSub fresh
  · refine linked.enters enters rfl fun j => ?_
    cases j <;> simp [Connection.Wants, startChannel, SubscriptionKind.interest]

theorem startPattern_sound (sound : s.Sound cfg) {pat : String} (new : pat ∉ s.conn.subscribedPatterns)
    (room : s.conn.subscriptions < cfg.maxPubSubSubscriptionsPerConn) : (s.startPattern pat).Sound cfg := by
  obtain ⟨bounded, tidy, linked⟩ := sound
  have enters := subscribe_enters s.node .pattern s.conn.id pat
  refine ⟨{ bounded with patterns := ?_, subscriptions := ?_ },
    ⟨tidy.hub, tidy.watches, tidy.queries, ?_⟩, ?_⟩
  · exact bounded.patterns.append (List.nodup_singleton pat) (List.disjoint_singleton.mpr new)
  · have longer : (s.startPattern pat).conn.subscriptions = s.conn.subscriptions + 1 := by
      simp only [startPattern, Connection.subscriptions, List.length_append, List.length_singleton]
      omega
    omega
  · have fresh : ¬s.node.pubSub.Registered .pattern s.conn.id pat := @Linked.new _ _ linked (.pattern pat) new
    exact PubSubHub.Wf.register tidy.pubSub fresh
  · refine linked.enters enters rfl fun j => ?_
    cases j <;> simp [Connection.Wants, startPattern, SubscriptionKind.interest]

theorem startWatch_sound (sound : s.Sound cfg) {key : String} (new : key ∉ s.conn.watchedKeys)
    (room : s.conn.watchedKeys.length < cfg.maxWatchesPerConn) : (s.startWatch key).Sound cfg := by
  obtain ⟨bounded, tidy, linked⟩ := sound
  refine ⟨{ bounded with watchedKeys := ?_, watches := ?_ }, ?_, ?_⟩
  · exact bounded.watchedKeys.append (List.nodup_singleton key) (List.disjoint_singleton.mpr new)
  · exact (Nat.le_of_eq List.length_append).trans room
  · exact tidy.register (@Linked.new _ _ linked (.watch key) new) (Nat.mul_mod_right 2 s.conn.id)
  · refine linked.enters (watch_enters s.node s.conn.id key) rfl fun j => ?_
    cases j <;> simp [Connection.Wants, startWatch]

theorem startQuery_sound (sound : s.Sound cfg) {pattern : String} (ws : s.conn.transport = .ws) (new : pattern ∉ s.conn.qSubPatterns)
    (room : s.conn.qSubPatterns.length < cfg.maxQSubsPerConn) : (s.startQuery pattern).Sound cfg := by
  obtain ⟨bounded, tidy, linked⟩ := sound
  refine ⟨{ bounded with qSubPatterns := ?_, qSubs := ?_, tcp := ?_ }, ?_, ?_⟩
  · exact bounded.qSubPatterns.append (List.nodup_singleton pattern) (List.disjoint_singleton.mpr new)
  · exact (Nat.le_of_eq List.length_append).trans room
  · intro tcp
    cases ws.symm.trans tcp
  · exact tidy.register (@Linked.new _ _ linked (.query pattern) new) (Nat.mul_add_mod 2 s.conn.id 1)
  · refine linked.enters (query_enters s.node s.conn.id pattern) rfl fun j => ?_
    cases j <;> simp [Connection.Wants, startQuery]

theorem unsubscribe_sound (sound : s.Sound cfg) (channels : List String) :
    (s.unsubscribe channels).2.Sound cfg := by
  obtain ⟨bounded, tidy, linked⟩ := sound
  refine ⟨{ bounded with channels := ?_, subscriptions := ?_ }, ?_, ?_⟩
  · exact bounded.channels.filter _
  · refine le_trans (Nat.add_le_add_right (List.length_filter_le _ _) _) bounded.subscriptions
  · exact tidy.unsubscribeEach .channel s.conn.id _
  · refine linked.leaves (unsubscribe_leaves s.node .channel s.conn.id _) rfl fun j => ?_
    cases j <;> simp [Connection.Wants, unsubscribe, SubscriptionKind.interest]

theorem pUnsubscribe_sound (sound : s.Sound cfg) (patterns : List String) :
    (s.pUnsubscribe patterns).2.Sound cfg := by
  obtain ⟨bounded, tidy, linked⟩ := sound
  refine ⟨{ bounded with patterns := ?_, subscriptions := ?_ }, ?_, ?_⟩
  · exact bounded.patterns.filter _
  · refine le_trans (Nat.add_le_add_left (List.length_filter_le _ _) _) bounded.subscriptions
  · exact tidy.unsubscribeEach .pattern s.conn.id _
  · refine linked.leaves (unsubscribe_leaves s.node .pattern s.conn.id _) rfl fun j => ?_
    cases j <;> simp [Connection.Wants, pUnsubscribe, SubscriptionKind.interest]

theorem forgetWatches_sound (sound : s.Sound cfg) (targets : List String) :
    (s.forgetWatches targets).Sound cfg := by
  obtain ⟨bounded, tidy, linked⟩ := sound
  refine ⟨{ bounded with watchedKeys := ?_, watches := ?_ }, ?_, ?_⟩
  · exact bounded.watchedKeys.filter _
  · exact le_trans (List.length_filter_le _ _) bounded.watches
  · exact tidy.unregisterEach .watch _ targets
  · refine linked.leaves (unwatch_leaves s.node s.conn.id targets) rfl fun j => ?_
    cases j <;> simp [Connection.Wants, forgetWatches]

theorem forgetQueries_sound (sound : s.Sound cfg) (targets : List String) :
    (s.forgetQueries targets).Sound cfg := by
  obtain ⟨bounded, tidy, linked⟩ := sound
  refine ⟨{ bounded with qSubPatterns := ?_, qSubs := ?_, tcp := fun tcp => ?_ }, ?_, ?_⟩
  · exact bounded.qSubPatterns.filter _
  · exact le_trans (List.length_filter_le _ _) bounded.qSubs
  · exact List.filter_eq_nil_iff.mpr (bounded.tcp tcp ▸ fun _ mem => absurd mem List.not_mem_nil)
  · exact tidy.unregisterEach .qsub _ targets
  · refine linked.leaves (unquery_leaves s.node s.conn.id targets) rfl fun j => ?_
    cases j <;> simp [Connection.Wants, forgetQueries]

theorem flushWatches_leaves (s : Session) :
    Node.Leaves s.conn.id (fun j => ∃ key ∈ s.conn.watchedKeys, j = .watch key) s.node
      s.flushWatches.node :=
  ((unwatch_leaves s.node s.conn.id s.conn.watchedKeys).trans (taken_leaves _ _ _ [])).congr
    fun _ => (or_false _).symm.to_iff

theorem flushWatches_sound (sound : s.Sound cfg) : s.flushWatches.Sound cfg := by
  obtain ⟨bounded, tidy, linked⟩ := sound
  refine ⟨{ bounded with watchedKeys := List.nodup_nil, watches := Nat.zero_le _ }, ?_, ?_⟩
  · exact (tidy.unregisterEach .watch _ s.conn.watchedKeys).fewer ⟨.refl _, .refl _⟩
  · refine linked.leaves s.flushWatches_leaves rfl fun j => ?_
    cases j <;> simp [Connection.Wants, flushWatches]

theorem same_save (m : Moment) (node : Node) :
    (node.save m).2.hub = node.hub ∧ (node.save m).2.pubSub = node.pubSub := by
  unfold Node.save
  split <;> exact ⟨rfl, rfl⟩

/-- What a move does to the tables: the connection enters one of them, leaves some, or is spared. -/
theorem Request.sound (asks : Request cfg s s') (sound : s.Sound cfg) : s'.Sound cfg := by
  obtain ⟨bounded, tidy, linked⟩ := sound
  have sound : s.Sound cfg := ⟨bounded, tidy, linked⟩
  have queue := bounded.queue
  cases asks with
  | sync args ws => exact sound.still ⟨rfl, rfl, rfl, rfl, rfl, rfl⟩ queue
  | multi idle =>
    refine sound.still ⟨rfl, rfl, rfl, rfl, rfl, rfl⟩ fun queue opened => ?_
    cases opened
    exact Nat.zero_le _
  | enqueue queue cmd opened room =>
    refine sound.still ⟨rfl, rfl, rfl, rfl, rfl, rfl⟩ fun queue' opened' => ?_
    cases opened'
    rw [List.length_append]
    exact room
  | refuse => exact sound.still ⟨rfl, rfl, rfl, rfl, rfl, rfl⟩ queue
  | finish => exact sound.still ⟨rfl, rfl, rfl, rfl, rfl, rfl⟩ fun queue opened => by cases opened
  | clean => exact sound.still ⟨rfl, rfl, rfl, rfl, rfl, rfl⟩ queue
  | client client => exact sound.still ⟨rfl, rfl, rfl, rfl, rfl, rfl⟩ queue
  | subscribe ch new room => exact startChannel_sound sound new room
  | pSubscribe pat new room => exact startPattern_sound sound new room
  | unsubscribe channels => exact unsubscribe_sound sound channels
  | pUnsubscribe patterns => exact pUnsubscribe_sound sound patterns
  | watch key new room => exact startWatch_sound sound new room
  | qSub pattern ws new room => exact startQuery_sound sound ws new room
  | qUnsub targets => exact forgetQueries_sound sound targets
  | publish channel message =>
    obtain ⟨spares, tidy⟩ := published_spares cfg tidy channel message s.conn.id
    exact sound.spared spares tidy
  | read m cmd read => exact sound.spared (.of_same rfl rfl) (tidy.of_same rfl rfl)
  | write m cmd write primary =>
    exact sound.spared (announced_spares cfg s.node _ [] _ _) (announced_tidy cfg tidy _ [] _)
  | queued m cmd write primary =>
    exact sound.spared (announced_spares cfg s.node _ [] _ _) (announced_tidy cfg tidy _ [] _)
  | save m =>
    obtain ⟨hub, pubSub⟩ := same_save m s.node
    exact sound.spared (.of_same hub pubSub) (tidy.of_same hub pubSub)
  | promote => exact sound.spared (.of_same rfl rfl) (tidy.of_same rfl rfl)

theorem Forgetting.sound (forgets : Forgetting s s') (sound : s.Sound cfg) : s'.Sound cfg := by
  cases forgets with
  | unwatch targets => exact forgetWatches_sound sound targets
  | flush => exact flushWatches_sound sound

theorem Move.sound (move : Move cfg may s s') (sound : s.Sound cfg) : s'.Sound cfg := by
  rcases move with greets | ⟨-, asks | ⟨-, forgets⟩⟩
  · exact greets.sound sound
  · exact asks.sound sound
  · exact forgets.sound sound

/-! ## Other connections -/

theorem Greeting.spares (greets : Greeting cfg s s') :
    s'.conn.id = s.conn.id ∧ s'.conn.transport = s.conn.transport ∧ s'.node = s.node := by
  cases greets with
  | wake isSubscribed => exact ⟨rfl, rfl, rfl⟩
  | auth pwd =>
    have same := (@same_processAuth cfg pwd s.conn).1
    exact ⟨same.id, same.transport, rfl⟩
  | hello facts requested =>
    have same := (same_handleHello facts requested s.node.replica s.conn).1
    exact ⟨same.id, same.transport, rfl⟩
  | quit => exact ⟨rfl, rfl, rfl⟩
  | poison =>
    unfold Session.poison
    split_ifs <;> exact ⟨rfl, rfl, rfl⟩

/-- A move of one connection spares the others. -/
theorem Request.spares (asks : Request cfg s s') (tidy : s.node.Tidy) :
    s'.conn.id = s.conn.id ∧ s'.conn.transport = s.conn.transport ∧
      ∀ id ≠ s.conn.id, Node.Spares id s.node s'.node := by
  cases asks with
  | sync | multi | enqueue | refuse | finish | clean | client => exact ⟨rfl, rfl, fun id _ => .refl id _⟩
  | subscribe ch => exact ⟨rfl, rfl, fun id => (subscribe_enters s.node .channel _ ch).spares⟩
  | pSubscribe pat => exact ⟨rfl, rfl, fun id => (subscribe_enters s.node .pattern _ pat).spares⟩
  | unsubscribe => exact ⟨rfl, rfl, fun id => (unsubscribe_leaves s.node .channel _ _).spares⟩
  | pUnsubscribe => exact ⟨rfl, rfl, fun id => (unsubscribe_leaves s.node .pattern _ _).spares⟩
  | watch key => exact ⟨rfl, rfl, fun id => (watch_enters s.node _ key).spares⟩
  | qSub pattern => exact ⟨rfl, rfl, fun id => (query_enters s.node _ pattern).spares⟩
  | qUnsub targets => exact ⟨rfl, rfl, fun id => (unquery_leaves s.node _ targets).spares⟩
  | publish channel message =>
    exact ⟨rfl, rfl, fun id _ => (published_spares cfg tidy channel message id).1⟩
  | read | promote => exact ⟨rfl, rfl, fun id _ => .of_same rfl rfl⟩
  | write | queued => exact ⟨rfl, rfl, fun id _ => announced_spares cfg s.node _ [] _ id⟩
  | save m => exact ⟨rfl, rfl, fun id _ => .of_same (same_save m s.node).1 (same_save m s.node).2⟩

theorem Forgetting.spares (forgets : Forgetting s s') :
    s'.conn.id = s.conn.id ∧ s'.conn.transport = s.conn.transport ∧
      ∀ id ≠ s.conn.id, Node.Spares id s.node s'.node := by
  cases forgets with
  | unwatch targets => exact ⟨rfl, rfl, fun id => (unwatch_leaves s.node _ targets).spares⟩
  | flush => exact ⟨rfl, rfl, fun id => s.flushWatches_leaves.spares⟩

theorem Move.spares (move : Move cfg may s s') (tidy : s.node.Tidy) :
    s'.conn.id = s.conn.id ∧ s'.conn.transport = s.conn.transport ∧
      ∀ id ≠ s.conn.id, Node.Spares id s.node s'.node := by
  rcases move with greets | ⟨-, asks | ⟨-, forgets⟩⟩
  · obtain ⟨own, port, node⟩ := greets.spares
    exact ⟨own, port, fun id _ => node ▸ .refl id _⟩
  · exact asks.spares tidy
  · exact forgets.spares

/-- Whatever a connection does keeps it in order and spares the others. -/
theorem Moves.sound (moves : Moves cfg may s s') (sound : s.Sound cfg) :
    s'.Sound cfg ∧ s'.conn.id = s.conn.id ∧ s'.conn.transport = s.conn.transport ∧
      ∀ id ≠ s.conn.id, Node.Spares id s.node s'.node := by
  induction moves with
  | refl => exact ⟨sound, rfl, rfl, fun id _ => .refl id _⟩
  | tail moves move ih =>
    obtain ⟨sound, own, port, spares⟩ := ih
    obtain ⟨own', port', spares'⟩ := move.spares sound.tidy
    exact ⟨move.sound sound, own'.trans own, port'.trans port,
      fun id other => (spares id other).trans (spares' id (own ▸ other))⟩

end Session

end

end Recached
