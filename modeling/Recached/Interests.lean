import Recached.Deliveries
import Recached.Moves
import Recached.Notices

/-!
# Interests

A connection has its watched keys, its live queries, its channels and its patterns, and the node has tables
with all of them.  What the node does for one connection spares the others: their entries stay, unless a
queue overflows and the connection is told to disconnect, and no entry is added for them.
-/

namespace Recached

open Multimap

/-- Something that a connection asks to be told of. -/
inductive Interest where
  | watch (key : String)
  | query (pattern : String)
  | channel (ch : String)
  | pattern (pat : String)
deriving DecidableEq

/-- The interest in what a subscription of a kind is to. -/
def SubscriptionKind.interest : SubscriptionKind → String → Interest
  | .channel => .channel
  | .pattern => .pattern

/-- The interests that publications serve. -/
def Interest.Published : Interest → Prop
  | .watch _ | .query _ => False
  | .channel _ | .pattern _ => True

def Connection.Wants (conn : Connection) : Interest → Prop
  | .watch key => key ∈ conn.watchedKeys
  | .query pattern => pattern ∈ conn.qSubPatterns
  | .channel ch => ch ∈ conn.subscribedChannels
  | .pattern pat => pat ∈ conn.subscribedPatterns

/-! ## Tables -/

namespace WatchHub

/-- Nobody is registered twice under a name. -/
structure Distinct (hub : WatchHub) : Prop where
  map : Multimap.Distinct hub.map
  patterns : Multimap.Distinct hub.patterns

/-- Registrations have gone, and none is new. -/
structure Fewer (hub hub' : WatchHub) : Prop where
  map : Multimap.Fewer hub.map hub'.map
  patterns : Multimap.Fewer hub.patterns hub'.patterns

variable {hub hub' hub'' : WatchHub}

theorem Fewer.refl (hub : WatchHub) : hub.Fewer hub := ⟨.refl _, .refl _⟩

theorem Fewer.trans (h : hub.Fewer hub') (h' : hub'.Fewer hub'') : hub.Fewer hub'' :=
  ⟨h.map.trans h'.map, h.patterns.trans h'.patterns⟩

theorem Fewer.registered (h : hub.Fewer hub') {r : Subscription} {id : ℕ}
    (registered : hub'.Registered r id) : hub.Registered r id := by
  cases r with
  | watch key => exact h.map.lists registered
  | qsub pattern => exact h.patterns.lists registered

theorem Distinct.fewer (distinct : hub.Distinct) (h : hub.Fewer hub') : hub'.Distinct :=
  ⟨distinct.map.fewer h.map, distinct.patterns.fewer h.patterns⟩

theorem registered_register {r r' : Subscription} {id id' : ℕ} :
    (hub.register r id).Registered r' id' ↔ hub.Registered r' id' ∨ r' = r ∧ id' = id := by
  cases r with
  | watch key =>
    cases r' with
    | watch key' =>
      rw [Subscription.watch.injEq]
      exact lists_add
    | qsub pattern => simp [register, Registered, mapOf]
  | qsub pattern =>
    cases r' with
    | watch key => simp [register, Registered, mapOf]
    | qsub pattern' =>
      rw [Subscription.qsub.injEq]
      exact lists_add

theorem Distinct.register (h : hub.Distinct) {r : Subscription} {id : ℕ} (new : ¬hub.Registered r id) :
    (hub.register r id).Distinct := by
  cases r with
  | watch key => exact ⟨h.map.add new, h.patterns⟩
  | qsub pattern => exact ⟨h.map, h.patterns.add new⟩

theorem unsubscribe_fewer (name : String) (id : ℕ) (map : WatchMap) :
    Multimap.Fewer map (map.unsubscribe name id) := by
  refine (Multimap.Fewer.map (fun e _ => ?_) fun e _ => ?_).trans (.filter _ _)
  · split_ifs <;> rfl
  · split_ifs
    · exact List.filter_sublist
    · exact List.Sublist.refl _

theorem lists_unsubscribe {map : WatchMap} {name name' : String} {id id' : ℕ} :
    (map.unsubscribe name id).Lists name' id' ↔ map.Lists name' id' ∧ ¬(name' = name ∧ id' = id) := by
  rw [WatchMap.unsubscribe, lists_prune]
  constructor
  · rintro ⟨subs, entry, mem⟩
    obtain ⟨e, there, eq⟩ := List.mem_map.mp entry
    split_ifs at eq with same
    · cases eq
      obtain ⟨old, other⟩ := List.mem_filter.mp mem
      exact ⟨⟨e.2, there, old⟩, fun gone => by simp [gone.2] at other⟩
    · subst eq
      exact ⟨⟨subs, there, mem⟩, fun gone => same gone.1⟩
  · rintro ⟨⟨subs, entry, mem⟩, other⟩
    by_cases same : name' = name
    · refine ⟨_, List.mem_map.mpr ⟨_, entry, if_pos same⟩, List.mem_filter.mpr ⟨mem, ?_⟩⟩
      simpa using fun gone => other ⟨same, gone⟩
    · exact ⟨subs, List.mem_map.mpr ⟨_, entry, if_neg same⟩, mem⟩

theorem registered_unregister {r r' : Subscription} {id id' : ℕ} :
    (hub.unregister r id).Registered r' id' ↔ hub.Registered r' id' ∧ ¬(r' = r ∧ id' = id) := by
  cases r with
  | watch key =>
    cases r' with
    | watch key' =>
      rw [Subscription.watch.injEq]
      exact lists_unsubscribe
    | qsub pattern => simp [unregister, Registered, mapOf]
  | qsub pattern =>
    cases r' with
    | watch key => simp [unregister, Registered, mapOf]
    | qsub pattern' =>
      rw [Subscription.qsub.injEq]
      exact lists_unsubscribe

theorem unregister_fewer (r : Subscription) (id : ℕ) (hub : WatchHub) : hub.Fewer (hub.unregister r id) := by
  cases r with
  | watch key => exact ⟨unsubscribe_fewer key id hub.map, .refl _⟩
  | qsub pattern => exact ⟨.refl _, unsubscribe_fewer pattern id hub.patterns⟩

end WatchHub

section

variable {itemBytes : ℕ}

theorem fewer_prune (map : WatchMap) : Fewer map map.prune := .filter map _

theorem notifySubs_sublist (n : WatchNotif) (subs : List ℕ) (channels : WatchChannels) :
    (notifySubs itemBytes n subs channels).1.Sublist subs := by
  induction subs generalizing channels with
  | nil => exact List.Sublist.slnil
  | cons id rest ih =>
    simp only [notifySubs]
    split_ifs
    · exact (ih _).cons_cons id
    · exact (ih _).cons id

theorem notifyEach_sublist (ns : List WatchNotif) (subs : List ℕ) (channels : WatchChannels) :
    (notifyEach itemBytes ns subs channels).1.Sublist subs := by
  induction ns generalizing subs channels with
  | nil => exact List.Sublist.refl _
  | cons n ns ih => exact (ih _ _).trans (notifySubs_sublist n subs channels)

theorem notifyNames_fewer (concerns : String → List WatchNotif) (map : WatchMap)
    (channels : WatchChannels) : Fewer map (notifyNames itemBytes concerns map channels).1 := by
  induction map generalizing channels with
  | nil => exact .nil
  | cons entry rest ih => exact .keep entry.1 (notifyEach_sublist _ _ _) (ih _)

theorem foldNames_fewer (ns : List WatchNotif) (map : WatchMap) (channels : WatchChannels) :
    Fewer map (ns.foldl (fun (acc : WatchMap × WatchChannels) n =>
      let (map, channels) :=
        notifyNames itemBytes (fun name => if name = n.1 then [n] else []) acc.1 acc.2
      (map.prune, channels)) (map, channels)).1 := by
  induction ns generalizing map channels with
  | nil => exact .refl map
  | cons n ns ih => exact ((notifyNames_fewer _ map channels).trans (fewer_prune _)).trans (ih _ _)

theorem announce_fewer (hub : WatchHub) (a : Announcement) : hub.Fewer (hub.announce itemBytes a) := by
  cases a with
  | changes ns =>
    exact ⟨foldNames_fewer ns _ _, (notifyNames_fewer _ _ _).trans (fewer_prune _)⟩
  | flushed => exact ⟨notifyNames_fewer _ _ _, (notifyNames_fewer _ _ _).trans (fewer_prune _)⟩

theorem announceAll_fewer (announcements : List Announcement) (hub : WatchHub) :
    hub.Fewer (announcements.foldl (WatchHub.announce itemBytes) hub) := by
  induction announcements generalizing hub with
  | nil => exact .refl hub
  | cons a announcements ih => exact (announce_fewer hub a).trans (ih _)

end

/-! ## Publications -/

namespace PubSubHub

variable {itemBytes : ℕ} {hub : PubSubHub}

/-- Deliveries have been queued, or a queue was full; the tables are the same. -/
structure Sent (hub hub' : PubSubHub) : Prop where
  channelSubs : hub'.channelSubs = hub.channelSubs
  patternSubs : hub'.patternSubs = hub.patternSubs
  overflowed : ∀ id, (hub.queues id).overflowed = true → (hub'.queues id).overflowed = true

theorem Sent.refl (hub : PubSubHub) : hub.Sent hub := ⟨rfl, rfl, fun _ full => full⟩

theorem Sent.trans {hub' hub'' : PubSubHub} (h : hub.Sent hub') (h' : hub'.Sent hub'') : hub.Sent hub'' :=
  ⟨h'.channelSubs.trans h.channelSubs, h'.patternSubs.trans h.patternSubs,
    fun id full => h'.overflowed id (h.overflowed id full)⟩

theorem send_sent (id : ℕ) (m : PubSubMsg) :
    hub.Sent (hub.send itemBytes id m).2 ∧
      ((hub.send itemBytes id m).1 = false → ((hub.send itemBytes id m).2.queues id).overflowed = true) := by
  unfold send
  dsimp only
  split_ifs
  · refine ⟨⟨rfl, rfl, fun other full => ?_⟩, by rintro ⟨⟩⟩
    by_cases same : other = id
    · subst same
      simpa using full
    · simpa [same] using full
  · refine ⟨⟨rfl, rfl, fun other full => ?_⟩, fun _ => by simp⟩
    by_cases same : other = id
    · subst same
      simp
    · simpa [same] using full

theorem sendEach_sent (m : PubSubMsg) (ids : List ℕ) :
    hub.Sent (hub.sendEach itemBytes m ids).2 ∧ (hub.sendEach itemBytes m ids).1.Sublist ids ∧
      ∀ id ∈ ids, id ∈ (hub.sendEach itemBytes m ids).1 ∨
        ((hub.sendEach itemBytes m ids).2.queues id).overflowed = true := by
  induction ids generalizing hub with
  | nil => exact ⟨.refl hub, List.Sublist.slnil, fun _ mem => absurd mem List.not_mem_nil⟩
  | cons id ids ih =>
    obtain ⟨first, full⟩ := @send_sent itemBytes hub id m
    obtain ⟨rest, sub, kept⟩ := @ih (hub.send itemBytes id m).2
    simp only [sendEach]
    refine ⟨first.trans rest, ?_, fun other mem => ?_⟩
    · split_ifs
      · exact sub.cons_cons id
      · exact sub.cons id
    · cases sent : (hub.send itemBytes id m).1 with
      | true =>
        rw [if_pos rfl]
        rcases List.mem_cons.mp mem with rfl | mem
        · exact .inl List.mem_cons_self
        · exact (kept other mem).imp_left (List.mem_cons_of_mem _)
      | false =>
        rw [if_neg Bool.false_ne_true]
        rcases List.mem_cons.mp mem with rfl | mem
        · exact .inr (rest.overflowed _ (full sent))
        · exact kept other mem

theorem sendPatterns_sent (channel : String) (message : Bytes) (subs : List (String × ℕ)) :
    hub.Sent (hub.sendPatterns itemBytes channel message subs).2 := by
  induction subs generalizing hub with
  | nil => exact .refl hub
  | cons sub subs ih => exact (send_sent sub.2 _).1.trans ih

/-- A publication adds no subscription and ends one only when it tells the connection to disconnect. -/
structure Published (hub hub' : PubSubHub) : Prop where
  wf : hub'.Wf
  gained : ∀ k id name, hub'.Registered k id name → hub.Registered k id name
  kept : ∀ k id name, hub.Registered k id name →
    hub'.Registered k id name ∨ (hub'.queues id).overflowed = true
  overflowed : ∀ id, (hub.queues id).overflowed = true → (hub'.queues id).overflowed = true

theorem publish_published (h : hub.Wf) (channel : String) (message : Bytes) :
    hub.Published (hub.publish itemBytes channel message).2 := by
  obtain ⟨direct, sub, kept⟩ := @sendEach_sent itemBytes hub (.message channel message)
    (Multimap.holders channel hub.channelSubs)
  rw [publish_eq]
  dsimp only
  generalize hub.sendEach itemBytes (.message channel message)
    (Multimap.holders channel hub.channelSubs) = sent at direct sub kept ⊢
  have rest := @sendPatterns_sent itemBytes
    { sent.2 with channelSubs := Multimap.keep channel sent.1 sent.2.channelSubs } channel message
    (sent.2.patternSubs.filter fun e => globMatch e.1 channel)
  generalize PubSubHub.sendPatterns itemBytes channel message
    (sent.2.patternSubs.filter fun e => globMatch e.1 channel)
    { sent.2 with channelSubs := Multimap.keep channel sent.1 sent.2.channelSubs } = last at rest ⊢
  have channels : last.2.channelSubs = Multimap.keep channel sent.1 hub.channelSubs :=
    direct.channelSubs ▸ rest.channelSubs
  have patterns : last.2.patternSubs = hub.patternSubs := rest.patternSubs.trans direct.patternSubs
  refine ⟨⟨?_, ?_⟩, fun k id name there => ?_, fun k id name there => ?_, fun id full => ?_⟩
  · rw [channels]
    exact h.channels.keep sub
  · rw [patterns]
    exact h.patterns
  · cases k with
    | channel =>
      have listed : Multimap.Lists last.2.channelSubs name id := there
      rw [channels] at listed
      exact (Multimap.keep_fewer h.channels sub).lists listed
    | pattern =>
      have listed : (name, id) ∈ last.2.patternSubs := there
      rwa [patterns] at listed
  · cases k with
    | channel =>
      have listed : Multimap.Lists hub.channelSubs name id := there
      by_cases full : (last.2.queues id).overflowed = true
      · exact .inr full
      · refine .inl ?_
        change Multimap.Lists last.2.channelSubs name id
        rw [channels]
        refine Multimap.lists_keep listed fun same => ?_
        have holder := (Multimap.mem_holders h.channels).mpr (same ▸ listed)
        exact (kept id holder).resolve_right fun dropped => full (rest.overflowed id dropped)
    | pattern =>
      refine .inl ?_
      change (name, id) ∈ last.2.patternSubs
      rw [patterns]
      exact there
  · exact rest.overflowed id (direct.overflowed id full)

end PubSubHub

/-! ## What the node holds of a connection -/

namespace Node

/-- The table of the interest has the connection. -/
def Holds (node : Node) (id : ℕ) : Interest → Prop
  | .watch key => node.hub.Registered (.watch key) (2 * id)
  | .query pattern => node.hub.Registered (.qsub pattern) (2 * id + 1)
  | .channel ch => node.pubSub.Registered .channel id ch
  | .pattern pat => node.pubSub.Registered .pattern id pat

/-- The queue that serves the interest was full: the connection has been told to disconnect. -/
def Overflowed (node : Node) (id : ℕ) : Interest → Prop
  | .watch _ => (node.hub.channels (2 * id)).overflowed = true
  | .query _ => (node.hub.channels (2 * id + 1)).overflowed = true
  | .channel _ | .pattern _ => (node.pubSub.queues id).overflowed = true

/-- No table has anyone twice, and each registration is for a queue of its kind. -/
structure Tidy (node : Node) : Prop where
  hub : node.hub.Distinct
  watches : ∀ key queue, node.hub.Registered (.watch key) queue → queue % 2 = 0
  queries : ∀ pattern queue, node.hub.Registered (.qsub pattern) queue → queue % 2 = 1
  pubSub : node.pubSub.Wf

/-- From one node to the other the connection loses nothing unless it has been told to disconnect, and
gains nothing. -/
structure Spares (id : ℕ) (node node' : Node) : Prop where
  told : ∀ i, node.Overflowed id i → node'.Overflowed id i
  kept : ∀ i, node.Holds id i → node'.Holds id i ∨ node'.Overflowed id i
  gained : ∀ i, node'.Holds id i → node.Holds id i

variable {node node' node'' : Node} {id : ℕ}

theorem Spares.refl (id : ℕ) (node : Node) : Spares id node node :=
  ⟨fun _ full => full, fun _ there => .inl there, fun _ there => there⟩

theorem Spares.trans (h : Spares id node node') (h' : Spares id node' node'') : Spares id node node'' := by
  refine ⟨fun i full => h'.told i (h.told i full), fun i there => ?_,
    fun i there => h.gained i (h'.gained i there)⟩
  rcases h.kept i there with there | full
  · exact h'.kept i there
  · exact .inr (h'.told i full)

/-- Where both hubs are the same the connection is spared. -/
theorem Spares.of_same (hub : node'.hub = node.hub) (pubSub : node'.pubSub = node.pubSub) :
    Spares id node node' := by
  have holds (i : Interest) : node'.Holds id i ↔ node.Holds id i := by
    cases i <;> simp only [Holds, hub, pubSub]
  have told (i : Interest) : node'.Overflowed id i ↔ node.Overflowed id i := by
    cases i <;> simp only [Overflowed, hub, pubSub]
  exact ⟨fun i => (told i).mpr, fun i there => .inl ((holds i).mpr there), fun i => (holds i).mp⟩

theorem Tidy.of_same (tidy : node.Tidy) (hub : node'.hub = node.hub) (pubSub : node'.pubSub = node.pubSub) :
    node'.Tidy :=
  ⟨hub ▸ tidy.hub, hub ▸ tidy.watches, hub ▸ tidy.queries, pubSub ▸ tidy.pubSub⟩

/-- Registrations may go from the hub of watched keys. -/
theorem Tidy.fewer (tidy : node.Tidy) {hub : WatchHub} (fewer : node.hub.Fewer hub) :
    Tidy { node with hub } :=
  ⟨tidy.hub.fewer fewer, fun key queue there => tidy.watches key queue (fewer.registered there),
    fun pattern queue there => tidy.queries pattern queue (fewer.registered there), tidy.pubSub⟩

theorem Tidy.register (tidy : node.Tidy) {r : Subscription} {queue : ℕ}
    (new : ¬node.hub.Registered r queue)
    (kind : queue % 2 = match r with | .watch _ => 0 | .qsub _ => 1) :
    Tidy { node with hub := node.hub.register r queue } := by
  refine ⟨tidy.hub.register new, fun key queue' there => ?_, fun pattern queue' there => ?_, tidy.pubSub⟩
  · rcases WatchHub.registered_register.mp there with old | ⟨rfl, rfl⟩
    · exact tidy.watches key queue' old
    · exact kind
  · rcases WatchHub.registered_register.mp there with old | ⟨rfl, rfl⟩
    · exact tidy.queries pattern queue' old
    · exact kind

/-- The hub of watched keys loses what overflows, and keeps what has been told. -/
theorem Spares.of_served (fewer : node.hub.Fewer node'.hub) (pubSub : node'.pubSub = node.pubSub)
    (served : ∀ r id, Served [] id (node.hub.Registered r id) (node'.hub.Registered r id)
      (node.hub.channels id) (node'.hub.channels id)) : Spares id node node' := by
  have same (k : SubscriptionKind) (name : String) :
      node'.pubSub.Registered k id name ↔ node.pubSub.Registered k id name := by rw [pubSub]
  refine ⟨fun i full => ?_, fun i there => ?_, fun i there => ?_⟩
  · cases i with
    | watch key => exact (served (.watch key) _).keeps.stays full
    | query pattern => exact (served (.qsub pattern) _).keeps.stays full
    | channel ch => exact (congrArg (fun hub : PubSubHub => (hub.queues id).overflowed) pubSub).trans full
    | pattern pat => exact (congrArg (fun hub : PubSubHub => (hub.queues id).overflowed) pubSub).trans full
  · cases i with
    | watch key => exact ((served (.watch key) (2 * id)).takes there).2
    | query pattern => exact ((served (.qsub pattern) (2 * id + 1)).takes there).2
    | channel ch => exact .inl ((same .channel ch).mpr there)
    | pattern pat => exact .inl ((same .pattern pat).mpr there)
  · cases i with
    | watch key => exact fewer.registered there
    | query pattern => exact fewer.registered there
    | channel ch => exact (same .channel ch).mp there
    | pattern pat => exact (same .pattern pat).mp there

section

variable (cfg : ServerConfig) (m : Moment)

/-- A new state of the store with its announcements spares everyone. -/
theorem announced_spares (node : Node) (now : ℕ) (first : List Announcement) (server : ServerState)
    (id : ℕ) :
    Spares id node { node with
      toWatchedNode := node.toWatchedNode.announcing cfg.codec cfg.watchItemBytes now first server } := by
  refine .of_served (announceAll_fewer _ _) rfl fun r id => ?_
  exact (announceAll_served _ node.hub r id).weaken fun n mem => absurd mem List.not_mem_nil

theorem announced_tidy (tidy : node.Tidy) (now : ℕ) (first : List Announcement) (server : ServerState) :
    Tidy { node with
      toWatchedNode := node.toWatchedNode.announcing cfg.codec cfg.watchItemBytes now first server } :=
  tidy.fewer (announceAll_fewer _ _) |>.of_same rfl rfl

theorem published_spares (tidy : node.Tidy) (channel : String) (message : Bytes) (id : ℕ) :
    Spares id node (node.publish cfg channel message).2 ∧ (node.publish cfg channel message).2.Tidy := by
  have sent := @PubSubHub.publish_published cfg.pubSubItemBytes _ tidy.pubSub channel message
  refine ⟨⟨fun i full => ?_, fun i there => ?_, fun i there => ?_⟩, tidy.hub, tidy.watches,
    tidy.queries, sent.wf⟩
  · cases i with
    | watch key => exact full
    | query pattern => exact full
    | channel ch => exact sent.overflowed id full
    | pattern pat => exact sent.overflowed id full
  · cases i with
    | watch key => exact .inl there
    | query pattern => exact .inl there
    | channel ch => exact sent.kept .channel id ch there
    | pattern pat => exact sent.kept .pattern id pat there
  · cases i with
    | watch key => exact there
    | query pattern => exact there
    | channel ch => exact sent.gained .channel id ch there
    | pattern pat => exact sent.gained .pattern id pat there

end

/-- The connection enters the table of an interest. -/
structure Enters (own : ℕ) (i : Interest) (node node' : Node) : Prop where
  told : ∀ id j, node'.Overflowed id j ↔ node.Overflowed id j
  holds : ∀ id j, node'.Holds id j ↔ node.Holds id j ∨ id = own ∧ j = i

/-- The connection leaves the tables of some interests. -/
structure Leaves (own : ℕ) (gone : Interest → Prop) (node node' : Node) : Prop where
  told : ∀ id j, node'.Overflowed id j ↔ node.Overflowed id j
  holds : ∀ id j, node'.Holds id j ↔ node.Holds id j ∧ ¬(id = own ∧ gone j)

variable {own : ℕ} {i : Interest} {gone gone' : Interest → Prop}

theorem Enters.spares (h : Enters own i node node') (other : id ≠ own) : Spares id node node' := by
  refine ⟨fun j => (h.told id j).mpr, fun j there => .inl ((h.holds id j).mpr (.inl there)), fun j there => ?_⟩
  exact ((h.holds id j).mp there).resolve_right fun new => other new.1

theorem Leaves.spares (h : Leaves own gone node node') (other : id ≠ own) : Spares id node node' := by
  refine ⟨fun j => (h.told id j).mpr, fun j there => .inl ?_, fun j there => ((h.holds id j).mp there).1⟩
  exact (h.holds id j).mpr ⟨there, fun left => other left.1⟩

theorem Leaves.refl (own : ℕ) (node : Node) : Leaves own (fun _ => False) node node :=
  ⟨fun _ _ => .rfl, fun _ _ => by simp⟩

theorem Leaves.trans (h : Leaves own gone node node') (h' : Leaves own gone' node' node'') :
    Leaves own (fun j => gone j ∨ gone' j) node node'' := by
  refine ⟨fun id j => (h'.told id j).trans (h.told id j), fun id j => ?_⟩
  rw [h'.holds, h.holds]
  tauto

theorem Leaves.congr (h : Leaves own gone node node') (same : ∀ j, gone' j ↔ gone j) :
    Leaves own gone' node node' := by
  obtain rfl : gone' = gone := funext fun j => propext (same j)
  exact h

theorem watch_enters (node : Node) (own : ℕ) (key : String) :
    Enters own (.watch key) node { node with hub := node.hub.register (.watch key) (2 * own) } := by
  refine ⟨fun id j => .rfl, fun id j => ?_⟩
  cases j with
  | watch key' =>
    refine WatchHub.registered_register.trans (or_congr_right ?_)
    rw [Subscription.watch.injEq, Interest.watch.injEq, Nat.mul_left_cancel_iff (by decide), and_comm]
  | query pattern => simp [Holds, WatchHub.registered_register]
  | channel ch => simp [Holds]
  | pattern pat => simp [Holds]

theorem query_enters (node : Node) (own : ℕ) (pattern : String) :
    Enters own (.query pattern) node
      { node with hub := node.hub.register (.qsub pattern) (2 * own + 1) } := by
  refine ⟨fun id j => .rfl, fun id j => ?_⟩
  cases j with
  | watch key => simp [Holds, WatchHub.registered_register]
  | query pattern' =>
    refine WatchHub.registered_register.trans (or_congr_right ?_)
    rw [Subscription.qsub.injEq, Interest.query.injEq, and_comm]
    refine and_congr_left fun _ => ?_
    omega
  | channel ch => simp [Holds]
  | pattern pat => simp [Holds]

theorem subscribe_enters (node : Node) (k : SubscriptionKind) (own : ℕ) (name : String) :
    Enters own (k.interest name) node { node with pubSub := node.pubSub.register k own name } := by
  refine ⟨fun id j => ?_, fun id j => ?_⟩
  · cases k <;> cases j <;> exact .rfl
  · cases k <;> cases j <;>
      simp [Holds, SubscriptionKind.interest, PubSubHub.registered_register]

theorem unwatch_leaves (node : Node) (own : ℕ) (keys : List String) :
    Leaves own (fun j => ∃ key ∈ keys, j = .watch key) node
      { node with
        hub := keys.foldl (fun hub key => hub.unregister (.watch key) (2 * own)) node.hub } := by
  induction keys generalizing node with
  | nil => exact (Leaves.refl own node).congr fun j => by simp
  | cons key keys ih =>
    have first : Leaves own (fun j => j = .watch key) node
        { node with hub := node.hub.unregister (.watch key) (2 * own) } := by
      refine ⟨fun id j => .rfl, fun id j => ?_⟩
      cases j with
      | watch key' =>
        refine WatchHub.registered_unregister.trans (and_congr_right fun _ => not_congr ?_)
        rw [Subscription.watch.injEq, Interest.watch.injEq, Nat.mul_left_cancel_iff (by decide), and_comm]
      | query pattern => simp [Holds, WatchHub.registered_unregister]
      | channel ch => simp [Holds]
      | pattern pat => simp [Holds]
    exact (first.trans (ih _)).congr fun j => by simp

theorem unquery_leaves (node : Node) (own : ℕ) (patterns : List String) :
    Leaves own (fun j => ∃ pattern ∈ patterns, j = .query pattern) node
      { node with
        hub := patterns.foldl (fun hub p => hub.unregister (.qsub p) (2 * own + 1)) node.hub } := by
  induction patterns generalizing node with
  | nil => exact (Leaves.refl own node).congr fun j => by simp
  | cons pattern patterns ih =>
    have first : Leaves own (fun j => j = .query pattern) node
        { node with hub := node.hub.unregister (.qsub pattern) (2 * own + 1) } := by
      refine ⟨fun id j => .rfl, fun id j => ?_⟩
      cases j with
      | watch key => simp [Holds, WatchHub.registered_unregister]
      | query pattern' =>
        refine WatchHub.registered_unregister.trans (and_congr_right fun _ => not_congr ?_)
        rw [Subscription.qsub.injEq, Interest.query.injEq, and_comm]
        refine and_congr_left fun _ => ?_
        omega
      | channel ch => simp [Holds]
      | pattern pat => simp [Holds]
    exact (first.trans (ih _)).congr fun j => by simp

theorem unsubscribe_leaves (node : Node) (k : SubscriptionKind) (own : ℕ) (names : List String) :
    Leaves own (fun j => ∃ name ∈ names, j = k.interest name) node
      { node with
        pubSub := names.foldl (fun hub name => hub.unregister k own name) node.pubSub } := by
  induction names generalizing node with
  | nil => exact (Leaves.refl own node).congr fun j => by simp
  | cons name names ih =>
    have first : Leaves own (fun j => j = k.interest name) node
        { node with pubSub := node.pubSub.unregister k own name } := by
      refine ⟨fun id j => ?_, fun id j => ?_⟩
      · cases k <;> cases j <;> exact .rfl
      · cases k <;> cases j <;>
          simp [Holds, SubscriptionKind.interest, PubSubHub.registered_unregister]
    exact (first.trans (ih _)).congr fun j => by simp

theorem Tidy.unregisterEach (tidy : node.Tidy) (r : String → Subscription) (id : ℕ) (names : List String) :
    Tidy { node with hub := names.foldl (fun hub name => hub.unregister (r name) id) node.hub } := by
  induction names generalizing node with
  | nil => exact tidy
  | cons name names ih =>
    exact @ih { node with hub := node.hub.unregister (r name) id }
      (tidy.fewer (WatchHub.unregister_fewer _ _ _))

theorem Tidy.unsubscribeEach (tidy : node.Tidy) (k : SubscriptionKind) (id : ℕ) (names : List String) :
    Tidy { node with
      pubSub := names.foldl (fun hub name => hub.unregister k id name) node.pubSub } := by
  induction names generalizing node with
  | nil => exact tidy
  | cons name names ih =>
    exact @ih { node with pubSub := node.pubSub.unregister k id name }
      ⟨tidy.hub, tidy.watches, tidy.queries, tidy.pubSub.unregister k id name⟩

/-- To take from a queue leaves the tables alone. -/
theorem taken_leaves (node : Node) (own queue : ℕ) (rest : List WatchNotif) :
    Leaves own (fun _ => False) node { node with hub := { node.hub with
      channels := Function.update node.hub.channels queue
        { node.hub.channels queue with queue := rest } } } := by
  have flag (id : ℕ) : (Function.update node.hub.channels queue
      { node.hub.channels queue with queue := rest } id).overflowed =
        (node.hub.channels id).overflowed := by
    by_cases same : id = queue
    · subst same
      simp
    · simp [same]
  refine ⟨fun id j => ?_, fun id j => ?_⟩
  · cases j <;> simp only [Overflowed, flag]
  · cases j <;> simp [Holds, WatchHub.Registered, WatchHub.mapOf]

theorem received_leaves (node : Node) (own id : ℕ) (rest : List PubSubMsg) :
    Leaves own (fun _ => False) node { node with pubSub := { node.pubSub with
      queues := Function.update node.pubSub.queues id { node.pubSub.queues id with queue := rest } } } := by
  have flag (other : ℕ) : (Function.update node.pubSub.queues id
      { node.pubSub.queues id with queue := rest } other).overflowed =
        (node.pubSub.queues other).overflowed := by
    by_cases same : other = id
    · subst same
      simp
    · simp [same]
  refine ⟨fun other j => ?_, fun other j => ?_⟩
  · cases j <;> simp only [Overflowed, flag]
  · cases j <;> simp [Holds, PubSubHub.Registered]

/-- At its end the connection leaves both tables of publications. -/
theorem unsubscribeAll_leaves (node : Node) (own : ℕ) :
    Leaves own Interest.Published node { node with pubSub := node.pubSub.unsubscribeAll own } := by
  refine ⟨fun id j => .rfl, fun id j => ?_⟩
  cases j <;> simp [Holds, Interest.Published, PubSubHub.registered_unsubscribeAll]

end Node

end Recached
