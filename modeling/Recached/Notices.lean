import Recached.Changes
import Recached.Watch

/-!
# No silent change

Whoever is registered for a key is told of its changes.  `announce_told` says what one announcement
puts into the queues, `executeReporting_changes` which keys a write can change, and `announced_each`
puts them together along a run.
-/

namespace Recached

open Text Lapse

/-! ## What announcements are for -/

/-- The notification has been queued, or the connection has been told to disconnect. -/
def WatchChannel.Told (n : WatchNotif) (c c' : WatchChannel) : Prop :=
  c'.overflowed = true ∨ ∃ added, c'.queue = c.queue ++ added ∧ n ∈ added

namespace WatchAction

/-- The time of an action that reaches the store. -/
def now : WatchAction → Option ℕ
  | write env _ _ | queued env _ _ | sweep env _ | replicated env _ => some env.now
  | install now _ => some now
  | _ => none

def IsFlush : WatchAction → Prop
  | write _ _ cmd | queued _ _ cmd => (ServerState.unwrapDedup cmd).1 = .flushDb
  | _ => False

end WatchAction

/-- Whoever is registered for a key that the action changes is told its state afterwards, or, when
the whole store is flushed, that everything under the name of the subscription is gone. -/
def Announces (codec : Codec) (action : WatchAction) (node node' : WatchedNode) : Prop :=
  ∀ now ∈ action.now, ∀ k, Changed now node.server.store.data node'.server.store.data k →
    ∀ r id, node.hub.Registered r id → r.wants k = true →
      (node.hub.channels id).Told (k, node'.server.store.getCurrent codec now k)
          (node'.hub.channels id) ∨
        action.IsFlush ∧ (node.hub.channels id).Told (r.name, nil) (node'.hub.channels id)

/-- The write would be executed: the server is healthy, and it is not a duplicate. -/
def ServerState.Accepts (st : ServerState) (cmd : Command) : Prop :=
  st.persistenceHealthy = true ∧
    ∀ w ∈ (unwrapDedup cmd).2, st.dedupIsDuplicate w.1 w.2 = false

/-- The writes that are executed do not change a value without a frame, and nobody watches what the
primary of a replica changes. -/
def Heeded (codec : Codec) (node : WatchedNode) : WatchAction → Prop
  | .write env _ cmd => node.server.Accepts cmd →
    LeavesValues codec env (ServerState.unwrapDedup cmd).1 (node.server.store.live env.now) ∧
      RenamesLive (ServerState.unwrapDedup cmd).1 env.now node.server.store.data
  | .queued env _ cmd =>
    LeavesValues codec env cmd (node.server.store.live env.now) ∧
      RenamesLive cmd env.now node.server.store.data
  | .replicated _ bytes => ∀ cmd, decodeFrame bytes = some cmd →
    (∀ r id, ¬node.hub.Registered r id) ∨
      node.server.store.Uncapped ∧ isWriteCommand cmd = true ∧ cmd ≠ .flushDb ∧
        (∀ key config, cmd ≠ .rlCheck key config) ∧
        ∀ k ∈ primaryKeys cmd, ∀ r id, node.hub.Registered r id → r.wants k = false
  | .install _ entries => ∀ k, k ∈ node.server.store.data ∨ k ∈ entries.map Prod.fst →
    ∀ r id, node.hub.Registered r id → r.wants k = false
  | _ => True

/-! ## What a queue takes -/

/-- The channel has taken the notifications, behind what was queued, or has overflowed. -/
structure WatchChannel.Took (ns : List WatchNotif) (c c' : WatchChannel) : Prop where
  stays : c.overflowed = true → c'.overflowed = true
  added : ∃ added, c'.queue = c.queue ++ added ∧ (c'.overflowed = true ∨ ∀ n ∈ ns, n ∈ added)

namespace WatchChannel

theorem Took.refl (c : WatchChannel) : Took [] c c := ⟨id, [], (List.append_nil _).symm, .inr nofun⟩

theorem Took.trans {ns ns' : List WatchNotif} {c c' c'' : WatchChannel} (h : Took ns c c')
    (h' : Took ns' c' c'') : Took (ns ++ ns') c c'' := by
  obtain ⟨stays, added, queue, took⟩ := h
  obtain ⟨stays', added', queue', took'⟩ := h'
  refine ⟨stays' ∘ stays, added ++ added', by rw [queue', queue, List.append_assoc], ?_⟩
  obtain full | took := took
  · exact .inl (stays' full)
  · refine took'.imp_right fun took' n hn => ?_
    rcases List.mem_append.mp hn with hn | hn
    · exact List.mem_append_left _ (took n hn)
    · exact List.mem_append_right _ (took' n hn)

theorem Took.of_overflowed {ns : List WatchNotif} {c c' : WatchChannel} (h : Took [] c c')
    (full : c'.overflowed = true) : Took ns c c' := by
  obtain ⟨stays, added, queue, -⟩ := h
  exact ⟨stays, added, queue, .inl full⟩

theorem Took.weaken {ns ns' : List WatchNotif} {c c' : WatchChannel} (h : Took ns c c')
    (fewer : ∀ n ∈ ns', n ∈ ns) : Took ns' c c' := by
  obtain ⟨stays, added, queue, took⟩ := h
  exact ⟨stays, added, queue, took.imp_right fun took n hn => took n (fewer n hn)⟩

theorem Took.forget {ns : List WatchNotif} {c c' : WatchChannel} (h : Took ns c c') : Took [] c c' :=
  h.weaken fun _ hn => absurd hn List.not_mem_nil

theorem notify_took (itemBytes : ℕ) (n : WatchNotif) (c : WatchChannel) :
    Took [n] c (c.notify itemBytes n).2 ∧
      ((c.notify itemBytes n).1 = true ∨ (c.notify itemBytes n).2.overflowed = true) := by
  unfold notify
  split_ifs
  · exact ⟨⟨id, [n], rfl, .inr fun _ h => h⟩, .inl rfl⟩
  · exact ⟨⟨fun _ => rfl, [], (List.append_nil _).symm, .inl rfl⟩, .inr rfl⟩

end WatchChannel

open WatchChannel

/-- From some channels to others every channel keeps what it has, and a subscriber in the list has
taken the notifications and is in the list afterwards, or has overflowed. -/
structure Served (ns : List WatchNotif) (id : ℕ) (there there' : Prop) (c c' : WatchChannel) : Prop where
  keeps : Took [] c c'
  takes : there → Took ns c c' ∧ (there' ∨ c'.overflowed = true)

section

variable {itemBytes : ℕ} {ns ns' : List WatchNotif} {id : ℕ} {p p' p'' : Prop}
  {c c' c'' : WatchChannel}

theorem Served.refl (id : ℕ) (p : Prop) (c : WatchChannel) : Served [] id p p c c :=
  ⟨.refl c, fun h => ⟨.refl c, .inl h⟩⟩

theorem Served.trans (h : Served ns id p p' c c') (h' : Served ns' id p' p'' c' c'') :
    Served (ns ++ ns') id p p'' c c'' := by
  have keeps : Took [] c c'' := h.keeps.trans h'.keeps
  refine ⟨keeps, fun there => ?_⟩
  obtain ⟨took, there' | full⟩ := h.takes there
  · obtain ⟨took', there''⟩ := h'.takes there'
    exact ⟨took.trans took', there''⟩
  · have full' := h'.keeps.stays full
    exact ⟨keeps.of_overflowed full', .inr full'⟩

theorem Served.weaken (h : Served ns id p p' c c') (fewer : ∀ n ∈ ns', n ∈ ns) :
    Served ns' id p p' c c' :=
  ⟨h.keeps, fun there => ⟨(h.takes there).1.weaken fewer, (h.takes there).2⟩⟩

theorem Served.imp {q q' : Prop} (h : Served ns id p p' c c') (before : q → p) (after : p' → q') :
    Served ns id q q' c c' :=
  ⟨h.keeps, fun there => ⟨(h.takes (before there)).1, (h.takes (before there)).2.imp_left after⟩⟩

theorem notifySubs_served (n : WatchNotif) (subs : List ℕ) (channels : WatchChannels) (id : ℕ) :
    Served [n] id (id ∈ subs) (id ∈ (notifySubs itemBytes n subs channels).1) (channels id)
      ((notifySubs itemBytes n subs channels).2 id) := by
  induction subs generalizing channels with
  | nil => exact ⟨.refl _, nofun⟩
  | cons sub subs ih =>
    obtain ⟨took, kept⟩ := notify_took itemBytes n (channels sub)
    have rest := ih (Function.update channels sub ((channels sub).notify itemBytes n).2)
    simp only [notifySubs]
    by_cases same : id = sub
    · subst same
      rw [Function.update_self] at rest
      refine ⟨took.forget.trans rest.keeps, fun _ => ⟨took.trans rest.keeps, ?_⟩⟩
      obtain kept | full := kept
      · rw [if_pos kept]
        exact .inl List.mem_cons_self
      · exact .inr (rest.keeps.stays full)
    · rw [Function.update_of_ne same] at rest
      refine rest.imp (fun there => (List.mem_cons.mp there).resolve_left same) fun there => ?_
      split_ifs
      · exact List.mem_cons_of_mem _ there
      · exact there

theorem notifyEach_served (ns : List WatchNotif) (subs : List ℕ) (channels : WatchChannels) (id : ℕ) :
    Served ns id (id ∈ subs) (id ∈ (notifyEach itemBytes ns subs channels).1) (channels id)
      ((notifyEach itemBytes ns subs channels).2 id) := by
  induction ns generalizing subs channels with
  | nil => exact .refl ..
  | cons n ns ih => exact (notifySubs_served n subs channels id).trans (ih _ _)

/-- The subscriber is listed under the name. -/
def WatchMap.Lists (map : WatchMap) (name : String) (id : ℕ) : Prop :=
  ∃ subs, (name, subs) ∈ map ∧ id ∈ subs

theorem lists_prune {map : WatchMap} {name : String} : map.prune.Lists name id ↔ map.Lists name id := by
  constructor
  · rintro ⟨subs, mem, hid⟩
    exact ⟨subs, (List.mem_filter.mp mem).1, hid⟩
  · rintro ⟨subs, mem, hid⟩
    refine ⟨subs, List.mem_filter.mpr ⟨mem, ?_⟩, hid⟩
    cases subs with
    | nil => cases hid
    | cons sub subs => rfl

theorem notifyNames_served (concerns : String → List WatchNotif) (map : WatchMap)
    (channels : WatchChannels) (name : String) (id : ℕ) :
    Served (concerns name) id (map.Lists name id)
      ((notifyNames itemBytes concerns map channels).1.Lists name id) (channels id)
      ((notifyNames itemBytes concerns map channels).2 id) := by
  induction map generalizing channels with
  | nil => exact ⟨.refl _, fun ⟨_, mem, _⟩ => by cases mem⟩
  | cons entry map ih =>
    obtain ⟨other, subs⟩ := entry
    have first := @notifyEach_served itemBytes (concerns other) subs channels id
    have rest := ih (notifyEach itemBytes (concerns other) subs channels).2
    simp only [notifyNames]
    refine ⟨first.keeps.trans rest.keeps, fun ⟨listed, mem, hid⟩ => ?_⟩
    rcases List.mem_cons.mp mem with eq | mem
    · obtain ⟨rfl, rfl⟩ := Prod.mk.inj eq
      obtain ⟨took, there⟩ := first.takes hid
      refine ⟨(took.trans rest.keeps).weaken fun n hn => List.mem_append_left _ hn, ?_⟩
      obtain there | full := there
      · exact .inl ⟨_, List.mem_cons_self, there⟩
      · exact .inr (rest.keeps.stays full)
    · obtain ⟨took, there⟩ := rest.takes ⟨listed, mem, hid⟩
      refine ⟨(first.keeps.trans took).weaken fun n hn => List.mem_append_right _ hn, ?_⟩
      exact there.imp_left fun ⟨subs, mem, hid⟩ => ⟨subs, List.mem_cons_of_mem _ mem, hid⟩

theorem Served.append (h : Served ns id p p' c c') (keeps : Took [] c' c'') : Served ns id p p' c c'' := by
  refine ⟨h.keeps.trans keeps, fun there => ?_⟩
  obtain ⟨took, there'⟩ := h.takes there
  refine ⟨(took.trans keeps).weaken fun n hn => List.mem_append_left _ hn, ?_⟩
  exact there'.imp_right keeps.stays

theorem Served.prepend (keeps : Took [] c c') (h : Served ns id p p' c' c'') : Served ns id p p' c c'' :=
  ⟨keeps.trans h.keeps, fun there => ⟨keeps.trans (h.takes there).1, (h.takes there).2⟩⟩

theorem foldNames_served (ns : List WatchNotif) (map : WatchMap) (channels : WatchChannels)
    (name : String) (id : ℕ) :
    let after := ns.foldl (fun (acc : WatchMap × WatchChannels) n =>
      let (map, channels) :=
        notifyNames itemBytes (fun name => if name = n.1 then [n] else []) acc.1 acc.2
      (map.prune, channels)) (map, channels)
    Served (ns.filter fun n => name = n.1) id (map.Lists name id) (after.1.Lists name id) (channels id)
      (after.2 id) := by
  induction ns generalizing map channels with
  | nil => exact .refl ..
  | cons n ns ih =>
    have first := @notifyNames_served itemBytes (fun name => if name = n.1 then [n] else []) map channels
      name id
    refine ((first.imp (fun h => h) lists_prune.mpr).trans (ih _ _)).weaken fun m hm => ?_
    by_cases same : name = n.1
    · simpa [same, List.filter_cons] using hm
    · simpa [same, List.filter_cons] using hm

end

/-! ## Announcements -/

/-- What an announcement tells those who have a subscription. -/
def Announcement.told (r : Subscription) : Announcement → List WatchNotif
  | .changes ns => ns.filter fun n => r.wants n.1
  | .flushed => [(r.name, nil)]

variable {itemBytes : ℕ}

theorem announce_served (hub : WatchHub) (a : Announcement) (r : Subscription) (id : ℕ) :
    Served (a.told r) id (hub.Registered r id) ((hub.announce itemBytes a).Registered r id)
      (hub.channels id) ((hub.announce itemBytes a).channels id) := by
  cases a with
  | changes ns =>
    have watchers := @foldNames_served itemBytes ns hub.map hub.channels
    dsimp only at watchers
    have queries := @notifyNames_served itemBytes (fun pattern => ns.filter fun n => globMatch pattern n.1)
      hub.patterns
    cases r with
    | watch key => exact (watchers key id).append (queries _ key id).keeps
    | qsub pattern =>
      exact .prepend (watchers pattern id).keeps
        ((queries _ pattern id).imp (fun h => h) lists_prune.mpr)
  | flushed =>
    have watchers := @notifyNames_served itemBytes (fun name => [(name, nil)]) hub.map hub.channels
    have queries := @notifyNames_served itemBytes (fun pattern => [(pattern, nil)]) hub.patterns
    cases r with
    | watch key => exact (watchers key id).append (queries _ key id).keeps
    | qsub pattern =>
      exact .prepend (watchers pattern id).keeps
        ((queries _ pattern id).imp (fun h => h) lists_prune.mpr)

theorem announceAll_served (announcements : List Announcement) (hub : WatchHub) (r : Subscription)
    (id : ℕ) :
    Served (announcements.flatMap (Announcement.told r)) id (hub.Registered r id)
      ((announcements.foldl (WatchHub.announce itemBytes) hub).Registered r id) (hub.channels id)
      ((announcements.foldl (WatchHub.announce itemBytes) hub).channels id) := by
  induction announcements generalizing hub with
  | nil => exact .refl ..
  | cons a announcements ih => exact (announce_served hub a r id).trans (ih _)

theorem Served.told {ns : List WatchNotif} {id : ℕ} {p p' : Prop} {c c' : WatchChannel}
    (h : Served ns id p p' c c') (there : p) {n : WatchNotif} (hn : n ∈ ns) : c.Told n c' := by
  obtain ⟨-, added, queue, took⟩ := (h.takes there).1
  exact took.imp_right fun took => ⟨added, queue, took n hn⟩

/-! ## Writes -/

def noticeOf : Command → Option (List String)
  | .flushDb => none
  | cmd => some (primaryKeys cmd)

/-- The notices of a write and of the keys evicted for it. -/
def noticesOf (cmd : Command) (reply : Value) (now : ℕ) (victims : List String) :
    List (Option (List String)) :=
  (broadcastFor cmd reply now).toList.map (fun _ => noticeOf cmd) ++ victims.map fun key => some [key]

theorem applyWriteEffects_spec (st : ServerState) (now origin : ℕ) (cmd : Command) (reply : Value) :
    (st.applyWriteEffects now origin cmd reply).store = st.store ∧
      (st.applyWriteEffects now origin cmd reply).notices = st.notices ++ noticesOf cmd reply now [] := by
  unfold ServerState.applyWriteEffects noticesOf
  cases broadcastFor cmd reply now with
  | none => simp
  | some msg =>
    refine ⟨rfl, ?_⟩
    cases cmd <;> rfl

theorem applyEvictionEffects_spec (st : ServerState) (now origin : ℕ) (victims : List String) :
    (st.applyEvictionEffects now origin victims).store = st.store ∧
      (st.applyEvictionEffects now origin victims).notices =
        st.notices ++ victims.map fun key => some [key] := by
  induction victims generalizing st with
  | nil => simp [ServerState.applyEvictionEffects]
  | cons key victims ih =>
    have first := applyWriteEffects_spec st now origin (.del [key]) (.integer 1)
    obtain ⟨store, notices⟩ := ih (st.applyWriteEffects now origin (.del [key]) (.integer 1))
    refine ⟨store.trans first.1, notices.trans ?_⟩
    rw [first.2, List.append_assoc]
    rfl

/-- The state of a server after a write that it has executed. -/
structure Executed (codec : Codec) (env : Env) (cmd : Command) (st st' : ServerState) : Prop where
  store : st'.store = (executeReporting codec env cmd st.store).2.1
  notices : st'.notices = st.notices ++ noticesOf cmd (executeReporting codec env cmd st.store).1 env.now
    (executeReporting codec env cmd st.store).2.2

theorem executeQueuedWrite_executed (codec : Codec) (env : Env) (origin : ℕ) (cmd : Command)
    (st : ServerState) : Executed codec env cmd st (st.executeQueuedWrite codec env origin cmd) := by
  have effects := applyWriteEffects_spec
    { st with store := (executeReporting codec env cmd st.store).2.1 } env.now origin cmd
    (executeReporting codec env cmd st.store).1
  have evictions := applyEvictionEffects_spec (ServerState.applyWriteEffects env.now origin cmd
    (executeReporting codec env cmd st.store).1
    { st with store := (executeReporting codec env cmd st.store).2.1 }) env.now origin
    (executeReporting codec env cmd st.store).2.2
  refine ⟨evictions.1.trans effects.1, evictions.2.trans ?_⟩
  rw [effects.2, noticesOf, noticesOf]
  simp

theorem commitWrite_spec (st : ServerState) (origin : ℕ) (cmd : Command) (wrapper : Option (String × ℕ)) :
    (st.commitWrite origin cmd wrapper).store = st.store ∧
      (st.commitWrite origin cmd wrapper).notices = st.notices := by
  unfold ServerState.commitWrite
  split <;> split <;> exact ⟨rfl, rfl⟩

theorem executeOrderedWrite_executed (codec : Codec) (env : Env) (origin : ℕ) (cmd : Command)
    (st : ServerState) :
    (st.executeOrderedWrite codec env origin cmd).2 = st ∨
      st.Accepts cmd ∧ Executed codec env (ServerState.unwrapDedup cmd).1 st
        (st.executeOrderedWrite codec env origin cmd).2 := by
  unfold ServerState.executeOrderedWrite
  split
  · exact .inl rfl
  · next healthy =>
    dsimp only
    split
    · exact .inl rfl
    · next fresh =>
      have accepts : st.Accepts cmd := by
        refine ⟨by simpa using healthy, fun w hw => ?_⟩
        simp only [Option.any_eq_true, not_exists, not_and, Bool.not_eq_true] at fresh
        exact fresh w hw
      have queued := executeQueuedWrite_executed codec env origin (ServerState.unwrapDedup cmd).1 st
      refine .inr ⟨accepts, ?_⟩
      split
      · exact queued
      · have commit := commitWrite_spec (st.executeQueuedWrite codec env origin
          (ServerState.unwrapDedup cmd).1) origin (ServerState.unwrapDedup cmd).1
          (ServerState.unwrapDedup cmd).2
        exact ⟨commit.1.trans queued.store, commit.2.trans queued.notices⟩

section

variable {codec : Codec} {node : WatchedNode} {server : ServerState} {r : Subscription} {id : ℕ}

/-- What the announcements of a new state of the server tell a registered connection. -/
theorem announcing_told (itemBytes : ℕ) {now : ℕ} (first : List Announcement) {added : List (Option (List String))}
    (notices : server.notices = node.server.notices ++ added) (there : node.hub.Registered r id)
    {n : WatchNotif} {a : Announcement}
    (ha : a ∈ first ++ added.map (Announcement.ofNotice codec now server.store)) (hn : n ∈ a.told r) :
    (node.hub.channels id).Told n
      ((node.announcing codec itemBytes now first server).hub.channels id) := by
  have fresh : server.notices.drop node.server.notices.length = added := by
    rw [notices, List.drop_left]
  simp only [WatchedNode.announcing, fresh]
  exact (announceAll_served _ node.hub r id).told there (List.mem_flatMap.mpr ⟨a, ha, hn⟩)

theorem mem_told_changes {ns : List WatchNotif} {n : WatchNotif} (hn : n ∈ ns)
    (wants : r.wants n.1 = true) : n ∈ (Announcement.changes ns).told r :=
  List.mem_filter.mpr ⟨hn, wants⟩

theorem mem_told_notice {now : ℕ} {s : KeyValueStore} {keys : List String} {k : String}
    (hk : k ∈ keys) (wants : r.wants k = true) :
    (k, s.getCurrent codec now k) ∈ (Announcement.ofNotice codec now s (some keys)).told r :=
  mem_told_changes (List.mem_map.mpr ⟨k, hk, rfl⟩) wants

theorem noticeOf_eq {cmd : Command} (notFlush : cmd ≠ .flushDb) : noticeOf cmd = some (primaryKeys cmd) := by
  cases cmd
  case flushDb => exact absurd rfl notFlush
  all_goals rfl

theorem mem_notices {cmd : Command} {reply : Value} {now : ℕ} {victims : List String}
    (framed : broadcastFor cmd reply now ≠ none) : noticeOf cmd ∈ noticesOf cmd reply now victims := by
  obtain ⟨msg, sent⟩ := Option.ne_none_iff_exists'.mp framed
  exact List.mem_append_left _ (List.mem_map.mpr ⟨msg, by simp [sent], rfl⟩)

theorem executed_announces {env : Env} {cmd : Command} (write : isWriteCommand cmd = true)
    (leaves : LeavesValues codec env cmd (node.server.store.live env.now))
    (renames : RenamesLive cmd env.now node.server.store.data)
    (executed : Executed codec env cmd node.server server) {k : String}
    (changed : Changed env.now node.server.store.data server.store.data k)
    (there : node.hub.Registered r id) (wants : r.wants k = true) :
    (node.hub.channels id).Told (k, server.store.getCurrent codec env.now k)
        ((node.announcing codec itemBytes env.now [] server).hub.channels id) ∨
      cmd = .flushDb ∧ (node.hub.channels id).Told (r.name, nil)
        ((node.announcing codec itemBytes env.now [] server).hub.channels id) := by
  have told {n : WatchNotif} {notice : Option (List String)} (mem : notice ∈ noticesOf cmd
      (executeReporting codec env cmd node.server.store).1 env.now
      (executeReporting codec env cmd node.server.store).2.2)
      (hn : n ∈ (Announcement.ofNotice codec env.now server.store notice).told r) :=
    announcing_told itemBytes [] executed.notices there (List.mem_map.mpr ⟨notice, mem, rfl⟩) hn
  rw [executed.store] at changed
  obtain victim | ⟨framed, flush | primary⟩ := executeReporting_changes codec env write leaves renames changed
  · have mem : some [k] ∈ noticesOf cmd (executeReporting codec env cmd node.server.store).1 env.now
        (executeReporting codec env cmd node.server.store).2.2 :=
      List.mem_append_right _ (List.mem_map.mpr ⟨k, victim, rfl⟩)
    exact .inl (told mem (mem_told_notice List.mem_cons_self wants))
  · exact .inr ⟨flush, told (mem_notices framed) (by rw [flush]; exact List.mem_cons_self)⟩
  · by_cases flush : cmd = .flushDb
    · exact .inr ⟨flush, told (mem_notices framed) (by rw [flush]; exact List.mem_cons_self)⟩
    · exact .inl (told (mem_notices framed) (by rw [noticeOf_eq flush]; exact mem_told_notice primary wants))

/-! ## The sweeper -/

theorem getElem?_removeExpired (now : ℕ) (keys : List String) (s : KeyValueStore) (k : String) :
    (s.removeExpired now keys).data[k]? =
      if k ∈ s.sweptKeys now keys then none else s.data[k]? := by
  induction keys generalizing s with
  | nil => rfl
  | cons key keys ih =>
    have split : s.removeExpired now (key :: keys) =
        (s.removeExpired now [key]).removeExpired now keys := rfl
    rw [split, ih, getElem?_removeExpired_one, KeyValueStore.sweptKeys]
    by_cases lapsed : ((s.data[key]?).any fun e => e.isExpired now) = true
    · by_cases same : k = key <;> simp [lapsed, same]
    · simp [lapsed]

theorem dropped_none {keys : List String} {d : Data} {k : String} (h : d[k]? = none) :
    (dropped keys d)[k]? = none := by
  induction keys generalizing d with
  | nil => exact h
  | cons key keys ih =>
    refine ih ?_
    rw [Std.ExtTreeMap.getElem?_erase]
    split_ifs
    · rfl
    · exact h

theorem sweep_announces {env : Env} {keys : List String} {k : String}
    (changed : Changed env.now node.server.store.data (node.server.sweep env keys).store.data k)
    (there : node.hub.Registered r id) (wants : r.wants k = true) :
    (node.hub.channels id).Told (k, (node.server.sweep env keys).store.getCurrent codec env.now k)
      ((node.announcing codec itemBytes env.now
        [.changes ((node.server.store.sweptKeys env.now keys).map fun key => (key, nil))]
        (node.server.sweep env keys)).hub.channels id) := by
  obtain ⟨victims, listed, evicts⟩ := KeyValueStore.tryEvictForMemory_evicts env []
    (node.server.store.removeExpired env.now keys)
  have spec := applyEvictionEffects_spec
    { node.server with
      store := ((node.server.store.removeExpired env.now keys).tryEvictForMemory env []).2.1 }
    env.now 0 ((node.server.store.removeExpired env.now keys).tryEvictForMemory env []).2.2
  obtain ⟨store, notices⟩ := spec
  change (node.server.sweep env keys).store = _ at store
  change (node.server.sweep env keys).notices = _ at notices
  have after : (node.server.sweep env keys).store.data =
      dropped victims (node.server.store.removeExpired env.now keys).data := by
    rw [store]
    exact evicts.data
  rw [List.nil_append] at listed
  by_cases swept : k ∈ node.server.store.sweptKeys env.now keys
  · have gone : (node.server.sweep env keys).store.data[k]? = none := by
      rw [after]
      exact dropped_none (by rw [getElem?_removeExpired, if_pos swept])
    have state : (node.server.sweep env keys).store.getCurrent codec env.now k = nil := by
      simp [KeyValueStore.getCurrent, KeyValueStore.live, Lapse.live, gone]
    rw [state]
    exact announcing_told itemBytes _ notices there List.mem_cons_self
      (mem_told_changes (List.mem_map.mpr ⟨k, swept, rfl⟩) wants)
  · by_cases victim : k ∈ victims
    · have mem : some [k] ∈ ((node.server.store.removeExpired env.now keys).tryEvictForMemory
          env []).2.2.map fun key => some [key] :=
        List.mem_map.mpr ⟨k, listed ▸ victim, rfl⟩
      exact announcing_told itemBytes _ notices there
        (List.mem_append_right _ (List.mem_map.mpr ⟨_, mem, rfl⟩))
        (mem_told_notice List.mem_cons_self wants)
    · refine absurd changed (not_changed_of_getElem? ?_)
      rw [after, getElem?_dropped _ _ victim, getElem?_removeExpired, if_neg swept]

/-! ## The primary of a replica -/

theorem applyReplFrame_spec (codec : Codec) (env : Env) (bytes : Bytes) (st : ServerState) :
    (st.applyReplFrame codec env bytes).2.store = st.store ∨
      ∃ cmd, decodeFrame bytes = some cmd ∧
        (st.applyReplFrame codec env bytes).2.store = (execute codec env cmd st.store).2 := by
  unfold ServerState.applyReplFrame
  split
  · exact .inl rfl
  · next cmd decoded =>
    refine .inr ⟨cmd, decoded, ?_⟩
    split <;> next eq => rw [eq]

theorem replicated_unheard {env : Env} {bytes : Bytes}
    (heeded : Heeded codec node (.replicated env bytes)) {k : String}
    (changed : Changed env.now node.server.store.data
      (node.server.applyReplFrame codec env bytes).2.store.data k)
    (there : node.hub.Registered r id) : r.wants k = false := by
  obtain same | ⟨cmd, decoded, after⟩ := applyReplFrame_spec codec env bytes node.server
  · exact absurd changed (not_changed_of_getElem? (by rw [same]))
  · obtain nobody | ⟨uncapped, write, notFlush, notCheck, unwatched⟩ := heeded cmd decoded
    · exact absurd there (nobody r id)
    · refine unwatched k ?_ r id there
      by_contra notPrimary
      refine not_changed_of_getElem? ?_ changed
      rw [after]
      have data := (executeReporting_uncapped codec env cmd uncapped).data
      exact (congrArg (·[k]?) data).trans
        (getElem?_run_write codec env write notFlush notCheck notPrimary _)

theorem getElem?_restored (now : ℕ) {entries : List SnapshotEntry} {k : String}
    (other : k ∉ entries.map Prod.fst) (d : Data) :
    (entries.foldl (fun data e => data.insert e.1 ⟨e.2, now⟩) d)[k]? = d[k]? := by
  induction entries generalizing d with
  | nil => rfl
  | cons e entries ih =>
    obtain ⟨ne, rest⟩ := List.ne_and_not_mem_of_not_mem_cons other
    rw [List.foldl_cons, ih rest, Std.ExtTreeMap.getElem?_insert, if_neg]
    exact fun eq => ne (Std.LawfulEqOrd.eq_of_compare eq).symm

theorem install_unheard {now : ℕ} {entries : List SnapshotEntry}
    (heeded : Heeded codec node (.install now entries)) {k : String}
    (changed : Changed now node.server.store.data (node.server.store.replace now entries).data k)
    (there : node.hub.Registered r id) : r.wants k = false := by
  refine heeded k ?_ r id there
  by_contra neither
  obtain ⟨before, other⟩ := not_or.mp neither
  have kept : k ∉ (entries.filter fun e => !e.2.isExpired now).map Prod.fst := by
    intro mem
    obtain ⟨e, he, rfl⟩ := List.mem_map.mp mem
    exact other (List.mem_map.mpr ⟨e, (List.mem_filter.mp he).1, rfl⟩)
  have after : (node.server.store.replace now entries).data[k]? = none :=
    (getElem?_restored now kept ∅).trans (by simp)
  have absent : node.server.store.data[k]? = none := by
    rw [Std.ExtTreeMap.mem_iff_isSome_getElem?, Option.not_isSome_iff_eq_none] at before
    exact before
  exact not_changed_of_getElem? (after.trans absent.symm) changed

/-! ## Along a run -/

theorem isWriteCommand_unwrapDedup {cmd : Command} (write : isWriteCommand cmd = true) :
    isWriteCommand (ServerState.unwrapDedup cmd).1 = true := by
  cases cmd
  case dedup client id inner => exact write
  all_goals exact write

theorem step_announces {node' : WatchedNode} (action : WatchAction)
    (heeded : Heeded codec node action) (next : node.step codec itemBytes action = some node') :
    Announces codec action node node' := by
  intro now hnow k changed r id there wants
  cases action with
  | register | unregister | receive => cases hnow
  | write env origin cmd =>
    obtain rfl := Option.some.inj hnow
    simp only [WatchedNode.step] at next
    split_ifs at next with write
    obtain rfl := Option.some.inj next
    obtain same | ⟨accepts, executed⟩ := executeOrderedWrite_executed codec env origin cmd node.server
    · exact absurd changed (not_changed_of_getElem? (by simp [WatchedNode.announcing, same]))
    · obtain ⟨leaves, renames⟩ := heeded accepts
      exact executed_announces (isWriteCommand_unwrapDedup write) leaves renames executed changed there wants
  | queued env origin cmd =>
    obtain rfl := Option.some.inj hnow
    simp only [WatchedNode.step] at next
    split_ifs at next with write
    obtain rfl := Option.some.inj next
    have executed := executeQueuedWrite_executed codec env origin cmd node.server
    obtain told | ⟨flush, told⟩ :=
      executed_announces write heeded.1 heeded.2 executed changed there wants
    · exact .inl told
    · exact .inr ⟨by rw [WatchAction.IsFlush, flush]; rfl, told⟩
  | sweep env keys =>
    obtain rfl := Option.some.inj hnow
    obtain rfl := Option.some.inj next
    exact .inl (sweep_announces changed there wants)
  | replicated env bytes =>
    obtain rfl := Option.some.inj hnow
    obtain rfl := Option.some.inj next
    exact absurd wants (by rw [replicated_unheard heeded changed there]; decide)
  | install now entries =>
    obtain rfl := Option.some.inj hnow
    obtain rfl := Option.some.inj next
    exact absurd wants (by rw [install_unheard heeded changed there]; decide)

end

/-- In a run whose steps are heeded, every change of a key is announced to everyone who is registered
for it at that moment. -/
theorem announced_each (codec : Codec) (itemBytes : ℕ) (initial : WatchedNode)
    (actions : List WatchAction)
    (heeded : Runs.Each (WatchedNode.step codec itemBytes) (Heeded codec) initial actions) :
    Runs.Each (WatchedNode.step codec itemBytes)
      (fun node action => ∀ node' ∈ node.step codec itemBytes action, Announces codec action node node')
      initial actions :=
  heeded.imp fun _ action heeds _ next => step_announces action heeds next

/-- A connection watches a key, and a client sets it. -/
def watchedSet : List WatchAction :=
  [.register (.watch "k") 1, .write (.fixed 0) 2 (.set "k" [118] {})]

theorem announced_each_set :
    Runs.Each (WatchedNode.step .literals 72)
      (fun node action =>
        ∀ node' ∈ node.step .literals 72 action, Announces .literals action node node')
      { server := { store := {} } } watchedSet :=
  announced_each .literals 72 { server := { store := {} } } watchedSet
    ⟨trivial, fun _ _ => ⟨fun _ => ⟨trivial, nofun⟩, fun _ _ => trivial⟩⟩

/-- On a replica the primary sets a watched key, and the connection is not told. -/
theorem replicated_set_unannounced :
    ∃ node node', Runs.exec (WatchedNode.step .literals 72) { server := { store := {} } }
        [.register (.watch "k") 1] = some node ∧
      node.step .literals 72 (.replicated (.fixed 0) (respPush [asBytes "SET", asBytes "k", [118]])) =
        some node' ∧
      node.hub.Registered (.watch "k") 1 ∧
      shown (node.server.store.live 0 "k") = none ∧
      shown (node'.server.store.live 0 "k") = some (.str [118]) ∧
      (node'.hub.channels 1).queue = [] ∧
      ¬Announces .literals (.replicated (.fixed 0) (respPush [asBytes "SET", asBytes "k", [118]]))
        node node' := by
  refine ⟨_, _, rfl, rfl, ⟨[1], List.mem_cons_self, List.mem_cons_self⟩, rfl, rfl, rfl, fun announces => ?_⟩
  obtain told | ⟨flush, -⟩ := announces 0 rfl "k" (.inl nofun) (.watch "k") 1
    ⟨[1], List.mem_cons_self, List.mem_cons_self⟩ rfl
  · obtain full | ⟨added, queue, mem⟩ := told
    · exact absurd full nofun
    · have none : added = [] := queue.symm
      rw [none] at mem
      exact absurd mem List.not_mem_nil
  · exact flush

end Recached
