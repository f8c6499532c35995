import Recached.CatchUp
import Recached.Errors
import Recached.Lib.Runs
import Recached.Replication
import Recached.RoundTrip

/-!
# What follows a replica

A replica may have a log and replicas of its own.  It passes every frame of its primary on to them when
it has executed the frame; a full snapshot of its primary replaces its keyspace, and nothing is passed
on.  So what follows the replica keeps up with it as long as no full snapshot changes what it shows.
-/

namespace Recached

open Text Lapse

/-! ## A replica and what follows it -/

/-- A replica of the replica: the frames of the log that it has, `none` if it must be sent everything. -/
structure Follower where
  server : ServerState
  position : Option ℕ := none

/-- A replica with its files and its followers.  The file of the log holds the frames since the saved
snapshot; a follower is still to be sent the frames after its position. -/
structure Cascade where
  server : ServerState
  aof : Bool
  clock : ℕ := 0
  saved : List SnapshotEntry := []
  savedAt : ℕ := 0
  followers : List Follower := []

/-- What happens to the replica: its primary sends a frame or a full snapshot; it saves; a follower is
sent everything, loses its place, or executes the next frame; it restarts from its files. -/
inductive CascadeAction where
  | frame (env : Env) (bytes : Bytes)
  | resync (now : ℕ) (entries : List SnapshotEntry)
  | save (now : ℕ)
  | attach (i now : ℕ)
  | detach (i : ℕ)
  | forward (i : ℕ) (env : Env)
  | restart (envs : ℕ → Env) (checkpoint : ℕ)

/-- A follower executes the next of the frames that it has not got. -/
def Follower.take (codec : Codec) (env : Env) (log : List Bytes) (r : Follower) : Option Follower := do
  let position ← r.position
  let bytes ← log[position]?
  match r.server.applyReplFrame codec env bytes with
  | (true, server) => some { server, position := some (position + 1) }
  | (false, server) => some { server, position := none }

namespace Cascade

/-- Load the snapshot and replay the log.  `envs` gives the clock of each command. -/
def recover (codec : Codec) (envs : ℕ → Env) (checkpoint : ℕ) (s : Cascade) :
    Except ReplayError (ℕ × KeyValueStore) :=
  replayAofFromCheckpoint codec envs (s.server.log.drop s.savedAt).flatten checkpoint
    (({} : KeyValueStore).restore (envs 0).now s.saved)

def step (codec : Codec) (s : Cascade) : CascadeAction → Option Cascade
  | .frame env bytes =>
    if env.now < s.clock then none
    else some { s with server := (s.server.applyReplFrame codec env bytes).2, clock := env.now }
  | .resync now entries =>
    if now < s.clock then none
    else some { s with
      server := { s.server with store := s.server.store.replace now entries }, clock := now }
  | .save now =>
    if now < s.clock then none
    else some { s with
      saved := s.server.store.snapshot codec now, savedAt := s.server.log.length, clock := now }
  | .attach i now =>
    if now < s.clock then none
    else some { s with
      followers := s.followers.modify i fun r =>
        { server := { r.server with
            store := r.server.store.replace now (s.server.store.snapshot codec now) }
          position := some s.server.log.length }
      clock := now }
  | .detach i => some { s with followers := s.followers.modify i fun r => { r with position := none } }
  | .forward i env =>
    if env.now < s.clock then none
    else do
      let r ← s.followers[i]?
      let r ← r.take codec env s.server.log
      some { s with followers := s.followers.set i r, clock := env.now }
  | .restart envs checkpoint =>
    if s.aof && s.clock ≤ (envs 0).now then
      match s.recover codec envs checkpoint with
      | .ok (n, store) => some { s with
          server := { store, log := s.server.log }
          followers := s.followers.map fun r => { r with position := none }
          clock := (envs n).now }
      | .error _ => none
    else none

/-- A replica with an empty keyspace and nothing in its files. -/
def start (server : ServerState) (aof : Bool) (followers : List Follower) : Cascade where
  server := { server with log := [] }
  aof
  followers := followers.map fun r => { r with position := none }

/-- A follower that has executed all frames shows what the replica shows, now and later. -/
def Followed (s : Cascade) : Prop :=
  ∀ r ∈ s.followers, r.position = some s.server.log.length → ∀ now, s.clock ≤ now →
    SameView (r.server.store.live now) (s.server.store.live now)

/-- A restart succeeds and shows what the replica shows. -/
def Restores (codec : Codec) (s : Cascade) : Prop :=
  ∀ (envs : ℕ → Env) (checkpoint : ℕ), Monotone (fun i => (envs i).now) → s.clock ≤ (envs 0).now →
    ∃ n store, s.recover codec envs checkpoint = .ok (n, store) ∧
      ∀ now, (envs n).now ≤ now → SameView (store.live now) (s.server.store.live now)

/-- The cells that a snapshot lists. -/
def entriesView (entries : List SnapshotEntry) : View := fun k => entries.lookup k

/-- Nothing follows the replica. -/
def Alone (s : Cascade) : Prop := s.aof = false ∧ ∀ r ∈ s.followers, r.position = none

/-- If anything follows the replica, a full snapshot of the primary shows what the replica shows already,
and a frame carries a mutation that lasts, and that leaves no trace if it is refused.  Documents can be
read back when a snapshot is taken, and the clock does not go back during a restart. -/
def Careful (codec : Codec) (s : Cascade) : CascadeAction → Prop
  | .frame env bytes => s.Alone ∨ ∃ m : Mutation, bytes = respPush m.parts ∧ (m.Decodable →
      (∀ later, env.now ≤ later → m.wire.Durable codec later (s.server.store.live env.now)) ∧
        ¬LeavesTrace codec m.wire.toCommand (s.server.store.live env.now))
  | .resync now entries => s.Alone ∨ (entries.map Prod.fst).Nodup ∧
      SameView ((entriesView entries).settle now) (s.server.store.live now)
  | .save now => s.aof = true → ReadsBack codec (s.server.store.live now)
  | .attach _ now => ReadsBack codec (s.server.store.live now)
  | .restart envs _ => Monotone fun i => (envs i).now
  | .detach _ | .forward _ _ => True

end Cascade

variable {codec : Codec}

/-! ## The protocol with the primary -/

namespace ReplSystem

variable {s s' : ReplSystem}

/-- What a session does to the replica: nothing, or it executes a frame, or takes over a snapshot. -/
def Serves (codec : Codec) (st st' : ServerState) : Prop :=
  st' = st ∨ (∃ env bytes, st' = (st.applyReplFrame codec env bytes).2) ∨
    ∃ now entries, st' = { st with store := st.store.replace now entries }

theorem proceed_server (link : ReplLink) (s : ReplSystem) (result : Bool × ReplNode) :
    (s.proceed link result).node.server = result.2.server := by
  obtain ⟨done, node⟩ := result
  cases done <;> rfl

theorem takeFrame_serves (codec : Codec) (env : Env) (f : ReplFrame) (node : ReplNode) :
    Serves codec node.server (node.takeFrame codec env f).2.server := by
  unfold ReplNode.takeFrame
  split_ifs
  · exact .inl rfl
  · cases result : node.server.applyReplFrame codec env f.bytes with
    | mk done server =>
      have shown : server = (node.server.applyReplFrame codec env f.bytes).2 := by rw [result]
      cases done <;> exact .inr (.inl ⟨env, f.bytes, shown⟩)

theorem finishCatchUp_server (runId : String) (boundary : ℕ) (node : ReplNode) :
    (node.finishCatchUp runId boundary).2.server = node.server := by
  unfold ReplNode.finishCatchUp
  split_ifs <;> rfl

theorem handle_serves (codec : Codec) (env : Env) (link : ReplLink) (s : ReplSystem)
    (message : ReplMessage) : Serves codec s.node.server (s.handle codec env link message).node.server := by
  unfold handle
  split
  · exact .inl rfl
  · rw [proceed_server]
    exact .inr (.inr ⟨_, _, rfl⟩)
  · split_ifs
    · rw [proceed_server, finishCatchUp_server]
      exact .inl rfl
    · rw [proceed_server]
      exact .inl rfl
  · next f _ =>
    have taken := takeFrame_serves codec env f s.node
    cases result : s.node.takeFrame codec env f with
    | mk done node =>
      rw [result] at taken
      cases done with
      | false =>
        rw [proceed_server]
        exact taken
      | true =>
        dsimp only
        split_ifs
        · rw [proceed_server, finishCatchUp_server]
          exact taken
        · rw [proceed_server]
          exact taken
  · rw [proceed_server]
    exact takeFrame_serves codec env _ s.node
  · rw [proceed_server]
    exact .inl rfl

/-- Whatever its primary and the connection do, a replica does one of these three things. -/
theorem step_serves {a : ReplAction} (replica : s.node.isReplica = true)
    (next : s.step codec a = some s') : Serves codec s.node.server s'.node.server := by
  cases a with
  | receive env =>
    obtain ⟨link, -, next⟩ := Option.bind_eq_some_iff.mp next
    split at next
    · exact Option.some.inj next ▸ handle_serves codec env _ s _
    · cases next
  | write bytes =>
    simp only [step] at next
    split_ifs at next <;> exact Option.some.inj next ▸ .inl rfl
  | offer =>
    obtain ⟨f, -, rfl⟩ := Option.map_eq_some_iff.mp next
    exact .inl rfl
  | restart name backlogBytes | wake | connect | refuse | drop =>
    simp only [step] at next
    split_ifs at next
    exact Option.some.inj next ▸ .inl rfl
  | serve entries =>
    obtain ⟨link, -, next⟩ := Option.bind_eq_some_iff.mp next
    split_ifs at next
    obtain ⟨link', -, rfl⟩ := Option.map_eq_some_iff.mp next
    exact .inl rfl
  | promote => exact Option.some.inj next ▸ .inl rfl
  | clientWrite env origin cmd =>
    rw [step, if_pos replica] at next
    exact Option.some.inj next ▸ .inl rfl

end ReplSystem

/-! ## Copies that are behind -/

variable {env : Env} {t t' p : ℕ} {log : List Bytes} {u v w : View}

/-! ## Snapshots -/

theorem lookup_eq_some_iff {entries : List SnapshotEntry} (distinct : (entries.map Prod.fst).Nodup)
    {k : String} {c : Cell} : entries.lookup k = some c ↔ (k, c) ∈ entries := by
  constructor
  · intro found
    obtain ⟨before, after, rfl, -⟩ := List.lookup_eq_some_iff.mp found
    simp
  · intro listed
    induction entries with
    | nil => cases listed
    | cons e entries ih =>
      obtain ⟨fresh, rest⟩ := List.nodup_cons.mp distinct
      obtain ⟨k', c'⟩ := e
      rw [List.lookup_cons]
      obtain same | later := List.mem_cons.mp listed
      · obtain ⟨rfl, rfl⟩ := Prod.mk.inj same
        simp
      · have other : k ≠ k' := by
          rintro rfl
          exact fresh (List.mem_map.mpr ⟨_, later, rfl⟩)
        rw [show (k == k') = false from beq_eq_false_iff_ne.mpr other]
        exact ih rest later

/-- A store whose keyspace is replaced shows the cells that the snapshot lists. -/
theorem live_replace (s : KeyValueStore) {entries : List SnapshotEntry} (now : ℕ)
    (distinct : (entries.map Prod.fst).Nodup) :
    (s.replace now entries).live now = (Cascade.entriesView entries).settle now := by
  funext k
  refine Option.ext fun c => (KeyValueStore.live_restoredData distinct).trans ?_
  rw [View.settle, settle_eq_some, Cascade.entriesView, lookup_eq_some_iff distinct]

theorem live_restore (now : ℕ) {entries : List SnapshotEntry} (distinct : (entries.map Prod.fst).Nodup) :
    (({} : KeyValueStore).restore now entries).live now = (Cascade.entriesView entries).settle now :=
  live_replace {} now distinct

/-- What a snapshot lists is what was live, if documents can be read back. -/
theorem entriesView_snapshot {s : KeyValueStore} {now : ℕ} (reads : ReadsBack codec (s.live now)) :
    SameView (Cascade.entriesView (s.snapshot codec now)) (s.live now) := by
  intro k
  have listed : Cascade.entriesView (s.snapshot codec now) k =
      (s.live now k).map fun c => { c with value := c.value.restored codec } := by
    refine Option.ext fun c => ?_
    rw [Cascade.entriesView, lookup_eq_some_iff (KeyValueStore.nodup_snapshot codec now s),
      KeyValueStore.mem_snapshot]
  rw [listed]
  cases found : s.live now k with
  | none => rfl
  | some c =>
    obtain ⟨value, expiresAtMs⟩ := c
    have kept : (value.restored codec).config = value.config := by
      cases value with
      | json doc =>
        rw [EntryValue.restored, reads k doc expiresAtMs found]
        rfl
      | str | hash | list | set | zset | rateLimiter => rfl
    exact congrArg some (congrArg (Lapse.Cell.mk · expiresAtMs) kept)

/-! ## The invariant -/

namespace Cascade

/-- The frames that the files and the followers have not got lead to what the replica shows. -/
structure Sound (codec : Codec) (s : Cascade) : Prop where
  uncapped : s.server.store.Uncapped ∧ ∀ r ∈ s.followers, r.server.store.Uncapped
  file : s.aof = true → (s.saved.map Prod.fst).Nodup ∧
    Behind codec s.clock s.server.log s.savedAt (entriesView s.saved) (s.server.store.live s.clock)
  followers : ∀ r ∈ s.followers, ∀ p ∈ r.position,
    Behind codec s.clock s.server.log p (r.server.store.live s.clock) (s.server.store.live s.clock)

variable {s s' : Cascade}

theorem Sound.wait (h : s.Sound codec) {now : ℕ} (le : s.clock ≤ now) :
    ({ s with clock := now } : Cascade).Sound codec := by
  have later (store : KeyValueStore) : SameView ((store.live s.clock).settle now) ((store.live now).settle now) := by
    rw [live_later store le, live_later store le_rfl]
  refine ⟨h.uncapped, fun aof => ?_, fun r hr p hp => ?_⟩
  · obtain ⟨distinct, behind⟩ := h.file aof
    exact ⟨distinct, (behind.wait le).to_same (later _)⟩
  · exact (((h.followers r hr p hp).wait le).from_same (later _)).to_same (later _)

/-- The replica changes in a way that every copy can follow. -/
theorem Sound.change (h : s.Sound codec) (server : ServerState) (uncapped : server.store.Uncapped)
    (follow : s.Alone ∨ ∀ p v, Behind codec s.clock s.server.log p v (s.server.store.live s.clock) →
      Behind codec s.clock server.log p v (server.store.live s.clock)) :
    ({ s with server } : Cascade).Sound codec := by
  refine ⟨⟨uncapped, h.uncapped.2⟩, fun aof => ?_, fun r hr p hp => ?_⟩
  · obtain alone | follow := follow
    · exact absurd (aof.symm.trans alone.1) (by decide)
    · exact ⟨(h.file aof).1, follow _ _ (h.file aof).2⟩
  · obtain alone | follow := follow
    · rw [alone.2 r hr] at hp
      cases hp
    · exact follow _ _ (h.followers r hr p hp)

/-! ## Frames -/

theorem applyReplFrame_parts {m : Mutation} (decodable : m.Decodable) (st : ServerState) {reply : Value}
    {store : KeyValueStore} (executed : execute codec env m.wire.toCommand st.store = (reply, store)) :
    (reply.isError = true ∧
        st.applyReplFrame codec env (respPush m.parts) = (false, { st with store })) ∨
      (reply.isError = false ∧ ∃ pushes, st.applyReplFrame codec env (respPush m.parts) =
        (true, { st with store, log := st.log ++ [respPush m.parts], pushes })) := by
  have decoded : decodeFrame (respPush m.parts) = some m.wire.toCommand :=
    (m.decodeFrame_parts _).mpr ⟨decodable, rfl⟩
  unfold ServerState.applyReplFrame
  simp only [decoded, executed]
  cases reply with
  | error message => exact .inl ⟨rfl, rfl⟩
  | simpleString | integer | bulkString | array | push | map => exact .inr ⟨rfl, _, rfl⟩

theorem applyReplFrame_uncapped (codec : Codec) (env : Env) (bytes : Bytes) {st : ServerState}
    (uncapped : st.store.Uncapped) : (st.applyReplFrame codec env bytes).2.store.Uncapped := by
  unfold ServerState.applyReplFrame
  cases decodeFrame bytes with
  | none => exact uncapped
  | some cmd =>
    have still : (execute codec env cmd st.store).2.Uncapped :=
      (executeReporting_uncapped codec env cmd uncapped).uncapped
    dsimp only
    generalize execute codec env cmd st.store = result at still ⊢
    obtain ⟨reply, store⟩ := result
    cases reply <;> exact still

theorem applyReplFrame_undecodable {m : Mutation} (decodable : ¬m.Decodable) (env : Env)
    (st : ServerState) : st.applyReplFrame codec env (respPush m.parts) = (false, st) := by
  have undecoded : decodeFrame (respPush m.parts) = none := by
    refine Option.eq_none_iff_forall_ne_some.mpr fun c decoded => decodable ?_
    exact ((m.decodeFrame_parts c).mp decoded).1
  rw [ServerState.applyReplFrame, undecoded]

/-- A frame that lasts is executed, and passed on to what follows the replica. -/
theorem Sound.frame (h : s.Sound codec) (bytes : Bytes) (le : s.clock ≤ env.now)
    (careful : s.Careful codec (.frame env bytes)) :
    ({ s with server := (s.server.applyReplFrame codec env bytes).2, clock := env.now } : Cascade).Sound
      codec := by
  refine (h.wait le).change _ (applyReplFrame_uncapped codec env bytes h.uncapped.1) ?_
  obtain alone | ⟨m, rfl, careful⟩ := careful
  · exact .inl alone
  refine .inr fun p v behind => ?_
  by_cases decodable : m.Decodable
  case neg =>
    rw [applyReplFrame_undecodable decodable]
    exact behind
  obtain ⟨durable, noTrace⟩ := careful decodable
  cases executed : execute codec env m.wire.toCommand s.server.store with
  | mk reply store =>
  obtain ⟨answer, view, -⟩ := execute_mutation codec env m.wire h.uncapped.1
  rw [executed] at answer view
  dsimp only at answer view
  obtain ⟨refused, applied⟩ | ⟨ok, pushes, applied⟩ := applyReplFrame_parts decodable s.server executed
  · -- what is refused leaves the view as it was
    have kept : (perform codec env m.wire.toCommand (s.server.store.live env.now)).2 =
        s.server.store.live env.now := by
      refine refused_unchanged_of_no_trace (fun k => settle_live _ _ k) (isWriteCommand_mutation m.wire)
        noTrace ?_
      rw [m.wire.perform_eq, ← answer]
      exact refused
    rw [m.wire.perform_eq, ← view] at kept
    rw [applied]
    exact behind.to_same (kept ▸ .refl _)
  · have lasting : m.wire.Lasting codec env.now ((s.server.store.live env.now).settle env.now) := by
      rw [live_later _ le_rfl]
      exact ⟨durable, answer ▸ ok⟩
    have next := behind.snoc decodable lasting
    rw [live_later _ le_rfl, ← view] at next
    rw [applied]
    exact next

/-! ## The other steps -/

theorem uncapped_replace (now : ℕ) (entries : List SnapshotEntry) {store : KeyValueStore}
    (uncapped : store.Uncapped) : (store.replace now entries).Uncapped :=
  uncapped

theorem Sound.resync (h : s.Sound codec) (entries : List SnapshotEntry) {now : ℕ} (le : s.clock ≤ now)
    (careful : s.Careful codec (.resync now entries)) :
    ({ s with server := { s.server with store := s.server.store.replace now entries }, clock := now } :
      Cascade).Sound codec := by
  refine (h.wait le).change _ (uncapped_replace now entries h.uncapped.1) ?_
  obtain alone | ⟨distinct, same⟩ := careful
  · exact .inl alone
  · refine .inr fun p v behind => behind.to_same ?_
    have shown := live_replace s.server.store now distinct
    rw [← shown] at same
    exact same.symm.settle now

theorem Sound.save (h : s.Sound codec) {now : ℕ} (le : s.clock ≤ now)
    (careful : s.Careful codec (.save now)) :
    ({ s with saved := s.server.store.snapshot codec now, savedAt := s.server.log.length,
              clock := now } : Cascade).Sound codec := by
  have waited := h.wait le
  refine ⟨waited.uncapped, fun aof => ⟨KeyValueStore.nodup_snapshot codec now _, ?_⟩, waited.followers⟩
  exact .none_left codec _ ((entriesView_snapshot (careful aof)).settle now)

theorem mem_modify {α : Type} {f : α → α} {i : ℕ} {l : List α} {x : α} (hx : x ∈ l.modify i f) :
    x ∈ l ∨ ∃ y ∈ l, x = f y := by
  obtain ⟨j, there⟩ := List.mem_iff_getElem?.mp hx
  rw [List.getElem?_modify] at there
  obtain ⟨y, held, rfl⟩ := Option.map_eq_some_iff.mp there
  split_ifs
  · exact .inr ⟨y, List.mem_of_getElem? held, rfl⟩
  · exact .inl (List.mem_of_getElem? held)

/-- The followers change, each into one that can still follow. -/
theorem Sound.follow (h : s.Sound codec) (followers : List Follower)
    (each : ∀ r ∈ followers, r ∈ s.followers ∨ r.server.store.Uncapped ∧ ∀ p ∈ r.position,
      Behind codec s.clock s.server.log p (r.server.store.live s.clock) (s.server.store.live s.clock)) :
    ({ s with followers } : Cascade).Sound codec := by
  refine ⟨⟨h.uncapped.1, fun r hr => ?_⟩, h.file, fun r hr => ?_⟩
  · exact (each r hr).elim (h.uncapped.2 r) And.left
  · exact (each r hr).elim (h.followers r) And.right

theorem Sound.attach (h : s.Sound codec) (i : ℕ) {now : ℕ} (le : s.clock ≤ now)
    (careful : s.Careful codec (.attach i now)) :
    ({ s with
      followers := s.followers.modify i fun r =>
        { server := { r.server with
            store := r.server.store.replace now (s.server.store.snapshot codec now) }
          position := some s.server.log.length }
      clock := now } : Cascade).Sound codec := by
  refine (h.wait le).follow _ fun r hr => ?_
  obtain old | ⟨r₀, old, rfl⟩ := mem_modify hr
  · exact .inl old
  · refine .inr ⟨uncapped_replace now _ (h.uncapped.2 r₀ old), fun p hp => ?_⟩
    obtain rfl := Option.some.inj hp
    refine .none_left codec _ ?_
    have shown := live_replace r₀.server.store now (KeyValueStore.nodup_snapshot codec now s.server.store)
    dsimp only
    rw [shown]
    have listed := (entriesView_snapshot careful).settle now
    rw [LeadsTo.settle_later le_rfl]
    exact listed

theorem Sound.detach (h : s.Sound codec) (i : ℕ) :
    ({ s with followers := s.followers.modify i fun r => { r with position := none } } :
      Cascade).Sound codec := by
  refine h.follow _ fun r hr => ?_
  obtain old | ⟨r₀, old, rfl⟩ := mem_modify hr
  · exact .inl old
  · exact .inr ⟨h.uncapped.2 r₀ old, nofun⟩

/-- A follower executes the next frame with success, and is one frame closer. -/
theorem take_behind {r r' : Follower} (uncapped : r.server.store.Uncapped)
    (behind : ∀ p ∈ r.position, Behind codec t log p (r.server.store.live t) w) (le : t ≤ env.now)
    (next : r.take codec env log = some r') :
    r'.server.store.Uncapped ∧
      ∀ p ∈ r'.position, Behind codec env.now log p (r'.server.store.live env.now) w := by
  unfold Follower.take at next
  simp only [bind, Option.bind_eq_some_iff] at next
  obtain ⟨p, position, bytes, there, next⟩ := next
  obtain ⟨range, sent, decodable, drop, leads⟩ := behind p position
  obtain ⟨inside, rfl⟩ := List.getElem?_eq_some_iff.mp there
  rw [List.drop_eq_getElem_cons inside] at drop
  cases sent with
  | nil => cases drop
  | cons m sent =>
    obtain ⟨frame, rest⟩ := List.cons.inj drop
    obtain ⟨ok, leads, still⟩ := leads.execute uncapped le
    rw [frame] at next
    cases executed : execute codec env m.wire.toCommand r.server.store with
    | mk reply store =>
    rw [executed] at ok leads still
    obtain ⟨refused, -⟩ | ⟨-, pushes, applied⟩ :=
      applyReplFrame_parts (decodable m List.mem_cons_self) r.server executed
    · exact absurd (refused.symm.trans ok) (by decide)
    · rw [applied] at next
      obtain rfl := Option.some.inj next
      refine ⟨still, fun q hq => ?_⟩
      obtain rfl := Option.some.inj hq
      exact ⟨inside, sent, fun m hm => decodable m (List.mem_cons_of_mem _ hm), rest, leads⟩

theorem Sound.forward (h : s.Sound codec) (i : ℕ)
    (next : s.step codec (.forward i env) = some s') : s'.Sound codec := by
  simp only [step] at next
  split_ifs at next with back
  simp only [bind, Option.bind_eq_some_iff] at next
  obtain ⟨r, held, r', taken, next⟩ := next
  obtain rfl := Option.some.inj next
  have le := not_lt.mp back
  have waited := h.wait le
  have member := List.mem_of_getElem? held
  refine waited.follow _ fun q hq => ?_
  obtain old | rfl := List.mem_or_eq_of_mem_set hq
  · exact .inl old
  · have behind (p : ℕ) (hp : p ∈ r.position) := waited.followers r member p hp
    exact .inr (take_behind (h.uncapped.2 r member) behind le_rfl taken)

/-- The file holds the frames since the snapshot, and replaying them leads to what the replica shows. -/
theorem Sound.recover (h : s.Sound codec) (aof : s.aof = true) {envs : ℕ → Env} (checkpoint : ℕ)
    (clock : Monotone fun i => (envs i).now) (le : s.clock ≤ (envs 0).now) :
    ∃ n store, s.recover codec envs checkpoint = .ok (n, store) ∧ store.Uncapped ∧
      ∀ now, (envs n).now ≤ now → SameView (store.live now) (s.server.store.live now) := by
  obtain ⟨distinct, behind⟩ := h.file aof
  have loaded : Behind codec (envs 0).now s.server.log s.savedAt
      ((({} : KeyValueStore).restore (envs 0).now s.saved).live (envs 0).now)
      (s.server.store.live s.clock) := by
    refine (behind.wait le).from_same ?_
    rw [live_restore _ distinct, LeadsTo.settle_later le_rfl]
  obtain ⟨n, store, recovered, uncapped, same⟩ := loaded.replay ⟨rfl, rfl⟩ checkpoint clock le_rfl
  refine ⟨n, store, recovered, uncapped, fun now le' => ?_⟩
  have shown := same now le'
  rwa [live_later _ (le.trans ((clock (Nat.zero_le n)).trans le'))] at shown

theorem Sound.restart (h : s.Sound codec) {envs : ℕ → Env} (checkpoint : ℕ)
    (clock : Monotone fun i => (envs i).now)
    (next : s.step codec (.restart envs checkpoint) = some s') : s'.Sound codec := by
  simp only [step] at next
  split_ifs at next with may
  obtain ⟨aof, le⟩ := Bool.and_eq_true_iff.mp may
  have le := of_decide_eq_true le
  obtain ⟨n, store, recovered, uncapped, same⟩ := h.recover aof checkpoint clock le
  rw [recovered] at next
  obtain rfl := Option.some.inj next
  have later := le.trans (clock (Nat.zero_le n))
  obtain ⟨distinct, behind⟩ := h.file aof
  refine ⟨⟨uncapped, fun r hr => ?_⟩, fun _ => ⟨distinct, ?_⟩, fun r hr p hp => ?_⟩
  · obtain ⟨r₀, old, rfl⟩ := List.mem_map.mp hr
    exact h.uncapped.2 r₀ old
  · refine (behind.wait later).to_same ?_
    rw [live_later _ later, live_later _ le_rfl]
    exact (same _ le_rfl).symm
  · obtain ⟨r₀, old, rfl⟩ := List.mem_map.mp hr
    cases hp

/-- A careful step keeps everything that follows the replica able to follow. -/
theorem Sound.step (h : s.Sound codec) {a : CascadeAction} (careful : s.Careful codec a)
    (next : s.step codec a = some s') : s'.Sound codec := by
  cases a with
  | frame env bytes =>
    simp only [Cascade.step] at next
    split_ifs at next with back
    exact Option.some.inj next ▸ h.frame bytes (not_lt.mp back) careful
  | resync now entries =>
    simp only [Cascade.step] at next
    split_ifs at next with back
    exact Option.some.inj next ▸ h.resync entries (not_lt.mp back) careful
  | save now =>
    simp only [Cascade.step] at next
    split_ifs at next with back
    exact Option.some.inj next ▸ h.save (not_lt.mp back) careful
  | attach i now =>
    simp only [Cascade.step] at next
    split_ifs at next with back
    exact Option.some.inj next ▸ h.attach i (not_lt.mp back) careful
  | detach i => exact Option.some.inj next ▸ h.detach i
  | forward i env => exact h.forward i next
  | restart envs checkpoint => exact h.restart checkpoint careful next

theorem Sound.followed (h : s.Sound codec) : s.Followed := by
  intro r hr position now le
  have behind := h.followers r hr _ position
  have same := (behind.wait le).caught_up
  rwa [live_later _ le, live_later _ le] at same

theorem sound_start (codec : Codec) {server : ServerState} {followers : List Follower} (aof : Bool)
    (uncapped : server.store.Uncapped ∧ ∀ r ∈ followers, r.server.store.Uncapped)
    (empty : server.store.data = ∅) : (start server aof followers).Sound codec := by
  refine ⟨⟨uncapped.1, fun r hr => ?_⟩, fun _ => ⟨List.nodup_nil, ?_⟩, fun r hr p hp => ?_⟩
  · obtain ⟨r₀, old, rfl⟩ := List.mem_map.mp hr
    exact uncapped.2 r₀ old
  · refine .none_left codec [] fun k => ?_
    have nothing : (start server aof followers).server.store.live 0 k = none := by
      simp [start, KeyValueStore.live, Lapse.live, empty]
    rw [View.settle, View.settle, show (start server aof followers).clock = 0 from rfl, nothing]
    rfl
  · obtain ⟨r₀, old, rfl⟩ := List.mem_map.mp hr
    cases hp

/-- In a careful run without limits, every follower that has executed all frames shows what the replica
shows, and a restart from the files restores it. -/
theorem downstream_keeps_up (codec : Codec) (server : ServerState) (aof : Bool)
    (followers : List Follower)
    (uncapped : server.store.Uncapped ∧ ∀ r ∈ followers, r.server.store.Uncapped)
    (empty : server.store.data = ∅) (actions : List CascadeAction)
    (careful : Runs.Each (step codec) (Careful codec) (start server aof followers) actions) (s : Cascade)
    (run : Runs.exec (step codec) (start server aof followers) actions = some s) :
    s.Followed ∧ (s.aof = true → s.Restores codec) := by
  have sound : s.Sound codec :=
    Runs.invariant (fun _ _ _ h careful next => Sound.step h careful next) run careful
      (sound_start codec aof uncapped empty)
  refine ⟨sound.followed, fun aof envs checkpoint clock le => ?_⟩
  obtain ⟨n, store, recovered, -, same⟩ := sound.recover aof checkpoint clock le
  exact ⟨n, store, recovered, same⟩

/-- A follower is attached, and a frame reaches it. -/
theorem downstream_keeps_up_set :
    ∃ s, Runs.exec (step .literals) (start { store := {} } true [{ server := { store := {} } }])
        [.attach 0 0, .frame (.fixed 1) (respPush (Mutation.set "k" [118] .none).parts),
          .forward 0 (.fixed 2)] = some s ∧
      (s.Followed ∧ (s.aof = true → s.Restores .literals)) := by
  obtain ⟨s, run⟩ : ∃ s, Runs.exec (step .literals)
      (start { store := {} } true [{ server := { store := {} } }])
      [.attach 0 0, .frame (.fixed 1) (respPush (Mutation.set "k" [118] .none).parts),
        .forward 0 (.fixed 2)] = some s := ⟨_, rfl⟩
  refine ⟨s, run, downstream_keeps_up .literals { store := {} } true [{ server := { store := {} } }]
    ⟨⟨rfl, rfl⟩, ?_⟩ rfl _ ?_ s run⟩
  · intro r hr
    obtain rfl := List.mem_singleton.mp hr
    exact ⟨rfl, rfl⟩
  · refine ⟨fun k doc expiresAtMs found => ?_, ?_⟩
    · simp [start, KeyValueStore.live, Lapse.live] at found
    rintro s ⟨⟩
    refine ⟨.inr ⟨_, rfl, fun _ => ⟨fun _ _ _ hk => (List.not_mem_nil hk).elim, not_not.mpr trivial⟩⟩, ?_⟩
    rintro s ⟨⟩
    exact ⟨trivial, fun _ _ => trivial⟩

/-- A full snapshot with a new key reaches neither the follower nor the files. -/
theorem resync_not_passed_on :
    ∃ s, Runs.exec (step .literals) (start { store := {} } true [{ server := { store := {} } }])
        [.attach 0 0, .resync 1 [("k", ⟨.str [118], none⟩)]] = some s ∧
      ¬s.Followed ∧ ¬s.Restores .literals := by
  have differ : config none ≠ config (some ⟨.str [118], none⟩) := nofun
  refine ⟨_, rfl, fun followed => differ ?_, fun restores => differ ?_⟩
  · exact followed _ (List.mem_singleton.mpr rfl) rfl 1 le_rfl "k"
  · obtain ⟨n, store, recovered, same⟩ := restores (fun _ => .fixed 1) 0 monotone_const le_rfl
    obtain ⟨rfl, rfl⟩ := Prod.mk.inj (Except.ok.inj
      ((rfl : _ = Except.ok (0, ({} : KeyValueStore).restore 1 [])).symm.trans recovered))
    exact same 1 le_rfl "k"

end Cascade

end Recached
