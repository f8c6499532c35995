import Recached.Errors
import Recached.ScopedPushes
import Recached.Telling

/-!
# Writes that cross

A client executes a write on its own store before it sends it, and the server sends a write on to every
other client.  A client lacks the pushes that are queued for it, and is ahead of the server by the writes
that are under way from it.  Once nothing is queued or under way it shows what the server shows, as long
as no two writes cross that do not commute.
-/

namespace Recached

open Text Lapse ServerState

variable {codec : Codec} {env : Env} {cmd : Command} {v w : View}

/-! ## Commands that commute -/

theorem replay_sameView (codec : Codec) (cmd : Command) (h : SameView v w) :
    SameView (replay codec cmd v) (replay codec cmd w) :=
  perform_sameView codec (.fixed 0) cmd h

/-- In either order the commands lead to the same, whatever is there. -/
def Commute (codec : Codec) (c d : Command) : Prop :=
  ∀ v : View, (∀ k, Lasts (v k)) →
    SameView (replay codec d (replay codec c v)) (replay codec c (replay codec d v))

theorem Commute.symm {c d : Command} (h : Commute codec c d) : Commute codec d c :=
  fun v lasts => (h v lasts).symm

/-- Execute commands one after the other. -/
def replayAll (codec : Codec) (cmds : List Command) (v : View) : View :=
  cmds.foldl (fun v cmd => replay codec cmd v) v

theorem replayAll_append (cmds cmds' : List Command) (v : View) :
    replayAll codec (cmds ++ cmds') v = replayAll codec cmds' (replayAll codec cmds v) :=
  List.foldl_append

theorem replayAll_sameView (cmds : List Command) (h : SameView v w) :
    SameView (replayAll codec cmds v) (replayAll codec cmds w) := by
  induction cmds generalizing v w with
  | nil => exact h
  | cons c cmds ih => exact ih (replay_sameView codec c h)

/-- A command that commutes with each of the commands can be executed before or after them. -/
theorem replayAll_comm {c : Command} {cmds : List Command} (timeless : ∀ d ∈ cmds, Timeless codec d)
    (commute : ∀ d ∈ cmds, Commute codec c d) (lasts : ∀ k, Lasts (v k)) :
    SameView (replayAll codec cmds (replay codec c v)) (replay codec c (replayAll codec cmds v)) := by
  induction cmds generalizing v with
  | nil => exact .refl _
  | cons d cmds ih =>
    obtain ⟨first, others⟩ := List.forall_mem_cons.mp timeless
    obtain ⟨crosses, commute⟩ := List.forall_mem_cons.mp commute
    have swapped : SameView (replayAll codec cmds (replay codec d (replay codec c v)))
        (replayAll codec cmds (replay codec c (replay codec d v))) :=
      replayAll_sameView cmds (crosses v lasts)
    exact swapped.trans (ih others commute (first.perform (.fixed 0) lasts).2)

/-- Commands on keys of their own commute. -/
theorem commute_of_disjoint {c d : Command} (notFlush : c ≠ .flushDb) (notFlush' : d ≠ .flushDb)
    (timeless : Timeless codec d) (disjoint : ∀ k ∈ named c, k ∉ named d) : Commute codec c d := by
  intro v lasts k
  have onC := program_on codec (.fixed 0) notFlush
  have onD := program_on codec (.fixed 0) notFlush'
  have frameC (v : View) {k : String} (hk : k ∉ named c) : replay codec c v k = v k :=
    Prog.eval_frame onC 0 v hk
  have frameD (v : View) {k : String} (hk : k ∉ named d) : replay codec d v k = v k :=
    Prog.eval_frame onD 0 v hk
  refine congrArg config ?_
  by_cases own : k ∈ named c
  · rw [frameD _ (disjoint k own)]
    refine (Prog.eval_agree onC (Prog.steady_self 0 _) (fun k hk => ?_) fun k hk => ?_).2 k own
    · exact (frameD v (disjoint k hk)).symm
    · exact ((timeless.perform (.fixed 0) lasts).2 k).settle 0
  · rw [frameC _ own]
    by_cases own' : k ∈ named d
    · refine (Prog.eval_agree onD (Prog.steady_self 0 _) (fun k hk => ?_) fun k hk => ?_).2 k own'
      · exact frameC v fun hk' => disjoint k hk' hk
      · exact (lasts k).settle 0
    · rw [frameD _ own', frameD _ own', frameC _ own]

/-! ## The frame of a write -/

/-- Whatever the write is sent on as commutes with the other command. -/
def Compatible (codec : Codec) (cmd other : Command) : Prop :=
  ∀ (env : Env) (v : View), ∀ m ∈ outcome codec env cmd v, Commute codec m.wire.toCommand other

/-- Writes of keys of their own are compatible. -/
theorem compatible_of_disjoint {other : Command} (notFlush : cmd ≠ .flushDb) (notFlush' : other ≠ .flushDb)
    (timeless : Timeless codec other) (disjoint : ∀ k ∈ named cmd, k ∉ named other) :
    Compatible codec cmd other := by
  intro env v m form
  have keys : named m.wire.toCommand = named m.toCommand := by cases m <;> rfl
  refine commute_of_disjoint (fun flush => ?_) notFlush' timeless fun k hk =>
    disjoint k (named_absolute form (keys ▸ hk))
  obtain rfl : m = .flushDb := by cases m <;> first | rfl | cases flush
  cases cmd
  case flushDb => exact notFlush rfl
  case incr | decr | incrBy | decrBy | hIncrBy | hIncrByFloat =>
    simp only [outcome, absolute, Option.mem_def] at form
    split at form <;> cases form
  all_goals first
    | cases eq_of_when form
    | cases (Option.some.inj form)
    | cases form

/-- What the server sends on of a write can be read and replayed, and does what the write did; a write that
is refused leaves no trace, and if it is sent on all the same it is sent as it is. -/
structure SentOn (codec : Codec) (env : Env) (cmd : Command) (v : View) : Prop where
  decodable : ∀ m ∈ outcome codec env cmd v, m.Decodable
  replayable : ∀ m ∈ outcome codec env cmd v, isReplayableMutation m.toCommand = true
  kept : if (perform codec env cmd v).1.isError then ¬LeavesTrace codec cmd v ∧
      ∀ m ∈ outcome codec env cmd v, program codec env m.wire.toCommand = program codec env cmd
    else Kept env cmd v

theorem SentOn.mirrored (h : SentOn codec env cmd v) (live : ∀ k, Lapse.settle env.now (v k) = v k)
    (write : isWriteCommand cmd = true) : Mirrored codec env cmd v := by
  have kept := h.kept
  cases refused : (perform codec env cmd v).1.isError with
  | false =>
    rw [refused, if_neg Bool.false_ne_true] at kept
    exact (mirrored_iff live write refused).mpr kept
  | true =>
    rw [refused, if_pos rfl] at kept
    obtain ⟨noTrace, same⟩ := kept
    cases form : outcome codec env cmd v with
    | some m => exact mirrored_of_program form (same m form)
    | none =>
      have kept := refused_unchanged_of_no_trace live write noTrace refused
      rw [mirrored_none form, kept]

/-- A write without a deadline is sent on without a deadline. -/
theorem absolute_noDeadline {now : ℕ} {reply : Value} {m : Mutation}
    (form : absolute now reply cmd = some m) (noDeadline : givesDeadline cmd = false) :
    givesDeadline m.wire.toCommand = false := by
  cases cmd
  case set key val opts =>
    obtain rfl := eq_of_when form
    cases given : opts.expiry with
    | none => rfl
    | some e =>
      cases e
      case keepTtl => rfl
      all_goals simp [givesDeadline, given] at noDeadline
  case setEx | pSetEx | expire | pExpire | expireAt | pExpireAt => cases noDeadline
  case incr | decr | incrBy | decrBy | hIncrBy | hIncrByFloat =>
    unfold absolute at form
    dsimp only at form
    split at form
    · obtain rfl := Option.some.inj form
      rfl
    · cases form
  all_goals first
    | (obtain rfl := eq_of_when form; rfl)
    | (obtain rfl := Option.some.inj form; rfl)
    | cases form

/-- A frame that can be replayed is executed on the client's store. -/
theorem SyncClient.handleFrame_parts {m : Mutation} (decodable : m.Decodable)
    (replayable : isReplayableMutation m.wire.toCommand = true) (env : Env) (client : SyncClient) :
    (client.handleFrame codec env (respPush m.parts)).2 =
      { client with store := (execute codec env m.wire.toCommand client.store).2 } := by
  have parsed := Value.parse_push decodable.2 []
  have decoded : fromValue (.array (some (bulks m.parts))) = .ok m.wire.toCommand :=
    (decodes_iff m _).mpr ⟨decodable.1, rfl⟩
  rw [List.append_nil, ← respPush_eq] at parsed
  simp only [SyncClient.handleFrame, parsed, handlePush, pubSubMessage_parts, decoded, replayable, if_true]

/-- The mutation that is sent on does to what the server shows what the write does. -/
theorem SentOn.same {s : KeyValueStore} (h : SentOn codec env cmd (s.live env.now)) (plain : s.Plain)
    (timeless : Timeless codec cmd) :
    match outcome codec env cmd (s.live env.now) with
    | some m => SameView (replay codec m.wire.toCommand (s.live 0)) (replay codec cmd (s.live 0))
    | none => SameView (replay codec cmd (s.live 0)) (s.live 0) := by
  have mirrored := h.mirrored (fun k => settle_live _ _ k) timeless.write
  have did := (timeless.perform env plain.lasts).1
  cases form : outcome codec env cmd (s.live env.now) with
  | none =>
    rw [mirrored_none form, plain.live_eq env.now, did] at mirrored
    exact mirrored
  | some m =>
    have noDeadline := absolute_noDeadline form timeless.noDeadline
    have replayable := isReplayableMutation_wire m ▸ h.replayable m form
    have sent := (timeless_of_replayable codec replayable noDeadline).perform env plain.lasts
    rw [mirrored_some form, plain.live_eq env.now, did, sent.1] at mirrored
    exact mirrored

/-- The frame is a command that clients replay at any time. -/
def Handled (codec : Codec) (raw : Bytes) : Prop :=
  ∃ m : Mutation, raw = respPush m.parts ∧ m.Decodable ∧
    isReplayableMutation m.wire.toCommand = true ∧ Timeless codec m.wire.toCommand

theorem Handled.decodes {raw : Bytes} (h : Handled codec raw) :
    ∃ c, decodeFrame raw = some c ∧ Timeless codec c := by
  obtain ⟨m, rfl, decodable, -, timeless⟩ := h
  exact ⟨_, (m.decodeFrame_parts _).mpr ⟨decodable, rfl⟩, timeless⟩

theorem SentOn.handled (h : SentOn codec env cmd v) (timeless : Timeless codec cmd) {m : Mutation}
    (form : m ∈ outcome codec env cmd v) : Handled codec (respPush m.parts) := by
  have replayable := isReplayableMutation_wire m ▸ h.replayable m form
  exact ⟨m, rfl, h.decodable m form, replayable,
    timeless_of_replayable codec replayable (absolute_noDeadline form timeless.noDeadline)⟩

/-! ## Clients of a server -/

/-- A client, its writes that the server has not executed, and the replies and the pushes that it has not
handled. -/
structure Peer where
  client : SyncClient := {}
  toServer : List Command := []
  replies : List Bytes := []
  pushes : List Bytes := []

/-- A server and its clients. -/
structure Crowd (ι : Type) where
  server : ServerState
  peers : ι → Peer

inductive CrowdAction (ι : Type) where
  | write (i : ι) (env : Env) (cmd : Command)
  | serve (i : ι) (env : Env)
  | push (i : ι) (env : Env)
  | reply (i : ι) (env : Env)

/-- A client that is sent the frame changes its store. -/
def changesStore (raw : Bytes) : Bool :=
  match Value.parse raw with
  | .ok (.push _, _) => true
  | .ok (.array (some (.bulkString (some tag) :: _)), _) =>
    tag = asBytes "keychange" || tag = asBytes "qstate"
  | _ => false

namespace Crowd

variable {ι : Type} [DecidableEq ι]

/-- The pushes that a connection without scopes is sent. -/
def sentTo (connId : ℕ) (pushes : List SyncPush) : List Bytes :=
  (pushes.filter (pushVisible false none connId)).map SyncPush.resp

/-- A client executes a write and sends it in its wrapper; the server executes the next write of a client
and pushes it to the others; a client handles the next push or the next reply. -/
def step (codec : Codec) (connId : ι → ℕ) (s : Crowd ι) : CrowdAction ι → Option (Crowd ι)
  | .write i env cmd =>
    let p := s.peers i
    some { s with peers := Function.update s.peers i { p with
      client := { p.client with store := (execute codec env (unwrapDedup cmd).1 p.client.store).2 }
      toServer := p.toServer ++ [cmd] } }
  | .serve i env =>
    match (s.peers i).toServer with
    | [] => none
    | cmd :: rest =>
      let (reply, server) := s.server.executeOrderedWrite codec env (connId i) cmd
      some {
        server
        peers := fun j =>
          let p := s.peers j
          let p := { p with pushes := p.pushes ++ sentTo (connId j) (s.server.newPushes server) }
          if j = i then { p with toServer := rest, replies := p.replies ++ [reply.serialize] } else p }
  | .push i env =>
    let p := s.peers i
    match p.pushes with
    | [] => none
    | raw :: pushes =>
      let client := (p.client.handleFrame codec env raw).2
      some { s with peers := Function.update s.peers i { p with client, pushes } }
  | .reply i env =>
    let p := s.peers i
    match p.replies with
    | [] => none
    | raw :: replies =>
      let client := (p.client.handleFrame codec env raw).2
      some { s with peers := Function.update s.peers i { p with client, replies } }

/-- A client writes what commutes with the pushes queued for it; the server accepts the write, sends it on,
and sends nothing on that does not commute with the writes under way from other clients; and no reply looks
like the state of a key. -/
def Careful (codec : Codec) (s : Crowd ι) : CrowdAction ι → Prop
  | .write i _ cmd => Timeless codec (unwrapDedup cmd).1 ∧
    ∀ raw ∈ (s.peers i).pushes, ∀ pushed ∈ decodeFrame raw, Commute codec pushed (unwrapDedup cmd).1
  | .serve i env => ∀ cmd ∈ (s.peers i).toServer.head?,
    s.server.Accepts cmd ∧ SentOn codec env (unwrapDedup cmd).1 (s.server.store.live env.now) ∧
      ∀ j ≠ i, ∀ other ∈ (s.peers j).toServer, Compatible codec (unwrapDedup cmd).1 (unwrapDedup other).1
  | .push _ _ => True
  | .reply i _ => ∀ raw ∈ (s.peers i).replies.head?, changesStore raw = false

/-- Nothing is under way, and every client shows what the server shows. -/
structure Agrees (s : Crowd ι) : Prop where
  server : s.server.store.Plain
  clients : ∀ i, (s.peers i).client.store.Plain
  drained : ∀ i, (s.peers i).toServer = [] ∧ (s.peers i).replies = [] ∧ (s.peers i).pushes = []
  same : ∀ i, SameView ((s.peers i).client.store.live 0) (s.server.store.live 0)

variable {connId : ι → ℕ} {s s' : Crowd ι}

/-- The commands that the client has still to execute. -/
def lacks (pushes : List Bytes) : List Command := pushes.filterMap decodeFrame

/-- The writes that the client has executed and the server has not. -/
def ahead (toServer : List Command) : List Command := toServer.map fun cmd => (unwrapDedup cmd).1

/-- Once the client has handled its pushes it shows what the server shows once it has executed the writes
of the client. -/
structure SoundPeer (codec : Codec) (server : KeyValueStore) (p : Peer) : Prop where
  plain : p.client.store.Plain
  pushes : ∀ raw ∈ p.pushes, Handled codec raw
  writes : ∀ cmd ∈ ahead p.toServer, Timeless codec cmd
  same : SameView (replayAll codec (lacks p.pushes) (p.client.store.live 0))
    (replayAll codec (ahead p.toServer) (server.live 0))

structure Sound (codec : Codec) (s : Crowd ι) : Prop where
  server : s.server.store.Plain
  peers : ∀ i, SoundPeer codec s.server.store (s.peers i)

theorem SoundPeer.timeless_lacks {server : KeyValueStore} {p : Peer} (h : SoundPeer codec server p) :
    ∀ c ∈ lacks p.pushes, Timeless codec c := by
  intro c hc
  obtain ⟨raw, mem, decoded⟩ := List.mem_filterMap.mp hc
  obtain ⟨c', decoded', timeless⟩ := (h.pushes raw mem).decodes
  rw [decoded] at decoded'
  exact Option.some.inj decoded' ▸ timeless

omit [DecidableEq ι] in
theorem Agrees.sound (h : s.Agrees) : s.Sound codec := by
  refine ⟨h.server, fun i => ?_⟩
  obtain ⟨toServer, -, pushes⟩ := h.drained i
  refine ⟨h.clients i, ?_, ?_, ?_⟩
  · rw [pushes]
    exact nofun
  · rw [ahead, toServer]
    exact nofun
  · rw [ahead, lacks, toServer, pushes]
    exact h.same i

/-! ## A client writes -/

theorem SoundPeer.write {server : KeyValueStore} {p : Peer} (h : SoundPeer codec server p)
    (env : Env) (timeless : Timeless codec (unwrapDedup cmd).1)
    (commute : ∀ raw ∈ p.pushes, ∀ pushed ∈ decodeFrame raw, Commute codec pushed (unwrapDedup cmd).1) :
    SoundPeer codec server { p with
      client := { p.client with store := (execute codec env (unwrapDedup cmd).1 p.client.store).2 }
      toServer := p.toServer ++ [cmd] } := by
  obtain ⟨plain', live⟩ := h.plain.timeless env timeless
  have further : ahead (p.toServer ++ [cmd]) = ahead p.toServer ++ [(unwrapDedup cmd).1] :=
    List.map_append
  refine ⟨plain', h.pushes, ?_, ?_⟩
  · intro c hc
    obtain old | new := List.mem_append.mp (further ▸ hc)
    · exact h.writes c old
    · exact List.mem_singleton.mp new ▸ timeless
  · have crosses : ∀ c ∈ lacks p.pushes, Commute codec (unwrapDedup cmd).1 c := by
      intro c hc
      obtain ⟨raw, mem, decoded⟩ := List.mem_filterMap.mp hc
      exact (commute raw mem c decoded).symm
    show SameView (replayAll codec (lacks p.pushes) _) (replayAll codec (ahead (p.toServer ++ [cmd])) _)
    rw [live, further, replayAll_append]
    exact (replayAll_comm h.timeless_lacks crosses h.plain.lasts).trans (replay_sameView codec _ h.same)

/-! ## A client handles what it is sent -/

theorem SoundPeer.push {server : KeyValueStore} {p : Peer} (h : SoundPeer codec server p) (env : Env)
    {raw : Bytes} {pushes : List Bytes} (first : p.pushes = raw :: pushes) :
    SoundPeer codec server { p with client := (p.client.handleFrame codec env raw).2, pushes } := by
  obtain ⟨m, rfl, decodable, replayable, timeless⟩ := h.pushes raw (first ▸ List.mem_cons_self)
  obtain ⟨plain, live⟩ := h.plain.timeless env timeless
  have decoded : decodeFrame (respPush m.parts) = some m.wire.toCommand :=
    (m.decodeFrame_parts _).mpr ⟨decodable, rfl⟩
  rw [SyncClient.handleFrame_parts decodable replayable]
  refine ⟨plain, fun raw hr => h.pushes raw (first ▸ List.mem_cons_of_mem _ hr), h.writes, ?_⟩
  have same := h.same
  rw [lacks, first, List.filterMap_cons, decoded] at same
  show SameView (replayAll codec _ ((execute codec env m.wire.toCommand p.client.store).2.live 0)) _
  rw [live]
  exact same

theorem handleFrame_store {raw : Bytes} (keeps : changesStore raw = false) (env : Env)
    (client : SyncClient) : (client.handleFrame codec env raw).2.store = client.store := by
  have acked : client.ackReply.2.store = client.store := by
    unfold SyncClient.ackReply
    split <;> rfl
  have array (tag : Bytes) (items : List Value) (stateless : tag ≠ asBytes "keychange")
      (stateless' : tag ≠ asBytes "qstate") :
      (if tag = asBytes "keychange" then (Incoming.applied, client.applyKeychange codec env items)
        else if tag = asBytes "qstate" then (.appliedReply client.ackReply.1,
          { client.ackReply.2 with store := SyncClient.applyQstate codec env items client.ackReply.2.store })
        else (.reply client.ackReply.1, client.ackReply.2)).2.store = client.store := by
    rw [if_neg stateless, if_neg stateless']
    exact acked
  unfold changesStore at keeps
  unfold SyncClient.handleFrame
  cases parsed : Value.parse raw with
  | error e => rfl
  | ok result =>
    obtain ⟨value, n⟩ := result
    rw [parsed] at keeps
    have untagged : ([] : Bytes) ≠ asBytes "keychange" ∧ ([] : Bytes) ≠ asBytes "qstate" := by decide
    cases value with
    | push items => cases keeps
    | array items =>
      cases items with
      | none => exact acked
      | some items =>
        cases items with
        | nil => exact array [] [] untagged.1 untagged.2
        | cons first rest =>
          cases first with
          | bulkString data =>
            cases data with
            | none => exact array [] _ untagged.1 untagged.2
            | some tag =>
              simp only [Bool.or_eq_false_iff, decide_eq_false_iff_not] at keeps
              exact array tag _ keeps.1 keeps.2
          | _ => exact array [] _ untagged.1 untagged.2
    | _ => exact acked

theorem SoundPeer.reply {server : KeyValueStore} {p : Peer} (h : SoundPeer codec server p) (env : Env)
    {raw : Bytes} (replies : List Bytes) (keeps : changesStore raw = false) :
    SoundPeer codec server { p with client := (p.client.handleFrame codec env raw).2, replies } := by
  have store : (p.client.handleFrame codec env raw).2.store = p.client.store :=
    handleFrame_store keeps env p.client
  refine ⟨?_, h.pushes, h.writes, ?_⟩
  · exact store.symm ▸ h.plain
  · show SameView (replayAll codec _ ((p.client.handleFrame codec env raw).2.store.live 0)) _
    rw [store]
    exact h.same

/-! ## The server executes a write -/

/-- The client of another connection is sent the mutation of a write. -/
theorem SoundPeer.told {server server' : KeyValueStore} {p : Peer} (h : SoundPeer codec server p)
    (plain : server.Plain) (timeless : Timeless codec cmd)
    (sent : SentOn codec env cmd (server.live env.now))
    (crosses : ∀ other ∈ p.toServer, Compatible codec cmd (unwrapDedup other).1)
    (live : server'.live 0 = replay codec cmd (server.live 0)) :
    SoundPeer codec server' { p with
      pushes := p.pushes ++ (outcome codec env cmd (server.live env.now)).toList.map fun m =>
        respPush m.parts } := by
  have mirrored := sent.same plain timeless
  cases form : outcome codec env cmd (server.live env.now) with
  | none =>
    rw [form] at mirrored
    rw [Option.toList_none, List.map_nil, List.append_nil]
    refine ⟨h.plain, h.pushes, h.writes, h.same.trans (replayAll_sameView _ ?_)⟩
    rw [live]
    exact mirrored.symm
  | some m =>
    rw [form] at mirrored
    have decoded : decodeFrame (respPush m.parts) = some m.wire.toCommand :=
      (m.decodeFrame_parts _).mpr ⟨sent.decodable m form, rfl⟩
    have further : lacks (p.pushes ++ [respPush m.parts]) = lacks p.pushes ++ [m.wire.toCommand] := by
      rw [lacks, List.filterMap_append, List.filterMap_cons, decoded]
      rfl
    have commute : ∀ c ∈ ahead p.toServer, Commute codec m.wire.toCommand c := by
      intro c hc
      obtain ⟨other, under, rfl⟩ := List.mem_map.mp hc
      exact crosses other under env _ m form
    refine ⟨h.plain, fun raw hr => ?_, h.writes, ?_⟩
    · obtain old | new := List.mem_append.mp hr
      · exact h.pushes raw old
      · obtain rfl := List.mem_singleton.mp new
        exact sent.handled timeless form
    · show SameView (replayAll codec (lacks (p.pushes ++ [respPush m.parts])) _) _
      rw [further, replayAll_append, live]
      have first := replay_sameView codec m.wire.toCommand h.same
      have crossed := replayAll_comm h.writes commute plain.lasts
      exact first.trans (crossed.symm.trans (replayAll_sameView _ mirrored))

/-- The server has executed the first write of a client. -/
theorem SoundPeer.executed {server server' : KeyValueStore} {p : Peer} {rest : List Command}
    (h : SoundPeer codec server p) (first : p.toServer = cmd :: rest) (replies : List Bytes)
    (live : server'.live 0 = replay codec (unwrapDedup cmd).1 (server.live 0)) :
    SoundPeer codec server' { p with toServer := rest, replies } := by
  have writes := h.writes
  have same := h.same
  rw [first] at writes same
  refine ⟨h.plain, h.pushes, fun c hc => writes c (List.mem_cons_of_mem _ hc), ?_⟩
  rw [live]
  exact same

theorem sentTo_mutations (connId origin : ℕ) (cmd : Command) (m : Option Mutation) :
    sentTo connId (m.toList.map fun m => ⟨origin, primaryKeys cmd, respPush m.parts⟩) =
      if connId = origin then [] else m.toList.map fun m => respPush m.parts := by
  cases m with
  | none => simp [sentTo]
  | some m =>
    by_cases own : connId = origin
    · simp [sentTo, pushVisible, own]
    · simp [sentTo, pushVisible, own, Ne.symm own]

/-- What the server makes of a write that it accepts. -/
theorem serve_spec {server : ServerState} (plain : server.store.Plain) (accepts : server.Accepts cmd)
    (timeless : Timeless codec (unwrapDedup cmd).1) (env : Env) (origin : ℕ) :
    let server' := (server.executeOrderedWrite codec env origin cmd).2
    server'.store.Plain ∧
      server'.store.live 0 = replay codec (unwrapDedup cmd).1 (server.store.live 0) ∧
      server.newPushes server' =
        (outcome codec env (unwrapDedup cmd).1 (server.store.live env.now)).toList.map fun m =>
          ⟨origin, primaryKeys (unwrapDedup cmd).1, respPush m.parts⟩ := by
  have executes : server.Executes codec env origin (unwrapDedup cmd).1
      (server.executeOrderedWrite codec env origin cmd).2 := .ordered accepts
  obtain ⟨plain', live⟩ := plain.timeless env timeless
  have store : (server.executeOrderedWrite codec env origin cmd).2.store =
      (execute codec env (unwrapDedup cmd).1 server.store).2 := executes.spec.1
  obtain ⟨-, -, pushes⟩ := executes_uncapped executes timeless.write plain.uncapped
  refine ⟨store ▸ plain', store ▸ live, ?_⟩
  rw [pushes, pushesOf, broadcastFor_eq (replyIsText_run codec env _ _), Prog.run_fst]
  cases form : outcome codec env (unwrapDedup cmd).1 (server.store.live env.now) <;>
    simp_all [outcome, perform, KeyValueStore.live]

/-! ## Runs -/

theorem Sound.step (distinct : Function.Injective connId) (h : s.Sound codec) {a : CrowdAction ι}
    (careful : s.Careful codec a) (next : s.step codec connId a = some s') : s'.Sound codec := by
  have update (i : ι) {p : Peer} (sound : SoundPeer codec s.server.store p) :
      ({ s with peers := Function.update s.peers i p } : Crowd ι).Sound codec := by
    refine ⟨h.server, fun j => ?_⟩
    show SoundPeer codec s.server.store (Function.update s.peers i p j)
    by_cases same : j = i
    · subst same
      rwa [Function.update_self]
    · rw [Function.update_of_ne same]
      exact h.peers j
  cases a with
  | write i env cmd =>
    obtain rfl := Option.some.inj next
    exact update i ((h.peers i).write env careful.1 careful.2)
  | push i env =>
    simp only [Crowd.step] at next
    split at next
    · cases next
    · next raw pushes first =>
      obtain rfl := Option.some.inj next
      exact update i ((h.peers i).push env first)
  | reply i env =>
    simp only [Crowd.step] at next
    split at next
    · cases next
    · next raw replies first =>
      obtain rfl := Option.some.inj next
      exact update i ((h.peers i).reply env replies (careful raw (by rw [first]; rfl)))
  | serve i env =>
    simp only [Crowd.step] at next
    split at next
    · cases next
    · next cmd rest first =>
      obtain rfl := Option.some.inj next
      obtain ⟨accepts, sent, crosses⟩ := careful cmd (by rw [first]; rfl)
      have timeless : Timeless codec (unwrapDedup cmd).1 :=
        (h.peers i).writes _ (by rw [first]; exact List.mem_cons_self)
      obtain ⟨plain, live, pushes⟩ := serve_spec h.server accepts timeless env (connId i)
      refine ⟨plain, fun j => ?_⟩
      dsimp only
      rw [pushes, sentTo_mutations]
      by_cases same : j = i
      · subst same
        rw [if_pos rfl, if_pos rfl, List.append_nil]
        exact (h.peers j).executed first _ live
      · rw [if_neg same, if_neg fun eq => same (distinct eq)]
        exact (h.peers j).told h.server timeless sent (crosses j same) live

/-- Once a careful run has nothing under way from a client and nothing queued for it, the client shows what
the server shows. -/
theorem clients_converge (codec : Codec) (distinct : Function.Injective connId) {start : Crowd ι}
    (agrees : start.Agrees) (actions : List (CrowdAction ι))
    (careful : Runs.Each (Crowd.step codec connId) (Careful codec) start actions)
    (run : Runs.exec (Crowd.step codec connId) start actions = some s) (i : ι)
    (sent : (s.peers i).toServer = []) (handled : (s.peers i).pushes = []) (now : ℕ) :
    SameView ((s.peers i).client.store.live now) (s.server.store.live now) := by
  have sound : s.Sound codec :=
    Runs.invariant (fun _ _ _ h careful next => h.step distinct careful next) run careful agrees.sound
  have same := (sound.peers i).same
  rw [sent, handled] at same
  rw [(sound.peers i).plain.live_eq now, sound.server.live_eq now]
  exact same

/-- Two clients write keys of their own at the same time. -/
theorem clients_converge_set :
    ∃ s, Runs.exec (Crowd.step .literals fun i : Fin 2 => i.val + 1)
        { server := { store := {} }, peers := fun _ => {} }
        [.write 0 (.fixed 0) (.set "a" [118] {}), .write 1 (.fixed 0) (.set "b" [119] {}),
          .serve 0 (.fixed 0), .serve 1 (.fixed 0), .push 0 (.fixed 0), .push 1 (.fixed 0)] = some s ∧
      (s.peers 0).toServer = [] ∧ (s.peers 0).pushes = [] ∧
      SameView ((s.peers 0).client.store.live 5) (s.server.store.live 5) := by
  obtain ⟨s, run, sent, handled⟩ : ∃ s, Runs.exec (Crowd.step .literals fun i : Fin 2 => i.val + 1)
      { server := { store := {} }, peers := fun _ => {} }
      [.write 0 (.fixed 0) (.set "a" [118] {}), .write 1 (.fixed 0) (.set "b" [119] {}),
        .serve 0 (.fixed 0), .serve 1 (.fixed 0), .push 0 (.fixed 0), .push 1 (.fixed 0)] = some s ∧
      (s.peers 0).toServer = [] ∧ (s.peers 0).pushes = [] := ⟨_, rfl, rfl, rfl⟩
  have empty : ({} : KeyValueStore).Plain := ⟨⟨rfl, rfl⟩, fun k => by simpa using .none⟩
  refine ⟨s, run, sent, handled, clients_converge .literals (fun i j eq => by simpa [Fin.ext_iff] using eq)
    ⟨?_, ?_, fun _ => ⟨rfl, rfl, rfl⟩, fun _ => .refl _⟩ _ ?_ run 0 sent handled 5⟩
  · exact empty
  · exact fun _ => empty
  · have set (key : String) (val : Bytes) : Timeless .literals (.set key val {}) :=
      timeless_of_replayable .literals rfl rfl
    have sent {key : String} {val : Bytes} {v : View}
        (decodable : (Mutation.set key val .none).Decodable) :
        SentOn .literals (.fixed 0) (.set key val {}) v := by
      refine ⟨?_, ?_, nofun⟩
      · rintro m ⟨⟩
        exact decodable
      · rintro m ⟨⟩
        rfl
    have distinct : Compatible .literals (.set "a" [118] {}) (.set "b" [119] {}) :=
      compatible_of_disjoint nofun nofun (set "b" [119]) (by decide)
    refine ⟨⟨set "a" [118], nofun⟩, ?_⟩
    rintro s ⟨⟩
    refine ⟨⟨set "b" [119], nofun⟩, ?_⟩
    rintro s ⟨⟩
    refine ⟨?_, ?_⟩
    · rintro cmd ⟨⟩
      refine ⟨⟨rfl, nofun⟩, sent ((Mutation.decodeFrame_parts _ _).mp rfl).1, ?_⟩
      intro j other cmd under
      obtain rfl : j = 1 := by omega
      obtain rfl := List.mem_singleton.mp under
      exact distinct
    rintro s ⟨⟩
    refine ⟨?_, ?_⟩
    · rintro cmd ⟨⟩
      refine ⟨⟨rfl, nofun⟩, sent ((Mutation.decodeFrame_parts _ _).mp rfl).1, ?_⟩
      intro j other cmd under
      obtain rfl : j = 0 := by omega
      cases under
    rintro s ⟨⟩
    refine ⟨trivial, ?_⟩
    rintro s ⟨⟩
    exact ⟨trivial, fun _ _ => trivial⟩

/-- Two clients set the same key at the same time: the one whose write the server executes last keeps the
value of the other. -/
theorem clients_diverge :
    ∃ s, Runs.exec (Crowd.step .literals fun i : Fin 2 => i.val + 1)
        { server := { store := {} }, peers := fun _ => {} }
        [.write 0 (.fixed 0) (.set "k" [118] {}), .write 1 (.fixed 0) (.set "k" [119] {}),
          .serve 0 (.fixed 0), .serve 1 (.fixed 0), .push 0 (.fixed 0), .push 1 (.fixed 0),
          .reply 0 (.fixed 0), .reply 1 (.fixed 0)] = some s ∧
      (∀ i, (s.peers i).toServer = [] ∧ (s.peers i).replies = [] ∧ (s.peers i).pushes = []) ∧
      shown ((s.peers 1).client.store.live 0 "k") = some (.str [118]) ∧
      shown (s.server.store.live 0 "k") = some (.str [119]) :=
  ⟨_, rfl, by decide, rfl, rfl⟩

end Crowd

end Recached
