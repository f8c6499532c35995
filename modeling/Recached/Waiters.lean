import Mathlib.Data.List.ReduceOption
import Recached.Acknowledged
import Recached.Bookkeeping

/-!
# The waiters of the embedded client

A task owns the socket of an embedded client and keeps a queue of waiters beside the client's `inflight`:
one slot for each frame it has written, with the operation that awaits the reply.  While a connection is
served both queues mirror the frames that are under way, so that the next reply finds the operation whose
frame it answers.
-/

namespace Recached

open Text

/-! ## Replies and pushes -/

/-- The client takes the frame for a reply. -/
def Incoming.takesSlot : Incoming → Bool
  | .reply _ | .appliedReply _ => true
  | .pubSub .. | .applied | .ignored | .malformed => false

namespace SyncClient

variable (client : SyncClient) {raw : Bytes}

theorem handlePush_takesSlot (codec : Codec) (env : Env) (items : List Value) (store : KeyValueStore) :
    (handlePush codec env items store).1.takesSlot = false := by
  unfold handlePush
  split
  · rfl
  · split
    · split_ifs <;> rfl
    · rfl

/-- What acknowledges a frame is a reply, and nothing else is. -/
theorem handleFrame_takesSlot (codec : Codec) (env : Env) (raw : Bytes) :
    (client.handleFrame codec env raw).1.takesSlot = acknowledges raw := by
  have tagged (tag : Bytes) (other : tag ≠ asBytes "keychange") (items : List Value) :
      (if tag = asBytes "keychange" then (Incoming.applied, client.applyKeychange codec env items)
        else if tag = asBytes "qstate" then (.appliedReply client.ackReply.1,
          { client.ackReply.2 with store := applyQstate codec env items client.ackReply.2.store })
        else (.reply client.ackReply.1, client.ackReply.2)).1.takesSlot = true := by
    rw [if_neg other]
    split_ifs <;> rfl
  have untagged := tagged [] (by decide)
  unfold acknowledges handleFrame
  cases Value.parse raw with
  | error e => rfl
  | ok parsed =>
    obtain ⟨value, n⟩ := parsed
    cases value with
    | push items => exact handlePush_takesSlot codec env items client.store
    | array items =>
      cases items with
      | none => rfl
      | some items =>
        cases items with
        | nil => exact untagged []
        | cons first rest =>
          cases first with
          | bulkString data =>
            cases data with
            | none => exact untagged _
            | some tag =>
              by_cases state : tag = asBytes "keychange"
              · subst state
                rfl
              · exact (tagged tag state _).trans (bne_iff_ne.mpr state).symm
          | simpleString | error | integer | array | push | map => exact untagged _
    | simpleString | error | integer | bulkString | map => rfl

theorem handleFrame_reply (codec : Codec) (env : Env) (ack : acknowledges raw = true) :
    ∃ incoming store, client.handleFrame codec env raw = (incoming, { client.ackReply.2 with store }) ∧
      ((∃ retired, incoming = .reply retired) ∨ ∃ retired, incoming = .appliedReply retired) := by
  have kind := client.handleFrame_takesSlot codec env raw
  obtain ⟨-, incoming, store, handled, -⟩ | ⟨push, -⟩ := client.handleFrame_cases codec env raw
  · refine ⟨incoming, store, handled, ?_⟩
    rw [handled, ack] at kind
    cases incoming with
    | reply retired => exact .inl ⟨retired, rfl⟩
    | appliedReply retired => exact .inr ⟨retired, rfl⟩
    | pubSub | applied | ignored | malformed => cases kind
  · exact absurd (push.symm.trans ack) nofun

theorem handleFrame_push (codec : Codec) (env : Env) (push : acknowledges raw = false) :
    ∃ incoming store, client.handleFrame codec env raw = (incoming, { client with store }) ∧
      incoming.takesSlot = false := by
  have kind := client.handleFrame_takesSlot codec env raw
  obtain ⟨ack, -⟩ | ⟨-, incoming, store, handled, -⟩ := client.handleFrame_cases codec env raw
  · exact absurd (push.symm.trans ack) nofun
  · rw [handled, push] at kind
    exact ⟨incoming, store, handled, kind⟩

end SyncClient

/-! ## Operations and what they are given -/

inductive EmbedError where
  | disconnected
  | server (message : String)
deriving DecidableEq

def replyResult : Option Value → Except EmbedError Value
  | some (.error msg) => .error (.server msg)
  | some value => .ok value
  | none => .error (.server "unparseable reply")

/-- Work that a handle asks of the task; a write need not be awaited. -/
inductive EmbedOp where
  | write (encoded : Bytes) (awaited : Bool)
  | read (frame : Bytes)
  | watch (pattern : String)
  | unwatch (pattern : String)
  | subscribe (channel : String)
deriving DecidableEq

/-- What the caller of an operation is given: a reply or an error, or the receiver of a channel. -/
inductive Resolution where
  | result (r : Except EmbedError Value)
  | receiver

/-- The result of a reply. -/
def Resolution.ofReply (raw : Bytes) : Resolution :=
  .result (replyResult ((Value.parse raw).toOption.map Prod.fst))

def Resolution.failed : Resolution := .result (.error .disconnected)

/-- A frame on the socket, with the operation that awaits its reply. -/
structure TaskFrame extends OutFrame where
  owner : Option ℕ

inductive TaskMessage where
  | reply (frame : TaskFrame) (raw : Bytes)
  | push (raw : Bytes)

namespace TaskMessage

def raw : TaskMessage → Bytes
  | reply _ raw | push raw => raw

/-- The frame that the message answers. -/
def answered : TaskMessage → Option TaskFrame
  | reply frame _ => some frame
  | push _ => none

end TaskMessage

/-! ## The task -/

inductive TaskPhase where
  | connecting
  /-- The frames of the session and the channels that are still to be sent. -/
  | opening (frames : List OutFrame) (channels : List String)
  | serving
  | waiting
  | stopped

/-- The task, both ends of its socket, the operations it has taken and what became of them.  An operation
is known by its position. -/
structure EmbedTask where
  client : SyncSession
  waiters : List (Option ℕ) := []
  channels : List String := []
  firstOpen : Bool := true
  phase : TaskPhase := .connecting
  toServer : List TaskFrame := []
  toClient : List TaskMessage := []
  ops : List EmbedOp := []
  resolved : List (ℕ × Resolution) := []
  /-- The replies that the server has given to the frames of operations. -/
  answered : List (ℕ × Bytes) := []
  /-- The messages handed to the subscribers of a channel. -/
  heard : List (String × Bytes) := []

inductive TaskEvent where
  /-- A connection is made; the map of channels is listed in some order. -/
  | connected (channels : List String)
  | refused
  | send (ok : Bool)
  | op (op : EmbedOp) (ok : Bool)
  | upkeep (env : Env)
  | handlesGone
  | lost
  | deliver (env : Env)
  | delayOver
  | answer (raw : Bytes)
  | push (raw : Bytes)

namespace EmbedTask

/-- The socket is gone: those who wait are told, and the task waits for the next attempt. -/
def drop (s : EmbedTask) : EmbedTask :=
  { s with
    phase := .waiting
    waiters := []
    toServer := []
    toClient := []
    resolved := s.resolved ++ s.waiters.reduceOption.map (·, .failed) }

def resolve (id : ℕ) (r : Resolution) (s : EmbedTask) : EmbedTask :=
  { s with resolved := s.resolved ++ [(id, r)] }

/-- Take a slot and write a frame; if that fails the connection is over. -/
def send (ok : Bool) (frame : OutFrame) (owner : Option ℕ) (s : EmbedTask) : EmbedTask :=
  if ok then { s with waiters := s.waiters ++ [owner], toServer := s.toServer ++ [⟨frame, owner⟩] }
  else { s with waiters := s.waiters ++ [owner] }.drop

/-- Send the frame of an operation that awaits its reply. -/
def request (id : ℕ) (ok : Bool) (made : Option Bytes × SyncSession) (s : EmbedTask) : EmbedTask :=
  match made.1 with
  | some frame => { s with client := made.2 }.send ok ⟨frame, none⟩ (some id)
  | none => { s with client := made.2 }.resolve id .failed

def addChannel (channel : String) (s : EmbedTask) : EmbedTask :=
  if channel ∈ s.channels then s else { s with channels := s.channels ++ [channel] }

/-- The phase in which something is left to be sent. -/
def remaining (frames : List OutFrame) (channels : List String) : TaskPhase :=
  if frames.isEmpty && channels.isEmpty then .serving else .opening frames channels

/-- Perform an operation on a live socket. -/
def onOp (id : ℕ) (op : EmbedOp) (ok : Bool) (s : EmbedTask) : EmbedTask :=
  match op with
  | .write encoded awaited =>
    let (queued, client) := s.client.enqueueWrite true encoded true
    { s with client }.send ok ⟨queued.frame, some queued.id⟩ (if awaited then some id else none)
  | .read frame => s.request id ok (s.client.sessionCommand true frame)
  | .watch pattern => s.request id ok (s.client.addLiveQuery true pattern)
  | .unwatch pattern => s.request id ok (s.client.removeLiveQuery true (some pattern))
  | .subscribe channel =>
    let s := s.addChannel channel
    match s.client.sessionCommand true (toResp ["SUBSCRIBE", channel]) with
    -- the receiver is handed over whether the frame is written or not
    | (some frame, client) => ({ s with client }.resolve id .receiver).send ok ⟨frame, none⟩ none
    | (none, client) => { s with client }.resolve id .receiver

/-- Take an operation while there is no socket. -/
def onOpOffline (id : ℕ) (op : EmbedOp) (s : EmbedTask) : EmbedTask :=
  match op with
  | .write encoded awaited =>
    let s := { s with client := (s.client.enqueueWrite false encoded true).2 }
    if awaited then s.resolve id .failed else s
  | .read _ | .watch _ | .unwatch _ => s.resolve id .failed
  | .subscribe channel => (s.addChannel channel).resolve id .receiver

/-- Apply an incoming frame. -/
def onMessage (codec : Codec) (env : Env) (raw : Bytes) (s : EmbedTask) : EmbedTask :=
  let (incoming, client) := s.client.handleFrame codec env raw
  let s := { s with client }
  match incoming with
  | .reply _ | .appliedReply _ =>
    { s with
      waiters := s.waiters.tail
      resolved := s.resolved ++ (s.waiters.head?.bind id).toList.map (·, .ofReply raw) }
  | .pubSub channel message =>
    if channel ∈ s.channels then { s with heard := s.heard ++ [(channel, message)] } else s
  | .applied | .ignored => s
  | .malformed => s.drop

/-- Drop the entries that have lapsed, and evict down to the cap. -/
def maintain (env : Env) (s : EmbedTask) : EmbedTask :=
  let store := ((s.client.store.sweepExpired env.now).tryEvictForMemory env []).2.1
  { s with client := { s.client with store } }

def step (codec : Codec) (s : EmbedTask) : TaskEvent → Option EmbedTask
  | .connected channels =>
    match s.phase with
    | .connecting =>
      if channels.Perm s.channels then
        some { s with
          firstOpen := false
          waiters := []
          client := s.client.onOpen.2
          phase := remaining (SyncLink.opening s.client) channels }
      else none
    | _ => none
  | .refused =>
    match s.phase with
    | .connecting => some (if s.firstOpen then { s with phase := .stopped } else s.drop)
    | _ => none
  | .send ok =>
    match s.phase with
    | .opening (frame :: frames) channels =>
      some ({ s with phase := remaining frames channels }.send ok frame none)
    | .opening [] (channel :: channels) =>
      match s.client.sessionCommand true (toResp ["SUBSCRIBE", channel]) with
      | (some frame, client) =>
        some ({ s with client, phase := remaining [] channels }.send ok ⟨frame, none⟩ none)
      | (none, client) => some { s with client, phase := remaining [] channels }
    | _ => none
  | .op op ok =>
    match s.phase with
    | .serving => some ({ s with ops := s.ops ++ [op] }.onOp s.ops.length op ok)
    | .waiting => some ({ s with ops := s.ops ++ [op] }.onOpOffline s.ops.length op)
    | _ => none
  | .upkeep env =>
    match s.phase with
    | .serving | .waiting => some (s.maintain env)
    | _ => none
  | .handlesGone =>
    match s.phase with
    | .serving | .waiting => some { s with phase := .stopped, waiters := [], toServer := [], toClient := [] }
    | _ => none
  | .lost =>
    match s.phase with
    | .serving => some s.drop
    | _ => none
  | .deliver env =>
    match s.phase, s.toClient with
    | .serving, message :: rest => some ({ s with toClient := rest }.onMessage codec env message.raw)
    | _, _ => none
  | .delayOver =>
    match s.phase with
    | .waiting => some { s with phase := .connecting }
    | _ => none
  | .answer raw =>
    match s.toServer with
    | frame :: rest =>
      if isRespPush raw then none
      else some { s with
        toServer := rest
        toClient := s.toClient ++ [.reply frame raw]
        answered := s.answered ++ frame.owner.toList.map (·, raw) }
    | [] => none
  | .push raw =>
    match s.phase with
    | .opening _ _ | .serving =>
      if acknowledges raw then none else some { s with toClient := s.toClient ++ [.push raw] }
    | _ => none

/-! ## What a run keeps -/

/-- The frames under way whose replies the client has not handled yet. -/
def pending (s : EmbedTask) : List TaskFrame := s.toClient.filterMap TaskMessage.answered ++ s.toServer

/-- Both queues mirror the frames under way; the client has counted those that are still to be sent. -/
structure Lined (ahead : List OutFrame) (s : EmbedTask) : Prop where
  waiters : s.waiters = s.pending.map TaskFrame.owner
  places : s.client.inflight = s.pending.map (·.row) ++ ahead.map OutFrame.row

/-- Without a socket nothing is under way, and nobody waits. -/
structure Silent (s : EmbedTask) : Prop where
  waiters : s.waiters = []
  toServer : s.toServer = []
  toClient : s.toClient = []

def Aligned (s : EmbedTask) : Prop :=
  match s.phase with
  | .serving => s.Lined []
  | .opening frames _ => s.Lined frames
  | .connecting | .waiting | .stopped => s.Silent

/-- The operation asks for the receiver of a channel. -/
def Subscribes (ops : List EmbedOp) (id : ℕ) : Prop := ∃ channel, ops[id]? = some (.subscribe channel)

/-- What an operation may be given: a subscription its receiver, any other operation the reply to its own
frame, or the error that says that the connection was lost. -/
def Rightly (ops : List EmbedOp) (answered : List (ℕ × Bytes)) (id : ℕ) : Resolution → Prop
  | .receiver => Subscribes ops id
  | .result r => ¬Subscribes ops id ∧
    (Resolution.result r = .failed ∨ ∃ raw, (id, raw) ∈ answered ∧ Resolution.result r = .ofReply raw)

/-- The books about the first `n` operations: who waits, who was given what, and what was answered. -/
structure Books (n : ℕ) (waiters : List (Option ℕ)) (resolved : List (ℕ × Resolution)) (ops : List EmbedOp)
    (answered : List (ℕ × Bytes)) : Prop where
  apart : (resolved.map Prod.fst ++ waiters.reduceOption).Nodup
  known : ∀ id ∈ resolved.map Prod.fst ++ waiters.reduceOption, id < n
  rightly : ∀ p ∈ resolved, Rightly ops answered p.1 p.2
  expecting : ∀ id ∈ waiters.reduceOption, ¬Subscribes ops id
  receivers : ∀ id < n, Subscribes ops id → (id, .receiver) ∈ resolved

/-- What the server has told operations that wait is what it has answered, and the client takes it for
what it is. -/
structure Truthful (s : EmbedTask) : Prop where
  told : ∀ frame raw, TaskMessage.reply frame raw ∈ s.toClient → ∀ id ∈ frame.owner, (id, raw) ∈ s.answered
  replies : ∀ frame raw, TaskMessage.reply frame raw ∈ s.toClient →
    acknowledges raw = true ∨ ∃ e, Value.parse raw = .error e
  pushes : ∀ raw, TaskMessage.push raw ∈ s.toClient → acknowledges raw = false

variable {codec : Codec} {env : Env} {s : EmbedTask} {n : ℕ} {raw : Bytes}

/-! ### The queues -/

namespace Lined

variable {ahead : List OutFrame} {frame : OutFrame}

/-- A frame that the client has counted is written, and takes its slot. -/
theorem send (h : s.Lined (frame :: ahead)) (owner : Option ℕ) :
    ({ s with
      waiters := s.waiters ++ [owner]
      toServer := s.toServer ++ [⟨frame, owner⟩] } : EmbedTask).Lined ahead := by
  have further : ({ s with
      waiters := s.waiters ++ [owner]
      toServer := s.toServer ++ [⟨frame, owner⟩] } : EmbedTask).pending = s.pending ++ [⟨frame, owner⟩] :=
    (List.append_assoc ..).symm
  refine ⟨?_, ?_⟩
  · rw [further, List.map_append, ← h.waiters]
    rfl
  · rw [further]
    simpa using h.places

end Lined

theorem aligned_remaining {frames : List OutFrame} (h : s.Lined frames) (channels : List String) :
    ({ s with phase := remaining frames channels } : EmbedTask).Aligned := by
  unfold remaining Aligned
  split_ifs with none
  · obtain rfl := List.isEmpty_iff.mp (Bool.and_eq_true_iff.mp none).1
    exact ⟨h.waiters, h.places⟩
  · exact ⟨h.waiters, h.places⟩

theorem aligned_drop (s : EmbedTask) : s.drop.Aligned := ⟨rfl, rfl, rfl⟩

theorem aligned_send {frame : OutFrame} {ahead : List OutFrame} {channels : List String}
    (h : s.Lined (frame :: ahead)) (phase : s.phase = remaining ahead channels) (ok : Bool)
    (owner : Option ℕ) : (s.send ok frame owner).Aligned := by
  cases ok with
  | true =>
    have after := aligned_remaining (h.send owner) channels
    rw [← phase] at after
    exact after
  | false => exact aligned_drop _

/-! ### The books -/

namespace Books

variable {waiters : List (Option ℕ)} {resolved : List (ℕ × Resolution)} {ops : List EmbedOp}
  {answered : List (ℕ × Bytes)}

theorem drop (h : Books n waiters resolved ops answered) :
    Books n [] (resolved ++ waiters.reduceOption.map (·, .failed)) ops answered := by
  have names : (resolved ++ waiters.reduceOption.map (·, Resolution.failed)).map Prod.fst ++
      [].reduceOption = resolved.map Prod.fst ++ waiters.reduceOption := by
    simp [Function.comp_def]
  refine ⟨names ▸ h.apart, names ▸ h.known, fun p hp => ?_, nofun,
    fun id below subscribes => List.mem_append_left _ (h.receivers id below subscribes)⟩
  rcases List.mem_append.mp hp with old | new
  · exact h.rightly p old
  · obtain ⟨id, waits, rfl⟩ := List.mem_map.mp new
    exact ⟨h.expecting id waits, .inl rfl⟩

/-- A slot that nobody awaits. -/
theorem pad (h : Books n waiters resolved ops answered) :
    Books n (waiters ++ [none]) resolved ops answered := by
  have same : (waiters ++ [none]).reduceOption = waiters.reduceOption := by
    simp [List.reduceOption_append]
  exact ⟨same ▸ h.apart, same ▸ h.known, h.rightly, same ▸ h.expecting, h.receivers⟩

theorem receivers_succ (h : Books n waiters resolved ops answered) (other : ¬Subscribes ops n) :
    ∀ id < n + 1, Subscribes ops id → (id, .receiver) ∈ resolved := by
  intro id below subscribes
  rcases Nat.lt_succ_iff_lt_or_eq.mp below with old | rfl
  · exact h.receivers id old subscribes
  · exact absurd subscribes other

/-- The next operation takes a slot. -/
theorem await (h : Books n waiters resolved ops answered) (other : ¬Subscribes ops n) :
    Books (n + 1) (waiters ++ [some n]) resolved ops answered := by
  have more : (waiters ++ [some n]).reduceOption = waiters.reduceOption ++ [n] := by
    simp [List.reduceOption_append]
  have new : n ∉ resolved.map Prod.fst ++ waiters.reduceOption := fun there => lt_irrefl n (h.known n there)
  refine ⟨?_, ?_, h.rightly, ?_, h.receivers_succ other⟩
  · rw [more, ← List.append_assoc]
    exact List.Nodup.append h.apart (List.nodup_singleton n) (List.disjoint_singleton.mpr new)
  · rw [more, ← List.append_assoc]
    intro id there
    rcases List.mem_append.mp there with old | last
    · exact (h.known id old).trans (Nat.lt_succ_self n)
    · exact List.mem_singleton.mp last ▸ Nat.lt_succ_self n
  · rw [more]
    intro id there
    rcases List.mem_append.mp there with old | last
    · exact h.expecting id old
    · exact List.mem_singleton.mp last ▸ other

/-- The next operation is given something at once. -/
theorem resolve (h : Books n waiters resolved ops answered) {r : Resolution}
    (rightly : Rightly ops answered n r) (receives : Subscribes ops n → r = .receiver) :
    Books (n + 1) waiters (resolved ++ [(n, r)]) ops answered := by
  have new : n ∉ resolved.map Prod.fst ++ waiters.reduceOption := fun there => lt_irrefl n (h.known n there)
  have names : (resolved ++ [(n, r)]).map Prod.fst ++ waiters.reduceOption =
      resolved.map Prod.fst ++ n :: waiters.reduceOption := by simp
  refine ⟨?_, fun id there => ?_, fun p hp => ?_, h.expecting, fun id below subscribes => ?_⟩
  · rw [names]
    exact List.nodup_middle.mpr (List.nodup_cons.mpr ⟨new, h.apart⟩)
  · rw [names] at there
    rcases List.mem_cons.mp (List.perm_middle.mem_iff.mp there) with rfl | old
    · exact Nat.lt_succ_self _
    · exact (h.known id old).trans (Nat.lt_succ_self n)
  · rcases List.mem_append.mp hp with old | last
    · exact h.rightly p old
    · obtain rfl := List.mem_singleton.mp last
      exact rightly
  · rcases Nat.lt_succ_iff_lt_or_eq.mp below with old | rfl
    · exact List.mem_append_left _ (h.receivers id old subscribes)
    · exact List.mem_append_right _ (List.mem_singleton.mpr (by rw [receives subscribes]))

/-- The next operation is a write that nobody awaits. -/
theorem skip (h : Books n waiters resolved ops answered) (other : ¬Subscribes ops n) :
    Books (n + 1) waiters resolved ops answered :=
  ⟨h.apart, fun id there => (h.known id there).trans (Nat.lt_succ_self n), h.rightly, h.expecting,
    h.receivers_succ other⟩

/-- An operation is taken. -/
theorem take (h : Books ops.length waiters resolved ops answered) (op : EmbedOp) :
    Books ops.length waiters resolved (ops ++ [op]) answered := by
  have same {id : ℕ} (below : id < ops.length) : Subscribes (ops ++ [op]) id ↔ Subscribes ops id := by
    unfold Subscribes
    simp only [List.getElem?_append_left below]
  have below {p : ℕ × Resolution} (hp : p ∈ resolved) : p.1 < ops.length :=
    h.known p.1 (List.mem_append_left _ (List.mem_map_of_mem hp))
  refine ⟨h.apart, h.known, fun p hp => ?_, fun id there => ?_, fun id small subscribes => ?_⟩
  · have old := h.rightly p hp
    obtain ⟨id, r⟩ := p
    cases r with
    | receiver => exact (same (below hp)).mpr old
    | result r => exact ⟨mt (same (below hp)).mp old.1, old.2⟩
  · exact mt (same (h.known id (List.mem_append_right _ there))).mp (h.expecting id there)
  · exact h.receivers id small ((same small).mp subscribes)

/-- The reply to the operation at the front is handed over. -/
theorem pop {owner : Option ℕ} (h : Books n (owner :: waiters) resolved ops answered) {raw : Bytes}
    (told : ∀ id ∈ owner, (id, raw) ∈ answered) :
    Books n waiters (resolved ++ owner.toList.map (·, .ofReply raw)) ops answered := by
  cases owner with
  | none =>
    have quiet : Books n waiters resolved ops answered :=
      ⟨h.apart, h.known, h.rightly, h.expecting, h.receivers⟩
    simpa using quiet
  | some id =>
    have names : (resolved ++ [(id, Resolution.ofReply raw)]).map Prod.fst ++ waiters.reduceOption =
        resolved.map Prod.fst ++ (some id :: waiters).reduceOption := by
      rw [List.reduceOption_cons_of_some]
      simp
    have awaited : id ∈ (some id :: waiters).reduceOption := by
      rw [List.reduceOption_cons_of_some]
      exact List.mem_cons_self
    refine ⟨names ▸ h.apart, names ▸ h.known, fun p hp => ?_,
      fun id' there => h.expecting id' (List.mem_cons_of_mem _ there),
      fun id' below subscribes => List.mem_append_left _ (h.receivers id' below subscribes)⟩
    rcases List.mem_append.mp hp with old | last
    · exact h.rightly p old
    · obtain rfl := List.mem_singleton.mp last
      exact ⟨h.expecting id awaited, .inr ⟨raw, told id rfl, rfl⟩⟩

/-- The server answers a frame. -/
theorem answer (h : Books n waiters resolved ops answered) (more : List (ℕ × Bytes)) :
    Books n waiters resolved ops (answered ++ more) := by
  refine ⟨h.apart, h.known, fun p hp => ?_, h.expecting, h.receivers⟩
  have old := h.rightly p hp
  obtain ⟨id, r⟩ := p
  cases r with
  | receiver => exact old
  | result r =>
    obtain ⟨other, failed | ⟨raw, there, same⟩⟩ := old
    · exact ⟨other, .inl failed⟩
    · exact ⟨other, .inr ⟨raw, List.mem_append_left _ there, same⟩⟩

/-- Those who wait are forgotten. -/
theorem forget (h : Books n waiters resolved ops answered) : Books n [] resolved ops answered :=
  ⟨by simpa using h.apart.of_append_left,
    fun id there => h.known id (List.mem_append_left _ (by simpa using there)), h.rightly, nofun, h.receivers⟩

end Books

/-! ### Incoming frames -/

theorem onMessage_reply (ack : acknowledges raw = true) {owner row : Option ℕ}
    {waiters places : List (Option ℕ)} (first : s.waiters = owner :: waiters) (place : s.client.inflight = row :: places) :
    ∃ client : SyncSession, client.inflight = places ∧ s.onMessage codec env raw = { s with
      client
      waiters
      resolved := s.resolved ++ owner.toList.map (·, .ofReply raw) } := by
  obtain ⟨incoming, store, handled, kind⟩ := s.client.toSyncClient.handleFrame_reply codec env ack
  obtain ⟨-, rest, -⟩ := s.client.toSyncClient.ackReply_cons place
  refine ⟨{ s.client with toSyncClient := { s.client.toSyncClient.ackReply.2 with store } }, rest, ?_⟩
  unfold onMessage SyncSession.handleFrame
  rw [handled]
  obtain ⟨retired, rfl⟩ | ⟨retired, rfl⟩ := kind <;> simp only [first] <;> rfl

/-- A push leaves both queues, unless the client cannot read it. -/
theorem onMessage_push (push : acknowledges raw = false) : ∃ client : SyncSession, ∃ heard,
    client.inflight = s.client.inflight ∧
      (s.onMessage codec env raw = { s with client, heard } ∨
        s.onMessage codec env raw = ({ s with client } : EmbedTask).drop) := by
  obtain ⟨incoming, store, handled, kind⟩ := s.client.toSyncClient.handleFrame_push codec env push
  refine ⟨{ s.client with toSyncClient := { s.client.toSyncClient with store } },
    (s.onMessage codec env raw).heard, rfl, ?_⟩
  unfold onMessage SyncSession.handleFrame
  rw [handled]
  cases incoming with
  | reply | appliedReply => cases kind
  | applied | ignored => exact .inl rfl
  | malformed => exact .inr rfl
  | pubSub channel message =>
    refine .inl ?_
    dsimp only
    split_ifs <;> rfl

/-- A frame that cannot be read ends the connection. -/
theorem onMessage_unread {e : ParseError} (unread : Value.parse raw = .error e) :
    s.onMessage codec env raw = s.drop := by
  unfold onMessage SyncSession.handleFrame
  rw [s.client.toSyncClient.handleFrame_error codec env unread]

/-! ### Steps -/

theorem Truthful.mono {s' : EmbedTask} (h : s.Truthful) (fewer : ∀ m ∈ s'.toClient, m ∈ s.toClient)
    (more : ∀ p ∈ s.answered, p ∈ s'.answered) : s'.Truthful :=
  ⟨fun frame raw there id owner => more _ (h.told frame raw (fewer _ there) id owner),
    fun frame raw there => h.replies frame raw (fewer _ there),
    fun raw there => h.pushes raw (fewer _ there)⟩

structure Sound (s : EmbedTask) : Prop where
  aligned : s.Aligned
  books : Books s.ops.length s.waiters s.resolved s.ops s.answered
  truthful : s.Truthful

theorem sound_drop (books : Books s.ops.length s.waiters s.resolved s.ops s.answered) : s.drop.Sound :=
  ⟨aligned_drop s, books.drop, ⟨nofun, nofun, nofun⟩⟩

theorem sound_send {frame : OutFrame} {ahead : List OutFrame} {channels : List String}
    (lined : s.Lined (frame :: ahead)) (phase : s.phase = remaining ahead channels) (ok : Bool)
    {owner : Option ℕ} (books : Books s.ops.length (s.waiters ++ [owner]) s.resolved s.ops s.answered)
    (truthful : s.Truthful) : (s.send ok frame owner).Sound := by
  have aligned := aligned_send lined phase ok owner
  cases ok with
  | true =>
    exact ⟨aligned, books, truthful.mono (fun _ => id) fun _ => id⟩
  | false => exact sound_drop books

theorem lined_of_serving (h : s.Aligned) (phase : s.phase = .serving) : s.Lined [] := by
  unfold Aligned at h
  rw [phase] at h
  exact h

theorem silent_of_waiting (h : s.Aligned) (phase : s.phase = .waiting) : s.Silent := by
  unfold Aligned at h
  rw [phase] at h
  exact h

/-- A frame of the client is counted before it is written. -/
theorem Lined.count (h : s.Lined []) {client : SyncSession} {frame : OutFrame}
    (place : client.inflight = s.client.inflight ++ [frame.row]) :
    ({ s with client } : EmbedTask).Lined [frame] :=
  ⟨h.waiters, place.trans (by rw [h.places]; simp; rfl)⟩

/-- A frame is written on a socket that is served. -/
theorem sound_sent {frame : OutFrame} (lined : s.Lined [frame]) (serving : s.phase = .serving) (ok : Bool)
    {owner : Option ℕ} (books : Books s.ops.length (s.waiters ++ [owner]) s.resolved s.ops s.answered)
    (truthful : s.Truthful) : (s.send ok frame owner).Sound :=
  @sound_send s frame [] [] lined serving ok owner books truthful

theorem addChannel_eq (channel : String) (s : EmbedTask) :
    ∃ channels, s.addChannel channel = { s with channels } := by
  unfold addChannel
  split_ifs
  · exact ⟨s.channels, rfl⟩
  · exact ⟨_, rfl⟩

/-- An operation that awaits its reply is sent. -/
theorem sound_request (lined : s.Lined []) (serving : s.phase = .serving)
    (books : Books n s.waiters s.resolved s.ops s.answered)
    (length : s.ops.length = n + 1) (other : ¬Subscribes s.ops n) (truthful : s.Truthful)
    {made : Option Bytes × SyncSession}
    (kind : (∃ frame, made.1 = some frame ∧ made.2.inflight = s.client.inflight ++ [none]) ∨
      made.1 = none ∧ made.2.inflight = s.client.inflight) (ok : Bool) : (s.request n ok made).Sound := by
  unfold request
  obtain ⟨frame, sent, place⟩ | ⟨none, places⟩ := kind
  · have awaits := books.await other
    rw [← length] at awaits
    rw [sent]
    have counted : ({ s with client := made.2 } : EmbedTask).Lined [⟨frame, .none⟩] := lined.count place
    exact sound_sent counted serving ok awaits (truthful.mono (fun _ => id) fun _ => id)
  · have told := books.resolve (r := .failed) ⟨other, .inl rfl⟩ fun subscribes => absurd subscribes other
    rw [← length] at told
    rw [none]
    refine ⟨?_, told, truthful.mono (fun _ => id) fun _ => id⟩
    unfold Aligned
    have still : ({ s with client := made.2 }.resolve n .failed).phase = .serving := serving
    rw [still]
    exact ⟨lined.waiters, places.trans lined.places⟩

theorem sound_onOp (h : s.Sound) (serving : s.phase = .serving) (op : EmbedOp) (ok : Bool) :
    ({ s with ops := s.ops ++ [op] }.onOp s.ops.length op ok).Sound := by
  have lined := lined_of_serving h.aligned serving
  have taken := h.books.take op
  have truthful : ({ s with ops := s.ops ++ [op] } : EmbedTask).Truthful :=
    h.truthful.mono (fun _ => id) fun _ => id
  have length : (s.ops ++ [op]).length = s.ops.length + 1 := by simp
  have last : (s.ops ++ [op])[s.ops.length]? = some op := by simp
  have other (different : ∀ channel, op ≠ .subscribe channel) :
      ¬Subscribes (s.ops ++ [op]) s.ops.length := by
    rintro ⟨channel, there⟩
    exact different channel (Option.some.inj (last.symm.trans there))
  have asked (r : SessionRequest) : (∃ frame, (s.client.request true r).1 = some frame ∧
      (s.client.request true r).2.inflight = s.client.inflight ++ [none]) ∨
      (s.client.request true r).1 = none ∧ (s.client.request true r).2.inflight = s.client.inflight := by
    obtain ⟨-, -, ⟨-, sent⟩ | none⟩ := SyncLink.request_cases true s.client r
    · exact .inl sent
    · exact .inr none
  have lined : ({ s with ops := s.ops ++ [op] } : EmbedTask).Lined [] := ⟨lined.waiters, lined.places⟩
  cases op with
  | read frame =>
    exact sound_request lined serving taken length (other nofun) truthful (asked (.sessionCommand frame)) ok
  | watch pattern =>
    exact sound_request lined serving taken length (other nofun) truthful (asked (.addLiveQuery pattern)) ok
  | unwatch pattern =>
    exact sound_request lined serving taken length (other nofun) truthful
      (asked (.removeLiveQuery (some pattern))) ok
  | write encoded awaited =>
    have place : (s.client.enqueueWrite true encoded true).2.inflight =
        s.client.inflight ++ [some (s.client.enqueueWrite true encoded true).1.id] := rfl
    refine sound_sent (lined.count place) serving ok ?_ (truthful.mono (fun _ => id) fun _ => id)
    dsimp only
    rw [length]
    cases awaited with
    | true => exact taken.await (other nofun)
    | false => exact (taken.skip (other nofun)).pad
  | subscribe channel =>
    obtain ⟨channels, added⟩ := addChannel_eq channel { s with ops := s.ops ++ [.subscribe channel] }
    have books := (taken.resolve (r := .receiver) ⟨channel, last⟩ fun _ => rfl).pad
    have place : (s.client.sessionCommand true (toResp ["SUBSCRIBE", channel])).2.inflight =
        s.client.inflight ++ [none] := rfl
    have counted : ({ s with
        client := (s.client.sessionCommand true (toResp ["SUBSCRIBE", channel])).2
        channels
        ops := s.ops ++ [.subscribe channel]
        resolved := s.resolved ++ [(s.ops.length, .receiver)] } : EmbedTask).Lined
          [⟨toResp ["SUBSCRIBE", channel], none⟩] := ⟨lined.waiters, (lined.count place).places⟩
    rw [← length] at books
    have sent := @sound_sent _ _ counted serving ok none books
      (truthful.mono (fun _ => id) fun _ => id)
    unfold onOp
    dsimp only
    rw [added]
    exact sent

theorem sound_onOpOffline (h : s.Sound) (waiting : s.phase = .waiting) (op : EmbedOp) :
    ({ s with ops := s.ops ++ [op] }.onOpOffline s.ops.length op).Sound := by
  have silent := silent_of_waiting h.aligned waiting
  have taken := h.books.take op
  have length : (s.ops ++ [op]).length = s.ops.length + 1 := by simp
  have last : (s.ops ++ [op])[s.ops.length]? = some op := by simp
  have other (different : ∀ channel, op ≠ .subscribe channel) :
      ¬Subscribes (s.ops ++ [op]) s.ops.length := by
    rintro ⟨channel, there⟩
    exact different channel (Option.some.inj (last.symm.trans there))
  -- whatever the client and the channels become, nobody waits
  have quiet (client : SyncSession) (channels : List String) (resolved : List (ℕ × Resolution))
      (books : Books (s.ops.length + 1) s.waiters resolved (s.ops ++ [op]) s.answered) :
      ({ s with client, channels, ops := s.ops ++ [op], resolved } : EmbedTask).Sound := by
    rw [← length] at books
    refine ⟨?_, books, h.truthful.mono (fun _ => id) fun _ => id⟩
    unfold Aligned
    simp only [waiting]
    exact ⟨silent.waiters, silent.toServer, silent.toClient⟩
  have failed (different : ∀ channel, op ≠ .subscribe channel) :=
    taken.resolve (r := .failed) ⟨other different, .inl rfl⟩
      fun subscribes => absurd subscribes (other different)
  cases op with
  | read | watch | unwatch => exact quiet _ _ _ (failed nofun)
  | write encoded awaited =>
    cases awaited with
    | true => exact quiet _ _ _ (failed nofun)
    | false => exact quiet _ _ _ (taken.skip (other nofun))
  | subscribe channel =>
    obtain ⟨channels, added⟩ := addChannel_eq channel { s with ops := s.ops ++ [.subscribe channel] }
    unfold onOpOffline
    dsimp only
    rw [added]
    exact quiet _ _ _ (taken.resolve (r := .receiver) ⟨channel, last⟩ fun _ => rfl)

/-- A message that arrives on a socket that is served is handled. -/
theorem sound_onMessage (h : s.Sound) (serving : s.phase = .serving) {message : TaskMessage}
    {rest : List TaskMessage} (first : s.toClient = message :: rest) :
    ({ s with toClient := rest }.onMessage codec env message.raw).Sound := by
  have lined := lined_of_serving h.aligned serving
  have fewer : ∀ m ∈ rest, m ∈ s.toClient := fun m hm => first ▸ List.mem_cons_of_mem _ hm
  have there : message ∈ s.toClient := first ▸ List.mem_cons_self
  have truthful : ({ s with toClient := rest } : EmbedTask).Truthful := h.truthful.mono fewer fun _ => id
  have aligned {s' : EmbedTask} (phase : s'.phase = .serving) (lined : s'.Lined []) : s'.Aligned := by
    unfold Aligned
    rw [phase]
    exact lined
  cases message with
  | reply frame raw =>
    have front : s.pending = frame :: ({ s with toClient := rest } : EmbedTask).pending := by
      simp [pending, first, TaskMessage.answered]
    obtain ack | ⟨e, unread⟩ := h.truthful.replies frame raw there
    · have waiters := lined.waiters
      have places := lined.places
      rw [front, List.map_cons] at waiters places
      obtain ⟨client, left, handled⟩ :=
        @onMessage_reply codec env { s with toClient := rest } raw ack _ _ _ _ waiters places
      have popped := (waiters ▸ h.books).pop (h.truthful.told frame raw there)
      rw [show TaskMessage.raw (.reply frame raw) = raw from rfl, handled]
      exact ⟨aligned serving ⟨rfl, left⟩, popped, truthful.mono (fun _ => id) fun _ => id⟩
    · rw [show TaskMessage.raw (.reply frame raw) = raw from rfl, onMessage_unread unread]
      exact sound_drop h.books
  | push raw =>
    have same : ({ s with toClient := rest } : EmbedTask).pending = s.pending := by
      rw [pending, pending, first]
      rfl
    obtain ⟨client, heard, places, handled⟩ := @onMessage_push codec env { s with toClient := rest } raw
      (h.truthful.pushes raw there)
    rw [show TaskMessage.raw (.push raw) = raw from rfl]
    obtain handled | handled := handled <;> rw [handled]
    · refine ⟨aligned serving ⟨lined.waiters.trans (same ▸ rfl), ?_⟩, h.books,
        truthful.mono (fun _ => id) fun _ => id⟩
      exact places.trans (lined.places.trans (same ▸ rfl))
    · exact sound_drop h.books

/-- The client takes the reply for a reply, unless it cannot read it. -/
def Clear (_ : EmbedTask) : TaskEvent → Prop
  | .answer raw => acknowledges raw = true ∨ ∃ e, Value.parse raw = .error e
  | _ => True

theorem sound_fresh (client : SyncSession) : ({ client } : EmbedTask).Sound :=
  ⟨⟨rfl, rfl, rfl⟩, ⟨List.nodup_nil, nofun, nofun, nofun, nofun⟩, ⟨nofun, nofun, nofun⟩⟩

namespace Sound

/-- Another phase without a socket. -/
theorem quiet (h : s.Sound) (silent : s.Silent) {phase : TaskPhase} (firstOpen : Bool)
    (off : phase = .connecting ∨ phase = .stopped) : ({ s with phase, firstOpen } : EmbedTask).Sound := by
  refine ⟨?_, h.books, h.truthful.mono (fun _ => id) fun _ => id⟩
  obtain rfl | rfl := off <;> exact ⟨silent.waiters, silent.toServer, silent.toClient⟩

theorem connected {s' : EmbedTask} (h : s.Sound) {channels : List String}
    (next : s.step codec (.connected channels) = some s') : s'.Sound := by
  cases phase : s.phase <;> simp only [step, phase, reduceCtorEq] at next
  split_ifs at next
  obtain rfl := Option.some.inj next
  have silent : s.Silent := by simpa only [Aligned, phase] using h.aligned
  have nothing : s.pending = [] := by simp [pending, silent.toServer, silent.toClient]
  have lined : ({ s with firstOpen := false, waiters := [], client := s.client.onOpen.2 } : EmbedTask).Lined
      (SyncLink.opening s.client) := by
    refine ⟨?_, ?_⟩
    · exact (congrArg (List.map TaskFrame.owner) nothing).symm
    · refine Eq.trans ?_ (congrArg (fun frames => frames.map (·.row) ++ _) nothing).symm
      simp [SyncSession.onOpen, SyncLink.opening, Function.comp_def]
  exact ⟨aligned_remaining lined channels, h.books.forget, h.truthful.mono (fun _ => id) fun _ => id⟩

theorem send {s' : EmbedTask} (h : s.Sound) {ok : Bool} (next : s.step codec (.send ok) = some s') :
    s'.Sound := by
  cases phase : s.phase <;> simp only [step, phase, reduceCtorEq] at next
  rename_i frames channels
  have lined : s.Lined frames := by simpa only [Aligned, phase] using h.aligned
  cases frames with
  | cons frame frames =>
    obtain rfl := Option.some.inj next
    exact @sound_send { s with phase := remaining frames channels } frame frames channels
      ⟨lined.waiters, lined.places⟩ rfl ok none h.books.pad
      (h.truthful.mono (fun _ => id) fun _ => id)
  | nil =>
    cases channels with
    | nil => cases next
    | cons channel channels =>
      obtain rfl := Option.some.inj next
      have place : (s.client.sessionCommand true (toResp ["SUBSCRIBE", channel])).2.inflight =
          s.client.inflight ++ [none] := rfl
      have counted : ({ s with
          client := (s.client.sessionCommand true (toResp ["SUBSCRIBE", channel])).2
          phase := remaining [] channels } : EmbedTask).Lined [⟨toResp ["SUBSCRIBE", channel], none⟩] :=
        ⟨lined.waiters, (lined.count place).places⟩
      exact sound_send counted rfl ok h.books.pad (h.truthful.mono (fun _ => id) fun _ => id)

theorem answer {s' : EmbedTask} (h : s.Sound) {raw : Bytes}
    (clear : acknowledges raw = true ∨ ∃ e, Value.parse raw = .error e)
    (next : s.step codec (.answer raw) = some s') : s'.Sound := by
  cases first : s.toServer with
  | nil => simp only [step, first, reduceCtorEq] at next
  | cons frame rest =>
    simp only [step, first] at next
    split_ifs at next
    obtain rfl := Option.some.inj next
    have same : ({ s with
        toServer := rest
        toClient := s.toClient ++ [.reply frame raw] } : EmbedTask).pending = s.pending := by
      simp [pending, first, TaskMessage.answered]
    refine ⟨?_, h.books.answer _, ?_⟩
    · have aligned := h.aligned
      unfold Aligned at aligned ⊢
      dsimp only
      cases phase : s.phase with
      | serving | opening =>
        rw [phase] at aligned
        exact ⟨aligned.waiters.trans (congrArg _ same).symm,
          aligned.places.trans (congrArg (fun frames => List.map _ frames ++ _) same).symm⟩
      | connecting | waiting | stopped =>
        rw [phase] at aligned
        exact absurd (first.symm.trans aligned.toServer) nofun
    · refine ⟨fun frame' raw' there id owner => ?_, fun frame' raw' there => ?_, fun raw' there => ?_⟩
      all_goals
        rcases List.mem_append.mp there with old | new
      · exact List.mem_append_left _ (h.truthful.told frame' raw' old id owner)
      · obtain ⟨rfl, rfl⟩ := TaskMessage.reply.inj (List.mem_singleton.mp new)
        refine List.mem_append_right _ (List.mem_map.mpr ⟨id, ?_, rfl⟩)
        exact Option.mem_toList.mpr owner
      · exact h.truthful.replies frame' raw' old
      · obtain ⟨rfl, rfl⟩ := TaskMessage.reply.inj (List.mem_singleton.mp new)
        exact clear
      · exact h.truthful.pushes raw' old
      · cases List.mem_singleton.mp new

theorem push {s' : EmbedTask} (h : s.Sound) {raw : Bytes} (next : s.step codec (.push raw) = some s') :
    s'.Sound := by
  have pushed (other : ¬acknowledges raw = true)
      (aligned : ({ s with toClient := s.toClient ++ [.push raw] } : EmbedTask).Aligned) :
      ({ s with toClient := s.toClient ++ [.push raw] } : EmbedTask).Sound := by
    refine ⟨aligned, h.books, ?_⟩
    refine ⟨fun frame raw' there id owner => ?_, fun frame raw' there => ?_, fun raw' there => ?_⟩
    all_goals
      rcases List.mem_append.mp there with old | new
    · exact h.truthful.told frame raw' old id owner
    · cases List.mem_singleton.mp new
    · exact h.truthful.replies frame raw' old
    · cases List.mem_singleton.mp new
    · exact h.truthful.pushes raw' old
    · obtain rfl := TaskMessage.push.inj (List.mem_singleton.mp new)
      simpa using other
  have same : ({ s with toClient := s.toClient ++ [.push raw] } : EmbedTask).pending = s.pending := by
    simp [pending, TaskMessage.answered]
  have aligned := h.aligned
  unfold Aligned at aligned
  cases phase : s.phase <;> simp only [step, phase, reduceCtorEq] at next
  all_goals
    rw [phase] at aligned
    split_ifs at next with ack
    obtain rfl := Option.some.inj next
    have sound := pushed ack (by
      unfold Aligned
      simp only [phase]
      exact ⟨aligned.waiters.trans (congrArg _ same).symm,
        aligned.places.trans (congrArg (fun frames => List.map _ frames ++ _) same).symm⟩)
    rwa [phase] at sound

theorem step {s' : EmbedTask} {e : TaskEvent} (h : s.Sound) (clear : s.Clear e)
    (next : s.step codec e = some s') : s'.Sound := by
  have silent (off : s.phase = .connecting ∨ s.phase = .waiting) : s.Silent := by
    have aligned := h.aligned
    unfold Aligned at aligned
    obtain phase | phase := off <;> simpa only [phase] using aligned
  cases e with
  | connected channels => exact h.connected next
  | send ok => exact h.send next
  | answer raw => exact h.answer clear next
  | push raw => exact h.push next
  | refused =>
    cases phase : s.phase <;> simp only [EmbedTask.step, phase, reduceCtorEq] at next
    obtain rfl := Option.some.inj next
    split_ifs
    · exact h.quiet (silent (.inl phase)) _ (.inr rfl)
    · exact sound_drop h.books
  | op op ok =>
    cases phase : s.phase <;> simp only [EmbedTask.step, phase, reduceCtorEq] at next
    · obtain rfl := Option.some.inj next
      have sound := sound_onOp h phase op ok
      rwa [phase] at sound
    · obtain rfl := Option.some.inj next
      have sound := sound_onOpOffline h phase op
      rwa [phase] at sound
  | upkeep env =>
    have kept : (s.maintain env).Sound := by
      refine ⟨?_, h.books, h.truthful.mono (fun _ => id) fun _ => id⟩
      have aligned := h.aligned
      unfold Aligned at aligned ⊢
      dsimp only [maintain]
      cases phase : s.phase with
      | serving | opening =>
        rw [phase] at aligned
        exact ⟨aligned.waiters, aligned.places⟩
      | connecting | waiting | stopped =>
        rw [phase] at aligned
        exact ⟨aligned.waiters, aligned.toServer, aligned.toClient⟩
    cases phase : s.phase <;> simp only [EmbedTask.step, phase, reduceCtorEq, Option.some.injEq] at next
    all_goals exact next ▸ kept
  | handlesGone =>
    have stopped : ({ s with
        phase := .stopped, waiters := [], toServer := [], toClient := [] } : EmbedTask).Sound :=
      ⟨⟨rfl, rfl, rfl⟩, h.books.forget, ⟨nofun, nofun, nofun⟩⟩
    cases phase : s.phase <;> simp only [EmbedTask.step, phase, reduceCtorEq, Option.some.injEq] at next
    all_goals exact next ▸ stopped
  | lost =>
    cases phase : s.phase <;> simp only [EmbedTask.step, phase, reduceCtorEq] at next
    obtain rfl := Option.some.inj next
    exact sound_drop h.books
  | deliver env =>
    cases phase : s.phase <;> cases first : s.toClient <;>
      simp only [EmbedTask.step, phase, first, reduceCtorEq] at next
    obtain rfl := Option.some.inj next
    have sound := @sound_onMessage codec env s h phase _ _ first
    rwa [phase] at sound
  | delayOver =>
    cases phase : s.phase <;> simp only [EmbedTask.step, phase, reduceCtorEq] at next
    obtain rfl := Option.some.inj next
    exact h.quiet (silent (.inr phase)) s.firstOpen (.inl rfl)

end Sound

/-- A subscription is given its receiver and nothing else, every other operation at most one thing: the
reply to its own frame, or the error that says that the connection was lost.  While a connection is
served there is a waiter for each place in flight. -/
structure Correlated (s : EmbedTask) : Prop where
  once : (s.resolved.map Prod.fst).Nodup
  rightly : ∀ p ∈ s.resolved, Rightly s.ops s.answered p.1 p.2
  receivers : ∀ id, Subscribes s.ops id → (id, .receiver) ∈ s.resolved
  aligned : s.phase = .serving → s.waiters.length = s.client.inflight.length

theorem Sound.correlated (h : s.Sound) : s.Correlated where
  once := h.books.apart.of_append_left
  rightly := h.books.rightly
  receivers id subscribes := by
    obtain ⟨channel, there⟩ := subscribes
    exact h.books.receivers id (List.getElem?_eq_some_iff.mp there).1 ⟨channel, there⟩
  aligned serving := by
    have lined := lined_of_serving h.aligned serving
    rw [lined.waiters, lined.places]
    simp

/-- In every run of the task against a server whose replies are taken for replies, or cannot be read,
operations are given what is theirs. -/
theorem correlated_of_clear (codec : Codec) (client : SyncSession) {events : List TaskEvent} {s : EmbedTask}
    (run : Runs.exec (EmbedTask.step codec) { client } events = some s)
    (clear : Runs.Each (EmbedTask.step codec) Clear { client } events) : s.Correlated :=
  (Runs.invariant (fun _ _ _ sound clear next => sound.step clear next) run clear
    (sound_fresh client)).correlated

/-- A read that is answered, beside a write that is not. -/
theorem correlated_of_clear_read :
    let events : List TaskEvent := [.connected [], .op (.read (toResp ["GET", "a"])) true,
      .op (.write (toResp ["SET", "a", "1"]) true) true, .answer (asBytes "$-1\r\n"), .deliver (.fixed 0),
      .lost]
    ∃ s, Runs.exec (EmbedTask.step .literals) { client := {} } events = some s ∧ s.Correlated := by
  intro events
  refine ⟨_, rfl, @correlated_of_clear .literals {} events _ rfl ⟨trivial, ?_⟩⟩
  rintro s ⟨⟩
  refine ⟨trivial, ?_⟩
  rintro s ⟨⟩
  refine ⟨trivial, ?_⟩
  rintro s ⟨⟩
  refine ⟨.inl (by decide), ?_⟩
  rintro s ⟨⟩
  refine ⟨trivial, ?_⟩
  rintro s ⟨⟩
  exact ⟨trivial, fun _ _ => trivial⟩

/-- A subscription whose frame is not even written is given its receiver. -/
theorem receiver_without_reply :
    ∃ s, Runs.exec (EmbedTask.step .literals) { client := {} }
        [.connected [], .op (.subscribe "c") false] = some s ∧
      ¬∀ p ∈ s.resolved, p.2 = .failed ∨ ∃ raw, (p.1, raw) ∈ s.answered ∧ p.2 = .ofReply raw := by
  refine ⟨_, rfl, fun given => ?_⟩
  obtain failed | ⟨raw, answered, -⟩ := given (0, .receiver) (List.mem_singleton.mpr rfl)
  · cases failed
  · cases answered

end EmbedTask

end Recached
