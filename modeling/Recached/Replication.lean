import Recached.Frames
import Recached.Lib.Runs
import Recached.Snapshot

/-!
# Replication

A primary numbers its frames, keeps the latest of them in a backlog and queues them for an attached
replica; the replica asks to resume where it stopped and is sent either the frames it lacks or a
snapshot.  A run interleaves the writes of the primary, its restarts, every step of the protocol, the
loss of the connection at any point, and on the replica its promotion and the writes of its clients.

Offsets are natural numbers: a run of the server sends fewer than `2 ^ 64` frames.
-/

namespace Recached

structure ReplFrame where
  offset : ℕ
  bytes : Bytes
deriving DecidableEq

def totalBytes (frames : List ReplFrame) : ℕ := (frames.map fun f => f.bytes.length).sum

/-! ## The primary -/

/-- The frames of a run of the primary.  `unqueued` is the latest frame while it is not queued for
the replicas yet; the backlog stays locked until it is. -/
structure ReplHub where
  runId : String
  offset : ℕ := 0
  backlog : List ReplFrame := []
  unqueued : Option ReplFrame := none
  backlogBytes : ℕ
  queueBytes : ℕ
  channelCapacity : ℕ

/-- Drop the oldest frames until the rest is within the limit. -/
def trimBacklog (limit : ℕ) : List ReplFrame → List ReplFrame
  | [] => []
  | f :: fs => if limit < totalBytes (f :: fs) then trimBacklog limit fs else f :: fs

namespace ReplHub

/-- The first replica turns the backlog on. -/
def enable (hub : ReplHub) : ReplHub :=
  if hub.backlogBytes = 0 then { hub with backlogBytes := 16 * 1024 * 1024 } else hub

/-- The first half of `fan_out`: number a frame and keep it. -/
def number (bytes : Bytes) (hub : ReplHub) : ReplHub :=
  let frame : ReplFrame := ⟨hub.offset + 1, bytes⟩
  { hub with
    offset := hub.offset + 1
    backlog := trimBacklog hub.backlogBytes (hub.backlog ++ [frame])
    unqueued := some frame }

/-- The frames a replica lacks, if the backlog still has all of them.  `current` is the offset read
before the backlog was locked. -/
def resumeFrames (hub : ReplHub) (requestedRunId : String) (requestedOffset current : ℕ) :
    Option (List ReplFrame) :=
  if requestedRunId ≠ hub.runId then none
  else if current < requestedOffset then none
  else if requestedOffset = current then some []
  else
    match hub.backlog.head? with
    | none => none
    | some first =>
      if requestedOffset + 1 < first.offset then none
      else some (hub.backlog.filter fun f => requestedOffset < f.offset)

end ReplHub

/-- An attached replica: the frames queued for it, the one being written to its connection, and
whether it still gets new ones. -/
structure ReplicaHandle where
  queue : List ReplFrame := []
  writing : Option ReplFrame := none
  registered : Bool := true
  maxQueueBytes : ℕ
  capacity : ℕ

/-- The second half of `fan_out`: queue a frame.  A replica that cannot keep up is dropped. -/
def ReplicaHandle.offer (f : ReplFrame) (r : ReplicaHandle) : ReplicaHandle :=
  if !r.registered then r
  else if totalBytes (r.writing.toList ++ r.queue) + f.bytes.length ≤ r.maxQueueBytes ∧
      r.queue.length < r.capacity then
    { r with queue := r.queue ++ [f] }
  else { r with registered := false }

/-- What the primary sends. -/
inductive ReplMessage where
  | hello (runId : String)
  | full (boundary : ℕ) (entries : List SnapshotEntry)
  | resumed (boundary count : ℕ)
  | frame (f : ReplFrame)

/-- How far the task that serves a replica has come. -/
inductive ReplService where
  | awaiting
  | requested (runId : String) (offset : ℕ)
  | bounded (runId : String) (offset boundary : ℕ)
  | loaded (runId : String) (offset boundary current : ℕ)
  | collected (sync : List ReplMessage)
  | attached (handle : ReplicaHandle)

/-- A connection to one run of the primary: the task that serves it and what is on its way to the
replica. -/
structure ReplLink where
  runId : String
  service : ReplService := .awaiting
  wire : List ReplMessage := []

/-- The next step of the task that serves a replica.  On a primary the write barrier keeps frames
from falling between the steps up to `attached`; on a node that is a replica itself they can. -/
def ReplLink.handleReplica (hub : ReplHub) (entries : List SnapshotEntry) (link : ReplLink) :
    Option ReplLink :=
  match link.service with
  | .awaiting => none
  | .requested runId offset => some { link with service := .bounded runId offset hub.offset }
  | .bounded runId offset boundary =>
    some { link with service := .loaded runId offset boundary hub.offset }
  | .loaded runId offset boundary current =>
    some { link with service := .collected <|
      match hub.resumeFrames runId offset current with
      | some missing => .resumed boundary missing.length :: missing.map .frame
      | none => [.full boundary entries] }
  | .collected sync =>
    some { link with
      service := .attached { maxQueueBytes := hub.queueBytes, capacity := hub.channelCapacity }
      wire := link.wire ++ sync }
  | .attached handle =>
    match handle.writing, handle.queue with
    | some f, _ =>
      some { link with
        service := .attached { handle with writing := none }
        wire := link.wire ++ [.frame f] }
    | none, f :: queue =>
      some { link with service := .attached { handle with writing := some f, queue } }
    | none, [] => none

def ReplLink.offer (f : ReplFrame) (link : ReplLink) : ReplLink :=
  match link.service with
  | .attached handle => { link with service := .attached (handle.offer f) }
  | _ => link

/-! ## The replica -/

structure ReplResume where
  runId : String := ""
  offset : ℕ := 0
deriving DecidableEq

/-- Where the replication client stands. -/
inductive ReplPhase where
  | asleep
  | connecting
  | greeting
  | waiting (primaryRunId : String)
  | catchingUp (primaryRunId : String) (boundary remaining : ℕ)
  | streaming
  | stopped
deriving DecidableEq

/-- A node that may follow a primary.  `installed` and `applied` record its last full snapshot and
the frames it has applied since. -/
structure ReplNode where
  server : ServerState
  isReplica : Bool := true
  phase : ReplPhase := .asleep
  resume : ReplResume := {}
  installed : Option (String × ℕ) := none
  applied : List ReplFrame := []

/-- Execute a frame of the primary and pass it on; whether it was a command that succeeded. -/
def ServerState.applyReplFrame (codec : Codec) (env : Env) (bytes : Bytes) (st : ServerState) :
    Bool × ServerState :=
  match decodeFrame bytes with
  | none => (false, st)
  | some cmd =>
    match execute codec env cmd st.store with
    | (.error _, store) => (false, { st with store })
    | (_, store) =>
      (true, { st with
        store
        log := st.log ++ [bytes]
        pushes := st.pushes ++ [⟨0, primaryKeys cmd, bytes⟩] })

namespace ReplNode

/-- The session has ended; the replica reconnects and asks to resume. -/
def disconnect (node : ReplNode) : ReplNode := { node with phase := .asleep }

/-- The session has ended with invalid data; the replica asks for everything again. -/
def abandon (node : ReplNode) : ReplNode := { node with phase := .asleep, resume := {} }

def takeFrame (codec : Codec) (env : Env) (f : ReplFrame) (node : ReplNode) : Bool × ReplNode :=
  if f.offset ≠ node.resume.offset + 1 then (false, node)
  else
    match node.server.applyReplFrame codec env f.bytes with
    | (false, server) => (false, { node with server })
    | (true, server) =>
      (true, { node with
        server
        resume := { node.resume with offset := f.offset }
        applied := node.applied ++ [f] })

/-- Take over a full snapshot. -/
def install (now : ℕ) (primaryRunId : String) (boundary : ℕ) (entries : List SnapshotEntry)
    (node : ReplNode) : ReplNode :=
  { node with
    server := { node.server with store := node.server.store.replace now entries }
    phase := .streaming
    resume := ⟨primaryRunId, boundary⟩
    installed := some (primaryRunId, boundary)
    applied := [] }

/-- The end of a partial synchronisation. -/
def finishCatchUp (primaryRunId : String) (boundary : ℕ) (node : ReplNode) : Bool × ReplNode :=
  if node.resume.offset ≠ boundary then (false, node)
  else (true, { node with phase := .streaming, resume := ⟨primaryRunId, boundary⟩ })

end ReplNode

/-! ## The two nodes -/

/-- The frames of every run of the primary. -/
abbrev Histories := String → Option (List Bytes)

/-- The two nodes and their connection. -/
structure ReplSystem where
  hub : ReplHub
  histories : Histories
  link : Option ReplLink := none
  node : ReplNode

inductive ReplAction where
  | write (bytes : Bytes)
  | offer
  | restart (runId : String) (backlogBytes : ℕ)
  | serve (entries : List SnapshotEntry)
  | wake
  | connect
  | refuse
  | receive (env : Env)
  | drop
  | promote
  | clientWrite (env : Env) (origin : ℕ) (cmd : Command)

namespace ReplSystem

/-- The replica goes on with a session, or ends it because of invalid data. -/
def proceed (link : ReplLink) (s : ReplSystem) : Bool × ReplNode → ReplSystem
  | (true, node) => { s with link := some link, node }
  | (false, node) => { s with link := none, node := node.abandon }

/-- The replica handles the next message. -/
def handle (codec : Codec) (env : Env) (link : ReplLink) (s : ReplSystem) (message : ReplMessage) :
    ReplSystem :=
  match s.node.phase, message with
  | .greeting, .hello runId =>
    let requested := if s.node.resume.runId = runId then runId else ""
    { s with
      link := some { link with service := .requested requested s.node.resume.offset }
      node := { s.node with phase := .waiting runId } }
  | .waiting runId, .full boundary entries =>
    s.proceed link (true, s.node.install env.now runId boundary entries)
  | .waiting runId, .resumed boundary count =>
    if count = 0 then s.proceed link (s.node.finishCatchUp runId boundary)
    else s.proceed link (true, { s.node with phase := .catchingUp runId boundary count })
  | .catchingUp runId boundary remaining, .frame f =>
    match s.node.takeFrame codec env f with
    | (false, node) => s.proceed link (false, node)
    | (true, node) =>
      if remaining ≤ 1 then s.proceed link (node.finishCatchUp runId boundary)
      else s.proceed link (true, { node with phase := .catchingUp runId boundary (remaining - 1) })
  | .streaming, .frame f => s.proceed link (s.node.takeFrame codec env f)
  | _, _ => s.proceed link (false, s.node)

def step (codec : Codec) (s : ReplSystem) : ReplAction → Option ReplSystem
  | .write bytes =>
    if s.hub.unqueued.isSome then none
    else if s.hub.backlogBytes = 0 then some s
    else
      some { s with
        hub := s.hub.number bytes
        histories := Function.update s.histories s.hub.runId
          ((s.histories s.hub.runId).map fun history => history ++ [bytes]) }
  | .offer =>
    s.hub.unqueued.map fun f => { s with
      hub := { s.hub with unqueued := none }
      link := s.link.map fun link => if link.runId = s.hub.runId then link.offer f else link }
  | .restart runId backlogBytes =>
    -- run ids are long and random: never empty, and never used twice
    if runId = "" ∨ (s.histories runId).isSome then none
    else
      some { s with
        hub := { s.hub with runId, backlogBytes, offset := 0, backlog := [], unqueued := none }
        histories := Function.update s.histories runId (some []) }
  | .serve entries =>
    s.link.bind fun link =>
      if link.runId = s.hub.runId then
        (link.handleReplica s.hub entries).map fun link => { s with link := some link }
      else none
  | .wake =>
    if s.node.phase = .asleep then
      some { s with node := { s.node with
        phase := if s.node.isReplica then .connecting else .stopped } }
    else none
  | .connect =>
    if s.node.phase = .connecting then
      some { s with
        hub := s.hub.enable
        link := some { runId := s.hub.runId, wire := [.hello s.hub.runId] }
        node := { s.node with phase := .greeting } }
    else none
  | .refuse =>
    if s.node.phase = .connecting then some { s with node := s.node.disconnect } else none
  | .receive env =>
    s.link.bind fun link =>
      match link.wire with
      | message :: wire => some (s.handle codec env { link with wire } message)
      | [] => none
  | .drop =>
    if s.link.isSome then some { s with link := none, node := s.node.disconnect } else none
  | .promote => some { s with node := { s.node with isReplica := false } }
  | .clientWrite env origin cmd =>
    if s.node.isReplica then some s
    else
      some { s with node := { s.node with
        server := (s.node.server.executeOrderedWrite codec env origin cmd).2 } }

/-- A primary at the start of a run, and a node that has not followed it yet. -/
def start (hub : ReplHub) (server : ServerState) : ReplSystem where
  hub := { hub with offset := 0, backlog := [], unqueued := none }
  histories := Function.update (fun _ => none) hub.runId (some [])
  node := { server }

end ReplSystem

end Recached
