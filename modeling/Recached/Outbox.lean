import Recached.Lib.Runs
import Recached.Sync

/-!
# Which reply acknowledges which frame

A client sends its frames over a socket and the server answers each of them once and in order, with
pushes in between.  The client keeps one place in `inflight` for every frame it has sent, so that the
next reply answers the first place.  The places mirror what is under way as long as the outbox is not
cleared while replies are outstanding, and no reply looks like a push.
-/

namespace Recached

open Text

/-! ## The session of a client -/

def maxPendingWrites : ℕ := 10000

/-- A client with its outbox counter and the state it establishes again on every connection. -/
structure SyncSession extends SyncClient where
  outboxSeq : ℕ := 0
  clientId : String := ""
  epoch : ℕ := 0
  password : Option String := none
  syncToken : Option String := none
  syncScopesCsv : Option String := none
  maxPending : ℕ := maxPendingWrites

def toRespBytes (parts : List Bytes) : Bytes :=
  42 :: Decimal.digits parts.length ++ crlf ++
    parts.flatMap fun part => 36 :: Decimal.digits part.length ++ crlf ++ part ++ crlf

def toResp (parts : List String) : Bytes := toRespBytes (parts.map asBytes)

/-- The frame that asks for comma-separated patterns, unless there is none. -/
def syncScopesFrame (patternsCsv : String) : Option Bytes :=
  let pats := ((patternsCsv.splitOn ",").map fun p => p.trimAscii.toString).filter fun p => !p.isEmpty
  if pats.isEmpty then none else some (toResp ("SYNC" :: pats))

namespace SyncSession

variable (connected : Bool) (c : SyncSession)

/-- A frame whose reply takes a place, but which is neither kept nor sent again. -/
def sessionFrame (frame : Bytes) : Option Bytes × SyncSession :=
  if connected then (some frame, { c with inflight := c.inflight ++ [none] }) else (none, c)

def setPassword (password : String) : Option Bytes × SyncSession :=
  { c with password := some password }.sessionFrame connected (toResp ["AUTH", password])

def setSyncToken (token : String) : Option Bytes × SyncSession :=
  { c with syncToken := some token }.sessionFrame connected (toResp ["SYNC", "TOKEN", token])

def setSyncScopes (patternsCsv : String) : Option Bytes × SyncSession :=
  match syncScopesFrame patternsCsv with
  | none => (none, c)
  | some frame => { c with syncScopesCsv := some patternsCsv }.sessionFrame connected frame

def addLiveQuery (pattern : String) : Option Bytes × SyncSession :=
  let c := if pattern ∈ c.liveQueries then c else { c with liveQueries := c.liveQueries ++ [pattern] }
  c.sessionFrame connected (toResp ["QSUB", pattern])

def removeLiveQuery : Option String → Option Bytes × SyncSession
  | some p => { c with liveQueries := c.liveQueries.filter (· != p) }.sessionFrame connected
      (toResp ["QUNSUB", p])
  | none => { c with liveQueries := [] }.sessionFrame connected (toResp ["QUNSUB"])

def sessionCommand (frame : Bytes) : Option Bytes × SyncSession := c.sessionFrame connected frame

/-- The frames that establish the session again: `AUTH`, then `SYNC`, then the live queries. -/
def openingFrames : List Bytes :=
  (c.password.map fun pwd => toResp ["AUTH", pwd]).toList ++
    (match c.syncToken with
      | some tok => [toResp ["SYNC", "TOKEN", tok]]
      | none => (c.syncScopesCsv.bind syncScopesFrame).toList) ++
    c.liveQueries.map fun pat => toResp ["QSUB", pat]

/-- The socket opened: the session and then the whole outbox are sent. -/
def onOpen : List Bytes × SyncSession :=
  (c.openingFrames ++ c.outbox.map Prod.snd,
    { c with inflight := c.openingFrames.map (fun _ => none) ++ c.outbox.map fun row => some row.1 })

/-- Put a `DEDUP` envelope around an encoded array. -/
def wrapDedup (plain : Bytes) (outboxId : ℕ) : Bytes :=
  match crlfIndex plain with
  | none => plain
  | some split =>
    let n := (Decimal.parseU64 ((plain.take split).dropWhile (· = 42))).getD 0
    if n = 0 then plain
    else
      let wireId := c.epoch * 2 ^ 32 + outboxId % 2 ^ 32
      let parts : List Bytes := [asBytes "DEDUP", asBytes c.clientId, Decimal.digits wireId]
      42 :: Decimal.digits (n + 3) ++ crlf ++
        (parts.flatMap fun part => 36 :: Decimal.digits part.length ++ crlf ++ part ++ crlf) ++
          plain.drop (split + 2)

structure Enqueued where
  id : ℕ
  frame : Bytes
  sendNow : Bool
  dropped : Option ℕ

/-- Queue a write; beyond the cap the oldest row is dropped. -/
def enqueueWrite (encoded : Bytes) (dedup : Bool) : Enqueued × SyncSession :=
  let id := c.outboxSeq
  let frame := if dedup then c.wrapDedup encoded id else encoded
  let full := c.maxPending ≤ c.outbox.length
  let outbox := (if full then c.outbox.tail else c.outbox) ++ [(id, frame)]
  ({ id, frame, sendNow := connected, dropped := if full then c.outbox.head?.map Prod.fst else none },
    { c with
      outboxSeq := id + 1
      outbox
      inflight := if connected then c.inflight ++ [some id] else c.inflight })

/-- Take back the rows of an earlier session, in their order and before the present ones, each under a
new id. -/
def restoreOutbox (rows : List (ℕ × Bytes)) : List (ℕ × ℕ × Bytes) × SyncSession :=
  let sorted := rows.insertionSort fun a b => a.1 ≤ b.1
  let rewrites := sorted.mapIdx fun i row => (row.1, c.outboxSeq + i, row.2)
  (rewrites, { c with
    outboxSeq := c.outboxSeq + rows.length
    outbox := rewrites.map Prod.snd ++ c.outbox })

/-- Discard all queued writes and the bookkeeping of replies. -/
def clearOutbox : SyncSession := { c with outbox := [], inflight := [] }

def handleFrame (codec : Codec) (env : Env) (raw : Bytes) : Incoming × SyncSession :=
  let (incoming, client) := c.toSyncClient.handleFrame codec env raw
  (incoming, { c with toSyncClient := client })

end SyncSession

/-- What an application asks of a session. -/
inductive SessionRequest where
  | setPassword (password : String)
  | setSyncToken (token : String)
  | setSyncScopes (patternsCsv : String)
  | addLiveQuery (pattern : String)
  | removeLiveQuery (pattern : Option String)
  | sessionCommand (frame : Bytes)

def SyncSession.request (connected : Bool) (c : SyncSession) :
    SessionRequest → Option Bytes × SyncSession
  | .setPassword password => c.setPassword connected password
  | .setSyncToken token => c.setSyncToken connected token
  | .setSyncScopes patternsCsv => c.setSyncScopes connected patternsCsv
  | .addLiveQuery pattern => c.addLiveQuery connected pattern
  | .removeLiveQuery pattern => c.removeLiveQuery connected pattern
  | .sessionCommand frame => c.sessionCommand connected frame

/-! ## A client and its connection -/

/-- A frame that was sent, with the outbox row that it was sent for. -/
structure OutFrame where
  bytes : Bytes
  row : Option ℕ

/-- What the server sends. -/
inductive ServerMessage where
  | reply (frame : OutFrame) (raw : Bytes)
  | push (raw : Bytes)

namespace ServerMessage

def raw : ServerMessage → Bytes
  | reply _ raw | push raw => raw

/-- The frame that the message answers. -/
def answered : ServerMessage → Option OutFrame
  | reply frame _ => some frame
  | push _ => none

/-- The outbox row that the message acknowledges. -/
def row (m : ServerMessage) : Option ℕ := m.answered.bind OutFrame.row

end ServerMessage

/-- Both ends of a connection: the frames that the server has not answered yet, and what it has sent and
the client has not handled yet. -/
structure SyncLink where
  client : SyncSession
  connected : Bool := false
  toServer : List OutFrame := []
  toClient : List ServerMessage := []

inductive SyncAction where
  | write (encoded : Bytes) (dedup : Bool)
  | request (request : SessionRequest)
  | restore (rows : List (ℕ × Bytes))
  | clear
  | opened
  | closed
  | answer (raw : Bytes)
  | push (raw : Bytes)
  | deliver (env : Env)

/-- The frame is a push of the protocol. -/
def isRespPush (raw : Bytes) : Bool :=
  match Value.parse raw with
  | .ok (.push _, _) => true
  | _ => false

/-- The client takes the frame for a reply. -/
def acknowledges (raw : Bytes) : Bool :=
  match Value.parse raw with
  | .ok (.push _, _) | .error _ => false
  | .ok (.array (some (.bulkString (some tag) :: _)), _) => tag != asBytes "keychange"
  | .ok _ => true

namespace SyncLink

/-- The frames under way whose replies the client has not handled yet, in the order of these. -/
def pending (s : SyncLink) : List OutFrame := s.toClient.filterMap ServerMessage.answered ++ s.toServer

/-- The session frames and the rows of the outbox, as they are sent on a new connection. -/
def opening (c : SyncSession) : List OutFrame :=
  c.openingFrames.map (⟨·, none⟩) ++ c.outbox.map fun row => ⟨row.2, some row.1⟩

/-- The socket closes: what is under way on it is lost. -/
def dropSocket (s : SyncLink) : SyncLink := { s with connected := false, toServer := [], toClient := [] }

def step (codec : Codec) (s : SyncLink) : SyncAction → Option SyncLink
  | .write encoded dedup =>
    let (enqueued, client) := s.client.enqueueWrite s.connected encoded dedup
    some { s with
      client
      toServer := if enqueued.sendNow then s.toServer ++ [⟨enqueued.frame, some enqueued.id⟩]
        else s.toServer }
  | .request request =>
    let (frame, client) := s.client.request s.connected request
    some { s with client, toServer := s.toServer ++ frame.toList.map (⟨·, none⟩) }
  | .restore rows => some { s with client := (s.client.restoreOutbox rows).2 }
  | .clear => some { s with client := s.client.clearOutbox }
  | .opened =>
    if s.connected then none
    else some { s with connected := true, client := s.client.onOpen.2, toServer := opening s.client }
  | .closed => if s.connected then some s.dropSocket else none
  | .answer raw =>
    match s.toServer with
    | frame :: rest =>
      if isRespPush raw then none
      else some { s with toServer := rest, toClient := s.toClient ++ [.reply frame raw] }
    | [] => none
  | .push raw =>
    if s.connected && !acknowledges raw then some { s with toClient := s.toClient ++ [.push raw] }
    else none
  | .deliver env =>
    match s.toClient with
    | message :: rest =>
      let (incoming, client) := s.client.handleFrame codec env message.raw
      -- on a frame that it cannot read a client gives up the socket
      if incoming = .malformed then some { s with client }.dropSocket
      else some { s with client, toClient := rest }
    | [] => none

end SyncLink

/-- The frames that `onOpen` returns are those of `opening`. -/
theorem onOpen_frames (c : SyncSession) : c.onOpen.1 = (SyncLink.opening c).map OutFrame.bytes := by
  simp [SyncSession.onOpen, SyncLink.opening, Function.comp_def]

end Recached
