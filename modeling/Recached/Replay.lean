import Recached.Parse
import Recached.Propagation

/-!
# Replaying the append-only file

At startup the file is read twice: once to find where the loaded snapshot left off, and once to
execute every frame from there on.  A frame that is refused or answers an error stops the server.
-/

namespace Recached

open Text

/-- The frames of the log are push frames; commands are decoded from arrays. -/
def normalise : Value → Value
  | .push items => .array (some items)
  | v => v

/-- The id of a checkpoint marker. -/
def checkpointMarker : Value → Option ℕ
  | .push [.bulkString (some name), .bulkString (some id)]
  | .array (some [.bulkString (some name), .bulkString (some id)]) =>
    if name = asBytes "RECACHED-CHECKPOINT" then (fromUtf8 id).bind fun s => Decimal.parseU64 (asBytes s)
    else none
  | _ => none

def checkpointFrame (id : ℕ) : Bytes := respPush [asBytes "RECACHED-CHECKPOINT", Decimal.digits id]

/-- Why a replay failed. -/
inductive ReplayError where
  | corrupted (offset : ℕ) (e : ParseError)
  | invalidCommand (offset : ℕ) (message : String)
  | commandFailed (offset : ℕ) (message : String)
deriving DecidableEq

/-- Where the frames after the last marker with this id start.  Every frame takes at least one byte,
so the length of the file bounds the number of rounds. -/
def findReplayStart (checkpoint : ℕ) (bytes : Bytes) :
    (fuel offset start : ℕ) → Except ReplayError ℕ
  | 0, _, start => .ok start
  | fuel + 1, offset, start =>
    if bytes.length ≤ offset then .ok start
    else
      match Value.parse (bytes.drop offset) with
      | .ok (value, consumed) =>
        findReplayStart checkpoint bytes fuel (offset + consumed)
          (if checkpointMarker value = some checkpoint then offset + consumed else start)
      | .error e => if e.isIncomplete then .ok start else .error (.corrupted offset e)

/-- Execute one frame of the log. -/
def replayCommand (codec : Codec) (env : Env) (offset : ℕ) (value : Value) (store : KeyValueStore) :
    Except ReplayError KeyValueStore :=
  match fromValue (normalise value) with
  | .error e => .error (.invalidCommand offset e)
  | .ok cmd =>
    match execute codec env cmd store with
    | (.error message, _) => .error (.commandFailed offset message)
    | (_, store) => .ok store

/-- Execute the frames from `offset` on; also how many were executed.  `envs` gives the clock and the
random choices of the successive commands. -/
def replayFrom (codec : Codec) (envs : ℕ → Env) (bytes : Bytes) :
    (fuel offset replayed : ℕ) → KeyValueStore → Except ReplayError (ℕ × KeyValueStore)
  | 0, _, replayed, store => .ok (replayed, store)
  | fuel + 1, offset, replayed, store =>
    if bytes.length ≤ offset then .ok (replayed, store)
    else
      match Value.parse (bytes.drop offset) with
      | .ok (value, consumed) =>
        if (checkpointMarker value).isSome then
          replayFrom codec envs bytes fuel (offset + consumed) replayed store
        else
          match replayCommand codec (envs replayed) offset value store with
          | .error e => .error e
          | .ok store => replayFrom codec envs bytes fuel (offset + consumed) (replayed + 1) store
      | .error e => if e.isIncomplete then .ok (replayed, store) else .error (.corrupted offset e)

def replayAofFromCheckpoint (codec : Codec) (envs : ℕ → Env) (bytes : Bytes) (checkpoint : ℕ)
    (store : KeyValueStore) : Except ReplayError (ℕ × KeyValueStore) :=
  match findReplayStart checkpoint bytes (bytes.length + 1) 0 0 with
  | .error e => .error e
  | .ok start => replayFrom codec envs bytes (bytes.length + 1) start 0 store

end Recached
