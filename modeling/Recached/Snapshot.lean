import Recached.Store

/-!
# Snapshots of a store

What a full synchronisation and the snapshot file carry, and how a store takes it over.
-/

namespace Recached

/-- An entry of a snapshot: a key with its value and its deadline. -/
abbrev SnapshotEntry := String × Cell

/-- The value that comes back from a snapshot: limiters lose their attempts, and documents go through
their text. -/
def EntryValue.restored (codec : Codec) : EntryValue → EntryValue
  | .rateLimiter rl => .rateLimiter { rl with buckets := [] }
  | .json doc => .json ((codec.fromStr (codec.toStr doc)).toOption.getD .null)
  | v => v

namespace KeyValueStore

def snapshot (codec : Codec) (now : ℕ) (s : KeyValueStore) : List SnapshotEntry :=
  (s.data.toList.filter fun e => !e.2.isExpired now).map fun e =>
    (e.1, ⟨e.2.value.restored codec, e.2.expiresAtMs⟩)

def restore (now : ℕ) (entries : List SnapshotEntry) (s : KeyValueStore) : KeyValueStore :=
  let data := (entries.filter fun e => !e.2.isExpired now).foldl
    (fun data e => data.insert e.1 ⟨e.2, now⟩) s.data
  { s with data }.rebuildMetadata now

/-- Replace the whole keyspace, so that keys deleted while disconnected do not survive. -/
def replace (now : ℕ) (entries : List SnapshotEntry) (s : KeyValueStore) : KeyValueStore :=
  { s with data := ∅, memoryBytes := 0, index := {} }.restore now entries

end KeyValueStore

end Recached
