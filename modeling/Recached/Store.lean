import Recached.Lib.Lapse
import Recached.Values

/-!
# The store

The stored entries with their bookkeeping: the key index, the memory account and capacity eviction.
The clock, the random draws and the samples that evictions choose from are inputs of each command,
gathered in an `Env`.
-/

namespace Recached

abbrev Cell := Lapse.Cell EntryValue

abbrev Entry := Lapse.Entry EntryValue

abbrev Data := Lapse.Data String EntryValue

abbrev View := Lapse.View String EntryValue

abbrev Effect := Lapse.Effect EntryValue

/-- What a command observes besides the store. -/
structure Env where
  now : ℕ
  /-- The random numbers behind `SPOP` and `SRANDMEMBER`. -/
  draws : ℕ → ℕ
  /-- The random positions sampled by the successive evictions of one command. -/
  samples : ℕ → List ℕ

inductive EvictionPolicy where
  | noEviction
  | allKeysLru
  | allKeysRandom
  | volatileLru
  | volatileTtl
deriving DecidableEq

/-! ## The key index -/

structure DenseKeys where
  keys : List String := []
  positions : Std.ExtTreeMap String ℕ := ∅

namespace DenseKeys

def insert (d : DenseKeys) (key : String) : DenseKeys :=
  if d.positions.contains key then d
  else { keys := d.keys ++ [key], positions := d.positions.insert key d.keys.length }

/-- Remove a key by moving the last one into its place. -/
def remove (d : DenseKeys) (key : String) : DenseKeys :=
  match d.positions[key]? with
  | none => d
  | some pos =>
    let last := d.keys.getLast?
    let keys := (match last with
      | some moved => d.keys.set pos moved
      | none => d.keys).dropLast
    let positions := d.positions.erase key
    { keys, positions := match keys[pos]? with
      | some moved => positions.insert moved pos
      | none => positions }

end DenseKeys

structure KeyIndex where
  ordered : Std.ExtTreeSet String := ∅
  all : DenseKeys := {}
  volatile : DenseKeys := {}

/-- Record whether a key is stored and, if it is, whether it carries a deadline. -/
def KeyIndex.sync (index : KeyIndex) (key : String) : Option Bool → KeyIndex
  | none =>
    { ordered := index.ordered.erase key
      all := index.all.remove key
      volatile := index.volatile.remove key }
  | some hasTtl =>
    { ordered := index.ordered.insert key
      all := index.all.insert key
      volatile := if hasTtl then index.volatile.insert key else index.volatile.remove key }

/-! ## The state -/

structure KeyValueStore where
  data : Data := ∅
  maxKeys : Option ℕ := none
  maxMemoryBytes : Option ℕ := none
  evictionPolicy : EvictionPolicy := .noEviction
  evictionSample : ℕ := 10
  memoryBytes : ℕ := 0
  index : KeyIndex := {}
  scanCursors : Std.ExtTreeMap ℕ String := ∅
  nextScanCursor : ℕ := 1

namespace KeyValueStore

def hasCapacityLimits (s : KeyValueStore) : Bool := s.maxKeys.isSome || s.maxMemoryBytes.isSome

/-- The live cell of every key at a time. -/
def live (now : ℕ) (s : KeyValueStore) : View := Lapse.live now s.data

def entryMemory (data : Data) (key : String) : ℕ :=
  (data[key]?.map fun e => entrySize key e.value).getD 0

def adjustMemory (s : KeyValueStore) (before after : ℕ) : KeyValueStore :=
  if before ≤ after then { s with memoryBytes := s.memoryBytes + (after - before) }
  else { s with memoryBytes := s.memoryBytes - (before - after) }

def syncKeyMetadata (s : KeyValueStore) (key : String) : KeyValueStore :=
  { s with index := s.index.sync key (s.data[key]?.map fun e => e.expiresAtMs.isSome) }

def rebuildMetadata (now : ℕ) (s : KeyValueStore) : KeyValueStore :=
  let stored := s.data.toList.filter fun e => !e.2.isExpired now
  { s with
    index := stored.foldl (fun index e => index.sync e.1 (some e.2.expiresAtMs.isSome)) {}
    memoryBytes := (stored.map fun e => entrySize e.1 e.2.value).sum }

/-! ## Eviction -/

/-- `take` distinct positions below `len`, in order; the sample stands for the random choice. -/
def samplePositions (sample : List ℕ) (len take : ℕ) : List ℕ :=
  (((sample.map (· % len) ++ List.range len).eraseDups).take take).insertionSort (· ≤ ·)

def indexedCandidates (s : KeyValueStore) (sample : List ℕ) (volatileOnly : Bool) (want : ℕ) :
    List String :=
  let source := if volatileOnly then s.index.volatile.keys else s.index.all.keys
  (samplePositions sample source.length (min want source.length)).filterMap fun i => source[i]?

/-- How much a candidate is worth keeping; `none` if it is not eligible. -/
def evictionWeight (s : KeyValueStore) (now : ℕ) (key : String) : Option (String × ℕ) :=
  match s.data[key]? with
  | none => none
  | some e =>
    if e.isExpired now then some (key, 0)
    else
      match s.evictionPolicy with
      | .allKeysRandom => some (key, 0)
      | .allKeysLru | .volatileLru => some (key, e.lastAccessMs)
      | .volatileTtl => e.expiresAtMs.map fun deadline => (key, deadline)
      | .noEviction => none

/-- The first candidate of least weight. -/
def leastWeight : List (String × ℕ) → Option (String × ℕ)
  | [] => none
  | c :: rest =>
    match leastWeight rest with
    | some best => if best.2 < c.2 then some best else some c
    | none => some c

/-- Evict one key chosen from a sample: its name and the store without it. -/
def evictOne (s : KeyValueStore) (now : ℕ) (sample : List ℕ) : Option (String × KeyValueStore) :=
  let volatile := s.evictionPolicy = .volatileLru || s.evictionPolicy = .volatileTtl
  let want := if s.evictionPolicy = .allKeysRandom then 1 else s.evictionSample
  if s.evictionPolicy = .noEviction then none
  else
    let candidates := s.indexedCandidates sample volatile want
    match leastWeight (candidates.filterMap (s.evictionWeight now)) with
    | none => none
    | some (chosen, _) =>
      let freed := entryMemory s.data chosen
      let s := { s with data := s.data.erase chosen }
      some (chosen, (s.adjustMemory freed 0).syncKeyMetadata chosen)

/-- Evict `n` keys; whether that many could be evicted, and the keys that were. -/
def evictMany (env : Env) : (n : ℕ) → (evicted : List String) → KeyValueStore →
    Bool × KeyValueStore × List String
  | 0, evicted, s => (true, s, evicted)
  | n + 1, evicted, s =>
    match s.evictOne env.now (env.samples evicted.length) with
    | none => (false, s, evicted)
    | some (key, s) => evictMany env n (evicted ++ [key]) s

def evictionHeadroomDivisor : ℕ := 16

/-- Evict until the account is at most `target` or there is no victim left.  Every eviction removes
an entry, so the number of entries bounds the number of rounds. -/
def evictUntil (env : Env) (target : ℕ) : (fuel : ℕ) → (evicted : List String) → KeyValueStore →
    KeyValueStore × List String
  | 0, evicted, s => (s, evicted)
  | fuel + 1, evicted, s =>
    if s.memoryBytes ≤ target then (s, evicted)
    else
      match s.evictOne env.now (env.samples evicted.length) with
      | none => (s, evicted)
      | some (key, s) => evictUntil env target fuel (evicted ++ [key]) s

/-- Evict until the account is below the cap; whether it is within the limit afterwards. -/
def tryEvictForMemory (env : Env) (evicted : List String) (s : KeyValueStore) :
    Bool × KeyValueStore × List String :=
  match s.maxMemoryBytes with
  | none => (true, s, evicted)
  | some limit =>
    let target := limit - limit / evictionHeadroomDivisor
    let (s, evicted) := evictUntil env target (s.data.size + 1) evicted s
    (s.memoryBytes ≤ limit, s, evicted)

end KeyValueStore

end Recached
