import Recached.Crossings
import Recached.Errors
import Recached.Lib.Runs
import Recached.RoundTrip
import Recached.Telling
import Recached.Transactions
import Recached.Wrapping

/-!
# The browser's log

A page keeps the frames of its own mutations in a database and executes them again when it is loaded.  A
long log is replaced by commands that build the entries of the store.  The frames of a lifetime in
seconds count from the time they are executed, so that only a log without them gives the same entries
whenever it is executed.
-/

namespace Recached

open Text

/-! ## Mutations of a page -/

/-- A mutation of the local store. -/
inductive LocalMutation where
  | set (key value : String)
  | setBytes (key : String) (value : Bytes)
  | setEx (key value : String) (seconds : UInt32)
  | del (key : String)
  | incrBy (key : String) (delta : Int64)
  | jset (key path value : String)
  | jmerge (key patch : String)

namespace LocalMutation

def key : LocalMutation → String
  | set key _ | setBytes key _ | setEx key _ _ | del key | incrBy key _ | jset key _ _ | jmerge key _ => key

/-- The command that is executed on the local store. -/
def command : LocalMutation → Command
  | set key value => .set key (asBytes value) {}
  | setBytes key value => .set key value {}
  | setEx key value seconds => .set key (asBytes value) { expiry := some (.ex seconds.toNat) }
  | del key => .del [key]
  | incrBy key delta => .incrBy key delta.toInt
  | jset key path value => .jSet key path value
  | jmerge key patch => .jMerge key patch

/-- The parts of the frame that is sent and kept. -/
def parts : LocalMutation → List Bytes
  | set key value => [asBytes "SET", asBytes key, asBytes value]
  | setBytes key value => [asBytes "SET", asBytes key, value]
  | setEx key value seconds =>
    [asBytes "SET", asBytes key, asBytes value, asBytes "EX", Decimal.digits seconds.toNat]
  | del key => [asBytes "DEL", asBytes key]
  | incrBy key delta => [asBytes "INCRBY", asBytes key, Decimal.ofInt delta.toInt]
  | jset key path value => [asBytes "JSET", asBytes key, asBytes path, asBytes value]
  | jmerge key patch => [asBytes "JMERGE", asBytes key, asBytes patch]

/-- A mutation that fails is not sent and not kept; the others do not look at the reply. -/
def stopsOnError : LocalMutation → Bool
  | incrBy .. | jset .. | jmerge .. => true
  | set .. | setBytes .. | setEx .. | del .. => false

end LocalMutation

/-! ## The commands of a compacted log -/

abbrev toRespOwned (parts : List Bytes) : Bytes := toRespBytes parts

namespace StoredEntry

/-- The parts of the command that builds an entry, unless there is nothing to build. -/
def dataParts (now : ℕ) (e : StoredEntry) : Option (List Bytes) :=
  match e.value with
  | .str s =>
    some (asBytes "SET" :: asBytes e.key :: s :: match e.expiresAtMs with
      | some exp => [asBytes "PX", Decimal.digits (exp - now)]
      | none => [])
  | .hash map =>
    if map.isEmpty then none
    else some (asBytes "HSET" :: asBytes e.key :: map.flatMap fun p => [asBytes p.1, p.2])
  | .list list => if list.isEmpty then none else some (asBytes "RPUSH" :: asBytes e.key :: list)
  | .set members =>
    if members.isEmpty then none else some (asBytes "SADD" :: asBytes e.key :: members.map asBytes)
  | .zSet pairs =>
    if pairs.isEmpty then none
    else some (asBytes "ZADD" :: asBytes e.key ::
      pairs.flatMap fun p => [formatScore p.2, asBytes p.1])
  -- limiters belong to the server
  | .rateLimiter .. => none
  | .json doc => some [asBytes "JSET", asBytes e.key, asBytes "$", asBytes doc]

/-- The parts of the command that gives its deadline to an entry which is not a string. -/
def deadlineParts (e : StoredEntry) : Option (List Bytes) :=
  match e.value with
  | .str _ => none
  | _ => e.expiresAtMs.map fun exp => [asBytes "PEXPIREAT", asBytes e.key, Decimal.digits exp]

end StoredEntry

def snapshotToRespCmds (now : ℕ) (entries : List StoredEntry) : List Bytes :=
  entries.flatMap fun e =>
    if e.expiresAtMs.any (· ≤ now) then []
    else
      match e.dataParts now with
      | none => []
      | some parts => toRespOwned parts :: (e.deadlineParts.map toRespOwned).toList

/-! ## Pages and their database -/

/-- Put a frame under its number; the rows stay in the order of their numbers. -/
def idbAppend (seq : ℕ) (frame : Bytes) (wal : List (ℕ × Bytes)) : List (ℕ × Bytes) :=
  wal.filter (·.1 < seq) ++ (seq, frame) :: wal.filter (seq < ·.1)

/-- The order in which the entries of a snapshot are listed. -/
structure Listing where
  order : List StoredEntry → List StoredEntry
  perm : ∀ entries, (order entries).Perm entries

/-- Execute the rows that can be read; the others are passed over. -/
def replayWal (codec : Codec) (env : Env) (wal : List (ℕ × Bytes)) (store : KeyValueStore) : KeyValueStore :=
  wal.foldl (fun store row =>
    match commandOf row.2 with
    | some cmd => (execute codec env cmd store).2
    | none => store) store

/-- A log of more rows than these is compacted when it is loaded. -/
def walCompactThreshold : ℕ := 1000

/-- A page that keeps its mutations, with the rows of the database. -/
structure RecachedCache where
  store : KeyValueStore := {}
  wal : List (ℕ × Bytes) := []
  seq : ℕ := 0

namespace RecachedCache

def persistCmd (frame : Bytes) (c : RecachedCache) : RecachedCache :=
  { c with wal := idbAppend c.seq frame c.wal, seq := c.seq + 1 }

/-- Execute a mutation and keep its frame. -/
def mutate (codec : Codec) (env : Env) (m : LocalMutation) (c : RecachedCache) : RecachedCache :=
  let (reply, store) := execute codec env m.command c.store
  if m.stopsOnError && reply.isError then { c with store }
  else { c with store }.persistCmd (toRespBytes m.parts)

/-- Load the rows into the store of a page, and compact the log if it has more rows than the threshold. -/
def enablePersistence (codec : Codec) (env : Env) (listing : Listing) (threshold : ℕ) (c : RecachedCache) :
    RecachedCache :=
  let store := replayWal codec env c.wal c.store
  let maxSeq := ((c.wal.filter fun row => (commandOf row.2).isSome).map Prod.fst).foldr max 0
  if threshold < c.wal.length then
    let cmds := snapshotToRespCmds env.now (listing.order (store.snapshotEntries codec env.now))
    { store, wal := cmds.zipIdx.map Prod.swap, seq := cmds.length }
  else { store, wal := c.wal, seq := if c.wal.isEmpty then 0 else maxSeq + 1 }

/-- A new page on the database of the old one. -/
def reload (codec : Codec) (env : Env) (listing : Listing) (threshold : ℕ) (c : RecachedCache) :
    RecachedCache :=
  { wal := c.wal : RecachedCache }.enablePersistence codec env listing threshold

end RecachedCache

/-! ## Rows that are read -/

theorem commandOf_toRespBytes (parts : List Bytes) :
    commandOf (toRespBytes parts) = if Fits parts then (fromArray (bulks parts)).toOption else none := by
  unfold commandOf
  by_cases fits : Fits parts
  · rw [(parse_toRespBytes parts _).mpr ⟨fits, rfl⟩, if_pos fits]
    rfl
  · rw [if_neg fits]
    cases read : Value.parse (toRespBytes parts) with
    | error e => rfl
    | ok r =>
      rw [toRespBytes_eq] at read
      have limits := (Value.legible_iff (isPlain_bulks parts)).mp ⟨r, read⟩
      exact absurd ((within_bulks 15 parts).mp limits) fits

theorem parse_incrBy {key : String} {delta : ℤ} (fits : InI64 delta) (cmd : Command) :
    fromArray (bulks [asBytes "INCRBY", asBytes key, Decimal.ofInt delta]) = .ok cmd ↔
      ValidKey key ∧ cmd = .incrBy key delta := by
  refine decoded "INCRBY" [asBytes key, Decimal.ofInt delta] rfl rfl (by decide) ?_ ?_
  · rw [bulks_cons, bulks_cons, invalidTextFrom_cons _ (.inr (isText_asBytes _)),
      invalidTextFrom_cons _ (.inr (Decimal.isText_ofInt _))]
    rfl
  · refine onKey_ok.trans ?_
    simp only [List.map_cons, argAt, List.getD_cons_succ, List.getD_cons_zero, Nat.add_one_sub_one,
      bind_ok_iff, extractInt_ofInt]
    constructor
    · rintro ⟨-, valid, _, ⟨-, rfl⟩, h⟩
      exact ⟨valid, (Except.ok.inj h).symm⟩
    · rintro ⟨valid, rfl⟩
      exact ⟨by simp, valid, delta, ⟨fits, rfl⟩, rfl⟩

namespace LocalMutation

theorem inI64 (delta : Int64) : InI64 delta.toInt := ⟨Int64.le_toInt delta, Int64.toInt_le delta⟩

/-- The row of a mutation without a lifetime is read as the mutation. -/
theorem commandOf_parts (m : LocalMutation) (lasting : givesDeadline m.command = false)
    (valid : ValidKey m.key) (fits : Fits m.parts) :
    commandOf (toRespBytes m.parts) = some m.command := by
  have read (mutation : Mutation) (parts : m.parts = mutation.parts)
      (command : m.command = mutation.wire.toCommand) (accepted : mutation.Acceptable) : fromArray (bulks m.parts) = .ok m.command := by
    rw [parts]
    exact (decodes_iff mutation _).mpr ⟨accepted, command⟩
  have decodes : fromArray (bulks m.parts) = .ok m.command := by
    cases m with
    | set key value => exact read (.set key (asBytes value) .none) rfl rfl ⟨valid, trivial⟩
    | setBytes key value => exact read (.set key value .none) rfl rfl ⟨valid, trivial⟩
    | setEx key value seconds => cases lasting
    | del key => exact read (.del [key]) rfl rfl ⟨by simp, List.forall_mem_singleton.mpr valid⟩
    | incrBy key delta => exact (parse_incrBy (inI64 delta) _).mpr ⟨valid, rfl⟩
    | jset key path value => exact read (.jSet key path value) rfl rfl valid
    | jmerge key patch => exact read (.jMerge key patch) rfl rfl valid
  rw [commandOf_toRespBytes, if_pos fits, decodes]
  rfl

theorem timeless (codec : Codec) (m : LocalMutation) (lasting : givesDeadline m.command = false) :
    Timeless codec m.command := by
  cases m
  case setEx => cases lasting
  all_goals exact ⟨rfl, rfl, fun env env' => rfl⟩

end LocalMutation

/-! ## Executing a log -/

section

variable {codec : Codec} {env : Env} {wal : List (ℕ × Bytes)} {seq : ℕ}

/-- The commands that the rows are read as. -/
def readable (wal : List (ℕ × Bytes)) : List Command := wal.filterMap fun row => commandOf row.2

/-- No row has a number that is still to be given, unless it is not read. -/
def Unread (seq : ℕ) (wal : List (ℕ × Bytes)) : Prop := ∀ row ∈ wal, seq ≤ row.1 → commandOf row.2 = none

/-- A log that uses no clock builds the same entries at whatever time it is executed. -/
theorem KeyValueStore.Plain.replayWal {store : KeyValueStore} (plain : store.Plain)
    (timeless : ∀ cmd ∈ readable wal, Timeless codec cmd) :
    (replayWal codec env wal store).Plain ∧
      (replayWal codec env wal store).live 0 = replayAll codec (readable wal) (store.live 0) := by
  induction wal generalizing store with
  | nil => exact ⟨plain, rfl⟩
  | cons row wal ih =>
    unfold readable at timeless ih ⊢
    rw [Recached.replayWal, List.foldl_cons]
    cases read : commandOf row.2 with
    | none =>
      simp only [List.filterMap_cons, read] at timeless ⊢
      exact ih plain timeless
    | some cmd =>
      simp only [List.filterMap_cons, read] at timeless ⊢
      obtain ⟨first, others⟩ := List.forall_mem_cons.mp timeless
      obtain ⟨after, live⟩ := plain.timeless env first
      rw [replayAll, List.foldl_cons, ← live]
      exact ih after others

theorem readable_filter {P : ℕ × Bytes → Bool}
    (unread : ∀ row ∈ wal, P row = false → commandOf row.2 = none) :
    readable (wal.filter P) = readable wal := by
  rw [readable, List.filterMap_filter]
  refine List.filterMap_congr fun row there => ?_
  by_cases kept : P row
  · rw [if_pos kept]
  · rw [if_neg kept, unread row there (by simpa using kept)]

/-- A row that is put over others is put over rows that are not read. -/
theorem readable_idbAppend (unread : Unread seq wal) (frame : Bytes) :
    readable (idbAppend seq frame wal) = readable wal ++ (commandOf frame).toList := by
  have before : readable (wal.filter (·.1 < seq)) = readable wal :=
    readable_filter fun row there late => unread row there (by simpa using late)
  have after : readable (wal.filter (seq < ·.1)) = [] :=
    List.filterMap_eq_nil_iff.mpr fun row there => by
      obtain ⟨stored, late⟩ := List.mem_filter.mp there
      exact unread row stored (of_decide_eq_true late).le
  unfold readable at before after ⊢
  rw [idbAppend, List.filterMap_append, before, List.filterMap_cons, after]
  cases commandOf frame <;> rfl

theorem unread_idbAppend (unread : Unread seq wal) (frame : Bytes) :
    Unread (seq + 1) (idbAppend seq frame wal) := by
  intro row there late
  rcases List.mem_append.mp there with early | rest
  · have := of_decide_eq_true (List.mem_filter.mp early).2
    omega
  · rcases List.mem_cons.mp rest with rfl | above
    · exact absurd late (by simp)
    · exact unread row (List.mem_filter.mp above).1 (by omega)

theorem readable_zipIdx (frames : List Bytes) :
    readable (frames.zipIdx.map Prod.swap) = frames.filterMap commandOf := by
  have frames_eq : (frames.zipIdx.map Prod.swap).map Prod.snd = frames := by
    rw [List.map_map]
    exact List.zipIdx_map_fst 0 frames
  rw [readable]
  conv_rhs => rw [← frames_eq, List.filterMap_map]
  rfl

theorem unread_zipIdx (frames : List Bytes) : Unread frames.length (frames.zipIdx.map Prod.swap) := by
  intro row there late
  obtain ⟨⟨frame, i⟩, listed, rfl⟩ := List.mem_map.mp there
  have : i < frames.length + 0 := List.snd_lt_of_mem_zipIdx listed
  exact absurd late (by simpa using this)

/-- Every row that is read has a number up to the greatest that the page has seen. -/
theorem unread_maxSeq (wal : List (ℕ × Bytes)) :
    Unread (((wal.filter fun row => (commandOf row.2).isSome).map Prod.fst).foldr max 0 + 1) wal := by
  intro row there late
  by_contra read
  have listed : row.1 ∈ (wal.filter fun row => (commandOf row.2).isSome).map Prod.fst :=
    List.mem_map.mpr ⟨row, List.mem_filter.mpr ⟨there, by simpa [Option.isSome_iff_ne_none] using read⟩, rfl⟩
  exact absurd (List.le_max_of_le' 0 listed le_rfl) (not_le.mpr late)

end

/-! ## Compaction -/

section

variable {codec : Codec} {now : ℕ} {v : View}

/-- What mutations of a page build. -/
def EntryValue.IsLocal : EntryValue → Prop
  | .str _ | .json _ => True
  | _ => False

/-- The command that builds the value is read back from its row, and a document from its text. -/
def Rewrites (codec : Codec) (key : String) : EntryValue → Prop
  | .str s => Fits [asBytes "SET", asBytes key, s]
  | .json doc =>
    Fits [asBytes "JSET", asBytes key, asBytes "$", asBytes (codec.toStr doc)] ∧
      codec.fromStr (codec.toStr doc) = .ok doc
  | _ => True

/-- The rows of an entry are read as one command, which builds the cell of a view. -/
def BuiltBack (codec : Codec) (now : ℕ) (v : View) (e : StoredEntry) : Prop :=
  ∃ cmd, (snapshotToRespCmds now [e]).filterMap commandOf = [cmd] ∧ Timeless codec cmd ∧
    ∀ w : View, w e.key = none → replay codec cmd w = Function.update w e.key (v e.key)

theorem replay_jSet {key : String} {doc : Json} (reads : codec.fromStr (codec.toStr doc) = .ok doc)
    (w : View) (absent : w key = none) :
    replay codec (.jSet key "$" (codec.toStr doc)) w = Function.update w key (some ⟨.json doc, none⟩) := by
  have root : parseJsonPath "$" = .ok [] := by decide
  rw [replay, perform_one rfl]
  dsimp only
  rw [absent, afterAct, jSetAct]
  simp only [root, reads]
  rfl

theorem builtBack {key : String} {value : EntryValue} (here : v key = some ⟨value, none⟩)
    (islocal : value.IsLocal) (valid : ValidKey key) (rewrites : Rewrites codec key value) :
    BuiltBack codec now v ⟨key, .ofEntry codec value, none⟩ := by
  have read (m : Mutation) (accepted : m.Acceptable) (fits : Fits m.parts) :
      [toRespBytes m.parts].filterMap commandOf = [m.wire.toCommand] := by
    rw [List.filterMap_cons, commandOf_toRespBytes, if_pos fits, (decodes_iff m _).mpr ⟨accepted, rfl⟩]
    rfl
  cases value with
  | str s =>
    refine ⟨.set key s {}, read (.set key s .none) ⟨valid, trivial⟩ rewrites,
      ⟨rfl, rfl, fun _ _ => rfl⟩, fun w _ => ?_⟩
    rw [here, replay, perform_one rfl]
    rfl
  | json doc =>
    refine ⟨.jSet key "$" (codec.toStr doc), read (.jSet key "$" (codec.toStr doc)) valid rewrites.1,
      ⟨rfl, rfl, fun _ _ => rfl⟩, fun w absent => ?_⟩
    rw [here, replay_jSet rewrites.2 w absent]
  | hash | list | set | zset | rateLimiter => exact islocal.elim

theorem replayAll_builtBack {entries : List StoredEntry} (distinct : (entries.map StoredEntry.key).Nodup)
    (each : ∀ e ∈ entries, BuiltBack codec now v e) {w : View} (absent : ∀ e ∈ entries, w e.key = none) :
    (∀ cmd ∈ (snapshotToRespCmds now entries).filterMap commandOf, Timeless codec cmd) ∧
      ∀ k, replayAll codec ((snapshotToRespCmds now entries).filterMap commandOf) w k =
        if k ∈ entries.map StoredEntry.key then v k else w k := by
  induction entries generalizing w with
  | nil => exact ⟨nofun, fun k => rfl⟩
  | cons e entries ih =>
    obtain ⟨new, distinct⟩ := List.nodup_cons.mp distinct
    obtain ⟨first, others⟩ := List.forall_mem_cons.mp each
    obtain ⟨free, absent⟩ := List.forall_mem_cons.mp absent
    obtain ⟨cmd, row, timeless, builds⟩ := first
    have rows : snapshotToRespCmds now (e :: entries) =
        snapshotToRespCmds now [e] ++ snapshotToRespCmds now entries := by
      simp only [snapshotToRespCmds, List.flatMap_cons, List.flatMap_nil, List.append_nil]
    have still : ∀ e' ∈ entries, Function.update w e.key (v e.key) e'.key = none := by
      intro e' there
      have other : e'.key ≠ e.key := fun same => new (List.mem_map.mpr ⟨e', there, same⟩)
      rw [Function.update_of_ne other]
      exact absent e' there
    obtain ⟨rest, live⟩ := ih distinct others still
    rw [rows, List.filterMap_append, row]
    refine ⟨List.forall_mem_cons.mpr ⟨timeless, rest⟩, fun k => ?_⟩
    have next := live k
    rw [← builds w free] at next
    rw [List.map_cons]
    refine next.trans ?_
    rw [builds w free]
    by_cases same : k = e.key
    · subst same
      simp [new]
    · simp [same]

theorem mem_snapshotEntries {s : KeyValueStore} {e : StoredEntry} :
    e ∈ s.snapshotEntries codec now ↔
      ∃ c, s.live now e.key = some c ∧ e = ⟨e.key, .ofEntry codec c.value, c.expiresAtMs⟩ := by
  rw [KeyValueStore.snapshotEntries, List.mem_map]
  constructor
  · rintro ⟨⟨k, stored⟩, listed, rfl⟩
    obtain ⟨there, alive⟩ := List.mem_filter.mp listed
    have found := Std.ExtTreeMap.mem_toList_iff_getElem?_eq_some.mp there
    exact ⟨stored.toCell, Lapse.settle_eq_some.mpr ⟨by rw [found]; rfl, by simpa using alive⟩, rfl⟩
  · rintro ⟨c, live, same⟩
    obtain ⟨held, alive⟩ := Lapse.settle_eq_some.mp live
    obtain ⟨stored, found, rfl⟩ := Option.map_eq_some_iff.mp held
    refine ⟨(e.key, stored), List.mem_filter.mpr ⟨?_, by simpa using alive⟩, same.symm⟩
    exact Std.ExtTreeMap.mem_toList_iff_getElem?_eq_some.mpr found

theorem nodup_snapshotEntries (codec : Codec) (now : ℕ) (s : KeyValueStore) :
    ((s.snapshotEntries codec now).map StoredEntry.key).Nodup := by
  have keys : (s.snapshotEntries codec now).map StoredEntry.key = (s.snapshot codec now).map Prod.fst := by
    rw [← KeyValueStore.decode_snapshotEntries, List.map_map]
    rfl
  rw [keys]
  exact KeyValueStore.nodup_snapshot codec now s

/-- A compacted log builds the entries of the store it was made from. -/
theorem replayAll_snapshot {s : KeyValueStore} (lasts : ∀ k, Lapse.Lasts (s.live now k))
    (islocal : ∀ k c, s.live now k = some c → ValidKey k ∧ c.value.IsLocal)
    (rewrites : ∀ k c, s.live now k = some c → Rewrites codec k c.value) (listing : Listing) :
    let rows := snapshotToRespCmds now (listing.order (s.snapshotEntries codec now))
    (∀ cmd ∈ rows.filterMap commandOf, Timeless codec cmd) ∧
      replayAll codec (rows.filterMap commandOf) (fun _ => none) = s.live now := by
  have perm := listing.perm (s.snapshotEntries codec now)
  have distinct : ((listing.order (s.snapshotEntries codec now)).map StoredEntry.key).Nodup :=
    (perm.map StoredEntry.key).nodup_iff.mpr (nodup_snapshotEntries codec now s)
  have each : ∀ e ∈ listing.order (s.snapshotEntries codec now), BuiltBack codec now (s.live now) e := by
    intro e listed
    obtain ⟨⟨value, expiresAtMs⟩, live, same⟩ := mem_snapshotEntries.mp (perm.mem_iff.mp listed)
    obtain rfl : expiresAtMs = none := lasts e.key _ live
    obtain ⟨valid, islocal⟩ := islocal e.key _ live
    rw [same]
    exact builtBack live islocal valid (rewrites e.key _ live)
  obtain ⟨timeless, built⟩ := replayAll_builtBack distinct each (w := fun _ => none) fun _ _ => rfl
  refine ⟨timeless, funext fun k => ?_⟩
  rw [built k]
  cases live : s.live now k with
  | none => exact ite_self _
  | some c =>
    have entry : ⟨k, .ofEntry codec c.value, c.expiresAtMs⟩ ∈ s.snapshotEntries codec now :=
      mem_snapshotEntries.mpr ⟨c, live, rfl⟩
    exact if_pos (List.mem_map.mpr ⟨_, perm.mem_iff.mpr entry, rfl⟩)

end

/-! ## What mutations leave -/

section

variable {codec : Codec} {env : Env} {v : View}

/-- The key is one that the parser accepts, and the value one that mutations of a page build. -/
def LocalCell (key : String) (l : Option Cell) : Prop := ∀ c ∈ l, ValidKey key ∧ c.value.IsLocal

theorem localCell_typedEntry {α : Type} {k : Kind α} {default : α} {f : α → α × Value} {key : String}
    {l : Option Cell} (valid : ValidKey key) (kind : ∀ x, (k.wrap x).IsLocal) (held : LocalCell key l) :
    LocalCell key ((typedEntry k default f l).1.apply l) := by
  cases l with
  | none =>
    rintro _ ⟨⟩
    exact ⟨valid, kind _⟩
  | some c =>
    unfold typedEntry
    dsimp only
    split
    · rintro _ ⟨⟩
      exact ⟨valid, kind _⟩
    · exact held

theorem LocalCell.settle {key : String} {l : Option Cell} (h : LocalCell key l) (now : ℕ) :
    LocalCell key (Lapse.settle now l) :=
  fun c there => h c (Lapse.settle_eq_some.mp there).1

/-- A mutation of an accepted key leaves accepted keys with strings and documents. -/
theorem LocalMutation.localCell (m : LocalMutation) (valid : ValidKey m.key)
    (live : ∀ k, Lapse.settle env.now (v k) = v k) (held : ∀ k, LocalCell k (v k)) (k : String) :
    LocalCell k ((perform codec env m.command v).2 k) := by
  have one {act : Act} (is : program codec env m.command = .one m.key act)
      (builds : LocalCell m.key ((act (v m.key)).1.apply (v m.key))) :
      LocalCell k ((perform codec env m.command v).2 k) := by
    rw [perform_one is]
    by_cases same : k = m.key
    · subst same
      dsimp only
      rw [Function.update_self]
      exact builds.settle env.now
    · dsimp only
      rw [Function.update_of_ne same]
      exact held k
  have string (val : Bytes) (expiresAtMs : Option ℕ) : LocalCell m.key (some ⟨.str val, expiresAtMs⟩) := by
    rintro _ ⟨⟩
    exact ⟨valid, trivial⟩
  cases m with
  | set key value => exact one rfl (string _ _)
  | setBytes key value => exact one rfl (string _ _)
  | setEx key value seconds =>
    refine one rfl ?_
    unfold setAct setDeadline
    simp only [Bool.false_and, Bool.false_eq_true, if_false, conditionMet, Bool.not_true]
    split
    · exact held key
    · exact string _ _
  | del key =>
    have after : (perform codec env (.del [key]) v).2 k = if k ∈ [key] then none else v k := by
      rw [perform, program, Lapse.Prog.eval_bind]
      exact eval_delKeys env.now [key] 0 v k live
    intro c there
    rw [command, after] at there
    split_ifs at there
    · cases there
    · exact held k c there
  | incrBy key delta => exact one rfl (localCell_typedEntry valid (fun _ => trivial) (held key))
  | jset key path value =>
    refine one rfl ?_
    unfold jSetAct
    split
    · exact held key
    · split
      · exact held key
      · dsimp only
        split_ifs
        · exact held key
        · exact localCell_typedEntry valid (fun _ => trivial) (held key)
  | jmerge key patch =>
    refine one rfl ?_
    unfold jMergeAct
    split
    · exact held key
    · split_ifs
      · rintro _ ⟨⟩
      · exact held key
      · exact localCell_typedEntry valid (fun _ => trivial) (held key)

end

/-! ## Runs -/

/-- A page and its database, beside a store that executes the same mutations and is never reloaded. -/
structure Persisted where
  original : KeyValueStore := {}
  cache : RecachedCache := {}
  clock : ℕ := 0

inductive PageStep where
  | mutate (env : Env) (m : LocalMutation)
  | reload (env : Env) (listing : Listing) (threshold : ℕ)

namespace PageStep

def env : PageStep → Env
  | mutate env _ | reload env _ _ => env

end PageStep

namespace Persisted

variable (codec : Codec)

def step (s : Persisted) (a : PageStep) : Option Persisted :=
  if s.clock ≤ a.env.now then
    some <| match a with
      | .mutate env m =>
        { original := (execute codec env m.command s.original).2
          cache := s.cache.mutate codec env m
          clock := env.now }
      | .reload env listing threshold =>
        { s with cache := s.cache.reload codec env listing threshold, clock := env.now }
  else none

/-- At every later time the log gives the live view of the session that was never reloaded. -/
def Restores (s : Persisted) : Prop :=
  ∀ env : Env, s.clock ≤ env.now →
    (replayWal codec env s.cache.wal {}).live env.now = s.original.live env.now

end Persisted

/-- The mutation gives no lifetime, its row is read, and it does not fail halfway; or its row is not read
and it changes nothing. -/
def LocalMutation.Lasting (codec : Codec) (env : Env) (v : View) (m : LocalMutation) : Prop :=
  (givesDeadline m.command = false ∧ ValidKey m.key ∧ Fits m.parts ∧ FailsClean codec m.command v) ∨
    commandOf (toRespBytes m.parts) = none ∧ (perform codec env m.command v).2 = v

/-- A mutation lasts, and a log is compacted only when every live entry is read back from its row. -/
def PageStep.Lasting (codec : Codec) (s : Persisted) : PageStep → Prop
  | mutate env m => m.Lasting codec env (s.original.live env.now)
  | reload env _ threshold => threshold < s.cache.wal.length →
    ∀ k c, s.original.live env.now k = some c → Rewrites codec k c.value

/-! ## What a run keeps -/

section

variable {codec : Codec} {env : Env} {s : Persisted}

/-- No live entry lapses, the page and its log agree with the session that was never reloaded, and the log
uses no clock. -/
structure Persisted.Agrees (codec : Codec) (s : Persisted) : Prop where
  uncapped : s.original.Uncapped
  lasts : ∀ k, Lapse.Lasts (s.original.live s.clock k)
  held : ∀ k, LocalCell k (s.original.live s.clock k)
  page : s.cache.store.Uncapped ∧ s.cache.store.live s.clock = s.original.live s.clock
  timeless : ∀ cmd ∈ readable s.cache.wal, Timeless codec cmd
  log : replayAll codec (readable s.cache.wal) (fun _ => none) = s.original.live s.clock
  unread : Unread s.cache.seq s.cache.wal

/-- Entries that do not lapse are live at every later time. -/
theorem live_of_lasts {store : KeyValueStore} {t t' : ℕ} (le : t ≤ t')
    (lasts : ∀ k, Lapse.Lasts (store.live t k)) : store.live t' = store.live t := by
  funext k
  rw [← (lasts k).settle t']
  exact (Lapse.settle_settle le _).symm

theorem live_empty (t : ℕ) : ({} : KeyValueStore).live t = fun _ => none := by
  funext k
  simp [KeyValueStore.live, Lapse.live]

namespace Persisted.Agrees

theorem initial (codec : Codec) : ({} : Persisted).Agrees codec where
  uncapped := ⟨rfl, rfl⟩
  lasts k := by
    rw [live_empty]
    exact .none
  held k := by
    rw [live_empty]
    nofun
  page := ⟨⟨rfl, rfl⟩, rfl⟩
  timeless := nofun
  log := (live_empty 0).symm
  unread := nofun

/-- The log builds the entries of the session, whenever it is executed. -/
theorem replayed (h : s.Agrees codec) (env : Env) :
    (replayWal codec env s.cache.wal {}).Plain ∧
      (replayWal codec env s.cache.wal {}).live env.now = s.original.live s.clock := by
  have empty : ({} : KeyValueStore).Plain := ⟨⟨rfl, rfl⟩, fun k => by simp [Lapse.Lasts]⟩
  obtain ⟨plain, live⟩ := @KeyValueStore.Plain.replayWal codec env _ _ empty h.timeless
  refine ⟨plain, ?_⟩
  rw [plain.live_eq, live, live_empty, h.log]

theorem restores (h : s.Agrees codec) : s.Restores codec := by
  intro env later
  rw [(h.replayed env).2, live_of_lasts later h.lasts]

/-- Time passes. -/
theorem wait (h : s.Agrees codec) {t : ℕ} (later : s.clock ≤ t) :
    ({ s with clock := t } : Persisted).Agrees codec := by
  have same : s.original.live t = s.original.live s.clock := live_of_lasts later h.lasts
  have pageLasts : ∀ k, Lapse.Lasts (s.cache.store.live s.clock k) := fun k => h.page.2 ▸ h.lasts k
  exact {
    uncapped := h.uncapped
    lasts := fun k => same ▸ h.lasts k
    held := fun k => same ▸ h.held k
    page := ⟨h.page.1, (live_of_lasts later pageLasts).trans (h.page.2.trans same.symm)⟩
    timeless := h.timeless
    log := h.log.trans same.symm
    unread := h.unread }

theorem reload (h : s.Agrees codec) (now : env.now = s.clock) (listing : Listing) {threshold : ℕ}
    (rewrites : threshold < s.cache.wal.length →
      ∀ k c, s.original.live env.now k = some c → Rewrites codec k c.value) :
    ({ s with cache := s.cache.reload codec env listing threshold } : Persisted).Agrees codec := by
  obtain ⟨plain, live⟩ := h.replayed env
  have page : (replayWal codec env s.cache.wal {}).Uncapped ∧
      (replayWal codec env s.cache.wal {}).live s.clock = s.original.live s.clock :=
    ⟨plain.uncapped, now ▸ live⟩
  unfold RecachedCache.reload RecachedCache.enablePersistence
  dsimp only
  by_cases compacts : threshold < s.cache.wal.length
  · rw [if_pos compacts]
    rw [now, ← page.2] at rewrites
    have cells k c (there : (replayWal codec env s.cache.wal {}).live s.clock k = some c) :
        ValidKey k ∧ c.value.IsLocal := h.held k c (page.2 ▸ there)
    have lasts k : Lapse.Lasts ((replayWal codec env s.cache.wal {}).live s.clock k) := page.2 ▸ h.lasts k
    obtain ⟨timeless, built⟩ := replayAll_snapshot lasts cells (rewrites compacts) listing
    rw [now]
    exact { h with
      page
      timeless := by
        rw [readable_zipIdx]
        exact timeless
      log := by
        rw [readable_zipIdx]
        exact built.trans page.2
      unread := unread_zipIdx _ }
  · rw [if_neg compacts]
    refine { h with page, unread := ?_ }
    split_ifs with empty
    · rw [List.isEmpty_iff.mp empty]
      nofun
    · exact unread_maxSeq _

/-- Both stores execute a mutation alike, and what comes of it is kept. -/
theorem mutate (h : s.Agrees codec) (now : env.now = s.clock) {m : LocalMutation}
    (lasting : m.Lasting codec env (s.original.live env.now)) :
    ({ s with
      original := (execute codec env m.command s.original).2
      cache := s.cache.mutate codec env m } : Persisted).Agrees codec := by
  have direct : readsKeyspace m.command = false := by cases m <;> rfl
  have write : isWriteCommand m.command = true := by cases m <;> rfl
  obtain ⟨-, original⟩ := execute_uncapped codec env m.command h.uncapped direct
  obtain ⟨reply, page⟩ := execute_uncapped codec env m.command h.page.1 direct
  have still := (executeReporting_uncapped codec env m.command h.uncapped).uncapped
  have pageStill := (executeReporting_uncapped codec env m.command h.page.1).uncapped
  rw [now] at original page lasting reply
  rw [h.page.2] at page reply
  have live k : Lapse.settle env.now (s.original.live s.clock k) = s.original.live s.clock k :=
    (h.lasts k).settle env.now
  -- what is left is the same at any time and made of accepted keys with local values
  have leaves : (∀ k, Lapse.Lasts ((perform codec env m.command (s.original.live s.clock)).2 k)) ∧
      ∀ k, LocalCell k ((perform codec env m.command (s.original.live s.clock)).2 k) := by
    rcases lasting with ⟨noDeadline, valid, -, -⟩ | ⟨-, nothing⟩
    · obtain ⟨same, lasts⟩ := (m.timeless codec noDeadline).perform env h.lasts
      exact ⟨same ▸ lasts, m.localCell valid live h.held⟩
    · rw [nothing]
      exact ⟨h.lasts, h.held⟩
  have stores (rows : List (ℕ × Bytes)) (seq : ℕ) (timeless : ∀ cmd ∈ readable rows, Timeless codec cmd)
      (log : replayAll codec (readable rows) (fun _ => none) =
        (perform codec env m.command (s.original.live s.clock)).2) (unread : Unread seq rows) :
      ({ s with
        original := (execute codec env m.command s.original).2
        cache := ⟨(execute codec env m.command s.cache.store).2, rows, seq⟩ } : Persisted).Agrees codec :=
    { uncapped := still
      lasts := fun k => original ▸ leaves.1 k
      held := fun k => original ▸ leaves.2 k
      page := ⟨pageStill, page.trans original.symm⟩
      timeless
      log := log.trans original.symm
      unread }
  unfold RecachedCache.mutate
  dsimp only
  cases stops : m.stopsOnError && (execute codec env m.command s.cache.store).1.isError with
  | true =>
    rw [if_pos rfl]
    refine stores s.cache.wal s.cache.seq h.timeless (h.log.trans ?_) h.unread
    rcases lasting with ⟨-, -, -, clean⟩ | ⟨-, nothing⟩
    · rw [reply, Bool.and_eq_true] at stops
      exact (refused_unchanged live write clean stops.2).symm
    · exact nothing.symm
  | false =>
    rw [if_neg (by decide)]
    have rows := readable_idbAppend h.unread (toRespBytes m.parts)
    refine stores _ _ ?_ ?_ (unread_idbAppend h.unread _)
    all_goals
      rw [rows]
      rcases lasting with ⟨noDeadline, valid, fits, -⟩ | ⟨refused, nothing⟩
    · rw [m.commandOf_parts noDeadline valid fits]
      exact List.forall_mem_append.mpr
        ⟨h.timeless, List.forall_mem_singleton.mpr (m.timeless codec noDeadline)⟩
    · rw [refused]
      simpa using h.timeless
    · rw [m.commandOf_parts noDeadline valid fits, replayAll_append, h.log]
      exact ((m.timeless codec noDeadline).perform env h.lasts).1.symm
    · rw [refused, nothing]
      simpa using h.log

theorem step (h : s.Agrees codec) {a : PageStep} {s' : Persisted} (lasting : a.Lasting codec s)
    (next : s.step codec a = some s') : s'.Agrees codec := by
  unfold Persisted.step at next
  split_ifs at next with later
  obtain rfl := Option.some.inj next
  have waited := h.wait later
  cases a with
  | mutate env m => exact waited.mutate rfl lasting
  | reload env listing threshold => exact waited.reload rfl listing lasting

end Persisted.Agrees

end

/-- In a run in which every mutation lasts and every compaction writes rows that are read back, the log
gives at every later time the live view of the session that was never reloaded. -/
theorem restores_of_lasting (codec : Codec) {steps : List PageStep} {s : Persisted}
    (run : Runs.exec (Persisted.step codec) {} steps = some s)
    (lasting : Runs.Each (Persisted.step codec) (fun s a => a.Lasting codec s) {} steps) :
    s.Restores codec :=
  (Runs.invariant (fun _ _ _ agrees lasting next => agrees.step lasting next) run lasting
    (Persisted.Agrees.initial codec)).restores

def Listing.asStored : Listing := ⟨id, fun _ => .refl _⟩

/-- A counter that is set, compacted and incremented. -/
theorem restores_of_lasting_counter :
    let steps : List PageStep := [.mutate (.fixed 0) (.set "n" "5"), .reload (.fixed 0) .asStored 0,
      .mutate (.fixed 20) (.incrBy "n" 1)]
    ∃ s, Runs.exec (Persisted.step .literals) {} steps = some s ∧ s.Restores .literals := by
  intro steps
  refine ⟨_, rfl, @restores_of_lasting .literals steps _ rfl ⟨.inl ⟨rfl, by decide, by decide, trivial⟩, ?_⟩⟩
  rintro _ ⟨⟩
  refine ⟨fun _ k c there => ?_, ?_⟩
  · have live := (execute_set (s := {}) ⟨rfl, rfl⟩ .literals (.fixed 0) "n" (asBytes "5")).2
    have there : (execute .literals (.fixed 0) (.set "n" (asBytes "5") {}) {}).2.live (Env.fixed 0).now k =
        some c := there
    rw [live, live_empty] at there
    by_cases same : k = "n"
    · subst same
      rw [Function.update_self] at there
      obtain rfl := Option.some.inj there
      show Fits _
      decide
    · rw [Function.update_of_ne same] at there
      cases there
  · rintro _ ⟨⟩
    exact ⟨.inl ⟨rfl, by decide, by decide, LocalMutation.inI64 1⟩, fun _ _ => trivial⟩

/-- A lifetime of 60 seconds starts again when the page is loaded after 10 of them. -/
theorem lifetime_restarts :
    let steps : List PageStep :=
      [.mutate (.fixed 0) (.setEx "k" "v" 60), .reload (.fixed 10000) .asStored walCompactThreshold]
    ∃ s, Runs.exec (Persisted.step .literals) {} steps = some s ∧ ¬s.Restores .literals := by
  refine ⟨_, rfl, fun restores => ?_⟩
  have gone := congrArg Option.isSome (congrFun (restores (.fixed 65000) (by decide)) "k")
  revert gone
  decide

end Recached
