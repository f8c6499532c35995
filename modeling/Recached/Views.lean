import Recached.Scopes

/-!
# Commands on views

Without limits a command does exactly what its program means on the live cells: `perform` is that
meaning, and `execute_uncapped` says that the store refines it.  `program_on` says that a command
stays on the keys its scope lists.
-/

namespace Recached

open Lapse

/-- What a command means on the live cells of a store. -/
def perform (codec : Codec) (env : Env) (cmd : Command) (v : View) : Value × View :=
  (program codec env cmd).eval env.now v

/-- Whether a command reads the keyspace itself instead of the keys it names. -/
def readsKeyspace : Command → Bool
  | .keys _ | .scan _ _ _ | .dbSize => true
  | _ => false

/-- A codec that knows the three literals. -/
def Codec.literals : Codec where
  fromStr s :=
    if s = "null" then .ok .null
    else if s = "true" then .ok (.bool true)
    else if s = "false" then .ok (.bool false)
    else .error "expected value"
  toStr
    | .bool true => "true"
    | .bool false => "false"
    | _ => "null"

/-- An environment whose random choices are all the first one. -/
def Env.fixed (now : ℕ) : Env := ⟨now, fun _ => 0, fun _ => []⟩

/-! ## Stores without limits -/

namespace KeyValueStore

def Uncapped (s : KeyValueStore) : Prop := s.maxKeys = none ∧ s.maxMemoryBytes = none

theorem uncapped_iff (s : KeyValueStore) : s.Uncapped ↔ s.hasCapacityLimits = false := by
  simp [Uncapped, hasCapacityLimits]

theorem Uncapped.adjustMemory {s : KeyValueStore} (h : s.Uncapped) (before after : ℕ) :
    (s.adjustMemory before after).Uncapped := by
  unfold KeyValueStore.adjustMemory
  split <;> exact h

@[simp] theorem adjustMemory_data (s : KeyValueStore) (before after : ℕ) :
    (s.adjustMemory before after).data = s.data := by
  unfold KeyValueStore.adjustMemory
  split <;> rfl

theorem Uncapped.syncKeys (keys : List String) {s : KeyValueStore} (h : s.Uncapped) :
    (keys.foldl .syncKeyMetadata s).Uncapped := by
  induction keys generalizing s with
  | nil => exact h
  | cons key keys ih => exact ih (s := s.syncKeyMetadata key) h

@[simp] theorem syncKeys_data (keys : List String) (s : KeyValueStore) :
    (keys.foldl .syncKeyMetadata s).data = s.data := by
  induction keys generalizing s with
  | nil => rfl
  | cons key keys ih => exact ih (s.syncKeyMetadata key)

/-- Without a memory cap nothing is evicted for memory. -/
theorem Uncapped.tryEvict {s : KeyValueStore} (h : s.Uncapped) (env : Env) (evicted : List String) :
    s.tryEvictForMemory env evicted = (true, s, evicted) := by
  unfold tryEvictForMemory
  rw [h.2]

end KeyValueStore

open KeyValueStore

theorem makeRoom_uncapped {s : KeyValueStore} (h : s.Uncapped) (env : Env) (cmd : Command) :
    makeRoom env cmd s = (true, s, []) := by
  unfold makeRoom
  rw [h.1]

/-- What `executeInner` does on a store without limits. -/
structure RunsProgram (codec : Codec) (env : Env) (cmd : Command) (s : KeyValueStore)
    (result : Value × KeyValueStore × List String) : Prop where
  reply : readsKeyspace cmd = false → result.1 = ((program codec env cmd).run env.now s.data).1
  data : result.2.1.data = ((program codec env cmd).run env.now s.data).2
  evicted : result.2.2 = []
  uncapped : result.2.1.Uncapped

theorem executeInner_uncapped (codec : Codec) (env : Env) (cmd : Command) {s : KeyValueStore}
    (h : s.Uncapped) : RunsProgram codec env cmd s (executeInner codec env cmd s) := by
  unfold executeInner
  split
  · exact ⟨by rintro ⟨⟩, rfl, rfl, h⟩
  · refine ⟨by rintro ⟨⟩, ?_, rfl, ?_⟩ <;> unfold scanKeys <;> dsimp only <;> split_ifs <;>
      first | rfl | exact h
  · exact ⟨by rintro ⟨⟩, rfl, rfl, h⟩
  · rw [makeRoom_uncapped h]
    exact ⟨fun _ => rfl, rfl, rfl, h⟩

theorem executeReporting_uncapped (codec : Codec) (env : Env) (cmd : Command) {s : KeyValueStore}
    (h : s.Uncapped) : RunsProgram codec env cmd s (executeReporting codec env cmd s) := by
  have inner := executeInner_uncapped codec env cmd h
  unfold executeReporting
  split
  · exact inner
  · have rebuilt : ((executeInner codec env cmd s).2.1.rebuildMetadata env.now).Uncapped :=
      inner.uncapped
    simp only [rebuilt.tryEvict]
    exact ⟨inner.reply, inner.data, inner.evicted, rebuilt⟩
  · dsimp only
    generalize executeInner codec env cmd s = result at inner
    obtain ⟨reply, s', evicted⟩ := result
    dsimp only
    rw [((inner.uncapped.adjustMemory _ _).syncKeys _).tryEvict]
    refine ⟨inner.reply, ?_, inner.evicted, (inner.uncapped.adjustMemory _ _).syncKeys _⟩
    simpa using inner.data

/-- A store without limits does what the command means on its live cells. -/
theorem execute_uncapped (codec : Codec) (env : Env) (cmd : Command) {s : KeyValueStore}
    (h : s.Uncapped) (direct : readsKeyspace cmd = false) :
    (execute codec env cmd s).1 = (perform codec env cmd (s.live env.now)).1 ∧
      (execute codec env cmd s).2.live env.now = (perform codec env cmd (s.live env.now)).2 := by
  have runs := executeReporting_uncapped codec env cmd h
  refine ⟨(runs.reply direct).trans (Prog.run_fst ..), ?_⟩
  change Lapse.live env.now (executeReporting codec env cmd s).2.1.data = _
  rw [runs.data]
  exact live_run ..

/-! ## Replies -/

/-- Limits only ever replace a reply by an error. -/
theorem executeInner_reply (codec : Codec) (env : Env) {cmd : Command} (s : KeyValueStore)
    (direct : readsKeyspace cmd = false) :
    (executeInner codec env cmd s).1.isError = true ∨
      ∃ d : Data, (executeInner codec env cmd s).1 = ((program codec env cmd).run env.now d).1 := by
  unfold executeInner
  split
  case h_1 | h_2 | h_3 => cases direct
  split
  · exact .inl rfl
  · exact .inr ⟨_, rfl⟩

theorem executeReporting_reply (codec : Codec) (env : Env) {cmd : Command} {s : KeyValueStore}
    (direct : readsKeyspace cmd = false) (ok : (executeReporting codec env cmd s).1.isError = false) :
    ∃ d : Data, (executeReporting codec env cmd s).1 = ((program codec env cmd).run env.now d).1 := by
  have inner := executeInner_reply codec env s direct
  revert ok
  unfold executeReporting
  split
  · exact fun ok => inner.resolve_left (by simp [ok])
  · exact fun ok => inner.resolve_left (by simpa using ok)
  · dsimp only
    split_ifs
    · rintro ⟨⟩
    · exact fun ok => inner.resolve_left (by simpa using ok)

/-! ## The keys of a command -/

theorem delKeys_on (keys : List String) (n : ℕ) : (delKeys keys n).On {k | k ∈ keys} := by
  induction keys generalizing n with
  | nil => trivial
  | cons key keys ih =>
    exact ⟨List.mem_cons_self, fun l => (ih _).mono fun _ => List.mem_cons_of_mem key⟩

theorem existKeys_on (keys : List String) (n : ℕ) : (existKeys keys n).On {k | k ∈ keys} := by
  induction keys generalizing n with
  | nil => trivial
  | cons key keys ih =>
    exact ⟨List.mem_cons_self, fun l => (ih _).mono fun _ => List.mem_cons_of_mem key⟩

theorem mGetKeys_on (keys : List String) : (mGetKeys keys).On {k | k ∈ keys} := by
  induction keys with
  | nil => trivial
  | cons key keys ih =>
    refine ⟨List.mem_cons_self, fun l => Prog.On.bind ?_ fun _ => trivial⟩
    exact ih.mono fun _ => List.mem_cons_of_mem key

theorem mSetPairs_on (pairs : List (String × Bytes)) :
    (mSetPairs pairs).On {k | k ∈ pairs.map Prod.fst} := by
  induction pairs with
  | nil => trivial
  | cons pair pairs ih =>
    exact ⟨List.mem_cons_self, fun _ => ih.mono fun _ => List.mem_cons_of_mem pair.1⟩

theorem readSets_on (keys : List String) : (readSets keys).On {k | k ∈ keys} := by
  induction keys with
  | nil => trivial
  | cons key keys ih =>
    have rest : (readSets keys).On {k | k ∈ key :: keys} :=
      ih.mono fun _ => List.mem_cons_of_mem key
    refine ⟨List.mem_cons_self, fun l => ?_⟩
    cases l with
    | none => exact rest.bind fun _ => trivial
    | some c =>
      dsimp only
      split
      · exact rest.bind fun _ => trivial
      · trivial

theorem combine_on (keys : List String) (f : List (Option MemberSet) → MemberSet) :
    (combine keys f).On {k | k ∈ keys} := by
  refine (readSets_on keys).bind fun sets => ?_
  cases sets <;> trivial

theorem combineStore_on (dst : String) (keys : List String)
    (f : List (Option MemberSet) → MemberSet) :
    (combineStore dst keys f).On {k | k ∈ keys ++ [dst]} := by
  have sources : (readSets keys).On {k | k ∈ keys ++ [dst]} :=
    (readSets_on keys).mono fun _ => List.mem_append_left [dst]
  refine sources.bind fun sets => ?_
  cases sets with
  | error e => trivial
  | ok sets => exact Prog.On.one (by simp) _

theorem sMove_on (src dst member : String) : (sMove src dst member).On {k | k ∈ [src, dst]} := by
  refine ⟨by simp, fun s => ⟨by simp, fun d => ?_⟩⟩
  dsimp only
  split_ifs
  · trivial
  · refine ⟨by simp, fun l => ?_⟩
    dsimp only
    split_ifs
    · exact Prog.On.one (by simp) _
    · trivial

/-- The keys a scope lists. -/
def CommandScope.listed : CommandScope → List String
  | .keys ks => ks
  | .keyLess | .admin => []

/-- A command accesses no key that its scope does not list. -/
theorem program_on (codec : Codec) (env : Env) {cmd : Command} (h : cmd ≠ .flushDb) :
    (program codec env cmd).On {k | k ∈ (commandScope cmd).listed} := by
  cases cmd
  case flushDb => exact absurd rfl h
  case ping msg => cases msg <;> trivial
  case decrBy key delta =>
    simp only [program]
    split_ifs
    · trivial
    · exact Prog.On.one (by simp [commandScope, CommandScope.listed]) _
  case del keys => exact (delKeys_on keys 0).bind fun _ => trivial
  case unlink keys => exact (delKeys_on keys 0).bind fun _ => trivial
  case «exists» keys => exact (existKeys_on keys 0).bind fun _ => trivial
  case mGet keys => exact (mGetKeys_on keys).bind fun _ => trivial
  case mSet pairs => exact mSetPairs_on pairs
  case sInter keys => exact combine_on keys _
  case sUnion keys => exact combine_on keys _
  case sDiff keys => exact combine_on keys _
  case sInterStore dst keys => exact combineStore_on dst keys _
  case sUnionStore dst keys => exact combineStore_on dst keys _
  case sDiffStore dst keys => exact combineStore_on dst keys _
  case sMove src dst member => exact sMove_on src dst member
  case rename src dst =>
    exact ⟨by simp [commandScope, CommandScope.listed], by simp [commandScope, CommandScope.listed],
      fun _ => trivial⟩
  -- the other commands access one key or none
  all_goals first | trivial | exact ⟨List.mem_singleton.mpr rfl, fun _ => trivial⟩

end Recached
