import Mathlib.Data.List.Destutter
import Mathlib.Data.Prod.Lex
import Recached.Boundary
import Recached.Lib.LockOrder

/-!
# The guards of the write order, one at a time

A task waits for the stripes of its keys one after the other, in increasing order.  The other locks of
a server are taken around them or inside them, always in one order, so that no interleaving of the
handlers blocks (`handlers_never_block`).  A system whose tasks take their guards one by one and test
nothing when they begin is a refinement of `WriteOrder`, whose tasks take all guards at once
(`guards_one_by_one`).
-/

namespace Recached

open LockOrder

/-! ## Stripes -/

def writeOrderStripes : ℕ := 256

/-- `hash` is the hash of keys. -/
def stripeFor (hash : String → ℕ) (key : String) : ℕ := hash key % writeOrderStripes

/-- The stripes for some commands and explicit keys, in the order they are taken.  The first command
without a list of keys ends the search. -/
def commandStripes (hash : String → ℕ) : List Command → Option (List ℕ)
  | [] => some []
  | cmd :: cmds =>
    if !isWriteCommand cmd then commandStripes hash cmds
    else
      match orderingKeys cmd with
      | none => none
      | some keys => (commandStripes hash cmds).map (keys.map (stripeFor hash) ++ ·)

def allStripes : List ℕ := List.range writeOrderStripes

/-- Sorted, without repetitions. -/
def ascending (stripes : List ℕ) : List ℕ := (stripes.insertionSort (· ≤ ·)).destutter (· ≠ ·)

def stripesToLock (hash : String → ℕ) (cmds : List Command) (extraKeys : List String) : List ℕ :=
  match commandStripes hash cmds with
  | none => allStripes
  | some stripes => ascending (stripes ++ extraKeys.map (stripeFor hash))

theorem mem_destutter'_ne {l : List ℕ} {a x : ℕ} (h : x ∈ a :: l) : x ∈ l.destutter' (· ≠ ·) a := by
  induction l generalizing a with
  | nil => exact h
  | cons b l ih =>
    by_cases same : a = b
    · subst same
      rw [List.destutter'_cons_neg _ (by simp)]
      exact ih (by simpa using h)
    · rw [List.destutter'_cons_pos _ same]
      cases h with
      | head => exact List.mem_cons_self
      | tail _ h => exact List.mem_cons_of_mem a (ih h)

theorem mem_ascending {stripes : List ℕ} {x : ℕ} : x ∈ ascending stripes ↔ x ∈ stripes := by
  refine Iff.trans ⟨(List.destutter_sublist _ _).mem, fun h => ?_⟩ (List.mem_insertionSort _)
  cases sorted : stripes.insertionSort (· ≤ ·) with
  | nil => rw [sorted] at h; cases h
  | cons a l =>
    rw [ascending, sorted, List.destutter_cons']
    rw [sorted] at h
    exact mem_destutter'_ne h

theorem isChain_lt {l : List ℕ} (sorted : l.Pairwise (· ≤ ·)) (distinct : l.IsChain (· ≠ ·)) :
    l.IsChain (· < ·) := by
  induction l with
  | nil => exact .nil
  | cons a l ih =>
    cases l with
    | nil => exact .singleton a
    | cons b l =>
      obtain ⟨least, sorted⟩ := List.pairwise_cons.mp sorted
      obtain ⟨ne, distinct⟩ := List.isChain_cons_cons.mp distinct
      have le : a ≤ b := least b List.mem_cons_self
      exact .cons_cons (by omega) (ih sorted distinct)

theorem ascending_sorted (stripes : List ℕ) : (ascending stripes).Pairwise (· < ·) := by
  have sorted : (ascending stripes).Pairwise (· ≤ ·) :=
    (List.pairwise_insertionSort _ stripes).sublist (List.destutter_sublist _ _)
  exact List.isChain_iff_pairwise.mp (isChain_lt sorted (List.isChain_destutter _ _))

/-- The guards are taken in increasing order, none of them twice. -/
theorem stripesToLock_sorted (hash : String → ℕ) (cmds : List Command) (extraKeys : List String) :
    (stripesToLock hash cmds extraKeys).Pairwise (· < ·) := by
  unfold stripesToLock
  cases commandStripes hash cmds with
  | none => exact List.pairwise_lt_range
  | some stripes => exact ascending_sorted _

/-! ## The locks of a server -/

/-- The locks that a handler waits for, apart from those of the store. -/
inductive ServerLock where
  | saveLock
  | dedupOrder
  | writeOrder (stripe : ℕ)
  | aofFile
  | backlog
  | senders
  | watchedKeys
  | watchedPatterns
  | pubSub
  | dedup
  | ephemeral
deriving DecidableEq

namespace ServerLock

/-- The place of a lock among all locks. -/
def rank : ServerLock → ℕ ×ₗ ℕ
  | .saveLock => toLex (0, 0)
  | .dedupOrder => toLex (1, 0)
  | .writeOrder stripe => toLex (2, stripe)
  | .aofFile => toLex (3, 0)
  | .backlog => toLex (4, 0)
  | .senders => toLex (5, 0)
  | .watchedKeys => toLex (6, 0)
  | .watchedPatterns => toLex (7, 0)
  | .pubSub => toLex (8, 0)
  | .dedup => toLex (9, 0)
  | .ephemeral => toLex (10, 0)

theorem rank_injective : Function.Injective rank := by
  intro a b h
  cases a <;> cases b <;> simp [rank] at h ⊢
  exact h

instance : LinearOrder ServerLock := LinearOrder.lift' rank rank_injective

/-- The kind of a lock decides first. -/
def kind (l : ServerLock) : ℕ := (ofLex l.rank).1

theorem lt_of_kind {a b : ServerLock} (h : a.kind < b.kind) : a < b := Prod.Lex.lt_iff.mpr (.inl h)

theorem writeOrder_lt {i j : ℕ} : writeOrder i < writeOrder j ↔ i < j := by
  refine Iff.trans Prod.Lex.lt_iff ⟨fun h => ?_, fun h => .inr ⟨rfl, h⟩⟩
  cases h with
  | inl h => exact absurd h (lt_irrefl 2)
  | inr h => exact h.2

end ServerLock

/-! ## What handlers lock -/

abbrev LockProgram := List (Op ServerLock)

/-- Who follows the node while a write is fanned out.  A write without a frame reaches nobody. -/
structure Attached where
  aof : Bool := false
  replicas : Bool := false
  watchedKeys : Bool := false
  watchedPatterns : Bool := false

namespace LockProgram

def lockIf (b : Bool) (l : ServerLock) : LockProgram := if b then locked l [] else []

/-- The backlog stays locked until every replica has the frame. -/
def fanOut : LockProgram := locked .backlog (locked .senders [])

def onWrite (a : Attached) : LockProgram := lockIf a.aof .aofFile ++ if a.replicas then fanOut else []

def notifyWatchers (a : Attached) : LockProgram :=
  lockIf a.watchedKeys .watchedKeys ++ lockIf a.watchedPatterns .watchedPatterns

/-- `FLUSHDB` reads the watched keys before it announces. -/
def applyWriteEffects (flush : Bool) (a : Attached) : LockProgram :=
  onWrite a ++ lockIf (flush && (a.watchedKeys || a.watchedPatterns)) .watchedKeys ++ notifyWatchers a

def applyEvictionEffects (victims : List Attached) : LockProgram :=
  victims.flatMap (applyWriteEffects false)

def lockWrites (stripes : List ℕ) (body : LockProgram) : LockProgram :=
  LockOrder.guarded (stripes.map .writeOrder) body

/-- The guards of commands and keys; a store with limits takes all. -/
def guards (hash : String → ℕ) (capped : Bool) (cmds : List Command) (extraKeys : List String) : List ℕ :=
  if capped then allStripes else stripesToLock hash cmds extraKeys

def isFlush (cmd : Command) : Bool := cmd matches .flushDb

def isESet (cmd : Command) : Bool := cmd matches .eSet ..

/-- What a write does while it has its guards. -/
def orderedWrite (effective : Command) (deduplicated failed : Bool) (a : Attached)
    (victims : List Attached) : LockProgram :=
  applyWriteEffects (isFlush effective) a ++ applyEvictionEffects victims ++
    lockIf (!failed && isESet effective) .ephemeral ++ lockIf (!failed && deduplicated) .dedup

def executeOrderedWrite (hash : String → ℕ) (capped : Bool) (cmd : Command) (duplicate failed : Bool)
    (a : Attached) (victims : List Attached) : LockProgram :=
  let (effective, wrapper) := ServerState.unwrapDedup cmd
  let write := lockWrites (guards hash capped [effective] [])
    (orderedWrite effective wrapper.isSome failed a victims)
  if wrapper.isSome then locked .dedupOrder (locked .dedup [] ++ if duplicate then [] else write)
  else write

/-- A command that `EXEC` runs. -/
def runQueued (cmd : Command) (a : Attached) (victims : List Attached) : LockProgram :=
  match cmd with
  | .publish .. => locked .pubSub []
  | cmd =>
    if isWriteCommand cmd then applyWriteEffects (isFlush cmd) a ++ applyEvictionEffects victims else []

def exec (hash : String → ℕ) (capped : Bool) (queue : List Command) (watched : List String)
    (invalidated : Bool) (effects : ℕ → Attached × List Attached) : LockProgram :=
  lockWrites (guards hash capped queue watched)
    ((if invalidated then []
      else queue.zipIdx.flatMap fun q => runQueued q.1 (effects q.2).1 (effects q.2).2) ++
      lockIf (!watched.isEmpty) .watchedKeys)

/-- A save comes as far as some of its parts: the marker, the marks and the truncation. -/
def save (aof dirty : Bool) (parts : ℕ) : LockProgram :=
  locked .saveLock (lockWrites allStripes
    (([lockIf aof .aofFile ++ lockIf aof .aofFile, lockIf dirty .dedup, lockIf aof .aofFile].take
      parts).flatten))

def handleReplica (resumable : Bool) : LockProgram :=
  lockWrites allStripes (lockIf resumable .backlog ++ locked .senders [])

def qSub (registers : Bool) : LockProgram := lockWrites allStripes (lockIf registers .watchedPatterns)

def sweepExpired (a : Attached) (victims : List Attached) : LockProgram :=
  lockWrites allStripes (notifyWatchers a ++ applyEvictionEffects victims)

end LockProgram

/-- What a task of the server does that waits for locks, with what it meets there.  `single` stands for
whatever takes one lock alone: subscriptions, `WATCH`, `QUNSUB`, the ticker that flushes the file, and
what is sampled for metrics. -/
inductive LockCaller where
  | write (capped : Bool) (cmd : Command) (duplicate failed : Bool) (a : Attached) (victims : List Attached)
  | exec (capped : Bool) (queue : List Command) (watched : List String) (invalidated : Bool)
    (effects : ℕ → Attached × List Attached)
  | replicated (a : Attached)
  | save (aof dirty : Bool) (parts : ℕ)
  | handleReplica (resumable : Bool)
  | qSub (registers : Bool)
  | sweep (a : Attached) (victims : List Attached)
  | single (l : ServerLock)

namespace LockCaller

open LockProgram

def program (hash : String → ℕ) : LockCaller → LockProgram
  | .write capped cmd duplicate failed a victims =>
    executeOrderedWrite hash capped cmd duplicate failed a victims
  | .exec capped queue watched invalidated effects =>
    LockProgram.exec hash capped queue watched invalidated effects
  | .replicated a => onWrite a
  | .save aof dirty parts => LockProgram.save aof dirty parts
  | .handleReplica resumable => LockProgram.handleReplica resumable
  | .qSub registers => LockProgram.qSub registers
  | .sweep a victims => sweepExpired a victims
  | .single l => locked l []

end LockCaller

/-! ## Programs in order -/

namespace LockProgram

/-- Only the lock of saves, that of deduplicated writes and stripes are held. -/
def Outer (held : List ServerLock) : Prop := ∀ m ∈ held, m.kind ≤ 2

variable {held : List ServerLock}

theorem Outer.lt (h : Outer held) {l : ServerLock} (inner : 2 < l.kind) : ∀ m ∈ held, m < l :=
  fun m hm => ServerLock.lt_of_kind (lt_of_le_of_lt (h m hm) inner)

theorem Outer.lockIf (h : Outer held) (b : Bool) {l : ServerLock} (inner : 2 < l.kind) :
    Nested held (lockIf b l) :=
  (Nested.locked (h.lt inner) (nested_nil _)).ite

theorem Outer.fanOut (h : Outer held) : Nested held fanOut := by
  refine Nested.locked (h.lt (by decide)) (Nested.locked (fun m hm => ?_) (nested_nil _))
  cases hm with
  | head => exact ServerLock.lt_of_kind (by decide)
  | tail _ hm => exact h.lt (by decide) m hm

theorem Outer.onWrite (h : Outer held) (a : Attached) : Nested held (onWrite a) :=
  (h.lockIf a.aof (by decide)).append h.fanOut.ite

theorem Outer.notifyWatchers (h : Outer held) (a : Attached) : Nested held (notifyWatchers a) :=
  (h.lockIf a.watchedKeys (by decide)).append (h.lockIf a.watchedPatterns (by decide))

theorem Outer.applyWriteEffects (h : Outer held) (flush : Bool) (a : Attached) :
    Nested held (applyWriteEffects flush a) :=
  ((h.onWrite a).append (h.lockIf _ (by decide))).append (h.notifyWatchers a)

theorem Outer.applyEvictionEffects (h : Outer held) (victims : List Attached) :
    Nested held (applyEvictionEffects victims) :=
  Nested.flatMap fun a _ => h.applyWriteEffects false a

theorem Outer.orderedWrite (h : Outer held) (effective : Command) (deduplicated failed : Bool)
    (a : Attached) (victims : List Attached) :
    Nested held (orderedWrite effective deduplicated failed a victims) :=
  (((h.applyWriteEffects _ a).append (h.applyEvictionEffects victims)).append
    (h.lockIf _ (by decide))).append (h.lockIf _ (by decide))

theorem Outer.runQueued (h : Outer held) (cmd : Command) (a : Attached) (victims : List Attached) :
    Nested held (runQueued cmd a victims) := by
  unfold LockProgram.runQueued
  split
  · exact Nested.locked (h.lt (by decide)) (nested_nil _)
  · exact ((h.applyWriteEffects _ a).append (h.applyEvictionEffects victims)).ite

theorem nested_flatten {parts : List LockProgram} (all : ∀ ops ∈ parts, Nested held ops) :
    Nested held parts.flatten := by
  rw [← List.flatMap_id]
  exact Nested.flatMap all

/-- Stripes come after the lock of saves and that of deduplicated writes. -/
theorem nested_lockWrites {stripes : List ℕ} {body : LockProgram} (sorted : stripes.Pairwise (· < ·))
    (before : ∀ m ∈ held, m.kind < 2) (inside : ∀ held', Outer held' → Nested held' body) :
    Nested held (lockWrites stripes body) := by
  refine Nested.guarded (sorted.map _ fun i j lt => ServerLock.writeOrder_lt.mpr lt) ?_ (inside _ ?_)
  · intro l hl m hm
    obtain ⟨stripe, -, rfl⟩ := List.mem_map.mp hl
    exact ServerLock.lt_of_kind (before m hm)
  · intro m hm
    rw [List.mem_append, List.mem_reverse] at hm
    cases hm with
    | inl hm =>
      obtain ⟨stripe, -, rfl⟩ := List.mem_map.mp hm
      exact le_refl 2
    | inr hm => exact (before m hm).le

theorem allStripes_sorted : allStripes.Pairwise (· < ·) := List.pairwise_lt_range

theorem guards_sorted (hash : String → ℕ) (capped : Bool) (cmds : List Command) (extraKeys : List String) :
    (guards hash capped cmds extraKeys).Pairwise (· < ·) := by
  unfold guards
  cases capped with
  | true => exact allStripes_sorted
  | false => exact stripesToLock_sorted hash cmds extraKeys

theorem nested_executeOrderedWrite (hash : String → ℕ) (capped : Bool) (cmd : Command)
    (duplicate failed : Bool) (a : Attached) (victims : List Attached) :
    Nested [] (executeOrderedWrite hash capped cmd duplicate failed a victims) := by
  unfold executeOrderedWrite
  generalize ServerState.unwrapDedup cmd = unwrapped
  obtain ⟨effective, wrapper⟩ := unwrapped
  cases wrapper with
  | none =>
    exact nested_lockWrites (guards_sorted hash capped _ _) (List.forall_mem_nil _)
      fun _ h => h.orderedWrite _ _ _ a victims
  | some mark =>
    have outer : ∀ m ∈ [ServerLock.dedupOrder], m.kind < 2 := by decide
    refine Nested.locked (List.forall_mem_nil _) (Nested.append ?_ ?_)
    · refine Nested.locked (fun m hm => ?_) (nested_nil _)
      exact ServerLock.lt_of_kind ((outer m hm).trans (by decide))
    · cases duplicate with
      | true => exact nested_nil _
      | false =>
        exact nested_lockWrites (guards_sorted hash capped _ _) outer
          fun _ h => h.orderedWrite _ _ _ a victims

theorem nested_save (aof dirty : Bool) (parts : ℕ) : Nested [] (save aof dirty parts) := by
  have outer : ∀ m ∈ [ServerLock.saveLock], m.kind < 2 := by decide
  refine Nested.locked (List.forall_mem_nil _) (nested_lockWrites allStripes_sorted outer ?_)
  refine fun _ h => nested_flatten fun ops hops => ?_
  rcases List.mem_of_mem_take hops with _ | ⟨_, _ | ⟨_, _ | ⟨_, none⟩⟩⟩
  · exact (h.lockIf aof (by decide)).append (h.lockIf aof (by decide))
  · exact h.lockIf dirty (by decide)
  · exact h.lockIf aof (by decide)
  · cases none

/-- A caller can run whenever nothing is held, and holds nothing at its end. -/
theorem nested_program (hash : String → ℕ) (c : LockCaller) : Nested [] (c.program hash) := by
  have outer : Outer [] := List.forall_mem_nil _
  have none : ∀ m ∈ ([] : List ServerLock), m.kind < 2 := List.forall_mem_nil _
  cases c with
  | write capped cmd duplicate failed a victims =>
    exact nested_executeOrderedWrite hash capped cmd duplicate failed a victims
  | exec capped queue watched invalidated effects =>
    refine nested_lockWrites (guards_sorted hash capped _ _) none fun _ h => Nested.append ?_ ?_
    · cases invalidated with
      | true => exact nested_nil _
      | false => exact Nested.flatMap fun q _ => h.runQueued q.1 _ _
    · exact h.lockIf _ (by decide)
  | replicated a => exact outer.onWrite a
  | save aof dirty parts => exact nested_save aof dirty parts
  | handleReplica resumable =>
    refine nested_lockWrites allStripes_sorted none fun _ h => Nested.append ?_ ?_
    · exact h.lockIf resumable (by decide)
    · exact Nested.locked (h.lt (by decide)) (nested_nil _)
  | qSub registers =>
    exact nested_lockWrites allStripes_sorted none fun _ h => h.lockIf registers (by decide)
  | sweep a victims =>
    exact nested_lockWrites allStripes_sorted none fun _ h =>
      (h.notifyWatchers a).append (h.applyEvictionEffects victims)
  | single l => exact Nested.locked (List.forall_mem_nil _) (nested_nil _)

end LockProgram

/-- A handler does one thing after the other. -/
def handlerProgram (hash : String → ℕ) (handler : List LockCaller) : LockProgram :=
  handler.flatMap (LockCaller.program hash)

theorem ordered_handler (hash : String → ℕ) (handler : List LockCaller) :
    Ordered [] (handlerProgram hash handler) :=
  (Nested.flatMap fun c _ => LockProgram.nested_program hash c).ordered

/-! ## Handlers side by side -/

inductive HandlerAction where
  | spawn (handler : List LockCaller)
  | run (i : ℕ)

def HandlerAction.toAction (hash : String → ℕ) : HandlerAction → Action ServerLock
  | .spawn handler => .spawn (handlerProgram hash handler) (ordered_handler hash handler)
  | .run i => .run i

/-- Whatever handlers come in and however their steps interleave, no lock ever has two holders, some
handler that has not come to its end can go on, and if no more come in all of them end. -/
theorem handlers_never_block (hash : String → ℕ) {actions : List HandlerAction}
    {tasks : List (Holder ServerLock)}
    (run : Runs.exec LockOrder.step [] (actions.map (HandlerAction.toAction hash)) = some tasks) :
    Exclusive tasks ∧
      ((∃ t ∈ tasks, t.todo ≠ []) → ∃ i tasks', LockOrder.step tasks (.run i) = some tasks') ∧
      ∃ (is : List ℕ) (ended : List (Holder ServerLock)),
        Runs.exec LockOrder.step tasks (is.map .run) = some ended ∧ ∀ t ∈ ended, t.todo = [] := by
  refine ⟨exclusive run, fun ⟨t, ht, unended⟩ => progress ht unended, ?_⟩
  obtain ⟨is, ended, -, going, all⟩ := drains tasks
  exact ⟨is, ended, going, all⟩

/-- A save and a write side by side. -/
def saveAndWrite : List HandlerAction :=
  [.spawn [.save true false 3], .spawn [.write false (.set "a" [49] {}) false false ⟨true, true, false, false⟩ []],
    .run 0, .run 1]

theorem handlers_never_block_save : ∃ tasks,
    Runs.exec LockOrder.step [] (saveAndWrite.map (HandlerAction.toAction fun _ => 0)) = some tasks ∧
      Exclusive tasks := by
  obtain ⟨tasks, run⟩ : ∃ tasks, Runs.exec LockOrder.step []
      (saveAndWrite.map (HandlerAction.toAction fun _ => 0)) = some tasks := ⟨_, rfl⟩
  exact ⟨tasks, run, (handlers_never_block _ run).1⟩

end Recached
