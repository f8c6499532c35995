import Recached.Attempts
import Recached.Capacity
import Recached.Lib.Runs
import Recached.Lib.Traces

/-!
# The write order

Writes of different keys run side by side: a task takes the guards of the keys it names, executes,
enters its frames into the append-only file and the replication log, and only then lets the guards
go.  A save and a full synchronisation take all guards, note how many frames a log has and read the
store.  Frames of a primary are executed and entered without guards.

Appends succeed here, and the frames made while a log is off count as its first ones.
-/

namespace Recached

open Lapse

/-! ## Guards -/

/-- The stripes of the write order that a task takes; `none` stands for all of them. -/
abbrev Guards := Option (List ℕ)

/-- The guards have a stripe in common. -/
def Guards.clash : Guards → Guards → Bool
  | none, none => true
  | none, some stripes | some stripes, none => !stripes.isEmpty
  | some stripes, some stripes' => stripes.any fun stripe => stripes'.contains stripe

/-- The guards for some commands and explicit keys. -/
def lockCommandsAndKeys (stripeFor : String → ℕ) (commands : List Command) (extra : List String) :
    Guards :=
  let keys := (commands.filter isWriteCommand).map orderingKeys
  if keys.any Option.isNone then none
  else some ((keys.flatMap (fun ks => ks.getD []) ++ extra).map stripeFor)

/-! ## Tasks -/

inductive BoundaryLog where
  | file
  | replication
deriving DecidableEq

/-- A frame with the write that made it and what that write observed. -/
structure Emission where
  env : Env
  cmd : Command
  bytes : Bytes

inductive OrderedStep where
  | execute (cmd : Command)
  | replicate (bytes : Bytes)
  | sweep (keys : List String)
  | enter (log : BoundaryLog) (e : Emission)
  | label (log : BoundaryLog)
  | capture (log : BoundaryLog) (boundary : ℕ)

/-- A task takes its guards when it starts and holds them until it has no step left. -/
structure OrderedTask where
  guards : Guards
  started : Bool := false
  steps : List OrderedStep

def OrderedTask.holds (task : OrderedTask) : Bool := task.started && !task.steps.isEmpty

/-- How a task begins. -/
inductive OrderedRoute where
  | client (cmd : Command)
  | transaction (queue : List Command) (watched : List String)
  | replicated (bytes : Bytes)
  | sweep (keys : List String)
  | capture (log : BoundaryLog)

def OrderedRoute.task (stripeFor : String → ℕ) (store : KeyValueStore) : OrderedRoute → OrderedTask
  | .client cmd =>
    let effective := (ServerState.unwrapDedup cmd).1
    { guards := if store.hasCapacityLimits then none else lockCommandsAndKeys stripeFor [effective] []
      steps := ([effective].filter isWriteCommand).map .execute }
  | .transaction queue watched =>
    { guards := if store.hasCapacityLimits then none else lockCommandsAndKeys stripeFor queue watched
      steps := (queue.filter isWriteCommand).map .execute }
  | .replicated bytes => { guards := some [], steps := [.replicate bytes] }
  | .sweep keys => { guards := none, steps := [.sweep keys] }
  | .capture log => { guards := none, steps := [.label log] }

/-! ## The node -/

/-- What a save or a full synchronisation read, and how many frames the log had then.  `executed`
records the frames of all writes executed before. -/
structure Capture where
  log : BoundaryLog
  boundary : ℕ
  now : ℕ
  store : KeyValueStore
  executed : List Emission

/-- A node with its logs and the tasks under way.  `executed` records the frames of the writes in the
order of their execution. -/
structure WriteOrder where
  store : KeyValueStore
  clock : ℕ := 0
  tasks : List OrderedTask := []
  entered : BoundaryLog → List Emission := fun _ => []
  executed : List Emission := []
  captures : List Capture := []

def KeyValueStore.removeExpired (now : ℕ) (keys : List String) (s : KeyValueStore) : KeyValueStore :=
  keys.foldl (fun s key =>
    let s := match s.data[key]? with
      | some e =>
        if e.isExpired now then
          { s with data := s.data.erase key }.adjustMemory (entrySize key e.value) 0
        else s
      | none => s
    s.syncKeyMetadata key) s

theorem getElem?_removeExpired_one (now : ℕ) (key k : String) (s : KeyValueStore) :
    (s.removeExpired now [key]).data[k]? =
      if k = key ∧ ((s.data[key]?).any fun e => e.isExpired now) = true then none else s.data[k]? := by
  simp only [KeyValueStore.removeExpired, List.foldl_cons, List.foldl_nil, KeyValueStore.syncKeyMetadata]
  cases found : s.data[key]? with
  | none => simp
  | some e =>
    cases lapsed : e.isExpired now with
    | false => simp [lapsed]
    | true =>
      by_cases same : k = key
      · subst same
        simp [lapsed]
      · simp [lapsed, same, Std.ExtTreeMap.getElem?_erase, Ne.symm same]

/-- The sweeper takes out the lapsed entries of the keys and leaves the others. -/
theorem getElem?_removeExpired_iff (now : ℕ) (keys : List String) (s : KeyValueStore) (k : String) :
    (s.removeExpired now keys).data[k]? =
      if k ∈ keys ∧ ((s.data[k]?).any fun e => e.isExpired now) = true then none else s.data[k]? := by
  induction keys generalizing s with
  | nil => simp [KeyValueStore.removeExpired]
  | cons key keys ih =>
    have split : s.removeExpired now (key :: keys) =
        (s.removeExpired now [key]).removeExpired now keys := rfl
    rw [split, ih, getElem?_removeExpired_one]
    by_cases same : k = key
    · subst same
      by_cases lapsed : ((s.data[k]?).any fun e => e.isExpired now) = true <;> simp [lapsed]
    · simp [same]

/-- The frames that a write and its evictions make. -/
def emissions (env : Env) (cmd : Command) (response : Value) (evicted : List String) : List Emission :=
  (broadcastFor cmd response env.now).toList.map (⟨env, cmd, ·⟩) ++
    evicted.flatMap fun key =>
      (broadcastFor (.del [key]) (.integer 1) env.now).toList.map (⟨env, .del [key], ·⟩)

/-- What a step does to the store, and the frames it makes. -/
def OrderedStep.outcome (codec : Codec) (env : Env) (store : KeyValueStore) :
    OrderedStep → KeyValueStore × List Emission
  | .execute cmd =>
    let (response, store, evicted) := executeReporting codec env cmd store
    (store, emissions env cmd response evicted)
  | .replicate bytes =>
    match decodeFrame bytes with
    | none => (store, [])
    | some cmd =>
      match Recached.execute codec env cmd store with
      | (.error _, store) => (store, [])
      | (_, store) => (store, [⟨env, cmd, bytes⟩])
  | .sweep keys =>
    let (_, store, evicted) := (store.removeExpired env.now keys).tryEvictForMemory env []
    (store, evicted.flatMap fun key =>
      (broadcastFor (.del [key]) (.integer 1) env.now).toList.map (⟨env, .del [key], ·⟩))
  | _ => (store, [])

/-- A frame goes into the file first. -/
def Emission.enters (e : Emission) : List OrderedStep := [.enter .file e, .enter .replication e]

namespace WriteOrder

/-- Carry out a step of a task: the new state and what the task does next. -/
def perform (codec : Codec) (env : Env) (s : WriteOrder) (rest : List OrderedStep) (step : OrderedStep) :
    WriteOrder × List OrderedStep :=
  match step with
  | .enter log e =>
    ({ s with entered := Function.update s.entered log (s.entered log ++ [e]) }, rest)
  | .label log => (s, .capture log (s.entered log).length :: rest)
  | .capture log boundary =>
    ({ s with captures := s.captures ++ [⟨log, boundary, env.now, s.store, s.executed⟩] }, rest)
  | step =>
    let (store, made) := step.outcome codec env s.store
    ({ s with store, executed := s.executed ++ made }, made.flatMap Emission.enters ++ rest)

end WriteOrder

inductive OrderedAction where
  | spawn (route : OrderedRoute)
  | run (i : ℕ) (env : Env)

/-- The clock never goes back. -/
def WriteOrder.step (codec : Codec) (stripeFor : String → ℕ) (s : WriteOrder) :
    OrderedAction → Option WriteOrder
  | .spawn route => some { s with tasks := s.tasks ++ [route.task stripeFor s.store] }
  | .run i env =>
    if env.now < s.clock then none
    else
      match s.tasks[i]? with
      | none => none
      | some task =>
        if task.started then
          match task.steps with
          | [] => none
          | first :: rest =>
            let (s', steps) := s.perform codec env rest first
            some { s' with clock := env.now, tasks := s'.tasks.set i { task with steps } }
        else if s.tasks.any fun t => t.holds && t.guards.clash task.guards then none
        else some { s with clock := env.now, tasks := s.tasks.set i { task with started := true } }

/-! ## What a boundary is for -/

/-- The keys that a command reads or writes; `none` stands for all keys. -/
def touchedKeys : Command → Option (List String)
  | .flushDb => none
  | cmd => some (commandScope cmd).listed

/-- The writes behind two frames touch no common key.  With limits any write may evict any key. -/
def Apart (capped : Bool) (e e' : Emission) : Prop :=
  capped = false ∧ ∃ ks ks', touchedKeys e.cmd = some ks ∧ touchedKeys e'.cmd = some ks' ∧
    ks.Disjoint ks'

/-- What the write behind a frame does to stored entries. -/
def Emission.apply (codec : Codec) (d : Data) (e : Emission) : Data :=
  ((program codec e.env e.cmd).run e.env.now d).2

/-- The frame that a step enters into a log. -/
def OrderedStep.entering (log : BoundaryLog) : OrderedStep → Option Emission
  | .enter log' e => if log' = log then some e else none
  | _ => none

namespace OrderedTask

/-- The frames that the task has made and not entered yet. -/
def underWay (log : BoundaryLog) (task : OrderedTask) : List Emission :=
  task.steps.filterMap (OrderedStep.entering log)

/-- The task has noted the end of a log and not read the store yet. -/
def Labelled (task : OrderedTask) : Prop := ∃ log boundary, .capture log boundary ∈ task.steps

/-- One of two tasks has no guards. -/
def Unguarded (task task' : OrderedTask) : Prop := task.guards = some [] ∨ task'.guards = some []

end OrderedTask

namespace WriteOrder

def underWay (log : BoundaryLog) (s : WriteOrder) : List Emission :=
  s.tasks.flatMap (OrderedTask.underWay log)

/-- The frames up to the boundary are those of the writes before the capture, and the later ones, with
those under way, are those of the writes since, in the same order as far as they share a key.  Without
limits the captured store holds exactly what the first ones do, and the node, once nothing is under
way, what the later ones make of it. -/
structure Exact (codec : Codec) (initial : Data) (s : WriteOrder) (c : Capture) : Prop where
  below : Traces.Same (Apart s.store.hasCapacityLimits) ((s.entered c.log).take c.boundary) c.executed
  above : ∃ later, s.executed = c.executed ++ later ∧
    Traces.Same (Apart s.store.hasCapacityLimits)
      ((s.entered c.log).drop c.boundary ++ s.underWay c.log) later
  contents : s.store.Uncapped → SameView (c.store.live c.now)
    (Lapse.live c.now (((s.entered c.log).take c.boundary).foldl (Emission.apply codec) initial))
  later : s.store.Uncapped → s.underWay c.log = [] → SameView (s.store.live s.clock)
    (Lapse.live s.clock
      (((s.entered c.log).drop c.boundary).foldl (Emission.apply codec) c.store.data))

/-- Where a task without guards is involved, nothing else keeps its frames apart from those of other
tasks: they must touch no common key, and a capture must not fall between the execution and the
entering of the frame, nor the frame between the two steps of a capture.  A write that makes no frame
must leave everything as it is, recorded attempts aside. -/
def Guarded (codec : Codec) (s : WriteOrder) : OrderedAction → Prop
  | .spawn _ => True
  | .run i env =>
    match s.tasks[i]? with
    | some ⟨guards, true, first :: rest⟩ =>
      let (store, made) := first.outcome codec env s.store
      (s.store.Uncapped → made = [] → SameView (store.live env.now) (s.store.live env.now)) ∧
        ∀ t ∈ s.tasks.eraseIdx i, OrderedTask.Unguarded ⟨guards, true, first :: rest⟩ t →
          (∀ e ∈ made, ¬t.Labelled ∧
            ∀ log, ∀ e' ∈ t.underWay log, Apart s.store.hasCapacityLimits e e') ∧
          (∀ log, first = .label log → t.underWay log = [])
    | _ => True

end WriteOrder

end Recached
