import Recached.Frames
import Recached.Lib.Runs

/-!
# The persistence latch

A failed append of the file makes the server refuse writes until a save succeeds.  The tasks that
write, of clients, transactions, closed connections, the primary, the sweeper and saves, are lists
of steps, and a run interleaves the steps of any number of them; the guards of the write order are
left out, which only adds interleavings.  Most tasks look at the latch once, before they wait for
their guards; some never do.
-/

namespace Recached

/-! ## Tasks -/

inductive TaskStep where
  | check
  | unlessDuplicate (client : String) (id : ℕ)
  | execute (origin : ℕ) (cmd : Command) (wrapper : Option (Option (String × ℕ)))
  | append (bytes : Bytes)
  | commit (origin : ℕ) (cmd : Command) (wrapper : Option (String × ℕ))
  | replicate (bytes : Bytes)
  | sweep
  | mark
  | install
  | truncate
  | close

def TaskStep.ofSave : TaskStep → Bool
  | .mark | .install | .truncate | .close => true
  | _ => false

def TaskStep.isCommit : TaskStep → Bool
  | .commit .. => true
  | _ => false

abbrev Task := List TaskStep

/-- How a task begins. -/
inductive Route where
  | client (origin : ℕ) (cmd : Command)
  | transaction (origin : ℕ) (queue : List Command)
  | cleanup (origin : ℕ) (keys : List String)
  | replicated (bytes : Bytes)
  | sweep
  | save

def orderedWrite (origin : ℕ) (cmd : Command) : Task :=
  match ServerState.unwrapDedup cmd with
  | (effective, none) => [.check, .execute origin effective (some none)]
  | (effective, some (client, id)) =>
    [.check, .unlessDuplicate client id, .execute origin effective (some (some (client, id)))]

def saveTask : Task := [.mark, .install, .truncate, .close]

def Route.task : Route → Task
  | .client origin cmd => orderedWrite origin cmd
  | .transaction origin queue =>
    if queue.any isWriteCommand then
      .check :: (queue.filter isWriteCommand).map fun cmd => .execute origin cmd none
    else []
  | .cleanup origin keys => orderedWrite origin (.del keys)
  | .replicated bytes => [.replicate bytes]
  | .sweep => [.sweep]
  | .save => saveTask

/-! ## The file -/

/-- What appends leave in the file: complete frames, and pieces where they fail. -/
inductive Chunk where
  | frame (bytes : Bytes)
  | piece (bytes : Bytes)

def Chunk.isFrame : Chunk → Bool
  | .frame _ => true
  | .piece _ => false

/-- What an append leaves that fails after `n` bytes. -/
def leftover (n : ℕ) (bytes : Bytes) : List Chunk :=
  if n = 0 then [] else if bytes.length ≤ n then [.frame bytes] else [.piece (bytes.take n)]

/-! ## The server -/

inductive LatchEvent where
  | executed
  | appended
  | failed
  | saved
deriving DecidableEq

/-- A server with its file and the tasks under way.  `history` records what the tasks did. -/
structure LatchState where
  server : ServerState
  checkpointId : ℕ := 0
  file : List Chunk := []
  tasks : List Task := []
  history : List LatchEvent := []

/-- The frames that a write appends: its own and one for every evicted key. -/
def writeFrames (cmd : Command) (response : Value) (nowMs : ℕ) (evicted : List String) : List Bytes :=
  (broadcastFor cmd response nowMs).toList ++
    evicted.flatMap fun key => (broadcastFor (.del [key]) (.integer 1) nowMs).toList

namespace LatchState

def note (e : LatchEvent) (s : LatchState) : LatchState := { s with history := s.history ++ [e] }

def setStore (store : KeyValueStore) (s : LatchState) : LatchState :=
  { s with server := { s.server with store } }

def setHealthy (healthy : Bool) (s : LatchState) : LatchState :=
  { s with server := { s.server with persistenceHealthy := healthy } }

/-- An append, whole or failing after some bytes. -/
def write (bytes : Bytes) (fails : Option ℕ) (s : LatchState) : LatchState :=
  match fails with
  | none => { s with file := s.file ++ [.frame bytes] }
  | some n => (({ s with file := s.file ++ leftover n bytes }).setHealthy false).note .failed

/-- Carry out a step of a task: the new state and what the task does next.  `fails` says whether an
I/O operation fails, an append after how many bytes. -/
def perform (codec : Codec) (env : Env) (fails : Option ℕ) (s : LatchState) (rest : Task) :
    TaskStep → LatchState × Task
  | .check => (s, if s.server.persistenceHealthy then rest else [])
  | .unlessDuplicate client id => (s, if s.server.dedupIsDuplicate client id then [] else rest)
  | .execute origin cmd wrapper =>
    let (response, store, evicted) := executeReporting codec env cmd s.server.store
    let commits := match wrapper with
      | some wrapper => if response.isError then [] else [.commit origin cmd wrapper]
      | none => []
    ((s.setStore store).note .executed,
      (writeFrames cmd response env.now evicted).map .append ++ commits ++ rest)
  | .append bytes =>
    match fails with
    | none => ((s.write bytes none).note .appended, rest)
    | some n => (s.write bytes (some n), rest)
  | .commit origin cmd wrapper => ({ s with server := s.server.commitWrite origin cmd wrapper }, rest)
  | .replicate bytes =>
    match decodeFrame bytes with
    | none => (s, [])
    | some cmd =>
      match execute codec env cmd s.server.store with
      | (.error _, store) => ((s.setStore store).note .executed, [])
      | (_, store) => ((s.setStore store).note .executed, .append bytes :: rest)
  | .sweep =>
    let (_, store, evicted) := s.server.store.tryEvictForMemory env []
    ((s.setStore store).note .executed,
      (evicted.flatMap fun key => (broadcastFor (.del [key]) (.integer 1) env.now).toList).map .append)
  | .mark =>
    match fails with
    | none => (s.write (checkpointFrame (s.checkpointId + 1)) none, rest)
    | some n => (s.write (checkpointFrame (s.checkpointId + 1)) (some n), [])
  | .install => if fails.isSome then (s.setHealthy false, []) else (s, rest)
  | .truncate => if fails.isSome then (s.setHealthy false, []) else ({ s with file := [] }, rest)
  | .close =>
    ((({ s with checkpointId := s.checkpointId + 1 }).setHealthy true).note .saved, rest)

end LatchState

inductive LatchAction where
  | spawn (route : Route)
  | run (i : ℕ) (env : Env) (fails : Option ℕ)

namespace LatchState

def step (codec : Codec) (s : LatchState) : LatchAction → Option LatchState
  | .spawn route => some { s with tasks := s.tasks ++ [route.task] }
  | .run i env fails =>
    match s.tasks[i]? with
    | some (first :: rest) =>
      let (s', task) := s.perform codec env fails rest first
      some { s' with tasks := s'.tasks.set i task }
    | _ => none

/-! ## What the latch is for -/

/-- Once an append has failed, nothing is executed or appended until a save has completed. -/
def FailsClosed (history : List LatchEvent) : Prop :=
  ∀ before after, history = before ++ .failed :: after → .saved ∉ after →
    .executed ∉ after ∧ .appended ∉ after

/-- No chunk stands behind a piece. -/
def Tidy (file : List Chunk) : Prop :=
  ∀ before bytes after, file = before ++ .piece bytes :: after → after = []

/-- A task that has not begun, is about to look at the latch, or has only its bookkeeping left. -/
def Quiet : Task → Bool
  | .check :: _ | .replicate _ :: _ | .sweep :: _ | .mark :: _ => true
  | task => task.all TaskStep.isCommit

/-- A failing append finds every other task quiet and nothing left to do in its own; the tasks that
do not look at the latch act while the server is healthy; and a marker is appended only to a file
without a piece. -/
def Guarded (s : LatchState) : LatchAction → Prop
  | .spawn _ => True
  | .run i _ fails =>
    match s.tasks[i]? with
    | some (.append _ :: rest) =>
      fails.isSome → (∀ j, ∀ task ∈ s.tasks[j]?, j ≠ i → Quiet task) ∧ Quiet rest
    | some (.replicate _ :: _) | some (.sweep :: _) => s.server.persistenceHealthy
    | some (.mark :: _) =>
      s.file.all Chunk.isFrame ∧
        (fails.isSome → ∀ j, ∀ task ∈ s.tasks[j]?, j ≠ i → Quiet task)
    | _ => True

/-! ## While the latch is set -/

/-- An append has failed and no save has completed since. -/
def latched (history : List LatchEvent) : Bool :=
  history.foldl (fun b e => match e with
    | .failed => true
    | .saved => false
    | _ => b) false

theorem latched_concat (history : List LatchEvent) (e : LatchEvent) :
    latched (history ++ [e]) = match e with
      | .failed => true
      | .saved => false
      | _ => latched history := by
  rw [latched, List.foldl_append]
  rfl

theorem latched_of_failed {before after : List LatchEvent} (open_ : .saved ∉ after) :
    latched (before ++ .failed :: after) = true := by
  induction after using List.reverseRecOn with
  | nil => rw [latched_concat]
  | append_singleton after e ih =>
    have rest : .saved ∉ after := fun h => open_ (List.mem_append_left _ h)
    have last : e ≠ .saved := fun h => open_ (h ▸ List.mem_append_right _ List.mem_cons_self)
    have whole : before ++ .failed :: (after ++ [e]) = (before ++ .failed :: after) ++ [e] := by simp
    rw [whole, latched_concat]
    cases e with
    | saved => exact absurd rfl last
    | failed => rfl
    | executed => exact ih rest
    | appended => exact ih rest

theorem FailsClosed.concat {history : List LatchEvent} (h : FailsClosed history) {e : LatchEvent}
    (harmless : latched history = true → e ≠ .executed ∧ e ≠ .appended) :
    FailsClosed (history ++ [e]) := by
  intro before after eq open_
  obtain rfl | ⟨after, last, rfl⟩ := List.eq_nil_or_concat after
  · exact ⟨List.not_mem_nil, List.not_mem_nil⟩
  · have split : history = before ++ .failed :: after ∧ e = last := by
      have whole : before ++ .failed :: (after ++ [last]) = (before ++ .failed :: after) ++ [last] := by
        simp
      rw [List.concat_eq_append, whole] at eq
      exact ⟨(List.append_inj' eq rfl).1, List.singleton_inj.mp (List.append_inj' eq rfl).2⟩
    obtain ⟨rfl, rfl⟩ := split
    rw [List.concat_eq_append] at open_ ⊢
    have rest : .saved ∉ after := fun h => open_ (List.mem_append_left _ h)
    obtain ⟨noExecution, noAppend⟩ := h before after rfl rest
    obtain ⟨notExecuted, notAppended⟩ := harmless (latched_of_failed rest)
    simp only [List.mem_append, List.mem_singleton, not_or]
    exact ⟨⟨noExecution, notExecuted.symm⟩, noAppend, notAppended.symm⟩

theorem tidy_of_frames {file : List Chunk} (h : file.all Chunk.isFrame) : Tidy file := by
  rintro before bytes after rfl
  simp [Chunk.isFrame] at h

theorem tidy_leftover {file : List Chunk} (h : file.all Chunk.isFrame) (n : ℕ) (bytes : Bytes) :
    Tidy (file ++ leftover n bytes) := by
  rw [leftover]
  split_ifs
  · rw [List.append_nil]
    exact tidy_of_frames h
  · exact tidy_of_frames (by simpa [Chunk.isFrame] using h)
  · intro before piece after eq
    obtain rfl | ⟨after, last, rfl⟩ := List.eq_nil_or_concat after
    · rfl
    · have whole : before ++ .piece piece :: (after ++ [last]) =
          (before ++ .piece piece :: after) ++ [last] := by simp
      rw [List.concat_eq_append, whole] at eq
      obtain rfl := (List.append_inj' eq rfl).1
      simp [Chunk.isFrame] at h

/-! ## Every run -/

/-- The steps of a save occur in saves only. -/
def Shaped (task : Task) : Prop := task <:+ saveTask ∨ ∀ step ∈ task, step.ofSave = false

/-- A save that has written its marker. -/
def Saving (task : Task) : Prop := task <:+ [.install, .truncate, .close] ∧ task ≠ []

structure Sound (s : LatchState) : Prop where
  shaped : ∀ task ∈ s.tasks, Shaped task
  closed : FailsClosed s.history
  latch : latched s.history = true →
    s.server.persistenceHealthy = false ∧ ∀ task ∈ s.tasks, Quiet task ∨ Saving task
  tidy : Tidy s.file
  whole : latched s.history = false → s.file.all Chunk.isFrame
  saving : ∀ task ∈ s.tasks, Saving task → s.file.all Chunk.isFrame

theorem shaped_tail {first : TaskStep} {rest : Task} (h : Shaped (first :: rest)) : Shaped rest := by
  obtain suffix | plain := h
  · exact .inl ((List.suffix_cons first rest).trans suffix)
  · exact .inr fun step hs => plain step (List.mem_cons_of_mem first hs)

theorem shaped_orderedWrite (origin : ℕ) (cmd : Command) : Shaped (orderedWrite origin cmd) := by
  right
  unfold orderedWrite
  split <;> simp [TaskStep.ofSave]

theorem shaped_route (route : Route) : Shaped route.task := by
  cases route with
  | client origin cmd => exact shaped_orderedWrite origin cmd
  | transaction origin queue =>
    right
    simp only [Route.task]
    split_ifs
    · simp only [List.mem_cons, List.mem_map, forall_eq_or_imp]
      refine ⟨rfl, ?_⟩
      rintro step ⟨cmd, -, rfl⟩
      rfl
    · simp
  | cleanup origin keys => exact shaped_orderedWrite origin (.del keys)
  | replicated bytes => exact .inr (by simp [Route.task, TaskStep.ofSave])
  | sweep => exact .inr (by simp [Route.task, TaskStep.ofSave])
  | save => exact .inl (List.suffix_refl _)

theorem quiet_orderedWrite (origin : ℕ) (cmd : Command) : Quiet (orderedWrite origin cmd) := by
  unfold orderedWrite
  split <;> rfl

theorem quiet_route (route : Route) : Quiet route.task := by
  cases route with
  | client origin cmd => exact quiet_orderedWrite origin cmd
  | transaction origin queue =>
    simp only [Route.task]
    split_ifs <;> rfl
  | cleanup origin keys => exact quiet_orderedWrite origin (.del keys)
  | replicated bytes => rfl
  | sweep => rfl
  | save => rfl

theorem not_saving_of_quiet {task : Task} (quiet : Quiet task) : ¬Saving task := by
  rintro ⟨suffix, nonempty⟩
  obtain rfl | rfl | rfl | rfl : task = [.install, .truncate, .close] ∨ task = [.truncate, .close] ∨
      task = [.close] ∨ task = [] := by
    simpa [List.suffix_cons_iff] using suffix
  · cases quiet
  · cases quiet
  · cases quiet
  · exact nonempty rfl

variable {s s' : LatchState} {i : ℕ} {task : Task} {server : ServerState} {checkpointId : ℕ}

/-- A task goes on without an event; the file stays or is rewritten with frames. -/
theorem Sound.goOn (h : s.Sound) {file : List Chunk} (shaped : Shaped task)
    (same : file = s.file ∨ file.all Chunk.isFrame)
    (harmless : latched s.history = true →
      server.persistenceHealthy = false ∧ (Quiet task ∨ Saving task))
    (saving : Saving task → file.all Chunk.isFrame) :
    ({ s with server, checkpointId, file, tasks := s.tasks.set i task } : LatchState).Sound where
  shaped t ht := (List.mem_or_eq_of_mem_set ht).elim (h.shaped t) fun eq => eq ▸ shaped
  closed := h.closed
  latch set := by
    refine ⟨(harmless set).1, fun t ht => ?_⟩
    obtain ht | rfl := List.mem_or_eq_of_mem_set ht
    · exact (h.latch set).2 t ht
    · exact (harmless set).2
  tidy := by
    obtain rfl | whole := same
    · exact h.tidy
    · exact tidy_of_frames whole
  whole clear := by
    obtain rfl | whole := same
    · exact h.whole clear
    · exact whole
  saving t ht under := by
    obtain old | rfl := List.mem_or_eq_of_mem_set ht
    · obtain rfl | whole := same
      · exact h.saving t old under
      · exact whole
    · exact saving under

/-- Before a failure, a task may execute and append. -/
theorem Sound.act (h : s.Sound) {file : List Chunk} {e : LatchEvent} (shaped : Shaped task)
    (clear : latched s.history = false) (other : e = .executed ∨ e = .appended)
    (whole : file.all Chunk.isFrame) :
    ({ s with server, file, tasks := s.tasks.set i task, history := s.history ++ [e] } :
      LatchState).Sound where
  shaped t ht := (List.mem_or_eq_of_mem_set ht).elim (h.shaped t) fun eq => eq ▸ shaped
  closed := h.closed.concat fun set => by rw [clear] at set; cases set
  latch set := by
    rw [latched_concat] at set
    obtain rfl | rfl := other <;> exact absurd (clear.symm.trans set) nofun
  tidy := tidy_of_frames whole
  whole _ := whole
  saving _ _ _ := whole

theorem quiet_set (others : ∀ j, ∀ t ∈ s.tasks[j]?, j ≠ i → Quiet t) (quiet : Quiet task) :
    ∀ t ∈ s.tasks.set i task, Quiet t := by
  intro t ht
  obtain ⟨j, there⟩ := List.mem_iff_getElem?.mp ht
  rw [List.getElem?_set] at there
  split_ifs at there with eq bound
  · exact Option.some.inj there ▸ quiet
  · exact others j t there (Ne.symm eq)

/-- A failing append finds every task quiet. -/
theorem Sound.fails (h : s.Sound) (shaped : Shaped task) (whole : s.file.all Chunk.isFrame)
    (others : ∀ j, ∀ t ∈ s.tasks[j]?, j ≠ i → Quiet t) (quiet : Quiet task)
    (unhealthy : server.persistenceHealthy = false) (n : ℕ) (bytes : Bytes) :
    ({ s with
      server
      file := s.file ++ leftover n bytes
      tasks := s.tasks.set i task
      history := s.history ++ [.failed] } : LatchState).Sound where
  shaped t ht := (List.mem_or_eq_of_mem_set ht).elim (h.shaped t) fun eq => eq ▸ shaped
  closed := h.closed.concat fun _ => ⟨nofun, nofun⟩
  latch _ := ⟨unhealthy, fun t ht => .inl (quiet_set others quiet t ht)⟩
  tidy := tidy_leftover whole n bytes
  whole clear := by
    rw [latched_concat] at clear
    cases clear
  saving t ht under := absurd under (not_saving_of_quiet (quiet_set others quiet t ht))

theorem Sound.saved (h : s.Sound) (shaped : Shaped task) (whole : s.file.all Chunk.isFrame) :
    ({ s with
      server
      checkpointId
      tasks := s.tasks.set i task
      history := s.history ++ [.saved] } : LatchState).Sound where
  shaped t ht := (List.mem_or_eq_of_mem_set ht).elim (h.shaped t) fun eq => eq ▸ shaped
  closed := h.closed.concat fun _ => ⟨nofun, nofun⟩
  latch set := by
    rw [latched_concat] at set
    cases set
  tidy := h.tidy
  whole _ := whole
  saving _ _ _ := whole

/-- What comes after a step of a save. -/
theorem saving_rest {first : TaskStep} {rest : Task} (shaped : Shaped (first :: rest))
    (ofSave : first.ofSave) : rest = [] ∨ Saving rest := by
  obtain suffix | plain := shaped
  · obtain eq | eq | eq | eq : first :: rest = saveTask ∨ first :: rest = [.install, .truncate, .close] ∨
        first :: rest = [.truncate, .close] ∨ first :: rest = [.close] := by
      simpa [saveTask, List.suffix_cons_iff] using suffix
    · obtain ⟨-, rfl⟩ := List.cons.inj eq
      exact .inr ⟨List.suffix_refl _, List.cons_ne_nil _ _⟩
    · obtain ⟨-, rfl⟩ := List.cons.inj eq
      exact .inr ⟨List.suffix_cons _ _, List.cons_ne_nil _ _⟩
    · obtain ⟨-, rfl⟩ := List.cons.inj eq
      exact .inr ⟨⟨[.install, .truncate], rfl⟩, List.cons_ne_nil _ _⟩
    · obtain ⟨-, rfl⟩ := List.cons.inj eq
      exact .inl rfl
  · rw [plain first List.mem_cons_self] at ofSave
    cases ofSave

theorem ofSave_of_mem {step : TaskStep} (mem : step ∈ saveTask) : step.ofSave = true := by
  simp only [saveTask, List.mem_cons, List.not_mem_nil, or_false] at mem
  obtain rfl | rfl | rfl | rfl := mem <;> rfl

theorem Saving.subset {task : Task} (h : Saving task) : task ⊆ saveTask :=
  (h.1.trans (List.suffix_cons TaskStep.mark _)).subset

theorem plain_of_shaped {first : TaskStep} {rest : Task} (shaped : Shaped (first :: rest))
    (other : first.ofSave = false) : ∀ step ∈ rest, step.ofSave = false := by
  obtain suffix | plain := shaped
  · rw [ofSave_of_mem (suffix.subset List.mem_cons_self)] at other
    cases other
  · exact fun step hs => plain step (List.mem_cons_of_mem first hs)

theorem not_saving_of_plain {task : Task} (plain : ∀ step ∈ task, step.ofSave = false) :
    ¬Saving task := by
  intro saving
  obtain ⟨step, rest, rfl⟩ := List.exists_cons_of_ne_nil saving.2
  have ofSave := ofSave_of_mem (saving.subset List.mem_cons_self)
  rw [plain step List.mem_cons_self] at ofSave
  cases ofSave

theorem saved_file (h : s.Sound) {first : TaskStep} {rest : Task}
    (there : s.tasks[i]? = some (first :: rest)) (ofSave : first.ofSave) (begun : first ≠ .mark) :
    s.file.all Chunk.isFrame := by
  have mem := List.mem_of_getElem? there
  obtain suffix | plain := h.shaped _ mem
  · refine h.saving _ mem ⟨?_, List.cons_ne_nil _ _⟩
    obtain eq | inner := List.suffix_cons_iff.mp suffix
    · exact absurd (List.cons.inj eq).1 begun
    · exact inner
  · rw [plain first List.mem_cons_self] at ofSave
    cases ofSave

/-- The latch is clear when a task that would execute or append is past its check. -/
theorem clear_of_busy (h : s.Sound) {first : TaskStep} {rest : Task}
    (there : s.tasks[i]? = some (first :: rest)) (busy : ¬Quiet (first :: rest))
    (other : first.ofSave = false) : latched s.history = false := by
  cases set : latched s.history with
  | false => rfl
  | true =>
    obtain quiet | saving := (h.latch set).2 _ (List.mem_of_getElem? there)
    · exact absurd quiet busy
    · rw [ofSave_of_mem (saving.subset List.mem_cons_self)] at other
      cases other

theorem clear_of_healthy (h : s.Sound) (healthy : s.server.persistenceHealthy) :
    latched s.history = false := by
  cases set : latched s.history with
  | false => rfl
  | true =>
    rw [(h.latch set).1] at healthy
    cases healthy

theorem quiet_of_commits {task : Task} (h : task.all TaskStep.isCommit) : Quiet task := by
  cases task with
  | nil => rfl
  | cons step rest =>
    cases step with
    | commit origin cmd wrapper => exact h
    | _ => simp [TaskStep.isCommit] at h

/-- Every guarded step of a task keeps the state sound. -/
theorem Sound.perform (codec : Codec) (env : Env) (fails : Option ℕ) (h : s.Sound)
    {first : TaskStep} {rest : Task} (there : s.tasks[i]? = some (first :: rest))
    (guarded : s.Guarded (.run i env fails)) :
    ({ (s.perform codec env fails rest first).1 with
      tasks := (s.perform codec env fails rest first).1.tasks.set i
        (s.perform codec env fails rest first).2 } : LatchState).Sound := by
  have mem := List.mem_of_getElem? there
  have shaped := h.shaped _ mem
  have tail := shaped_tail shaped
  rw [Guarded, there] at guarded
  cases first with
  | check =>
    have plain := plain_of_shaped shaped rfl
    unfold LatchState.perform
    dsimp only
    split_ifs with healthy
    · refine h.goOn tail (.inl rfl) (fun set => ?_)
        fun saving => absurd saving (not_saving_of_plain plain)
      rw [(h.latch set).1] at healthy
      cases healthy
    · exact h.goOn (.inr (by simp)) (.inl rfl) (fun set => ⟨(h.latch set).1, .inl rfl⟩)
        fun saving => absurd rfl saving.2
  | unlessDuplicate client id =>
    have plain := plain_of_shaped shaped rfl
    have clear := clear_of_busy h there (by simp [Quiet, TaskStep.isCommit]) rfl
    unfold LatchState.perform
    dsimp only
    split_ifs with duplicate
    · exact h.goOn (.inr (by simp)) (.inl rfl) (fun set => by rw [clear] at set; cases set)
        fun saving => absurd rfl saving.2
    · exact h.goOn tail (.inl rfl) (fun set => by rw [clear] at set; cases set)
        fun saving => absurd saving (not_saving_of_plain plain)
  | execute origin cmd wrapper =>
    have plain := plain_of_shaped shaped rfl
    have clear := clear_of_busy h there (by simp [Quiet, TaskStep.isCommit]) rfl
    refine h.act ?_ clear (.inl rfl) (h.whole clear)
    right
    intro step hs
    simp only [LatchState.perform, List.mem_append, List.mem_map] at hs
    obtain (⟨bytes, -, rfl⟩ | commits) | rest := hs
    · rfl
    · cases wrapper with
      | none => cases commits
      | some wrapper =>
        dsimp only at commits
        split_ifs at commits
        · cases commits
        · rw [List.mem_singleton.mp commits]
          rfl
    · exact plain step rest
  | append bytes =>
    have clear := clear_of_busy h there (by simp [Quiet, TaskStep.isCommit]) rfl
    have whole := h.whole clear
    cases fails with
    | none =>
      have file : (s.file ++ [Chunk.frame bytes]).all Chunk.isFrame := by simpa [Chunk.isFrame] using whole
      exact h.act tail clear (.inr rfl) file
    | some n =>
      obtain ⟨others, quiet⟩ := guarded rfl
      exact h.fails tail whole others quiet rfl n bytes
  | commit origin cmd wrapper =>
    have plain := plain_of_shaped shaped rfl
    have healthy : (s.server.commitWrite origin cmd wrapper).persistenceHealthy =
        s.server.persistenceHealthy := by
      unfold ServerState.commitWrite
      cases wrapper <;> split <;> rfl
    refine h.goOn tail (.inl rfl) (fun set => ?_)
      fun saving => absurd saving (not_saving_of_plain plain)
    obtain ⟨unhealthy, all⟩ := h.latch set
    refine ⟨healthy.trans unhealthy, ?_⟩
    obtain quiet | saving := all _ mem
    · have commits : rest.all TaskStep.isCommit := by simpa [Quiet, TaskStep.isCommit] using quiet
      exact .inl (quiet_of_commits commits)
    · exact absurd (ofSave_of_mem (saving.subset List.mem_cons_self)) (by simp [TaskStep.ofSave])
  | replicate bytes =>
    have plain := plain_of_shaped shaped rfl
    have clear := clear_of_healthy h guarded
    unfold LatchState.perform
    dsimp only
    split
    · exact h.goOn (.inr (by simp)) (.inl rfl) (fun set => by rw [clear] at set; cases set)
        fun saving => absurd rfl saving.2
    · split
      · exact h.act (.inr (by simp)) clear (.inl rfl) (h.whole clear)
      · refine h.act (.inr ?_) clear (.inl rfl) (h.whole clear)
        simp only [List.mem_cons, forall_eq_or_imp]
        exact ⟨rfl, plain⟩
  | sweep =>
    have clear := clear_of_healthy h guarded
    refine h.act (.inr fun step hs => ?_) clear (.inl rfl) (h.whole clear)
    simp only [LatchState.perform, List.mem_map] at hs
    obtain ⟨bytes, -, rfl⟩ := hs
    rfl
  | mark =>
    obtain ⟨whole, others⟩ := guarded
    cases fails with
    | none =>
      have file : (s.file ++ [Chunk.frame (checkpointFrame (s.checkpointId + 1))]).all
          Chunk.isFrame := by
        simpa [Chunk.isFrame] using whole
      refine h.goOn tail (.inr file) (fun set => ⟨(h.latch set).1, ?_⟩) fun _ => file
      obtain rfl | saving := saving_rest shaped rfl
      · exact .inl rfl
      · exact .inr saving
    | some n => exact h.fails (.inr fun _ hs => absurd hs List.not_mem_nil) whole (others rfl) rfl rfl n _
  | install =>
    have whole := saved_file h there rfl nofun
    unfold LatchState.perform
    dsimp only
    split_ifs
    · exact h.goOn (.inr (by simp)) (.inl rfl) (fun _ => ⟨rfl, .inl rfl⟩)
        fun saving => absurd rfl saving.2
    · refine h.goOn tail (.inl rfl) (fun set => ⟨(h.latch set).1, ?_⟩) fun _ => whole
      obtain rfl | saving := saving_rest shaped rfl
      · exact .inl rfl
      · exact .inr saving
  | truncate =>
    unfold LatchState.perform
    dsimp only
    split_ifs
    · exact h.goOn (.inr (by simp)) (.inl rfl) (fun _ => ⟨rfl, .inl rfl⟩)
        fun saving => absurd rfl saving.2
    · refine h.goOn tail (.inr rfl) (fun set => ⟨(h.latch set).1, ?_⟩) fun _ => rfl
      obtain rfl | saving := saving_rest shaped rfl
      · exact .inl rfl
      · exact .inr saving
  | close => exact h.saved tail (saved_file h there rfl nofun)

theorem Sound.step (codec : Codec) (h : s.Sound) {action : LatchAction} (guarded : s.Guarded action)
    (next : s.step codec action = some s') : s'.Sound := by
  cases action with
  | spawn route =>
    obtain rfl := Option.some.inj next
    have quiet := quiet_route route
    refine ⟨fun t ht => ?_, h.closed, fun set => ⟨(h.latch set).1, fun t ht => ?_⟩, h.tidy, h.whole,
      fun t ht saving => ?_⟩
    · obtain ht | ht := List.mem_append.mp ht
      · exact h.shaped t ht
      · exact List.mem_singleton.mp ht ▸ shaped_route route
    · obtain ht | ht := List.mem_append.mp ht
      · exact (h.latch set).2 t ht
      · exact .inl (List.mem_singleton.mp ht ▸ quiet)
    · obtain ht | ht := List.mem_append.mp ht
      · exact h.saving t ht saving
      · rw [List.mem_singleton.mp ht] at saving
        exact absurd saving (not_saving_of_quiet quiet)
  | run i env fails =>
    simp only [LatchState.step] at next
    split at next
    · next first rest there => exact Option.some.inj next ▸ h.perform codec env fails there guarded
    · cases next

end LatchState

/-- In every run of guarded steps the latch fails closed: after a failed append nothing is executed or
appended before a save has completed, and no frame stands behind a piece of one. -/
theorem latch_fails_closed {codec : Codec} {server : ServerState} {actions : List LatchAction}
    {s : LatchState} (run : Runs.exec (LatchState.step codec) { server } actions = some s)
    (guarded : Runs.Each (LatchState.step codec) LatchState.Guarded { server } actions) :
    LatchState.FailsClosed s.history ∧ LatchState.Tidy s.file := by
  have start : LatchState.Sound { server } :=
    ⟨by simp, by simp [LatchState.FailsClosed], by simp [LatchState.latched],
      by simp [LatchState.Tidy], fun _ => rfl, by simp⟩
  have sound := Runs.invariant (fun _ _ _ h guarded next => LatchState.Sound.step codec h guarded next)
    run guarded start
  exact ⟨sound.closed, sound.tidy⟩

/-- A client's `SET` whose append fails after three bytes. -/
def failedSet : List LatchAction :=
  [.spawn (.client 1 (.set "a" [49] {})), .run 0 (.fixed 0) none, .run 0 (.fixed 0) none,
    .run 0 (.fixed 0) (some 3)]

theorem latch_fails_closed_set :
    ∃ s : LatchState, s.history = [.executed, .failed] ∧
      LatchState.FailsClosed s.history ∧ LatchState.Tidy s.file := by
  obtain ⟨s, run, history⟩ : ∃ s, Runs.exec (LatchState.step .literals)
      { server := { store := {} } } failedSet = some s ∧ s.history = [.executed, .failed] :=
    ⟨_, rfl, rfl⟩
  refine ⟨s, history, latch_fails_closed run ?_⟩
  refine ⟨trivial, fun s₁ spawned => ?_⟩
  obtain rfl := Option.some.inj spawned
  refine ⟨trivial, fun s₂ checked => ?_⟩
  obtain rfl := Option.some.inj checked
  refine ⟨trivial, fun s₃ executed => ?_⟩
  obtain rfl := Option.some.inj executed
  refine ⟨fun _ => ⟨fun j task there other => ?_, rfl⟩, fun _ _ => trivial⟩
  cases j with
  | zero => exact absurd rfl other
  | succ j => cases there

/-- The append of a transaction's first write fails in part; the second write is still executed and
appended behind the piece. -/
theorem transaction_outruns_latch :
    ∃ s, Runs.exec (LatchState.step .literals) { server := { store := {} } }
        [.spawn (.transaction 0 [.set "a" [49] {}, .set "b" [50] {}]), .run 0 (.fixed 0) none,
          .run 0 (.fixed 0) none, .run 0 (.fixed 0) (some 3), .run 0 (.fixed 0) none,
          .run 0 (.fixed 0) none] = some s ∧
      s.server.persistenceHealthy = false ∧
      s.history = [.executed, .failed, .executed, .appended] ∧
      s.file.map Chunk.isFrame = [false, true] :=
  ⟨_, rfl, rfl, rfl, rfl⟩

end Recached
