import Recached.TornTail
import Recached.Lib.Runs

/-!
# Saves and crashes

A save appends a checkpoint marker to the file, installs a snapshot that names the marker, and
empties the file; every step of it can fail, and the process can die at any point.  A restart loads
the snapshot and executes what stands behind its marker.

The state of the store is abstract: any type with the effect of a frame on it.  Nothing is skipped or
executed twice as long as no append falls behind a piece of a frame, and no save repeats the marker
of the installed snapshot after further writes.
-/

namespace Recached

open Text

/-- The steps of a save, in order. -/
inductive SaveStage where
  | marker
  | flush
  | snapshot
  | rename
  | syncDir
  | dedup
  | truncate
  | sync
deriving DecidableEq

def SaveStage.next : SaveStage → Option SaveStage
  | .marker => some .flush
  | .flush => some .snapshot
  | .snapshot => some .rename
  | .rename => some .syncDir
  | .syncDir => some .dedup
  | .dedup => some .truncate
  | .truncate => some .sync
  | .sync => none

/-- A server and its disk: the store, the snapshot with its id and the append-only file.  `written`
records the frames of all writes. -/
structure Persistence (σ : Type) where
  memory : σ
  checkpointId : ℕ := 0
  healthy : Bool := true
  saved : Option (ℕ × σ) := none
  file : Bytes := []
  saving : Option SaveStage := none
  written : List Frame := []

inductive PersistenceAction where
  | append (f : Frame)
  | save
  | proceed
  | fail (n : ℕ)
  | restart

namespace Persistence

variable {σ : Type} (apply : σ → Value → σ) (init : σ)

/-- The id of the next save. -/
def nextId (s : Persistence σ) : ℕ := min (s.checkpointId + 1) Decimal.u64Max

/-- The snapshot a restart begins with. -/
def base (s : Persistence σ) : ℕ × σ := s.saved.getD (0, init)

/-- The state after a restart, if the file can be read. -/
def recover (s : Persistence σ) : Option σ :=
  (executedValues (s.base init).1 s.file).map fun vs => vs.foldl apply (s.base init).2

/-- What a step of a save does when it succeeds. -/
def perform (s : Persistence σ) : SaveStage → Persistence σ
  | .marker => { s with file := s.file ++ checkpointFrame s.nextId }
  | .rename => { s with saved := some (s.nextId, s.memory) }
  | .truncate => { s with file := [] }
  | .sync => { s with checkpointId := s.nextId, healthy := true }
  | _ => s

/-- What a step of a save leaves behind when it fails: only an append can be done in part. -/
def failed (n : ℕ) (s : Persistence σ) : SaveStage → Persistence σ
  | .marker => { s with file := s.file ++ (checkpointFrame s.nextId).take n }
  | _ => s

def step (s : Persistence σ) : PersistenceAction → Option (Persistence σ)
  | .append f =>
    -- a save holds every write guard; no command is called like the marker
    if s.saving = none ∧ f.marker = none then
      some { s with
        memory := apply s.memory f.value
        file := s.file ++ respPush f
        written := s.written ++ [f] }
    else none
  | .save => if s.saving = none then some { s with saving := some .marker } else none
  | .proceed => s.saving.map fun stage => { s.perform stage with saving := stage.next }
  | .fail n => s.saving.map fun stage => { s.failed n stage with saving := none, healthy := false }
  | .restart =>
    (s.recover apply init).map fun memory =>
      { s with memory, checkpointId := (s.base init).1, healthy := true, saving := none }

/-- The file ends with a complete frame. -/
def Whole (file : Bytes) : Prop := ∃ frames : List Frame, (∀ f ∈ frames, Fits f) ∧ file = fileOf frames

/-- A frame that the parser accepts is appended behind a complete one; and the marker of the
installed snapshot is repeated only while the store is as in the snapshot. -/
def Safe (s : Persistence σ) : PersistenceAction → Prop
  | .append f => Fits f ∧ Whole s.file
  | .proceed | .fail _ => s.saving = some .marker →
    Whole s.file ∧ ∀ saved ∈ s.saved, saved.1 = s.nextId → saved.2 = s.memory
  | _ => True

/-! ## Markers -/

/-- The frame of a marker. -/
def markerFrame (id : ℕ) : Frame := [asBytes "RECACHED-CHECKPOINT", Decimal.digits id]

theorem respPush_markerFrame (id : ℕ) : respPush (markerFrame id) = checkpointFrame id := rfl

theorem marker_markerFrame {id : ℕ} (range : id ≤ Decimal.u64Max) :
    (markerFrame id).marker = some id := by
  have text : fromUtf8 (Decimal.digits id) = some (fromUtf8Lossy (Decimal.digits id)) := by
    rw [← (Decimal.isText_digits id).asBytes_lossy, fromUtf8_asBytes, fromUtf8Lossy_asBytes]
  simp only [Frame.marker, Frame.value, markerFrame, bulks, List.map_cons, List.map_nil,
    checkpointMarker, if_true, text, Option.bind_some, (Decimal.isText_digits id).asBytes_lossy,
    Decimal.parseU64_digits range]

theorem fits_markerFrame {id : ℕ} (range : id ≤ Decimal.u64Max) : Fits (markerFrame id) := by
  have short : (Decimal.digits id).length ≤ 20 :=
    (Decimal.length_digits_le (by decide)).mpr (lt_of_le_of_lt range (by norm_num [Decimal.u64Max]))
  refine ⟨by simp [markerFrame, maxArrayElements], ?_⟩
  have name : (asBytes "RECACHED-CHECKPOINT").length = 19 := by decide
  have tens (n : ℕ) (h : n < 100) : (Decimal.digits n).length ≤ 2 :=
    (Decimal.length_digits_le (by decide)).mpr h
  have count := tens (0 + 1 + 1) (by decide)
  have first := tens 19 (by decide)
  have second := tens (Decimal.digits id).length (by omega)
  simp only [markerFrame, Value.serialize, Value.serializeItems, bulks, List.map_cons, List.map_nil,
    List.length_append, List.length_cons, List.length_nil, crlf, name]
  unfold maxTotalMessageBytes
  omega

theorem nextId_le (s : Persistence σ) : s.nextId ≤ Decimal.u64Max := min_le_right _ _

theorem nextId_pos (s : Persistence σ) : 0 < s.nextId :=
  lt_min (Nat.succ_pos _) (by decide)

/-! ## What the disk holds -/

variable {apply} {init} {s s' : Persistence σ}

/-- Behind the marker stand the frames that lead from one state to the other. -/
def Holds (apply : σ → Value → σ) (base : ℕ × σ) (file : Bytes) (memory : σ) : Prop :=
  ∃ (frames : List Frame) (tail : Bytes), (∀ f ∈ frames, Fits f) ∧ Unfinished tail ∧
    file = fileOf frames ++ tail ∧ (commandsOf (resumed base.1 frames)).foldl apply base.2 = memory

theorem Holds.recover {memory : σ} (h : Holds apply (s.base init) s.file memory) :
    s.recover apply init = some memory := by
  obtain ⟨frames, tail, fits, unfinished, file, rfl⟩ := h
  rw [Persistence.recover, file, executedValues_file _ fits unfinished, Option.map_some]

theorem fits_concat {frames : List Frame} {f : Frame} (fits : ∀ g ∈ frames, Fits g) (hf : Fits f) :
    ∀ g ∈ frames ++ [f], Fits g := by
  intro g hg
  obtain hg | hg := List.mem_append.mp hg
  · exact fits g hg
  · exact List.mem_singleton.mp hg ▸ hf

theorem fileOf_concat (frames : List Frame) (f : Frame) :
    fileOf (frames ++ [f]) = fileOf frames ++ respPush f := by simp

/-- Complete frames are read in one way only, so a complete file has no unfinished rest. -/
theorem Holds.whole {base : ℕ × σ} {file : Bytes} {memory : σ} (h : Holds apply base file memory)
    (whole : Whole file) :
    ∃ frames : List Frame, (∀ f ∈ frames, Fits f) ∧ file = fileOf frames ∧
      (commandsOf (resumed base.1 frames)).foldl apply base.2 = memory := by
  obtain ⟨frames, tail, fits, unfinished, file, rfl⟩ := h
  obtain ⟨frames', fits', file'⟩ := whole
  refine ⟨frames', fits', file', ?_⟩
  have first := executedValues_file base.1 fits unfinished
  have second := executedValues_file base.1 fits' (.inl rfl : Unfinished [])
  rw [List.append_nil, ← file', file, first] at second
  rw [Option.some.inj second]

theorem Holds.append {base : ℕ × σ} {file : Bytes} {memory : σ} (h : Holds apply base file memory)
    (whole : Whole file) {f : Frame} (fits : Fits f) (plain : f.marker = none) :
    Holds apply base (file ++ respPush f) (apply memory f.value) := by
  obtain ⟨frames, all, rfl, rfl⟩ := h.whole whole
  refine ⟨frames ++ [f], [], fits_concat all fits, .inl rfl, by simp, ?_⟩
  have last : commandsOf [f] = [f.value] := by simp [commandsOf, plain]
  rw [resumed_concat (by simp [plain]), commandsOf_append, last, List.foldl_append]
  rfl

theorem Holds.marker {base : ℕ × σ} {file : Bytes} {memory : σ} (h : Holds apply base file memory)
    (whole : Whole file) {id : ℕ} (range : id ≤ Decimal.u64Max)
    (reuse : base.1 = id → base.2 = memory) :
    Holds apply base (file ++ checkpointFrame id) memory := by
  obtain ⟨frames, all, rfl, holds⟩ := h.whole whole
  have marker := marker_markerFrame range
  refine ⟨frames ++ [markerFrame id], [], fits_concat all (fits_markerFrame range), .inl rfl,
    by rw [fileOf_concat, List.append_nil, respPush_markerFrame], ?_⟩
  by_cases same : base.1 = id
  · rw [resumed_marker (by rw [marker, same]), commandsOf, List.foldl_nil, reuse same]
  · have last : commandsOf [markerFrame id] = [] := by simp [commandsOf, marker]
    rw [resumed_concat (by rw [marker]; simpa using Ne.symm same), commandsOf_append, last,
      List.append_nil, holds]

/-- A piece of a marker is no marker yet. -/
theorem Holds.piece {base : ℕ × σ} {file : Bytes} {memory : σ} (h : Holds apply base file memory)
    (whole : Whole file) {id : ℕ} (range : id ≤ Decimal.u64Max)
    (reuse : base.1 = id → base.2 = memory) (n : ℕ) :
    Holds apply base (file ++ (checkpointFrame id).take n) memory := by
  by_cases complete : (checkpointFrame id).take n = checkpointFrame id
  · rw [complete]
    exact h.marker whole range reuse
  · obtain ⟨frames, all, rfl, holds⟩ := h.whole whole
    exact ⟨frames, _, all, unfinished_of_cut (fits_markerFrame range) (List.take_prefix n _) complete,
      rfl, holds⟩

/-! ## Every run -/

/-- The disk holds the effect of all writes; and during a save, what its steps so far have left
there. -/
structure Sound (apply : σ → Value → σ) (init : σ) (s : Persistence σ) : Prop where
  memory : s.memory = s.written.foldl (fun m f => apply m f.value) init
  disk : Holds apply (s.base init) s.file s.memory
  stage : match s.saving with
    | none | some .marker => True
    | some .flush | some .snapshot | some .rename =>
      ∃ frames : List Frame, (∀ f ∈ frames, Fits f) ∧ s.file = fileOf frames ++ checkpointFrame s.nextId
    | some .syncDir | some .dedup | some .truncate => s.saved = some (s.nextId, s.memory)
    | some .sync => s.saved = some (s.nextId, s.memory) ∧ s.file = []

theorem base_reuse (h : ∀ saved ∈ s.saved, saved.1 = s.nextId → saved.2 = s.memory) :
    (s.base init).1 = s.nextId → (s.base init).2 = s.memory := by
  have positive := s.nextId_pos
  cases saved : s.saved with
  | none =>
    intro eq
    simp only [base, saved, Option.getD_none] at eq
    omega
  | some b =>
    simp only [base, saved, Option.getD_some]
    exact h b saved

theorem Sound.proceed (h : s.Sound apply init) {stage : SaveStage} (saving : s.saving = some stage)
    (safe : s.Safe .proceed) :
    ({ s.perform stage with saving := stage.next } : Persistence σ).Sound apply init := by
  obtain ⟨memory, disk, now⟩ := h
  rw [saving] at now
  cases stage with
  | marker =>
    obtain ⟨whole, reuse⟩ := safe saving
    refine ⟨memory, disk.marker whole s.nextId_le (base_reuse reuse), ?_⟩
    obtain ⟨frames, fits, file⟩ := whole
    exact ⟨frames, fits, by rw [perform, file]; rfl⟩
  | flush => exact ⟨memory, disk, now⟩
  | snapshot => exact ⟨memory, disk, now⟩
  | rename =>
    obtain ⟨frames, fits, file⟩ := now
    have range := s.nextId_le
    refine ⟨memory, ⟨frames ++ [markerFrame s.nextId], [],
      fits_concat fits (fits_markerFrame range), .inl rfl, ?_, ?_⟩, rfl⟩
    · rw [fileOf_concat, List.append_nil, respPush_markerFrame]
      exact file
    · simp only [base, perform, Option.getD_some]
      rw [resumed_marker (marker_markerFrame range)]
      rfl
  | syncDir => exact ⟨memory, disk, now⟩
  | dedup => exact ⟨memory, disk, now⟩
  | truncate =>
    have saved : s.saved = some (s.nextId, s.memory) := now
    refine ⟨memory, ⟨[], [], by simp, .inl rfl, rfl, ?_⟩, saved, rfl⟩
    simp only [base, perform, saved, Option.getD_some]
    rfl
  | sync => exact ⟨memory, disk, trivial⟩

theorem Sound.fail (h : s.Sound apply init) {stage : SaveStage} (saving : s.saving = some stage)
    (n : ℕ) (safe : s.Safe (.fail n)) :
    ({ s.failed n stage with saving := none, healthy := false } : Persistence σ).Sound apply init := by
  obtain ⟨memory, disk, -⟩ := h
  cases stage with
  | marker =>
    obtain ⟨whole, reuse⟩ := safe saving
    exact ⟨memory, disk.piece whole s.nextId_le (base_reuse reuse) n, trivial⟩
  | flush => exact ⟨memory, disk, trivial⟩
  | snapshot => exact ⟨memory, disk, trivial⟩
  | rename => exact ⟨memory, disk, trivial⟩
  | syncDir => exact ⟨memory, disk, trivial⟩
  | dedup => exact ⟨memory, disk, trivial⟩
  | truncate => exact ⟨memory, disk, trivial⟩
  | sync => exact ⟨memory, disk, trivial⟩

theorem Sound.step {action : PersistenceAction} (h : s.Sound apply init) (safe : s.Safe action)
    (next : s.step apply init action = some s') : s'.Sound apply init := by
  cases action with
  | append f =>
    simp only [Persistence.step] at next
    split_ifs at next with free
    obtain rfl := Option.some.inj next
    refine ⟨?_, h.disk.append safe.2 safe.1 free.2, ?_⟩
    · rw [List.foldl_append, ← h.memory]
      rfl
    · rw [free.1]
      trivial
  | save =>
    simp only [Persistence.step] at next
    split_ifs at next
    obtain rfl := Option.some.inj next
    exact ⟨h.memory, h.disk, trivial⟩
  | proceed =>
    obtain ⟨stage, saving, rfl⟩ := Option.map_eq_some_iff.mp next
    exact h.proceed saving safe
  | fail n =>
    obtain ⟨stage, saving, rfl⟩ := Option.map_eq_some_iff.mp next
    exact h.fail saving n safe
  | restart =>
    obtain ⟨memory, recovered, rfl⟩ := Option.map_eq_some_iff.mp next
    obtain rfl : s.memory = memory := Option.some.inj (h.disk.recover.symm.trans recovered)
    exact ⟨h.memory, h.disk, trivial⟩

end Persistence

/-- In every run of safe appends and saves, with failures and crashes at any step, a restart restores
the effect of all writes, each once and in order. -/
theorem restart_restores {σ : Type} (apply : σ → Value → σ) (init : σ)
    {actions : List PersistenceAction} {s : Persistence σ}
    (run : Runs.exec (Persistence.step apply init) { memory := init } actions = some s)
    (safe : Runs.Each (Persistence.step apply init) Persistence.Safe { memory := init } actions) :
    s.recover apply init = some (s.written.foldl (fun m f => apply m f.value) init) := by
  have start : Persistence.Sound apply init { memory := init } :=
    ⟨rfl, ⟨[], [], by simp, .inl rfl, rfl, rfl⟩, trivial⟩
  have sound := Runs.invariant (fun _ _ _ h safe next => Persistence.Sound.step h safe next) run safe
    start
  rw [sound.disk.recover, sound.memory]

/-- Two frames of writes. -/
def frameA : Frame := [asBytes "SET", asBytes "a", asBytes "1"]

def frameB : Frame := [asBytes "SET", asBytes "b", asBytes "2"]

theorem restart_restores_marker :
    ∃ s : Persistence (List Value), s.saving = some .flush ∧
      s.recover (fun vs v => vs ++ [v]) [] =
        some (s.written.foldl (fun m f => (fun vs v => vs ++ [v]) m f.value) []) := by
  obtain ⟨s, run, saving⟩ : ∃ s, Runs.exec (Persistence.step (fun vs v => vs ++ [v]) [])
      { memory := [] } [.append frameA, .save, .proceed] = some s ∧ s.saving = some .flush :=
    ⟨_, rfl, rfl⟩
  have fits : Fits frameA := ⟨by decide, by decide⟩
  refine ⟨s, saving, restart_restores _ _ run ⟨⟨fits, [], by simp, rfl⟩, fun s₁ appended => ?_⟩⟩
  obtain rfl := Option.some.inj appended
  refine ⟨trivial, fun s₂ begun => ?_⟩
  obtain rfl := Option.some.inj begun
  exact ⟨fun _ => ⟨⟨[frameA], by simpa using fits, rfl⟩, by rintro saved ⟨⟩⟩, fun _ _ => trivial⟩

set_option maxRecDepth 2000 in
/-- A save that fails after it has installed its snapshot keeps its id for the next one.  A write in
between is then skipped by a restart: its frame stands before the repeated marker, and the snapshot
does not have it. -/
theorem repeated_marker_skips :
    ∃ s, Runs.exec (Persistence.step (fun vs v => vs ++ [v]) []) { memory := [] }
        [.append frameA, .save, .proceed, .proceed, .proceed, .proceed, .fail 0,
          .append frameB, .save, .proceed] = some s ∧
      s.written = [frameA, frameB] ∧
      (s.recover (fun vs v => vs ++ [v]) []).map List.length = some 1 :=
  ⟨_, rfl, rfl, rfl⟩

end Recached
