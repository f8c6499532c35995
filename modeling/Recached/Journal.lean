import Recached.Frames

/-!
# The append-only file, frame by frame

The file is the concatenation of its frames.  As long as the frames keep within the limits of the
parser, replaying it is executing them one after the other from the last matching checkpoint marker
on; what an interrupted append left behind the last frame does not count.
-/

namespace Recached

open Text

/-- A frame of the file: the byte strings it carries. -/
abbrev Frame := List Bytes

def fileOf (frames : List Frame) : Bytes := frames.flatMap respPush

@[simp] theorem fileOf_nil : fileOf [] = [] := rfl

@[simp] theorem fileOf_cons (f : Frame) (frames : List Frame) :
    fileOf (f :: frames) = respPush f ++ fileOf frames := rfl

@[simp] theorem fileOf_append (a b : List Frame) : fileOf (a ++ b) = fileOf a ++ fileOf b :=
  List.flatMap_append

namespace Frame

/-- The value a frame is read as. -/
def value (f : Frame) : Value := .push (bulks f)

/-- The id of a checkpoint marker. -/
def marker (f : Frame) : Option ℕ := checkpointMarker f.value

end Frame

/-- The frames after the last marker with this id, if there is one. -/
def lastMarker (checkpoint : ℕ) : List Frame → Option (List Frame)
  | [] => none
  | f :: frames =>
    match lastMarker checkpoint frames with
    | some rest => some rest
    | none => if f.marker = some checkpoint then some frames else none

/-- The frames a replay starts from. -/
def resumed (checkpoint : ℕ) (frames : List Frame) : List Frame :=
  (lastMarker checkpoint frames).getD frames

/-- The values of the frames that are not markers. -/
def commandsOf : List Frame → List Value
  | [] => []
  | f :: frames => if f.marker.isSome then commandsOf frames else f.value :: commandsOf frames

/-- Execute values in order; also how many were executed. -/
def executeValues (codec : Codec) (envs : ℕ → Env) :
    List Value → (replayed : ℕ) → KeyValueStore → Option (ℕ × KeyValueStore)
  | [], replayed, store => some (replayed, store)
  | v :: vs, replayed, store =>
    (replayCommand codec (envs replayed) 0 v store).toOption.bind fun store =>
      executeValues codec envs vs (replayed + 1) store

/-- The values a replay executes from `offset` on, if it can read the file. -/
def executedFrom (bytes : Bytes) : (fuel offset : ℕ) → Option (List Value)
  | 0, _ => some []
  | fuel + 1, offset =>
    if bytes.length ≤ offset then some []
    else
      match Value.parse (bytes.drop offset) with
      | .ok (value, consumed) =>
        if (checkpointMarker value).isSome then executedFrom bytes fuel (offset + consumed)
        else (executedFrom bytes fuel (offset + consumed)).map (value :: ·)
      | .error e => if e.isIncomplete then some [] else none

/-- The values that a replay of the file executes. -/
def executedValues (checkpoint : ℕ) (bytes : Bytes) : Option (List Value) :=
  (findReplayStart checkpoint bytes (bytes.length + 1) 0 0).toOption.bind
    (executedFrom bytes (bytes.length + 1))

/-- The bytes behind the last complete frame. -/
def Unfinished (tail : Bytes) : Prop :=
  tail = [] ∨ ∃ e, Value.parse tail = .error e ∧ e.isIncomplete

/-! ## Reading a file -/

theorem parse_respPush {f : Frame} (fits : Fits f) (rest : Bytes) :
    Value.parse (respPush f ++ rest) = .ok (f.value, (respPush f).length) := by
  rw [respPush_eq]
  exact Value.parse_push fits rest

theorem respPush_pos (f : Frame) : 0 < (respPush f).length := by
  rw [respPush_eq, Value.push_serialize_length]
  omega

theorem commandsOf_append (a b : List Frame) :
    commandsOf (a ++ b) = commandsOf a ++ commandsOf b := by
  induction a with
  | nil => rfl
  | cons f a ih =>
    rw [List.cons_append, commandsOf, commandsOf, ih]
    split_ifs <;> rfl

theorem length_le_fileOf (frames : List Frame) : frames.length ≤ (fileOf frames).length := by
  induction frames with
  | nil => exact le_rfl
  | cons f frames ih =>
    have := respPush_pos f
    rw [fileOf_cons, List.length_append, List.length_cons]
    omega

theorem lastMarker_suffix {checkpoint : ℕ} {frames rest : List Frame}
    (h : lastMarker checkpoint frames = some rest) : rest <:+ frames := by
  induction frames with
  | nil => cases h
  | cons f frames ih =>
    rw [lastMarker] at h
    cases last : lastMarker checkpoint frames with
    | some rest' =>
      simp only [last, Option.some.injEq] at h
      subst h
      exact (ih last).trans (List.suffix_cons f frames)
    | none =>
      simp only [last] at h
      split_ifs at h
      exact Option.some.inj h ▸ List.suffix_cons f frames

/-- Another frame behind the last marker. -/
theorem resumed_concat {checkpoint : ℕ} {f : Frame} (other : f.marker ≠ some checkpoint)
    (frames : List Frame) : resumed checkpoint (frames ++ [f]) = resumed checkpoint frames ++ [f] := by
  have last : lastMarker checkpoint (frames ++ [f]) =
      (lastMarker checkpoint frames).map fun rest => rest ++ [f] := by
    induction frames with
    | nil => simp [lastMarker, other]
    | cons g frames ih =>
      rw [List.cons_append, lastMarker, lastMarker, ih]
      cases lastMarker checkpoint frames with
      | some rest => rfl
      | none => simp only [Option.map_none]; split_ifs <;> rfl
  rw [resumed, resumed, last]
  cases lastMarker checkpoint frames <;> rfl

theorem resumed_marker {checkpoint : ℕ} {f : Frame} (marker : f.marker = some checkpoint)
    (frames : List Frame) : resumed checkpoint (frames ++ [f]) = [] := by
  have last : lastMarker checkpoint (frames ++ [f]) = some [] := by
    induction frames with
    | nil => simp [lastMarker, marker]
    | cons g frames ih => rw [List.cons_append, lastMarker, ih]
  rw [resumed, last, Option.getD_some]

/-- The position of the frames after the last marker, in a file read from `offset` on. -/
def resumePoint (checkpoint : ℕ) (frames : List Frame) (offset start : ℕ) : ℕ :=
  match lastMarker checkpoint frames with
  | some rest => offset + (fileOf frames).length - (fileOf rest).length
  | none => start

theorem replayCommand_offset (codec : Codec) (env : Env) (offset : ℕ) (v : Value)
    (store : KeyValueStore) :
    (replayCommand codec env offset v store).toOption =
      (replayCommand codec env 0 v store).toOption := by
  unfold replayCommand
  split
  · rfl
  · split <;> rfl

/-- The search for the marker goes through complete frames one by one. -/
theorem findReplayStart_frames (checkpoint : ℕ) {frames : List Frame}
    (fits : ∀ f ∈ frames, Fits f) (pre tail : Bytes) (fuel start : ℕ) :
    findReplayStart checkpoint (pre ++ fileOf frames ++ tail) (frames.length + fuel) pre.length
        start =
      findReplayStart checkpoint (pre ++ fileOf frames ++ tail) fuel
        (pre.length + (fileOf frames).length)
        (resumePoint checkpoint frames pre.length start) := by
  induction frames generalizing pre start with
  | nil => simp [resumePoint, lastMarker]
  | cons f frames ih =>
    have positive := respPush_pos f
    have file : pre ++ fileOf (f :: frames) ++ tail = (pre ++ respPush f) ++ fileOf frames ++ tail := by
      simp
    have here : (pre ++ fileOf (f :: frames) ++ tail).drop pre.length =
        respPush f ++ (fileOf frames ++ tail) := by simp
    have more : ¬(pre ++ fileOf (f :: frames) ++ tail).length ≤ pre.length := by
      simp only [List.length_append, fileOf_cons]
      omega
    have next := ih (fun g hg => fits g (List.mem_cons_of_mem f hg)) (pre ++ respPush f)
    rw [List.length_cons, Nat.add_right_comm, findReplayStart, if_neg more, here,
      parse_respPush (fits f List.mem_cons_self)]
    simp only [file]
    rw [← List.length_append, next, List.length_append, fileOf_cons, List.length_append, ← add_assoc]
    congr 1
    rw [resumePoint, resumePoint, lastMarker]
    cases last : lastMarker checkpoint frames with
    | some rest => simp only [fileOf_cons, List.length_append, add_assoc]
    | none =>
      by_cases marker : f.marker = some checkpoint
      · have marker' : checkpointMarker f.value = some checkpoint := marker
        simp only [marker, marker', if_true, fileOf_cons, List.length_append]
        omega
      · have marker' : ¬checkpointMarker f.value = some checkpoint := marker
        simp only [marker, marker', if_false]

theorem executeValues_append (codec : Codec) (envs : ℕ → Env) (vs ws : List Value) (replayed : ℕ)
    (store : KeyValueStore) :
    executeValues codec envs (vs ++ ws) replayed store =
      (executeValues codec envs vs replayed store).bind fun r =>
        executeValues codec envs ws r.1 r.2 := by
  induction vs generalizing replayed store with
  | nil => rfl
  | cons v vs ih =>
    rw [List.cons_append, executeValues, executeValues]
    cases (replayCommand codec (envs replayed) 0 v store).toOption with
    | none => rfl
    | some store' => exact ih (replayed + 1) store'

/-- A replay reads values and executes them. -/
theorem replayFrom_eq (codec : Codec) (envs : ℕ → Env) (bytes : Bytes) (fuel offset replayed : ℕ)
    (store : KeyValueStore) :
    (replayFrom codec envs bytes fuel offset replayed store).toOption =
      (executedFrom bytes fuel offset).bind fun vs => executeValues codec envs vs replayed store := by
  induction fuel generalizing offset replayed store with
  | zero => rfl
  | succ fuel ih =>
    rw [replayFrom, executedFrom]
    split_ifs
    · rfl
    · cases Value.parse (bytes.drop offset) with
      | error e =>
        simp only
        split_ifs <;> rfl
      | ok r =>
        obtain ⟨value, consumed⟩ := r
        simp only
        split_ifs
        · exact ih _ _ _
        · rw [Option.bind_map]
          cases done : replayCommand codec (envs replayed) offset value store with
          | error e =>
            have failed : (replayCommand codec (envs replayed) 0 value store).toOption = none := by
              rw [← replayCommand_offset codec _ offset, done]
              rfl
            cases executedFrom bytes fuel (offset + consumed) with
            | none => rfl
            | some vs => simp only [Option.bind_some, Function.comp_apply, executeValues, failed]; rfl
          | ok store' =>
            have executed := congrArg Except.toOption done
            rw [replayCommand_offset] at executed
            simp only [ih, Function.comp_def, executeValues, executed]
            rfl

theorem replayAof_eq (codec : Codec) (envs : ℕ → Env) (bytes : Bytes) (checkpoint : ℕ)
    (store : KeyValueStore) :
    (replayAofFromCheckpoint codec envs bytes checkpoint store).toOption =
      (executedValues checkpoint bytes).bind fun vs => executeValues codec envs vs 0 store := by
  rw [replayAofFromCheckpoint, executedValues]
  cases findReplayStart checkpoint bytes (bytes.length + 1) 0 0 with
  | error e => rfl
  | ok start => exact replayFrom_eq codec envs bytes _ start 0 store

theorem executedFrom_frames {frames : List Frame} (fits : ∀ f ∈ frames, Fits f) (pre tail : Bytes)
    (fuel : ℕ) :
    executedFrom (pre ++ fileOf frames ++ tail) (frames.length + fuel) pre.length =
      (executedFrom (pre ++ fileOf frames ++ tail) fuel
        (pre.length + (fileOf frames).length)).map (commandsOf frames ++ ·) := by
  induction frames generalizing pre with
  | nil => simp [commandsOf]
  | cons f frames ih =>
    have file : pre ++ fileOf (f :: frames) ++ tail = (pre ++ respPush f) ++ fileOf frames ++ tail := by
      simp
    have here : (pre ++ fileOf (f :: frames) ++ tail).drop pre.length =
        respPush f ++ (fileOf frames ++ tail) := by simp
    have positive := respPush_pos f
    have more : ¬(pre ++ fileOf (f :: frames) ++ tail).length ≤ pre.length := by
      simp only [List.length_append, fileOf_cons]
      omega
    have next := ih (fun g hg => fits g (List.mem_cons_of_mem f hg)) (pre ++ respPush f)
    have length : pre.length + (fileOf (f :: frames)).length =
        (pre ++ respPush f).length + (fileOf frames).length := by simp [add_assoc]
    rw [List.length_cons, Nat.add_right_comm, executedFrom, if_neg more, here,
      parse_respPush (fits f List.mem_cons_self), length]
    simp only [file]
    rw [← List.length_append, next, commandsOf]
    by_cases marker : f.marker.isSome
    · have marker' : (checkpointMarker f.value).isSome := marker
      rw [if_pos marker, if_pos marker']
    · have marker' : ¬(checkpointMarker f.value).isSome := marker
      rw [if_neg marker, if_neg marker', Option.map_map]
      rfl

theorem findReplayStart_unfinished (checkpoint : ℕ) {tail : Bytes} (h : Unfinished tail)
    (pre : Bytes) {fuel : ℕ} (start : ℕ) :
    findReplayStart checkpoint (pre ++ tail) fuel pre.length start = .ok start := by
  cases fuel with
  | zero => rfl
  | succ fuel =>
    rw [findReplayStart]
    obtain rfl | ⟨e, parsed, incomplete⟩ := h
    · rw [if_pos (by simp)]
    · split_ifs
      · rfl
      · rw [List.drop_left, parsed]
        simp [incomplete]

theorem executedFrom_unfinished {tail : Bytes} (h : Unfinished tail) (pre : Bytes) (fuel : ℕ) :
    executedFrom (pre ++ tail) fuel pre.length = some [] := by
  cases fuel with
  | zero => rfl
  | succ fuel =>
    rw [executedFrom]
    obtain rfl | ⟨e, parsed, incomplete⟩ := h
    · rw [if_pos (by simp)]
    · split_ifs
      · rfl
      · rw [List.drop_left, parsed]
        simp [incomplete]

/-- Where the replay of a file of complete frames starts. -/
theorem exists_resumed (checkpoint : ℕ) (frames : List Frame) :
    ∃ done, frames = done ++ resumed checkpoint frames ∧
      resumePoint checkpoint frames 0 0 = (fileOf done).length := by
  rw [resumed, resumePoint]
  cases last : lastMarker checkpoint frames with
  | none => exact ⟨[], rfl, rfl⟩
  | some rest =>
    obtain ⟨done, rfl⟩ := lastMarker_suffix last
    exact ⟨done, rfl, by simp⟩

/-- The rounds that are enough to read a file, counted frame by frame. -/
theorem exists_rounds (frames : List Frame) (tail : Bytes) :
    ∃ fuel, (fileOf frames ++ tail).length + 1 = frames.length + (fuel + 1) ∧ tail.length ≤ fuel := by
  have enough := length_le_fileOf frames
  refine ⟨(fileOf frames ++ tail).length - frames.length, ?_, ?_⟩
  · rw [List.length_append]
    omega
  · rw [List.length_append]
    omega

/-- What a replay executes of complete frames and the bytes behind them, if it starts before these. -/
theorem executedFrom_resumed (checkpoint : ℕ) {frames : List Frame} (fits : ∀ f ∈ frames, Fits f)
    (tail : Bytes) :
    ∃ fuel, tail.length ≤ fuel ∧
      executedFrom (fileOf frames ++ tail) ((fileOf frames ++ tail).length + 1)
          (resumePoint checkpoint frames 0 0) =
        (executedFrom (fileOf frames ++ tail) (fuel + 1) (fileOf frames).length).map
          (commandsOf (resumed checkpoint frames) ++ ·) := by
  obtain ⟨done, split, point⟩ := exists_resumed checkpoint frames
  obtain ⟨fuel, rounds, enough⟩ := exists_rounds frames tail
  have rest := @executedFrom_frames (resumed checkpoint frames)
    (fun f hf => fits f (split ▸ List.mem_append_right done hf)) (fileOf done) tail
    (done.length + (fuel + 1))
  rw [← fileOf_append, ← split, ← List.length_append, ← fileOf_append, ← split] at rest
  refine ⟨done.length + fuel, by omega, ?_⟩
  have same : frames.length + (fuel + 1) =
      (resumed checkpoint frames).length + (done.length + (fuel + 1)) := by
    have := congrArg List.length split
    rw [List.length_append] at this
    omega
  rw [rounds, same, point, rest, add_assoc]

theorem findReplayStart_file (checkpoint : ℕ) {frames : List Frame} (fits : ∀ f ∈ frames, Fits f)
    (tail : Bytes) :
    ∃ fuel, tail.length ≤ fuel ∧
      findReplayStart checkpoint (fileOf frames ++ tail) ((fileOf frames ++ tail).length + 1) 0 0 =
        findReplayStart checkpoint (fileOf frames ++ tail) (fuel + 1) (fileOf frames).length
          (resumePoint checkpoint frames 0 0) := by
  obtain ⟨fuel, rounds, enough⟩ := exists_rounds frames tail
  have found := findReplayStart_frames checkpoint fits [] tail (fuel + 1) 0
  simp only [List.nil_append, List.length_nil, zero_add] at found
  exact ⟨fuel, enough, by rw [rounds, found]⟩

/-- A replay executes the frames from the last matching marker on. -/
theorem executedValues_file (checkpoint : ℕ) {frames : List Frame} (fits : ∀ f ∈ frames, Fits f)
    {tail : Bytes} (unfinished : Unfinished tail) :
    executedValues checkpoint (fileOf frames ++ tail) =
      some (commandsOf (resumed checkpoint frames)) := by
  obtain ⟨_, -, found⟩ := findReplayStart_file checkpoint fits tail
  obtain ⟨_, -, executed⟩ := executedFrom_resumed checkpoint fits tail
  rw [executedValues, found, findReplayStart_unfinished checkpoint unfinished]
  simp only [Except.toOption, Option.bind_some]
  rw [executed, executedFrom_unfinished unfinished, Option.map_some, List.append_nil]

theorem replayAof_file (codec : Codec) (envs : ℕ → Env) (checkpoint : ℕ) (store : KeyValueStore)
    {frames : List Frame} (fits : ∀ f ∈ frames, Fits f) {tail : Bytes} (unfinished : Unfinished tail) :
    (replayAofFromCheckpoint codec envs (fileOf frames ++ tail) checkpoint store).toOption =
      executeValues codec envs (commandsOf (resumed checkpoint frames)) 0 store := by
  rw [replayAof_eq, executedValues_file checkpoint fits unfinished, Option.bind_some]

end Recached
