import Recached.Decoding
import Recached.Views

/-!
# Frames and absolute forms

The frame of an executed command decodes to the absolute form of the command, unless the absolute
form does not pass the parser or holds a score that is printed without its sign.
-/

namespace Recached

open Text

/-- The command that a frame decodes to, if it is one whole value that is accepted. -/
def decodeFrame (frame : Bytes) : Option Command :=
  match Value.parse frame with
  | .ok (value, consumed) =>
    if consumed = frame.length then (fromValue (normalise value)).toOption else none
  | .error _ => none

theorem serializeItems_bulks (parts : List Bytes) :
    Value.serializeItems (bulks parts) =
      parts.flatMap fun part => 36 :: Decimal.digits part.length ++ crlf ++ part ++ crlf := by
  induction parts with
  | nil => rfl
  | cons part parts ih =>
    rw [bulks_cons, Value.serializeItems_cons, ih, List.flatMap_cons]
    rfl

theorem respPush_eq (parts : List Bytes) : respPush parts = (Value.push (bulks parts)).serialize := by
  simp only [respPush, Value.serialize, serializeItems_bulks, length_bulks]

namespace Mutation

/-- The frame of the mutation passes the parser. -/
def Decodable (m : Mutation) : Prop := m.Acceptable ∧ Fits m.parts

/-- No score of the mutation changes when it is printed and read back. -/
def KeepsScores : Mutation → Prop
  | zAdd _ _ pairs => ∀ p ∈ pairs, wireScore p.1 = p.1
  | zIncrBy _ delta _ => wireScore delta = delta
  | _ => True

/-- The mutation updates scores only when they move in one direction. -/
def ComparesScores : Mutation → Prop
  | zAdd _ opts _ => opts.gt = true ∨ opts.lt = true
  | _ => False

/-- A command with the keys, members, fields, payloads, deadlines and numbers of the mutation; the
flags of `ZADD` may differ. -/
def SameContent (m : Mutation) (c : Command) : Prop :=
  match m with
  | zAdd key _ pairs => ∃ opts, c = .zAdd key opts pairs
  | m => c = m.toCommand

theorem fromArray_toOption (m : Mutation) (c : Command) :
    (fromArray (bulks m.parts)).toOption = some c ↔ m.Acceptable ∧ c = m.wire.toCommand := by
  rw [← decodes_iff]
  cases fromArray (bulks m.parts) <;> simp [Except.toOption]

theorem decodeFrame_parts (m : Mutation) (c : Command) :
    decodeFrame (respPush m.parts) = some c ↔ m.Decodable ∧ c = m.wire.toCommand := by
  unfold decodeFrame Decodable
  rw [respPush_eq]
  by_cases fits : Fits m.parts
  · have parsed := Value.parse_push fits []
    rw [List.append_nil] at parsed
    rw [parsed]
    simp [normalise, fromValue, fromArray_toOption, fits]
  · obtain ⟨e, failed, -⟩ := Value.parse_push_large fits []
    rw [List.append_nil] at failed
    rw [failed]
    simp [fits]

theorem wirePairs_eq_self {pairs : List (Binary64 × String)} :
    wirePairs pairs = pairs ↔ ∀ p ∈ pairs, wireScore p.1 = p.1 := by
  induction pairs with
  | nil => simp [wirePairs]
  | cons p pairs ih =>
    rw [List.forall_mem_cons, ← ih]
    simp [wirePairs, Prod.ext_iff]

theorem sameContent_wire (m : Mutation) : m.SameContent m.wire.toCommand ↔ m.KeepsScores := by
  cases m
  case zAdd key opts pairs =>
    simp [SameContent, wire, toCommand, KeepsScores, wirePairs_eq_self]
  case zIncrBy key delta member => simp [SameContent, wire, toCommand, KeepsScores]
  all_goals exact iff_of_true rfl trivial

theorem wireOptions_eq_self {opts : ZAddOptions} :
    wireOptions opts = opts ↔ ¬(opts.gt = true ∨ opts.lt = true) := by
  obtain ⟨condition, gt, lt, ch, incr⟩ := opts
  simp [wireOptions, eq_comm]

theorem toCommand_wire (m : Mutation) :
    m.toCommand = m.wire.toCommand ↔ m.KeepsScores ∧ ¬m.ComparesScores := by
  cases m
  case zAdd key opts pairs =>
    simp only [wire, toCommand, KeepsScores, ComparesScores, Command.zAdd.injEq, true_and]
    rw [eq_comm, wireOptions_eq_self, and_comm, eq_comm, wirePairs_eq_self]
  case zIncrBy key delta member => simp [wire, toCommand, KeepsScores, ComparesScores, eq_comm]
  all_goals exact iff_of_true rfl ⟨trivial, not_false⟩

end Mutation

/-! ## The frame of an executed command -/

/-- The engine's reply to `HINCRBYFLOAT` is a number in text. -/
theorem replyIsText_run (codec : Codec) (env : Env) (cmd : Command) (d : Data) :
    ReplyIsText cmd ((program codec env cmd).run env.now d).1 := by
  unfold ReplyIsText
  split
  case h_2 => trivial
  rename_i key field delta data reply
  have act : (hashIncrFloat field delta (Lapse.live env.now d key)).2 = .bulkString (some data) := reply
  unfold hashIncrFloat typedEntry addFloatToField at act
  dsimp only at act
  split at act
  · split_ifs at act <;> simp only [notFinite, blob, reduceCtorEq, Value.bulkString.injEq,
      Option.some.injEq] at act
    exact act ▸ isText_formatScore _
  · split at act
    · split_ifs at act <;> simp only [notFinite, blob, reduceCtorEq, Value.bulkString.injEq,
        Option.some.injEq] at act
      exact act ▸ isText_formatScore _
    · exact absurd act nofun

/-- The frame decodes to a command with the content of the command's absolute form. -/
def DecodesToAbsolute (now : ℕ) (cmd : Command) (reply : Value) (frame : Bytes) : Prop :=
  ∃ m, absolute now reply cmd = some m ∧ ∃ c, decodeFrame frame = some c ∧ m.SameContent c

/-- The absolute form of an executed command survives being sent as a frame: its checked keys are
valid, its lists are not empty, its deadline and counts are signed numbers, it keeps within the
limits of the parser, and none of its scores is a negative zero or an unusual NaN. -/
def Encodable (now : ℕ) (cmd : Command) (reply : Value) : Prop :=
  ∀ m ∈ absolute now reply cmd, m.Decodable ∧ m.KeepsScores

theorem broadcastFor_eq {cmd : Command} {reply : Value} (text : ReplyIsText cmd reply) (now : ℕ) :
    broadcastFor cmd reply now = (absolute now reply cmd).map fun m => respPush m.parts := by
  rw [broadcastFor, frameParts_eq text, Option.map_map]
  rfl

theorem replyIsText (codec : Codec) (env : Env) (cmd : Command) {s : KeyValueStore}
    (ok : (executeReporting codec env cmd s).1.isError = false) :
    ReplyIsText cmd (executeReporting codec env cmd s).1 := by
  cases direct : readsKeyspace cmd with
  | false =>
    obtain ⟨d, reply⟩ := executeReporting_reply codec env direct ok
    rw [reply]
    exact replyIsText_run codec env cmd d
  | true => cases cmd <;> trivial

/-- An emitted frame decodes to the content of the absolute form exactly when that is encodable, and
to the absolute form itself when in addition it does not carry a flag that compares scores. -/
theorem frame_decodes_iff (codec : Codec) (env : Env) (s : KeyValueStore) (cmd : Command)
    (frame : Bytes) (ok : (executeReporting codec env cmd s).1.isError = false)
    (emitted : broadcastFor cmd (executeReporting codec env cmd s).1 env.now = some frame) :
    (DecodesToAbsolute env.now cmd (executeReporting codec env cmd s).1 frame ↔
        Encodable env.now cmd (executeReporting codec env cmd s).1) ∧
      (decodeFrame frame =
          (absolute env.now (executeReporting codec env cmd s).1 cmd).map Mutation.toCommand ↔
        Encodable env.now cmd (executeReporting codec env cmd s).1 ∧
          ∀ m ∈ absolute env.now (executeReporting codec env cmd s).1 cmd, ¬m.ComparesScores) := by
  rw [broadcastFor_eq (replyIsText codec env cmd ok)] at emitted
  obtain ⟨m, form, rfl⟩ := Option.map_eq_some_iff.mp emitted
  simp only [DecodesToAbsolute, Encodable, form, Option.map_some, Option.mem_def, Option.some.injEq,
    forall_eq', m.decodeFrame_parts, exists_eq_left', m.toCommand_wire]
  refine ⟨⟨?_, fun h => ⟨m.wire.toCommand, ⟨h.1, rfl⟩, m.sameContent_wire.mpr h.2⟩⟩, and_assoc.symm⟩
  rintro ⟨_, ⟨decodable, rfl⟩, same⟩
  exact ⟨decodable, m.sameContent_wire.mp same⟩

theorem frame_decodes_pSetEx :
    (DecodesToAbsolute 5 (.pSetEx "k" 100 [118])
          (executeReporting .literals (.fixed 5) (.pSetEx "k" 100 [118]) {}).1
          (respPush (Mutation.set "k" [118] (.till 105)).parts) ↔
        Encodable 5 (.pSetEx "k" 100 [118])
          (executeReporting .literals (.fixed 5) (.pSetEx "k" 100 [118]) {}).1) ∧
      (decodeFrame (respPush (Mutation.set "k" [118] (.till 105)).parts) =
          (absolute 5 (executeReporting .literals (.fixed 5) (.pSetEx "k" 100 [118]) {}).1
            (.pSetEx "k" 100 [118])).map Mutation.toCommand ↔
        Encodable 5 (.pSetEx "k" 100 [118])
            (executeReporting .literals (.fixed 5) (.pSetEx "k" 100 [118]) {}).1 ∧
          ∀ m ∈ absolute 5 (executeReporting .literals (.fixed 5) (.pSetEx "k" 100 [118]) {}).1
            (.pSetEx "k" 100 [118]), ¬m.ComparesScores) :=
  frame_decodes_iff .literals (.fixed 5) {} (.pSetEx "k" 100 [118]) _ (by decide) rfl

/-- A relative deadline can pass the parser although the absolute one does not. -/
theorem frame_refused_pSetEx :
    fromValue (arrayOf [bulk "PSETEX", bulk "k", bulk "9223372036854775807", bulk "v"]) =
        .ok (.pSetEx "k" 9223372036854775807 (asBytes "v")) ∧
      (executeReporting .literals (.fixed 1) (.pSetEx "k" 9223372036854775807 (asBytes "v")) {}).1.isError =
        false ∧
      ∃ frame, broadcastFor (.pSetEx "k" 9223372036854775807 (asBytes "v"))
          (executeReporting .literals (.fixed 1) (.pSetEx "k" 9223372036854775807 (asBytes "v")) {}).1 1 =
            some frame ∧ decodeFrame frame = none := by
  refine ⟨rfl, by decide, respPush (Mutation.set "k" (asBytes "v") (.till 9223372036854775808)).parts,
    rfl, ?_⟩
  refine Option.eq_none_iff_forall_ne_some.mpr fun c decoded => ?_
  obtain ⟨⟨⟨-, -, fits⟩, -⟩, -⟩ := (Mutation.decodeFrame_parts _ c).mp decoded
  exact absurd fits (by decide)

end Recached
