import Recached.Frames
import Recached.Outbox
import Recached.Reading

/-!
# The envelope of a write

A queued write is sent inside a `DEDUP` envelope, which is spliced into its encoded frame.  The server
looks at the arguments of `DEDUP` as it does at those of any command, so that an argument which the plain
command takes as it is must be text inside the envelope.
-/

namespace Recached

open Text

/-! ## The frame of a write -/

theorem toRespBytes_eq (parts : List Bytes) : toRespBytes parts = (arrayOf (bulks parts)).serialize := by
  rw [toRespBytes, arrayOf, Value.serialize, serializeItems_bulks, length_bulks]

theorem length_serialize_bulks (parts : List Bytes) :
    (arrayOf (bulks parts)).serialize.length = (Value.push (bulks parts)).serialize.length := by
  rw [arrayOf, Value.serialize, Value.serialize]
  simp only [List.length_append, List.length_cons]

theorem length_le_of_mem {part : Bytes} {parts : List Bytes} (h : part ∈ parts) :
    part.length ≤ (Value.serializeItems (bulks parts)).length := by
  induction parts with
  | nil => cases h
  | cons p parts ih =>
    rw [bulks_cons, Value.serializeItems_cons, List.length_append]
    rcases List.mem_cons.mp h with rfl | later
    · have : part.length ≤ (Value.bulkString (some part)).serialize.length := by
        simp [Value.serialize]
        omega
      omega
    · exact (ih later).trans (Nat.le_add_left _ _)

/-- The array of the parts keeps within the limits of the parser if and only if the parts do. -/
theorem within_bulks (levels : ℕ) (parts : List Bytes) :
    (arrayOf (bulks parts)).within (levels + 1) = true ↔ Fits parts := by
  have long : (Value.push (bulks parts)).serialize.length ≤ maxTotalMessageBytes →
      ∀ part ∈ parts, part.length ≤ maxBulkStringBytes := by
    intro total part h
    rw [Value.push_serialize_length] at total
    have := length_le_of_mem h
    have : maxTotalMessageBytes = maxBulkStringBytes := rfl
    omega
  have each : Value.areWithin levels (bulks parts) = true ↔ ∀ part ∈ parts, part.length ≤ maxBulkStringBytes := by
    rw [Value.areWithin_eq, List.all_eq_true, bulks, List.forall_mem_map]
    simp only [Value.within, decide_eq_true_eq]
  simp only [arrayOf, Value.within, Bool.and_eq_true, decide_eq_true_eq, length_bulks, Nat.add_sub_cancel, each]
  rw [show (Value.array (some (bulks parts))).serialize.length = _ from length_serialize_bulks parts]
  constructor
  · rintro ⟨⟨⟨-, count⟩, -⟩, total⟩
    exact ⟨count, total⟩
  · rintro ⟨count, total⟩
    exact ⟨⟨⟨by simp, count⟩, long total⟩, total⟩

theorem isPlain_bulks (parts : List Bytes) : (arrayOf (bulks parts)).isPlain = true := by
  rw [arrayOf, Value.isPlain, Value.arePlain_eq, List.all_eq_true, bulks, List.forall_mem_map]
  exact fun _ _ => rfl

/-- What the server reads of an encoded write. -/
theorem parse_toRespBytes (parts : List Bytes) (v : Value) :
    Value.parse (toRespBytes parts) = .ok (v, (toRespBytes parts).length) ↔
      Fits parts ∧ v = arrayOf (bulks parts) := by
  have plain := isPlain_bulks parts
  have limits : (arrayOf (bulks parts)).within maxArrayDepth = true ↔ Fits parts := within_bulks 15 parts
  rw [toRespBytes_eq]
  constructor
  · intro read
    have fits := (Value.legible_iff plain).mp ⟨_, read⟩
    rw [Value.parse_serialize plain fits] at read
    exact ⟨limits.mp fits, (Prod.ext_iff.mp (Except.ok.inj read)).1.symm⟩
  · rintro ⟨fits, rfl⟩
    exact Value.parse_serialize plain (limits.mpr fits)

/-! ## Splicing the envelope -/

/-- The parts of a write in its envelope. -/
def envelope (clientId : String) (wireId : ℕ) (parts : List Bytes) : List Bytes :=
  asBytes "DEDUP" :: asBytes clientId :: Decimal.digits wireId :: parts

/-- The epoch of a session and the id of a row in one number. -/
def SyncSession.wireId (c : SyncSession) (outboxId : ℕ) : ℕ := c.epoch * 2 ^ 32 + outboxId % 2 ^ 32

theorem crlfIndex_toRespBytes (parts : List Bytes) :
    crlfIndex (toRespBytes parts) = some ((Decimal.digits parts.length).length + 1) := by
  have plain : ∀ b ∈ (42 : UInt8) :: Decimal.digits parts.length, b ≠ 13 := by
    rw [List.forall_mem_cons]
    refine ⟨by decide, ?_⟩
    rintro b hb rfl
    exact absurd (Decimal.isDigit_of_mem_digits hb) (by decide)
  rw [toRespBytes, crlfIndex_append plain, List.length_cons]

/-- The number of parts is read from the head of the frame. -/
theorem count_toRespBytes {parts : List Bytes} :
    Decimal.parseU64 (((toRespBytes parts).take ((Decimal.digits parts.length).length + 1)).dropWhile (· = 42)) =
      if parts.length ≤ Decimal.u64Max then some parts.length else none := by
  have head : (toRespBytes parts).take ((Decimal.digits parts.length).length + 1) =
      42 :: Decimal.digits parts.length := by
    rw [toRespBytes, List.append_assoc]
    exact List.take_left' rfl
  have digits : (Decimal.digits parts.length).dropWhile (· = 42) = Decimal.digits parts.length := by
    rw [List.dropWhile_eq_self_iff]
    intro some star
    have := Decimal.isDigit_of_mem_digits (List.getElem_mem some)
    rw [of_decide_eq_true star] at this
    exact absurd this (by decide)
  rw [head, List.dropWhile_cons_of_pos (by rfl), digits, Decimal.parseU64, Decimal.parseUnsigned_digits]

theorem body_toRespBytes (parts : List Bytes) :
    (toRespBytes parts).drop ((Decimal.digits parts.length).length + 1 + 2) =
      Value.serializeItems (bulks parts) := by
  rw [toRespBytes, serializeItems_bulks]
  exact List.drop_left' (by simp [crlf])

/-- The frame of a write gets the envelope around it. -/
theorem wrapDedup_toRespBytes (c : SyncSession) {parts : List Bytes} (command : parts ≠ [])
    (count : parts.length ≤ Decimal.u64Max) (outboxId : ℕ) :
    c.wrapDedup (toRespBytes parts) outboxId =
      toRespBytes (envelope c.clientId (c.wireId outboxId) parts) := by
  have length : parts.length ≠ 0 := mt List.length_eq_zero_iff.mp command
  have body : toRespBytes (envelope c.clientId (c.wireId outboxId) parts) =
      42 :: Decimal.digits (parts.length + 3) ++ crlf ++
        ([asBytes "DEDUP", asBytes c.clientId, Decimal.digits (c.wireId outboxId)].flatMap fun part =>
          36 :: Decimal.digits part.length ++ crlf ++ part ++ crlf) ++ Value.serializeItems (bulks parts) := by
    rw [serializeItems_bulks, List.append_assoc, ← List.flatMap_append]
    rfl
  rw [body, SyncSession.wrapDedup, crlfIndex_toRespBytes]
  simp only [count_toRespBytes, if_pos count, Option.getD_some, body_toRespBytes]
  rw [if_neg length]
  rfl

/-- A frame that declares more parts than can be counted is left as it is. -/
theorem wrapDedup_uncounted (c : SyncSession) {parts : List Bytes} (many : Decimal.u64Max < parts.length)
    (outboxId : ℕ) : c.wrapDedup (toRespBytes parts) outboxId = toRespBytes parts := by
  rw [SyncSession.wrapDedup, crlfIndex_toRespBytes]
  simp only [count_toRespBytes, if_neg (not_le.mpr many), Option.getD_none, if_true]

/-! ## Decoding the envelope -/

theorem isText_of_fromUtf8 {b : Bytes} (h : fromUtf8 b ≠ none) : IsText b := by
  obtain ⟨s, read⟩ := Option.ne_none_iff_exists'.mp h
  exact ⟨s, asBytes_of_fromUtf8 read⟩

theorem invalidTextFrom_identifiers {name : String} (identifiers : ∀ j, isPayloadIndex name j = false) (i : ℕ)
    (bs : List Bytes) : invalidTextFrom name i (bulks bs) = none ↔ ∀ b ∈ bs, IsText b := by
  constructor
  · intro valid
    induction bs generalizing i with
    | nil => nofun
    | cons b bs ih =>
      rw [bulks_cons, invalidTextFrom, identifiers] at valid
      split_ifs at valid with invalid
      exact List.forall_mem_cons.mpr ⟨isText_of_fromUtf8 (by simpa using invalid), ih _ valid⟩
  · exact invalidTextFrom_text name i

theorem wireId_lt (c : SyncSession) (outboxId : ℕ) :
    (c.wireId outboxId : ℤ) ≤ Decimal.i64Max ↔ c.epoch < 2 ^ 31 := by
  unfold SyncSession.wireId Decimal.i64Max
  omega

/-- The command was wrapped already. -/
def Command.isDedup : Command → Bool
  | dedup .. => true
  | _ => false

/-- What the server takes an envelope for. -/
theorem fromArray_envelope {parts : List Bytes} {cmd : Command} (decodes : fromArray (bulks parts) = .ok cmd)
    (clientId : String) (wireId : ℕ) :
    fromArray (bulks (envelope clientId wireId parts)) = .ok (.dedup clientId wireId cmd) ↔
      (∀ part ∈ parts, IsText part) ∧ (clientId ≠ "" ∧ (asBytes clientId).length ≤ 64) ∧
        (wireId : ℤ) ≤ Decimal.i64Max ∧ cmd.isDedup = false := by
  have name : commandName (.bulkString (some (asBytes "DEDUP"))) = .ok "DEDUP" := by
    rw [commandName, fromUtf8Lossy_asBytes]
    rfl
  have identifiers : ∀ j, isPayloadIndex "DEDUP" j = false := fun _ => rfl
  have arguments := invalidTextFrom_identifiers identifiers 1
    (asBytes clientId :: Decimal.digits wireId :: parts)
  rw [List.forall_mem_cons, List.forall_mem_cons, and_iff_right (isText_asBytes _),
    and_iff_right (Decimal.isText_digits _)] at arguments
  cases parts with
  | nil => cases decodes
  | cons part parts =>
    simp only [bulks_cons] at decodes arguments
    rw [← arguments, envelope, bulks_cons, bulks_cons, bulks_cons, bulks_cons, fromArray]
    simp only [name, bind, Except.bind, stringArg_text, decodes]
    cases text : invalidTextFrom "DEDUP" 1 (.bulkString (some (asBytes clientId)) ::
        .bulkString (some (Decimal.digits wireId)) :: .bulkString (some part) :: bulks parts) with
    | some position => simp
    | none =>
      have known : (clientId ≠ "" ∧ (asBytes clientId).length ≤ 64) ↔
          ¬(clientId = "" ∨ 64 < (asBytes clientId).length) := by
        rw [not_or, not_lt]
      rw [known, and_iff_right rfl]
      by_cases unnamed : clientId = "" ∨ 64 < (asBytes clientId).length
      · simp only [if_true, if_pos unnamed, reduceCtorEq, false_iff]
        exact fun h => h.1 unnamed
      · simp only [if_true, if_neg unnamed]
        cases id : extractInt (.bulkString (some (Decimal.digits wireId))) with
        | error e =>
          have large : ¬(wireId : ℤ) ≤ Decimal.i64Max := fun fits => by
            rw [(extractInt_digits wireId wireId).mpr ⟨fits, rfl⟩] at id
            cases id
          simp [large]
        | ok n =>
          obtain ⟨fits, rfl⟩ := (extractInt_digits wireId n).mp id
          have sign : ¬(wireId : ℤ) < 0 := by omega
          rw [and_iff_right unnamed, and_iff_right fits]
          simp only [if_neg sign]
          cases cmd <;> simp [Command.isDedup]

/-- The server decodes the bytes that are sent for a write to that write in its envelope if and only if all
arguments are text, the client has an id of up to 64 bytes and an epoch below `2 ^ 31`, the write was not wrapped
before, and the envelope keeps within the limits of the parser. -/
theorem wrapDedup_decodes_iff (c : SyncSession) {parts : List Bytes} {cmd : Command}
    (decodes : fromValue (arrayOf (bulks parts)) = .ok cmd) (outboxId : ℕ) :
    (∃ v, Value.parse (c.wrapDedup (toRespBytes parts) outboxId) =
        .ok (v, (c.wrapDedup (toRespBytes parts) outboxId).length) ∧
      fromValue v = .ok (.dedup c.clientId (c.wireId outboxId) cmd)) ↔
      (∀ part ∈ parts, IsText part) ∧ (c.clientId ≠ "" ∧ (asBytes c.clientId).length ≤ 64) ∧
        c.epoch < 2 ^ 31 ∧ cmd.isDedup = false ∧ Fits (envelope c.clientId (c.wireId outboxId) parts) := by
  have decodes : fromArray (bulks parts) = .ok cmd := decodes
  have command : parts ≠ [] := by
    rintro rfl
    cases decodes
  by_cases count : parts.length ≤ Decimal.u64Max
  · rw [wrapDedup_toRespBytes c command count]
    simp only [parse_toRespBytes, ← wireId_lt c outboxId]
    have wrapped := fromArray_envelope decodes c.clientId (c.wireId outboxId)
    constructor
    · rintro ⟨_, ⟨fits, rfl⟩, decoded⟩
      obtain ⟨text, named, small, plain⟩ := wrapped.mp decoded
      exact ⟨text, named, small, plain, fits⟩
    · rintro ⟨text, named, small, plain, fits⟩
      exact ⟨_, ⟨fits, rfl⟩, wrapped.mpr ⟨text, named, small, plain⟩⟩
  · -- neither the frame nor its envelope can be parsed
    rw [wrapDedup_uncounted c (not_le.mp count)]
    simp only [parse_toRespBytes]
    have large : ¬parts.length ≤ maxArrayElements := fun few =>
      count (few.trans (by norm_num [maxArrayElements, Decimal.u64Max]))
    constructor
    · rintro ⟨_, ⟨fits, -⟩, -⟩
      exact absurd fits.1 large
    · rintro ⟨-, -, -, -, fits⟩
      have := fits.1
      simp only [envelope, List.length_cons] at this
      omega

/-- `APPEND k v` in its envelope. -/
theorem wrapDedup_decodes_append :
    let c : SyncSession := { clientId := "tab", epoch := 3 }
    let bytes := c.wrapDedup (toRespBytes [asBytes "APPEND", asBytes "k", asBytes "v"]) 5
    ∃ v, Value.parse bytes = .ok (v, bytes.length) ∧
      fromValue v = .ok (.dedup "tab" (3 * 2 ^ 32 + 5) (.append "k" (asBytes "v"))) := by
  refine (wrapDedup_decodes_iff { clientId := "tab", epoch := 3 } rfl 5).mpr
    ⟨?_, by decide, by decide, rfl, by decide⟩
  simp [isText_asBytes]

/-- The server stores a byte that is no text for the plain command, and refuses it in the envelope. -/
theorem wrapDedup_binary :
    let c : SyncSession := { clientId := "tab" }
    let parts : List Bytes := [asBytes "APPEND", asBytes "k", [255]]
    let bytes := c.wrapDedup (toRespBytes parts) 0
    fromValue (arrayOf (bulks parts)) = .ok (.append "k" [255]) ∧
      ¬∃ v, Value.parse bytes = .ok (v, bytes.length) ∧
        fromValue v = .ok (.dedup "tab" 0 (.append "k" [255])) := by
  have decodes : fromArray (bulks [asBytes "APPEND", asBytes "k", [255]]) = .ok (.append "k" [255]) := rfl
  refine ⟨decodes, ?_⟩
  rintro ⟨v, read, decoded⟩
  rw [wrapDedup_toRespBytes _ (by simp) (by decide), parse_toRespBytes] at read
  obtain ⟨-, rfl⟩ := read
  have text := ((fromArray_envelope decodes "tab" 0).mp decoded).1 [255] (by simp)
  have : (fromUtf8 [255]).isNone = true := by decide
  rw [text.fromUtf8_isNone] at this
  cases this

end Recached
