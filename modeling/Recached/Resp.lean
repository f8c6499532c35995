import Recached.Lib.Decimal

/-!
# RESP values

The wire format: values, their encoding and the streaming parser with its limits.  The parser runs
with or without building the value it walks over; `parse` builds it.

`parse_respPush` says which lists of byte strings survive being sent as a push frame: all that keep
within the limits on elements and bytes.
-/

namespace Recached

/-- A RESP value. -/
inductive Value where
  | simpleString (s : String)
  | error (s : String)
  | integer (i : ℤ)
  | bulkString (data : Option Bytes)
  | array (items : Option (List Value))
  | push (items : List Value)
  | map (pairs : List (Value × Value))

def crlf : Bytes := [13, 10]

namespace Value

def isError : Value → Bool
  | error _ => true
  | _ => false

/-! ## Encoding -/

mutual

def serialize : Value → Bytes
  | simpleString s => 43 :: Text.asBytes s ++ crlf
  | error s => 45 :: Text.asBytes s ++ crlf
  | integer i => 58 :: Decimal.ofInt i ++ crlf
  | bulkString none => 36 :: 45 :: 49 :: crlf
  | bulkString (some data) => 36 :: Decimal.digits data.length ++ crlf ++ data ++ crlf
  | array none => 42 :: 45 :: 49 :: crlf
  | array (some items) => 42 :: Decimal.digits items.length ++ crlf ++ serializeItems items
  | push items => 62 :: Decimal.digits items.length ++ crlf ++ serializeItems items
  | map pairs => 37 :: Decimal.digits pairs.length ++ crlf ++ serializePairs pairs

def serializeItems : List Value → Bytes
  | [] => []
  | v :: vs => v.serialize ++ serializeItems vs

def serializePairs : List (Value × Value) → Bytes
  | [] => []
  | (k, v) :: ps => k.serialize ++ v.serialize ++ serializePairs ps

end

end Value

/-! ## Parsing -/

def maxArrayDepth : ℕ := 16

def maxArrayElements : ℕ := 1000000

def maxBulkStringBytes : ℕ := 64 * 1024 * 1024

def maxTotalMessageBytes : ℕ := 64 * 1024 * 1024

def minElementBytes : ℕ := 3

inductive ParseError where
  | incomplete (needed : ℕ)
  | invalidType (b : UInt8)
  | invalidHeader (what : String)
  | tooLarge (what : String) (declared max : ℕ) (unit : String)
  | depthExceeded
  | messageTooLarge
deriving DecidableEq

def ParseError.isIncomplete : ParseError → Bool
  | incomplete _ => true
  | _ => false

/-- The position of the first CRLF. -/
def crlfIndex : Bytes → Option ℕ
  | [] => none
  | b :: rest =>
    if b = 13 ∧ rest.head? = some 10 then some 0 else (crlfIndex rest).map (· + 1)

/-- The header line after the type byte, and the number of bytes up to its end. -/
def readUntilCrlf (buffer : Bytes) : Option (Bytes × ℕ) :=
  (crlfIndex buffer).map fun i => ((buffer.take i).drop 1, i + 2)

def needMore (buffer : Bytes) : ParseError := .incomplete (buffer.length + 1)

/-- Rebase the bound of an unfinished element onto the enclosing aggregate. -/
def widen (consumed outstanding : ℕ) : ParseError → ParseError
  | .incomplete needed => .incomplete (consumed + needed + outstanding * minElementBytes)
  | e => e

namespace Value

/-- A parsed frame, if it is built, and its length. -/
abbrev Parsed := Except ParseError (Option Value × ℕ)

def parseSimpleString (build : Bool) (buffer : Bytes) : Parsed :=
  match readUntilCrlf buffer with
  | some (data, len) => .ok (if build then some (simpleString (Text.fromUtf8Lossy data)) else none, len)
  | none => .error (needMore buffer)

def parseErrorString (build : Bool) (buffer : Bytes) : Parsed :=
  match readUntilCrlf buffer with
  | some (data, len) => .ok (if build then some (error (Text.fromUtf8Lossy data)) else none, len)
  | none => .error (needMore buffer)

def parseInteger (build : Bool) (buffer : Bytes) : Parsed :=
  match readUntilCrlf buffer with
  | some (data, len) =>
    match Decimal.parseI64 data with
    | some i => .ok (if build then some (integer i) else none, len)
    | none => .error (.invalidHeader "Invalid integer format")
  | none => .error (needMore buffer)

def parseBulkString (build : Bool) (buffer : Bytes) : Parsed :=
  match readUntilCrlf buffer with
  | some (data, headLen) =>
    match Decimal.parseI64 data with
    | none => .error (.invalidHeader "Invalid bulk string length")
    | some length =>
      if length = -1 then .ok (if build then some (bulkString none) else none, headLen)
      else if length < 0 then .error (.invalidHeader "Invalid bulk string length")
      else if maxBulkStringBytes < length.toNat then
        .error (.tooLarge "bulk string" length.toNat maxBulkStringBytes "bytes")
      else
        let stop := headLen + length.toNat + 2
        if buffer.length < stop then .error (.incomplete stop)
        else if (buffer.drop (headLen + length.toNat)).take 2 ≠ crlf then
          .error (.invalidHeader "bulk string payload is not terminated by CRLF")
        else
          let payload := (buffer.drop headLen).take length.toNat
          .ok (if build then some (bulkString (some payload)) else none, stop)
  | none => .error (needMore buffer)

/-- The elements of an aggregate of which `count` are still to come, from `offset` on. -/
def parseItems (inner : Bytes → Parsed) (buffer : Bytes) :
    (count offset : ℕ) → Except ParseError (List Value × ℕ)
  | 0, offset => .ok ([], offset)
  | count + 1, offset => do
    let (val, len) ← (inner (buffer.drop offset)).mapError (widen offset count)
    if maxTotalMessageBytes < offset + len then .error .messageTooLarge
    let (vals, stop) ← parseItems inner buffer count (offset + len)
    .ok (val.toList ++ vals, stop)

def parsePairs (inner : Bytes → Parsed) (buffer : Bytes) :
    (count offset : ℕ) → Except ParseError (List (Value × Value) × ℕ)
  | 0, offset => .ok ([], offset)
  | count + 1, offset => do
    let (k, klen) ← (inner (buffer.drop offset)).mapError (widen offset (count * 2 + 1))
    let (v, vlen) ← (inner (buffer.drop (offset + klen))).mapError
      (widen (offset + klen) (count * 2))
    if maxTotalMessageBytes < offset + klen + vlen then .error .messageTooLarge
    let (pairs, stop) ← parsePairs inner buffer count (offset + klen + vlen)
    .ok ((k.bind fun k => v.map fun v => (k, v)).toList ++ pairs, stop)

def parsePush (inner : Bytes → Parsed) (build : Bool) (buffer : Bytes) : Parsed :=
  match readUntilCrlf buffer with
  | some (data, offset) =>
    match Decimal.parseU64 data with
    | none => .error (.invalidHeader "Invalid push frame length")
    | some count =>
      if maxArrayElements < count then
        .error (.tooLarge "push frame" count maxArrayElements "elements")
      else do
        let (arr, stop) ← parseItems inner buffer count offset
        .ok (if build then some (push arr) else none, stop)
  | none => .error (needMore buffer)

def parseMap (inner : Bytes → Parsed) (build : Bool) (buffer : Bytes) : Parsed :=
  match readUntilCrlf buffer with
  | some (data, offset) =>
    match Decimal.parseU64 data with
    | none => .error (.invalidHeader "Invalid map length")
    | some count =>
      if maxArrayElements / 2 < count then
        .error (.tooLarge "map" count (maxArrayElements / 2) "pairs")
      else do
        let (pairs, stop) ← parsePairs inner buffer count offset
        .ok (if build then some (map pairs) else none, stop)
  | none => .error (needMore buffer)

def parseArray (inner : Bytes → Parsed) (build : Bool) (buffer : Bytes) : Parsed :=
  match readUntilCrlf buffer with
  | some (data, offset) =>
    match Decimal.parseI64 data with
    | none => .error (.invalidHeader "Invalid array length")
    | some count =>
      if count = -1 then .ok (if build then some (array none) else none, offset)
      else if count < 0 then .error (.invalidHeader "Invalid array length")
      else if maxArrayElements < count.toNat then
        .error (.tooLarge "array" count.toNat maxArrayElements "elements")
      else do
        let (arr, stop) ← parseItems inner buffer count.toNat offset
        .ok (if build then some (array (some arr)) else none, stop)
  | none => .error (needMore buffer)

/-- Parse one frame; `levels` is how many more aggregates may be nested. -/
def parseInner (build : Bool) : (levels : ℕ) → Bytes → Parsed
  | _, [] => .error (.incomplete 1)
  | 0, tag :: rest =>
    if tag = 43 then parseSimpleString build (tag :: rest)
    else if tag = 45 then parseErrorString build (tag :: rest)
    else if tag = 58 then parseInteger build (tag :: rest)
    else if tag = 36 then parseBulkString build (tag :: rest)
    else if tag = 42 ∨ tag = 62 ∨ tag = 37 then .error .depthExceeded
    else .error (.invalidType tag)
  | levels + 1, tag :: rest =>
    if tag = 43 then parseSimpleString build (tag :: rest)
    else if tag = 45 then parseErrorString build (tag :: rest)
    else if tag = 58 then parseInteger build (tag :: rest)
    else if tag = 36 then parseBulkString build (tag :: rest)
    else if tag = 42 then parseArray (parseInner build levels) build (tag :: rest)
    else if tag = 62 then parsePush (parseInner build levels) build (tag :: rest)
    else if tag = 37 then parseMap (parseInner build levels) build (tag :: rest)
    else .error (.invalidType tag)

/-- Parse the frame at the start of a buffer; also its length in bytes. -/
def parse (buffer : Bytes) : Except ParseError (Value × ℕ) :=
  match parseInner true maxArrayDepth buffer with
  | .ok (some v, n) => .ok (v, n)
  | .ok (none, _) => .error (.invalidHeader "internal: frame not built")
  | .error e => .error e

end Value

/-! ## Frames of byte strings -/

/-- Byte strings as RESP values. -/
def bulks (parts : List Bytes) : List Value := parts.map fun b => .bulkString (some b)

/-- A push frame of these byte strings keeps within the limits of the parser. -/
def Fits (parts : List Bytes) : Prop :=
  parts.length ≤ maxArrayElements ∧ (Value.push (bulks parts)).serialize.length ≤ maxTotalMessageBytes

instance (parts : List Bytes) : Decidable (Fits parts) := instDecidableAnd

theorem crlfIndex_append {ds : Bytes} (h : ∀ b ∈ ds, b ≠ 13) (rest : Bytes) :
    crlfIndex (ds ++ crlf ++ rest) = some ds.length := by
  induction ds with
  | nil => rfl
  | cons d ds ih =>
    have tail := ih fun b hb => h b (List.mem_cons_of_mem _ hb)
    rw [List.cons_append, List.cons_append, crlfIndex, tail, if_neg fun c => h d List.mem_cons_self c.1]
    rfl

theorem readUntilCrlf_digits {tag : UInt8} (h : tag ≠ 13) (n : ℕ) (rest : Bytes) :
    readUntilCrlf (tag :: Decimal.digits n ++ crlf ++ rest) =
      some (Decimal.digits n, (Decimal.digits n).length + 3) := by
  have plain : ∀ b ∈ tag :: Decimal.digits n, b ≠ 13 := by
    intro b hb
    rcases List.mem_cons.mp hb with rfl | hb
    · exact h
    · rintro rfl
      exact absurd (Decimal.isDigit_of_mem_digits hb) (by decide)
  rw [readUntilCrlf, crlfIndex_append plain, Option.map_some, List.append_assoc,
    List.take_left' rfl]
  rfl

namespace Value

theorem parseBulkString_serialize {data : Bytes} (h : data.length ≤ maxBulkStringBytes)
    (rest : Bytes) :
    parseBulkString true ((bulkString (some data)).serialize ++ rest) =
      .ok (some (bulkString (some data)), (bulkString (some data)).serialize.length) := by
  have head : (bulkString (some data)).serialize ++ rest =
      36 :: Decimal.digits data.length ++ crlf ++ (data ++ (crlf ++ rest)) := by
    simp [serialize]
  have drop_head : ((36 : UInt8) :: Decimal.digits data.length ++ crlf ++ (data ++ (crlf ++ rest))).drop
      ((Decimal.digits data.length).length + 3) = data ++ (crlf ++ rest) :=
    List.drop_left' (by simp [crlf])
  have small : (data.length : ℤ) ≤ Decimal.i64Max := by
    unfold maxBulkStringBytes at h
    unfold Decimal.i64Max
    omega
  have total : (bulkString (some data)).serialize.length =
      (Decimal.digits data.length).length + 3 + data.length + 2 := by
    simp [serialize, crlf]
    omega
  have closing : ((36 :: Decimal.digits data.length ++ crlf ++ (data ++ (crlf ++ rest))).drop
      ((Decimal.digits data.length).length + 3 + data.length)).take 2 = crlf := by
    rw [← List.drop_drop, drop_head, List.drop_left]
    rfl
  rw [head, parseBulkString, readUntilCrlf_digits (by decide)]
  simp only [Decimal.parseI64_digits, if_pos small]
  rw [if_neg (by omega), if_neg (by omega), if_neg (by simpa using h), if_neg, if_neg]
  · simp only [Int.toNat_natCast, drop_head, List.take_left, total]
    rfl
  · simpa only [Int.toNat_natCast, ne_eq, not_not] using closing
  · simp [crlf]
    omega

theorem parseBulkString_large {data : Bytes} (h : maxBulkStringBytes < data.length) (rest : Bytes) :
    ∃ e, parseBulkString true ((bulkString (some data)).serialize ++ rest) = .error e ∧
      e.isIncomplete = false := by
  have head : (bulkString (some data)).serialize ++ rest =
      36 :: Decimal.digits data.length ++ crlf ++ (data ++ (crlf ++ rest)) := by
    simp [serialize]
  rw [head, parseBulkString, readUntilCrlf_digits (by decide)]
  simp only [Decimal.parseI64_digits]
  split_ifs with small
  · simp only [Int.toNat_natCast]
    rw [if_neg (by omega), if_neg (by omega), if_pos h]
    exact ⟨_, rfl, rfl⟩
  · exact ⟨_, rfl, rfl⟩

theorem parseInner_bulk (levels : ℕ) (data rest : Bytes) :
    parseInner true levels ((bulkString (some data)).serialize ++ rest) =
      parseBulkString true ((bulkString (some data)).serialize ++ rest) := by
  cases levels <;> rfl

@[simp] theorem serializeItems_cons (v : Value) (vs : List Value) :
    serializeItems (v :: vs) = v.serialize ++ serializeItems vs := rfl

theorem parseItems_ok {inner : Bytes → Parsed} {buffer : Bytes} {count offset len : ℕ}
    {val : Option Value} (h : inner (buffer.drop offset) = .ok (val, len)) :
    parseItems inner buffer (count + 1) offset =
      if maxTotalMessageBytes < offset + len then .error .messageTooLarge
      else (parseItems inner buffer count (offset + len)).map fun r => (val.toList ++ r.1, r.2) := by
  rw [parseItems, h]
  simp only [Except.mapError, bind, Except.bind]
  split
  · rfl
  · cases parseItems inner buffer count (offset + len) <;> rfl

theorem parseItems_error {inner : Bytes → Parsed} {buffer : Bytes} {count offset : ℕ}
    {e : ParseError} (h : inner (buffer.drop offset) = .error e) :
    parseItems inner buffer (count + 1) offset = .error (widen offset count e) := by
  rw [parseItems, h]
  rfl

/-- The elements of a frame of byte strings are read back as long as the frame keeps within the
limit on its length. -/
theorem parseItems_bulks (levels : ℕ) (parts : List Bytes) (pre rest : Bytes)
    (fits : pre.length + (serializeItems (bulks parts)).length ≤ maxTotalMessageBytes) :
    parseItems (parseInner true levels) (pre ++ serializeItems (bulks parts) ++ rest) parts.length
        pre.length =
      .ok (bulks parts, pre.length + (serializeItems (bulks parts)).length) := by
  induction parts generalizing pre with
  | nil => rfl
  | cons data parts ih =>
    simp only [bulks, List.map_cons, serializeItems_cons, List.length_append] at fits ih ⊢
    set element := (bulkString (some data)).serialize with element_def
    have small : data.length ≤ maxBulkStringBytes := by
      have : data.length ≤ element.length := by simp [element_def, serialize]; omega
      have : maxTotalMessageBytes = maxBulkStringBytes := rfl
      omega
    have first (tail : Bytes) :
        parseInner true levels ((pre ++ (element ++ tail)).drop pre.length) =
          .ok (some (bulkString (some data)), element.length) := by
      rw [List.drop_left, element_def, parseInner_bulk, parseBulkString_serialize small]
    have rest := ih (pre ++ element) (by rw [List.length_append]; omega)
    simp only [List.append_assoc, List.length_append] at rest ⊢
    rw [List.length_cons, parseItems_ok (first _), if_neg (by omega), rest]
    simp [Except.map, add_assoc]

/-- A frame of byte strings beyond the limit on its length is refused. -/
theorem parseItems_large (levels : ℕ) (parts : List Bytes) (pre rest : Bytes)
    (start : pre.length ≤ maxTotalMessageBytes)
    (large : maxTotalMessageBytes < pre.length + (serializeItems (bulks parts)).length) :
    ∃ e, parseItems (parseInner true levels) (pre ++ serializeItems (bulks parts) ++ rest)
        parts.length pre.length = .error e ∧ e.isIncomplete = false := by
  induction parts generalizing pre with
  | nil => simp [bulks, serializeItems] at large; omega
  | cons data parts ih =>
    simp only [bulks, List.map_cons, serializeItems_cons, List.length_append] at large ih ⊢
    set element := (bulkString (some data)).serialize with element_def
    simp only [List.append_assoc]
    by_cases small : data.length ≤ maxBulkStringBytes
    · have first (tail : Bytes) :
          parseInner true levels ((pre ++ (element ++ tail)).drop pre.length) =
            .ok (some (bulkString (some data)), element.length) := by
        rw [List.drop_left, element_def, parseInner_bulk, parseBulkString_serialize small]
      rw [List.length_cons, parseItems_ok (first _)]
      by_cases beyond : maxTotalMessageBytes < pre.length + element.length
      · rw [if_pos beyond]
        exact ⟨_, rfl, rfl⟩
      · obtain ⟨e, he, complete⟩ := ih (pre ++ element) (by rw [List.length_append]; omega)
          (by rw [List.length_append]; omega)
        simp only [List.append_assoc, List.length_append] at he
        rw [if_neg beyond, he]
        exact ⟨e, rfl, complete⟩
    · obtain ⟨e, he, complete⟩ := parseBulkString_large (not_le.mp small)
        (serializeItems (parts.map fun b => bulkString (some b)) ++ rest)
      have first : parseInner true levels ((pre ++ (element ++
          (serializeItems (parts.map fun b => bulkString (some b)) ++ rest))).drop pre.length) =
          .error e := by
        rw [List.drop_left, element_def, parseInner_bulk, he]
      rw [List.length_cons, parseItems_error first]
      cases e with
      | incomplete _ => exact Bool.noConfusion complete
      | _ => exact ⟨_, rfl, rfl⟩

theorem push_serialize_append (parts : List Bytes) (rest : Bytes) :
    (push (bulks parts)).serialize ++ rest =
      62 :: Decimal.digits parts.length ++ crlf ++ (serializeItems (bulks parts) ++ rest) := by
  simp [serialize, bulks]

theorem push_serialize_length (parts : List Bytes) :
    (push (bulks parts)).serialize.length =
      (Decimal.digits parts.length).length + 3 + (serializeItems (bulks parts)).length := by
  simp [serialize, bulks, crlf]
  omega

/-- The parser reaches the elements of a push frame when it does not declare too many. -/
theorem parse_push_items {parts : List Bytes} (count : parts.length ≤ maxArrayElements)
    (rest : Bytes) :
    parse ((push (bulks parts)).serialize ++ rest) =
      match parseItems (parseInner true 15) ((62 :: Decimal.digits parts.length ++ crlf) ++
          serializeItems (bulks parts) ++ rest) parts.length
          (62 :: Decimal.digits parts.length ++ crlf).length with
      | .ok (arr, stop) => .ok (push arr, stop)
      | .error e => .error e := by
  have declared : parts.length ≤ Decimal.u64Max :=
    count.trans (by norm_num [maxArrayElements, Decimal.u64Max])
  have head : (62 :: Decimal.digits parts.length ++ crlf).length =
      (Decimal.digits parts.length).length + 3 := by simp [crlf]
  rw [push_serialize_append, head, List.append_assoc (_ ++ crlf)]
  unfold parse maxArrayDepth
  simp only [List.cons_append, parseInner]
  simp only [parsePush, ← List.cons_append, readUntilCrlf_digits (by decide : (62 : UInt8) ≠ 13),
    Decimal.parseU64_digits declared, if_neg (not_lt.mpr count)]
  simp only [List.cons_append, bind, Except.bind]
  cases parseItems _ _ _ _ <;> rfl

/-- A push frame of byte strings reads back as what was sent when it keeps within the limits. -/
theorem parse_push {parts : List Bytes} (fits : Fits parts) (rest : Bytes) :
    parse ((push (bulks parts)).serialize ++ rest) =
      .ok (push (bulks parts), (push (bulks parts)).serialize.length) := by
  have head : (62 :: Decimal.digits parts.length ++ crlf).length =
      (Decimal.digits parts.length).length + 3 := by simp [crlf]
  have total := fits.2
  rw [push_serialize_length] at total ⊢
  rw [parse_push_items fits.1, parseItems_bulks _ _ _ _ (by rw [head]; exact total), head]

/-- A push frame of byte strings beyond the limits is refused, whatever bytes follow. -/
theorem parse_push_large {parts : List Bytes} (large : ¬Fits parts) (rest : Bytes) :
    ∃ e, parse ((push (bulks parts)).serialize ++ rest) = .error e ∧ e.isIncomplete = false := by
  by_cases count : parts.length ≤ maxArrayElements
  · have digits : (Decimal.digits parts.length).length ≤ 7 :=
      (Decimal.length_digits_le (by decide)).mpr (lt_of_le_of_lt count (by norm_num [maxArrayElements]))
    have head : (62 :: Decimal.digits parts.length ++ crlf).length =
        (Decimal.digits parts.length).length + 3 := by simp [crlf]
    have total : maxTotalMessageBytes < (push (bulks parts)).serialize.length :=
      not_le.mp fun h => large ⟨count, h⟩
    rw [push_serialize_length] at total
    obtain ⟨e, he, complete⟩ := parseItems_large 15 parts
      (62 :: Decimal.digits parts.length ++ crlf) rest
      (by rw [head]; unfold maxTotalMessageBytes; omega) (by rw [head]; exact total)
    rw [parse_push_items count, he]
    exact ⟨e, rfl, complete⟩
  · rw [push_serialize_append]
    unfold parse maxArrayDepth
    simp only [List.cons_append, parseInner]
    simp only [parsePush, ← List.cons_append, readUntilCrlf_digits (by decide : (62 : UInt8) ≠ 13),
      Decimal.parseU64, Decimal.parseUnsigned_digits]
    by_cases declared : parts.length ≤ Decimal.u64Max
    · simp only [if_pos declared, if_pos (not_le.mp count)]
      exact ⟨_, rfl, rfl⟩
    · simp only [if_neg declared]
      exact ⟨_, rfl, rfl⟩

end Value

end Recached
