import Recached.Reading

/-!
# Parsing what has arrived so far

The parser is given all bytes of a stream from the start of a frame on, and is run again as more bytes
arrive.  `Streams` says what makes that sound: an answer other than `incomplete` does not change, and the
number of bytes that `incomplete` asks for is more than there are and no more than any finished frame has.
Measuring a frame is the same walk as building it.
-/

namespace Recached

open Text

/-- The number of bytes to wait for before another try. -/
def ParseError.needed : ParseError → ℕ
  | incomplete needed => needed
  | _ => 0

namespace Value

/-- The length of the frame at the start of a buffer, without building it. -/
def frameLen (buffer : Bytes) : Except ParseError ℕ := (parseInner false maxArrayDepth buffer).map Prod.snd

/-! ## More bytes arrive -/

variable {α β : Type}

/-- On the buffers of a domain the parser takes at least `low` bytes, and more bytes change nothing but an
unfinished frame, which has at least the length that it is said to need. -/
structure Streams (dom : Bytes → Prop) (low : ℕ) (p : Bytes → Except ParseError (α × ℕ)) : Prop where
  done {b : Bytes} {v : α} {n : ℕ} : dom b → p b = .ok (v, n) →
    low ≤ n ∧ n ≤ b.length ∧ ∀ r, p (b ++ r) = .ok (v, n)
  hard {b : Bytes} {e : ParseError} : dom b → p b = .error e → e.isIncomplete = false →
    ∀ r, p (b ++ r) = .error e
  more {b : Bytes} {needed : ℕ} : dom b → p b = .error (.incomplete needed) →
    b.length < needed ∧ ∀ r v n, p (b ++ r) = .ok (v, n) → needed ≤ n

namespace Streams

variable {dom dom' : Bytes → Prop} {low : ℕ} {p : Bytes → Except ParseError (α × ℕ)}

theorem congr {q : Bytes → Except ParseError (α × ℕ)} (streams : Streams dom' low q)
    (domain : ∀ b, dom b → dom' b) (same : ∀ b r, dom b → p (b ++ r) = q (b ++ r)) : Streams dom low p := by
  have here {b : Bytes} (hb : dom b) : p b = q b := by simpa using same b [] hb
  constructor
  · intro b v n hb parsed
    rw [here hb] at parsed
    obtain ⟨least, most, stable⟩ := streams.done (domain b hb) parsed
    exact ⟨least, most, fun r => (same b r hb).trans (stable r)⟩
  · intro b e hb refused complete r
    rw [here hb] at refused
    rw [same b r hb, streams.hard (domain b hb) refused complete r]
  · intro b needed hb partly
    rw [here hb] at partly
    obtain ⟨beyond, lower⟩ := streams.more (domain b hb) partly
    exact ⟨beyond, fun r v n finished => lower r v n ((same b r hb).symm.trans finished)⟩

theorem map (streams : Streams dom low p) (f : α → β) :
    Streams dom low fun b => (p b).map fun r => (f r.1, r.2) := by
  constructor
  · intro b v n hb parsed
    cases first : p b with
    | error e =>
      rw [first] at parsed
      cases parsed
    | ok r =>
      rw [first] at parsed
      cases parsed
      obtain ⟨least, most, stable⟩ := streams.done hb first
      exact ⟨least, most, fun r => by rw [stable r]; rfl⟩
  · intro b e hb refused complete r
    cases first : p b with
    | ok r =>
      rw [first] at refused
      cases refused
    | error e' =>
      rw [first] at refused
      cases refused
      rw [streams.hard hb first complete r]
      rfl
  · intro b needed hb partly
    cases first : p b with
    | ok r =>
      rw [first] at partly
      cases partly
    | error e =>
      rw [first] at partly
      cases partly
      obtain ⟨beyond, lower⟩ := streams.more hb first
      refine ⟨beyond, fun r v n finished => ?_⟩
      cases second : p (b ++ r) with
      | error e =>
        rw [second] at finished
        cases finished
      | ok r' =>
        rw [second] at finished
        cases finished
        exact lower r _ _ second

theorem bind (streams : Streams dom low p) (f : α → β) :
    Streams dom low fun b => p b >>= fun r => .ok (f r.1, r.2) := by
  refine (streams.map f).congr (fun _ => id) fun b r _ => ?_
  cases p (b ++ r) <;> rfl

/-- A refusal that depends on nothing that is still to come. -/
theorem refusal {e : ParseError} (hard : e.isIncomplete = false) :
    Streams dom low fun _ => (.error e : Except ParseError (α × ℕ)) := by
  constructor
  · rintro b v n - ⟨⟩
  · rintro b _ - ⟨⟩ - r
    rfl
  · rintro b needed - ⟨⟩
    cases hard

/-- An answer that depends on nothing that is still to come. -/
theorem answer {v : α} {n : ℕ} (least : low ≤ n) (arrived : ∀ b, dom b → n ≤ b.length) :
    Streams dom low fun _ => (.ok (v, n) : Except ParseError (α × ℕ)) := by
  constructor
  · rintro b _ _ hb ⟨⟩
    exact ⟨least, arrived b hb, fun r => rfl⟩
  · rintro b _ - ⟨⟩
  · rintro b _ - ⟨⟩

end Streams

/-! ### Header lines -/

/-- A buffer that begins with a type byte. -/
def Typed (b : Bytes) : Prop := ∃ tag rest, b = tag :: rest ∧ tag ≠ 13

theorem readUntilCrlf_append {b data : Bytes} {n : ℕ} (h : readUntilCrlf b = some (data, n)) (r : Bytes) :
    readUntilCrlf (b ++ r) = some (data, n) := by
  obtain ⟨i, found, same⟩ := Option.map_eq_some_iff.mp h
  obtain ⟨stays, arrived⟩ := crlfIndex_append_some found r
  rw [readUntilCrlf, stays, Option.map_some, ← same, List.take_append_of_le_length (by omega)]

theorem readUntilCrlf_le {b data : Bytes} {n : ℕ} (h : readUntilCrlf b = some (data, n)) : n ≤ b.length := by
  obtain ⟨i, found, same⟩ := Option.map_eq_some_iff.mp h
  obtain ⟨rfl, rfl⟩ := Prod.mk.inj same
  exact (crlfIndex_append_some found []).2

theorem readUntilCrlf_ge {b data : Bytes} {n : ℕ} (typed : Typed b) (h : readUntilCrlf b = some (data, n)) :
    3 ≤ n := by
  obtain ⟨tag, rest, rfl, plain⟩ := typed
  obtain ⟨i, found, same⟩ := Option.map_eq_some_iff.mp h
  obtain ⟨rfl, rfl⟩ := Prod.mk.inj same
  rw [crlfIndex, if_neg fun c => plain c.1] at found
  obtain ⟨j, -, rfl⟩ := Option.map_eq_some_iff.mp found
  omega

theorem crlfIndex_later {b r : Bytes} {i : ℕ} (unfinished : crlfIndex b = none)
    (h : crlfIndex (b ++ r) = some i) : b.length < i + 2 := by
  induction b generalizing i with
  | nil => exact Nat.succ_pos _
  | cons x b ih =>
    rw [crlfIndex] at unfinished
    split_ifs at unfinished with here
    rw [List.cons_append, crlfIndex] at h
    split_ifs at h with ends
    · cases b with
      | nil => exact Nat.lt_of_lt_of_le Nat.one_lt_two (Nat.le_add_left 2 i)
      | cons y b => exact absurd ends here
    · obtain ⟨j, later, rfl⟩ := Option.map_eq_some_iff.mp h
      have := ih (Option.map_eq_none_iff.mp unfinished) later
      rw [List.length_cons]
      omega

/-- A line that is not finished yet is finished only by more bytes. -/
theorem readUntilCrlf_later {b r data : Bytes} {n : ℕ} (unfinished : readUntilCrlf b = none)
    (h : readUntilCrlf (b ++ r) = some (data, n)) : b.length < n := by
  obtain ⟨i, found, same⟩ := Option.map_eq_some_iff.mp h
  obtain ⟨-, rfl⟩ := Prod.mk.inj same
  exact crlfIndex_later (Option.map_eq_none_iff.mp unfinished) found

/-- A parser that reads a header line first. -/
def afterLine (next : Bytes → ℕ → Bytes → Except ParseError (α × ℕ)) (b : Bytes) :
    Except ParseError (α × ℕ) :=
  match readUntilCrlf b with
  | some (data, n) => next data n b
  | none => .error (needMore b)

/-- The rest of the parser takes at least the header line. -/
theorem Streams.afterLine {f : Bytes → ℕ → Bytes → Except ParseError (α × ℕ)}
    (streams : ∀ data n, Streams (fun b => n ≤ b.length) n (f data n)) :
    Streams Typed 3 (afterLine f) := by
  have typed {b : Bytes} (r : Bytes) (hb : Typed b) : Typed (b ++ r) := by
    obtain ⟨tag, rest, rfl, plain⟩ := hb
    exact ⟨tag, rest ++ r, rfl, plain⟩
  have finished {b data : Bytes} {n : ℕ} (line : readUntilCrlf b = some (data, n)) (r : Bytes) :
      Value.afterLine f (b ++ r) = f data n (b ++ r) := by
    rw [Value.afterLine, readUntilCrlf_append line]
  have here {b data : Bytes} {n : ℕ} (line : readUntilCrlf b = some (data, n)) :
      Value.afterLine f b = f data n b := by
    rw [Value.afterLine, line]
  constructor
  · intro b v k hb parsed
    cases line : readUntilCrlf b with
    | none =>
      rw [Value.afterLine, line] at parsed
      cases parsed
    | some l =>
      rw [here line] at parsed
      obtain ⟨least, most, stable⟩ := (streams l.1 l.2).done (readUntilCrlf_le line) parsed
      exact ⟨(readUntilCrlf_ge hb line).trans least, most, fun r => (finished line r).trans (stable r)⟩
  · intro b e hb refused complete r
    cases line : readUntilCrlf b with
    | none =>
      rw [Value.afterLine, line] at refused
      cases refused
      cases complete
    | some l =>
      rw [here line] at refused
      rw [finished line]
      exact (streams l.1 l.2).hard (readUntilCrlf_le line) refused complete r
  · intro b needed hb partly
    cases line : readUntilCrlf b with
    | none =>
      rw [Value.afterLine, line] at partly
      cases partly
      refine ⟨Nat.lt_succ_self _, fun r v n done => ?_⟩
      cases later : readUntilCrlf (b ++ r) with
      | none =>
        rw [Value.afterLine, later] at done
        cases done
      | some l =>
        rw [here later] at done
        have beyond := readUntilCrlf_later line later
        have least := ((streams l.1 l.2).done (readUntilCrlf_le later) done).1
        exact Nat.succ_le_of_lt (beyond.trans_le least)
    | some l =>
      rw [here line] at partly
      obtain ⟨beyond, lower⟩ := (streams l.1 l.2).more (readUntilCrlf_le line) partly
      exact ⟨beyond, fun r v n done => lower r v n ((finished line r).symm.trans done)⟩

/-! ### Elements -/

/-- A parser that reads an element of an aggregate first, with some more outstanding. -/
def element (inner : Bytes → Except ParseError (α × ℕ)) (outstanding : ℕ)
    (f : α → ℕ → Bytes → Except ParseError (β × ℕ)) (offset : ℕ) (b : Bytes) : Except ParseError (β × ℕ) :=
  match inner (b.drop offset) with
  | .ok (v, len) => f v (offset + len) b
  | .error e => .error (widen offset outstanding e)

theorem isIncomplete_widen (consumed outstanding : ℕ) (e : ParseError) :
    (widen consumed outstanding e).isIncomplete = e.isIncomplete := by
  cases e <;> rfl

theorem Streams.element {inner : Bytes → Except ParseError (α × ℕ)} (streams : Streams (fun _ => True) 3 inner)
    {outstanding : ℕ} {next : α → ℕ → Bytes → Except ParseError (β × ℕ)}
    (later : ∀ v stop, Streams (fun b => stop ≤ b.length) (stop + outstanding * minElementBytes) (next v stop))
    (offset : ℕ) :
    Streams (fun b => offset ≤ b.length) (offset + (outstanding + 1) * minElementBytes)
      (element inner outstanding next offset) := by
  have drop {b : Bytes} (hb : offset ≤ b.length) (r : Bytes) : (b ++ r).drop offset = b.drop offset ++ r :=
    List.drop_append_of_le_length hb
  have here {b : Bytes} {v : α} {len : ℕ} (first : inner (b.drop offset) = .ok (v, len)) :
      Value.element inner outstanding next offset b = next v (offset + len) b := by
    rw [Value.element, first]
  have fails {b : Bytes} {e : ParseError} (first : inner (b.drop offset) = .error e) :
      Value.element inner outstanding next offset b = .error (widen offset outstanding e) := by
    rw [Value.element, first]
  rw [show (outstanding + 1) * minElementBytes = outstanding * minElementBytes + 3 from Nat.succ_mul ..]
  constructor
  · intro b v n hb parsed
    cases first : inner (b.drop offset) with
    | error e =>
      rw [fails first] at parsed
      cases parsed
    | ok r =>
      obtain ⟨val, len⟩ := r
      obtain ⟨enough, arrived, stable⟩ := streams.done trivial first
      rw [List.length_drop] at arrived
      rw [here first] at parsed
      obtain ⟨least, most, same⟩ := (later val (offset + len)).done (by omega) parsed
      refine ⟨by omega, most, fun r => ?_⟩
      rw [here (b := b ++ r) (by rw [drop hb, stable r])]
      exact same r
  · intro b e hb refused complete r
    cases first : inner (b.drop offset) with
    | error e' =>
      rw [fails first] at refused
      obtain rfl := Except.error.inj refused
      rw [isIncomplete_widen] at complete
      rw [fails (b := b ++ r) (by rw [drop hb, streams.hard trivial first complete r])]
    | ok r' =>
      obtain ⟨val, len⟩ := r'
      obtain ⟨-, arrived, stable⟩ := streams.done trivial first
      rw [List.length_drop] at arrived
      rw [here first] at refused
      rw [here (b := b ++ r) (by rw [drop hb, stable r])]
      exact (later val (offset + len)).hard (by omega) refused complete r
  · intro b needed hb partly
    cases first : inner (b.drop offset) with
    | error e =>
      rw [fails first] at partly
      cases e with
      | incomplete k =>
        -- the elements to come have at least the bytes that they are charged for
        obtain rfl := ParseError.incomplete.inj (Except.error.inj partly)
        obtain ⟨beyond, lower⟩ := streams.more trivial first
        rw [List.length_drop] at beyond
        refine ⟨by omega, fun r v n done => ?_⟩
        cases second : inner ((b ++ r).drop offset) with
        | error e =>
          rw [fails second] at done
          cases done
        | ok r' =>
          obtain ⟨val, len⟩ := r'
          have arrived := (streams.done trivial second).2.1
          rw [List.length_drop] at arrived
          rw [here second] at done
          have longer : offset ≤ (b ++ r).length := by rw [List.length_append]; omega
          have least := ((later val (offset + len)).done (by omega) done).1
          have := lower r val len (by rw [← drop hb, second])
          omega
      | _ => cases partly
    | ok r' =>
      obtain ⟨val, len⟩ := r'
      obtain ⟨-, arrived, stable⟩ := streams.done trivial first
      rw [List.length_drop] at arrived
      rw [here first] at partly
      obtain ⟨beyond, lower⟩ := (later val (offset + len)).more (by omega) partly
      refine ⟨beyond, fun r v n done => lower r v n ?_⟩
      rwa [here (b := b ++ r) (by rw [drop hb, stable r])] at done

theorem parseItems_succ (inner : Bytes → Parsed) (b : Bytes) (count offset : ℕ) :
    parseItems inner b (count + 1) offset =
      element inner count (fun val stop b =>
        if maxTotalMessageBytes < stop then .error .messageTooLarge
        else (parseItems inner b count stop).map fun r => (val.toList ++ r.1, r.2)) offset b := by
  cases first : inner (b.drop offset) with
  | error e => rw [parseItems_error first, element, first]
  | ok r => rw [parseItems_ok first, element, first]

theorem streams_parseItems {inner : Bytes → Parsed} (streams : Streams (fun _ => True) 3 inner) (count : ℕ)
    (offset : ℕ) :
    Streams (fun b => offset ≤ b.length) (offset + count * minElementBytes) fun b =>
      parseItems inner b count offset := by
  induction count generalizing offset with
  | zero => exact .answer (by omega) fun _ => id
  | succ count ih =>
    simp only [parseItems_succ]
    refine streams.element (fun _ stop => ?_) offset
    by_cases large : maxTotalMessageBytes < stop
    · simp only [if_pos large]
      exact .refusal rfl
    · simp only [if_neg large]
      exact (ih stop).map _

theorem parsePairs_succ (inner : Bytes → Parsed) (b : Bytes) (count offset : ℕ) :
    parsePairs inner b (count + 1) offset =
      element inner (count * 2 + 1) (fun k => element inner (count * 2) fun v stop b =>
        if maxTotalMessageBytes < stop then .error .messageTooLarge
        else (parsePairs inner b count stop).map fun r =>
          ((k.bind fun k => v.map fun v => (k, v)).toList ++ r.1, r.2)) offset b := by
  rw [parsePairs]
  cases key : inner (b.drop offset) with
  | error e =>
    rw [element, key]
    rfl
  | ok k =>
    simp only [element, key, Except.mapError, bind, Except.bind]
    cases value : inner (b.drop (offset + k.2)) with
    | error e => rfl
    | ok v =>
      dsimp only
      split
      · rfl
      · cases parsePairs inner b count (offset + k.2 + v.2) <;> rfl

theorem streams_parsePairs {inner : Bytes → Parsed} (streams : Streams (fun _ => True) 3 inner) (count : ℕ)
    (offset : ℕ) :
    Streams (fun b => offset ≤ b.length) (offset + count * 2 * minElementBytes) fun b =>
      parsePairs inner b count offset := by
  induction count generalizing offset with
  | zero => exact .answer (by omega) fun _ => id
  | succ count ih =>
    simp only [parsePairs_succ]
    rw [Nat.succ_mul]
    refine streams.element (fun _ stop => streams.element (fun _ stop => ?_) stop) offset
    by_cases large : maxTotalMessageBytes < stop
    · simp only [if_pos large]
      exact .refusal rfl
    · simp only [if_neg large]
      exact (ih stop).map _

/-! ### Values -/

theorem Streams.weaken {dom : Bytes → Prop} {low low' : ℕ} {p : Bytes → Except ParseError (α × ℕ)}
    (streams : Streams dom low p) (less : low' ≤ low) : Streams dom low' p :=
  ⟨fun hb parsed => ⟨less.trans (streams.done hb parsed).1, (streams.done hb parsed).2⟩, streams.hard,
    streams.more⟩

theorem streams_simpleString (build : Bool) : Streams Typed 3 (parseSimpleString build) :=
  (Streams.afterLine fun _ _ => .answer le_rfl fun _ => id).congr (fun _ => id) fun _ _ _ => rfl

theorem streams_errorString (build : Bool) : Streams Typed 3 (parseErrorString build) :=
  (Streams.afterLine fun _ _ => .answer le_rfl fun _ => id).congr (fun _ => id) fun _ _ _ => rfl

/-- The line is an integer. -/
def integerLine (build : Bool) (data : Bytes) (n : ℕ) (_ : Bytes) : Parsed :=
  match Decimal.parseI64 data with
  | some i => .ok (if build then some (integer i) else none, n)
  | none => .error (.invalidHeader "Invalid integer format")

theorem streams_integer (build : Bool) : Streams Typed 3 (parseInteger build) := by
  refine (Streams.afterLine (f := integerLine build) fun data _ => ?_).congr (fun _ => id) fun _ _ _ => rfl
  unfold integerLine
  cases Decimal.parseI64 data with
  | some i => exact .answer le_rfl fun _ => id
  | none => exact .refusal rfl

/-- The payload of a byte string and the line break behind it. -/
def payload (build : Bool) (length headLen : ℕ) (b : Bytes) : Parsed :=
  if b.length < headLen + length + 2 then .error (.incomplete (headLen + length + 2))
  else if (b.drop (headLen + length)).take 2 ≠ crlf then
    .error (.invalidHeader "bulk string payload is not terminated by CRLF")
  else .ok (if build then some (bulkString (some ((b.drop headLen).take length))) else none,
    headLen + length + 2)

theorem payload_append (build : Bool) {length headLen : ℕ} {b : Bytes} (whole : headLen + length + 2 ≤ b.length)
    (r : Bytes) : payload build length headLen (b ++ r) = payload build length headLen b := by
  have closing : ((b ++ r).drop (headLen + length)).take 2 = (b.drop (headLen + length)).take 2 := by
    rw [List.drop_append_of_le_length (by omega), List.take_append_of_le_length]
    rw [List.length_drop]
    omega
  have data : ((b ++ r).drop headLen).take length = (b.drop headLen).take length := by
    rw [List.drop_append_of_le_length (by omega), List.take_append_of_le_length]
    rw [List.length_drop]
    omega
  have grown : ¬(b ++ r).length < headLen + length + 2 := by
    rw [List.length_append]
    omega
  rw [payload, payload, if_neg grown, if_neg (not_lt.mpr whole), closing, data]

theorem streams_payload (build : Bool) (length headLen : ℕ) :
    Streams (fun b => headLen ≤ b.length) headLen (payload build length headLen) := by
  have finished {b : Bytes} {v : Option Value} {n : ℕ} (parsed : payload build length headLen b = .ok (v, n)) :
      headLen + length + 2 ≤ b.length ∧ n = headLen + length + 2 := by
    unfold payload at parsed
    split_ifs at parsed <;> cases parsed <;> exact ⟨by omega, rfl⟩
  constructor
  · intro b v n _ parsed
    obtain ⟨whole, rfl⟩ := finished parsed
    exact ⟨by omega, whole, fun r => (payload_append build whole r).trans parsed⟩
  · intro b e _ refused complete r
    have whole : headLen + length + 2 ≤ b.length := by
      by_contra short
      rw [payload, if_pos (by omega)] at refused
      obtain rfl := Except.error.inj refused
      cases complete
    exact (payload_append build whole r).trans refused
  · intro b needed _ partly
    unfold payload at partly
    split_ifs at partly with short closed
    · obtain rfl := ParseError.incomplete.inj (Except.error.inj partly)
      exact ⟨short, fun r v n done => (finished done).2.ge⟩
    · cases partly

/-- The line is the length of a byte string. -/
def bulkStringLine (build : Bool) (data : Bytes) (headLen : ℕ) (b : Bytes) : Parsed :=
  match Decimal.parseI64 data with
  | none => .error (.invalidHeader "Invalid bulk string length")
  | some length =>
    if length = -1 then .ok (if build then some (bulkString none) else none, headLen)
    else if length < 0 then .error (.invalidHeader "Invalid bulk string length")
    else if maxBulkStringBytes < length.toNat then
      .error (.tooLarge "bulk string" length.toNat maxBulkStringBytes "bytes")
    else payload build length.toNat headLen b

theorem streams_bulkString (build : Bool) : Streams Typed 3 (parseBulkString build) := by
  refine (Streams.afterLine (f := bulkStringLine build) fun data headLen => ?_).congr (fun _ => id)
    fun _ _ _ => rfl
  unfold bulkStringLine
  cases Decimal.parseI64 data with
  | none => exact .refusal rfl
  | some length =>
    by_cases absent : length = -1
    · simp only [if_pos absent]
      exact .answer le_rfl fun _ => id
    by_cases negative : length < 0
    · simp only [if_neg absent, if_pos negative]
      exact .refusal rfl
    by_cases large : maxBulkStringBytes < length.toNat
    · simp only [if_neg absent, if_neg negative, if_pos large]
      exact .refusal rfl
    · simp only [if_neg absent, if_neg negative, if_neg large]
      exact streams_payload build length.toNat headLen

section

variable {inner : Bytes → Parsed}

/-- The line is the number of elements of an array. -/
def arrayLine (inner : Bytes → Parsed) (build : Bool) (data : Bytes) (offset : ℕ) (b : Bytes) : Parsed :=
  match Decimal.parseI64 data with
  | none => .error (.invalidHeader "Invalid array length")
  | some count =>
    if count = -1 then .ok (if build then some (array none) else none, offset)
    else if count < 0 then .error (.invalidHeader "Invalid array length")
    else if maxArrayElements < count.toNat then
      .error (.tooLarge "array" count.toNat maxArrayElements "elements")
    else do
      let (arr, stop) ← parseItems inner b count.toNat offset
      .ok (if build then some (array (some arr)) else none, stop)

theorem streams_array (streams : Streams (fun _ => True) 3 inner) (build : Bool) :
    Streams Typed 3 (parseArray inner build) := by
  refine (Streams.afterLine (f := arrayLine inner build) fun data offset => ?_).congr (fun _ => id)
    fun _ _ _ => rfl
  unfold arrayLine
  cases Decimal.parseI64 data with
  | none => exact .refusal rfl
  | some count =>
    by_cases absent : count = -1
    · simp only [if_pos absent]
      exact .answer le_rfl fun _ => id
    by_cases negative : count < 0
    · simp only [if_neg absent, if_pos negative]
      exact .refusal rfl
    by_cases large : maxArrayElements < count.toNat
    · simp only [if_neg absent, if_neg negative, if_pos large]
      exact .refusal rfl
    · simp only [if_neg absent, if_neg negative, if_neg large]
      exact ((streams_parseItems streams _ offset).bind fun arr =>
        if build then some (array (some arr)) else none).weaken (Nat.le_add_right _ _)

/-- The line is the number of elements of a push frame. -/
def pushLine (inner : Bytes → Parsed) (build : Bool) (data : Bytes) (offset : ℕ) (b : Bytes) : Parsed :=
  match Decimal.parseU64 data with
  | none => .error (.invalidHeader "Invalid push frame length")
  | some count =>
    if maxArrayElements < count then .error (.tooLarge "push frame" count maxArrayElements "elements")
    else do
      let (arr, stop) ← parseItems inner b count offset
      .ok (if build then some (push arr) else none, stop)

theorem streams_push (streams : Streams (fun _ => True) 3 inner) (build : Bool) :
    Streams Typed 3 (parsePush inner build) := by
  refine (Streams.afterLine (f := pushLine inner build) fun data offset => ?_).congr (fun _ => id)
    fun _ _ _ => rfl
  unfold pushLine
  cases Decimal.parseU64 data with
  | none => exact .refusal rfl
  | some count =>
    by_cases large : maxArrayElements < count
    · simp only [if_pos large]
      exact .refusal rfl
    · simp only [if_neg large]
      exact ((streams_parseItems streams _ offset).bind fun arr =>
        if build then some (push arr) else none).weaken (Nat.le_add_right _ _)

/-- The line is the number of elements of a map. -/
def mapLine (inner : Bytes → Parsed) (build : Bool) (data : Bytes) (offset : ℕ) (b : Bytes) : Parsed :=
  match Decimal.parseU64 data with
  | none => .error (.invalidHeader "Invalid map length")
  | some count =>
    if maxArrayElements / 2 < count then .error (.tooLarge "map" count (maxArrayElements / 2) "pairs")
    else do
      let (pairs, stop) ← parsePairs inner b count offset
      .ok (if build then some (map pairs) else none, stop)

theorem streams_map (streams : Streams (fun _ => True) 3 inner) (build : Bool) :
    Streams Typed 3 (parseMap inner build) := by
  refine (Streams.afterLine (f := mapLine inner build) fun data offset => ?_).congr (fun _ => id)
    fun _ _ _ => rfl
  unfold mapLine
  cases Decimal.parseU64 data with
  | none => exact .refusal rfl
  | some count =>
    by_cases large : maxArrayElements / 2 < count
    · simp only [if_pos large]
      exact .refusal rfl
    · simp only [if_neg large]
      exact ((streams_parsePairs streams _ offset).bind fun pairs =>
        if build then some (map pairs) else none).weaken (Nat.le_add_right _ _)

end

/-- A parser that goes by the first byte. -/
theorem Streams.byType {p : Bytes → Except ParseError (α × ℕ)} (empty : p [] = .error (.incomplete 1))
    (typed : ∀ tag, ∃ q, Streams (fun b => b.head? = some tag) 3 q ∧ ∀ rest, p (tag :: rest) = q (tag :: rest)) :
    Streams (fun _ => True) 3 p := by
  have head (tag : UInt8) : Streams (fun b => b.head? = some tag) 3 p := by
    obtain ⟨q, streams, same⟩ := typed tag
    refine streams.congr (fun _ => id) fun b r hb => ?_
    obtain ⟨rest, rfl⟩ := List.head?_eq_some_iff.mp hb
    exact same (rest ++ r)
  constructor
  · intro b v n _ parsed
    cases b with
    | nil =>
      rw [empty] at parsed
      cases parsed
    | cons tag rest => exact (head tag).done rfl parsed
  · intro b e _ refused complete
    cases b with
    | nil =>
      rw [empty] at refused
      cases refused
      cases complete
    | cons tag rest => exact (head tag).hard rfl refused complete
  · intro b needed _ partly
    cases b with
    | nil =>
      rw [empty] at partly
      cases partly
      refine ⟨Nat.one_pos, fun r v n done => ?_⟩
      cases r with
      | nil =>
        rw [List.append_nil, empty] at done
        cases done
      | cons tag rest => exact Nat.one_le_of_lt ((head tag).done rfl done).1
    | cons tag rest => exact (head tag).more rfl partly

theorem typed_of_head {tag : UInt8} (plain : tag ≠ 13) (b : Bytes) (hb : b.head? = some tag) : Typed b := by
  obtain ⟨rest, rfl⟩ := List.head?_eq_some_iff.mp hb
  exact ⟨tag, rest, rfl, plain⟩

/-- The types without elements are read alike at every depth. -/
theorem streams_flat (build : Bool) (levels : ℕ) {tag : UInt8} (flat : tag = 43 ∨ tag = 45 ∨ tag = 58 ∨ tag = 36) :
    ∃ q, Streams (fun b => b.head? = some tag) 3 q ∧
      ∀ rest, parseInner build levels (tag :: rest) = q (tag :: rest) := by
  have known {q : Bytes → Parsed} (streams : Streams Typed 3 q) : Streams (fun b => b.head? = some tag) 3 q := by
    refine streams.congr (typed_of_head ?_) fun _ _ _ => rfl
    obtain rfl | rfl | rfl | rfl := flat <;> decide
  obtain rfl | rfl | rfl | rfl := flat
  · exact ⟨_, known (streams_simpleString build), fun rest => by cases levels <;> rfl⟩
  · exact ⟨_, known (streams_errorString build), fun rest => by cases levels <;> rfl⟩
  · exact ⟨_, known (streams_integer build), fun rest => by cases levels <;> rfl⟩
  · exact ⟨_, known (streams_bulkString build), fun rest => by cases levels <;> rfl⟩

theorem streams_parseInner (build : Bool) (levels : ℕ) : Streams (fun _ => True) 3 (parseInner build levels) := by
  induction levels with
  | zero =>
    refine .byType rfl fun tag => ?_
    by_cases flat : tag = 43 ∨ tag = 45 ∨ tag = 58 ∨ tag = 36
    · exact streams_flat build 0 flat
    obtain ⟨h₁, h₂, h₃, h₄⟩ : tag ≠ 43 ∧ tag ≠ 45 ∧ tag ≠ 58 ∧ tag ≠ 36 := by simpa using flat
    refine ⟨fun _ => .error (if tag = 42 ∨ tag = 62 ∨ tag = 37 then .depthExceeded else .invalidType tag),
      .refusal (by split_ifs <;> rfl), fun rest => ?_⟩
    rw [parseInner, if_neg h₁, if_neg h₂, if_neg h₃, if_neg h₄]
    split_ifs <;> rfl
  | succ levels ih =>
    refine .byType rfl fun tag => ?_
    by_cases flat : tag = 43 ∨ tag = 45 ∨ tag = 58 ∨ tag = 36
    · exact streams_flat build (levels + 1) flat
    obtain ⟨h₁, h₂, h₃, h₄⟩ : tag ≠ 43 ∧ tag ≠ 45 ∧ tag ≠ 58 ∧ tag ≠ 36 := by simpa using flat
    have known {q : Bytes → Parsed} (streams : Streams Typed 3 q) (plain : tag ≠ 13) :
        Streams (fun b => b.head? = some tag) 3 q :=
      streams.congr (typed_of_head plain) fun _ _ _ => rfl
    by_cases array : tag = 42
    · exact ⟨_, known (streams_array ih build) (by rw [array]; decide), fun rest => by subst array; rfl⟩
    by_cases push : tag = 62
    · exact ⟨_, known (streams_push ih build) (by rw [push]; decide), fun rest => by subst push; rfl⟩
    by_cases map : tag = 37
    · exact ⟨_, known (streams_map ih build) (by rw [map]; decide), fun rest => by subst map; rfl⟩
    refine ⟨fun _ => .error (.invalidType tag), .refusal rfl, fun rest => ?_⟩
    rw [parseInner, if_neg h₁, if_neg h₂, if_neg h₃, if_neg h₄, if_neg array, if_neg push, if_neg map]

/-! ## Measuring -/

/-- The walk that builds gives a value, and the walk that does not gives the same length or error. -/
def SameLength (skim build : Parsed) : Prop :=
  match build with
  | .ok (v, n) => v.isSome ∧ skim = .ok (none, n)
  | .error e => skim = .error e

def Measures (skim build : Bytes → Parsed) : Prop := ∀ b, SameLength (skim b) (build b)

section

variable {skim build : Bytes → Parsed}

theorem measures_items (measures : Measures skim build) (b : Bytes) (count offset : ℕ) :
    parseItems skim b count offset = (parseItems build b count offset).map fun r => ([], r.2) := by
  induction count generalizing offset with
  | zero => rfl
  | succ count ih =>
    have element := measures (b.drop offset)
    cases first : build (b.drop offset) with
    | error e =>
      rw [first] at element
      rw [parseItems_error first, parseItems_error element]
      rfl
    | ok r =>
      rw [first] at element
      rw [parseItems_ok first, parseItems_ok element.2, ih]
      split_ifs
      · rfl
      · cases parseItems build b count (offset + r.2) <;> rfl

theorem measures_pairs (measures : Measures skim build) (b : Bytes) (count offset : ℕ) :
    parsePairs skim b count offset = (parsePairs build b count offset).map fun r => ([], r.2) := by
  induction count generalizing offset with
  | zero => rfl
  | succ count ih =>
    rw [parsePairs_succ, parsePairs_succ, element, element]
    have key := measures (b.drop offset)
    cases first : build (b.drop offset) with
    | error e =>
      rw [first] at key
      rw [key]
      rfl
    | ok k =>
      rw [first] at key
      rw [key.2]
      have value := measures (b.drop (offset + k.2))
      dsimp only [element]
      cases second : build (b.drop (offset + k.2)) with
      | error e =>
        rw [second] at value
        rw [value]
        rfl
      | ok v =>
        rw [second] at value
        rw [value.2]
        dsimp only
        rw [ih]
        split_ifs
        · rfl
        · cases parsePairs build b count (offset + k.2 + v.2) <;> rfl

theorem measures_array (measures : Measures skim build) :
    Measures (parseArray skim false) (parseArray build true) := by
  intro b
  unfold parseArray
  cases readUntilCrlf b with
  | none => exact rfl
  | some line =>
    dsimp only
    cases Decimal.parseI64 line.1 with
    | none => exact rfl
    | some count =>
      simp only [if_true, Bool.false_eq_true, if_false]
      split_ifs
      · exact ⟨rfl, rfl⟩
      · exact rfl
      · exact rfl
      · rw [measures_items measures]
        cases parseItems build b count.toNat line.2 <;> first | exact rfl | exact ⟨rfl, rfl⟩

theorem measures_push (measures : Measures skim build) :
    Measures (parsePush skim false) (parsePush build true) := by
  intro b
  unfold parsePush
  cases readUntilCrlf b with
  | none => exact rfl
  | some line =>
    dsimp only
    cases Decimal.parseU64 line.1 with
    | none => exact rfl
    | some count =>
      simp only [if_true, Bool.false_eq_true, if_false]
      split_ifs
      · exact rfl
      · rw [measures_items measures]
        cases parseItems build b count line.2 <;> first | exact rfl | exact ⟨rfl, rfl⟩

theorem measures_map (measures : Measures skim build) :
    Measures (parseMap skim false) (parseMap build true) := by
  intro b
  unfold parseMap
  cases readUntilCrlf b with
  | none => exact rfl
  | some line =>
    dsimp only
    cases Decimal.parseU64 line.1 with
    | none => exact rfl
    | some count =>
      simp only [if_true, Bool.false_eq_true, if_false]
      split_ifs
      · exact rfl
      · rw [measures_pairs measures]
        cases parsePairs build b count line.2 <;> first | exact rfl | exact ⟨rfl, rfl⟩

end

theorem measures_simpleString : Measures (parseSimpleString false) (parseSimpleString true) := by
  intro b
  unfold parseSimpleString
  cases readUntilCrlf b <;> first | exact rfl | exact ⟨rfl, rfl⟩

theorem measures_errorString : Measures (parseErrorString false) (parseErrorString true) := by
  intro b
  unfold parseErrorString
  cases readUntilCrlf b <;> first | exact rfl | exact ⟨rfl, rfl⟩

theorem measures_integer : Measures (parseInteger false) (parseInteger true) := by
  intro b
  unfold parseInteger
  cases readUntilCrlf b with
  | none => exact rfl
  | some line =>
    dsimp only
    cases Decimal.parseI64 line.1 <;> first | exact rfl | exact ⟨rfl, rfl⟩

theorem measures_bulkString : Measures (parseBulkString false) (parseBulkString true) := by
  intro b
  unfold parseBulkString
  cases readUntilCrlf b with
  | none => exact rfl
  | some line =>
    dsimp only
    cases Decimal.parseI64 line.1 with
    | none => exact rfl
    | some length =>
      simp only [if_true, Bool.false_eq_true, if_false]
      split_ifs <;> first | exact rfl | exact ⟨rfl, rfl⟩

theorem measures_parseInner (levels : ℕ) : Measures (parseInner false levels) (parseInner true levels) := by
  induction levels with
  | zero =>
    intro b
    cases b with
    | nil => exact rfl
    | cons tag rest =>
      unfold parseInner
      split_ifs
      · exact measures_simpleString _
      · exact measures_errorString _
      · exact measures_integer _
      · exact measures_bulkString _
      · exact rfl
      · exact rfl
  | succ levels ih =>
    intro b
    cases b with
    | nil => exact rfl
    | cons tag rest =>
      unfold parseInner
      split_ifs
      · exact measures_simpleString _
      · exact measures_errorString _
      · exact measures_integer _
      · exact measures_bulkString _
      · exact measures_array ih _
      · exact measures_push ih _
      · exact measures_map ih _
      · exact rfl

/-! ## Frames in a buffer -/

theorem parse_eq (b : Bytes) : ∃ build : Except ParseError (Value × ℕ), parse b = build ∧
    frameLen b = build.map Prod.snd ∧
      parseInner true maxArrayDepth b = build.map fun r => (some r.1, r.2) := by
  have measures := measures_parseInner maxArrayDepth b
  unfold frameLen parse
  cases built : parseInner true maxArrayDepth b with
  | error e =>
    rw [built] at measures
    rw [measures]
    exact ⟨_, rfl, rfl, rfl⟩
  | ok r =>
    obtain ⟨v, n⟩ := r
    rw [built] at measures
    obtain ⟨present, skimmed⟩ := measures
    obtain ⟨v, rfl⟩ := Option.isSome_iff_exists.mp present
    rw [skimmed]
    exact ⟨_, rfl, rfl, rfl⟩

theorem frameLen_eq (b : Bytes) : frameLen b = (parse b).map Prod.snd := by
  obtain ⟨build, parsed, measured, -⟩ := parse_eq b
  rw [parsed, measured]

theorem streams_parse : Streams (fun _ => True) 3 parse := by
  have streams := streams_parseInner true maxArrayDepth
  constructor
  · intro b v n _ parsed
    obtain ⟨_, rfl, -, built⟩ := parse_eq b
    rw [parsed] at built
    obtain ⟨least, most, stable⟩ := streams.done trivial built
    refine ⟨least, most, fun r => ?_⟩
    rw [parse, stable r]
  · intro b e _ refused complete r
    obtain ⟨_, rfl, -, built⟩ := parse_eq b
    rw [refused] at built
    rw [parse, streams.hard trivial built complete r]
  · intro b needed _ partly
    obtain ⟨_, rfl, -, built⟩ := parse_eq b
    rw [partly] at built
    obtain ⟨beyond, lower⟩ := streams.more trivial built
    refine ⟨beyond, fun r v n done => ?_⟩
    obtain ⟨_, rfl, -, later⟩ := parse_eq (b ++ r)
    rw [done] at later
    exact lower r _ _ later

/-- Measuring agrees with parsing; what is settled stays settled as more bytes arrive; and the bytes that an
unfinished frame is said to need are more than there are, and no more than it has in the end. -/
theorem frames_measured (b : Bytes) :
    frameLen b = (parse b).map Prod.snd ∧
    (∀ v n, parse b = .ok (v, n) → ∀ r, parse (b ++ r) = .ok (v, n)) ∧
    (∀ e, parse b = .error e → e.isIncomplete = false → ∀ r, parse (b ++ r) = .error e) ∧
    ∀ needed, parse b = .error (.incomplete needed) →
      b.length < needed ∧ ∀ r v n, parse (b ++ r) = .ok (v, n) → needed ≤ n :=
  ⟨frameLen_eq b, fun _ _ done => (streams_parse.done trivial done).2.2,
    fun _ refused complete => streams_parse.hard trivial refused complete,
    fun _ partly => streams_parse.more trivial partly⟩

end Value

end Recached
