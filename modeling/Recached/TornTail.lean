import Recached.Journal
import Recached.Reading
import Recached.Refusals

/-!
# Interrupted appends

A crash during an append leaves a piece of a frame at the end of the file.  Replay ignores it, but
the file is opened for appending behind it: the parser then reads the piece and the next frames as
one.  Whatever it makes of them, some element has swallowed the first byte of the next frame.
-/

namespace Recached

open Text

/-! ## Lines -/

/-- A line that is cut before its end goes on into what follows. -/
theorem crlfIndex_append_none {a : Bytes} (h : crlfIndex a = none) (b : Bytes) :
    crlfIndex (a ++ 62 :: b) = (crlfIndex b).map (· + (a.length + 1)) := by
  induction a with
  | nil =>
    rw [List.nil_append, crlfIndex, if_neg (by simp)]
    rfl
  | cons x a ih =>
    rw [crlfIndex] at h
    split_ifs at h with here
    have elsewhere : ¬(x = 13 ∧ (a ++ 62 :: b).head? = some 10) := by
      cases a with
      | nil => simp
      | cons y a => simpa using here
    rw [List.cons_append, crlfIndex, if_neg elsewhere, ih (Option.map_eq_none_iff.mp h),
      Option.map_map]
    rfl

/-- The header of an element or of a frame. -/
def header (tag : UInt8) (n : ℕ) : Bytes := tag :: Decimal.digits n ++ crlf

/-- The position of the end of a line in a piece of a header. -/
theorem crlfIndex_header {tag : UInt8} (plain : tag ≠ 13) {n : ℕ} {p : Bytes}
    (pre : p <+: header tag n) (proper : p ≠ header tag n) : crlfIndex p = none := by
  obtain ⟨rest, eq⟩ := pre
  have whole : crlfIndex (header tag n) = some (Decimal.digits n).length.succ := by
    have digits : ∀ b ∈ tag :: Decimal.digits n, b ≠ 13 := by
      intro b hb
      obtain rfl | hb := List.mem_cons.mp hb
      · exact plain
      · rintro rfl
        exact absurd (Decimal.isDigit_of_mem_digits hb) (by decide)
    simpa [header] using crlfIndex_append digits []
  cases found : crlfIndex p with
  | none => rfl
  | some i =>
    obtain ⟨same, bound⟩ := crlfIndex_append_some found rest
    rw [eq, whole] at same
    have long : (header tag n).length ≤ p.length := by
      have := Option.some.inj same
      simp only [header, List.length_cons, List.length_append, crlf, List.length_nil] at this ⊢
      omega
    have none_left : rest = [] := by
      have := congrArg List.length eq
      rw [List.length_append] at this
      exact List.length_eq_zero_iff.mp (by omega)
    exact absurd (by simpa [none_left] using eq) proper

/-- The line of a torn header contains the first byte of the next frame. -/
theorem readUntilCrlf_torn {tag : UInt8} (plain : tag ≠ 13) {n : ℕ} {p : Bytes} (nonempty : p ≠ [])
    (pre : p <+: header tag n) (proper : p ≠ header tag n) (next : Bytes) {line : Bytes} {len : ℕ}
    (found : readUntilCrlf (p ++ 62 :: next) = some (line, len)) : 62 ∈ line := by
  rw [readUntilCrlf, crlfIndex_append_none (crlfIndex_header plain pre proper)] at found
  simp only [Option.map_map, Option.map_eq_some_iff, Function.comp_apply, Prod.mk.injEq] at found
  obtain ⟨i, -, rfl, -⟩ := found
  obtain ⟨x, p, rfl⟩ := List.exists_cons_of_ne_nil nonempty
  rw [List.take_append, List.take_of_length_le (by omega), Nat.add_sub_assoc (by omega)]
  simp

theorem runValue_mem {b : Bytes} {acc n : ℕ} (h : Decimal.runValue acc b = some n) :
    ∀ x ∈ b, Decimal.isDigit x := by
  induction b generalizing acc with
  | nil => simp
  | cons y b ih =>
    rw [Decimal.runValue] at h
    split_ifs at h with digit
    intro x hx
    obtain rfl | hx := List.mem_cons.mp hx
    · exact digit
    · exact ih h x hx

theorem digitsValue_none {b : Bytes} (h : 62 ∈ b) : Decimal.digitsValue b = none := by
  rw [Decimal.digitsValue]
  split_ifs
  · rfl
  · cases value : Decimal.runValue 0 b with
    | none => rfl
    | some n => exact absurd (runValue_mem value 62 h) (by decide)

theorem mem_tail_of_head {b : Bytes} {x : UInt8} (other : x ≠ 62) (head : b.head? = some x)
    (h : 62 ∈ b) : 62 ∈ b.tail := by
  cases b with
  | nil => cases h
  | cons y b =>
    obtain rfl : y = x := by simpa using head
    exact (List.mem_cons.mp h).resolve_left (Ne.symm other)

theorem parseU64_none {b : Bytes} (h : 62 ∈ b) : Decimal.parseU64 b = none := by
  rw [Decimal.parseU64, Decimal.parseUnsigned, digitsValue_none, Option.filter_none]
  split_ifs with plus
  · exact mem_tail_of_head (by decide) plus h
  · exact h

theorem parseI64_none {b : Bytes} (h : 62 ∈ b) : Decimal.parseI64 b = none := by
  rw [Decimal.parseI64, Decimal.parseSigned]
  split_ifs with minus plus
  · rw [digitsValue_none (mem_tail_of_head (by decide) minus h)]
    rfl
  · rw [digitsValue_none (mem_tail_of_head (by decide) plus h)]
    rfl
  · rw [digitsValue_none h]
    rfl

/-! ## Torn frames -/

/-- A cut through a concatenation falls before the second part or into it. -/
theorem prefix_append_cases {α : Type} {p a b : List α} (h : p <+: a ++ b) :
    p <+: a ∧ p ≠ a ∨ ∃ q, p = a ++ q ∧ q <+: b := by
  obtain before | within := List.prefix_or_prefix_of_prefix h (List.prefix_append a b)
  · by_cases eq : p = a
    · exact .inr ⟨[], by simp [eq], List.nil_prefix⟩
    · exact .inl ⟨before, eq⟩
  · obtain ⟨q, rfl⟩ := within
    exact .inr ⟨q, rfl, (List.prefix_append_right_inj a).mp h⟩

/-- An element that has swallowed the start of the next frame. -/
def Swallowed : Value → Prop
  | .push _ => True
  | .bulkString (some data) => 62 ∈ data
  | _ => False

namespace Value

theorem bulk_serialize (data : Bytes) :
    (bulkString (some data)).serialize = header 36 data.length ++ (data ++ crlf) := by
  simp [serialize, header]

theorem push_serialize (parts : List Bytes) :
    (push (bulks parts)).serialize = header 62 parts.length ++ serializeItems (bulks parts) := by
  simp [serialize, header, bulks]

theorem readUntilCrlf_header {tag : UInt8} (plain : tag ≠ 13) (n : ℕ) (rest : Bytes) :
    readUntilCrlf (header tag n ++ rest) = some (Decimal.digits n, (header tag n).length) := by
  have read := readUntilCrlf_digits plain n rest
  simpa [header, crlf] using read

/-- A payload with its end that is cut, and then runs into the next frame, contains the start of it. -/
theorem swallowed_payload {data q next : Bytes} (pre : q <+: data ++ crlf) (proper : q ≠ data ++ crlf)
    (closed : ((q ++ 62 :: next).drop data.length).take 2 = crlf) :
    62 ∈ (q ++ 62 :: next).take data.length := by
  obtain ⟨cut, -⟩ | ⟨r, rfl, rest⟩ := prefix_append_cases pre
  · obtain ⟨missing, rfl⟩ := cut
    cases missing with
    | nil => simp [crlf] at closed
    | cons x missing => simp [List.take_append]
  · rw [List.append_assoc, List.drop_left] at closed
    obtain ⟨missing, eq⟩ := rest
    rcases r with _ | ⟨x, _ | ⟨y, _ | ⟨z, r⟩⟩⟩
    · simp [crlf] at closed
    · simp [crlf] at closed
    · have empty : missing = [] := by simpa [crlf] using congrArg List.length eq
      exact absurd (by rw [← eq, empty, List.append_nil]) proper
    · simp [crlf] at eq

theorem parseBulkString_torn {data p : Bytes} (nonempty : p ≠ [])
    (pre : p <+: (bulkString (some data)).serialize) (proper : p ≠ (bulkString (some data)).serialize)
    {next : Bytes} {val : Option Value} {len : ℕ}
    (parsed : parseBulkString true (p ++ 62 :: next) = .ok (val, len)) :
    p.length < len ∧ ∃ v ∈ val, Swallowed v := by
  rw [bulk_serialize] at pre proper
  obtain ⟨cut, short⟩ | ⟨q, rfl, rest⟩ := prefix_append_cases pre
  · rw [parseBulkString] at parsed
    cases found : readUntilCrlf (p ++ 62 :: next) with
    | none => simp [found] at parsed
    | some r =>
      have torn := readUntilCrlf_torn (by decide) nonempty cut short next found
      simp [found, parseI64_none torn] at parsed
  · have proper' : q ≠ data ++ crlf := fun eq => proper (by rw [eq])
    have shorter : q.length < data.length + 2 := by
      refine lt_of_le_of_ne (by simpa [crlf] using rest.length_le) fun eq => proper' ?_
      exact rest.eq_of_length (by simpa [crlf] using eq)
    rw [List.append_assoc, parseBulkString, readUntilCrlf_header (by decide)] at parsed
    simp only [Decimal.parseI64_digits] at parsed
    split_ifs at parsed with range
    simp only [Int.toNat_natCast] at parsed
    rw [if_neg (by omega), if_neg (by omega)] at parsed
    split_ifs at parsed with large early closed
    obtain ⟨rfl, rfl⟩ := Prod.mk.inj (Except.ok.inj parsed)
    rw [← List.drop_drop, List.drop_left, not_not] at closed
    rw [List.drop_left]
    refine ⟨by rw [List.length_append]; omega, _, rfl, ?_⟩
    exact swallowed_payload rest proper' closed

theorem parseItems_le {inner : Bytes → Parsed} {buffer : Bytes} {count offset stop : ℕ}
    {items : List Value} (h : parseItems inner buffer count offset = .ok (items, stop)) :
    offset ≤ stop := by
  induction count generalizing offset items with
  | zero => exact (Prod.mk.inj (Except.ok.inj h)).2.le
  | succ count ih =>
    cases first : inner (buffer.drop offset) with
    | error e => simp [parseItems_error first] at h
    | ok r =>
      obtain ⟨val, len⟩ := r
      rw [parseItems_ok first] at h
      split_ifs at h
      cases rest : parseItems inner buffer count (offset + len) with
      | error e => simp [rest, Except.map] at h
      | ok r =>
        obtain ⟨items', stop'⟩ := r
        simp only [rest, Except.map, Except.ok.injEq, Prod.mk.injEq] at h
        obtain ⟨-, rfl⟩ := h
        have := ih rest
        omega

/-- A frame in the place of an element. -/
theorem parseInner_push {levels : ℕ} {next : Bytes} {val : Option Value} {len : ℕ}
    (parsed : parseInner true (levels + 1) (62 :: next) = .ok (val, len)) :
    0 < len ∧ ∃ v ∈ val, Swallowed v := by
  have push : parsePush (parseInner true levels) true (62 :: next) = .ok (val, len) := parsed
  rw [parsePush] at push
  cases found : readUntilCrlf (62 :: next) with
  | none => simp [found] at push
  | some r =>
    obtain ⟨line, offset⟩ := r
    have positive : 0 < offset := by
      simp only [readUntilCrlf, Option.map_eq_some_iff, Prod.mk.injEq] at found
      obtain ⟨i, -, -, rfl⟩ := found
      omega
    simp only [found] at push
    cases count : Decimal.parseU64 line with
    | none => simp [count] at push
    | some n =>
      simp only [count] at push
      split_ifs at push
      cases items : parseItems (parseInner true levels) (62 :: next) n offset with
      | error e => simp [items, bind, Except.bind] at push
      | ok r =>
        obtain ⟨arr, stop⟩ := r
        simp only [items, bind, Except.bind, Except.ok.injEq, Prod.mk.injEq] at push
        have := parseItems_le items
        obtain ⟨rfl, rfl⟩ := push
        exact ⟨by omega, _, rfl, trivial⟩

/-- The elements read from torn ones and the next frame: one of them has swallowed its start. -/
theorem parseItems_torn {levels : ℕ} {parts : List Bytes} {pre p next : Bytes}
    (cut : p <+: serializeItems (bulks parts)) (proper : p ≠ serializeItems (bulks parts))
    {items : List Value} {stop : ℕ}
    (parsed : parseItems (parseInner true (levels + 1)) (pre ++ p ++ 62 :: next) parts.length
      pre.length = .ok (items, stop)) :
    pre.length + p.length < stop ∧ ∃ v ∈ items, Swallowed v := by
  induction parts generalizing pre p items with
  | nil =>
    exact absurd (List.prefix_nil.mp cut) proper
  | cons data parts ih =>
    have whole : serializeItems (bulks (data :: parts)) =
        (bulkString (some data)).serialize ++ serializeItems (bulks parts) := rfl
    rw [whole] at cut proper
    rw [List.length_cons] at parsed
    have here : (pre ++ p ++ 62 :: next).drop pre.length = p ++ 62 :: next := by simp
    cases first : parseInner true (levels + 1) ((pre ++ p ++ 62 :: next).drop pre.length) with
    | error e =>
      rw [parseItems_error first] at parsed
      cases parsed
    | ok r =>
      obtain ⟨val, len⟩ := r
      rw [parseItems_ok first] at parsed
      split_ifs at parsed
      cases later : parseItems (parseInner true (levels + 1)) (pre ++ p ++ 62 :: next) parts.length
          (pre.length + len) with
      | error e =>
        rw [later] at parsed
        cases parsed
      | ok r =>
        obtain ⟨items', stop'⟩ := r
        simp only [later, Except.map, Except.ok.injEq, Prod.mk.injEq] at parsed
        obtain ⟨rfl, rfl⟩ := parsed
        rw [here] at first
        obtain ⟨torn, short⟩ | ⟨q, rfl, rest⟩ := prefix_append_cases cut
        · have swallowed : p.length < len ∧ ∃ v ∈ val, Swallowed v := by
            cases p with
            | nil => exact parseInner_push first
            | cons b p =>
              obtain rfl : b = 36 := by
                obtain ⟨t, eq⟩ := torn
                rw [bulk_serialize, header] at eq
                exact (List.cons.inj eq).1
              exact parseBulkString_torn (List.cons_ne_nil _ _) torn short first
          obtain ⟨longer, v, hv, sw⟩ := swallowed
          have := parseItems_le later
          obtain rfl : val = some v := hv
          exact ⟨by omega, v, by simp, sw⟩
        · rw [List.append_assoc, parseInner_bulk] at first
          by_cases small : data.length ≤ maxBulkStringBytes
          · rw [parseBulkString_serialize small] at first
            obtain ⟨rfl, rfl⟩ := Prod.mk.inj (Except.ok.inj first)
            have reading := @ih (pre ++ (bulkString (some data)).serialize) _ rest
              (fun eq => proper (by rw [eq])) _ (by simpa using later)
            rw [List.length_append] at reading ⊢
            obtain ⟨longer, v, hv, sw⟩ := reading
            exact ⟨by omega, v, by simp [hv], sw⟩
          · obtain ⟨e, failed, -⟩ := parseBulkString_large (not_le.mp small) (q ++ 62 :: next)
            rw [failed] at first
            cases first

theorem parse_push_tag (buffer : Bytes) : parse (62 :: buffer) =
    match parsePush (parseInner true 15) true (62 :: buffer) with
    | .ok (some v, n) => .ok (v, n)
    | .ok (none, _) => .error (.invalidHeader "internal: frame not built")
    | .error e => .error e := rfl

/-- A push frame that is read comes from a header that declares the number of its elements. -/
theorem parse_push_ok {buffer : Bytes} {v : Value} {len : ℕ}
    (parsed : parse (62 :: buffer) = .ok (v, len)) :
    ∃ line offset count items, readUntilCrlf (62 :: buffer) = some (line, offset) ∧
      Decimal.parseU64 line = some count ∧
      parseItems (parseInner true 15) (62 :: buffer) count offset = .ok (items, len) ∧
      v = push items := by
  rw [parse_push_tag, parsePush] at parsed
  cases found : readUntilCrlf (62 :: buffer) with
  | none => simp [found] at parsed
  | some r =>
    obtain ⟨line, offset⟩ := r
    simp only [found] at parsed
    cases declared : Decimal.parseU64 line with
    | none => simp [declared] at parsed
    | some count =>
      simp only [declared] at parsed
      split_ifs at parsed
      cases read : parseItems (parseInner true 15) (62 :: buffer) count offset with
      | error e =>
        rw [read] at parsed
        cases parsed
      | ok r =>
        obtain ⟨items, stop⟩ := r
        rw [read] at parsed
        cases parsed
        exact ⟨line, offset, count, items, rfl, declared, read, rfl⟩

/-- A torn frame and the frame behind it are read as one, if they are read at all. -/
theorem parse_torn {parts : List Bytes} {p next : Bytes} (nonempty : p ≠ [])
    (cut : p <+: respPush parts) (proper : p ≠ respPush parts) {v : Value} {len : ℕ}
    (parsed : parse (p ++ 62 :: next) = .ok (v, len)) :
    p.length < len ∧ ∃ items, v = push items ∧ ∃ item ∈ items, Swallowed item := by
  rw [respPush_eq, push_serialize] at cut proper
  obtain ⟨rest, starts⟩ : ∃ rest, p ++ 62 :: next = 62 :: rest := by
    obtain ⟨b, p, rfl⟩ := List.exists_cons_of_ne_nil nonempty
    obtain ⟨t, eq⟩ := cut
    exact ⟨p ++ 62 :: next, by rw [List.cons_append, (List.cons.inj eq).1]⟩
  rw [starts] at parsed
  obtain ⟨line, offset, count, items, found, declared, read, rfl⟩ := parse_push_ok parsed
  rw [← starts] at found read
  obtain ⟨torn, short⟩ | ⟨q, rfl, tail⟩ := prefix_append_cases cut
  · rw [parseU64_none (readUntilCrlf_torn (by decide) nonempty torn short next found)] at declared
    cases declared
  · rw [List.append_assoc, readUntilCrlf_header (by decide)] at found
    obtain ⟨rfl, rfl⟩ := Prod.mk.inj (Option.some.inj found)
    rw [Decimal.parseU64, Decimal.parseUnsigned_digits] at declared
    split_ifs at declared
    obtain rfl := Option.some.inj declared
    obtain ⟨longer, swallowed⟩ := parseItems_torn tail (fun eq => proper (by rw [eq])) read
    exact ⟨by rw [List.length_append]; exact longer, items, rfl, swallowed⟩

/-- A torn element is not complete. -/
theorem parseInner_cut (levels : ℕ) {data p : Bytes} (small : data.length ≤ maxBulkStringBytes)
    (cut : p <+: (bulkString (some data)).serialize) (proper : p ≠ (bulkString (some data)).serialize) :
    ∃ e, parseInner true levels p = .error e ∧ e.isIncomplete := by
  obtain rfl | nonempty := eq_or_ne p []
  · exact ⟨.incomplete 1, by cases levels <;> rfl, rfl⟩
  rw [bulk_serialize] at cut proper
  have bulk : parseInner true levels p = parseBulkString true p := by
    obtain ⟨b, p, rfl⟩ := List.exists_cons_of_ne_nil nonempty
    obtain rfl : b = 36 := by
      obtain ⟨t, eq⟩ := cut
      exact (List.cons.inj eq).1
    cases levels <;> rfl
  rw [bulk, parseBulkString]
  obtain ⟨torn, short⟩ | ⟨q, rfl, rest⟩ := prefix_append_cases cut
  · have none : readUntilCrlf p = none := by
      rw [readUntilCrlf, crlfIndex_header (by decide) torn short, Option.map_none]
    rw [none]
    exact ⟨_, rfl, rfl⟩
  · have proper' : q ≠ data ++ crlf := fun eq => proper (by rw [eq])
    have shorter : q.length < data.length + 2 := by
      refine lt_of_le_of_ne (by simpa [crlf] using rest.length_le) fun eq => proper' ?_
      exact rest.eq_of_length (by simpa [crlf] using eq)
    have range : (data.length : ℤ) ≤ Decimal.i64Max := by
      unfold maxBulkStringBytes at small
      unfold Decimal.i64Max
      omega
    rw [readUntilCrlf_header (by decide)]
    simp only [Decimal.parseI64_digits, if_pos range, Int.toNat_natCast]
    rw [if_neg (by omega), if_neg (by omega), if_neg (by omega),
      if_pos (by rw [List.length_append]; omega)]
    exact ⟨_, rfl, rfl⟩

theorem parseItems_cut (levels : ℕ) {parts : List Bytes} {pre p : Bytes}
    (fits : pre.length + (serializeItems (bulks parts)).length ≤ maxTotalMessageBytes)
    (cut : p <+: serializeItems (bulks parts)) (proper : p ≠ serializeItems (bulks parts)) :
    ∃ e, parseItems (parseInner true levels) (pre ++ p) parts.length pre.length = .error e ∧
      e.isIncomplete := by
  induction parts generalizing pre p with
  | nil => exact absurd (List.prefix_nil.mp cut) proper
  | cons data parts ih =>
    have whole : serializeItems (bulks (data :: parts)) =
        (bulkString (some data)).serialize ++ serializeItems (bulks parts) := rfl
    rw [whole] at cut proper fits
    rw [List.length_append] at fits
    have small : data.length ≤ maxBulkStringBytes := by
      have : data.length ≤ (bulkString (some data)).serialize.length := by
        simp [serialize]
        omega
      have : maxTotalMessageBytes = maxBulkStringBytes := rfl
      omega
    rw [List.length_cons]
    obtain ⟨torn, short⟩ | ⟨q, rfl, rest⟩ := prefix_append_cases cut
    · obtain ⟨e, failed, incomplete⟩ := parseInner_cut levels small torn short
      have first : parseInner true levels ((pre ++ p).drop pre.length) = .error e := by
        rw [List.drop_left, failed]
      rw [parseItems_error first]
      cases e with
      | incomplete n => exact ⟨_, rfl, rfl⟩
      | _ => cases incomplete
    · have first : parseInner true levels ((pre ++ ((bulkString (some data)).serialize ++ q)).drop
          pre.length) = .ok (some (bulkString (some data)),
            (bulkString (some data)).serialize.length) := by
        rw [List.drop_left, parseInner_bulk, parseBulkString_serialize small]
      have reading := @ih (pre ++ (bulkString (some data)).serialize) _
        (by rw [List.length_append]; omega) rest (fun eq => proper (by rw [eq]))
      obtain ⟨e, failed, incomplete⟩ := reading
      rw [List.append_assoc, List.length_append] at failed
      rw [parseItems_ok first, if_neg (by omega), failed]
      exact ⟨e, rfl, incomplete⟩

/-- Only bytes that start like a push frame are read as one. -/
theorem head_of_parse_push {buffer : Bytes} {items : List Value} {n : ℕ}
    (parsed : parse buffer = .ok (push items, n)) : buffer.head? = some 62 := by
  cases buffer with
  | nil => simp [parse, parseInner] at parsed
  | cons tag rest =>
    rw [List.head?_cons]
    by_contra other
    have tag_ne : tag ≠ 62 := fun eq => other (by rw [eq])
    unfold parse maxArrayDepth at parsed
    simp only [parseInner, if_neg tag_ne] at parsed
    split at parsed
    · next v n read =>
      cases parsed
      split_ifs at read
      · unfold parseSimpleString at read
        split at read <;> simp at read
      · unfold parseErrorString at read
        split at read <;> simp at read
      · unfold parseInteger at read
        repeat' split at read
        all_goals simp at read
      · unfold parseBulkString at read
        repeat' split at read
        all_goals simp at read
        all_goals (split at read <;> simp at read)
      · unfold parseArray at read
        repeat' split at read
        all_goals simp [bind, Except.bind] at read
        all_goals (split at read <;> simp at read)
      · unfold parseMap at read
        repeat' split at read
        all_goals simp [bind, Except.bind] at read
        all_goals (split at read <;> simp at read)
    · cases parsed
    · cases parsed

end Value

/-- A piece of a frame that keeps within the limits is an unfinished one. -/
theorem unfinished_of_cut {f : Frame} (fits : Fits f) {p : Bytes} (cut : p <+: respPush f)
    (proper : p ≠ respPush f) : Unfinished p := by
  obtain rfl | nonempty := eq_or_ne p []
  · exact .inl rfl
  right
  rw [respPush_eq, Value.push_serialize] at cut proper
  obtain ⟨rest, starts⟩ : ∃ rest, p = 62 :: rest := by
    obtain ⟨b, p, rfl⟩ := List.exists_cons_of_ne_nil nonempty
    obtain ⟨t, eq⟩ := cut
    exact ⟨p, by rw [(List.cons.inj eq).1]⟩
  rw [starts, Value.parse_push_tag, ← starts, Value.parsePush]
  obtain ⟨torn, short⟩ | ⟨q, rfl, tail⟩ := prefix_append_cases cut
  · have none : readUntilCrlf p = none := by
      rw [readUntilCrlf, crlfIndex_header (by decide) torn short, Option.map_none]
    rw [none]
    exact ⟨_, rfl, rfl⟩
  · have declared : f.length ≤ Decimal.u64Max :=
      fits.1.trans (by norm_num [maxArrayElements, Decimal.u64Max])
    have total := fits.2
    rw [Value.push_serialize, List.length_append] at total
    obtain ⟨e, failed, incomplete⟩ :=
      Value.parseItems_cut 15 total tail fun eq => proper (by rw [eq])
    rw [Value.readUntilCrlf_header (by decide)]
    simp only [Decimal.parseU64_digits declared, if_neg (not_lt.mpr fits.1), failed]
    exact ⟨e, rfl, incomplete⟩

/-! ## What a replay executes -/

/-- Searching on either keeps the start or finds a later one. -/
theorem findReplayStart_cases {checkpoint : ℕ} {bytes : Bytes} {fuel offset start found : ℕ}
    (h : findReplayStart checkpoint bytes fuel offset start = .ok found) :
    found = start ∨ offset ≤ found := by
  induction fuel generalizing offset start with
  | zero => exact .inl (Except.ok.inj h).symm
  | succ fuel ih =>
    rw [findReplayStart] at h
    split_ifs at h
    · exact .inl (Except.ok.inj h).symm
    · cases parsed : Value.parse (bytes.drop offset) with
      | error e =>
        simp only [parsed] at h
        split_ifs at h
        exact .inl (Except.ok.inj h).symm
      | ok r =>
        obtain ⟨value, consumed⟩ := r
        simp only [parsed] at h
        obtain eq | le := ih h
        · split_ifs at eq
          · exact .inr (by omega)
          · exact .inl eq
        · exact .inr (by omega)

/-- What is executed is read at some position from the start on. -/
theorem parsed_of_mem_executedFrom {bytes : Bytes} {fuel offset : ℕ} {vs : List Value} {v : Value}
    (executed : executedFrom bytes fuel offset = some vs) (mem : v ∈ vs) :
    ∃ position n, offset ≤ position ∧ Value.parse (bytes.drop position) = .ok (v, n) := by
  induction fuel generalizing offset vs with
  | zero => cases Option.some.inj executed ▸ mem
  | succ fuel ih =>
    rw [executedFrom] at executed
    split_ifs at executed
    · cases Option.some.inj executed ▸ mem
    · cases parsed : Value.parse (bytes.drop offset) with
      | error e =>
        simp only [parsed] at executed
        split_ifs at executed
        cases Option.some.inj executed ▸ mem
      | ok r =>
        obtain ⟨value, consumed⟩ := r
        simp only [parsed] at executed
        split_ifs at executed
        · obtain ⟨position, n, le, there⟩ := ih executed mem
          exact ⟨position, n, by omega, there⟩
        · obtain ⟨vs', rest, rfl⟩ := Option.map_eq_some_iff.mp executed
          obtain rfl | mem := List.mem_cons.mp mem
          · exact ⟨offset, consumed, le_rfl, parsed⟩
          · obtain ⟨position, n, le, there⟩ := ih rest mem
            exact ⟨position, n, by omega, there⟩

/-! ## Appending behind a torn frame -/

/-- Whatever is appended later, the next replay executes the complete frames and then all of it. -/
def KeepsLaterFrames (codec : Codec) (envs : ℕ → Env) (checkpoint : ℕ) (store : KeyValueStore)
    (frames : List Frame) (tail : Bytes) : Prop :=
  ∀ later : List Frame, (∀ f ∈ later, Fits f) → ∀ r,
    executeValues codec envs (commandsOf (resumed checkpoint (frames ++ later))) 0 store = some r →
      replayAofFromCheckpoint codec envs (fileOf frames ++ tail ++ fileOf later) checkpoint store =
        .ok r ∧
      executedValues checkpoint (fileOf frames ++ tail ++ fileOf later) =
        some (commandsOf (resumed checkpoint (frames ++ later)))

theorem keepsLaterFrames_nil (codec : Codec) (envs : ℕ → Env) (checkpoint : ℕ)
    (store : KeyValueStore) {frames : List Frame} (fits : ∀ f ∈ frames, Fits f) :
    KeepsLaterFrames codec envs checkpoint store frames [] := by
  intro later laterFits r executed
  have all : ∀ f ∈ frames ++ later, Fits f := by
    intro f hf
    exact (List.mem_append.mp hf).elim (fits f) (laterFits f)
  have replay := replayAof_file codec envs checkpoint store all (.inl rfl)
  have values := executedValues_file checkpoint all (.inl rfl)
  simp only [fileOf_append, List.append_nil] at replay values ⊢
  refine ⟨?_, values⟩
  rw [executed] at replay
  cases outcome : replayAofFromCheckpoint codec envs (fileOf frames ++ fileOf later) checkpoint
      store with
  | error e => simp [outcome, Except.toOption] at replay
  | ok r' => simpa [outcome, Except.toOption] using replay

/-- The frame that `FLUSHDB` appends. -/
def flushFrame : Frame := [asBytes "FLUSHDB"]

theorem flushFrame_marker : flushFrame.marker = none := rfl

theorem respPush_flushFrame : ∃ rest, respPush flushFrame = 62 :: rest ∧ 62 ∉ rest :=
  ⟨_, rfl, by decide⟩

/-- `FLUSHDB` can always be appended to what has been replayed. -/
theorem executeValues_flush {codec : Codec} {envs : ℕ → Env} {vs : List Value}
    {store : KeyValueStore} (replays : (executeValues codec envs vs 0 store).isSome) :
    ∃ r, executeValues codec envs (vs ++ commandsOf [flushFrame]) 0 store = some r := by
  obtain ⟨r, done⟩ := Option.isSome_iff_exists.mp replays
  have reply := @not_refused codec (envs r.1) .flushDb rfl r.2
  have executes : (replayCommand codec (envs r.1) 0 flushFrame.value r.2).toOption =
      some (execute codec (envs r.1) .flushDb r.2).2 := by
    have decoded : fromValue (normalise flushFrame.value) = .ok .flushDb := rfl
    rw [replayCommand, decoded]
    simp only [execute]
    generalize executeReporting codec (envs r.1) .flushDb r.2 = outcome at reply ⊢
    obtain ⟨response, store', evicted⟩ := outcome
    cases response <;> first | rfl | cases reply
  refine ⟨(r.1 + 1, (execute codec (envs r.1) .flushDb r.2).2), ?_⟩
  rw [executeValues_append, done, Option.bind_some, commandsOf, flushFrame_marker]
  simp [commandsOf, executeValues, executes]

/-- Neither the name of a marker nor a number contains the start of a frame. -/
theorem marker_of_swallowed {items : List Value} {item : Value} (mem : item ∈ items)
    (swallowed : Swallowed item) : checkpointMarker (.push items) = none := by
  unfold checkpointMarker
  split
  · next name id eq =>
    obtain rfl := Value.push.inj eq
    split_ifs with named
    · obtain rfl | rfl : item = .bulkString (some name) ∨ item = .bulkString (some id) := by
        simpa using mem
      · have inside : 62 ∈ asBytes "RECACHED-CHECKPOINT" := named ▸ swallowed
        exact absurd inside (by decide)
      · cases text : fromUtf8 id with
        | none => rfl
        | some s =>
          rw [Option.bind_some, asBytes_of_fromUtf8 text]
          exact parseU64_none swallowed
    · rfl
  · next eq => cases eq
  · rfl

/-- A replay of the file with a torn frame and `FLUSHDB` behind it does not execute `FLUSHDB`. -/
theorem executedValues_torn {checkpoint : ℕ} {frames : List Frame} (fits : ∀ f ∈ frames, Fits f)
    {tail : Bytes} {f : Frame} (nonempty : tail ≠ []) (cut : tail <+: respPush f)
    (proper : tail ≠ respPush f) :
    executedValues checkpoint (fileOf frames ++ (tail ++ respPush flushFrame)) ≠
      some (commandsOf (resumed checkpoint frames) ++ [flushFrame.value]) := by
  obtain ⟨rest, flush, plain⟩ := respPush_flushFrame
  intro executed
  obtain ⟨fuel, enough, found⟩ :=
    findReplayStart_file checkpoint fits (tail ++ respPush flushFrame)
  obtain ⟨fuel', enough', fromStart⟩ :=
    executedFrom_resumed checkpoint fits (tail ++ respPush flushFrame)
  have more : ¬(fileOf frames ++ (tail ++ respPush flushFrame)).length ≤ (fileOf frames).length := by
    rw [List.length_append, List.length_append, flush, List.length_cons]
    omega
  rw [executedValues, found, findReplayStart, if_neg more, List.drop_left] at executed
  nth_rewrite 2 [executedFrom] at fromStart
  rw [if_neg more, List.drop_left] at fromStart
  rw [flush] at executed fromStart
  cases parsed : Value.parse (tail ++ 62 :: rest) with
  | error e =>
    simp only [parsed] at executed fromStart
    split_ifs at executed fromStart
    · simp only [Except.toOption, Option.bind_some, fromStart, Option.map_some, List.append_nil,
        Option.some.injEq] at executed
      simpa using congrArg List.length executed
    · cases executed
  | ok r =>
    obtain ⟨v, n⟩ := r
    obtain ⟨longer, items, rfl, item, mem, swallowed⟩ := Value.parse_torn nonempty cut proper parsed
    simp only [parsed, marker_of_swallowed mem swallowed, Option.isSome_none, Bool.false_eq_true,
      reduceCtorEq, if_false] at executed fromStart
    cases later : findReplayStart checkpoint (fileOf frames ++ (tail ++ 62 :: rest)) fuel
        ((fileOf frames).length + n) (resumePoint checkpoint frames 0 0) with
    | error e =>
      rw [later] at executed
      cases executed
    | ok start =>
      rw [later] at executed
      simp only [Except.toOption, Option.bind_some] at executed
      obtain rfl | le := findReplayStart_cases later
      · -- the torn frame itself has been executed in the place of `FLUSHDB`
        rw [fromStart, Option.map_map] at executed
        obtain ⟨vs, -, same⟩ := Option.map_eq_some_iff.mp executed
        have first := List.append_cancel_left same
        obtain rfl : items = bulks flushFrame := Value.push.inj (List.cons.inj first).1
        obtain rfl : item = .bulkString (some (asBytes "FLUSHDB")) := List.mem_singleton.mp mem
        have inside : 62 ∈ asBytes "FLUSHDB" := swallowed
        exact absurd inside (by decide)
      · -- only bytes behind the start of `FLUSHDB` have been executed
        obtain ⟨position, m, late, there⟩ := parsed_of_mem_executedFrom executed
          (List.mem_append_right _ List.mem_cons_self)
        have head := Value.head_of_parse_push there
        obtain ⟨k, rfl⟩ : ∃ k, position = (fileOf frames).length + (tail.length + (k + 1)) :=
          ⟨position - (fileOf frames).length - tail.length - 1, by omega⟩
        rw [← List.drop_drop, List.drop_left, ← List.drop_drop, List.drop_left,
          List.drop_succ_cons] at head
        exact plain (List.mem_of_mem_drop (List.mem_of_mem_head? head))

/-- What is appended after a crash survives the next restart, whatever it is, exactly when the crash
left no piece of a frame. -/
theorem keepsLaterFrames_iff (codec : Codec) (envs : ℕ → Env) (checkpoint : ℕ)
    (store : KeyValueStore) {frames : List Frame} (fits : ∀ f ∈ frames, Fits f) {tail : Bytes}
    {f : Frame} (cut : tail <+: respPush f) (proper : tail ≠ respPush f)
    (replays : (executeValues codec envs (commandsOf (resumed checkpoint frames)) 0 store).isSome) :
    KeepsLaterFrames codec envs checkpoint store frames tail ↔ tail = [] := by
  constructor
  · intro keeps
    by_contra nonempty
    obtain ⟨r, executed⟩ := executeValues_flush replays
    have later : resumed checkpoint (frames ++ [flushFrame]) =
        resumed checkpoint frames ++ [flushFrame] :=
      resumed_concat (by rw [flushFrame_marker]; exact nofun) frames
    have flushFits : ∀ g ∈ [flushFrame], Fits g := by
      intro g hg
      rw [List.mem_singleton.mp hg]
      exact ⟨by decide, by decide⟩
    have values := (keeps [flushFrame] flushFits r (by rw [later, commandsOf_append, executed])).2
    have last : commandsOf [flushFrame] = [flushFrame.value] := rfl
    rw [later, commandsOf_append, last, List.append_assoc, fileOf_cons, fileOf_nil,
      List.append_nil] at values
    exact executedValues_torn fits nonempty cut proper values
  · rintro rfl
    exact keepsLaterFrames_nil codec envs checkpoint store fits

theorem keepsLaterFrames_set :
    KeepsLaterFrames .literals (fun _ => .fixed 0) 0 {} [[asBytes "SET", asBytes "a", asBytes "1"]]
      ((respPush [asBytes "DEL", asBytes "a"]).take 9) ↔
        (respPush [asBytes "DEL", asBytes "a"]).take 9 = [] :=
  keepsLaterFrames_iff _ _ _ _ (by simp [Fits]; decide) (List.take_prefix _ _) (by decide) rfl

/-- A file with `SET a 1` and a piece of `SET b 2`, to which `SET c 3` is appended after the restart,
is corrupted: the next start fails. -/
theorem torn_tail_corrupts :
    (executeValues .literals (fun _ => .fixed 0) (commandsOf (resumed 0
      ([[asBytes "SET", asBytes "a", asBytes "1"]] ++ [[asBytes "SET", asBytes "c", asBytes "3"]])))
        0 {}).isSome ∧
      ∃ offset e, replayAofFromCheckpoint .literals (fun _ => .fixed 0)
        (fileOf [[asBytes "SET", asBytes "a", asBytes "1"]] ++
          (respPush [asBytes "SET", asBytes "b", asBytes "2"]).take 10 ++
          fileOf [[asBytes "SET", asBytes "c", asBytes "3"]]) 0 {} = .error (.corrupted offset e) :=
  ⟨rfl, _, _, rfl⟩

end Recached
