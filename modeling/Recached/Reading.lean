import Recached.Resp

/-!
# What is read of what is written

The parser reads a serialised value back if and only if the value keeps within its limits, as long as no
text inside an aggregate has a line break.  Whatever the texts are, it reads the type of the value and,
of an array, the byte string that the array begins with.
-/

namespace Recached

open Text

/-- Without a line break. -/
def lineless (s : String) : Bool := (crlfIndex (asBytes s)).isNone

namespace Value

/-! ## Values that can be written and read -/

mutual

/-- The texts have no line breaks, and the numbers are those of the code. -/
def isPlain : Value → Bool
  | simpleString s | error s => lineless s
  | integer i => Decimal.i64Min ≤ i && i ≤ Decimal.i64Max
  | bulkString _ | array none => true
  | array (some items) | push items => arePlain items
  | map pairs => arePairsPlain pairs

def arePlain : List Value → Bool
  | [] => true
  | v :: vs => v.isPlain && arePlain vs

def arePairsPlain : List (Value × Value) → Bool
  | [] => true
  | (k, v) :: ps => k.isPlain && v.isPlain && arePairsPlain ps

end

mutual

/-- A value that the parser accepts when this many more aggregates may be nested. -/
def within : (levels : ℕ) → Value → Bool
  | _, simpleString _ | _, error _ | _, integer _ | _, bulkString none => true
  | _, bulkString (some data) => data.length ≤ maxBulkStringBytes
  | levels, array none => levels != 0
  | levels, array (some items) =>
    levels != 0 && items.length ≤ maxArrayElements && areWithin (levels - 1) items &&
      (array (some items)).serialize.length ≤ maxTotalMessageBytes
  | levels, push items =>
    levels != 0 && items.length ≤ maxArrayElements && areWithin (levels - 1) items &&
      (push items).serialize.length ≤ maxTotalMessageBytes
  | levels, map pairs =>
    levels != 0 && pairs.length ≤ maxArrayElements / 2 && arePairsWithin (levels - 1) pairs &&
      (map pairs).serialize.length ≤ maxTotalMessageBytes

def areWithin : (levels : ℕ) → List Value → Bool
  | _, [] => true
  | levels, v :: vs => v.within levels && areWithin levels vs

def arePairsWithin : (levels : ℕ) → List (Value × Value) → Bool
  | _, [] => true
  | levels, (k, v) :: ps => k.within levels && v.within levels && arePairsWithin levels ps

end

theorem arePlain_eq (items : List Value) : arePlain items = items.all isPlain := by
  induction items with
  | nil => rfl
  | cons v vs ih => rw [arePlain, ih, List.all_cons]

theorem arePairsPlain_eq (pairs : List (Value × Value)) :
    arePairsPlain pairs = pairs.all fun p => p.1.isPlain && p.2.isPlain := by
  induction pairs with
  | nil => rfl
  | cons p ps ih => rw [arePairsPlain, ih, List.all_cons]

theorem areWithin_eq (levels : ℕ) (items : List Value) : areWithin levels items = items.all (within levels) := by
  induction items with
  | nil => rfl
  | cons v vs ih => rw [areWithin, ih, List.all_cons]

theorem arePairsWithin_eq (levels : ℕ) (pairs : List (Value × Value)) :
    arePairsWithin levels pairs = pairs.all fun p => p.1.within levels && p.2.within levels := by
  induction pairs with
  | nil => rfl
  | cons p ps ih => rw [arePairsWithin, ih, List.all_cons]

end Value

/-! ## Lines -/

theorem crlfIndex_append_some {a : Bytes} {i : ℕ} (h : crlfIndex a = some i) (b : Bytes) :
    crlfIndex (a ++ b) = some i ∧ i + 2 ≤ a.length := by
  induction a generalizing i with
  | nil => cases h
  | cons x a ih =>
    rw [crlfIndex] at h
    split_ifs at h with here
    · obtain rfl := Option.some.inj h
      cases a with
      | nil => simp at here
      | cons y a => exact ⟨by simp_all [crlfIndex], by simp⟩
    · obtain ⟨j, later, rfl⟩ := Option.map_eq_some_iff.mp h
      obtain ⟨found, bound⟩ := ih later
      have elsewhere : ¬(x = 13 ∧ (a ++ b).head? = some 10) := by
        cases a with
        | nil => simp at bound
        | cons y a => simpa using here
      rw [List.cons_append, crlfIndex, if_neg elsewhere, found]
      exact ⟨rfl, by rw [List.length_cons]; omega⟩

theorem crlfIndex_lineless {ds : Bytes} (h : crlfIndex ds = none) (rest : Bytes) :
    crlfIndex (ds ++ crlf ++ rest) = some ds.length := by
  induction ds with
  | nil => rfl
  | cons d ds ih =>
    rw [crlfIndex] at h
    split_ifs at h with ends
    have tail := ih (Option.map_eq_none_iff.mp h)
    have goes : ¬(d = 13 ∧ (ds ++ crlf ++ rest).head? = some 10) := by
      rintro ⟨same, next⟩
      cases ds with
      | nil => simp [crlf] at next
      | cons d' ds => exact ends ⟨same, next⟩
    rw [List.cons_append, List.cons_append, crlfIndex, if_neg goes, tail]
    rfl

theorem readUntilCrlf_line {tag : UInt8} {data : Bytes} (h : tag ≠ 13) (lineless : crlfIndex data = none)
    (rest : Bytes) :
    readUntilCrlf (tag :: data ++ crlf ++ rest) = some (data, data.length + 3) := by
  have plain : crlfIndex (tag :: data) = none := by
    rw [crlfIndex, if_neg fun c => h c.1, lineless]
    rfl
  rw [readUntilCrlf, crlfIndex_lineless plain, Option.map_some, List.append_assoc, List.take_left' rfl]
  rfl

namespace Value

/-! ## Reading back -/

/-- The parser reads the value back, whatever follows, or refuses it. -/
def Reads (inner : Bytes → Parsed) (accepted : Bool) (v : Value) : Prop :=
  ∀ rest, if accepted then inner (v.serialize ++ rest) = .ok (some v, v.serialize.length)
    else ∃ e, inner (v.serialize ++ rest) = .error e

theorem parseItems_serialize {inner : Bytes → Parsed} {f : Value → Bool} (items : List Value)
    (reads : ∀ v ∈ items, Reads inner (f v) v) (pre rest : Bytes)
    (start : pre.length ≤ maxTotalMessageBytes) :
    if items.all f && pre.length + (serializeItems items).length ≤ maxTotalMessageBytes then
      parseItems inner (pre ++ serializeItems items ++ rest) items.length pre.length =
        .ok (items, pre.length + (serializeItems items).length)
    else ∃ e, parseItems inner (pre ++ serializeItems items ++ rest) items.length pre.length = .error e := by
  induction items generalizing pre with
  | nil =>
    rw [if_pos (by simpa [serializeItems] using start)]
    rfl
  | cons v items ih =>
    obtain ⟨first, others⟩ := List.forall_mem_cons.mp reads
    have first := first (serializeItems items ++ rest)
    rw [← @List.drop_left _ pre (v.serialize ++ (serializeItems items ++ rest))] at first
    rw [List.length_cons, serializeItems_cons, List.append_assoc, List.append_assoc, List.length_append,
      List.all_cons]
    cases accepted : f v with
    | false =>
      rw [accepted] at first
      obtain ⟨e, refused⟩ := first
      exact ⟨_, parseItems_error refused⟩
    | true =>
      rw [accepted, if_pos rfl] at first
      rw [parseItems_ok first, Bool.true_and]
      by_cases beyond : maxTotalMessageBytes < pre.length + v.serialize.length
      · rw [if_pos beyond, if_neg (by simp; omega)]
        exact ⟨_, rfl⟩
      · have rest := ih others (pre ++ v.serialize) (by rw [List.length_append]; omega)
        rw [List.length_append, List.append_assoc, List.append_assoc, Nat.add_assoc] at rest
        rw [if_neg beyond]
        split_ifs at rest ⊢
        · rw [rest]
          rfl
        · obtain ⟨e, refused⟩ := rest
          exact ⟨e, by rw [refused]; rfl⟩

theorem parsePairs_ok {inner : Bytes → Parsed} {buffer : Bytes} {count offset klen vlen : ℕ} {k v : Value}
    (key : inner (buffer.drop offset) = .ok (some k, klen))
    (value : inner (buffer.drop (offset + klen)) = .ok (some v, vlen)) :
    parsePairs inner buffer (count + 1) offset =
      if maxTotalMessageBytes < offset + klen + vlen then .error .messageTooLarge
      else (parsePairs inner buffer count (offset + klen + vlen)).map fun r => ((k, v) :: r.1, r.2) := by
  rw [parsePairs, key]
  simp only [Except.mapError, bind, Except.bind, value]
  split
  · rfl
  · cases parsePairs inner buffer count (offset + klen + vlen) <;> rfl

theorem parsePairs_serialize {inner : Bytes → Parsed} {f : Value → Bool} (pairs : List (Value × Value))
    (reads : ∀ p ∈ pairs, Reads inner (f p.1) p.1 ∧ Reads inner (f p.2) p.2) (pre rest : Bytes)
    (start : pre.length ≤ maxTotalMessageBytes) :
    if (pairs.all fun p => f p.1 && f p.2) &&
        pre.length + (serializePairs pairs).length ≤ maxTotalMessageBytes then
      parsePairs inner (pre ++ serializePairs pairs ++ rest) pairs.length pre.length =
        .ok (pairs, pre.length + (serializePairs pairs).length)
    else ∃ e, parsePairs inner (pre ++ serializePairs pairs ++ rest) pairs.length pre.length = .error e := by
  induction pairs generalizing pre with
  | nil =>
    rw [if_pos (by simpa [serializePairs] using start)]
    rfl
  | cons p pairs ih =>
    obtain ⟨k, v⟩ := p
    obtain ⟨⟨key, value⟩, others⟩ := List.forall_mem_cons.mp reads
    have key := key (v.serialize ++ (serializePairs pairs ++ rest))
    have value := value (serializePairs pairs ++ rest)
    have first : (pre ++ (k.serialize ++ (v.serialize ++ (serializePairs pairs ++ rest)))).drop pre.length =
        k.serialize ++ (v.serialize ++ (serializePairs pairs ++ rest)) := List.drop_left
    have second : (pre ++ (k.serialize ++ (v.serialize ++ (serializePairs pairs ++ rest)))).drop
        (pre.length + k.serialize.length) = v.serialize ++ (serializePairs pairs ++ rest) := by
      rw [← List.drop_drop, first, List.drop_left]
    rw [← first] at key
    rw [← second] at value
    simp only [serializePairs, List.length_cons, List.append_assoc, List.length_append, List.all_cons]
    cases accepted : f k with
    | false =>
      rw [accepted] at key
      obtain ⟨e, refused⟩ := key
      rw [parsePairs, refused]
      exact ⟨_, rfl⟩
    | true =>
      rw [accepted, if_pos rfl] at key
      cases taken : f v with
      | false =>
        rw [taken] at value
        obtain ⟨e, refused⟩ := value
        rw [parsePairs, key]
        simp only [Except.mapError, bind, Except.bind, refused]
        exact ⟨_, rfl⟩
      | true =>
        rw [taken, if_pos rfl] at value
        rw [parsePairs_ok key value, Bool.true_and, Bool.true_and]
        by_cases beyond : maxTotalMessageBytes < pre.length + k.serialize.length + v.serialize.length
        · rw [if_pos beyond, if_neg (by simp; omega)]
          exact ⟨_, rfl⟩
        · have rest := ih others (pre ++ (k.serialize ++ v.serialize)) (by simp; omega)
          simp only [List.append_assoc, List.length_append, ← Nat.add_assoc] at rest ⊢
          rw [if_neg beyond]
          split_ifs at rest ⊢
          · rw [rest]
            rfl
          · obtain ⟨e, refused⟩ := rest
            exact ⟨e, by rw [refused]; rfl⟩

/-! ### Values without elements -/

variable {levels : ℕ}

theorem reads_simpleString {s : String} (plain : lineless s = true) :
    Reads (parseInner true levels) true (simpleString s) := by
  intro rest
  have line := readUntilCrlf_line (by decide : (43 : UInt8) ≠ 13) (Option.isNone_iff_eq_none.mp plain) rest
  have read : parseInner true levels ((simpleString s).serialize ++ rest) =
      parseSimpleString true (43 :: asBytes s ++ crlf ++ rest) := by
    cases levels <;> rfl
  rw [if_pos rfl, read, parseSimpleString, line]
  simp [serialize, crlf, fromUtf8Lossy_asBytes]

theorem reads_error {s : String} (plain : lineless s = true) :
    Reads (parseInner true levels) true (error s) := by
  intro rest
  have line := readUntilCrlf_line (by decide : (45 : UInt8) ≠ 13) (Option.isNone_iff_eq_none.mp plain) rest
  have read : parseInner true levels ((error s).serialize ++ rest) =
      parseErrorString true (45 :: asBytes s ++ crlf ++ rest) := by
    cases levels <;> rfl
  rw [if_pos rfl, read, parseErrorString, line]
  simp [serialize, crlf, fromUtf8Lossy_asBytes]

theorem crlfIndex_eq_none {ds : Bytes} (h : ∀ b ∈ ds, b ≠ 13) : crlfIndex ds = none := by
  induction ds with
  | nil => rfl
  | cons d ds ih =>
    obtain ⟨head, tail⟩ := List.forall_mem_cons.mp h
    rw [crlfIndex, if_neg fun c => head c.1, ih tail]
    rfl

theorem lineless_ofInt (i : ℤ) : crlfIndex (Decimal.ofInt i) = none := by
  have plain (n : ℕ) : ∀ b ∈ Decimal.digits n, b ≠ 13 := by
    rintro b hb rfl
    exact absurd (Decimal.isDigit_of_mem_digits hb) (by decide)
  refine crlfIndex_eq_none ?_
  unfold Decimal.ofInt
  split_ifs
  · exact List.forall_mem_cons.mpr ⟨by decide, plain _⟩
  · exact plain _

theorem reads_integer {i : ℤ} (lo : Decimal.i64Min ≤ i) (hi : i ≤ Decimal.i64Max) :
    Reads (parseInner true levels) true (integer i) := by
  intro rest
  have line := readUntilCrlf_line (by decide : (58 : UInt8) ≠ 13) (lineless_ofInt i) rest
  have read : parseInner true levels ((integer i).serialize ++ rest) =
      parseInteger true (58 :: Decimal.ofInt i ++ crlf ++ rest) := by
    cases levels <;> rfl
  rw [if_pos rfl, read, parseInteger, line]
  simp [Decimal.parseI64_ofInt lo hi, serialize, crlf]

theorem reads_nil : Reads (parseInner true levels) true (bulkString none) := by
  intro rest
  cases levels <;> rfl

theorem reads_bulk (data : Bytes) :
    Reads (parseInner true levels) (data.length ≤ maxBulkStringBytes) (bulkString (some data)) := by
  intro rest
  rw [parseInner_bulk]
  split_ifs with small
  · exact parseBulkString_serialize (of_decide_eq_true small) rest
  · obtain ⟨e, refused, -⟩ := parseBulkString_large (not_le.mp fun le => small (decide_eq_true le)) rest
    exact ⟨e, refused⟩

/-! ### Aggregates -/

theorem header_length (tag : UInt8) (n : ℕ) :
    (tag :: Decimal.digits n ++ crlf).length = (Decimal.digits n).length + 3 := by
  simp [crlf]

theorem header_small {n : ℕ} (count : n ≤ maxArrayElements) :
    (Decimal.digits n).length + 3 ≤ maxTotalMessageBytes := by
  have digits : (Decimal.digits n).length ≤ 7 :=
    (Decimal.length_digits_le (by decide)).mpr (lt_of_le_of_lt count (by norm_num [maxArrayElements]))
  unfold maxTotalMessageBytes
  omega

theorem declared_i64 {n : ℕ} (count : n ≤ maxArrayElements) :
    Decimal.parseI64 (Decimal.digits n) = some (n : ℤ) := by
  rw [Decimal.parseI64_digits, if_pos]
  unfold maxArrayElements at count
  unfold Decimal.i64Max
  omega

theorem declared_u64 {n : ℕ} (count : n ≤ maxArrayElements) :
    Decimal.parseU64 (Decimal.digits n) = some n :=
  Decimal.parseU64_digits (count.trans (by norm_num [maxArrayElements, Decimal.u64Max]))

section

variable {inner : Bytes → Parsed} {n : ℕ} (tail : Bytes)

theorem parseArray_digits (count : n ≤ maxArrayElements) :
    parseArray inner true (42 :: Decimal.digits n ++ crlf ++ tail) =
      (parseItems inner (42 :: Decimal.digits n ++ crlf ++ tail) n ((Decimal.digits n).length + 3)).map
        fun r => (some (array (some r.1)), r.2) := by
  rw [parseArray, readUntilCrlf_digits (by decide)]
  simp only [declared_i64 count]
  rw [if_neg (by omega), if_neg (by omega), if_neg (by rw [Int.toNat_natCast]; omega), Int.toNat_natCast]
  cases parseItems inner _ n _ <;> rfl

theorem parseArray_large (large : maxArrayElements < n) :
    ∃ e, parseArray inner true (42 :: Decimal.digits n ++ crlf ++ tail) = .error e := by
  rw [parseArray, readUntilCrlf_digits (by decide)]
  simp only [Decimal.parseI64_digits]
  split_ifs
  · simp only
    rw [if_neg (by omega), if_neg (by omega), if_pos (by rwa [Int.toNat_natCast])]
    exact ⟨_, rfl⟩
  · exact ⟨_, rfl⟩

theorem parsePush_digits (count : n ≤ maxArrayElements) :
    parsePush inner true (62 :: Decimal.digits n ++ crlf ++ tail) =
      (parseItems inner (62 :: Decimal.digits n ++ crlf ++ tail) n ((Decimal.digits n).length + 3)).map
        fun r => (some (push r.1), r.2) := by
  rw [parsePush, readUntilCrlf_digits (by decide)]
  simp only [declared_u64 count]
  rw [if_neg (by omega)]
  cases parseItems inner _ n _ <;> rfl

theorem parsePush_large (large : maxArrayElements < n) :
    ∃ e, parsePush inner true (62 :: Decimal.digits n ++ crlf ++ tail) = .error e := by
  rw [parsePush, readUntilCrlf_digits (by decide)]
  simp only [Decimal.parseU64, Decimal.parseUnsigned_digits]
  split_ifs
  · simp only [if_pos large]
    exact ⟨_, rfl⟩
  · exact ⟨_, rfl⟩

theorem parseMap_digits (count : n ≤ maxArrayElements / 2) :
    parseMap inner true (37 :: Decimal.digits n ++ crlf ++ tail) =
      (parsePairs inner (37 :: Decimal.digits n ++ crlf ++ tail) n ((Decimal.digits n).length + 3)).map
        fun r => (some (map r.1), r.2) := by
  rw [parseMap, readUntilCrlf_digits (by decide)]
  simp only [declared_u64 (count.trans (Nat.div_le_self _ _))]
  rw [if_neg (by omega)]
  cases parsePairs inner _ n _ <;> rfl

theorem parseMap_large (large : maxArrayElements / 2 < n) :
    ∃ e, parseMap inner true (37 :: Decimal.digits n ++ crlf ++ tail) = .error e := by
  rw [parseMap, readUntilCrlf_digits (by decide)]
  simp only [Decimal.parseU64, Decimal.parseUnsigned_digits]
  split_ifs
  · simp only [if_pos large]
    exact ⟨_, rfl⟩
  · exact ⟨_, rfl⟩

end

/-- An aggregate with its header is accepted if its elements are and it is not too long. -/
theorem reads_of_items {tag : UInt8} {items : List Value} {v : Value} {parser : Bytes → Parsed}
    (build : List Value → Value) (whole : build items = v)
    (written : v.serialize = tag :: Decimal.digits items.length ++ crlf ++ serializeItems items)
    (reads : ∀ v ∈ items, Reads (parseInner true levels) (v.within levels) v)
    (within : v.within (levels + 1) = (items.length ≤ maxArrayElements && items.all (within levels) &&
      v.serialize.length ≤ maxTotalMessageBytes))
    (read : ∀ tail, parseInner true (levels + 1) (tag :: Decimal.digits items.length ++ crlf ++ tail) =
      parser (tag :: Decimal.digits items.length ++ crlf ++ tail))
    (few : ∀ tail, items.length ≤ maxArrayElements →
      parser (tag :: Decimal.digits items.length ++ crlf ++ tail) =
      (parseItems (parseInner true levels) (tag :: Decimal.digits items.length ++ crlf ++ tail) items.length
        ((Decimal.digits items.length).length + 3)).map fun r => (some (build r.1), r.2))
    (many : ∀ tail, maxArrayElements < items.length →
      ∃ e, parser (tag :: Decimal.digits items.length ++ crlf ++ tail) = .error e) :
    Reads (parseInner true (levels + 1)) (v.within (levels + 1)) v := by
  intro rest
  have total : v.serialize.length =
      (Decimal.digits items.length).length + 3 + (serializeItems items).length := by
    rw [written, List.length_append, header_length]
  rw [within, written, List.append_assoc (_ ++ crlf), read, ← written]
  by_cases count : items.length ≤ maxArrayElements
  · have elements := parseItems_serialize items reads (tag :: Decimal.digits items.length ++ crlf) rest
      (by rw [header_length]; exact header_small count)
    rw [header_length, ← total, List.append_assoc (_ ++ crlf)] at elements
    rw [few _ count, decide_eq_true count, Bool.true_and]
    split_ifs at elements ⊢
    · rw [elements, ← whole]
      rfl
    · obtain ⟨e, refused⟩ := elements
      exact ⟨e, by rw [refused]; rfl⟩
  · rw [decide_eq_false count]
    exact many _ (not_le.mp count)

theorem reads_array {items : List Value}
    (reads : ∀ v ∈ items, Reads (parseInner true levels) (v.within levels) v) :
    Reads (parseInner true (levels + 1)) ((array (some items)).within (levels + 1)) (array (some items)) :=
  reads_of_items (fun items => array (some items)) rfl (by rw [serialize]) reads
    (by simp [Value.within, areWithin_eq]) (fun _ => rfl) (fun tail => parseArray_digits tail)
    (fun tail => parseArray_large tail)

theorem reads_push {items : List Value}
    (reads : ∀ v ∈ items, Reads (parseInner true levels) (v.within levels) v) :
    Reads (parseInner true (levels + 1)) ((push items).within (levels + 1)) (push items) :=
  reads_of_items push rfl (by rw [serialize]) reads
    (by simp [Value.within, areWithin_eq]) (fun _ => rfl) (fun tail => parsePush_digits tail)
    (fun tail => parsePush_large tail)

theorem reads_map {pairs : List (Value × Value)} (reads : ∀ p ∈ pairs,
      Reads (parseInner true levels) (p.1.within levels) p.1 ∧
        Reads (parseInner true levels) (p.2.within levels) p.2) :
    Reads (parseInner true (levels + 1)) ((map pairs).within (levels + 1)) (map pairs) := by
  intro rest
  have written : (map pairs).serialize =
      37 :: Decimal.digits pairs.length ++ crlf ++ serializePairs pairs := by rw [serialize]
  have total : (map pairs).serialize.length =
      (Decimal.digits pairs.length).length + 3 + (serializePairs pairs).length := by
    rw [written, List.length_append, header_length]
  have within : (map pairs).within (levels + 1) = (pairs.length ≤ maxArrayElements / 2 &&
      (pairs.all fun p => p.1.within levels && p.2.within levels) &&
        (map pairs).serialize.length ≤ maxTotalMessageBytes) := by
    simp [Value.within, arePairsWithin_eq]
  have read (tail : Bytes) :
      parseInner true (levels + 1) (37 :: Decimal.digits pairs.length ++ crlf ++ tail) =
        parseMap (parseInner true levels) true (37 :: Decimal.digits pairs.length ++ crlf ++ tail) := rfl
  rw [within, written, List.append_assoc (_ ++ crlf), read, ← written]
  by_cases count : pairs.length ≤ maxArrayElements / 2
  · have elements := parsePairs_serialize pairs reads (37 :: Decimal.digits pairs.length ++ crlf) rest
      (by rw [header_length]; exact header_small (count.trans (Nat.div_le_self _ _)))
    rw [header_length, ← total, List.append_assoc (_ ++ crlf)] at elements
    rw [parseMap_digits _ count, decide_eq_true count, Bool.true_and]
    split_ifs at elements ⊢
    · rw [elements]
      rfl
    · obtain ⟨e, refused⟩ := elements
      exact ⟨e, by rw [refused]; rfl⟩
  · rw [decide_eq_false count]
    exact parseMap_large _ (not_le.mp count)

theorem reads_deep {tag : UInt8} {v : Value} {bytes : Bytes} (written : v.serialize = tag :: bytes)
    (aggregate : tag = 42 ∨ tag = 62 ∨ tag = 37) : Reads (parseInner true 0) false v := by
  intro rest
  rw [written]
  obtain rfl | rfl | rfl := aggregate <;> exact ⟨_, rfl⟩

/-- A plain value is read back if and only if it keeps within the limits. -/
theorem reads (levels : ℕ) : (v : Value) → v.isPlain = true → Reads (parseInner true levels) (v.within levels) v
  | simpleString s, plain => by simpa only [within] using reads_simpleString plain
  | error s, plain => by simpa only [within] using reads_error plain
  | integer i, plain => by
    simp only [isPlain, Bool.and_eq_true, decide_eq_true_eq] at plain
    simpa only [within] using reads_integer plain.1 plain.2
  | bulkString none, _ => by simpa only [within] using reads_nil
  | bulkString (some data), _ => by simpa only [within] using reads_bulk data
  | array none, _ => by
    cases levels with
    | zero => exact reads_deep rfl (.inl rfl)
    | succ levels =>
      intro rest
      rfl
  | array (some items), plain => by
    rw [isPlain, arePlain_eq, List.all_eq_true] at plain
    cases levels with
    | zero =>
      simp only [within, bne_self_eq_false, Bool.false_and]
      exact reads_deep rfl (.inl rfl)
    | succ levels => exact reads_array fun v hv => reads levels v (plain v hv)
  | push items, plain => by
    rw [isPlain, arePlain_eq, List.all_eq_true] at plain
    cases levels with
    | zero =>
      simp only [within, bne_self_eq_false, Bool.false_and]
      exact reads_deep rfl (.inr (.inl rfl))
    | succ levels => exact reads_push fun v hv => reads levels v (plain v hv)
  | map pairs, plain => by
    rw [isPlain, arePairsPlain_eq, List.all_eq_true] at plain
    cases levels with
    | zero =>
      simp only [within, bne_self_eq_false, Bool.false_and]
      exact reads_deep rfl (.inr (.inr rfl))
    | succ levels =>
      refine reads_map ?_
      rintro ⟨k, v⟩ hp
      obtain ⟨key, value⟩ := Bool.and_eq_true_iff.mp (plain _ hp)
      exact ⟨reads levels k key, reads levels v value⟩
termination_by v => sizeOf v
decreasing_by
  all_goals
    have smaller := List.sizeOf_lt_of_mem ‹_ ∈ _›
    simp only [array.sizeOf_spec, push.sizeOf_spec, map.sizeOf_spec, Option.some.sizeOf_spec,
      Prod.mk.sizeOf_spec] at smaller ⊢
    omega

/-! ## Whole frames -/

/-- The parser of the client reads the frame. -/
def Legible (v : Value) : Prop := ∃ r, parse v.serialize = .ok r

theorem parse_serialize {v : Value} (plain : v.isPlain = true) (limits : v.within maxArrayDepth = true) :
    parse v.serialize = .ok (v, v.serialize.length) := by
  have read := reads maxArrayDepth v plain []
  rw [if_pos limits, List.append_nil] at read
  rw [parse, read]

/-- The frame ends where it was written to end, whatever follows. -/
theorem parse_written {v : Value} (plain : v.isPlain = true) (limits : v.within maxArrayDepth = true)
    (rest : Bytes) : parse (v.serialize ++ rest) = .ok (v, v.serialize.length) := by
  have read := reads maxArrayDepth v plain rest
  rw [if_pos limits] at read
  rw [parse, read]

/-- A map and extreme numbers inside an array, before the start of another frame. -/
theorem parse_written_nested :
    let v := array (some [.integer Decimal.i64Min, .map [(.simpleString "a", .bulkString none)],
      .push [.bulkString (some [13, 10])], .integer Decimal.i64Max])
    parse (v.serialize ++ [42]) = .ok (v, v.serialize.length) :=
  parse_written (by decide) (by decide) [42]

theorem legible_iff {v : Value} (plain : v.isPlain = true) : v.Legible ↔ v.within maxArrayDepth = true := by
  constructor
  · rintro ⟨r, read⟩
    by_contra beyond
    have refused := reads maxArrayDepth v plain []
    rw [if_neg beyond, List.append_nil] at refused
    obtain ⟨e, refused⟩ := refused
    rw [parse, refused] at read
    cases read
  · exact fun limits => ⟨_, parse_serialize plain limits⟩

/-- The byte that a value begins with. -/
def tag : Value → UInt8
  | simpleString _ => 43
  | error _ => 45
  | integer _ => 58
  | bulkString _ => 36
  | array _ => 42
  | push _ => 62
  | map _ => 37

theorem serialize_tag (v : Value) : ∃ rest, v.serialize = v.tag :: rest := by
  cases v with
  | bulkString data => cases data <;> exact ⟨_, rfl⟩
  | array items => cases items <;> exact ⟨_, rfl⟩
  | _ => exact ⟨_, rfl⟩

/-- A result that begins with this byte, if there is one. -/
def Tagged (first : UInt8) (p : Parsed) : Prop := ∀ r n, p = .ok (r, n) → ∃ v, r = some v ∧ v.tag = first

theorem tagged_ok {first : UInt8} {v : Value} {n : ℕ} (same : v.tag = first) :
    Tagged first (.ok (some v, n)) := by
  rintro r n ⟨⟩
  exact ⟨v, rfl, same⟩

theorem tagged_error {first : UInt8} {e : ParseError} : Tagged first (.error e) := nofun

theorem tagged_simpleString (buffer : Bytes) : Tagged 43 (parseSimpleString true buffer) := by
  unfold parseSimpleString
  split
  · exact tagged_ok rfl
  · exact tagged_error

theorem tagged_errorString (buffer : Bytes) : Tagged 45 (parseErrorString true buffer) := by
  unfold parseErrorString
  split
  · exact tagged_ok rfl
  · exact tagged_error

theorem tagged_integer (buffer : Bytes) : Tagged 58 (parseInteger true buffer) := by
  unfold parseInteger
  split
  · split
    · exact tagged_ok rfl
    · exact tagged_error
  · exact tagged_error

theorem tagged_bulkString (buffer : Bytes) : Tagged 36 (parseBulkString true buffer) := by
  unfold parseBulkString
  split
  · split
    · exact tagged_error
    · simp only [↓reduceIte]
      split_ifs
      · exact tagged_ok rfl
      all_goals first | exact tagged_error | exact tagged_ok rfl
  · exact tagged_error

variable (inner : Bytes → Parsed) (buffer : Bytes)

theorem tagged_array : Tagged 42 (parseArray inner true buffer) := by
  unfold parseArray
  split
  next data offset line =>
    split
    · exact tagged_error
    next count declared =>
      simp only [↓reduceIte]
      split_ifs
      · exact tagged_ok rfl
      · exact tagged_error
      · exact tagged_error
      · cases parseItems inner buffer count.toNat offset
        · exact tagged_error
        · exact tagged_ok rfl
  · exact tagged_error

theorem tagged_push : Tagged 62 (parsePush inner true buffer) := by
  unfold parsePush
  split
  next data offset line =>
    split
    · exact tagged_error
    next count declared =>
      simp only [↓reduceIte]
      split_ifs
      · exact tagged_error
      · cases parseItems inner buffer count offset
        · exact tagged_error
        · exact tagged_ok rfl
  · exact tagged_error

theorem tagged_map : Tagged 37 (parseMap inner true buffer) := by
  unfold parseMap
  split
  next data offset line =>
    split
    · exact tagged_error
    next count declared =>
      simp only [↓reduceIte]
      split_ifs
      · exact tagged_error
      · cases parsePairs inner buffer count offset
        · exact tagged_error
        · exact tagged_ok rfl
  · exact tagged_error

/-- What the parser reads begins with the byte that it was read from. -/
theorem tagged_parseInner (levels : ℕ) (first : UInt8) (rest : Bytes) :
    Tagged first (parseInner true levels (first :: rest)) := by
  have leaf : first = 43 ∨ first = 45 ∨ first = 58 ∨ first = 36 ∨
      (first ≠ 43 ∧ first ≠ 45 ∧ first ≠ 58 ∧ first ≠ 36) := by tauto
  obtain rfl | rfl | rfl | rfl | ⟨h1, h2, h3, h4⟩ := leaf
  · cases levels <;> exact tagged_simpleString _
  · cases levels <;> exact tagged_errorString _
  · cases levels <;> exact tagged_integer _
  · cases levels <;> exact tagged_bulkString _
  · cases levels with
    | zero =>
      simp only [parseInner, if_neg h1, if_neg h2, if_neg h3, if_neg h4]
      split_ifs <;> exact tagged_error
    | succ levels =>
      simp only [parseInner, if_neg h1, if_neg h2, if_neg h3, if_neg h4]
      split_ifs with list out pairs
      · subst list
        exact tagged_array _ _
      · subst out
        exact tagged_push _ _
      · subst pairs
        exact tagged_map _ _
      · exact tagged_error

/-- A byte string. -/
def text : Value → Option Bytes
  | bulkString data => data
  | _ => none

/-- The byte string that an array begins with. -/
def title : Value → Option Bytes
  | array (some (first :: _)) => first.text
  | _ => none

theorem tag_eq_bulk {v : Value} : v.tag = 36 ↔ ∃ data, v = bulkString data := by
  constructor
  · intro same
    cases v
    case bulkString data => exact ⟨data, rfl⟩
    all_goals exact absurd same (by simp only [tag]; decide)
  · rintro ⟨data, rfl⟩
    rfl

theorem text_of_tag {v : Value} (other : v.tag ≠ 36) : v.text = none := by
  cases v
  case bulkString => exact absurd rfl other
  all_goals rfl

theorem title_of_tag {v : Value} (other : v.tag ≠ 42) : v.title = none := by
  cases v
  case array => exact absurd rfl other
  all_goals rfl

/-- A byte string is read back, and nothing else is read as one. -/
theorem parseInner_text {v r : Value} {rest : Bytes} {n : ℕ}
    (read : parseInner true levels (v.serialize ++ rest) = .ok (some r, n)) : r.text = v.text := by
  by_cases bulk : v.tag = 36
  · obtain ⟨data, rfl⟩ := tag_eq_bulk.mp bulk
    cases data with
    | none =>
      have same := @reads_nil levels rest
      rw [if_pos rfl, read] at same
      cases same
      rfl
    | some data =>
      have same := @reads_bulk levels data rest
      split_ifs at same
      · rw [read] at same
        cases same
        rfl
      · obtain ⟨e, refused⟩ := same
        rw [refused] at read
        cases read
  · obtain ⟨tail, written⟩ := v.serialize_tag
    rw [written, List.cons_append] at read
    obtain ⟨r', same, tagged⟩ := tagged_parseInner levels _ _ _ _ read
    obtain rfl := Option.some.inj same
    rw [text_of_tag bulk, text_of_tag (tagged ▸ bulk)]

/-- The first element that is read is a byte string only if the first that was written is. -/
theorem parseItems_text {buffer : Bytes} {count offset stop : ℕ} {v : Value} {rest : Bytes}
    {items : List Value} (there : buffer.drop offset = v.serialize ++ rest)
    (read : parseItems (parseInner true levels) buffer (count + 1) offset = .ok (items, stop)) :
    (array (some items)).title = v.text := by
  obtain ⟨tail, written⟩ := v.serialize_tag
  cases first : parseInner true levels (buffer.drop offset) with
  | error e =>
    rw [parseItems_error first] at read
    cases read
  | ok result =>
    obtain ⟨r, len⟩ := result
    have tagged := first
    rw [there, written, List.cons_append] at tagged
    obtain ⟨r, rfl, -⟩ := tagged_parseInner levels _ _ _ _ tagged
    rw [parseItems_ok first] at read
    rw [there] at first
    split_ifs at read
    cases others : parseItems (parseInner true levels) buffer count (offset + len) with
    | error e =>
      rw [others] at read
      cases read
    | ok result =>
      rw [others] at read
      cases read
      exact parseInner_text first

theorem title_of_parseArray {items : List Value} {r : Value} {n : ℕ}
    (read : parseArray (parseInner true levels) true (array (some items)).serialize = .ok (some r, n)) :
    r.title = (array (some items)).title := by
  have written : (array (some items)).serialize =
      42 :: Decimal.digits items.length ++ crlf ++ serializeItems items := by rw [serialize]
  rw [written] at read
  by_cases count : items.length ≤ maxArrayElements
  · rw [parseArray_digits _ count] at read
    cases elements : parseItems (parseInner true levels)
        (42 :: Decimal.digits items.length ++ crlf ++ serializeItems items) items.length
        ((Decimal.digits items.length).length + 3) with
    | error e =>
      rw [elements] at read
      cases read
    | ok result =>
      obtain ⟨arr, stop⟩ := result
      rw [elements] at read
      obtain rfl : array (some arr) = r := by
        cases read
        rfl
      cases items with
      | nil =>
        cases elements
        rfl
      | cons v items =>
        refine parseItems_text (?_ : _ = v.serialize ++ serializeItems items) elements
        rw [← header_length 42, List.drop_left]
        rfl
  · obtain ⟨e, refused⟩ := parseArray_large (serializeItems items)
      (not_le.mp count)
    rw [refused] at read
    cases read

/-- Whatever else it makes of the frame, the parser reads its type, and the byte string that an array
begins with. -/
theorem parse_tag_title {v r : Value} {n : ℕ} (read : parse v.serialize = .ok (r, n)) :
    r.tag = v.tag ∧ r.title = v.title := by
  obtain ⟨tail, written⟩ := v.serialize_tag
  have inner : parseInner true maxArrayDepth v.serialize = .ok (some r, n) := by
    unfold parse at read
    split at read
    next r' n' result =>
      cases read
      exact result
    · cases read
    · cases read
  have tagged := inner
  rw [written] at tagged
  obtain ⟨r', same, tagged⟩ := tagged_parseInner _ _ _ _ _ tagged
  obtain rfl := Option.some.inj same
  refine ⟨tagged, ?_⟩
  by_cases list : v.tag = 42
  · cases v with
    | array items =>
      cases items with
      | none =>
        cases inner
        rfl
      | some items => exact title_of_parseArray inner
    | _ => exact absurd list (by simp only [tag]; decide)
  · rw [title_of_tag list, title_of_tag (tagged ▸ list)]

end Value

end Recached
