import Mathlib.Data.List.Basic
import Mathlib.Order.Basic

/-!
# Text as bytes

A text is a `String`; on the wire it is its UTF-8 encoding.  `asBytes` and `fromUtf8` are the two
directions, `fromUtf8Lossy` the total decoding that replaces every malformed run by U+FFFD, and
`toUppercase` the case folding used to compare words.
-/

abbrev Bytes := List UInt8

namespace Text

/-- The UTF-8 encoding of a text. -/
def asBytes (s : String) : Bytes := s.toByteArray.data.toList

/-- The text encoded by a byte string, if it is valid UTF-8. -/
def fromUtf8 (b : Bytes) : Option String := String.fromUTF8? ⟨b.toArray⟩

@[simp] theorem fromUtf8_asBytes (s : String) : fromUtf8 (asBytes s) = some s := by
  unfold fromUtf8 asBytes String.fromUTF8?
  simp [s.isValidUTF8, String.fromUTF8]

theorem asBytes_injective : Function.Injective asBytes := by
  intro s t h
  have := congrArg fromUtf8 h
  simpa using this

@[simp] theorem asBytes_inj {s t : String} : asBytes s = asBytes t ↔ s = t :=
  asBytes_injective.eq_iff

theorem asBytes_of_fromUtf8 {b : Bytes} {s : String} (h : fromUtf8 b = some s) : asBytes s = b := by
  unfold fromUtf8 String.fromUTF8? at h
  split at h
  · simp only [Option.some.injEq] at h
    subst h
    simp [asBytes, String.fromUTF8]
  · simp at h

/-! ## Lossy decoding -/

/-- Whether `b` is a continuation byte in the given closed range. -/
def isCont (lo hi : ℕ) (b : UInt8) : Bool := lo ≤ b.toNat && b.toNat ≤ hi

/-- The number of bytes of the sequence a lead byte opens and the range of its second byte. -/
def leadByte (b : UInt8) : Option (ℕ × ℕ × ℕ) :=
  let n := b.toNat
  if n < 0x80 then some (1, 0, 0)
  else if 0xC2 ≤ n && n ≤ 0xDF then some (2, 0x80, 0xBF)
  else if n = 0xE0 then some (3, 0xA0, 0xBF)
  else if n = 0xED then some (3, 0x80, 0x9F)
  else if 0xE1 ≤ n && n ≤ 0xEF then some (3, 0x80, 0xBF)
  else if n = 0xF0 then some (4, 0x90, 0xBF)
  else if n = 0xF4 then some (4, 0x80, 0x8F)
  else if 0xF1 ≤ n && n ≤ 0xF3 then some (4, 0x80, 0xBF)
  else none

/-- The length of the longest prefix of `b` that a well formed sequence could start with, and
whether it is one. -/
def sequenceLength : Bytes → ℕ × Bool
  | [] => (0, false)
  | b :: rest =>
    match leadByte b with
    | none => (1, false)
    | some (n, lo, hi) =>
      if n = 1 then (1, true) else
      match rest with
      | [] => (1, false)
      | c :: rest =>
        if !isCont lo hi c then (1, false) else
        if n = 2 then (2, true) else
        match rest with
        | [] => (2, false)
        | d :: rest =>
          if !isCont 0x80 0xBF d then (2, false) else
          if n = 3 then (3, true) else
          match rest with
          | [] => (3, false)
          | e :: _ => if isCont 0x80 0xBF e then (4, true) else (3, false)

/-- Replace every maximal malformed run by the replacement character; `fuel` bounds the number of
sequences and is the length of the input. -/
def replaceMalformed : ℕ → Bytes → Bytes
  | 0, _ => []
  | _, [] => []
  | fuel + 1, b =>
    let (n, valid) := sequenceLength b
    (if valid then b.take n else [0xEF, 0xBF, 0xBD]) ++ replaceMalformed fuel (b.drop n)

/-- The text of a byte string, malformed runs replaced by U+FFFD. -/
def fromUtf8Lossy (b : Bytes) : String :=
  match fromUtf8 b with
  | some s => s
  | none => (fromUtf8 (replaceMalformed b.length b)).getD ""

@[simp] theorem fromUtf8Lossy_asBytes (s : String) : fromUtf8Lossy (asBytes s) = s := by
  simp [fromUtf8Lossy]

/-! ## Byte strings that are text -/

/-- A byte string that is valid UTF-8. -/
def IsText (b : Bytes) : Prop := ∃ s, asBytes s = b

theorem asBytes_append (s t : String) : asBytes (s ++ t) = asBytes s ++ asBytes t := by
  simp [asBytes, String.toByteArray_append, ByteArray.data_append]

/-- Only characters below 128 have bytes below 128 in their encoding. -/
theorem toNat_of_mem_utf8EncodeChar {c : Char} {x : UInt8} (h : x ∈ String.utf8EncodeChar c)
    (small : x.toNat < 128) : c.toNat = x.toNat := by
  have large (n : ℕ) (low : 128 ≤ n % 256) : ¬(UInt8.ofNat n).toNat < 128 := by
    rw [UInt8.toNat_ofNat']
    omega
  unfold String.utf8EncodeChar at h
  dsimp only at h
  split_ifs at h with one
  · obtain rfl := List.mem_singleton.mp h
    rw [UInt8.toNat_ofNat', Nat.mod_eq_of_lt (Nat.lt_of_le_of_lt one (by decide))]
    rfl
  all_goals
    simp only [List.mem_cons, List.not_mem_nil, or_false] at h
    rcases h with rfl | rfl | rfl | rfl <;> exact absurd small (large _ (by omega))

theorem asBytes_ofList_cons (c : Char) (l : List Char) :
    asBytes (String.ofList (c :: l)) = String.utf8EncodeChar c ++ asBytes (String.ofList l) := by
  rw [asBytes, asBytes, String.toByteArray_ofList, List.utf8Encode_cons, ByteArray.data_append,
    Array.toList_append, List.utf8Encode_singleton, String.toByteArray_ofList, List.data_toByteArray]

theorem asBytes_ofList_append (l r : List Char) :
    asBytes (String.ofList (l ++ r)) = asBytes (String.ofList l) ++ asBytes (String.ofList r) := by
  rw [String.ofList_append, asBytes_append]

/-- A byte below 128 of a text is one of its characters. -/
theorem exists_char_of_mem {l : List Char} {x : UInt8} (h : x ∈ asBytes (String.ofList l))
    (small : x.toNat < 128) : ∃ c ∈ l, c.toNat = x.toNat := by
  induction l with
  | nil => cases h
  | cons c l ih =>
    rw [asBytes_ofList_cons] at h
    obtain here | later := List.mem_append.mp h
    · exact ⟨c, List.mem_cons_self, toNat_of_mem_utf8EncodeChar here small⟩
    · obtain ⟨c', mem, same⟩ := ih later
      exact ⟨c', List.mem_cons_of_mem c mem, same⟩

theorem asBytes_ascii : ∀ n < 128, asBytes (String.singleton (Char.ofNat n)) = [n.toUInt8] := by
  decide

theorem isText_of_ascii {b : Bytes} (h : ∀ x ∈ b, x.toNat < 128) : IsText b := by
  induction b with
  | nil => exact ⟨"", rfl⟩
  | cons x b ih =>
    obtain ⟨s, hs⟩ := ih fun y hy => h y (List.mem_cons_of_mem x hy)
    refine ⟨String.singleton (Char.ofNat x.toNat) ++ s, ?_⟩
    rw [asBytes_append, asBytes_ascii _ (h x List.mem_cons_self), hs, Nat.toUInt8_eq,
      UInt8.ofNat_toNat]
    rfl

theorem ascii_of_all {b : Bytes} (h : (b.all fun x => x.toNat < 128) = true) :
    ∀ x ∈ b, x.toNat < 128 := by
  simpa using h

theorem isText_asBytes (s : String) : IsText (asBytes s) := ⟨s, rfl⟩

theorem IsText.fromUtf8_isNone {b : Bytes} (h : IsText b) : (fromUtf8 b).isNone = false := by
  obtain ⟨s, rfl⟩ := h
  rw [fromUtf8_asBytes]
  rfl

theorem IsText.asBytes_lossy {b : Bytes} (h : IsText b) : asBytes (fromUtf8Lossy b) = b := by
  obtain ⟨s, rfl⟩ := h
  rw [fromUtf8Lossy_asBytes]

/-! ## Case folding -/

/-- The upper case of a character, exact on every character whose upper case is ASCII. -/
def upperChar (c : Char) : List Char :=
  match c.val with
  | 0xDF => ['S', 'S']
  | 0x131 => ['I']
  | 0x17F => ['S']
  | 0xFB00 => ['F', 'F']
  | 0xFB01 => ['F', 'I']
  | 0xFB02 => ['F', 'L']
  | 0xFB03 => ['F', 'F', 'I']
  | 0xFB04 => ['F', 'F', 'L']
  | 0xFB05 => ['S', 'T']
  | 0xFB06 => ['S', 'T']
  | _ => [c.toUpper]

/-- The upper case of a text. -/
def toUppercase (s : String) : String := String.ofList (s.toList.flatMap upperChar)

/-- The lower case of an ASCII text. -/
def toLowercase (s : String) : String := String.ofList (s.toList.map Char.toLower)

end Text
