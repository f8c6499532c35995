import Mathlib.Data.List.Basic
import Mathlib.Tactic.Common

/-!
# Base64 without padding

The URL-safe alphabet of base64: three bytes make four characters, and a rest of one or two bytes makes
two or three whose unused bits are zero.  A text is decoded if and only if it is the encoding of some
bytes (`decode_eq_some`), so no bytes have two encodings.
-/

namespace Base64

/-- The character of a number below 64. -/
def symbol (n : ℕ) : Char :=
  if n < 26 then Char.ofNat (65 + n)
  else if n < 52 then Char.ofNat (97 + (n - 26))
  else if n < 62 then Char.ofNat (48 + (n - 52))
  else if n = 62 then '-'
  else '_'

/-- The number of a character. -/
def value (c : Char) : Option ℕ :=
  let n := c.toNat
  if 65 ≤ n ∧ n ≤ 90 then some (n - 65)
  else if 97 ≤ n ∧ n ≤ 122 then some (n - 97 + 26)
  else if 48 ≤ n ∧ n ≤ 57 then some (n - 48 + 52)
  else if n = 45 then some 62
  else if n = 95 then some 63
  else none

def encode : List UInt8 → List Char
  | a :: b :: c :: rest =>
    symbol (a.toNat / 4) :: symbol (a.toNat % 4 * 16 + b.toNat / 16) ::
      symbol (b.toNat % 16 * 4 + c.toNat / 64) :: symbol (c.toNat % 64) :: encode rest
  | [a, b] =>
    [symbol (a.toNat / 4), symbol (a.toNat % 4 * 16 + b.toNat / 16), symbol (b.toNat % 16 * 4)]
  | [a] => [symbol (a.toNat / 4), symbol (a.toNat % 4 * 16)]
  | [] => []

/-- The bytes of a text.  Bits that no byte uses have to be zero. -/
def decode : List Char → Option (List UInt8)
  | w :: x :: y :: z :: rest =>
    match value w, value x, value y, value z, decode rest with
    | some w, some x, some y, some z, some bytes =>
      some (UInt8.ofNat (w * 4 + x / 16) :: UInt8.ofNat (x % 16 * 16 + y / 4) ::
        UInt8.ofNat (y % 4 * 64 + z) :: bytes)
    | _, _, _, _, _ => none
  | [w, x, y] =>
    match value w, value x, value y with
    | some w, some x, some y =>
      if y % 4 = 0 then some [UInt8.ofNat (w * 4 + x / 16), UInt8.ofNat (x % 16 * 16 + y / 4)] else none
    | _, _, _ => none
  | [w, x] =>
    match value w, value x with
    | some w, some x => if x % 16 = 0 then some [UInt8.ofNat (w * 4 + x / 16)] else none
    | _, _ => none
  | [_] => none
  | [] => some []

/-! ## The alphabet -/

theorem value_symbol {n : ℕ} (h : n < 64) : value (symbol n) = some n := by
  have all : ∀ n : Fin 64, value (symbol n) = some n.val := by decide
  exact all ⟨n, h⟩

theorem value_eq_some {c : Char} {n : ℕ} : value c = some n ↔ n < 64 ∧ c = symbol n := by
  refine ⟨fun h => ?_, fun ⟨small, same⟩ => same ▸ value_symbol small⟩
  have all : ∀ m : Fin 123, ∀ n ∈ value (Char.ofNat m), n < 64 ∧ Char.ofNat m = symbol n := by decide
  have low : c.toNat < 123 := by
    by_contra high
    rw [value, if_neg (by omega), if_neg (by omega), if_neg (by omega), if_neg (by omega),
      if_neg (by omega)] at h
    cases h
  have back : Char.ofNat c.toNat = c := Char.ofNat_toNat c
  have found := all ⟨c.toNat, low⟩ n (by rw [back]; exact h)
  rwa [back] at found

theorem symbol_ne {n : ℕ} (h : n < 64) {c : Char} (outside : value c = none) : symbol n ≠ c := by
  rintro rfl
  rw [value_symbol h] at outside
  cases outside

/-! ## Encoding and decoding -/

theorem ofNat_eq {a : UInt8} {n : ℕ} (h : n = a.toNat) : UInt8.ofNat n = a := by
  rw [h, UInt8.ofNat_toNat]

theorem toNat_ofNat {n : ℕ} (h : n < 256) : (UInt8.ofNat n).toNat = n := by
  rw [UInt8.toNat_ofNat']
  exact Nat.mod_eq_of_lt h

theorem decode_encode (bytes : List UInt8) : decode (encode bytes) = some bytes := by
  induction bytes using encode.induct with
  | case1 a b c rest ih =>
    have ha := a.toNat_lt
    have hb := b.toNat_lt
    have hc := c.toNat_lt
    simp only [encode, decode, ih]
    rw [value_symbol (by omega), value_symbol (by omega), value_symbol (by omega),
      value_symbol (by omega)]
    dsimp only
    rw [ofNat_eq (a := a) (by omega), ofNat_eq (a := b) (by omega), ofNat_eq (a := c) (by omega)]
  | case2 a b =>
    have ha := a.toNat_lt
    have hb := b.toNat_lt
    simp only [encode, decode]
    rw [value_symbol (by omega), value_symbol (by omega), value_symbol (by omega)]
    dsimp only
    rw [if_pos (by omega), ofNat_eq (a := a) (by omega), ofNat_eq (a := b) (by omega)]
  | case3 a =>
    have ha := a.toNat_lt
    simp only [encode, decode]
    rw [value_symbol (by omega), value_symbol (by omega)]
    dsimp only
    rw [if_pos (by omega), ofNat_eq (a := a) (by omega)]
  | case4 => rfl

theorem encode_decode {cs : List Char} {bytes : List UInt8} (h : decode cs = some bytes) :
    cs = encode bytes := by
  induction cs using decode.induct generalizing bytes with
  | case1 w x y z rest nw nx ny nz tail decoded hz hy hx hw ih =>
    simp only [decode, hw, hx, hy, hz, decoded, Option.some.injEq] at h
    subst h
    obtain ⟨lw, rfl⟩ := value_eq_some.mp hw
    obtain ⟨lx, rfl⟩ := value_eq_some.mp hx
    obtain ⟨ly, rfl⟩ := value_eq_some.mp hy
    obtain ⟨lz, rfl⟩ := value_eq_some.mp hz
    rw [encode, ih decoded, toNat_ofNat (by omega), toNat_ofNat (by omega), toNat_ofNat (by omega)]
    congr <;> omega
  | case2 w x y z rest none ih =>
    rw [decode] at h
    split at h
    case h_1 nw nx ny nz tail hw hx hy hz decoded => exact (none _ _ _ _ _ hw hx hy hz decoded).elim
    case h_2 => cases h
  | case3 w x y nw nx ny hy hx hw unused =>
    simp only [decode, hw, hx, hy, unused, if_true, Option.some.injEq] at h
    subst h
    obtain ⟨lw, rfl⟩ := value_eq_some.mp hw
    obtain ⟨lx, rfl⟩ := value_eq_some.mp hx
    obtain ⟨ly, rfl⟩ := value_eq_some.mp hy
    rw [encode, toNat_ofNat (by omega), toNat_ofNat (by omega)]
    congr <;> omega
  | case4 w x y nw nx ny hy hx hw used =>
    simp only [decode, hw, hx, hy, used, if_false] at h
    cases h
  | case5 w x y none =>
    rw [decode] at h
    split at h
    case h_1 nw nx ny hw hx hy => exact (none _ _ _ hw hx hy).elim
    case h_2 => cases h
  | case6 w x nw nx hx hw unused =>
    simp only [decode, hw, hx, unused, if_true, Option.some.injEq] at h
    subst h
    obtain ⟨lw, rfl⟩ := value_eq_some.mp hw
    obtain ⟨lx, rfl⟩ := value_eq_some.mp hx
    rw [encode, toNat_ofNat (by omega)]
    congr <;> omega
  | case7 w x nw nx hx hw used =>
    simp only [decode, hw, hx, used, if_false] at h
    cases h
  | case8 w x none =>
    rw [decode] at h
    split at h
    case h_1 nw nx hw hx => exact (none _ _ hw hx).elim
    case h_2 => cases h
  | case9 c => cases h
  | case10 =>
    cases h
    rfl

/-- A text is decoded exactly if it is the encoding of some bytes. -/
theorem decode_eq_some {cs : List Char} {bytes : List UInt8} : decode cs = some bytes ↔ cs = encode bytes :=
  ⟨encode_decode, fun h => h ▸ decode_encode bytes⟩

/-- A character outside the alphabet occurs in no encoding. -/
theorem not_mem_encode {c : Char} (outside : value c = none) (bytes : List UInt8) : c ∉ encode bytes := by
  induction bytes using encode.induct with
  | case1 a b d rest ih =>
    have ha := a.toNat_lt
    have hb := b.toNat_lt
    have hd := d.toNat_lt
    simp only [encode, List.mem_cons, not_or]
    exact ⟨(symbol_ne (by omega) outside).symm, (symbol_ne (by omega) outside).symm,
      (symbol_ne (by omega) outside).symm, (symbol_ne (by omega) outside).symm, ih⟩
  | case2 a b =>
    have ha := a.toNat_lt
    have hb := b.toNat_lt
    simp only [encode, List.mem_cons, List.not_mem_nil, or_false, not_or]
    exact ⟨(symbol_ne (by omega) outside).symm, (symbol_ne (by omega) outside).symm,
      (symbol_ne (by omega) outside).symm⟩
  | case3 a =>
    have ha := a.toNat_lt
    simp only [encode, List.mem_cons, List.not_mem_nil, or_false, not_or]
    exact ⟨(symbol_ne (by omega) outside).symm, (symbol_ne (by omega) outside).symm⟩
  | case4 => exact List.not_mem_nil

end Base64
