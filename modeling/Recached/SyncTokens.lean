import Recached.Connection
import Recached.Lib.Base64

/-!
# Signed sync scopes

A token is a payload with its signature.  The payload lists the patterns of a grant, with an optional
expiry.  `verified_iff` says that a server accepts exactly the tokens that were minted with its secret,
and `minted_grant` that a minted token grants its patterns until it expires.
-/

namespace Recached

open Text

/-! ## Tokens -/

/-- The parts that a server has from elsewhere: the signature of a message under a key, and the base64
engine, which accepts exactly the texts that it makes and makes no full stop. -/
structure TokenCrypto where
  mac : Bytes → Bytes → Bytes
  encode : Bytes → List Char
  decode : List Char → Option Bytes
  decode_eq_some : ∀ cs bytes, decode cs = some bytes ↔ cs = encode bytes
  not_mem_encode : ∀ bytes, '.' ∉ encode bytes

/-- The URL-safe alphabet without padding. -/
def TokenCrypto.urlSafe (mac : Bytes → Bytes → Bytes) : TokenCrypto where
  mac := mac
  encode := Base64.encode
  decode := Base64.decode
  decode_eq_some _ _ := Base64.decode_eq_some
  not_mem_encode := Base64.not_mem_encode rfl

/-- The characters before and after the first separator. -/
def splitOnce (sep : Char) : List Char → Option (List Char × List Char)
  | [] => none
  | c :: cs => if c = sep then some ([], cs) else (splitOnce sep cs).map fun r => (c :: r.1, r.2)

/-- Equality in a time that depends on the lengths only. -/
def ctEqBytes (a b : Bytes) : Bool :=
  if a.length ≠ b.length then false
  else ((a.zip b).foldl (fun acc xy => acc ||| (xy.1 ^^^ xy.2)) 0) == 0

/-- The characters that count as white space. -/
def isWhiteSpace (c : Char) : Bool :=
  let n := c.toNat
  (9 ≤ n && n ≤ 13) || n == 0x20 || n == 0x85 || n == 0xA0 || n == 0x1680 ||
    (0x2000 ≤ n && n ≤ 0x200A) || n == 0x2028 || n == 0x2029 || n == 0x202F || n == 0x205F || n == 0x3000

def trimSpace (cs : List Char) : List Char :=
  ((cs.dropWhile isWhiteSpace).reverse.dropWhile isWhiteSpace).reverse

/-- The part of a payload that lists patterns, and the expiry if there is one. -/
def cutExpiry (payload : List Char) : List Char × Option (List Char) :=
  match splitOnce '|' payload with
  | some (p, e) => (p, some e)
  | none => (payload, none)

def patternList (patternsStr : List Char) : List String :=
  (((patternsStr.splitOn ',').map trimSpace).filter fun p => !p.isEmpty).map String.ofList

/-- The patterns that a payload grants at a time in seconds. -/
def grantedPatterns (now : ℕ) (payload : List Char) : Except String (List String) :=
  let (patternsStr, expiry) := cutExpiry payload
  let patterns := patternList patternsStr
  let grant : Except String (List String) :=
    if patterns.isEmpty then .error "token grants no patterns"
    else if patterns.any fun p => maxPatternBytes < (asBytes p).length then
      .error "token grants an over-long pattern"
    else .ok patterns
  match expiry with
  | none => grant
  | some e =>
    match Decimal.parseU64 (asBytes (String.ofList e)) with
    | none => .error "malformed expiry"
    | some exp => if exp ≤ now then .error "token expired" else grant

def verifySyncToken (crypto : TokenCrypto) (secret : String) (now : ℕ) (token : String) :
    Except String (List String) :=
  match splitOnce '.' token.toList with
  | none => .error "malformed token"
  | some (payloadB64, sigB64) =>
    match crypto.decode sigB64 with
    | none => .error "malformed signature"
    | some sig =>
      if !ctEqBytes sig (crypto.mac (asBytes secret) (asBytes (String.ofList payloadB64))) then
        .error "invalid signature"
      else
        match (crypto.decode payloadB64).bind fromUtf8 with
        | none => .error "malformed payload"
        | some payload => grantedPatterns now payload.toList

/-- The token that a holder of the secret makes of a payload. -/
def TokenCrypto.mint (crypto : TokenCrypto) (secret payload : String) : String :=
  let payloadB64 := crypto.encode (asBytes payload)
  String.ofList (payloadB64 ++
    '.' :: crypto.encode (crypto.mac (asBytes secret) (asBytes (String.ofList payloadB64))))

/-! ## Parts of a token -/

theorem splitOnce_eq_some {sep : Char} {cs before after : List Char} :
    splitOnce sep cs = some (before, after) ↔ cs = before ++ sep :: after ∧ sep ∉ before := by
  induction cs generalizing before with
  | nil => simp [splitOnce]
  | cons c cs ih =>
    rw [splitOnce]
    by_cases same : c = sep
    · subst same
      rw [if_pos rfl]
      cases before with
      | nil => simp
      | cons b before =>
        refine ⟨fun h => (by cases h), fun ⟨heads, clear⟩ => ?_⟩
        exact absurd ((List.cons.inj heads).1 ▸ List.mem_cons_self) clear
    · rw [if_neg same]
      cases before with
      | nil =>
        simp [same]
      | cons b before =>
        simp only [Option.map_eq_some_iff, Prod.exists, Prod.mk.injEq, List.cons.injEq, List.cons_append,
          List.mem_cons, not_or]
        constructor
        · rintro ⟨before', after', found, ⟨rfl, rfl⟩, rfl⟩
          obtain ⟨rfl, none⟩ := ih.mp found
          exact ⟨⟨rfl, rfl⟩, Ne.symm same, none⟩
        · rintro ⟨⟨rfl, rfl⟩, -, none⟩
          exact ⟨before, after, ih.mpr ⟨rfl, none⟩, ⟨rfl, rfl⟩, rfl⟩

theorem splitOnce_eq_none {sep : Char} {cs : List Char} : splitOnce sep cs = none ↔ sep ∉ cs := by
  induction cs with
  | nil => simp [splitOnce]
  | cons c cs ih =>
    rw [splitOnce]
    by_cases same : c = sep
    · simp [same]
    · simp [same, ih, Ne.symm same]

theorem foldl_or_eq_zero {pairs : List (UInt8 × UInt8)} {acc : UInt8} :
    pairs.foldl (fun acc xy => acc ||| (xy.1 ^^^ xy.2)) acc = 0 ↔ acc = 0 ∧ ∀ xy ∈ pairs, xy.1 = xy.2 := by
  induction pairs generalizing acc with
  | nil => simp
  | cons xy pairs ih =>
    rw [List.foldl_cons, ih, UInt8.or_eq_zero_iff, UInt8.xor_eq_zero_iff, List.forall_mem_cons, and_assoc]

theorem forall_mem_zip {a b : Bytes} (same : a.length = b.length) :
    (∀ xy ∈ a.zip b, xy.1 = xy.2) ↔ a = b := by
  induction a generalizing b with
  | nil => simp [List.length_eq_zero_iff.mp same.symm]
  | cons x a ih =>
    cases b with
    | nil => cases same
    | cons y b =>
      rw [List.zip_cons_cons, List.forall_mem_cons, ih (Nat.succ.inj same), List.cons.injEq]

/-- The comparison of signatures is equality. -/
theorem ctEqBytes_iff {a b : Bytes} : ctEqBytes a b = true ↔ a = b := by
  unfold ctEqBytes
  by_cases same : a.length = b.length
  · rw [if_neg (not_not.mpr same), beq_iff_eq, foldl_or_eq_zero, forall_mem_zip same]
    exact and_iff_right rfl
  · rw [if_pos same]
    exact ⟨fun h => (by cases h), fun h => absurd (congrArg List.length h) same⟩

theorem verifySyncToken_mint (crypto : TokenCrypto) (secret payload : String) (now : ℕ) :
    verifySyncToken crypto secret now (crypto.mint secret payload) = grantedPatterns now payload.toList := by
  have cut : splitOnce '.' (crypto.mint secret payload).toList = some (crypto.encode (asBytes payload),
      crypto.encode (crypto.mac (asBytes secret)
        (asBytes (String.ofList (crypto.encode (asBytes payload)))))) := by
    rw [splitOnce_eq_some, TokenCrypto.mint, String.toList_ofList]
    exact ⟨rfl, crypto.not_mem_encode _⟩
  have back (bytes : Bytes) : crypto.decode (crypto.encode bytes) = some bytes :=
    (crypto.decode_eq_some _ _).mpr rfl
  unfold verifySyncToken
  rw [cut]
  dsimp only
  rw [back, back]
  dsimp only
  rw [ctEqBytes_iff.mpr rfl, Option.bind_some, fromUtf8_asBytes]
  rfl

/-- A token is accepted exactly if it was minted with the secret, of a payload that grants something. -/
theorem verifySyncToken_eq_ok {crypto : TokenCrypto} {secret token : String} {now : ℕ}
    {patterns : List String} :
    verifySyncToken crypto secret now token = .ok patterns ↔
      ∃ payload, token = crypto.mint secret payload ∧ grantedPatterns now payload.toList = .ok patterns := by
  constructor
  · intro h
    unfold verifySyncToken at h
    split at h
    case h_1 => cases h
    case h_2 payloadB64 sigB64 cut =>
      split at h
      case h_1 => cases h
      case h_2 sig decoded =>
        split at h
        case isTrue => cases h
        case isFalse equal =>
          split at h
          case h_1 => cases h
          case h_2 payload text =>
            rw [Bool.not_eq_true', Bool.not_eq_false, ctEqBytes_iff] at equal
            obtain ⟨bytes, payloadDecoded, utf8⟩ := Option.bind_eq_some_iff.mp text
            obtain rfl := asBytes_of_fromUtf8 utf8
            obtain rfl := (crypto.decode_eq_some _ _).mp payloadDecoded
            obtain rfl := (crypto.decode_eq_some _ _).mp decoded
            refine ⟨payload, ?_, h⟩
            rw [TokenCrypto.mint, ← equal, ← (splitOnce_eq_some.mp cut).1, String.ofList_toList]
  · rintro ⟨payload, rfl, granted⟩
    rw [verifySyncToken_mint, granted]

/-! ## Grants -/

/-- The expiry of a payload, if there is one, is a number of seconds later than a time. -/
def Unexpired (now : ℕ) (expiry : Option (List Char)) : Prop :=
  ∀ e ∈ expiry, ∃ exp, Decimal.parseU64 (asBytes (String.ofList e)) = some exp ∧ now < exp

theorem grantedPatterns_eq_ok {now : ℕ} {payload : List Char} {patterns : List String} :
    grantedPatterns now payload = .ok patterns ↔
      Unexpired now (cutExpiry payload).2 ∧ patterns = patternList (cutExpiry payload).1 ∧
        patterns ≠ [] ∧ ∀ p ∈ patterns, (asBytes p).length ≤ maxPatternBytes := by
  unfold grantedPatterns
  generalize cutExpiry payload = cut
  obtain ⟨text, expiry⟩ := cut
  have grant : ((if (patternList text).isEmpty then .error "token grants no patterns"
      else if (patternList text).any fun p => maxPatternBytes < (asBytes p).length then
        .error "token grants an over-long pattern"
      else .ok (patternList text) : Except String (List String)) = .ok patterns) ↔
      patterns = patternList text ∧ patterns ≠ [] ∧
        ∀ p ∈ patterns, (asBytes p).length ≤ maxPatternBytes := by
    constructor
    · intro h
      split at h
      case isTrue => cases h
      case isFalse some =>
        split at h
        case isTrue => cases h
        case isFalse short =>
          cases h
          refine ⟨rfl, fun none => some (List.isEmpty_iff.mpr none), fun p hp => ?_⟩
          by_contra long
          exact short (List.any_eq_true.mpr ⟨p, hp, decide_eq_true (by omega)⟩)
    · rintro ⟨rfl, some, short⟩
      rw [if_neg (fun none => some (List.isEmpty_iff.mp none)), if_neg]
      intro long
      obtain ⟨p, hp, long⟩ := List.any_eq_true.mp long
      exact absurd (short p hp) (not_le.mpr (of_decide_eq_true long))
  cases expiry with
  | none =>
    refine grant.trans (and_iff_right ?_).symm
    exact fun e he => (by cases he)
  | some e =>
    dsimp only
    cases parsed : Decimal.parseU64 (asBytes (String.ofList e)) with
    | none =>
      refine ⟨fun h => (by cases h), fun ⟨unexpired, _⟩ => ?_⟩
      obtain ⟨exp, found, -⟩ := unexpired e rfl
      rw [parsed] at found
      cases found
    | some exp =>
      dsimp only
      by_cases passed : exp ≤ now
      · rw [if_pos passed]
        refine ⟨fun h => (by cases h), fun ⟨unexpired, _⟩ => ?_⟩
        obtain ⟨exp', found, later⟩ := unexpired e rfl
        obtain rfl : exp = exp' := Option.some.inj (parsed.symm.trans found)
        omega
      · rw [if_neg passed]
        refine grant.trans (and_iff_right ?_).symm
        rintro e' he
        cases he
        exact ⟨exp, parsed, by omega⟩

/-- What the patterns of a grant are like. -/
structure GrantedPattern (p : String) : Prop where
  nonempty : p ≠ ""
  short : (asBytes p).length ≤ maxPatternBytes
  noComma : ',' ∉ p.toList
  first : ∀ c ∈ p.toList.head?, isWhiteSpace c = false
  last : ∀ c ∈ p.toList.getLast?, isWhiteSpace c = false

theorem head?_dropWhile {cs : List Char} {c : Char} (h : c ∈ (cs.dropWhile isWhiteSpace).head?) :
    isWhiteSpace c = false := by
  have outside := List.head?_dropWhile_not isWhiteSpace cs
  rw [Option.mem_def.mp h] at outside
  exact outside

theorem trimSpace_isPrefixOf (cs : List Char) : trimSpace cs <+: cs.dropWhile isWhiteSpace := by
  rw [← List.reverse_suffix, trimSpace, List.reverse_reverse]
  exact List.dropWhile_suffix _

theorem last_trimSpace {cs : List Char} {c : Char} (h : c ∈ (trimSpace cs).getLast?) :
    isWhiteSpace c = false := by
  rw [trimSpace, List.getLast?_reverse] at h
  exact head?_dropWhile h

theorem first_trimSpace {cs : List Char} {c : Char} (h : c ∈ (trimSpace cs).head?) :
    isWhiteSpace c = false := by
  obtain ⟨rest, cut⟩ := trimSpace_isPrefixOf cs
  refine @head?_dropWhile cs _ ?_
  rw [← cut, List.head?_append, Option.mem_def.mp h]
  rfl

theorem dropWhile_of_first {cs : List Char} (h : ∀ c ∈ cs.head?, isWhiteSpace c = false) :
    cs.dropWhile isWhiteSpace = cs := by
  cases cs with
  | nil => rfl
  | cons c cs => rw [List.dropWhile_cons, if_neg (by simp [h c rfl])]

theorem trimSpace_of_trimmed {cs : List Char} (first : ∀ c ∈ cs.head?, isWhiteSpace c = false)
    (last : ∀ c ∈ cs.getLast?, isWhiteSpace c = false) : trimSpace cs = cs := by
  rw [trimSpace, dropWhile_of_first first, dropWhile_of_first, List.reverse_reverse]
  rwa [List.head?_reverse]

theorem comma_not_mem {cs piece : List Char} (h : piece ∈ cs.splitOn ',') : ',' ∉ piece := by
  induction cs generalizing piece with
  | nil =>
    rw [List.splitOn_nil] at h
    obtain rfl := List.mem_singleton.mp h
    exact List.not_mem_nil
  | cons c cs ih =>
    rw [List.splitOn_cons_eq_if_modifyHead] at h
    split at h
    case isTrue =>
      cases h with
      | head => exact List.not_mem_nil
      | tail _ h => exact ih h
    case isFalse other =>
      cases pieces : cs.splitOn ',' with
      | nil => exact absurd pieces (List.splitOn_ne_nil _ _)
      | cons first rest =>
        rw [pieces] at h ih
        cases h with
        | head =>
          intro mem
          cases mem with
          | head => exact other rfl
          | tail _ mem => exact ih List.mem_cons_self mem
        | tail _ h => exact ih (List.mem_cons_of_mem first h)

theorem trimSpace_subset (cs : List Char) : trimSpace cs ⊆ cs :=
  (((trimSpace_isPrefixOf cs).sublist).trans (List.dropWhile_sublist _)).subset

theorem granted_of_patterns {text : List Char} {p : String} (mem : p ∈ patternList text)
    (short : (asBytes p).length ≤ maxPatternBytes) : GrantedPattern p := by
  obtain ⟨cs, kept, rfl⟩ := List.mem_map.mp mem
  obtain ⟨mem, some⟩ := List.mem_filter.mp kept
  obtain ⟨piece, inside, rfl⟩ := List.mem_map.mp mem
  refine ⟨fun none => ?_, short, ?_, ?_, ?_⟩
  · have empty : trimSpace piece = [] := by simpa using congrArg String.toList none
    rw [empty] at some
    cases some
  · rw [String.toList_ofList]
    exact fun comma => comma_not_mem inside (trimSpace_subset piece comma)
  · rw [String.toList_ofList]
    exact fun c hc => first_trimSpace hc
  · rw [String.toList_ofList]
    exact fun c hc => last_trimSpace hc

/-- A server accepts a token exactly if it was minted with the secret, of a payload that grants something
then.  The patterns of a grant can be matched as they stand, and a token that is accepted was acceptable
before, for the same patterns. -/
theorem verified_iff (crypto : TokenCrypto) (secret token : String) (now : ℕ) (patterns : List String) :
    (verifySyncToken crypto secret now token = .ok patterns ↔
      ∃ payload, token = crypto.mint secret payload ∧ grantedPatterns now payload.toList = .ok patterns) ∧
    (verifySyncToken crypto secret now token = .ok patterns →
      patterns ≠ [] ∧ (∀ p ∈ patterns, GrantedPattern p) ∧
        ∀ before ≤ now, verifySyncToken crypto secret before token = .ok patterns) := by
  refine ⟨verifySyncToken_eq_ok, fun h => ?_⟩
  obtain ⟨payload, minted, granted⟩ := verifySyncToken_eq_ok.mp h
  obtain ⟨unexpired, listed, some, short⟩ := grantedPatterns_eq_ok.mp granted
  refine ⟨some, fun p hp => granted_of_patterns (listed ▸ hp) (short p hp), fun before le => ?_⟩
  refine verifySyncToken_eq_ok.mpr ⟨payload, minted, grantedPatterns_eq_ok.mpr ⟨?_, listed, some, short⟩⟩
  intro e he
  obtain ⟨exp, parsed, later⟩ := unexpired e he
  exact ⟨exp, parsed, by omega⟩

/-! ## Round trip -/

/-- The payload that lists some patterns, with an expiry in seconds or without one. -/
def grantPayload (patterns : List String) (expiry : Option ℕ) : String :=
  String.ofList ([','].intercalate (patterns.map String.toList) ++
    match expiry with
    | none => []
    | some exp => '|' :: Nat.toDigits 10 exp)

theorem asBytes_of_ascii {cs : List Char} (ascii : ∀ c ∈ cs, c.toNat < 128) :
    asBytes (String.ofList cs) = cs.map fun c => c.toNat.toUInt8 := by
  induction cs with
  | nil => rfl
  | cons c cs ih =>
    have one : asBytes (String.singleton c) = [c.toNat.toUInt8] := by
      have named := asBytes_ascii c.toNat (ascii c List.mem_cons_self)
      rwa [Char.ofNat_toNat] at named
    have cut : asBytes (String.ofList (c :: cs)) = asBytes (String.singleton c) ++ asBytes (String.ofList cs) :=
      asBytes_ofList_append [c] cs
    rw [cut, one, ih fun d hd => ascii d (List.mem_cons_of_mem c hd)]
    rfl

theorem asBytes_toDigits (n : ℕ) : asBytes (String.ofList (Nat.toDigits 10 n)) = Decimal.digits n := by
  refine asBytes_of_ascii fun c hc => ?_
  have digit : c.isDigit = true := Nat.isDigit_of_mem_toDigits (by decide) (by decide) hc
  have upper : c.toNat ≤ 57 := by
    simp only [Char.isDigit, Bool.and_eq_true, decide_eq_true_eq] at digit
    exact digit.2
  omega

theorem bar_not_mem {patterns : List String} (clear : ∀ p ∈ patterns, '|' ∉ p.toList) :
    '|' ∉ [','].intercalate (patterns.map String.toList) := by
  induction patterns with
  | nil => exact List.not_mem_nil
  | cons p patterns ih =>
    have rest := ih fun q hq => clear q (List.mem_cons_of_mem p hq)
    have here := clear p List.mem_cons_self
    cases patterns with
    | nil => simpa using here
    | cons q patterns =>
      rw [List.map_cons, List.map_cons, List.intercalate_cons_cons, ← List.map_cons]
      simp only [List.mem_append, List.mem_singleton, not_or]
      exact ⟨⟨here, by decide⟩, rest⟩

theorem patternList_join {patterns : List String} (some : patterns ≠ [])
    (granted : ∀ p ∈ patterns, GrantedPattern p) :
    patternList ([','].intercalate (patterns.map String.toList)) = patterns := by
  have pieces : ([','].intercalate (patterns.map String.toList)).splitOn ',' = patterns.map String.toList := by
    refine List.splitOn_intercalate ',' (fun cs hcs => ?_) (fun none => some (List.map_eq_nil_iff.mp none))
    obtain ⟨p, hp, rfl⟩ := List.mem_map.mp hcs
    exact (granted p hp).noComma
  have trimmed : (patterns.map String.toList).map trimSpace = patterns.map String.toList := by
    refine List.map_congr_left (g := id) (fun cs hcs => ?_) |>.trans (List.map_id _)
    obtain ⟨p, hp, rfl⟩ := List.mem_map.mp hcs
    exact trimSpace_of_trimmed (granted p hp).first (granted p hp).last
  have kept : ((patterns.map String.toList).filter fun cs => !cs.isEmpty) = patterns.map String.toList := by
    refine List.filter_eq_self.mpr fun cs hcs => ?_
    obtain ⟨p, hp, rfl⟩ := List.mem_map.mp hcs
    have full : p.toList ≠ [] := fun none => (granted p hp).nonempty (String.toList_eq_nil_iff.mp none)
    simpa using full
  rw [patternList, pieces, trimmed, kept, List.map_map]
  exact (List.map_congr_left fun p _ => String.ofList_toList).trans (List.map_id _)

theorem cutExpiry_grantPayload {patterns : List String} (expiry : Option ℕ)
    (noBar : ∀ p ∈ patterns, '|' ∉ p.toList) :
    cutExpiry (grantPayload patterns expiry).toList =
      ([','].intercalate (patterns.map String.toList), expiry.map (Nat.toDigits 10)) := by
  have clear := bar_not_mem noBar
  unfold grantPayload cutExpiry
  rw [String.toList_ofList]
  cases expiry with
  | none =>
    dsimp only
    rw [List.append_nil, splitOnce_eq_none.mpr clear]
    rfl
  | some exp =>
    dsimp only
    rw [splitOnce_eq_some.mpr ⟨rfl, clear⟩]
    rfl

/-- A token minted for some patterns grants exactly these until its expiry, and nothing from then on. -/
theorem minted_grant (crypto : TokenCrypto) (secret : String) (now : ℕ) {patterns : List String}
    {expiry : Option ℕ} (some_pattern : patterns ≠ []) (granted : ∀ p ∈ patterns, GrantedPattern p)
    (noBar : ∀ p ∈ patterns, '|' ∉ p.toList) (fits : ∀ exp ∈ expiry, exp ≤ Decimal.u64Max) :
    verifySyncToken crypto secret now (crypto.mint secret (grantPayload patterns expiry)) =
      if ∀ exp ∈ expiry, now < exp then .ok patterns else .error "token expired" := by
  have full : patterns.isEmpty = false := by simpa using some_pattern
  have short : (patterns.any fun p => maxPatternBytes < (asBytes p).length) = false :=
    List.any_eq_false.mpr fun p hp => by simpa using (granted p hp).short
  rw [verifySyncToken_mint, grantedPatterns, cutExpiry_grantPayload expiry noBar]
  dsimp only
  rw [patternList_join some_pattern granted, full, short]
  cases expiry with
  | none => simp
  | some exp =>
    rw [Option.map_some]
    dsimp only
    rw [asBytes_toDigits, Decimal.parseU64_digits (fits exp rfl)]
    by_cases passed : exp ≤ now
    · simp [passed, not_lt.mpr passed]
    · simp [passed, not_le.mp passed]

/-- A grant for a cart until the tenth second, under a signature that puts the key before the message. -/
theorem minted_grant_cart :
    verifySyncToken (.urlSafe (· ++ ·)) "s" 9
      ((TokenCrypto.urlSafe (· ++ ·)).mint "s" (grantPayload ["cart:*"] (some 10))) = .ok ["cart:*"] := by
  have plain : GrantedPattern "cart:*" := ⟨by decide, by decide, by decide, by rintro c ⟨⟩; rfl,
    by rintro c ⟨⟩; rfl⟩
  refine (minted_grant _ "s" 9 (by decide) (fun p hp => ?_) (fun p hp => ?_) (by decide)).trans
    (if_pos (by decide))
  · obtain rfl := List.mem_singleton.mp hp
    exact plain
  · obtain rfl := List.mem_singleton.mp hp
    decide

end Recached
