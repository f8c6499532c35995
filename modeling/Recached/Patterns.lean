import Recached.Connection
import Recached.Lib.Wildcards

/-!
# Patterns of keys

What a pattern stands for, when the matcher decides it, and which patterns a grant includes.  The matcher
compares a byte of the text with the pattern before it looks for a star, so a star of the pattern that meets
a `*` of the text takes that one byte and is lost.
-/

namespace Recached

open Text

/-! ## The language of a pattern -/

/-- `*` stands for any bytes, `?` for any byte, and every byte for itself. -/
def byteLanguage (b : UInt8) : Language UInt8 := {w | b = 42 ∨ b = 63 ∧ w.length = 1 ∨ w = [b]}

def patternLanguage (pattern : Bytes) : Language UInt8 := (pattern.map byteLanguage).prod

/-- The first test of the loop: the byte of the pattern takes the byte of the text. -/
def takesByte (p t : UInt8) : Bool := p = 63 ∨ p = t

def isStarByte (p : UInt8) : Bool := p = 42

theorem patternLanguage_eq (pattern : Bytes) :
    patternLanguage pattern = Wildcards.language takesByte isStarByte pattern := by
  have byte : byteLanguage = Wildcards.symbolLanguage takesByte isStarByte := by
    funext b
    ext w
    show (b = 42 ∨ b = 63 ∧ w.length = 1 ∨ w = [b]) ↔
      isStarByte b = true ∨ ∃ t, takesByte b t = true ∧ w = [t]
    simp only [isStarByte, takesByte, decide_eq_true_eq, Bool.decide_or, Bool.or_eq_true]
    refine or_congr_right ?_
    constructor
    · rintro (⟨any, single⟩ | rfl)
      · obtain ⟨t, rfl⟩ := List.length_eq_one_iff.mp single
        exact ⟨t, .inl any, rfl⟩
      · exact ⟨b, .inr rfl, rfl⟩
    · rintro ⟨t, any | rfl, rfl⟩
      · exact .inl ⟨any, rfl⟩
      · exact .inr rfl
  rw [patternLanguage, Wildcards.language, byte]

/-! ## The matcher -/

theorem globLoop_eq (fuel : ℕ) (text pat : Bytes) (saved : Option (Bytes × Bytes)) :
    globLoop fuel text pat saved = Wildcards.loop takesByte isStarByte fuel text pat saved := by
  induction fuel generalizing text pat saved with
  | zero => cases text <;> rfl
  | succ fuel ih =>
    cases text with
    | nil => rfl
    | cons t text =>
      cases pat with
      | nil =>
        cases saved with
        | none => rfl
        | some s => exact ih _ _ _
      | cons p pat =>
        by_cases take : p = 63 ∨ p = t
        · have step : Wildcards.loop takesByte isStarByte (fuel + 1) (t :: text) (p :: pat) saved =
              Wildcards.loop takesByte isStarByte fuel text pat saved := Wildcards.loop_take (decide_eq_true take)
          exact (if_pos take).trans ((ih _ _ _).trans step.symm)
        have refused : takesByte p t = false := decide_eq_false take
        by_cases star : p = 42
        · exact (if_neg take).trans ((if_pos star).trans ((ih _ _ _).trans
            (Wildcards.loop_star refused (decide_eq_true star)).symm))
        · have blocked : Wildcards.Blocked takesByte isStarByte t (p :: pat) := ⟨refused, decide_eq_false star⟩
          rw [Wildcards.loop_blocked blocked]
          refine (if_neg take).trans ((if_neg star).trans ?_)
          cases saved with
          | none => rfl
          | some s => exact ih _ _ _

/-- The loop of the matcher ends with an answer. -/
def GlobEnds (pattern s : String) (answer : Bool) : Prop :=
  Wildcards.Ends takesByte isStarByte (asBytes s) (asBytes pattern) none answer

theorem globMatch_ends (pattern s : String) : GlobEnds pattern s (globMatch pattern s) := by
  unfold GlobEnds globMatch
  rw [globLoop_eq]
  refine Wildcards.loop_ends (m := (asBytes pattern).length) (n := (asBytes s).length) _
    ⟨le_rfl, le_rfl, le_rfl, nofun⟩ ?_
  show (asBytes s).length * _ + _ + _ < _
  rw [Nat.succ_mul]
  omega

theorem glob_sound {pattern s : String} (accepted : globMatch pattern s = true) :
    asBytes s ∈ patternLanguage (asBytes pattern) := by
  obtain here | ⟨_, _, ⟨⟩, -⟩ := (globMatch_ends pattern s).sound accepted
  rwa [patternLanguage_eq]

/-- A pattern without special bytes stands for itself. -/
theorem mem_literal {text pattern : Bytes} (literal : ∀ b ∈ pattern, b ≠ 42 ∧ b ≠ 63) :
    text ∈ patternLanguage pattern ↔ text = pattern := by
  rw [patternLanguage_eq]
  induction pattern generalizing text with
  | nil => exact Wildcards.mem_nil
  | cons b pattern ih =>
    obtain ⟨⟨plain, single⟩, others⟩ := List.forall_mem_cons.mp literal
    have starless : isStarByte b = false := decide_eq_false plain
    rw [Wildcards.mem_symbol starless]
    constructor
    · rintro ⟨t, rest, allowed, mem, rfl⟩
      obtain rfl : b = t := (of_decide_eq_true allowed).resolve_left single
      rw [(ih others).mp mem]
    · rintro rfl
      exact ⟨b, pattern, decide_eq_true (.inr rfl), (ih others).mpr rfl, rfl⟩

def isSpecial (c : Char) : Bool := c = '*' || c = '?'

theorem literal_of_plain {l : List Char} (plain : ∀ c ∈ l, isSpecial c = false) :
    ∀ b ∈ asBytes (String.ofList l), b ≠ 42 ∧ b ≠ 63 := by
  intro b mem
  constructor
  · rintro rfl
    obtain ⟨c, hc, code⟩ := exists_char_of_mem mem (by decide)
    rw [Char.toNat_inj.mp (code.trans rfl : c.toNat = '*'.toNat)] at hc
    exact absurd (plain _ hc) (by decide)
  · rintro rfl
    obtain ⟨c, hc, code⟩ := exists_char_of_mem mem (by decide)
    rw [Char.toNat_inj.mp (code.trans rfl : c.toNat = '?'.toNat)] at hc
    exact absurd (plain _ hc) (by decide)

/-- A grant other than the pattern itself is a literal prefix and a star, and the pattern begins with the
prefix. -/
theorem scopeCoversPattern_cases {grant requested : String} (covers : scopeCoversPattern grant requested = true) :
    grant = requested ∨ ∃ l r, grant = String.ofList (l ++ ['*']) ∧ requested = String.ofList (l ++ r) ∧
      ∀ c ∈ l, isSpecial c = false := by
  unfold scopeCoversPattern at covers
  split_ifs at covers with simple
  · obtain same | all := (Bool.or_eq_true _ _).mp simple
    · exact .inl (of_decide_eq_true same)
    · refine .inr ⟨[], requested.toList, ?_, ?_, nofun⟩
      · exact of_decide_eq_true all
      · simp
  · split at covers
    · next rest reversed =>
      obtain ⟨plain, begins⟩ := Bool.and_eq_true_iff.mp covers
      obtain ⟨r, taken⟩ := (List.isPrefixOf_iff_prefix.mp begins).trans (List.takeWhile_prefix _)
      refine .inr ⟨rest.reverse, r, ?_, ?_, fun c hc => ?_⟩
      · rw [← String.ofList_toList (s := grant), ← grant.toList.reverse_reverse, reversed, List.reverse_cons]
      · rw [taken, String.ofList_toList]
      · rw [Bool.not_eq_true', List.any_eq_false] at plain
        exact Bool.eq_false_iff.mpr (plain c (List.mem_reverse.mp hc))
    · cases covers

/-- A pattern that a grant covers stands for no key outside the grant. -/
theorem covered_pattern_inside {grant requested : String} (covers : scopeCoversPattern grant requested = true)
    {key : String} (mem : asBytes key ∈ patternLanguage (asBytes requested)) :
    asBytes key ∈ patternLanguage (asBytes grant) := by
  obtain rfl | ⟨l, r, rfl, rfl, plain⟩ := scopeCoversPattern_cases covers
  · exact mem
  rw [asBytes_ofList_append, patternLanguage_eq, Wildcards.mem_append] at mem
  obtain ⟨a, ha, b, -, same⟩ := mem
  rw [← patternLanguage_eq, mem_literal (literal_of_plain plain)] at ha
  rw [asBytes_ofList_append, patternLanguage_eq, Wildcards.mem_append]
  refine ⟨a, ?_, b, (Wildcards.mem_star rfl).mpr ⟨[], List.nil_suffix, Wildcards.mem_nil.mpr rfl⟩, same⟩
  rw [← patternLanguage_eq, mem_literal (literal_of_plain plain), ha]

theorem covered_pattern_inside_user : asBytes "user:1" ∈ patternLanguage (asBytes "user:*") := by
  have requested : asBytes "user:1" ∈ patternLanguage (asBytes "user:?") := glob_sound (by decide)
  exact covered_pattern_inside (by decide) requested

end Recached
