import Mathlib.Computability.Language

/-!
# Matching with wildcards

A pattern is a list of symbols, of which some are stars and stand for any text; any other symbol takes the
symbols that `takes` allows it.  The matcher walks through the text once and remembers the most recent star
only.  It is sound for every pattern.  It is exact if no star of the pattern takes a symbol of the text
itself, for then a later star can make up for whatever an earlier one could.
-/

namespace Wildcards

variable {π α : Type} (takes : π → α → Bool) (isStar : π → Bool)

/-! ## The language of a pattern -/

/-- A star stands for any text, and every symbol for those that it takes. -/
def symbolLanguage (p : π) : Language α := {w | isStar p = true ∨ ∃ t, takes p t = true ∧ w = [t]}

/-- The texts that a pattern stands for. -/
def language (pat : List π) : Language α := (pat.map (symbolLanguage takes isStar)).prod

variable {takes isStar} {p : π} {pat : List π} {t : α} {text : List α}

theorem mem_nil : text ∈ language takes isStar [] ↔ text = [] := Language.mem_one _

theorem mem_cons : text ∈ language takes isStar (p :: pat) ↔
    ∃ a ∈ symbolLanguage takes isStar p, ∃ b ∈ language takes isStar pat, a ++ b = text := Language.mem_mul

theorem mem_append {pat' : List π} : text ∈ language takes isStar (pat ++ pat') ↔
    ∃ a ∈ language takes isStar pat, ∃ b ∈ language takes isStar pat', a ++ b = text := by
  rw [language, List.map_append, List.prod_append]
  exact Language.mem_mul

theorem mem_star (star : isStar p = true) :
    text ∈ language takes isStar (p :: pat) ↔ ∃ b, b <:+ text ∧ b ∈ language takes isStar pat := by
  rw [mem_cons]
  constructor
  · rintro ⟨a, -, b, mem, rfl⟩
    exact ⟨b, List.suffix_append a b, mem⟩
  · rintro ⟨b, ⟨a, rfl⟩, mem⟩
    exact ⟨a, .inl star, b, mem, rfl⟩

theorem mem_symbol (plain : isStar p = false) :
    text ∈ language takes isStar (p :: pat) ↔
      ∃ t b, takes p t = true ∧ b ∈ language takes isStar pat ∧ text = t :: b := by
  rw [mem_cons]
  constructor
  · rintro ⟨a, star | ⟨t, allowed, rfl⟩, b, mem, rfl⟩
    · exact absurd (plain.symm.trans star) Bool.false_ne_true
    · exact ⟨t, b, allowed, mem, rfl⟩
  · rintro ⟨t, b, allowed, mem, rfl⟩
    exact ⟨[t], .inr ⟨t, allowed, rfl⟩, b, mem, rfl⟩

/-- A star takes one symbol as it takes any text, and another symbol takes what it is allowed. -/
theorem mem_take (allowed : takes p t = true) (mem : text ∈ language takes isStar pat) :
    t :: text ∈ language takes isStar (p :: pat) := by
  cases star : isStar p with
  | true => exact (mem_star star).mpr ⟨text, List.suffix_cons t text, mem⟩
  | false => exact (mem_symbol star).mpr ⟨t, text, allowed, mem, rfl⟩

theorem nil_mem_iff : [] ∈ language takes isStar pat ↔ pat.all isStar = true := by
  induction pat with
  | nil => exact iff_of_true (mem_nil.mpr rfl) rfl
  | cons p pat ih =>
    cases star : isStar p with
    | true =>
      rw [mem_star star, List.all_cons, star, Bool.true_and, ← ih]
      constructor
      · rintro ⟨b, suffix, mem⟩
        rwa [List.suffix_nil.mp suffix] at mem
      · exact fun mem => ⟨[], List.suffix_rfl, mem⟩
    | false =>
      rw [mem_symbol star, List.all_cons, star, Bool.false_and]
      refine iff_of_false ?_ Bool.false_ne_true
      rintro ⟨t, b, -, -, same⟩
      cases same

/-- A pattern without stars stands for texts of its own length. -/
theorem length_of_mem (starless : ∀ p ∈ pat, isStar p = false) (mem : text ∈ language takes isStar pat) :
    text.length = pat.length := by
  induction pat generalizing text with
  | nil => rw [mem_nil.mp mem]; rfl
  | cons p pat ih =>
    obtain ⟨plain, others⟩ := List.forall_mem_cons.mp starless
    obtain ⟨t, b, -, rest, rfl⟩ := (mem_symbol plain).mp mem
    rw [List.length_cons, List.length_cons, ih others rest]

/-! ## The matcher -/

variable (takes isStar)

/-- The matching loop: the rest of the text and of the pattern, and what the most recent star left of the
pattern and where it was last tried. -/
def loop : (fuel : ℕ) → (text : List α) → (pat : List π) → Option (List π × List α) → Bool
  | _, [], pat, _ => pat.all isStar
  | 0, _, _, _ => false
  | fuel + 1, t :: text, pat, saved =>
    let retry : Bool :=
      match saved with
      | some (pat, resume) => loop fuel resume.tail pat (some (pat, resume.tail))
      | none => false
    match pat with
    | p :: pat =>
      if takes p t then loop fuel text pat saved
      else if isStar p then loop fuel (t :: text) pat (some (pat, t :: text))
      else retry
    | [] => retry

/-- The pattern cannot go on with the symbol. -/
def Blocked (t : α) : List π → Prop
  | [] => True
  | p :: _ => takes p t = false ∧ isStar p = false

/-- The loop from a state ends with an answer. -/
inductive Ends : (text : List α) → (pat : List π) → Option (List π × List α) → Bool → Prop where
  | done (pat : List π) (saved : Option (List π × List α)) : Ends [] pat saved (pat.all isStar)
  | take {t : α} {text : List α} {p : π} {pat : List π} {saved : Option (List π × List α)} {answer : Bool} :
    takes p t = true → Ends text pat saved answer → Ends (t :: text) (p :: pat) saved answer
  | star {t : α} {text : List α} {p : π} {pat : List π} {saved : Option (List π × List α)} {answer : Bool} :
    takes p t = false → isStar p = true → Ends (t :: text) pat (some (pat, t :: text)) answer →
      Ends (t :: text) (p :: pat) saved answer
  | retry {t : α} {text resume : List α} {pat rest : List π} {answer : Bool} :
    Blocked takes isStar t pat → Ends resume.tail rest (some (rest, resume.tail)) answer →
      Ends (t :: text) pat (some (rest, resume)) answer
  | fail {t : α} {text : List α} {pat : List π} :
    Blocked takes isStar t pat → Ends (t :: text) pat none false

variable {takes isStar}

theorem loop_take {fuel : ℕ} {saved : Option (List π × List α)} (allowed : takes p t = true) :
    loop takes isStar (fuel + 1) (t :: text) (p :: pat) saved = loop takes isStar fuel text pat saved :=
  if_pos allowed

theorem loop_star {fuel : ℕ} {saved : Option (List π × List α)} (refused : takes p t = false)
    (star : isStar p = true) :
    loop takes isStar (fuel + 1) (t :: text) (p :: pat) saved =
      loop takes isStar fuel (t :: text) pat (some (pat, t :: text)) :=
  (if_neg (Bool.eq_false_iff.mp refused)).trans (if_pos star)

theorem loop_blocked {fuel : ℕ} {saved : Option (List π × List α)} (blocked : Blocked takes isStar t pat) :
    loop takes isStar (fuel + 1) (t :: text) pat saved = match saved with
      | some (rest, resume) => loop takes isStar fuel resume.tail rest (some (rest, resume.tail))
      | none => false := by
  cases pat with
  | nil => rfl
  | cons p pat =>
    exact (if_neg (Bool.eq_false_iff.mp blocked.1)).trans (if_neg (Bool.eq_false_iff.mp blocked.2))

/-- How much of the text the most recent star may still be given. -/
def reserve (n : ℕ) : Option (List π × List α) → ℕ
  | some (_, resume) => resume.length
  | none => n

/-- A state of a match of a pattern of `m` symbols against a text of `n`. -/
structure Bounded (m n : ℕ) (text : List α) (pat : List π) (saved : Option (List π × List α)) : Prop where
  pattern : pat.length ≤ m
  left : text.length ≤ reserve n saved
  right : reserve n saved ≤ n
  saved_pattern : ∀ q u, saved = some (q, u) → q.length ≤ m

/-- The loop ends: between two steps that give the most recent star one more symbol the text and the pattern
only get shorter. -/
theorem loop_ends {m n : ℕ} (fuel : ℕ) {saved : Option (List π × List α)} (bounded : Bounded m n text pat saved)
    (enough : reserve n saved * (n + m + 1) + text.length + pat.length < fuel) :
    Ends takes isStar text pat saved (loop takes isStar fuel text pat saved) := by
  induction fuel generalizing text pat saved with
  | zero => exact absurd enough (Nat.not_lt_zero _)
  | succ fuel ih =>
    cases text with
    | nil => exact .done pat saved
    | cons t text =>
      have blocked (h : Blocked takes isStar t pat) :
          Ends takes isStar (t :: text) pat saved (loop takes isStar (fuel + 1) (t :: text) pat saved) := by
        rw [loop_blocked h]
        cases saved with
        | none => exact .fail h
        | some s =>
          obtain ⟨rest, resume⟩ := s
          have rest_le := bounded.saved_pattern rest resume rfl
          have left : (t :: text).length ≤ resume.length := bounded.left
          have right : resume.length ≤ n := bounded.right
          rw [List.length_cons] at left
          refine .retry h (ih ⟨rest_le, le_rfl, ?_, ?_⟩ ?_)
          · show resume.tail.length ≤ n
            rw [List.length_tail]
            omega
          · rintro q u ⟨⟩
            exact rest_le
          · obtain ⟨k, hk⟩ : ∃ k, resume.length = k + 1 := ⟨resume.length - 1, by omega⟩
            change resume.length * (n + m + 1) + _ + _ < _ at enough
            show resume.tail.length * (n + m + 1) + resume.tail.length + rest.length < fuel
            rw [hk, Nat.succ_mul] at enough
            rw [List.length_tail, hk, Nat.add_sub_cancel]
            omega
      cases pat with
      | nil => exact blocked trivial
      | cons p pat =>
        cases allowed : takes p t with
        | true =>
          rw [loop_take allowed]
          have left := bounded.left
          have pattern := bounded.pattern
          rw [List.length_cons] at left pattern
          refine .take allowed (ih ⟨by omega, by omega, bounded.right, bounded.saved_pattern⟩ ?_)
          simp only [List.length_cons] at enough
          omega
        | false =>
          cases star : isStar p with
          | true =>
            rw [loop_star allowed star]
            have pattern := bounded.pattern
            rw [List.length_cons] at pattern
            refine .star allowed star (ih ⟨by omega, le_rfl, bounded.left.trans bounded.right, ?_⟩ ?_)
            · rintro q u ⟨⟩
              omega
            · have less := Nat.mul_le_mul_right (n + m + 1) bounded.left
              rw [List.length_cons (a := p)] at enough
              show (t :: text).length * (n + m + 1) + _ + _ < _
              omega
          | false => exact blocked ⟨allowed, star⟩

/-! ## What the answer means -/

/-- The text matches, or a later start of the most recent star does. -/
def Matches (takes : π → α → Bool) (isStar : π → Bool) (text : List α) (pat : List π)
    (saved : Option (List π × List α)) : Prop :=
  text ∈ language takes isStar pat ∨
    ∃ q u, saved = some (q, u) ∧ ∃ s, s <:+ u.tail ∧ s ∈ language takes isStar q

theorem suffix_iff {l s : List α} : s <:+ t :: l ↔ s = t :: l ∨ s <:+ l := List.suffix_cons_iff

/-- What the rest of a star matches from here on is what its pattern matches from here or later. -/
theorem matches_star : Matches takes isStar (t :: text) pat (some (pat, t :: text)) ↔
    ∃ s, s <:+ t :: text ∧ s ∈ language takes isStar pat := by
  constructor
  · rintro (here | ⟨_, _, ⟨⟩, s, suffix, mem⟩)
    · exact ⟨_, List.suffix_rfl, here⟩
    · exact ⟨s, suffix_iff.mpr (.inr suffix), mem⟩
  · rintro ⟨s, suffix, mem⟩
    obtain rfl | suffix := suffix_iff.mp suffix
    · exact .inl mem
    · exact .inr ⟨_, _, rfl, s, suffix, mem⟩

theorem matches_retry {q : List π} {u s : List α} (suffix : s <:+ u) (mem : s ∈ language takes isStar q) :
    Matches takes isStar u q (some (q, u)) := by
  obtain rfl | ⟨t, u, rfl⟩ : u = [] ∨ ∃ t v, u = t :: v := by cases u <;> simp
  · rw [List.suffix_nil.mp suffix] at mem
    exact .inl mem
  · exact matches_star.mpr ⟨s, suffix, mem⟩

theorem suffix_of_matches {q : List π} {u : List α} (h : Matches takes isStar u q (some (q, u))) :
    ∃ s, s <:+ u ∧ s ∈ language takes isStar q := by
  obtain here | ⟨_, _, ⟨⟩, s, suffix, mem⟩ := h
  · exact ⟨u, List.suffix_rfl, here⟩
  · exact ⟨s, suffix.trans (List.tail_suffix u), mem⟩

/-- The matcher accepts only what the pattern stands for. -/
theorem Ends.sound {saved : Option (List π × List α)} {answer : Bool}
    (ends : Ends takes isStar text pat saved answer) (accepted : answer = true) :
    Matches takes isStar text pat saved := by
  induction ends with
  | done pat saved => exact .inl (nil_mem_iff.mpr accepted)
  | take allowed _ ih => exact (ih accepted).imp_left (mem_take allowed)
  | star _ star _ ih => exact .inl ((mem_star star).mpr (matches_star.mp (ih accepted)))
  | retry _ _ ih => exact .inr ⟨_, _, rfl, suffix_of_matches (ih accepted)⟩
  | fail => cases accepted

/-- The part of the pattern since the most recent star has taken the text since then, symbol by symbol. -/
def Aligned (isStar : π → Bool) (text : List α) (pat : List π) (saved : Option (List π × List α)) : Prop :=
  ∀ q u, saved = some (q, u) → ∃ w x, q = w ++ pat ∧ u = x ++ text ∧ w.length = x.length ∧
    ∀ p ∈ w, isStar p = false

theorem aligned_refl (q : List π) (u : List α) : Aligned isStar u q (some (q, u)) := by
  rintro _ _ ⟨⟩
  exact ⟨[], [], rfl, rfl, rfl, nofun⟩

/-- What a later start of the star matches ends with a match of the rest of the pattern here or later. -/
theorem Aligned.later {saved : Option (List π × List α)} (aligned : Aligned isStar text pat saved)
    {q : List π} {u s : List α} (star : saved = some (q, u)) (suffix : s <:+ u.tail)
    (mem : s ∈ language takes isStar q) : ∃ b, b <:+ text ∧ b ∈ language takes isStar pat := by
  obtain ⟨w, x, rfl, rfl, same, starless⟩ := aligned q u star
  obtain ⟨a, ha, b, hb, rfl⟩ := mem_append.mp mem
  refine ⟨b, ?_, hb⟩
  have consumed := length_of_mem starless ha
  have inside : b <:+ x ++ text :=
    ((List.suffix_append a b).trans suffix).trans (List.tail_suffix _)
  have short : b.length ≤ text.length := by
    have := suffix.length_le
    rw [List.length_tail, List.length_append, List.length_append] at this
    omega
  exact List.suffix_of_suffix_length_le inside (List.suffix_append x text) short

theorem not_mem_of_blocked (blocked : Blocked takes isStar t pat) :
    t :: text ∉ language takes isStar pat := by
  cases pat with
  | nil => exact fun mem => List.cons_ne_nil t text (mem_nil.mp mem)
  | cons p pat =>
    rintro mem
    obtain ⟨t', b, allowed, -, same⟩ := (mem_symbol blocked.2).mp mem
    obtain ⟨rfl, rfl⟩ := List.cons.inj same
    exact Bool.false_ne_true (blocked.1.symm.trans allowed)

/-- If stars take no symbols themselves, the most recent star is the only one that matters. -/
theorem Ends.complete {P : List π} {T : List α} (clear : ∀ p ∈ P, isStar p = true → ∀ t ∈ T, takes p t = false)
    {saved : Option (List π × List α)} {answer : Bool} (ends : Ends takes isStar text pat saved answer)
    (aligned : Aligned isStar text pat saved) (pattern : pat <:+ P) (tail : text <:+ T)
    (earlier : ∀ q u, saved = some (q, u) → q <:+ P ∧ u <:+ T)
    (accepts : Matches takes isStar text pat saved) : answer = true := by
  induction ends with
  | done pat saved =>
    obtain here | ⟨q, u, star, s, suffix, mem⟩ := accepts
    · exact nil_mem_iff.mp here
    · obtain ⟨b, none, mem⟩ := aligned.later star suffix mem
      rw [List.suffix_nil.mp none] at mem
      exact nil_mem_iff.mp mem
  | @take t text p pat saved answer allowed _ ih =>
    have plain : isStar p = false := by
      by_contra star
      have refused := clear p (pattern.subset List.mem_cons_self) (Bool.not_eq_false _ ▸ star) t
        (tail.subset List.mem_cons_self)
      exact Bool.false_ne_true (refused.symm.trans allowed)
    refine ih ?_ ((List.suffix_cons p pat).trans pattern) ((List.suffix_cons t text).trans tail) earlier ?_
    · rintro q u star
      obtain ⟨w, x, rfl, rfl, same, starless⟩ := aligned q u star
      refine ⟨w ++ [p], x ++ [t], by simp, by simp, by simp [same], ?_⟩
      intro p' hp'
      obtain old | new := List.mem_append.mp hp'
      · exact starless p' old
      · rw [List.mem_singleton.mp new]
        exact plain
    · refine accepts.imp_left fun mem => ?_
      obtain ⟨t', b, -, mem, same⟩ := (mem_symbol plain).mp mem
      obtain ⟨rfl, rfl⟩ := List.cons.inj same
      exact mem
  | @star t text p pat saved answer _ star _ ih =>
    refine ih (aligned_refl _ _) ((List.suffix_cons p pat).trans pattern) tail ?_ (matches_star.mpr ?_)
    · rintro _ _ ⟨⟩
      exact ⟨(List.suffix_cons p pat).trans pattern, tail⟩
    · obtain here | ⟨q, u, old, s, suffix, mem⟩ := accepts
      · exact (mem_star star).mp here
      · -- what an earlier star could make up for, this one can too
        obtain ⟨b, suffix, mem⟩ := aligned.later old suffix mem
        obtain ⟨b', suffix', mem⟩ := (mem_star star).mp mem
        exact ⟨b', suffix'.trans suffix, mem⟩
  | @retry t text resume pat rest answer blocked _ ih =>
    obtain ⟨rest_pattern, resumed⟩ := earlier rest resume rfl
    have tail_resume := (List.tail_suffix resume).trans resumed
    refine ih (aligned_refl _ _) rest_pattern tail_resume ?_ ?_
    · rintro _ _ ⟨⟩
      exact ⟨rest_pattern, tail_resume⟩
    · obtain here | ⟨_, _, ⟨⟩, s, suffix, mem⟩ := accepts
      · exact absurd here (not_mem_of_blocked blocked)
      · exact matches_retry suffix mem
  | fail blocked =>
    obtain here | ⟨_, _, ⟨⟩, -⟩ := accepts
    exact absurd here (not_mem_of_blocked blocked)

end Wildcards
