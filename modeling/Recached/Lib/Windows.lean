import Mathlib.Data.List.TakeWhile
import Mathlib.Tactic.Common
import Mathlib.Tactic.Ring

/-!
# Spans of time

Events in a moving window, kept by the span of time they fall in: `push` records an event in the last
span or opens a new one, and `expire` drops spans from the front.  A span holds its events or only
something computed from them, such as their number (`push_map`).  Spans of one width have starts that
far apart, so that a stretch of time holds only so many of them (`Spaced.length_le`).
-/

namespace Windows

variable {α β γ : Type}

/-- Record in the span with the start: the last one, or a new one. -/
def record (add : Option β → β) (start : ℕ) (spans : List (ℕ × β)) : List (ℕ × β) :=
  match spans.getLast? with
  | some (last, b) =>
    if last = start then spans.dropLast ++ [(last, add (some b))] else spans ++ [(start, add none)]
  | none => [(start, add none)]

/-- The spans that are left once those behind are dropped from the front. -/
def expire (behind : ℕ → Bool) (spans : List (ℕ × β)) : List (ℕ × β) := spans.dropWhile fun s => behind s.1

theorem expire_cons_of_behind {behind : ℕ → Bool} {s : ℕ × β} (past : behind s.1) (spans : List (ℕ × β)) :
    expire behind (s :: spans) = expire behind spans :=
  List.dropWhile_cons_of_pos past

theorem expire_cons_of_ahead {behind : ℕ → Bool} {s : ℕ × β} (ahead : ¬behind s.1) (spans : List (ℕ × β)) :
    expire behind (s :: spans) = s :: spans :=
  List.dropWhile_cons_of_neg ahead

theorem expire_map (behind : ℕ → Bool) (f : β → γ) (spans : List (ℕ × β)) :
    (expire behind spans).map (Prod.map id f) = expire behind (spans.map (Prod.map id f)) := by
  rw [expire, expire, List.dropWhile_map]
  rfl

theorem record_map {f : β → γ} {add : Option β → β} {add' : Option γ → γ}
    (h : ∀ o, f (add o) = add' (o.map f)) (start : ℕ) (spans : List (ℕ × β)) :
    (record add start spans).map (Prod.map id f) = record add' start (spans.map (Prod.map id f)) := by
  unfold record
  rw [List.getLast?_map]
  cases spans.getLast? with
  | none => simp [h]
  | some s =>
    obtain ⟨last, b⟩ := s
    dsimp only [Option.map_some, Prod.map_apply, id_eq]
    split_ifs <;> simp [h, List.map_dropLast]

/-- What is left is the end of what there was, and everything before it was behind. -/
theorem expire_spec (behind : ℕ → Bool) (spans : List (ℕ × β)) :
    ∃ gone, spans = gone ++ expire behind spans ∧ ∀ s ∈ gone, behind s.1 :=
  ⟨spans.takeWhile fun s => behind s.1, List.takeWhile_append_dropWhile.symm,
    fun _ mem => List.mem_takeWhile_imp (p := fun s : ℕ × β => behind s.1) mem⟩

theorem mem_of_mem_expire {behind : ℕ → Bool} {spans : List (ℕ × β)} {s : ℕ × β}
    (mem : s ∈ expire behind spans) : s ∈ spans :=
  (List.dropWhile_sublist _).mem mem

theorem head?_expire {behind : ℕ → Bool} {spans : List (ℕ × β)} {s : ℕ × β}
    (first : (expire behind spans).head? = some s) : behind s.1 = false := by
  have := List.head?_dropWhile_not (fun s : ℕ × β => behind s.1) spans
  rw [expire] at first
  rw [first] at this
  simpa using this

/-! ## Spans of events -/

def push (a : α) (start : ℕ) (spans : List (ℕ × List α)) : List (ℕ × List α) :=
  record (fun o => o.getD [] ++ [a]) start spans

def items (spans : List (ℕ × List α)) : List α := spans.flatMap Prod.snd

theorem items_append (l l' : List (ℕ × List α)) : items (l ++ l') = items l ++ items l' :=
  List.flatMap_append

/-- The last span apart from the others. -/
theorem dropLast_concat_of_getLast? {l : List β} {b : β} (last : l.getLast? = some b) :
    l.dropLast ++ [b] = l := by
  obtain ⟨init, rfl⟩ := List.getLast?_eq_some_iff.mp last
  rw [List.dropLast_concat]

theorem push_cases (a : α) (start : ℕ) (spans : List (ℕ × List α)) :
    ((∀ s ∈ spans.getLast?, s.1 ≠ start) ∧ push a start spans = spans ++ [(start, [a])]) ∨
      ∃ init earlier, spans = init ++ [(start, earlier)] ∧
        push a start spans = init ++ [(start, earlier ++ [a])] := by
  unfold push record
  cases last : spans.getLast? with
  | none =>
    obtain rfl := List.getLast?_eq_none_iff.mp last
    exact .inl ⟨by simp, rfl⟩
  | some s =>
    obtain ⟨start', earlier⟩ := s
    dsimp only
    split_ifs with same
    · subst same
      exact .inr ⟨_, earlier, (dropLast_concat_of_getLast? last).symm, rfl⟩
    · exact .inl ⟨by simpa using same, rfl⟩

theorem items_push (a : α) (start : ℕ) (spans : List (ℕ × List α)) :
    items (push a start spans) = items spans ++ [a] := by
  obtain ⟨-, eq⟩ | ⟨init, earlier, rfl, eq⟩ := push_cases a start spans
  · rw [eq, items_append]
    rfl
  · rw [eq, items_append, items_append]
    simp [items]

theorem length_items_expire_le (behind : ℕ → Bool) (spans : List (ℕ × List α)) :
    (items (expire behind spans)).length ≤ (items spans).length := by
  obtain ⟨gone, eq, -⟩ := expire_spec behind spans
  have : (items spans).length = (items gone).length + (items (expire behind spans)).length := by
    rw [← List.length_append, ← items_append, ← eq]
  omega

theorem sum_lengths (spans : List (ℕ × List α)) :
    ((spans.map (Prod.map id List.length)).map Prod.snd).sum = (items spans).length := by
  rw [items, List.length_flatMap, List.map_map]
  rfl

/-! ### Events in their spans -/

/-- Every span holds events, all with its start. -/
def Filed (start : α → ℕ) (spans : List (ℕ × List α)) : Prop :=
  ∀ s ∈ spans, s.2 ≠ [] ∧ ∀ a ∈ s.2, start a = s.1

section

variable {start : α → ℕ} {spans : List (ℕ × List α)} {a : α}

theorem Filed.expire (filed : Filed start spans) (behind : ℕ → Bool) : Filed start (expire behind spans) :=
  fun s mem => filed s (mem_of_mem_expire mem)

theorem Filed.push (filed : Filed start spans) (a : α) : Filed start (push a (start a) spans) := by
  obtain ⟨-, eq⟩ | ⟨init, earlier, rfl, eq⟩ := push_cases a (start a) spans
  · rw [eq]
    intro s mem
    obtain old | new := List.mem_append.mp mem
    · exact filed s old
    · obtain rfl := List.mem_singleton.mp new
      exact ⟨by simp, by simp⟩
  · rw [eq]
    intro s mem
    obtain old | new := List.mem_append.mp mem
    · exact filed s (List.mem_append_left _ old)
    · obtain rfl := List.mem_singleton.mp new
      refine ⟨by simp, fun b mem => ?_⟩
      obtain before | rfl := List.mem_append.mp mem |>.imp_right List.mem_singleton.mp
      · exact (filed (start a, earlier) (by simp)).2 b before
      · rfl

/-- Where an event is filed there is a span. -/
theorem Filed.mem_items (filed : Filed start spans) (mem : a ∈ items spans) :
    ∃ s ∈ spans, start a = s.1 := by
  obtain ⟨s, listed, held⟩ := List.mem_flatMap.mp mem
  exact ⟨s, listed, (filed s listed).2 a held⟩

/-- Where a span is, an event is filed. -/
theorem Filed.exists_item (filed : Filed start spans) {s : ℕ × List α} (mem : s ∈ spans) :
    ∃ a ∈ items spans, start a = s.1 := by
  obtain ⟨a, held⟩ := List.exists_mem_of_ne_nil _ (filed s mem).1
  exact ⟨a, List.mem_flatMap.mpr ⟨s, mem, held⟩, (filed s mem).2 a held⟩

/-- The events that are dropped were all filed behind. -/
theorem Filed.items_expire (filed : Filed start spans) (behind : ℕ → Bool) :
    ∃ gone, items spans = gone ++ items (Windows.expire behind spans) ∧ ∀ a ∈ gone, behind (start a) := by
  obtain ⟨gone, eq, past⟩ := expire_spec behind spans
  refine ⟨items gone, ?_, fun a mem => ?_⟩
  · rw [← items_append, ← eq]
  · obtain ⟨s, listed, held⟩ := List.mem_flatMap.mp mem
    have there : s ∈ spans := eq ▸ List.mem_append_left _ listed
    rw [(filed s there).2 a held]
    exact past s listed

end

/-! ### Spans of one width -/

/-- The starts are at least a width apart. -/
def Spaced (w : ℕ) (spans : List (ℕ × β)) : Prop := (spans.map Prod.fst).Pairwise fun a b => a + w ≤ b

section

variable {w : ℕ} {spans : List (ℕ × β)}

theorem Spaced.expire (spaced : Spaced w spans) (behind : ℕ → Bool) : Spaced w (expire behind spans) :=
  spaced.sublist ((List.dropWhile_sublist _).map Prod.fst)

theorem Spaced.push {spans : List (ℕ × List α)} (spaced : Spaced w spans) (a : α) {start : ℕ}
    (before : ∀ s ∈ spans, s.1 = start ∨ s.1 + w ≤ start) (positive : 0 < w) :
    Spaced w (push a start spans) := by
  obtain ⟨other, eq⟩ | ⟨init, earlier, rfl, eq⟩ := push_cases a start spans
  · rw [eq, Spaced, List.map_append, List.pairwise_append]
    refine ⟨spaced, by simp, fun b listed c new => ?_⟩
    obtain rfl : c = start := by simpa using new
    obtain ⟨s, mem, rfl⟩ := List.mem_map.mp listed
    -- the last span is another one, and every other span comes before it
    obtain ⟨init, last, rfl⟩ : ∃ init last, spans = init ++ [last] :=
      ⟨_, _, (List.dropLast_concat_getLast (List.ne_nil_of_mem mem)).symm⟩
    have final : last.1 + w ≤ c := (before last (by simp)).resolve_left (other last (by simp))
    obtain earlier | rfl := List.mem_append.mp mem |>.imp_right List.mem_singleton.mp
    · rw [Spaced, List.map_append, List.pairwise_append] at spaced
      have := spaced.2.2 s.1 (List.mem_map_of_mem earlier) last.1 (by simp)
      omega
    · exact final
  · rw [eq]
    simpa [Spaced] using spaced

/-- If the spans that are behind are the earliest ones, none that is left is behind. -/
theorem Spaced.not_behind (spaced : Spaced w spans) {behind : ℕ → Bool}
    (earlier : ∀ a b, a ≤ b → behind b → behind a) {s : ℕ × β} (mem : s ∈ Windows.expire behind spans) :
    behind s.1 = false := by
  have left := spaced.expire behind
  cases eq : Windows.expire behind spans with
  | nil => simp [eq] at mem
  | cons first rest =>
    have head : behind first.1 = false := by
      have first? : (Windows.expire behind spans).head? = some first := by rw [eq]; rfl
      exact head?_expire first?
    rw [eq] at mem left
    obtain rfl | later := List.mem_cons.mp mem
    · exact head
    · rw [Spaced, List.map_cons, List.pairwise_cons] at left
      have := left.1 s.1 (List.mem_map_of_mem later)
      cases past : behind s.1 with
      | false => rfl
      | true => rw [earlier first.1 s.1 (by omega) past] at head; exact head

/-- Starts of spans of one width are the same or a width apart. -/
theorem start_apart {t now : ℕ} (le : t ≤ now) :
    t - t % w = now - now % w ∨ t - t % w + w ≤ now - now % w := by
  have ht := Nat.div_add_mod t w
  have hn := Nat.div_add_mod now w
  have starts : t - t % w = w * (t / w) ∧ now - now % w = w * (now / w) := by omega
  rw [starts.1, starts.2]
  obtain same | less := (Nat.div_le_div_right (c := w) le).eq_or_lt
  · exact .inl (by rw [same])
  · right
    calc w * (t / w) + w = w * (t / w + 1) := by ring
      _ ≤ w * (now / w) := Nat.mul_le_mul_left w less

/-- Numbers that are apart fill the stretch they are in. -/
theorem length_mul_le {l : List ℕ} (apart : l.Pairwise fun a b => a + w ≤ b) {lo hi : ℕ}
    (within : ∀ a ∈ l, lo ≤ a ∧ a < hi) : l.length * w ≤ hi - lo + w := by
  induction l generalizing lo with
  | nil => simp
  | cons a l ih =>
    obtain ⟨above, apart⟩ := List.pairwise_cons.mp apart
    have first := within a (by simp)
    cases l with
    | nil => simp
    | cons b l =>
      have rest : ∀ c ∈ b :: l, a + w ≤ c ∧ c < hi := fun c mem =>
        ⟨above c mem, (within c (List.mem_cons_of_mem _ mem)).2⟩
      have next := ih apart rest
      have second := above b (by simp)
      have last := within b (by simp)
      have count : (a :: b :: l).length * w = (b :: l).length * w + w := by
        rw [List.length_cons (a := a), Nat.succ_mul]
      omega

theorem Spaced.length_mul_le (spaced : Spaced w spans) {lo hi : ℕ}
    (within : ∀ s ∈ spans, lo ≤ s.1 ∧ s.1 < hi) : spans.length * w ≤ hi - lo + w := by
  have inside : ∀ a ∈ spans.map Prod.fst, lo ≤ a ∧ a < hi := by
    rintro a mem
    obtain ⟨s, listed, rfl⟩ := List.mem_map.mp mem
    exact within s listed
  have := Windows.length_mul_le spaced inside
  rwa [List.length_map] at this

end

end Windows
