import Mathlib.Data.List.Basic
import Mathlib.Order.Lattice
import Mathlib.Tactic.Common

/-!
# Paging through a changing set

A reader takes the members of a linearly ordered set page by page and remembers only how far it is: the
next page are the first members beyond, of the set as it is by then.  However the set changes in
between, the pages go up (`Walk.increasing`), a member that is there throughout is returned (`Walk.mem`)
and the reader is not busy for longer than there are members (`Walk.length_le`).
-/

namespace Paging

variable {α : Type} [LinearOrder α]

/-- The members that come after a position; without one all of them. -/
def beyond (after : Option α) (l : List α) : List α := l.filter fun a => after.all (· < a)

theorem mem_beyond {after : Option α} {l : List α} {a : α} :
    a ∈ beyond after l ↔ a ∈ l ∧ ∀ b ∈ after, b < a := by
  simp [beyond, Option.all_eq_true]

theorem beyond_none (l : List α) : beyond none l = l := by
  simp [beyond]

/-- Beyond a member there are fewer than from before it on. -/
theorem length_beyond_lt {after : Option α} {l : List α} {a : α} (mem : a ∈ beyond after l) :
    (beyond (some a) l).length < (beyond after l).length := by
  have further : beyond (some a) l = (beyond after l).filter fun b => a < b := by
    rw [beyond, beyond, List.filter_filter]
    refine List.filter_congr fun b _ => ?_
    rw [Option.all_some, Bool.eq_iff_iff]
    simp only [decide_eq_true_eq, Bool.and_eq_true, Option.all_eq_true]
    exact ⟨fun lt => ⟨lt, fun c there => lt_trans ((mem_beyond.mp mem).2 c there) lt⟩, And.left⟩
  rw [further, List.length_filter_lt_length_iff_exists]
  exact ⟨a, mem, by simp⟩

/-! ## One page -/

/-- A page: the members at that time, how many of them are looked at and which are returned. -/
structure Page (α : Type) [LinearOrder α] where
  members : List α
  batch : ℕ
  keep : α → Bool
  sorted : members.Pairwise (· < ·)
  positive : 0 < batch

namespace Page

variable {p : Page α} {after : Option α} {a b : α}

def candidates (p : Page α) (after : Option α) : List α := (beyond after p.members).take p.batch

def returned (p : Page α) (after : Option α) : List α := (p.candidates after).filter p.keep

/-- How far the reader is after the page, if there is more to come. -/
def next (p : Page α) (after : Option α) : Option α :=
  if (beyond after p.members).length ≤ p.batch then none else (p.candidates after).getLast?

theorem sorted_beyond (p : Page α) (after : Option α) : (beyond after p.members).Pairwise (· < ·) :=
  p.sorted.filter _

theorem mem_beyond_of_mem_candidates (mem : a ∈ p.candidates after) : a ∈ beyond after p.members :=
  List.mem_of_mem_take mem

theorem next_mem (more : p.next after = some b) : b ∈ p.candidates after := by
  unfold next at more
  split_ifs at more
  exact List.mem_of_getLast? more

/-- Without a next page all members beyond were candidates. -/
theorem candidates_of_next_none (done : p.next after = none) :
    p.candidates after = beyond after p.members := by
  unfold next at done
  split_ifs at done with fits
  · exact List.take_of_length_le fits
  · have empty := List.getLast?_eq_none_iff.mp done
    have length := congrArg List.length empty
    have := p.positive
    rw [candidates, List.length_take, List.length_nil] at length
    omega

/-- The candidates are the members beyond, up to the position of the reader. -/
theorem mem_candidates_iff (more : p.next after = some b) (mem : a ∈ beyond after p.members) :
    a ∈ p.candidates after ↔ a ≤ b := by
  have split := List.take_append_drop p.batch (beyond after p.members)
  have sorted := p.sorted_beyond after
  rw [← split, List.pairwise_append] at sorted
  obtain ⟨ascending, -, apart⟩ := sorted
  constructor
  · intro here
    unfold next at more
    split_ifs at more
    obtain ⟨init, eq⟩ := List.getLast?_eq_some_iff.mp more
    change (p.candidates after).Pairwise _ at ascending
    rw [eq, List.pairwise_append] at ascending
    rw [eq, List.mem_append, List.mem_singleton] at here
    obtain before | rfl := here
    · exact le_of_lt (ascending.2.2 a before b (by simp))
    · exact le_rfl
  · intro le
    rw [← split, List.mem_append] at mem
    exact mem.resolve_right fun later => (apart b (next_mem more) a later).not_ge le

end Page

/-! ## Page after page -/

/-- A reader at a position, the pages it takes, what they return and where it is then. -/
inductive Walk : Option α → List (Page α) → List (List α) → Option α → Prop
  | last (after : Option α) (p : Page α) : Walk after [p] [p.returned after] (p.next after)
  | next {after stop : Option α} {p : Page α} {b : α} {pages : List (Page α)} {returned : List (List α)}
    (more : p.next after = some b) (rest : Walk (some b) pages returned stop) :
    Walk after (p :: pages) (p.returned after :: returned) stop

namespace Walk

variable {after stop : Option α} {pages : List (Page α)} {returned : List (List α)}

/-- What is returned goes up, whatever happens to the members. -/
theorem increasing (walk : Walk after pages returned stop) :
    returned.flatten.Pairwise (· < ·) ∧ ∀ a ∈ returned.flatten, ∀ b ∈ after, b < a := by
  have up (p : Page α) (after : Option α) : (p.returned after).Pairwise (· < ·) :=
    ((p.sorted_beyond after).sublist (List.take_sublist _ _)).filter _
  have candidate {p : Page α} {after : Option α} {a : α} (mem : a ∈ p.returned after) :
      a ∈ p.candidates after := (List.mem_filter.mp mem).1
  have above {p : Page α} {after : Option α} {a : α} (mem : a ∈ p.returned after) : ∀ b ∈ after, b < a :=
    (mem_beyond.mp (Page.mem_beyond_of_mem_candidates (candidate mem))).2
  induction walk with
  | last after p =>
    rw [List.flatten_singleton]
    exact ⟨up p after, fun a => above⟩
  | @next after stop p b pages returned more rest ih =>
    obtain ⟨later, beyond⟩ := ih
    have last := Page.next_mem more
    rw [List.flatten_cons, List.pairwise_append]
    refine ⟨⟨up p after, later, fun a mem c mem' => ?_⟩, fun a mem c there => ?_⟩
    · have le := (Page.mem_candidates_iff more (Page.mem_beyond_of_mem_candidates (candidate mem))).mp
        (candidate mem)
      exact lt_of_le_of_lt le (beyond c mem' b rfl)
    · obtain here | mem := List.mem_append.mp mem
      · exact above here c there
      · have ahead := (mem_beyond.mp (Page.mem_beyond_of_mem_candidates last)).2 c there
        exact lt_trans ahead (beyond a mem b rfl)

/-- A member that is there at every page and is kept is returned, once the reader is done. -/
theorem mem (walk : Walk after pages returned stop) (done : stop = none) {a : α}
    (there : ∀ p ∈ pages, a ∈ p.members ∧ p.keep a) (ahead : ∀ b ∈ after, b < a) :
    a ∈ returned.flatten := by
  induction walk with
  | last after p =>
    obtain ⟨member, kept⟩ := there p (by simp)
    rw [List.flatten_singleton, Page.returned, Page.candidates_of_next_none done, List.mem_filter]
    exact ⟨mem_beyond.mpr ⟨member, ahead⟩, kept⟩
  | @next after stop p b pages returned more rest ih =>
    obtain ⟨member, kept⟩ := there p (by simp)
    rw [List.flatten_cons, List.mem_append, Page.returned, List.mem_filter,
      Page.mem_candidates_iff more (mem_beyond.mpr ⟨member, ahead⟩)]
    -- it is on this page, or ahead of the reader afterwards
    obtain here | later := le_or_gt a b
    · exact .inl ⟨here, kept⟩
    · refine .inr (ih done (fun p mem => there p (List.mem_cons_of_mem _ mem)) fun c eq => ?_)
      obtain rfl := Option.some.inj eq
      exact later

/-- A reader that has more to come has taken at most one page for each member beyond its start. -/
theorem length_le (walk : Walk after pages returned stop) (more : stop.isSome) {keys : List α}
    (among : ∀ p ∈ pages, ∀ a ∈ p.members, a ∈ keys) : pages.length ≤ (beyond after keys).length := by
  have listed {p : Page α} {after : Option α} {b : α} (next : p.next after = some b)
      (among : ∀ a ∈ p.members, a ∈ keys) : b ∈ beyond after keys := by
    obtain ⟨member, ahead⟩ := mem_beyond.mp (Page.mem_beyond_of_mem_candidates (Page.next_mem next))
    exact mem_beyond.mpr ⟨among b member, ahead⟩
  induction walk with
  | last after p =>
    obtain ⟨b, next⟩ := Option.isSome_iff_exists.mp more
    exact List.length_pos_of_mem (listed next (among p (by simp)))
  | @next after stop p b pages returned next rest ih =>
    have rest := ih more fun p mem => among p (List.mem_cons_of_mem _ mem)
    have fewer := length_beyond_lt (listed next (among p (by simp)))
    rw [List.length_cons]
    omega

end Walk

end Paging
