import Mathlib.Data.List.Infix

/-!
# Reading a stream in pieces of known size

A reader asks for a number of items, looks at them, and asks for more, refuses, or has its result.  What
it makes of the items collected so far is `reader items`: the size of the piece it waits for, a refusal, or
a result and the items that come after.  Every reader built from `exact` is `Steady`, so that a message
that it reads is not read before its last item has come (`Steady.waits`), however the stream is cut.
-/

namespace ExactReads

inductive Outcome (β α : Type) where
  | wants (size : ℕ)
  | refused
  | done (a : α) (rest : List β)

def Reader (β α : Type) := List β → Outcome β α

variable {β α γ : Type}

/-- A piece of a size. -/
def exact (size : ℕ) : Reader β (List β) := fun items =>
  if items.length < size then .wants size else .done (items.take size) (items.drop size)

def refuse : Reader β α := fun _ => .refused

def andThen (reader : Reader β α) (next : α → Reader β γ) : Reader β γ := fun items =>
  match reader items with
  | .wants size => .wants size
  | .refused => .refused
  | .done a rest => next a rest

instance : Monad (Reader β) where
  pure a := fun items => .done a items
  bind := andThen

theorem pure_apply (a : α) (items : List β) : (pure a : Reader β α) items = .done a items := rfl

section

variable {reader : Reader β α} {next : α → Reader β γ} {items : List β}

theorem bind_done {a : α} {rest : List β} (first : reader items = .done a rest) :
    (reader >>= next) items = next a rest := by
  change andThen reader next items = _
  rw [andThen, first]

theorem bind_wants {size : ℕ} (first : reader items = .wants size) :
    (reader >>= next) items = .wants size := by
  change andThen reader next items = _
  rw [andThen, first]

theorem bind_refused (first : reader items = .refused) : (reader >>= next) items = .refused := by
  change andThen reader next items = _
  rw [andThen, first]

end

/-! ## What a reader reads -/

/-- The reader takes a word for a value, whatever comes after it. -/
def Reads (reader : Reader β α) (word : List β) (a : α) : Prop :=
  ∀ rest, reader (word ++ rest) = .done a rest

theorem Reads.pure (a : α) : Reads (Pure.pure a : Reader β α) [] a := fun _ => rfl

theorem Reads.exact {word : List β} {size : ℕ} (length : word.length = size) :
    Reads (exact size) word word := by
  intro rest
  rw [ExactReads.exact, if_neg (by rw [List.length_append]; omega), List.take_left' length,
    List.drop_left' length]

theorem Reads.last {reader : Reader β α} {next : α → Reader β γ} {word : List β} {a : α} {c : γ}
    (first : Reads reader word a) (result : next a = Pure.pure c) : Reads (reader >>= next) word c := by
  intro rest
  rw [bind_done (first rest), result]
  rfl

theorem Reads.bind {reader : Reader β α} {next : α → Reader β γ} {word more : List β} {a : α} {c : γ}
    (first : Reads reader word a) (after : Reads (next a) more c) :
    Reads (reader >>= next) (word ++ more) c := by
  intro rest
  rw [List.append_assoc, bind_done (first (more ++ rest))]
  exact after rest

/-! ## What more items change -/

/-- More items do not change a decision. -/
def Steady (reader : Reader β α) : Prop :=
  ∀ items more, (∀ a rest, reader items = .done a rest → reader (items ++ more) = .done a (rest ++ more)) ∧
    (reader items = .refused → reader (items ++ more) = .refused)

theorem steady_pure (a : α) : Steady (pure a : Reader β α) := by
  refine fun items more => ⟨fun b rest read => ?_, fun read => by cases read⟩
  cases read
  rfl

theorem steady_refuse : Steady (refuse : Reader β α) :=
  fun _ _ => ⟨(fun _ _ read => by cases read), fun _ => rfl⟩

theorem steady_exact (size : ℕ) : Steady (exact size : Reader β (List β)) := by
  refine fun items more => ⟨fun word rest read => ?_, fun read => ?_⟩
  · unfold exact at read ⊢
    split_ifs at read with short
    obtain ⟨rfl, rfl⟩ := Outcome.done.inj read
    rw [if_neg (by rw [List.length_append]; omega), List.take_append_of_le_length (by omega),
      List.drop_append_of_le_length (by omega)]
  · unfold exact at read
    split_ifs at read

theorem Steady.bind {reader : Reader β α} {next : α → Reader β γ} (first : Steady reader)
    (after : ∀ a, Steady (next a)) : Steady (reader >>= next) := by
  intro items more
  cases read : reader items with
  | wants size =>
    rw [bind_wants read]
    exact ⟨(fun _ _ done => by cases done), (fun refused => by cases refused)⟩
  | refused =>
    rw [bind_refused read, bind_refused ((first items more).2 read)]
    exact ⟨(fun _ _ done => by cases done), fun _ => rfl⟩
  | done a rest =>
    rw [bind_done read, bind_done ((first items more).1 a rest read)]
    exact after a rest more

theorem Steady.ite {p : Prop} [Decidable p] {reader other : Reader β α} (yes : Steady reader)
    (no : Steady other) : Steady (if p then reader else other) := by
  split_ifs
  · exact yes
  · exact no

/-- A word is not read before its last item has come. -/
theorem Steady.waits {reader : Reader β α} (steady : Steady reader) {word part rest : List β} {a : α}
    (reads : Reads reader word a) (cut : part ++ rest = word) (short : rest ≠ []) :
    ∃ size, reader part = .wants size := by
  have whole : reader (part ++ rest) = .done a [] := by
    rw [cut, ← List.append_nil word]
    exact reads []
  cases read : reader part with
  | wants size => exact ⟨size, rfl⟩
  | refused => cases ((steady part rest).2 read).symm.trans whole
  | done b left =>
    obtain ⟨-, none⟩ := Outcome.done.inj (((steady part rest).1 b left read).symm.trans whole)
    exact absurd (List.append_eq_nil_iff.mp none).2 short

/-! ## How much a reader collects -/

/-- While it waits the reader has collected less than a size, and it takes no more than that. -/
def Within (size : ℕ) (reader : Reader β α) : Prop :=
  ∀ items, (∀ wanted, reader items = .wants wanted → items.length < size) ∧
    ∀ a rest, reader items = .done a rest → items.length ≤ size + rest.length

theorem within_pure (a : α) : Within 0 (pure a : Reader β α) := by
  refine fun items => ⟨(fun wanted read => by cases read), fun b rest read => ?_⟩
  obtain ⟨-, rfl⟩ := Outcome.done.inj read
  omega

theorem within_refuse (size : ℕ) : Within size (refuse : Reader β α) :=
  fun _ => ⟨(fun _ read => by cases read), fun _ _ read => by cases read⟩

theorem within_exact (size : ℕ) : Within size (exact size : Reader β (List β)) := by
  refine fun items => ⟨fun wanted read => ?_, fun word rest read => ?_⟩
  · unfold exact at read
    split_ifs at read with short
    exact short
  · unfold exact at read
    split_ifs at read with short
    obtain ⟨-, rfl⟩ := Outcome.done.inj read
    rw [List.length_drop]
    omega

theorem Within.mono {reader : Reader β α} {size larger : ℕ} (within : Within size reader)
    (le : size ≤ larger) : Within larger reader :=
  fun items => ⟨fun wanted read => lt_of_lt_of_le ((within items).1 wanted read) le,
    fun a rest read => le_trans ((within items).2 a rest read) (Nat.add_le_add_right le _)⟩

theorem Within.ite {p : Prop} [Decidable p] {reader other : Reader β α} {size : ℕ}
    (yes : p → Within size reader) (no : ¬p → Within size other) :
    Within size (if p then reader else other) := by
  split_ifs with h
  · exact yes h
  · exact no h

theorem Within.bind {reader : Reader β α} {next : α → Reader β γ} {first last : ℕ}
    (within : Within first reader) (after : ∀ a, Within last (next a)) :
    Within (first + last) (reader >>= next) := by
  intro items
  cases read : reader items with
  | wants asked =>
    rw [bind_wants read]
    refine ⟨fun _ _ => ?_, fun _ _ done => by cases done⟩
    have := (within items).1 asked read
    omega
  | refused =>
    rw [bind_refused read]
    exact ⟨(fun _ wants => by cases wants), fun _ _ done => by cases done⟩
  | done a rest =>
    rw [bind_done read]
    have taken := (within items).2 a rest read
    refine ⟨fun wanted wants => ?_, fun c left done => ?_⟩
    · have := (after a rest).1 wanted wants
      omega
    · have := (after a rest).2 c left done
      omega

/-! ## A stream of messages -/

section

variable {μ : Type} {encode : μ → List β} {collected coming : List β} {m : μ} {ms : List μ}

/-- Some messages are on a stream: the items of the first that have been collected, and those that come
after them. -/
def Pending (encode : μ → List β) (collected coming : List β) : List μ → Prop
  | [] => collected = [] ∧ coming = []
  | m :: ms => ∃ rest, rest ≠ [] ∧ collected ++ rest = encode m ∧ coming = rest ++ ms.flatMap encode

theorem pending_whole (some_item : ∀ m ∈ ms, encode m ≠ []) :
    Pending encode [] (ms.flatMap encode) ms := by
  cases ms with
  | nil => exact ⟨rfl, rfl⟩
  | cons m ms => exact ⟨encode m, some_item m List.mem_cons_self, rfl, List.flatMap_cons⟩

theorem Pending.append (pending : Pending encode collected coming ms) {more : List μ}
    (some_item : ∀ m ∈ more, encode m ≠ []) :
    Pending encode collected (coming ++ more.flatMap encode) (ms ++ more) := by
  cases ms with
  | nil =>
    obtain ⟨rfl, rfl⟩ := pending
    exact pending_whole some_item
  | cons m ms =>
    obtain ⟨rest, left, whole, rfl⟩ := pending
    exact ⟨rest, left, whole, by rw [List.append_assoc, ← List.flatMap_append]; rfl⟩

/-- The next item either completes the first message, or the reader goes on waiting. -/
theorem Pending.next {reader : Reader β α} {a : α} {b : β} (some_item : ∀ m ∈ ms, encode m ≠ [])
    (steady : Steady reader) (reads : Reads reader (encode m) a)
    (pending : Pending encode collected (b :: coming) (m :: ms)) :
    (∃ size, reader (collected ++ [b]) = .wants size ∧
        Pending encode (collected ++ [b]) coming (m :: ms)) ∨
      reader (collected ++ [b]) = .done a [] ∧ Pending encode [] coming ms := by
  obtain ⟨rest, left, whole, more⟩ := pending
  cases rest with
  | nil => exact absurd rfl left
  | cons b' rest =>
    obtain ⟨rfl, rfl⟩ := List.cons.inj (more.trans List.cons_append)
    have whole' : collected ++ [b] ++ rest = encode m := by rwa [List.append_assoc]
    by_cases last : rest = []
    · subst last
      rw [List.append_nil] at whole'
      have read := reads []
      rw [List.append_nil, ← whole'] at read
      exact .inr ⟨read, pending_whole some_item⟩
    · obtain ⟨size, wants⟩ := steady.waits reads whole' last
      exact .inl ⟨size, wants, rest, last, whole', rfl⟩

/-- As long as a message is pending, an item is coming. -/
theorem Pending.coming_ne_nil (pending : Pending encode collected coming (m :: ms)) : coming ≠ [] := by
  obtain ⟨rest, left, -, rfl⟩ := pending
  exact fun none => left (List.append_eq_nil_iff.mp none).1

end

end ExactReads
