import Recached.Fairness

/-!
# Rate limiters under a changing configuration

A ledger goes along with a run and lists the attempts that the limiter still owes a place: each check
strikes out the ones whose age has reached its window, and an attempt of a bucket wider than its own by
so much earlier.  `reconfigured_counts` says that the buckets hold all the others, whatever the limits
and the windows were, and that the sums fit as long as the clock leaves room for the window.  A limiter
that lapses takes its ledger with it (`reconfigured_lapsed`).
-/

namespace Recached

open Lapse Windows Transducers

/-- The limiter that a check finds or makes. -/
def checkedLimiter (now : ℕ) (l : Option (Lapse.Cell RateLimiter)) (config : Option (ℕ × ℕ)) :
    Option RateLimiter :=
  match settle now l with
  | some c => some (c.value.configure config)
  | none => config.map fun c => { limit := c.1, windowMs := c.2 }

theorem rlStep_checkedLimiter (now : ℕ) (l : Option (Lapse.Cell RateLimiter)) (config : Option (ℕ × ℕ)) :
    (checkedLimiter now l config = none ∧ rlStep l (now, .check config) = (l, .unconfigured)) ∨
      ∃ rl expiresAtMs, checkedLimiter now l config = some rl ∧
        rlStep l (now, .check config) =
          (some (rlChecked now rl expiresAtMs).1, (rlChecked now rl expiresAtMs).2) := by
  unfold checkedLimiter
  cases found : settle now l with
  | none =>
    cases config with
    | none => exact .inl ⟨rfl, rlStep_check_none found⟩
    | some config => exact .inr ⟨_, _, rfl, rlStep_check_new found⟩
  | some c => exact .inr ⟨_, _, rfl, rlStep_check_some found config⟩

/-! ## The ledger -/

/-- The attempts that a check at the time still owes a place: their age has not reached the window.  One
of a wider bucket is owed its place for as much less as that is wider. -/
def owedAt (now : ℕ) (rl : RateLimiter) (owed : List Attempt) : List Attempt :=
  owed.filter fun a => now + (a.width - rl.bucketMs) < a.time + rl.windowMs

/-- A key with the attempts that are owed a place. -/
abbrev Ledger := Option (Lapse.Cell RateLimiter) × List Attempt

/-- What is owed by the limiter that is there at the time. -/
def Ledger.owed (ledger : Ledger) (now : ℕ) : List Attempt :=
  if (settle now ledger.1).isSome then ledger.2 else []

def Ledger.step (ledger : Ledger) (input : ℕ × RlCommand) : Ledger :=
  let (now, cmd) := input
  let (l, reply) := rlStep ledger.1 input
  match cmd with
  | .set _ _ => (l, ledger.owed now)
  | .check config =>
    match checkedLimiter now ledger.1 config with
    | none => (l, ledger.owed now)
    | some rl =>
      (l, owedAt now rl (ledger.owed now) ++ if reply.admits then [⟨now, rl.bucketMs⟩] else [])

def ledger (inputs : List (ℕ × RlCommand)) : Ledger := inputs.foldl Ledger.step (none, [])

theorem Ledger.step_fst (ledger : Ledger) (input : ℕ × RlCommand) :
    (ledger.step input).1 = (rlStep ledger.1 input).1 := by
  obtain ⟨now, cmd⟩ := input
  cases cmd with
  | set limit windowMs => rfl
  | check config =>
    unfold Ledger.step
    dsimp only
    cases checkedLimiter now ledger.1 config <;> rfl

theorem ledger_fst (inputs : List (ℕ × RlCommand)) : (ledger inputs).1 = (run rlStep none inputs).1 := by
  suffices ∀ start : Ledger, (inputs.foldl Ledger.step start).1 = (run rlStep start.1 inputs).1 from this _
  induction inputs with
  | nil => exact fun _ => rfl
  | cons input inputs ih =>
    intro start
    rw [List.foldl_cons, ih, start.step_fst, run_cons]

/-! ## The buckets -/

/-- The limits of a command have 64 bits. -/
def RlCommand.Word : RlCommand → Prop
  | .set limit _ => limit ≤ Decimal.u64Max
  | .check config => ∀ c ∈ config, c.1 ≤ Decimal.u64Max

/-- The invariant of a limiter: what is owed a place has one. -/
structure Audited (latest : ℕ) (owed : List Attempt) (rl : RateLimiter) (spans : List (ℕ × List Attempt)) :
    Prop where
  books : rl.buckets = tally spans
  filed : Filed Attempt.start spans
  width : ∀ a ∈ items spans, 0 < a.width
  past : ∀ a ∈ items spans, a.time ≤ latest
  counted : owed.Sublist (items spans)
  limit : rl.limit ≤ Decimal.u64Max
  many : (items spans).length ≤ Decimal.u64Max

namespace Audited

variable {latest now : ℕ} {owed : List Attempt} {rl : RateLimiter} {spans : List (ℕ × List Attempt)}

theorem fresh {limit : ℕ} (word : limit ≤ Decimal.u64Max) (latest windowMs : ℕ) :
    Audited latest [] { limit, windowMs } [] where
  books := rfl
  filed s mem := by cases mem
  width a mem := by cases mem
  past a mem := by cases mem
  counted := .slnil
  limit := word
  many := Nat.zero_le _

theorem configure (audited : Audited latest owed rl spans) {config : Option (ℕ × ℕ)}
    (word : ∀ c ∈ config, c.1 ≤ Decimal.u64Max) : Audited latest owed (rl.configure config) spans := by
  cases config with
  | none => exact audited
  | some config => exact { audited with limit := word config rfl }

/-- The attempts that a check drops were owed no place. -/
theorem expire (audited : Audited latest owed rl spans) (now : ℕ) :
    Audited latest (owedAt now rl owed)
      { rl with buckets := tally (expire (rl.behind now) spans) } (expire (rl.behind now) spans) := by
  obtain ⟨dropped, eq, behind⟩ := audited.filed.items_expire (rl.behind now)
  have left {a : Attempt} (mem : a ∈ items (Windows.expire (rl.behind now) spans)) : a ∈ items spans :=
    eq ▸ List.mem_append_right _ mem
  constructor
  case books => rfl
  case filed => exact audited.filed.expire _
  case width => exact fun a mem => audited.width a (left mem)
  case past => exact fun a mem => audited.past a (left mem)
  case counted =>
    have struck : owedAt now rl dropped = [] := by
      rw [owedAt, List.filter_eq_nil_iff]
      intro a mem
      have counted : a ∈ items spans := eq ▸ List.mem_append_left _ mem
      have inside := a.lt_start (audited.width a counted)
      have gone := behind a mem
      have positive := rl.bucketMs_pos
      simp only [RateLimiter.behind, decide_eq_true_eq] at gone
      simp only [decide_eq_true_eq]
      omega
    have kept := audited.counted.filter fun a => now + (a.width - rl.bucketMs) < a.time + rl.windowMs
    rw [eq, List.filter_append, ← owedAt, ← owedAt, struck, List.nil_append] at kept
    exact kept.trans List.filter_sublist
  case limit => exact audited.limit
  case many => exact (length_items_expire_le _ _).trans audited.many

theorem push (audited : Audited latest owed rl spans) (le : now ≤ latest)
    (room : (items spans).length < rl.limit) :
    Audited latest (owed ++ [⟨now, rl.bucketMs⟩])
      { rl with buckets := tally (push ⟨now, rl.bucketMs⟩ (now - now % rl.bucketMs) spans) }
      (push ⟨now, rl.bucketMs⟩ (now - now % rl.bucketMs) spans) := by
  have recorded (a : Attempt) :
      a ∈ items (Windows.push ⟨now, rl.bucketMs⟩ (now - now % rl.bucketMs) spans) ↔
        a ∈ items spans ∨ a = ⟨now, rl.bucketMs⟩ := by
    rw [items_push, List.mem_append, List.mem_singleton]
  constructor
  case books => rfl
  case filed => exact audited.filed.push ⟨now, rl.bucketMs⟩
  case width =>
    intro a mem
    obtain before | rfl := (recorded a).mp mem
    · exact audited.width a before
    · exact rl.bucketMs_pos
  case past =>
    intro a mem
    obtain before | rfl := (recorded a).mp mem
    · exact audited.past a before
    · exact le
  case counted =>
    rw [items_push]
    exact audited.counted.append_right _
  case limit => exact audited.limit
  case many =>
    have := audited.limit
    rw [items_push, List.length_append, List.length_singleton]
    omega

/-- The sums of a check fit if the clock leaves room for the window and one bucket. -/
theorem fits (audited : Audited latest owed rl spans)
    (room : latest + rl.bucketMs + rl.windowMs ≤ Decimal.u64Max) (now : ℕ) : rl.fits now := by
  have left := audited.expire now
  rw [RateLimiter.fits, RateLimiter.used_tally audited.books, RateLimiter.kept_tally audited.books]
  simp only [Bool.and_eq_true, Bool.or_eq_true, decide_eq_true_eq, Option.all_eq_true]
  refine ⟨left.many, fun b mem => ?_⟩
  obtain ⟨s, head, rfl⟩ := Option.map_eq_some_iff.mp (List.head?_map ▸ mem)
  obtain ⟨a, counted, start⟩ := left.filed.exists_item (List.mem_of_mem_head? head)
  have := left.past a counted
  have := a.start_le
  rw [Prod.map_fst, id_eq, ← start]
  exact ⟨by omega, .inr (by omega)⟩

theorem checked (audited : Audited latest owed rl spans) (le : now ≤ latest) (expiresAtMs : Option ℕ) :
    ∃ spans', Audited latest
      (owedAt now rl owed ++ if (rlChecked now rl expiresAtMs).2.admits then [⟨now, rl.bucketMs⟩] else [])
      (rlChecked now rl expiresAtMs).1.value spans' := by
  have left := audited.expire now
  obtain ⟨spans', checks, value, -⟩ := rlChecked_checks audited.books now expiresAtMs
  rw [value]
  generalize (rlChecked now rl expiresAtMs).2 = reply at checks ⊢
  cases checks with
  | admitted room => exact ⟨_, left.push le room⟩
  | denied full r => exact ⟨_, by simpa [RlReply.admits] using left⟩
  | stopped => exact ⟨_, by simpa [RlReply.admits] using left⟩

end Audited

/-! ## Runs -/

/-- If there is a limiter, it has a place for what it owes. -/
def Ledger.Kept (latest : ℕ) (ledger : Ledger) : Prop :=
  ∀ c ∈ ledger.1, ∃ spans, Audited latest ledger.2 c.value spans

section

variable {latest now : ℕ} {ledger : Ledger}

theorem Ledger.Kept.settled (kept : ledger.Kept latest) {c : Lapse.Cell RateLimiter}
    (found : settle now ledger.1 = some c) : ∃ spans, Audited latest (ledger.owed now) c.value spans := by
  rw [Ledger.owed, found]
  exact kept c (settle_eq_some.mp found).1

theorem Ledger.owed_of_lapsed (absent : settle now ledger.1 = none) : ledger.owed now = [] := by
  rw [Ledger.owed, absent]
  rfl

theorem Ledger.Kept.checkedLimiter (kept : ledger.Kept latest) {config : Option (ℕ × ℕ)}
    (word : ∀ c ∈ config, c.1 ≤ Decimal.u64Max) {rl : RateLimiter}
    (checked : checkedLimiter now ledger.1 config = some rl) :
    ∃ spans, Audited latest (ledger.owed now) rl spans := by
  unfold Recached.checkedLimiter at checked
  cases found : settle now ledger.1 with
  | none =>
    rw [found] at checked
    obtain ⟨config, rfl, rfl⟩ := Option.map_eq_some_iff.mp checked
    rw [Ledger.owed_of_lapsed found]
    exact ⟨[], .fresh (word config rfl) latest _⟩
  | some c =>
    obtain ⟨spans, audited⟩ := kept.settled found
    rw [found] at checked
    cases checked
    exact ⟨spans, audited.configure word⟩

theorem Ledger.Kept.step (kept : ledger.Kept latest) (le : now ≤ latest) {cmd : RlCommand}
    (word : cmd.Word) : (ledger.step (now, cmd)).Kept latest := by
  cases cmd with
  | set limit windowMs =>
    rintro c there
    unfold Ledger.step at there ⊢
    dsimp only at there ⊢
    cases found : settle now ledger.1 with
    | none =>
      rw [rlStep_set_none found] at there
      cases there
      rw [Ledger.owed_of_lapsed found]
      exact ⟨[], .fresh word latest windowMs⟩
    | some c =>
      obtain ⟨spans, audited⟩ := kept.settled found
      rw [rlStep_set_some found] at there
      cases there
      exact ⟨spans, { audited with limit := word }⟩
  | check config =>
    rintro c there
    rw [Ledger.step_fst] at there
    unfold Ledger.step
    dsimp only
    obtain ⟨unconfigured, eq⟩ | ⟨rl, expiresAtMs, checked, eq⟩ := rlStep_checkedLimiter now ledger.1 config
    · rw [eq] at there
      rw [unconfigured]
      -- nothing is owed by a limiter that was found lapsed
      have absent : settle now ledger.1 = none := by
        unfold Recached.checkedLimiter at unconfigured
        cases found : settle now ledger.1 with
        | none => rfl
        | some c => rw [found] at unconfigured; cases unconfigured
      obtain ⟨spans, audited⟩ := kept c there
      rw [Ledger.owed_of_lapsed absent]
      exact ⟨spans, { audited with counted := List.nil_sublist _ }⟩
    · rw [eq] at there
      cases there
      rw [checked, eq]
      obtain ⟨spans, audited⟩ := kept.checkedLimiter word checked
      exact audited.checked le expiresAtMs

end

theorem ledger_kept {latest : ℕ} {inputs : List (ℕ × RlCommand)} (words : ∀ i ∈ inputs, i.2.Word)
    (last : ∀ i ∈ inputs, i.1 ≤ latest) : (ledger inputs).Kept latest := by
  suffices ∀ start : Ledger, start.Kept latest → (inputs.foldl Ledger.step start).Kept latest from
    this _ fun c there => by cases there
  induction inputs with
  | nil => exact fun _ kept => kept
  | cons input inputs ih =>
    intro start kept
    have first := List.mem_cons_self (a := input) (l := inputs)
    exact ih (fun i mem => words i (List.mem_cons_of_mem _ mem))
      (fun i mem => last i (List.mem_cons_of_mem _ mem)) _ (kept.step (last _ first) (words _ first))

/-- What a check counts that uses the limiter. -/
structure Accounted (now latest : ℕ) (rl : RateLimiter) (owed : List Attempt) : Prop where
  /-- Every attempt that is owed a place is in a bucket that is inside the window. -/
  counted : ∃ spans, rl.kept now = tally spans ∧ Filed Attempt.start spans ∧ owed.Sublist (items spans)
  used : owed.length ≤ rl.used now
  fits : latest + rl.bucketMs + rl.windowMs ≤ Decimal.u64Max → rl.fits now

theorem reconfigured_counts (inputs : List (ℕ × RlCommand)) (words : ∀ i ∈ inputs, i.2.Word)
    (now latest : ℕ) (last : ∀ i ∈ inputs, i.1 ≤ latest) (config : Option (ℕ × ℕ)) (word : (RlCommand.check config).Word) :
    (rlStep (run rlStep none inputs).1 (now, .check config)).2 = .unconfigured ∨
      ∃ rl expiresAtMs, checkedLimiter now (run rlStep none inputs).1 config = some rl ∧
        rlStep (run rlStep none inputs).1 (now, .check config) =
          (some (rlChecked now rl expiresAtMs).1, (rlChecked now rl expiresAtMs).2) ∧
        Accounted now latest rl (owedAt now rl ((ledger inputs).owed now)) := by
  obtain ⟨-, eq⟩ | ⟨rl, expiresAtMs, checked, eq⟩ :=
    rlStep_checkedLimiter now (run rlStep none inputs).1 config
  · exact .inl (congrArg Prod.snd eq)
  · refine .inr ⟨rl, expiresAtMs, checked, eq, ?_⟩
    rw [← ledger_fst] at checked
    obtain ⟨spans, audited⟩ := (ledger_kept words last).checkedLimiter word checked
    have left := audited.expire now
    constructor
    case counted => exact ⟨_, RateLimiter.kept_tally audited.books now, left.filed, left.counted⟩
    case used =>
      rw [RateLimiter.used_tally audited.books]
      exact left.counted.length_le
    case fits => exact fun room => audited.fits room now

theorem reconfigured_counts_one :
    let inputs := [(0, .check (some (2, 60000))), (7, .set 1 1000), (1016, .check (some (5, 1000)))]
    (rlStep (run rlStep none inputs).1 (20, .check (some (3, 2000)))).2 = .unconfigured ∨
      ∃ rl expiresAtMs, checkedLimiter 20 (run rlStep none inputs).1 (some (3, 2000)) = some rl ∧
        rlStep (run rlStep none inputs).1 (20, .check (some (3, 2000))) =
          (some (rlChecked 20 rl expiresAtMs).1, (rlChecked 20 rl expiresAtMs).2) ∧
        Accounted 20 1016 rl (owedAt 20 rl ((ledger inputs).owed 20)) :=
  reconfigured_counts _ (by simp [RlCommand.Word, Decimal.u64Max]) 20 1016 (by decide) _
    (by simp [RlCommand.Word, Decimal.u64Max])

/-- An attempt whose age is a thousand is not counted in a window of sixty thousand: the limiter lapsed
one window after it, and a new one was made. -/
theorem reconfigured_lapsed :
    let first := rlStep none (1700000000000, .check (some (1, 1000)))
    first.2 = .checked 1 0 0 ∧
      (rlStep first.1 (1700000000000 + 1000, .check (some (1, 60000)))).2 = .checked 1 0 0 := by
  decide

end Recached
