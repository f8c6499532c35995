import Recached.Fairness

/-!
# When to try again

A denied check says how long to wait: until the oldest bucket leaves the window, but at most one window.
`Refused.readmits` says which later checks are admitted if no attempt is made in between, and
`retry_after` what that makes of the wait.  A bucket that has not ended when the check is denied leaves
the window only after the wait (`retry_after_clamped`).
-/

namespace Recached

open Lapse Windows Transducers

variable {limit windowMs now : ℕ} {history gone : List ℕ} {rl : RateLimiter} {expiresAtMs : Option ℕ}
  {spans rest : List (ℕ × List Attempt)} {first : ℕ × List Attempt}

theorem rlChecked_admits (now : ℕ) (rl : RateLimiter) (expiresAtMs : Option ℕ) :
    (rlChecked now rl expiresAtMs).2.admits ↔ rl.fits now ∧ rl.used now < rl.limit := by
  unfold rlChecked
  split_ifs with fits
  · rw [rl.check_eq]
    split_ifs with room
    · simp [RlReply.admits, fits, room]
    · simp [RlReply.admits, room]
  · simp [RlReply.admits, fits]

theorem rlChecked_denied {remaining retryAfterMs : ℕ}
    (denied : (rlChecked now rl expiresAtMs).2 = .checked 0 remaining retryAfterMs) :
    rl.fits now ∧ rl.limit ≤ rl.used now ∧
      (rlChecked now rl expiresAtMs).1 =
        ⟨{ rl with buckets := rl.kept now }, expiresAtMs.map fun _ => satAdd now rl.windowMs⟩ ∧
      retryAfterMs =
        min (((rl.kept now).head?.map fun b => b.1 + rl.bucketMs + rl.windowMs - now).getD 0)
          rl.windowMs := by
  unfold rlChecked at denied ⊢
  split_ifs at denied ⊢ with fits
  · rw [rl.check_eq] at denied ⊢
    split_ifs at denied ⊢ with room
    · cases denied
    · cases denied
      exact ⟨fits, not_lt.mp room, rfl, rfl⟩

/-! ## After a denied check -/

/-- A full limiter as a denied check leaves it, with its oldest bucket. -/
structure Refused (limit windowMs : ℕ) (history : List ℕ) (now : ℕ) (rl : RateLimiter)
    (expiresAtMs : Option ℕ) (gone : List ℕ) (first : ℕ × List Attempt) (rest : List (ℕ × List Attempt)) :
    Prop where
  fair : Fair limit windowMs history now rl expiresAtMs gone (first :: rest)
  full : (items (first :: rest)).length = limit
  fits : limit ≤ Decimal.u64Max
  inside : now < first.1 + windowMs + bucketWidth windowMs

theorem Fair.start_le (fair : Fair limit windowMs history now rl expiresAtMs gone spans)
    {s : ℕ × List Attempt} (mem : s ∈ spans) : s.1 ≤ now := by
  obtain ⟨a, counted, start⟩ := fair.filed.exists_item mem
  rw [← start]
  exact a.start_le.trans (fair.item_past counted)

theorem Fair.refused (fair : Fair limit windowMs history now rl expiresAtMs gone spans)
    (positive : 0 < limit) {remaining retryAfterMs : ℕ}
    (denied : (rlChecked now rl expiresAtMs).2 = .checked 0 remaining retryAfterMs) :
    ∃ gone' first rest,
      Refused limit windowMs history now (rlChecked now rl expiresAtMs).1.value
        (rlChecked now rl expiresAtMs).1.expiresAtMs gone' first rest ∧
      (rlChecked now rl expiresAtMs).1.expiresAtMs = expiresAtMs.map (fun _ => satAdd now windowMs) ∧
      retryAfterMs = min (first.1 + bucketWidth windowMs + windowMs - now) windowMs := by
  obtain ⟨fits, full, cell, wait⟩ := rlChecked_denied denied
  obtain ⟨gone', left⟩ := fair.expire
  have inside := fun s => fair.inside (s := s)
  rw [cell]
  obtain rfl := fair.value
  have books : RateLimiter.buckets { limit, windowMs, buckets := tally spans } = tally spans := rfl
  have kept := RateLimiter.kept_tally books now
  have used := RateLimiter.used_tally books now
  rw [used] at full
  rw [kept] at wait ⊢
  simp only [RateLimiter.fits, Bool.and_eq_true, decide_eq_true_eq, used] at fits
  have within := left.within
  generalize Windows.expire _ spans = left' at *
  cases left' with
  | nil => exact absurd full positive.not_ge
  | cons first rest =>
    exact ⟨gone', first, rest, ⟨left.renew, le_antisymm within full, full.trans fits.1,
      inside first (by simp)⟩, rfl, wait⟩

/-- If no attempt is made in between, a check is admitted once the oldest bucket has left the window. -/
theorem Refused.readmits (refused : Refused limit windowMs history now rl expiresAtMs gone first rest)
    {later : ℕ} (le : now ≤ later) (clock : later + bucketWidth windowMs ≤ Decimal.u64Max)
    (expiresAtMs' : Option ℕ) :
    (rlChecked later rl expiresAtMs').2.admits ↔ first.1 + bucketWidth windowMs + windowMs ≤ later := by
  have fair := refused.fair
  have positive := bucketWidth_pos windowMs
  have books : rl.buckets = tally (first :: rest) := by rw [fair.value]
  have config : rl.limit = limit ∧ rl.windowMs = windowMs ∧ rl.bucketMs = bucketWidth windowMs := by
    rw [fair.value]
    exact ⟨rfl, rfl, rfl⟩
  obtain ⟨hlimit, hwindow, hwidth⟩ := config
  have behind : rl.behind later first.1 ↔ first.1 + bucketWidth windowMs + windowMs ≤ later := by
    simp only [RateLimiter.behind, hwindow, hwidth, decide_eq_true_eq]
    omega
  rw [rlChecked_admits, RateLimiter.used_tally books, hlimit, ← behind]
  constructor
  · rintro ⟨-, room⟩
    by_contra ahead
    rw [expire_cons_of_ahead ahead] at room
    exact room.ne refused.full
  · intro past
    have count := refused.full
    rw [items, List.flatMap_cons, List.length_append] at count
    -- the oldest bucket held an attempt
    have held := List.length_pos_of_ne_nil (fair.filed first (by simp)).1
    have fewer : (items (expire (rl.behind later) (first :: rest))).length < limit := by
      rw [expire_cons_of_behind past]
      have : (items (expire (rl.behind later) rest)).length ≤ _ := length_items_expire_le _ _
      unfold items at *
      omega
    refine ⟨?_, fewer⟩
    rw [RateLimiter.fits, RateLimiter.used_tally books, RateLimiter.kept_tally books, hlimit, hwidth]
    have fits := refused.fits
    simp only [Bool.and_eq_true, Bool.or_eq_true, decide_eq_true_eq, Option.all_eq_true]
    refine ⟨by omega, fun b mem => ⟨?_, .inl fewer⟩⟩
    obtain ⟨s, head, rfl⟩ := Option.map_eq_some_iff.mp (List.head?_map ▸ mem)
    have := (fair.later le).start_le (mem_of_mem_expire (List.mem_of_mem_head? head))
    dsimp only [Prod.map_fst, id_eq]
    omega

/-- An attempt that a limiter answers: one with a configuration, or one that the limiter has not lapsed
before. -/
def Answers (limit windowMs later : ℕ) (c : Lapse.Cell RateLimiter) (config : Option (ℕ × ℕ)) : Prop :=
  config = some (limit, windowMs) ∨ config = none ∧ c.isExpired later = false

theorem fresh_admits (positive : 0 < limit) (now : ℕ) (expiresAtMs : Option ℕ) :
    (rlChecked now { limit, windowMs } expiresAtMs).2.admits := by
  rw [rlChecked_admits]
  exact ⟨rfl, positive⟩

/-- The next attempt is admitted once the oldest bucket has left the window, or the limiter has lapsed. -/
theorem Refused.attempt {deadline : Option ℕ}
    (refused : Refused limit windowMs history now rl (deadline.map fun _ => satAdd now windowMs) gone
      first rest)
    (positive : 0 < limit) {later : ℕ} (le : now ≤ later)
    (clock : later + bucketWidth windowMs ≤ Decimal.u64Max) {config : Option (ℕ × ℕ)}
    (answers : Answers limit windowMs later ⟨rl, deadline.map fun _ => satAdd now windowMs⟩ config) :
    (rlStep (some ⟨rl, deadline.map fun _ => satAdd now windowMs⟩) (later, .check config)).2.admits ↔
      first.1 + bucketWidth windowMs + windowMs ≤ later ∨ deadline.isSome ∧ now + windowMs ≤ later := by
  have width := bucketWidth_pos windowMs
  have lapses : (Cell.mk rl (deadline.map fun _ => satAdd now windowMs)).isExpired later ↔
      deadline.isSome ∧ now + windowMs ≤ later := by
    cases deadline with
    | none => simp [Cell.isExpired]
    | some d =>
      simp only [Cell.isExpired, Option.map_some, Option.any_some, decide_eq_true_eq, Option.isSome_some,
        true_and]
      unfold satAdd
      omega
  cases lapsed : (Cell.mk rl (deadline.map fun _ => satAdd now windowMs)).isExpired later with
  | true =>
    obtain rfl | ⟨-, alive⟩ := answers
    · have absent : settle later (some ⟨rl, deadline.map fun _ => satAdd now windowMs⟩) = none := by
        simp [settle, lapsed]
      rw [rlStep_check_new absent]
      simp only [fresh_admits positive, lapses.mp lapsed, and_self, or_true]
    · rw [lapsed] at alive
      cases alive
  | false =>
    have same : rl.configure config = rl := by
      obtain rfl | ⟨rfl, -⟩ := answers
      · rw [refused.fair.value]
        rfl
      · rfl
    rw [rlStep_check_some (settle_eq_some.mpr ⟨rfl, lapsed⟩), same, refused.readmits le clock, ← lapses,
      lapsed]
    simp

/-! ## Runs -/

/-- What the wait is worth that a check at `now` is denied with, at the limiter `c` it leaves. -/
structure RetryAfter (limit windowMs now retryAfterMs : ℕ) (c : Lapse.Cell RateLimiter) (oldest : ℕ) :
    Prop where
  counted : c.value.buckets.head?.map Prod.fst = some oldest
  wait : retryAfterMs = min (oldest + bucketWidth windowMs + windowMs - now) windowMs
  /-- If the oldest bucket has ended, or the limiter was made by a check, the wait is enough. -/
  enough : oldest + bucketWidth windowMs ≤ now ∨ c.expiresAtMs.isSome → ∀ config,
    Answers limit windowMs (now + retryAfterMs) c config →
    now + retryAfterMs + bucketWidth windowMs ≤ Decimal.u64Max →
    (rlStep (some c) (now + retryAfterMs, .check config)).2.admits
  /-- In every case the wait is short by at most the width of a bucket. -/
  nearly : ∃ more ≤ bucketWidth windowMs, ∀ config,
    Answers limit windowMs (now + retryAfterMs + more) c config →
    now + retryAfterMs + more + bucketWidth windowMs ≤ Decimal.u64Max →
    (rlStep (some c) (now + retryAfterMs + more, .check config)).2.admits

theorem retry_after (limit windowMs : ℕ) (inputs : List (ℕ × RlCommand)) (timed : Timed inputs)
    (configures : ∀ i ∈ inputs, i.2.Configures limit windowMs) (positive : 0 < limit) (now : ℕ)
    (config : Option (ℕ × ℕ)) (remaining retryAfterMs : ℕ) (last : ∀ i ∈ inputs, i.1 ≤ now)
    (clock : now < Decimal.u64Max) (known : config = none ∨ config = some (limit, windowMs))
    (denied :
      (rlStep (run rlStep none inputs).1 (now, .check config)).2 = .checked 0 remaining retryAfterMs) :
    ∃ c oldest, (rlStep (run rlStep none inputs).1 (now, .check config)).1 = some c ∧
      RetryAfter limit windowMs now retryAfterMs c oldest := by
  have paced := (paced_run timed configures last).1
  obtain eq | ⟨rl, expiresAtMs, gone, spans, fair, eq⟩ := paced.check clock known
  · rw [eq] at denied
    cases denied
  · rw [eq] at denied ⊢
    obtain ⟨gone, first, rest, refused, deadline, wait⟩ := fair.refused positive denied
    generalize rlChecked now rl expiresAtMs = result at *
    obtain ⟨⟨rl', deadline'⟩, reply⟩ := result
    dsimp only at *
    subst deadline
    have inside := refused.inside
    have start := refused.fair.start_le (List.mem_cons_self (a := first) (l := rest))
    refine ⟨_, first.1, rfl, ?_⟩
    constructor
    case counted =>
      rw [refused.fair.value]
      rfl
    case wait => exact wait
    case enough =>
      intro cause config answers clock
      rw [refused.attempt positive (by omega) clock answers]
      obtain ended | own := cause
      · left
        omega
      · by_cases ended : first.1 + bucketWidth windowMs ≤ now
        · left
          omega
        · refine .inr ⟨by simpa using own, ?_⟩
          omega
    case nearly =>
      refine ⟨first.1 + bucketWidth windowMs + windowMs - (now + retryAfterMs), by omega,
        fun config answers clock => ?_⟩
      rw [refused.attempt positive (by omega) clock answers]
      left
      omega

theorem retry_after_ended : ∃ c oldest,
    (rlStep (run rlStep none [(0, .set 1 1000), (0, .check none)]).1 (500, .check none)).1 = some c ∧
      RetryAfter 1 1000 500 515 c oldest :=
  retry_after 1 1000 _ ⟨by decide, by decide⟩ (by simp [RlCommand.Configures]) (by decide) 500 none 0 515
    (by decide) (by decide) (.inl rfl) (by decide)

/-- The bucket of the only attempt has not ended, and one window later the check is denied again. -/
theorem retry_after_clamped :
    let before := run rlStep none [(1700000000000, .set 1 1000), (1700000000000, .check none)]
    let denied := rlStep before.1 (1700000000000, .check none)
    denied.2 = .checked 0 0 1000 ∧
      (rlStep denied.1 (1700000000000 + 1000, .check none)).2 = .checked 0 0 10 := by
  decide

end Recached
