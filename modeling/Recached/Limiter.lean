import Recached.Execute
import Recached.Lib.Transducers
import Recached.Lib.Windows

/-!
# Rate limiters over time

One key with a rate limiter, and the commands that configure and check it, each at its time.  A check
adds numbers of 64 bits, and the program stops at a sum that does not fit: such a check is not
answered.  `rlSetAct_eq` and `rlCheckAct_eq` say that the commands of the store take these steps.
-/

namespace Recached

open Lapse Windows

namespace RateLimiter

/-! ## One check -/

/-- A bucket leaves the window once its whole span is behind it. -/
def behind (rl : RateLimiter) (now : ℕ) (start : ℕ) : Bool := start + rl.bucketMs ≤ now - rl.windowMs

/-- The buckets that a check finds inside the window. -/
def kept (rl : RateLimiter) (now : ℕ) : List (ℕ × ℕ) :=
  expire (rl.behind now) rl.buckets

def used (rl : RateLimiter) (now : ℕ) : ℕ := ((rl.kept now).map Prod.snd).sum

/-- All sums of a check fit into 64 bits: how many attempts are counted, where the oldest bucket ends
and, if the attempt is denied, when it leaves the window. -/
def fits (rl : RateLimiter) (now : ℕ) : Bool :=
  rl.used now ≤ Decimal.u64Max && (rl.kept now).head?.all fun b =>
    b.1 + rl.bucketMs ≤ Decimal.u64Max &&
      (rl.used now < rl.limit || b.1 + rl.bucketMs + rl.windowMs ≤ Decimal.u64Max)

/-- The buckets with one more attempt at this time. -/
def counted (rl : RateLimiter) (now : ℕ) : List (ℕ × ℕ) :=
  record (fun count => count.getD 0 + 1) (now - now % rl.bucketMs) (rl.kept now)

theorem bucketMs_pos (rl : RateLimiter) : 0 < rl.bucketMs := by
  unfold bucketMs
  omega

theorem check_eq (rl : RateLimiter) (now : ℕ) :
    rl.check now =
      if rl.used now < rl.limit then
        ({ rl with buckets := rl.counted now }, 1, rl.limit - rl.used now - 1, 0)
      else ({ rl with buckets := rl.kept now }, 0, 0,
        min (((rl.kept now).head?.map fun b => b.1 + rl.bucketMs + rl.windowMs - now).getD 0)
          rl.windowMs) := by
  unfold check counted used kept behind expire record
  dsimp only
  generalize rl.buckets.dropWhile _ = left
  split_ifs
  · cases left.getLast? <;> rfl
  · rfl

end RateLimiter

/-! ## A key over time -/

/-- `RLSET` and `RLCHECK`, the window in milliseconds. -/
inductive RlCommand where
  | set (limit windowMs : ℕ)
  | check (config : Option (ℕ × ℕ))

inductive RlReply where
  | ok
  | unconfigured
  | checked (allowed remaining retryAfterMs : ℕ)
  | stopped
deriving DecidableEq

/-- A check with a limiter that has the deadline: the limiter that it leaves, and the reply. -/
def rlChecked (now : ℕ) (rl : RateLimiter) (expiresAtMs : Option ℕ) : Lapse.Cell RateLimiter × RlReply :=
  if rl.fits now then
    let (rl', allowed, remaining, retryAfterMs) := rl.check now
    (⟨rl', expiresAtMs.map fun _ => satAdd now rl.windowMs⟩, .checked allowed remaining retryAfterMs)
  else (⟨{ rl with buckets := rl.kept now }, expiresAtMs⟩, .stopped)

/-- The limiter after an inline configuration, if there is one. -/
def RateLimiter.configure (rl : RateLimiter) : Option (ℕ × ℕ) → RateLimiter
  | some (limit, windowMs) => { rl with limit, windowMs }
  | none => rl

/-- A command at its time, on the key as it was stored. -/
def rlStep (l : Option (Lapse.Cell RateLimiter)) (input : ℕ × RlCommand) :
    Option (Lapse.Cell RateLimiter) × RlReply :=
  let (now, cmd) := input
  match cmd with
  | .set limit windowMs =>
    let rl := match settle now l with
      | some c => { c.value with limit, windowMs }
      | none => { limit, windowMs }
    (some ⟨rl, none⟩, .ok)
  | .check config =>
    match settle now l, config with
    | none, none => (l, .unconfigured)
    | none, some (limit, windowMs) =>
      let (cell, reply) := rlChecked now { limit, windowMs } (some (satAdd now windowMs))
      (some cell, reply)
    | some c, config =>
      let (cell, reply) := rlChecked now (c.value.configure config) c.expiresAtMs
      (some cell, reply)

section

variable {now limit windowMs : ℕ} {l : Option (Lapse.Cell RateLimiter)} {c : Lapse.Cell RateLimiter}

theorem rlStep_set_none (absent : settle now l = none) :
    rlStep l (now, .set limit windowMs) = (some ⟨{ limit, windowMs }, none⟩, .ok) := by
  simp only [rlStep, absent]

theorem rlStep_set_some (found : settle now l = some c) :
    rlStep l (now, .set limit windowMs) = (some ⟨{ c.value with limit, windowMs }, none⟩, .ok) := by
  simp only [rlStep, found]

theorem rlStep_check_none (absent : settle now l = none) :
    rlStep l (now, .check none) = (l, .unconfigured) := by
  simp only [rlStep, absent]

theorem rlStep_check_new (absent : settle now l = none) :
    rlStep l (now, .check (some (limit, windowMs))) =
      (some (rlChecked now { limit, windowMs } (some (satAdd now windowMs))).1,
        (rlChecked now { limit, windowMs } (some (satAdd now windowMs))).2) := by
  simp only [rlStep, absent]

theorem rlStep_check_some (found : settle now l = some c) (config : Option (ℕ × ℕ)) :
    rlStep l (now, .check config) =
      (some (rlChecked now (c.value.configure config) c.expiresAtMs).1,
        (rlChecked now (c.value.configure config) c.expiresAtMs).2) := by
  cases config <;> simp only [rlStep, found]

end

/-! ### The commands of the store -/

section

variable {now : ℕ} {key : String} {limit windowSecs : ℕ} {l : Option (Lapse.Cell RateLimiter)}

def storedLimiter (c : Lapse.Cell RateLimiter) : Cell := ⟨.rateLimiter c.value, c.expiresAtMs⟩

/-- The reply on the wire; the numbers are sent as signed ones. -/
def RlReply.wire (key : String) : RlReply → Option Value
  | .ok => some Recached.ok
  | .unconfigured => some (.error
      s!"ERR no rate limit configured for '{key}'; call RLSET first or use RLCHECK key limit window")
  | .checked allowed remaining retryAfterMs =>
    some (arrayOf [.integer allowed, .integer (asI64 remaining), .integer (asI64 retryAfterMs)])
  | .stopped => none

/-- A check that is answered. -/
theorem rlChecked_fits {rl : RateLimiter} {expiresAtMs : Option ℕ}
    (answered : (rlChecked now rl expiresAtMs).2 ≠ .stopped) (key : String) :
    (rlAttempt now rl expiresAtMs).1 = storedLimiter (rlChecked now rl expiresAtMs).1 ∧
      some (rlAttempt now rl expiresAtMs).2 = (rlChecked now rl expiresAtMs).2.wire key := by
  unfold rlChecked at answered ⊢
  split_ifs at answered ⊢ with fits
  · exact ⟨rfl, rfl⟩
  · exact absurd rfl answered

theorem rlSetAct_eq (limit windowSecs : ℕ) (live : settle now l = l) :
    let step := rlStep l (now, .set limit (satMul windowSecs 1000))
    (rlSetAct limit windowSecs (l.map storedLimiter)).1.apply (l.map storedLimiter) =
        step.1.map storedLimiter ∧
      some (rlSetAct limit windowSecs (l.map storedLimiter)).2 = step.2.wire key := by
  unfold rlStep rlSetAct
  dsimp only
  rw [live]
  cases l with
  | none => exact ⟨rfl, rfl⟩
  | some c => exact ⟨rfl, rfl⟩

/-- A check that is answered does what it does in the store. -/
theorem rlCheckAct_eq (config : Option (ℕ × ℕ)) (live : settle now l = l) :
    let step := rlStep l (now, .check (config.map fun c => (c.1, satMul c.2 1000)))
    step.2 ≠ .stopped →
    (rlCheckAct now key config (l.map storedLimiter)).1.apply (l.map storedLimiter) =
        step.1.map storedLimiter ∧
      some (rlCheckAct now key config (l.map storedLimiter)).2 = step.2.wire key := by
  unfold rlStep rlCheckAct
  dsimp only
  rw [live]
  cases l with
  | none =>
    cases config with
    | none => exact fun _ => ⟨rfl, rfl⟩
    | some config =>
      intro answered
      obtain ⟨cell, reply⟩ := rlChecked_fits answered key
      exact ⟨congrArg some cell, reply⟩
  | some c =>
    intro answered
    cases config with
    | none =>
      obtain ⟨cell, reply⟩ := rlChecked_fits answered key
      exact ⟨congrArg some cell, reply⟩
    | some config =>
      obtain ⟨cell, reply⟩ := rlChecked_fits answered key
      exact ⟨congrArg some cell, reply⟩

end

/-! ## The attempts behind the counts -/

/-- An admitted attempt: when it was made, and how wide a bucket was then. -/
structure Attempt where
  time : ℕ
  width : ℕ

/-- The start of the bucket that an attempt is counted in. -/
def Attempt.start (a : Attempt) : ℕ := a.time - a.time % a.width

theorem Attempt.start_le (a : Attempt) : a.start ≤ a.time := Nat.sub_le _ _

theorem Attempt.lt_start (a : Attempt) (positive : 0 < a.width) : a.time < a.start + a.width := by
  have := Nat.mod_lt a.time positive
  unfold start
  omega

/-- The buckets of a limiter: how many attempts each span holds. -/
def tally (spans : List (ℕ × List Attempt)) : List (ℕ × ℕ) := spans.map (Prod.map id List.length)

namespace RateLimiter

variable {rl : RateLimiter} {spans : List (ℕ × List Attempt)}

theorem kept_tally (books : rl.buckets = tally spans) (now : ℕ) :
    rl.kept now = tally (expire (rl.behind now) spans) := by
  rw [kept, books, tally, tally, expire_map]

theorem used_tally (books : rl.buckets = tally spans) (now : ℕ) :
    rl.used now = (items (expire (rl.behind now) spans)).length := by
  rw [used, kept_tally books, tally, sum_lengths]

theorem counted_tally (books : rl.buckets = tally spans) (now : ℕ) :
    rl.counted now =
      tally (push ⟨now, rl.bucketMs⟩ (now - now % rl.bucketMs) (expire (rl.behind now) spans)) := by
  rw [counted, kept_tally books]
  refine (record_map (fun o => ?_) _ _).symm
  cases o <;> simp

end RateLimiter

/-- What a check does with the spans that are left: it adds the attempt, it denies it, or the program
stops. -/
inductive Checks (now : ℕ) (rl : RateLimiter) (left : List (ℕ × List Attempt)) :
    List (ℕ × List Attempt) → RlReply → Prop
  | admitted (room : (items left).length < rl.limit) : Checks now rl left
      (push ⟨now, rl.bucketMs⟩ (now - now % rl.bucketMs) left)
      (.checked 1 (rl.limit - (items left).length - 1) 0)
  | denied (full : rl.limit ≤ (items left).length) (retryAfterMs : ℕ) :
    Checks now rl left left (.checked 0 0 retryAfterMs)
  | stopped : Checks now rl left left .stopped

theorem rlChecked_checks {rl : RateLimiter} {spans : List (ℕ × List Attempt)}
    (books : rl.buckets = tally spans) (now : ℕ) (expiresAtMs : Option ℕ) :
    ∃ spans', Checks now rl (expire (rl.behind now) spans) spans' (rlChecked now rl expiresAtMs).2 ∧
      (rlChecked now rl expiresAtMs).1.value = { rl with buckets := tally spans' } ∧
      ((rlChecked now rl expiresAtMs).1.expiresAtMs = expiresAtMs.map (fun _ => satAdd now rl.windowMs) ∨
        ((rlChecked now rl expiresAtMs).2 = .stopped ∧
          (rlChecked now rl expiresAtMs).1.expiresAtMs = expiresAtMs)) := by
  unfold rlChecked
  have used := rl.used_tally books now
  split_ifs with fits
  · rw [rl.check_eq]
    split_ifs with room
    · rw [used] at room ⊢
      exact ⟨_, .admitted room, by rw [rl.counted_tally books], .inl rfl⟩
    · rw [used, not_lt] at room
      exact ⟨_, .denied room _, by rw [rl.kept_tally books], .inl rfl⟩
  · exact ⟨_, .stopped, by rw [rl.kept_tally books], .inr ⟨rfl, rfl⟩⟩

end Recached
