import Recached.Limiter

/-!
# What a rate limiter admits

For a limiter with one limit and one window, `limiter_fair` says that no window of time holds more
admitted attempts than the limit, that an attempt is denied only for attempts that are not much older
than the window, and that the buckets stay few.  `Fair` is the invariant: the attempts that were
admitted are the ones counted and, before them, ones that have left the window.
-/

namespace Recached

open Lapse Windows Transducers

def bucketWidth (windowMs : ℕ) : ℕ := max (windowMs / rlBuckets) 1

theorem bucketWidth_pos (windowMs : ℕ) : 0 < bucketWidth windowMs := by
  unfold bucketWidth
  omega

/-- The invariant of a limiter with one configuration: the attempts in its buckets and those gone. -/
structure Fair (limit windowMs : ℕ) (history : List ℕ) (now : ℕ) (rl : RateLimiter)
    (expiresAtMs : Option ℕ) (gone : List ℕ) (spans : List (ℕ × List Attempt)) : Prop where
  value : rl = { limit, windowMs, buckets := tally spans }
  split : history = gone ++ (items spans).map Attempt.time
  old : ∀ t ∈ gone, t + windowMs ≤ now
  past : ∀ t ∈ history, t ≤ now
  filed : Filed Attempt.start spans
  width : ∀ a ∈ items spans, a.width = bucketWidth windowMs
  spaced : Spaced (bucketWidth windowMs) spans
  spread : ∃ top, ∀ s ∈ spans, s.1 ≤ top ∧ top < s.1 + windowMs + bucketWidth windowMs
  within : (items spans).length ≤ limit
  /-- A limiter with a deadline lapses only once all its attempts have left the window. -/
  deadline : ∀ d ∈ expiresAtMs, ∀ a ∈ items spans, satAdd a.time windowMs ≤ d

namespace Fair

variable {limit windowMs now : ℕ} {history gone : List ℕ} {rl : RateLimiter} {expiresAtMs : Option ℕ}
  {spans : List (ℕ × List Attempt)}

theorem later {now' : ℕ} (fair : Fair limit windowMs history now rl expiresAtMs gone spans)
    (le : now ≤ now') : Fair limit windowMs history now' rl expiresAtMs gone spans :=
  { fair with
    old := fun t mem => (fair.old t mem).trans le
    past := fun t mem => (fair.past t mem).trans le }

theorem item_past (fair : Fair limit windowMs history now rl expiresAtMs gone spans) {a : Attempt}
    (mem : a ∈ items spans) : a.time ≤ now :=
  fair.past _ (fair.split ▸ List.mem_append_right _ (List.mem_map_of_mem mem))

/-- A limiter that was just made, or that had lapsed. -/
theorem fresh (old : ∀ t ∈ history, t + windowMs ≤ now) (expiresAtMs : Option ℕ) :
    Fair limit windowMs history now { limit, windowMs } expiresAtMs history [] where
  value := rfl
  split := by simp [items]
  old := old
  past t mem := by
    have := old t mem
    omega
  filed s mem := by cases mem
  width a mem := by cases mem
  spaced := .nil
  spread := ⟨0, by simp⟩
  within := Nat.zero_le _
  deadline d _ a mem := by cases mem

/-- The attempts that a check drops have left the window. -/
theorem expire (fair : Fair limit windowMs history now rl expiresAtMs gone spans) :
    ∃ gone', Fair limit windowMs history now
      { limit, windowMs, buckets := tally (Windows.expire (rl.behind now) spans) } expiresAtMs gone'
      (Windows.expire (rl.behind now) spans) := by
  obtain ⟨dropped, eq, behind⟩ := fair.filed.items_expire (rl.behind now)
  have left {a : Attempt} (mem : a ∈ items (Windows.expire (rl.behind now) spans)) : a ∈ items spans :=
    eq ▸ List.mem_append_right _ mem
  refine ⟨gone ++ dropped.map Attempt.time, ?_⟩
  constructor
  case value => rfl
  case split => rw [fair.split, eq, List.map_append, List.append_assoc]
  case old =>
    intro t mem
    obtain before | new := List.mem_append.mp mem
    · exact fair.old t before
    · obtain ⟨a, listed, rfl⟩ := List.mem_map.mp new
      have counted : a ∈ items spans := eq ▸ List.mem_append_left _ listed
      have width := fair.width a counted
      have inside := a.lt_start (width ▸ bucketWidth_pos windowMs)
      have gone := behind a listed
      simp only [RateLimiter.behind, fair.value, decide_eq_true_eq] at gone
      change a.start + bucketWidth windowMs ≤ now - windowMs at gone
      omega
  case past => exact fair.past
  case filed => exact fair.filed.expire _
  case width => exact fun a mem => fair.width a (left mem)
  case spaced => exact fair.spaced.expire _
  case spread =>
    obtain ⟨top, spread⟩ := fair.spread
    exact ⟨top, fun s mem => spread s (mem_of_mem_expire mem)⟩
  case within =>
    have := fair.within
    rw [eq, List.length_append] at this
    omega
  case deadline => exact fun d there a mem => fair.deadline d there a (left mem)

/-- No bucket that a check leaves is behind its window. -/
theorem inside (fair : Fair limit windowMs history now rl expiresAtMs gone spans) {s : ℕ × List Attempt}
    (mem : s ∈ Windows.expire (rl.behind now) spans) :
    now < s.1 + windowMs + bucketWidth windowMs := by
  have left : rl.behind now s.1 = false := by
    refine fair.spaced.not_behind (fun a b le past => ?_) mem
    simp only [RateLimiter.behind, decide_eq_true_eq] at past ⊢
    omega
  simp only [RateLimiter.behind, fair.value, decide_eq_false_iff_not, not_le] at left
  change now - windowMs < s.1 + bucketWidth windowMs at left
  omega

/-- A check moves the deadline on. -/
theorem renew (fair : Fair limit windowMs history now rl expiresAtMs gone spans) :
    Fair limit windowMs history now rl (expiresAtMs.map fun _ => satAdd now windowMs) gone spans :=
  { fair with
    deadline := fun d there a mem => by
      obtain ⟨_, -, rfl⟩ := Option.map_eq_some_iff.mp there
      have := fair.item_past mem
      unfold satAdd
      omega }

theorem push (fair : Fair limit windowMs history now rl expiresAtMs gone spans)
    (inside : ∀ s ∈ spans, now < s.1 + windowMs + bucketWidth windowMs)
    (room : (items spans).length < limit) :
    Fair limit windowMs (history ++ [now]) now
      { limit, windowMs, buckets :=
        tally (push ⟨now, bucketWidth windowMs⟩ (now - now % bucketWidth windowMs) spans) }
      (expiresAtMs.map fun _ => satAdd now windowMs) gone
      (push ⟨now, bucketWidth windowMs⟩ (now - now % bucketWidth windowMs) spans) := by
  have positive := bucketWidth_pos windowMs
  have recorded (a : Attempt) :
      a ∈ items (Windows.push ⟨now, bucketWidth windowMs⟩ (now - now % bucketWidth windowMs) spans) ↔
        a ∈ items spans ∨ a = ⟨now, bucketWidth windowMs⟩ := by
    rw [items_push, List.mem_append, List.mem_singleton]
  have filed := fair.filed.push ⟨now, bucketWidth windowMs⟩
  constructor
  case value => rfl
  case split => rw [items_push, List.map_append, ← List.append_assoc, ← fair.split]; rfl
  case old => exact fair.old
  case past =>
    intro t mem
    obtain before | new := List.mem_append.mp mem
    · exact fair.past t before
    · exact (List.mem_singleton.mp new).le
  case filed => exact filed
  case width =>
    intro a mem
    obtain before | rfl := (recorded a).mp mem
    · exact fair.width a before
    · rfl
  case spaced =>
    refine fair.spaced.push _ (fun s mem => ?_) positive
    obtain ⟨a, counted, start⟩ := fair.filed.exists_item mem
    rw [← start, Attempt.start, fair.width a counted]
    exact start_apart (fair.item_past counted)
  case spread =>
    refine ⟨now, fun s mem => ?_⟩
    obtain ⟨a, counted, start⟩ := filed.exists_item mem
    rw [← start]
    obtain before | rfl := (recorded a).mp counted
    · refine ⟨a.start_le.trans (fair.item_past before), ?_⟩
      obtain ⟨s', mem', start'⟩ := fair.filed.mem_items before
      rw [start']
      exact inside s' mem'
    · have := Attempt.lt_start ⟨now, bucketWidth windowMs⟩ positive
      have := Attempt.start_le ⟨now, bucketWidth windowMs⟩
      dsimp only at *
      omega
  case within =>
    rw [items_push, List.length_append, List.length_singleton]
    exact room
  case deadline =>
    intro d there a mem
    obtain ⟨_, -, rfl⟩ := Option.map_eq_some_iff.mp there
    have : a.time ≤ now := by
      obtain before | rfl := (recorded a).mp mem
      · exact fair.item_past before
      · exact le_rfl
    unfold satAdd
    omega

end Fair

/-! ## One step -/

def RlReply.admits : RlReply → Bool
  | .checked 1 _ _ => true
  | _ => false

/-- The times of the admitted checks. -/
def admittedTimes (inputs : List (ℕ × RlCommand)) (replies : List RlReply) : List ℕ :=
  (inputs.zip replies).filterMap fun p => if p.2.admits then some p.1.1 else none

/-- No window of time holds more of them than the limit. -/
def Limited (limit windowMs : ℕ) (times : List ℕ) : Prop :=
  ∀ s, (times.filter fun t => s ≤ t && t < s + windowMs).length ≤ limit

section

variable {limit windowMs now : ℕ} {history gone : List ℕ} {rl : RateLimiter} {expiresAtMs : Option ℕ}
  {spans : List (ℕ × List Attempt)}

/-- An attempt is admitted only if the attempts of its window leave room for it. -/
theorem Fair.limited (fair : Fair limit windowMs history now rl expiresAtMs gone spans)
    (limited : Limited limit windowMs history) (room : (items spans).length < limit) :
    Limited limit windowMs (history ++ [now]) := by
  intro s
  rw [List.filter_append, List.length_append]
  by_cases within : s ≤ now && now < s + windowMs
  · -- the attempts of a window that holds this one are all counted
    have outside : gone.filter (fun t => s ≤ t && t < s + windowMs) = [] := by
      rw [List.filter_eq_nil_iff]
      intro t mem
      have := fair.old t mem
      simp only [Bool.and_eq_true, decide_eq_true_eq] at within ⊢
      omega
    have counted : (history.filter fun t => s ≤ t && t < s + windowMs).length ≤ (items spans).length := by
      rw [fair.split, List.filter_append, outside, List.nil_append]
      exact (List.length_filter_le _ _).trans (List.length_map _).le
    have one : ([now].filter fun t => s ≤ t && t < s + windowMs).length ≤ 1 := List.length_filter_le _ _
    omega
  · have none : [now].filter (fun t => s ≤ t && t < s + windowMs) = [] := by simpa using within
    rw [none, List.length_nil, Nat.add_zero]
    exact limited s

/-- A check keeps the invariant, with the attempt added if it was admitted. -/
theorem Fair.checked (fair : Fair limit windowMs history now rl expiresAtMs gone spans)
    (limited : Limited limit windowMs history) :
    ∃ gone' spans',
      Fair limit windowMs
        (history ++ if (rlChecked now rl expiresAtMs).2.admits then [now] else []) now
        (rlChecked now rl expiresAtMs).1.value (rlChecked now rl expiresAtMs).1.expiresAtMs gone' spans' ∧
      Limited limit windowMs
        (history ++ if (rlChecked now rl expiresAtMs).2.admits then [now] else []) := by
  have config : rl.limit = limit ∧ rl.windowMs = windowMs ∧ rl.bucketMs = bucketWidth windowMs := by
    rw [fair.value]
    exact ⟨rfl, rfl, rfl⟩
  obtain ⟨hlimit, hwindow, hwidth⟩ := config
  obtain ⟨gone', left⟩ := fair.expire
  have books : rl.buckets = tally spans := by rw [fair.value]
  obtain ⟨spans', checks, value, deadline⟩ := rlChecked_checks books now expiresAtMs
  have inside := fun s => fair.inside (s := s)
  have whole (buckets : List (ℕ × ℕ)) :
      { rl with buckets } = { limit, windowMs, buckets : RateLimiter } := by
    rw [← hlimit, ← hwindow]
  generalize rlChecked now rl expiresAtMs = result at *
  obtain ⟨⟨rl', expiresAtMs'⟩, reply⟩ := result
  dsimp only at *
  rw [whole] at value
  subst value
  rw [hwindow] at deadline
  cases checks with
  | admitted room =>
    rw [hlimit] at room
    obtain rfl | ⟨stopped, -⟩ := deadline
    · rw [hwidth]
      exact ⟨gone', _, left.push inside room, left.limited limited room⟩
    · cases stopped
  | denied full r =>
    obtain rfl | ⟨stopped, -⟩ := deadline
    · exact ⟨gone', _, by simpa [RlReply.admits] using left.renew, by simpa [RlReply.admits] using limited⟩
    · cases stopped
  | stopped =>
    obtain rfl | ⟨-, rfl⟩ := deadline
    · exact ⟨gone', _, by simpa [RlReply.admits] using left.renew, by simpa [RlReply.admits] using limited⟩
    · exact ⟨gone', _, by simpa [RlReply.admits] using left, by simpa [RlReply.admits] using limited⟩

/-- The attempts for which a check denies one are enough, and recent. -/
theorem Fair.denied (fair : Fair limit windowMs history now rl expiresAtMs gone spans)
    {remaining retryAfterMs : ℕ}
    (denied : (rlChecked now rl expiresAtMs).2 = .checked 0 remaining retryAfterMs) :
    ∃ counted, counted <:+ history ∧ counted.length = rl.used now ∧ limit ≤ counted.length ∧
      ∀ t ∈ counted, now < t + windowMs + bucketWidth windowMs := by
  have books : rl.buckets = tally spans := by rw [fair.value]
  obtain ⟨gone', left⟩ := fair.expire
  obtain ⟨spans', checks, -⟩ := rlChecked_checks books now expiresAtMs
  rw [denied] at checks
  refine ⟨(items (Windows.expire (rl.behind now) spans)).map Attempt.time, ⟨gone', left.split.symm⟩,
    ?_, ?_, ?_⟩
  · rw [List.length_map, RateLimiter.used_tally books]
  · rw [List.length_map]
    have same : rl.limit = limit := by rw [fair.value]
    rw [← same]
    cases checks with
    | denied full _ => exact full
  · intro t mem
    obtain ⟨a, counted, rfl⟩ := List.mem_map.mp mem
    obtain ⟨s, there, start⟩ := left.filed.mem_items counted
    have recent := fair.inside there
    have := a.start_le
    omega

/-- The starts of the buckets are a width apart and not much further than the window. -/
theorem Fair.few (fair : Fair limit windowMs history now rl expiresAtMs gone spans) :
    rl.buckets.length ≤ 129 := by
  obtain ⟨top, spread⟩ := fair.spread
  have buckets : rl.buckets.length = spans.length := by
    rw [fair.value]
    exact List.length_map _
  rw [buckets]
  cases eq : spans with
  | nil => decide
  | cons first rest =>
    rw [← eq]
    have lowest : ∀ s ∈ spans, first.1 ≤ s.1 ∧ s.1 < first.1 + windowMs + bucketWidth windowMs := by
      have sorted := fair.spaced
      rw [eq, Spaced, List.map_cons, List.pairwise_cons] at sorted
      intro s mem
      have reach := (spread first (by simp [eq])).2
      have := (spread s mem).1
      refine ⟨?_, by omega⟩
      rw [eq] at mem
      obtain rfl | later := List.mem_cons.mp mem
      · exact le_rfl
      · have := sorted.1 s.1 (List.mem_map_of_mem later)
        omega
    have filled := fair.spaced.length_mul_le lowest
    -- a bucket is wider than the 128th part of the window
    have wide : windowMs < 128 * bucketWidth windowMs := by
      unfold bucketWidth rlBuckets
      omega
    by_contra many
    have : 130 * bucketWidth windowMs ≤ spans.length * bucketWidth windowMs :=
      Nat.mul_le_mul_right _ (by omega)
    omega

end

/-! ## Runs -/

/-- The commands of one configuration. -/
def RlCommand.Configures (limit windowMs : ℕ) : RlCommand → Prop
  | .set l w => l = limit ∧ w = windowMs
  | .check config => config = none ∨ config = some (limit, windowMs)

/-- The invariant of a key: without a limiter all attempts have left the window. -/
def Paced (limit windowMs : ℕ) (history : List ℕ) (now : ℕ) : Option (Lapse.Cell RateLimiter) → Prop
  | none => ∀ t ∈ history, t + windowMs ≤ now
  | some c => ∃ gone spans, Fair limit windowMs history now c.value c.expiresAtMs gone spans

section

variable {limit windowMs now : ℕ} {history : List ℕ} {l : Option (Lapse.Cell RateLimiter)}

theorem Paced.later {now' : ℕ} (paced : Paced limit windowMs history now l) (le : now ≤ now') :
    Paced limit windowMs history now' l := by
  cases l with
  | none => exact fun t mem => (paced t mem).trans le
  | some c =>
    obtain ⟨gone, spans, fair⟩ := paced
    exact ⟨gone, spans, fair.later le⟩

/-- A limiter that lapses counts no attempt of the window. -/
theorem Paced.settle (paced : Paced limit windowMs history now l) (clock : now < Decimal.u64Max) :
    Paced limit windowMs history now (settle now l) := by
  cases l with
  | none => exact paced
  | some c =>
    obtain ⟨gone, spans, fair⟩ := paced
    cases lapsed : c.isExpired now with
    | false =>
      rw [settle_eq_some.mpr ⟨rfl, lapsed⟩]
      exact ⟨gone, spans, fair⟩
    | true =>
      have absent : Lapse.settle now (some c) = none := by simp [Lapse.settle, lapsed]
      rw [absent]
      intro t mem
      rw [fair.split] at mem
      obtain before | counted := List.mem_append.mp mem
      · exact fair.old t before
      · obtain ⟨a, held, rfl⟩ := List.mem_map.mp counted
        obtain ⟨d, deadline, reached⟩ := (Option.any_eq_true _ _).mp lapsed
        have := fair.deadline d deadline a held
        simp only [decide_eq_true_eq] at reached
        unfold satAdd at this
        omega

/-- A check finds no limiter, or one that keeps the invariant. -/
theorem Paced.check (paced : Paced limit windowMs history now l) (clock : now < Decimal.u64Max)
    {config : Option (ℕ × ℕ)} (known : config = none ∨ config = some (limit, windowMs)) :
    rlStep l (now, .check config) = (l, .unconfigured) ∨
      ∃ rl expiresAtMs gone spans, Fair limit windowMs history now rl expiresAtMs gone spans ∧
        rlStep l (now, .check config) =
          (some (rlChecked now rl expiresAtMs).1, (rlChecked now rl expiresAtMs).2) := by
  have settled := paced.settle clock
  cases found : Lapse.settle now l with
  | none =>
    rw [found] at settled
    obtain rfl | rfl := known
    · exact .inl (rlStep_check_none found)
    · exact .inr ⟨_, _, _, _, .fresh settled (some (satAdd now windowMs)), rlStep_check_new found⟩
  | some c =>
    rw [found] at settled
    obtain ⟨gone, spans, fair⟩ := settled
    have same : c.value.configure config = c.value := by
      obtain rfl | rfl := known
      · rfl
      · rw [fair.value]
        rfl
    refine .inr ⟨_, _, gone, spans, fair, ?_⟩
    rw [rlStep_check_some found, same]

theorem Paced.set (paced : Paced limit windowMs history now l) (clock : now < Decimal.u64Max) :
    Paced limit windowMs history now (rlStep l (now, .set limit windowMs)).1 ∧
      (rlStep l (now, .set limit windowMs)).2 = .ok := by
  have settled := paced.settle clock
  cases found : Lapse.settle now l with
  | none =>
    rw [found] at settled
    rw [rlStep_set_none found]
    exact ⟨⟨history, [], .fresh settled none⟩, rfl⟩
  | some c =>
    rw [found] at settled
    obtain ⟨gone, spans, fair⟩ := settled
    rw [rlStep_set_some found]
    refine ⟨⟨gone, spans, { fair with value := ?_, deadline := by rintro d ⟨⟩ }⟩, rfl⟩
    dsimp only
    rw [fair.value]

theorem Paced.step (paced : Paced limit windowMs history now l) (limited : Limited limit windowMs history)
    (clock : now < Decimal.u64Max) {cmd : RlCommand} (configures : cmd.Configures limit windowMs) :
    Paced limit windowMs (history ++ if (rlStep l (now, cmd)).2.admits then [now] else []) now
        (rlStep l (now, cmd)).1 ∧
      Limited limit windowMs (history ++ if (rlStep l (now, cmd)).2.admits then [now] else []) := by
  cases cmd with
  | set limit' windowMs' =>
    obtain ⟨rfl, rfl⟩ := configures
    obtain ⟨kept, reply⟩ := paced.set clock
    rw [reply]
    simp only [RlReply.admits, Bool.false_eq_true, if_false, List.append_nil]
    exact ⟨kept, limited⟩
  | check config =>
    obtain eq | ⟨rl, expiresAtMs, gone, spans, fair, eq⟩ := paced.check clock configures
    · rw [eq]
      simp only [RlReply.admits, Bool.false_eq_true, if_false, List.append_nil]
      exact ⟨paced, limited⟩
    · rw [eq]
      obtain ⟨gone, spans, fair, limited⟩ := fair.checked limited
      exact ⟨⟨gone, spans, fair⟩, limited⟩

/-- The clock does not run back, and it has not reached its last reading. -/
def Timed (inputs : List (ℕ × RlCommand)) : Prop :=
  (inputs.map Prod.fst).Pairwise (· ≤ ·) ∧ ∀ i ∈ inputs, i.1 < Decimal.u64Max

theorem Paced.run {inputs : List (ℕ × RlCommand)} (paced : Paced limit windowMs history now l)
    (limited : Limited limit windowMs history) (timed : Timed inputs) (later : ∀ i ∈ inputs, now ≤ i.1)
    (configures : ∀ i ∈ inputs, i.2.Configures limit windowMs) {now' : ℕ} (le : now ≤ now')
    (last : ∀ i ∈ inputs, i.1 ≤ now') :
    Paced limit windowMs (history ++ admittedTimes inputs (run rlStep l inputs).2) now'
        (run rlStep l inputs).1 ∧
      Limited limit windowMs (history ++ admittedTimes inputs (run rlStep l inputs).2) := by
  induction inputs generalizing history now l with
  | nil =>
    rw [run_nil, show admittedTimes [] [] = [] from rfl, List.append_nil]
    exact ⟨paced.later le, limited⟩
  | cons i inputs ih =>
    obtain ⟨t, cmd⟩ := i
    obtain ⟨sorted, clock⟩ := timed
    obtain ⟨above, sorted⟩ := List.pairwise_cons.mp sorted
    have first := List.mem_cons_self (a := (t, cmd)) (l := inputs)
    have more {i : ℕ × RlCommand} (mem : i ∈ inputs) := List.mem_cons_of_mem (t, cmd) mem
    obtain ⟨stepped, limited⟩ :=
      (paced.later (later _ first)).step limited (clock _ first) (configures _ first)
    have rest := ih stepped limited ⟨sorted, fun i mem => clock i (more mem)⟩
      (fun i mem => above i.1 (List.mem_map_of_mem mem)) (fun i mem => configures i (more mem))
      (last _ first) (fun i mem => last i (more mem))
    have admitted (reply : RlReply) (replies : List RlReply) :
        history ++ admittedTimes ((t, cmd) :: inputs) (reply :: replies) =
          (history ++ if reply.admits then [t] else []) ++ admittedTimes inputs replies := by
      cases admits : reply.admits <;> simp [admittedTimes, admits]
    rw [run_cons, admitted]
    exact rest

end

/-- What the limiter promises of a run of one configuration, and of the check after it. -/
structure FairlyLimited (limit windowMs : ℕ) (inputs : List (ℕ × RlCommand)) : Prop where
  admitted : Limited limit windowMs (admittedTimes inputs (run rlStep none inputs).2)
  few : ∀ c, (run rlStep none inputs).1 = some c → c.value.buckets.length ≤ 129
  /-- A check denies an attempt for admitted ones: it counts as many as the limit, the last ones of the
  run, none of them older than the window and one bucket. -/
  denied : ∀ now config remaining retryAfterMs, (∀ i ∈ inputs, i.1 ≤ now) → now < Decimal.u64Max →
    (config = none ∨ config = some (limit, windowMs)) →
    (rlStep (run rlStep none inputs).1 (now, .check config)).2 = .checked 0 remaining retryAfterMs →
    ∃ rl expiresAtMs counted,
      rlStep (run rlStep none inputs).1 (now, .check config) =
        (some (rlChecked now rl expiresAtMs).1, (rlChecked now rl expiresAtMs).2) ∧
      counted <:+ admittedTimes inputs (run rlStep none inputs).2 ∧ counted.length = rl.used now ∧
      limit ≤ counted.length ∧ ∀ t ∈ counted, now < t + windowMs + bucketWidth windowMs

theorem paced_run {limit windowMs : ℕ} {inputs : List (ℕ × RlCommand)} (timed : Timed inputs)
    (configures : ∀ i ∈ inputs, i.2.Configures limit windowMs) {now : ℕ} (last : ∀ i ∈ inputs, i.1 ≤ now) :
    Paced limit windowMs (admittedTimes inputs (run rlStep none inputs).2) now (run rlStep none inputs).1 ∧
      Limited limit windowMs (admittedTimes inputs (run rlStep none inputs).2) := by
  have start : Paced limit windowMs [] 0 none := by
    rintro t ⟨⟩
  have none : Limited limit windowMs [] := fun s => Nat.zero_le _
  exact start.run none timed (fun _ _ => Nat.zero_le _) configures (Nat.zero_le _) last

theorem limiter_fair (limit windowMs : ℕ) (inputs : List (ℕ × RlCommand)) (timed : Timed inputs)
    (configures : ∀ i ∈ inputs, i.2.Configures limit windowMs) : FairlyLimited limit windowMs inputs where
  admitted := (paced_run timed configures fun i mem => (timed.2 i mem).le).2
  few c held := by
    have paced := (paced_run timed configures fun i mem => (timed.2 i mem).le).1
    rw [held] at paced
    obtain ⟨gone, spans, fair⟩ := paced
    exact fair.few
  denied now config remaining retryAfterMs last clock known denied := by
    have paced := (paced_run timed configures last).1
    obtain eq | ⟨rl, expiresAtMs, gone, spans, fair, eq⟩ := paced.check clock known
    · rw [eq] at denied
      cases denied
    · rw [eq] at denied ⊢
      obtain ⟨counted, rest⟩ := fair.denied denied
      exact ⟨_, _, counted, rfl, rest⟩

theorem limiter_fair_one : FairlyLimited 1 1000
    [(0, .check (some (1, 1000))), (0, .check none), (990, .set 1 1000), (1015, .check none)] :=
  limiter_fair 1 1000 _ ⟨by decide, by decide⟩ (by simp [RlCommand.Configures])

end Recached
