import Recached.Deadlines
import Recached.Account

/-!
# The remaining time of a key

`TTL` and `PTTL` read the deadline of a key back through a cast to a signed number.  The answers follow
the law of signs at every clock from some reading on exactly when no stored deadline lies further than
`i64::MAX` milliseconds beyond that reading, and a run keeps this if its commands give no deadline that
lies further.
-/

namespace Recached

open Lapse Runs Text

/-- From this reading on the time until the deadline is a signed number. -/
def Near (earliest : ℕ) (deadline : Option ℕ) : Prop := ∀ d ∈ deadline, (d : ℤ) ≤ earliest + Decimal.i64Max

def KeyValueStore.AllNear (s : KeyValueStore) (earliest : ℕ) : Prop := Every (Dated (Near earliest)) s.data

/-- The milliseconds rounded to seconds. -/
def roundedSecs (ms : ℕ) : ℕ := (ms + 500) / 1000

/-- What `TTL` and `PTTL` answer, each in its unit. -/
def remaining (unit : ℕ → ℕ) (now : ℕ) : Option Cell → ℤ
  | none => -2
  | some ⟨_, none⟩ => -1
  | some ⟨_, some d⟩ => unit (d - now)

/-- The law of signs of a command that asks for the remaining time, at every clock from a reading on. -/
structure SignLaw (codec : Codec) (ask : String → Command) (unit : ℕ → ℕ) (s : KeyValueStore)
    (earliest : ℕ) : Prop where
  absent : ∀ env key, earliest ≤ env.now →
    ((execute codec env (ask key) s).1 = .integer (-2) ↔ s.live env.now key = none)
  lasting : ∀ env key, earliest ≤ env.now →
    ((execute codec env (ask key) s).1 = .integer (-1) ↔
      ∃ c, s.live env.now key = some c ∧ c.expiresAtMs = none)
  dated : ∀ env key c d, earliest ≤ env.now → s.live env.now key = some c → c.expiresAtMs = some d →
    (execute codec env (ask key) s).1 = .integer (unit (d - env.now) : ℕ)
  neverGrows : ∀ env env' key, earliest ≤ env.now → env.now ≤ env'.now → ∃ n n' : ℤ,
    (execute codec env (ask key) s).1 = .integer n ∧ (execute codec env' (ask key) s).1 = .integer n' ∧
      n' ≤ n

/-- Both commands tell the remaining time. -/
structure TellsRemaining (codec : Codec) (s : KeyValueStore) (earliest : ℕ) : Prop where
  ttl : SignLaw codec .ttl roundedSecs s earliest
  pTtl : SignLaw codec .pTtl id s earliest

section

variable {unit : ℕ → ℕ} {now later : ℕ} {l : Option Cell}

theorem remaining_eq_neg_two : remaining unit now l = -2 ↔ l = none := by
  obtain _ | ⟨value, _ | d⟩ := l <;> simp [remaining]

theorem remaining_eq_neg_one : remaining unit now l = -1 ↔ ∃ c, l = some c ∧ c.expiresAtMs = none := by
  obtain _ | ⟨value, _ | d⟩ := l <;> simp [remaining]

/-- The answer of a cell does not grow as the clock advances. -/
theorem remaining_anti (mono : Monotone unit) (le : now ≤ later) (l : Option Cell) :
    remaining unit later (settle later l) ≤ remaining unit now (settle now l) := by
  rw [← settle_settle le]
  obtain _ | ⟨value, _ | d⟩ := settle now l
  · exact le_rfl
  · exact le_rfl
  · unfold settle
    rw [Option.filter_some]
    split_ifs
    · exact Int.ofNat_le.mpr (mono (Nat.sub_le_sub_left le d))
    · simp only [remaining]
      omega

theorem roundedSecs_mono : Monotone roundedSecs :=
  fun _ _ le => Nat.div_le_div_right (Nat.add_le_add_right le 500)

end

section

variable {codec : Codec} {s : KeyValueStore} {earliest : ℕ}

/-- A command that answers with the remaining time follows the law. -/
theorem signLaw_of_answers {ask : String → Command} {unit : ℕ → ℕ} (mono : Monotone unit)
    (answers : ∀ env key, earliest ≤ env.now → (execute codec env (ask key) s).1 =
      .integer (remaining unit env.now (s.live env.now key))) : SignLaw codec ask unit s earliest where
  absent env key le := by
    rw [answers env key le, Value.integer.injEq, remaining_eq_neg_two]
  lasting env key le := by
    rw [answers env key le, Value.integer.injEq, remaining_eq_neg_one]
  dated env key c d le there deadline := by
    obtain ⟨value, expiresAtMs⟩ := c
    obtain rfl : expiresAtMs = some d := deadline
    rw [answers env key le, there]
    rfl
  neverGrows env env' key le later :=
    ⟨_, _, answers env key le, answers env' key (le.trans later), remaining_anti mono later _⟩

theorem asI64_of_fits {n : ℕ} (fits : (n : ℤ) ≤ Decimal.i64Max) : asI64 n = n := by
  simp only [Decimal.i64Max] at fits
  exact if_pos (by omega)

/-- What the commands answer, with the cast. -/
theorem reply_ttlAct {env : Env} {key : String} {ask : String → Command} {unit : ℕ → ℤ}
    (reads : mutationScope (ask key) = .readOnly) (direct : readsKeyspace (ask key) = false)
    (one : program codec env (ask key) = .one key (ttlAct env.now unit)) :
    (execute codec env (ask key) s).1 = (ttlAct env.now unit (s.live env.now key)).2 := by
  rw [execute_reads codec env s reads direct, perform_one one]

theorem reply_pTtl_of_dated {env : Env} {key : String} {value : EntryValue} {d : ℕ}
    (there : s.live env.now key = some ⟨value, some d⟩) :
    (execute codec env (.pTtl key) s).1 = .integer (asI64 (d - env.now)) := by
  rw [reply_ttlAct rfl rfl rfl, there]
  rfl

/-- Without a deadline the answer has no unit. -/
theorem answers_of_dated {env : Env} {key : String} {ask : String → Command} {unit : ℕ → ℕ} {cast : ℕ → ℤ}
    (reads : mutationScope (ask key) = .readOnly) (direct : readsKeyspace (ask key) = false)
    (one : program codec env (ask key) = .one key (ttlAct env.now cast))
    (dated : ∀ value d, s.live env.now key = some ⟨value, some d⟩ → cast (d - env.now) = unit (d - env.now)) :
    (execute codec env (ask key) s).1 = .integer (remaining unit env.now (s.live env.now key)) := by
  rw [reply_ttlAct reads direct one]
  cases there : s.live env.now key with
  | none => rfl
  | some c =>
    obtain ⟨value, expiresAtMs⟩ := c
    cases expiresAtMs with
    | none => rfl
    | some d => exact congrArg Value.integer (dated value d there)

theorem tellsRemaining_of_near (near : s.AllNear earliest) : TellsRemaining codec s earliest := by
  have close {env : Env} {key : String} (le : earliest ≤ env.now) {value : EntryValue} {d : ℕ}
      (there : s.live env.now key = some ⟨value, some d⟩) : ((d - env.now : ℕ) : ℤ) ≤ Decimal.i64Max := by
    have := near.live env.now key _ there d rfl
    simp only [Decimal.i64Max] at *
    omega
  constructor
  · refine signLaw_of_answers roundedSecs_mono fun env key le => ?_
    refine answers_of_dated rfl rfl rfl fun value d there => ?_
    have fits := close le there
    have short : satAdd (d - env.now) 500 / 1000 = roundedSecs (d - env.now) := by
      simp only [satAdd, roundedSecs, Decimal.u64Max, Decimal.i64Max] at *
      omega
    rw [short]
    refine asI64_of_fits ?_
    simp only [roundedSecs, Decimal.i64Max] at *
    omega
  · refine signLaw_of_answers monotone_id fun env key le => ?_
    exact answers_of_dated rfl rfl rfl fun value d there => asI64_of_fits (close le there)

/-- A deadline that lies too far beyond the reading shows as a negative number there. -/
theorem near_of_tellsRemaining (tells : TellsRemaining codec s earliest) : s.AllNear earliest := by
  intro key c stored d deadline
  by_contra far
  obtain ⟨value, expiresAtMs⟩ := c
  obtain rfl : expiresAtMs = some d := deadline
  have there : s.live earliest key = some ⟨value, some d⟩ := by
    refine settle_eq_some.mpr ⟨stored, ?_⟩
    simp only [Cell.isExpired, Option.any_some, decide_eq_false_iff_not, Decimal.i64Max] at *
    omega
  have told := tells.pTtl.dated (.fixed earliest) key _ d le_rfl there rfl
  have shown : (execute codec (.fixed earliest) (.pTtl key) s).1 =
    .integer (asI64 (d - (Env.fixed earliest).now)) := reply_pTtl_of_dated there
  rw [shown, Value.integer.injEq] at told
  simp only [Env.fixed, asI64, id_eq, Decimal.i64Max] at *
  split_ifs at told <;> omega

/-! ## Runs -/

/-- No operation gives a deadline that lies further beyond the reading. -/
def GivesNear (earliest : ℕ) (s : KeyValueStore) : StoreOp → Prop
  | .execute env (.rlCheck key config) => Near earliest (limiterDeadline env.now (s.live env.now key) config)
  | .execute env cmd => Near earliest (givenDeadline env.now none cmd)
  | .restore _ entries | .replace _ entries => ∀ e ∈ entries, Dated (Near earliest) e.2
  | _ => True

theorem near_none (earliest : ℕ) : Near earliest none := by
  rintro d ⟨⟩

theorem KeyValueStore.AllNear.execute {env : Env} {cmd : Command} (near : s.AllNear earliest)
    (gives : GivesNear earliest s (.execute env cmd)) :
    (executeReporting codec env cmd s).2.1.AllNear earliest := by
  refine every_execute near fun room => ?_
  cases cmd
  case rlCheck key config =>
    rw [makeRoom_of_not_capped env s rfl (by rintro _ ⟨⟩)]
    refine near.store env.now key (dated_rlCheckAct (fun d mem => ?_) (near.live env.now key))
    rintro _ ⟨⟩
    exact gives d mem
  all_goals
    refine Prog.run_keeps (program_dated codec env (near_none earliest) fun l d mem _ => ?_) env.now room
    rintro _ ⟨⟩
    exact gives d mem

theorem KeyValueStore.AllNear.apply {op : StoreOp} (near : s.AllNear earliest)
    (gives : GivesNear earliest s op) : (op.apply codec s).AllNear earliest := by
  refine every_apply near (fun env cmd is => ?_) fun e listed => ?_
  · subst is
    exact near.execute gives
  · cases op with
    | restore now entries | replace now entries => exact gives e listed
    | _ => cases listed

/-- The answers follow the law in a state exactly when every stored deadline is near, and in every state
of a run whose steps give near deadlines only. -/
theorem remaining_told (codec : Codec) (earliest : ℕ) :
    (∀ s, TellsRemaining codec s earliest ↔ s.AllNear earliest) ∧
      ∀ s s' ops, s.AllNear earliest → exec (storeStep codec) s ops = some s' →
        Each (storeStep codec) (GivesNear earliest) s ops → TellsRemaining codec s' earliest := by
  refine ⟨fun s => ⟨near_of_tellsRemaining, tellsRemaining_of_near⟩, fun s s' ops start run each => ?_⟩
  refine tellsRemaining_of_near (Runs.invariant (P := fun s => s.AllNear earliest) ?_ run each start)
  intro s op s' near gives next
  obtain rfl := Option.some.inj next
  exact near.apply gives

end

theorem remaining_told_set :
    let ops := [.execute (.fixed 5) (.setEx "k" 10 [49])]
    ∃ s, exec (storeStep .literals) {} ops = some s ∧ TellsRemaining .literals s 5 := by
  intro ops
  have empty : ({} : KeyValueStore).AllNear 5 := fun k => by simpa using .none
  refine ⟨_, rfl, (remaining_told .literals 5).2 {} _ ops empty rfl ?_⟩
  refine ⟨?_, fun _ _ => trivial⟩
  intro d given
  rw [← Option.some.inj given]
  norm_num [satAdd, satMul, Env.fixed, Decimal.u64Max, Decimal.i64Max]

set_option maxRecDepth 1500 in
/-- The longest time that `SETEX` accepts ends later than a signed number says. -/
theorem longest_time_negative :
    let s := StoreOp.apply .literals {} (.execute (.fixed 5) (.setEx "k" 9223372036854775807 (asBytes "v")))
    fromValue (arrayOf [bulk "SETEX", bulk "k", bulk "9223372036854775807", bulk "v"]) =
        .ok (.setEx "k" 9223372036854775807 (asBytes "v")) ∧
      (execute .literals (.fixed 5) (.pTtl "k") s).1 = .integer (-6) ∧
      ¬TellsRemaining .literals s 5 := by
  intro s
  have stored : s.data["k"]?.map Entry.toCell =
      some ⟨.str (asBytes "v"), some (satAdd 5 (satMul 9223372036854775807 1000))⟩ := rfl
  have far : satAdd 5 (satMul 9223372036854775807 1000) = 18446744073709551615 := by
    norm_num [satAdd, satMul, Decimal.u64Max]
  generalize satAdd 5 (satMul 9223372036854775807 1000) = d at stored far
  have there : s.live (Env.fixed 5).now "k" = some ⟨.str (asBytes "v"), some d⟩ := by
    have unlapsed : Cell.isExpired 5 ⟨EntryValue.str (asBytes "v"), some d⟩ = false := by
      norm_num [Cell.isExpired, far]
    rw [KeyValueStore.live, Lapse.live, stored]
    exact settle_eq_some.mpr ⟨rfl, unlapsed⟩
  have told : asI64 (d - (Env.fixed 5).now) = -6 := by
    rw [far]
    norm_num [Env.fixed, asI64]
  have negative : (execute .literals (.fixed 5) (.pTtl "k") s).1 = .integer (-6) := by
    rw [reply_pTtl_of_dated there, told]
  refine ⟨rfl, negative, fun tells => ?_⟩
  have positive := tells.pTtl.dated (.fixed 5) "k" _ d le_rfl there rfl
  have same := Value.integer.inj (negative.symm.trans positive)
  omega

end Recached
