import Recached.Errors

/-!
# The declared footprint of a command

Locks, watches and logs trust `primaryKeys` and `isWriteCommand`.  Both are right but for `RLCHECK`,
whose key is in neither list although an inline limit and window create or reconfigure its limiter.
-/

namespace Recached

open Text Lapse KeyValueStore

variable {codec : Codec} {env : Env} {cmd : Command} {s : KeyValueStore}

/-! ## Counting attempts -/

theorem shown_rlAttempt_iff {now : ℕ} {rl rl' : RateLimiter} {exp : Option ℕ} :
    shown (Lapse.settle now (some (rlAttempt now rl' exp).1)) = some (EntryValue.rateLimiter rl).config ↔
      (rl'.limit = rl.limit ∧ rl'.windowMs = rl.windowMs) ∧
        (exp.isSome = true → now < satAdd now rl'.windowMs) := by
  constructor
  · intro same
    have alive : exp.isSome = true → now < satAdd now rl'.windowMs := by
      intro deadline
      by_contra late
      obtain ⟨d, rfl⟩ := Option.isSome_iff_exists.mp deadline
      have gone : Lapse.settle now (some (rlAttempt now rl' (some d)).1) = none := by
        simp only [Lapse.settle, Option.filter_some]
        rw [if_neg]
        simpa [Lapse.Cell.isExpired, rlAttempt] using late
      rw [gone] at same
      cases same
    rw [shown_attempt alive] at same
    have kept := EntryValue.rateLimiter.inj (Option.some.inj same)
    obtain ⟨limit, window, -⟩ := RateLimiter.mk.inj kept
    exact ⟨⟨limit, window⟩, alive⟩
  · rintro ⟨⟨limit, window⟩, alive⟩
    rw [shown_attempt alive]
    simp [EntryValue.config, limit, window]

theorem shown_rlCheck_iff (key : String) {cfg : Option (ℕ × ℕ)} {l : Option Cell} {now : ℕ}
    (live : Lapse.settle now l = l) :
    shown (afterAct now (rlCheckAct now key cfg) l) = shown l ↔ OnlyCounts now cfg l := by
  refine ⟨fun same => ?_, shown_rlCheck key live⟩
  cases l with
  | none =>
    rintro ⟨limit, secs⟩ given
    obtain rfl := Option.mem_def.mp given
    by_contra early
    have alive := (@shown_rlAttempt_iff now { limit, windowMs := satMul secs 1000 }
      { limit, windowMs := satMul secs 1000 } (some (satAdd now (satMul secs 1000)))).mpr
      ⟨⟨rfl, rfl⟩, fun _ => not_le.mp early⟩
    rw [show shown (afterAct now (rlCheckAct now key (some (limit, secs))) none) = _ from alive] at same
    cases same
  | some c =>
    intro rl limiter
    obtain ⟨value, exp⟩ := c
    obtain rfl : value = .rateLimiter rl := limiter
    cases cfg with
    | none =>
      obtain ⟨-, alive⟩ := (@shown_rlAttempt_iff now rl rl exp).mp same
      exact ⟨nofun, alive⟩
    | some p =>
      obtain ⟨⟨limit, window⟩, alive⟩ := (@shown_rlAttempt_iff now rl
        { rl with limit := p.1, windowMs := satMul p.2 1000 } exp).mp same
      refine ⟨fun q given => ?_, fun deadline => window ▸ alive deadline⟩
      obtain rfl := Option.some.inj given
      exact ⟨limit.symm, window.symm⟩

/-! ## The footprint -/

/-- The live cells of a key differ; for the key of `RLCHECK` in more than the recorded attempts and the
deadline that an attempt renews. -/
def Differs (cmd : Command) (k : String) (l l' : Option Cell) : Prop :=
  match cmd with
  | .rlCheck key _ => if k = key then shown l ≠ shown l' else l ≠ l'
  | _ => l ≠ l'

/-- What a command changes is declared or evicted, and what is no write changes nothing. -/
structure FootprintSound (codec : Codec) (env : Env) (cmd : Command) (s : KeyValueStore) : Prop where
  declared : ∀ k, Differs cmd k (s.live env.now k)
      ((executeReporting codec env cmd s).2.1.live env.now k) →
    k ∈ primaryKeys cmd ∨ k ∈ (executeReporting codec env cmd s).2.2 ∨ cmd = .flushDb
  reads : isWriteCommand cmd = false →
    (executeReporting codec env cmd s).2.1.live env.now = s.live env.now

theorem readOnly_of_not_write (reads : isWriteCommand cmd = false) :
    mutationScope cmd = .readOnly := by
  induction cmd with
  | dedup client id inner ih => exact ih reads
  | _ => first | rfl | cases reads

/-- A key outside the footprint keeps its live cell. -/
theorem live_outside {k : String} (notPrimary : k ∉ primaryKeys cmd)
    (spared : k ∉ (executeReporting codec env cmd s).2.2) (notFlush : cmd ≠ .flushDb)
    (other : ∀ config, cmd ≠ .rlCheck k config) :
    (executeReporting codec env cmd s).2.1.live env.now k = s.live env.now k := by
  cases write : isWriteCommand cmd with
  | false =>
    exact congrFun ((executeReporting_looked codec env s (readOnly_of_not_write write)).live env.now) k
  | true =>
    have frame (d : Data) : ((program codec env cmd).run env.now d).2[k]? = d[k]? := by
      by_cases check : ∃ key config, cmd = .rlCheck key config
      · obtain ⟨key, config, rfl⟩ := check
        refine Prog.run_frame (program_on codec env notFlush) env.now d fun listed => ?_
        obtain rfl : k = key := by simpa [commandScope, CommandScope.listed] using listed
        exact other config rfl
      · exact getElem?_run_write codec env write notFlush
          (fun key config eq => check ⟨key, config, eq⟩) notPrimary d
    obtain ⟨-, same⟩ | ⟨pre, -, -, before, after⟩ :=
      (executeReporting_fares codec env s (direct_of_write write)).spared spared
    · rw [KeyValueStore.live, KeyValueStore.live, Lapse.live, Lapse.live, same]
    · rw [KeyValueStore.live, KeyValueStore.live, Lapse.live, Lapse.live, after, frame, before]

/-- `RLCHECK` only counts an attempt, or is taken back, or its key is evicted at once. -/
def ChecksOnlyCount (codec : Codec) (env : Env) (cmd : Command) (s : KeyValueStore) : Prop :=
  ∀ key config, cmd = .rlCheck key config → OnlyCounts env.now config (s.live env.now key) ∨
    Outgrows codec env cmd s ∨ key ∈ evictedAround codec env cmd s

/-- What becomes of the key of `RLCHECK` if it is neither evicted nor put back. -/
theorem live_rlCheck {key : String} {config : Option (ℕ × ℕ)}
    (fits : ¬Outgrows codec env (.rlCheck key config) s) :
    (executeReporting codec env (.rlCheck key config) s).2.2 =
        evictedAround codec env (.rlCheck key config) s ∧
      (key ∉ evictedAround codec env (.rlCheck key config) s →
        (executeReporting codec env (.rlCheck key config) s).2.1.live env.now key =
          afterAct env.now (rlCheckAct env.now key config) (s.live env.now key)) := by
  have room : makeRoom env (.rlCheck key config) s = (true, s, []) :=
    makeRoom_of_not_capped env s rfl (by rintro _ ⟨⟩)
  obtain ⟨post, after, around⟩ := @executeReporting_evicts codec env (.rlCheck key config) s
    (by rintro ⟨⟩) fits
  refine ⟨congrArg Prod.snd (executeReporting_of_keys rfl fits), fun spared => ?_⟩
  rw [around, room, List.nil_append] at spared
  have made : (makeRoom env (.rlCheck key config) s).1 = true := by rw [room]
  rw [after, live_carriedOut made, room, without_nil, perform_one rfl]
  exact (if_neg spared).trans (Function.update_self ..)

/-- The declared footprint is sound for a command on a store exactly if it is not an `RLCHECK` that does
more than count an attempt. -/
theorem footprint_sound_iff (codec : Codec) (env : Env) (cmd : Command) (s : KeyValueStore) :
    FootprintSound codec env cmd s ↔ ChecksOnlyCount codec env cmd s := by
  constructor
  · rintro sound key config rfl
    by_contra more
    obtain ⟨notOnly, rest⟩ := not_or.mp more
    obtain ⟨fits, spared⟩ := not_or.mp rest
    obtain ⟨victims, after⟩ := @live_rlCheck codec env s key config fits
    have changed : Differs (.rlCheck key config) key (s.live env.now key)
        ((executeReporting codec env (.rlCheck key config) s).2.1.live env.now key) := by
      rw [after spared, Differs, if_pos rfl]
      exact fun same => notOnly ((shown_rlCheck_iff key (Lapse.settle_live ..)).mp same.symm)
    rcases sound.declared key changed with primary | evicted | flush
    · cases primary
    · exact spared (victims ▸ evicted)
    · cases flush
  · intro counts
    refine ⟨fun k changed => ?_, fun reads =>
      (executeReporting_looked codec env s (readOnly_of_not_write reads)).live env.now⟩
    by_contra undeclared
    obtain ⟨notPrimary, rest⟩ := not_or.mp undeclared
    obtain ⟨spared, notFlush⟩ := not_or.mp rest
    by_cases own : ∃ config, cmd = .rlCheck k config
    · obtain ⟨config, rfl⟩ := own
      rw [Differs, if_pos rfl] at changed
      by_cases fits : Outgrows codec env (.rlCheck k config) s
      · exact changed (congrArg shown (congrFun (live_of_outgrows fits) k)).symm
      · obtain ⟨victims, after⟩ := @live_rlCheck codec env s k config fits
        rw [victims] at spared
        rw [after spared] at changed
        obtain only | outgrows | evicted := counts k config rfl
        · exact changed (shown_rlCheck k (Lapse.settle_live ..) only).symm
        · exact fits outgrows
        · exact spared evicted
    · have same := @live_outside codec env cmd s k notPrimary spared notFlush
        fun config eq => own ⟨config, eq⟩
      have differ : s.live env.now k ≠ (executeReporting codec env cmd s).2.1.live env.now k := by
        unfold Differs at changed
        split at changed
        · next key config =>
          rwa [if_neg fun eq => own ⟨config, by rw [eq]⟩] at changed
        · exact changed
      exact differ same.symm

/-- An `RLCHECK` with other limits reconfigures the limiter, and its key is declared nowhere. -/
theorem inline_rlCheck_undeclared :
    ¬FootprintSound .literals (.fixed 0) (.rlCheck "k" (some (5, 30)))
      (execute .literals (.fixed 0) (.rlSet "k" 10 60) {}).2 := by
  intro sound
  have changed : Differs (.rlCheck "k" (some (5, 30))) "k"
      (some ⟨.rateLimiter { limit := 10, windowMs := 60000 }, none⟩)
      (some ⟨.rateLimiter { limit := 5, windowMs := 30000, buckets := [(0, 1)] }, none⟩) := by
    rw [Differs, if_pos rfl]
    simp [shown, EntryValue.config]
  obtain primary | evicted | flush := sound.declared "k" changed
  · cases primary
  · cases evicted
  · cases flush

end Recached
