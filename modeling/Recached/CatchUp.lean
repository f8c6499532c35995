import Recached.Delay
import Recached.Journal

/-!
# Catching up

A copy of a store that is behind has mutations still to execute, and executes them when it comes to
it.  It ends up with the view of the store if every mutation can still be executed by then.
-/

namespace Recached

open Text Lapse

variable {codec : Codec} {env : Env} {m : Mutation} {ms : List Mutation} {t t' : ℕ} {u v w : View}

namespace Mutation

/-- The mutation does to the view at every later time what it does now. -/
def Lasting (codec : Codec) (t : ℕ) (v : View) (m : Mutation) : Prop :=
  (∀ later, t ≤ later → m.Durable codec later v) ∧
    (perform codec (.fixed t) m.toCommand v).1.isError = false

theorem perform_eq (codec : Codec) (env : Env) (m : Mutation) (v : View) :
    perform codec env m.toCommand v = perform codec (.fixed env.now) m.toCommand v := by
  rw [perform, m.program_eq codec env (.fixed env.now)]
  rfl

theorem durable_sameView {later : ℕ} (h : SameView v w) (durable : m.Durable codec later v) :
    m.Durable codec later w := by
  have still {key : String} (lasting : settle later (v key) = v key) : settle later (w key) = w key := by
    obtain eq | ⟨rl, rl', exp, l, l', -⟩ := SameConfig.cases (h key)
    · exact eq ▸ lasting
    · rw [l] at lasting
      rw [l']
      exact settle_eq_some.mpr ⟨rfl, (settle_eq_some.mp lasting).2⟩
  cases m
  case pExpireAt key ts => exact durable.imp id still
  all_goals exact fun key hk => still (durable key hk)

/-- What lasts until later lasts until any time before that. -/
theorem Durable.settle {later : ℕ} (durable : m.Durable codec later v) (le : t ≤ later) :
    m.Durable codec later (v.settle t) := by
  have still {key : String} (lasting : Lapse.settle later (v key) = v key) :
      Lapse.settle later (v.settle t key) = v.settle t key := by
    rw [View.settle, settle_of_settled le lasting]
    exact lasting
  cases m
  case pExpireAt key ts => exact durable.imp id still
  all_goals exact fun key hk => still (durable key hk)

end Mutation

/-- From the first view the mutations lead to the second, whenever they are executed. -/
def LeadsTo (codec : Codec) (t : ℕ) : List Mutation → View → View → Prop
  | [], v, w => SameView (v.settle t) (w.settle t)
  | m :: ms, v, w => m.Lasting codec t (v.settle t) ∧
    LeadsTo codec t ms (perform codec (.fixed t) m.toCommand (v.settle t)).2 w

namespace LeadsTo

theorem live_settle (t : ℕ) (v : View) (k : String) : settle t (v.settle t k) = v.settle t k :=
  settle_self t (v k)

theorem settle_later (le : t ≤ t') (v : View) : (v.settle t).settle t' = v.settle t' :=
  funext fun k => settle_settle le (v k)

theorem from_same (h : LeadsTo codec t ms u w) (same : SameView (u.settle t) (v.settle t)) :
    LeadsTo codec t ms v w := by
  induction ms generalizing u v with
  | nil => exact same.symm.trans h
  | cons m ms ih =>
    obtain ⟨⟨durable, ok⟩, rest⟩ := h
    refine ⟨⟨fun later le => Mutation.durable_sameView same (durable later le), ?_⟩, ih rest ?_⟩
    · rw [← perform_isError_sameView codec _ m same (live_settle t u) (live_settle t v)]
      exact ok
    · exact (perform_sameView codec _ _ same).settle t

theorem to_same (h : LeadsTo codec t ms u v) (same : SameView (v.settle t) (w.settle t)) :
    LeadsTo codec t ms u w := by
  induction ms generalizing u with
  | nil => exact SameView.trans h same
  | cons m ms ih => exact ⟨h.1, ih h.2⟩

/-- Time may pass. -/
theorem later (h : LeadsTo codec t ms v w) (le : t ≤ t') : LeadsTo codec t' ms v w := by
  induction ms generalizing v with
  | nil =>
    have same := SameView.settle h t'
    rwa [settle_later le, settle_later le] at same
  | cons m ms ih =>
    obtain ⟨⟨durable, ok⟩, rest⟩ := h
    obtain ⟨same, ok'⟩ :
        SameView (View.settle t' (perform codec (.fixed t) m.toCommand (v.settle t)).2)
            (perform codec (.fixed t') m.toCommand (v.settle t')).2 ∧
          (perform codec (.fixed t') m.toCommand (v.settle t')).1.isError = false := by
      have delayed := @perform_delayed codec (.fixed t) (.fixed t') m _ le (live_settle t v) (durable t' le) ok
      rwa [show (Env.fixed t').now = t' from rfl, settle_later le] at delayed
    refine ⟨⟨fun later le' => ?_, ok'⟩, from_same (ih rest) ?_⟩
    · have lasting := Mutation.Durable.settle (t := t') (durable later (le.trans le')) le'
      rwa [settle_later le] at lasting
    · have settled := SameView.settle same t'
      rwa [settle_later le_rfl] at settled

theorem snoc (h : LeadsTo codec t ms v w) (lasting : m.Lasting codec t (w.settle t)) :
    LeadsTo codec t (ms ++ [m]) v (perform codec (.fixed t) m.toCommand (w.settle t)).2 := by
  induction ms generalizing v with
  | nil =>
    have one : LeadsTo codec t [m] w (perform codec (.fixed t) m.toCommand (w.settle t)).2 :=
      ⟨lasting, .refl _⟩
    exact one.from_same (SameView.symm h)
  | cons m' ms ih => exact ⟨h.1, ih h.2⟩

end LeadsTo

/-! ## Stores that execute mutations -/

theorem live_later (s : KeyValueStore) (le : t ≤ t') : (s.live t).settle t' = s.live t' :=
  funext fun _ => settle_settle le _

/-- What a mutation does to a store without limits. -/
theorem execute_mutation (codec : Codec) (env : Env) (m : Mutation) {s : KeyValueStore}
    (uncapped : s.Uncapped) :
    (execute codec env m.toCommand s).1 =
        (perform codec (.fixed env.now) m.toCommand (s.live env.now)).1 ∧
      (execute codec env m.toCommand s).2.live env.now =
        (perform codec (.fixed env.now) m.toCommand (s.live env.now)).2 ∧
      (execute codec env m.toCommand s).2.Uncapped := by
  have direct := direct_of_write (isWriteCommand_mutation m)
  obtain ⟨reply, view⟩ := execute_uncapped codec env m.toCommand uncapped direct
  rw [m.perform_eq] at reply view
  exact ⟨reply, view, (executeReporting_uncapped codec env m.toCommand uncapped).uncapped⟩

/-- A store that leads to a view by a mutation and others executes the mutation and leads to the view
by the others. -/
theorem LeadsTo.execute {s : KeyValueStore} (h : LeadsTo codec t (m :: ms) (s.live t) w)
    (uncapped : s.Uncapped) (le : t ≤ env.now) :
    (execute codec env m.toCommand s).1.isError = false ∧
      LeadsTo codec env.now ms ((execute codec env m.toCommand s).2.live env.now) w ∧
      (execute codec env m.toCommand s).2.Uncapped := by
  obtain ⟨⟨-, ok⟩, rest⟩ := h.later le
  obtain ⟨reply, view, still⟩ := execute_mutation codec env m uncapped
  rw [live_later s le] at ok rest
  exact ⟨reply ▸ ok, view ▸ rest, still⟩

/-- A frame of the log that carries a mutation is executed as the mutation that it decodes to. -/
theorem replayCommand_parts (codec : Codec) (env : Env) (offset : ℕ) (decodable : m.Decodable)
    (s : KeyValueStore) (ok : (execute codec env m.wire.toCommand s).1.isError = false) :
    replayCommand codec env offset (Frame.value m.parts) s =
      .ok (execute codec env m.wire.toCommand s).2 := by
  have decoded : fromValue (normalise (Frame.value m.parts)) = .ok m.wire.toCommand := by
    have accepted := (m.fromArray_toOption m.wire.toCommand).mpr ⟨decodable.1, rfl⟩
    simp only [Frame.value, normalise, fromValue]
    cases read : fromArray (bulks m.parts) with
    | error e =>
      rw [read] at accepted
      cases accepted
    | ok cmd =>
      rw [read] at accepted
      rw [Option.some.inj accepted]
  unfold replayCommand
  rw [decoded]
  dsimp only
  split
  · next message store result =>
    rw [result] at ok
    cases ok
  · next store _ result => rw [result]

/-- Executing the frames of mutations one after the other, each at its own time. -/
theorem executeValues_leadsTo {sent : List Mutation} (decodable : ∀ m ∈ sent, m.Decodable)
    {envs : ℕ → Env} (clock : Monotone fun i => (envs i).now) {n : ℕ} {s : KeyValueStore}
    (uncapped : s.Uncapped) (h : LeadsTo codec t (sent.map Mutation.wire) (s.live t) w)
    (le : t ≤ (envs n).now) :
    ∃ s', executeValues codec envs (sent.map fun m => Frame.value m.parts) n s =
        some (n + sent.length, s') ∧ s'.Uncapped ∧
      ∀ later, (envs (n + sent.length)).now ≤ later → SameView (s'.live later) (w.settle later) := by
  induction sent generalizing n s t with
  | nil =>
    refine ⟨s, rfl, uncapped, fun later le' => ?_⟩
    have same := h.later (le.trans le')
    rw [List.map_nil, LeadsTo, live_later s (le.trans le')] at same
    exact same
  | cons m sent ih =>
    obtain ⟨ok, rest, still⟩ := h.execute uncapped le
    have replayed := replayCommand_parts codec (envs n) 0 (decodable m List.mem_cons_self) s ok
    obtain ⟨s', executed, uncapped', same⟩ :=
      ih (fun m hm => decodable m (List.mem_cons_of_mem _ hm)) still rest (clock (Nat.le_succ n))
    have count : n + 1 + sent.length = n + (m :: sent).length := by
      rw [List.length_cons]
      omega
    refine ⟨s', ?_, uncapped', count ▸ same⟩
    rw [List.map_cons, executeValues, replayed, ← count]
    exact executed

/-- The frame of a mutation is not a checkpoint marker. -/
theorem marker_parts (m : Mutation) : Frame.marker m.parts = none := by
  have name : asBytes m.written.1 ≠ asBytes "RECACHED-CHECKPOINT" := by
    intro same
    have same := asBytes_injective same
    cases m <;> simp [Mutation.written] at same
  unfold Frame.marker Frame.value Mutation.parts
  cases m.written.2 with
  | nil => rfl
  | cons arg args =>
    cases args with
    | nil => simp [bulks, checkpointMarker, name]
    | cons _ _ => rfl

theorem commandsOf_parts (sent : List Mutation) :
    commandsOf (sent.map Mutation.parts) = sent.map fun m => Frame.value m.parts := by
  induction sent with
  | nil => rfl
  | cons m sent ih =>
    simp only [List.map_cons, commandsOf, marker_parts, Option.isSome_none, Bool.false_eq_true, if_false, ih]

/-- A file without markers is replayed from its start. -/
theorem resumed_parts (checkpoint : ℕ) (sent : List Mutation) :
    resumed checkpoint (sent.map Mutation.parts) = sent.map Mutation.parts := by
  have none : lastMarker checkpoint (sent.map Mutation.parts) = none := by
    induction sent with
    | nil => rfl
    | cons m sent ih =>
      rw [List.map_cons, lastMarker, ih, marker_parts]
      rfl
  rw [resumed, none]
  rfl

/-! ## Logs -/

variable {p : ℕ} {log : List Bytes}

/-- The frames of the log from a position on lead from one view to another. -/
def Behind (codec : Codec) (t : ℕ) (log : List Bytes) (p : ℕ) (v w : View) : Prop :=
  p ≤ log.length ∧ ∃ sent : List Mutation, (∀ m ∈ sent, m.Decodable) ∧
    log.drop p = sent.map (fun m => respPush m.parts) ∧ LeadsTo codec t (sent.map Mutation.wire) v w

namespace Behind

theorem wait (h : Behind codec t log p v w) (le : t ≤ t') : Behind codec t' log p v w := by
  obtain ⟨range, sent, decodable, drop, leads⟩ := h
  exact ⟨range, sent, decodable, drop, leads.later le⟩

theorem from_same (h : Behind codec t log p u w) (same : SameView (u.settle t) (v.settle t)) :
    Behind codec t log p v w := by
  obtain ⟨range, sent, decodable, drop, leads⟩ := h
  exact ⟨range, sent, decodable, drop, leads.from_same same⟩

theorem to_same (h : Behind codec t log p u v) (same : SameView (v.settle t) (w.settle t)) :
    Behind codec t log p u w := by
  obtain ⟨range, sent, decodable, drop, leads⟩ := h
  exact ⟨range, sent, decodable, drop, leads.to_same same⟩

/-- A copy of the view itself is behind nothing. -/
theorem none_left (codec : Codec) (log : List Bytes) (same : SameView (v.settle t) (w.settle t)) :
    Behind codec t log log.length v w :=
  ⟨le_rfl, [], nofun, by simp, same⟩

theorem snoc {m : Mutation} (h : Behind codec t log p v w) (decodable : m.Decodable)
    (lasting : m.wire.Lasting codec t (w.settle t)) :
    Behind codec t (log ++ [respPush m.parts]) p v
      (perform codec (.fixed t) m.wire.toCommand (w.settle t)).2 := by
  obtain ⟨range, sent, all, drop, leads⟩ := h
  refine ⟨by rw [List.length_append]; omega, sent ++ [m], ?_, ?_, ?_⟩
  · intro m' hm
    obtain old | new := List.mem_append.mp hm
    · exact all m' old
    · exact List.mem_singleton.mp new ▸ decodable
  · rw [List.drop_append_of_le_length range, drop, List.map_append]
    rfl
  · rw [List.map_append]
    exact leads.snoc lasting

/-- A copy with all frames shows what it is a copy of. -/
theorem caught_up (h : Behind codec t log log.length v w) : SameView (v.settle t) (w.settle t) := by
  obtain ⟨-, sent, -, drop, leads⟩ := h
  cases sent with
  | nil => exact leads
  | cons m sent => simp at drop

/-- A store that is behind executes the frames it lacks, and shows what it is a copy of. -/
theorem replay {envs : ℕ → Env} {s : KeyValueStore} (h : Behind codec t log p (s.live t) w)
    (uncapped : s.Uncapped) (checkpoint : ℕ) (clock : Monotone fun i => (envs i).now)
    (le : t ≤ (envs 0).now) :
    ∃ n store, replayAofFromCheckpoint codec envs (log.drop p).flatten checkpoint s = .ok (n, store) ∧
      store.Uncapped ∧
      ∀ later, (envs n).now ≤ later → SameView (store.live later) (w.settle later) := by
  obtain ⟨-, sent, decodable, drop, leads⟩ := h
  obtain ⟨store, executed, uncapped', same⟩ :=
    executeValues_leadsTo decodable clock (n := 0) uncapped leads le
  rw [Nat.zero_add] at executed same
  have fits : ∀ f ∈ sent.map Mutation.parts, Fits f := by
    intro f hf
    obtain ⟨m, hm, rfl⟩ := List.mem_map.mp hf
    exact (decodable m hm).2
  have file : (log.drop p).flatten = fileOf (sent.map Mutation.parts) ++ [] := by
    rw [drop, List.append_nil, fileOf, List.flatMap_map, List.flatMap_def]
  have replayed := replayAof_file codec envs checkpoint s fits (.inl rfl : Unfinished [])
  rw [resumed_parts, commandsOf_parts, executed, ← file] at replayed
  refine ⟨sent.length, store, ?_, uncapped', same⟩
  cases result : replayAofFromCheckpoint codec envs (log.drop p).flatten checkpoint s with
  | error e =>
    rw [result] at replayed
    cases replayed
  | ok r =>
    rw [result] at replayed
    exact congrArg Except.ok (Option.some.inj replayed)

end Behind

end Recached
