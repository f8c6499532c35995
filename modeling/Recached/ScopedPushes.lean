import Recached.Confinement
import Recached.Coverage

/-!
# What a connection with scopes is sent

A connection with scopes is sent the frame of a write as soon as one of its keys is in scope, and the
frame has all of them.  As long as no write has keys both in scope and outside, and nothing is evicted,
what the connection is sent neither names a key outside its scopes nor depends on one.
-/

namespace Recached

open Text Lapse

variable {codec : Codec} {env : Env} {origin : ℕ} {cmd : Command} {scopes : List String}

def InScope (scopes : List String) (key : String) : Prop :=
  (scopes.any fun pattern => globMatch pattern key) = true

instance (scopes : List String) (key : String) : Decidable (InScope scopes key) :=
  inferInstanceAs (Decidable (_ = true))

/-- All keys that a command names. -/
def named (cmd : Command) : List String := (commandScope cmd).listed

def Inside (scopes : List String) (cmd : Command) : Prop := ∀ key ∈ named cmd, InScope scopes key

def Outside (scopes : List String) (cmd : Command) : Prop :=
  named cmd ≠ [] ∧ ∀ key ∈ named cmd, ¬InScope scopes key

/-- The frames that the push filter lets through. -/
def deliveries (strict : Bool) (scopes : List String) (connId : ℕ) (pushes : List SyncPush) :
    List Bytes :=
  (pushes.filter (pushVisible strict (some scopes) connId)).map SyncPush.resp

/-- The server executes writes one after the other. -/
inductive Writes (codec : Codec) : ServerState → List (Env × ℕ × Command) → ServerState → Prop
  | nil (st : ServerState) : Writes codec st [] st
  | cons {env : Env} {origin : ℕ} {cmd : Command} {st st' st'' : ServerState}
    {rest : List (Env × ℕ × Command)} (executes : st.Executes codec env origin cmd st')
    (write : isWriteCommand cmd = true) (writes : Writes codec st' rest st'') :
    Writes codec st ((env, origin, cmd) :: rest) st''

/-- The writes are the same, or both are outside. -/
def AlikeInside (scopes : List String) (w w' : Env × ℕ × Command) : Prop :=
  w = w' ∨ Outside scopes w.2.2 ∧ Outside scopes w'.2.2

/-- The entries in scope are the same. -/
def AgreeInside (scopes : List String) (s s' : KeyValueStore) : Prop :=
  ∀ k, InScope scopes k → s.data[k]? = s'.data[k]?

/-! ## The keys of a frame -/

theorem scopesMatch_iff {keys : List String} :
    scopesMatch scopes keys = true ↔ keys = [] ∨ ∃ key ∈ keys, InScope scopes key := by
  simp [scopesMatch, InScope, List.isEmpty_iff]

theorem primary_named {key : String} (primary : key ∈ primaryKeys cmd) : key ∈ named cmd := by
  induction cmd with
  | dedup client id inner ih => exact ih primary
  | _ => simp_all [primaryKeys, named, commandScope, CommandScope.listed]

/-- A write that names keys and sends a frame has primary keys. -/
theorem primary_ne_nil {reply : Value} {now : ℕ} {m : Mutation} (names : named cmd ≠ [])
    (form : absolute now reply cmd = some m) : primaryKeys cmd ≠ [] := by
  cases cmd
  case dedup => cases form
  all_goals first
    | exact List.cons_ne_nil _ _
    | exact names
    | exact absurd rfl names
    | cases form

theorem named_absolute {reply : Value} {now : ℕ} {m : Mutation}
    (form : absolute now reply cmd = some m) {key : String} (hk : key ∈ named m.toCommand) :
    key ∈ named cmd := by
  cases cmd
  case incr | decr | incrBy | decrBy | hIncrBy | hIncrByFloat =>
    unfold absolute at form
    dsimp only at form
    split at form
    · obtain rfl := Option.some.inj form
      exact hk
    · cases form
  all_goals first
    | (obtain rfl := eq_of_when form; exact hk)
    | (obtain rfl := Option.some.inj form; exact hk)
    | cases form

/-! ## One write -/

/-- What a server without limits does with a write. -/
theorem executes_uncapped {st st' : ServerState} (executes : st.Executes codec env origin cmd st')
    (write : isWriteCommand cmd = true) (uncapped : st.store.Uncapped) :
    st'.store.Uncapped ∧
      st'.store.data = ((program codec env cmd).run env.now st.store.data).2 ∧
      st.newPushes st' =
        pushesOf cmd ((program codec env cmd).run env.now st.store.data).1 env.now origin [] := by
  obtain ⟨store, pushes⟩ := executes.spec
  have runs := executeReporting_uncapped codec env cmd uncapped
  rw [store, pushes, runs.evicted, runs.reply (direct_of_write write)]
  exact ⟨runs.uncapped, runs.data, rfl⟩

theorem executes_pushes {st st' : ServerState} (executes : st.Executes codec env origin cmd st') :
    st'.pushes = st.pushes ++ st.newPushes st' := by
  obtain ⟨-, pushes⟩ := executes.spec
  rw [pushes]
  cases executes with
  | queued => exact executeQueuedWrite_pushes ..
  | ordered accepts =>
    obtain same | committed := accepts.executeOrderedWrite codec env origin
    · rw [same, executeQueuedWrite_pushes]
    · rw [committed, commitWrite_pushes, executeQueuedWrite_pushes]

/-- A write outside the scopes is not sent. -/
theorem deliveries_outside (strict : Bool) (connId : ℕ) {reply : Value} (text : ReplyIsText cmd reply)
    (outside : Outside scopes cmd) (now origin : ℕ) :
    deliveries strict scopes connId (pushesOf cmd reply now origin []) = [] := by
  rw [deliveries, List.map_eq_nil_iff, List.filter_eq_nil_iff]
  intro push sent visible
  obtain ⟨m, form, rfl⟩ | ⟨k, hk, -⟩ := (mem_pushesOf text).mp sent
  · obtain ⟨-, shown⟩ := Bool.and_eq_true_iff.mp visible
    obtain none | ⟨key, primary, inside⟩ := scopesMatch_iff.mp shown
    · exact primary_ne_nil outside.1 form none
    · exact outside.2 key (primary_named primary) inside
  · cases hk

theorem run_outside (outside : Outside scopes cmd) (now : ℕ) (d : Data) {k : String}
    (hk : InScope scopes k) : ((program codec env cmd).run now d).2[k]? = d[k]? := by
  have notFlush : cmd ≠ .flushDb := by
    rintro rfl
    exact outside.1 rfl
  exact Prog.run_frame (program_on codec env notFlush) now d fun named => outside.2 k named hk

/-- A write inside the scopes does the same to entries that agree inside. -/
theorem run_inside (inside : Inside scopes cmd) (now : ℕ) {d d' : Data}
    (agree : ∀ k, InScope scopes k → d[k]? = d'[k]?) :
    ((program codec env cmd).run now d).1 = ((program codec env cmd).run now d').1 ∧
      ∀ k, InScope scopes k →
        ((program codec env cmd).run now d).2[k]? = ((program codec env cmd).run now d').2[k]? := by
  by_cases flush : cmd = .flushDb
  · subst flush
    exact ⟨rfl, fun _ _ => rfl⟩
  · have on := program_on codec env flush
    obtain ⟨reply, entries⟩ := Prog.run_agree on now fun k hk => agree k (inside k hk)
    refine ⟨reply, fun k hk => ?_⟩
    by_cases own : k ∈ named cmd
    · exact entries k own
    · rw [Prog.run_frame on now d own, Prog.run_frame on now d' own, agree k hk]

/-! ## Runs -/

/-- A write without a wrapper, for a connection. -/
theorem Writes.ordered {st st' : ServerState} {rest : List (Env × ℕ × Command)}
    (healthy : st.persistenceHealthy = true) (plain : ServerState.unwrapDedup cmd = (cmd, none))
    (write : isWriteCommand cmd = true)
    (writes : Writes codec (st.executeOrderedWrite codec env origin cmd).2 rest st') :
    Writes codec st ((env, origin, cmd) :: rest) st' := by
  have accepts : st.Accepts cmd := ⟨healthy, fun w hw => by rw [plain] at hw; cases hw⟩
  have executes : st.Executes codec env origin (ServerState.unwrapDedup cmd).1
      (st.executeOrderedWrite codec env origin cmd).2 := .ordered accepts
  rw [plain] at executes
  exact .cons executes write writes

theorem writes_pushes {st st' : ServerState} {ws : List (Env × ℕ × Command)}
    (run : Writes codec st ws st') : st'.pushes = st.pushes ++ st.newPushes st' := by
  induction run with
  | nil st => simp [ServerState.newPushes]
  | cons executes _ _ ih =>
    rw [ServerState.newPushes, ih, executes_pushes executes, List.append_assoc, List.drop_left]

theorem deliveries_cons (strict : Bool) (connId : ℕ) {st st' st'' : ServerState}
    {rest : List (Env × ℕ × Command)} (executes : st.Executes codec env origin cmd st')
    (run : Writes codec st' rest st'') :
    deliveries strict scopes connId (st.newPushes st'') =
      deliveries strict scopes connId (st.newPushes st') ++
        deliveries strict scopes connId (st'.newPushes st'') := by
  have all : st.newPushes st'' = st.newPushes st' ++ st'.newPushes st'' := by
    rw [ServerState.newPushes, writes_pushes run, executes_pushes executes, List.append_assoc,
      List.drop_left]
  rw [all, deliveries, List.filter_append, List.map_append]
  rfl

/-- One write of each of two runs. -/
theorem deliveries_step (strict : Bool) (connId : ℕ) {env' : Env} {origin' : ℕ} {cmd' : Command}
    {st₁ st₁' st₂ st₂' : ServerState} (executes₁ : st₁.Executes codec env origin cmd st₁')
    (executes₂ : st₂.Executes codec env' origin' cmd' st₂') (write₁ : isWriteCommand cmd = true)
    (write₂ : isWriteCommand cmd' = true) (uncapped₁ : st₁.store.Uncapped)
    (uncapped₂ : st₂.store.Uncapped)
    (alike : AlikeInside scopes (env, origin, cmd) (env', origin', cmd'))
    (agree : AgreeInside scopes st₁.store st₂.store) (whole : Inside scopes cmd ∨ Outside scopes cmd) :
    AgreeInside scopes st₁'.store st₂'.store ∧
      deliveries strict scopes connId (st₁.newPushes st₁') =
        deliveries strict scopes connId (st₂.newPushes st₂') ∧
      ∀ bytes ∈ deliveries strict scopes connId (st₁.newPushes st₁'),
        ∃ m : Mutation, bytes = respPush m.parts ∧ Inside scopes m.toCommand := by
  obtain ⟨-, data₁, pushes₁⟩ := executes_uncapped executes₁ write₁ uncapped₁
  obtain ⟨-, data₂, pushes₂⟩ := executes_uncapped executes₂ write₂ uncapped₂
  have text₁ := replyIsText_run codec env cmd st₁.store.data
  have text₂ := replyIsText_run codec env' cmd' st₂.store.data
  unfold AgreeInside
  rw [data₁, data₂, pushes₁, pushes₂]
  obtain ⟨outside, outside'⟩ | ⟨rfl, rfl, rfl, inside⟩ : Outside scopes cmd ∧ Outside scopes cmd' ∨
      env = env' ∧ origin = origin' ∧ cmd = cmd' ∧ Inside scopes cmd := by
    obtain same | apart := alike
    · obtain ⟨rfl, rfl, rfl⟩ : env = env' ∧ origin = origin' ∧ cmd = cmd' := by simpa using same
      exact whole.symm.imp (fun outside => ⟨outside, outside⟩) fun inside => ⟨rfl, rfl, rfl, inside⟩
    · exact .inl apart
  · rw [deliveries_outside strict connId text₁ outside, deliveries_outside strict connId text₂ outside']
    refine ⟨fun k hk => ?_, rfl, fun bytes sent => absurd sent List.not_mem_nil⟩
    rw [run_outside outside _ _ hk, run_outside outside' _ _ hk, agree k hk]
  · obtain ⟨reply, entries⟩ := @run_inside codec env _ _ inside env.now _ _ agree
    refine ⟨entries, by rw [reply], fun bytes sent => ?_⟩
    obtain ⟨push, mem, rfl⟩ := List.mem_map.mp sent
    obtain ⟨m, form, rfl⟩ | ⟨k, hk, -⟩ := (mem_pushesOf text₁).mp (List.mem_filter.mp mem).1
    · exact ⟨m, rfl, fun key hk => inside key (named_absolute form hk)⟩
    · cases hk

/-- What a connection with scopes is sent names no other key, and two runs of which the writes and the
entries agree inside the scopes send it the same. -/
theorem deliveries_confined (codec : Codec) (strict : Bool) (scopes : List String) (connId : ℕ)
    {ws ws' : List (Env × ℕ × Command)} {st₁ st₁' st₂ st₂' : ServerState}
    (run₁ : Writes codec st₁ ws st₁') (run₂ : Writes codec st₂ ws' st₂')
    (alike : List.Forall₂ (AlikeInside scopes) ws ws') (agree : AgreeInside scopes st₁.store st₂.store)
    (uncapped₁ : st₁.store.Uncapped) (uncapped₂ : st₂.store.Uncapped)
    (whole : ∀ w ∈ ws, Inside scopes w.2.2 ∨ Outside scopes w.2.2) :
    deliveries strict scopes connId (st₁.newPushes st₁') =
        deliveries strict scopes connId (st₂.newPushes st₂') ∧
      ∀ bytes ∈ deliveries strict scopes connId (st₁.newPushes st₁'),
        ∃ m : Mutation, bytes = respPush m.parts ∧ Inside scopes m.toCommand := by
  induction run₁ generalizing st₂ ws' with
  | nil st =>
    cases alike
    cases run₂
    simp [ServerState.newPushes, deliveries]
  | @cons env origin cmd st st' st'' rest executes write run ih =>
    cases alike with
    | cons first others =>
      cases run₂ with
      | @cons env₂ origin₂ cmd₂ _ mid₂ _ rest₂ executes₂ write₂ run₂ =>
        obtain ⟨agree', same, within⟩ := deliveries_step strict connId executes executes₂ write write₂
          uncapped₁ uncapped₂ first agree (whole _ List.mem_cons_self)
        obtain ⟨sameRest, withinRest⟩ := ih run₂ others agree'
          (executes_uncapped executes write uncapped₁).1 (executes_uncapped executes₂ write₂ uncapped₂).1
          fun w hw => whole w (List.mem_cons_of_mem _ hw)
        rw [deliveries_cons strict connId executes run, deliveries_cons strict connId executes₂ run₂]
        refine ⟨congrArg₂ (· ++ ·) same sameRest, fun bytes sent => ?_⟩
        exact (List.mem_append.mp sent).elim (within bytes) (withinRest bytes)

/-- Two runs with a write inside the scopes, and another one outside. -/
theorem deliveries_confined_set :
    ∃ st st', Writes .literals { store := {} } [(.fixed 0, 1, .set "in:1" [118] {}),
          (.fixed 0, 1, .set "out:1" [97] {})] st ∧
        Writes .literals { store := {} } [(.fixed 0, 1, .set "in:1" [118] {}),
          (.fixed 0, 1, .set "out:2" [98] {})] st' ∧
      deliveries true ["in:*"] 2 (ServerState.newPushes { store := {} } st) =
          deliveries true ["in:*"] 2 (ServerState.newPushes { store := {} } st') ∧
        ∀ bytes ∈ deliveries true ["in:*"] 2 (ServerState.newPushes { store := {} } st),
          ∃ m : Mutation, bytes = respPush m.parts ∧ Inside ["in:*"] m.toCommand := by
  obtain ⟨st, run⟩ : ∃ st, Writes .literals { store := {} } [(.fixed 0, 1, .set "in:1" [118] {}),
      (.fixed 0, 1, .set "out:1" [97] {})] st :=
    ⟨_, .ordered rfl rfl rfl (.ordered rfl rfl rfl (.nil _))⟩
  obtain ⟨st', run'⟩ : ∃ st, Writes .literals { store := {} } [(.fixed 0, 1, .set "in:1" [118] {}),
      (.fixed 0, 1, .set "out:2" [98] {})] st :=
    ⟨_, .ordered rfl rfl rfl (.ordered rfl rfl rfl (.nil _))⟩
  have outside (key : String) (val : Bytes) (other : ¬InScope ["in:*"] key) :
      Outside ["in:*"] (.set key val {}) := ⟨nofun, fun k hk => List.mem_singleton.mp hk ▸ other⟩
  refine ⟨st, st', run, run', deliveries_confined .literals true ["in:*"] 2 run run'
    (.cons (.inl rfl) (.cons (.inr ⟨outside _ _ (by decide), outside _ _ (by decide)⟩) .nil))
    (fun _ _ => rfl) ⟨rfl, rfl⟩ ⟨rfl, rfl⟩ ?_⟩
  intro w hw
  obtain rfl | second := List.mem_cons.mp hw
  · exact .inl fun k hk => List.mem_singleton.mp hk ▸ by decide
  · obtain rfl := List.mem_singleton.mp second
    exact .inr (outside _ _ (by decide))

/-- An `MSET` of a key in scope and another one is sent as a whole. -/
theorem mSet_discloses :
    ∃ st st', Writes .literals { store := {} }
          [(.fixed 0, 1, .mSet [("in:1", [118]), ("out:2", [97])])] st ∧
        Writes .literals { store := {} } [(.fixed 0, 1, .mSet [("in:1", [118]), ("out:2", [98])])] st' ∧
      deliveries true ["in:*"] 2 (ServerState.newPushes { store := {} } st) ≠
          deliveries true ["in:*"] 2 (ServerState.newPushes { store := {} } st') ∧
        ∃ bytes ∈ deliveries true ["in:*"] 2 (ServerState.newPushes { store := {} } st),
          ∃ cmd, decodeFrame bytes = some cmd ∧ ∃ key ∈ named cmd, ¬InScope ["in:*"] key := by
  obtain ⟨st, run, sent⟩ : ∃ st, Writes .literals { store := {} }
      [(.fixed 0, 1, .mSet [("in:1", [118]), ("out:2", [97])])] st ∧
        deliveries true ["in:*"] 2 (ServerState.newPushes { store := {} } st) =
          [respPush (Mutation.mSet [("in:1", [118]), ("out:2", [97])]).parts] :=
    ⟨_, .ordered rfl rfl rfl (.nil _), rfl⟩
  obtain ⟨st', run', sent'⟩ : ∃ st, Writes .literals { store := {} }
      [(.fixed 0, 1, .mSet [("in:1", [118]), ("out:2", [98])])] st ∧
        deliveries true ["in:*"] 2 (ServerState.newPushes { store := {} } st) =
          [respPush (Mutation.mSet [("in:1", [118]), ("out:2", [98])]).parts] :=
    ⟨_, .ordered rfl rfl rfl (.nil _), rfl⟩
  refine ⟨st, st', run, run', ?_, ?_⟩
  · rw [sent, sent']
    decide
  · rw [sent]
    exact ⟨_, List.mem_cons_self, _, rfl, "out:2", by decide, by decide⟩

end Recached
