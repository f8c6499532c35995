import Recached.Account
import Recached.Logged

/-!
# Replicas of a store with limits

A store with limits evicts keys before a write and after it, and its replicas delete all of them after
the write.  This shows the same unless the write itself writes a key that was evicted before it.
-/

namespace Recached

open Text Lapse

variable {codec : Codec} {env : Env} {cmd : Command} {s : KeyValueStore} {v w : View}

/-! ## Executing frames -/

/-- A store that executes the frames one after the other shows the view. -/
def BringsTo (codec : Codec) (env : Env) (frames : List Bytes) (s : KeyValueStore) (v : View) : Prop :=
  ∃ cmds : List Command, frames.map decodeFrame = cmds.map some ∧
    SameView ((cmds.foldl (fun s c => (execute codec env c s).2) s).live env.now) v

/-- What is shown after the frame of the mutation, if there is one. -/
def afterFrame (codec : Codec) (env : Env) (m : Option Mutation) (v : View) : View :=
  match m with
  | some m => (perform codec env m.wire.toCommand v).2
  | none => v

theorem bringsTo_mutations (codec : Codec) (env : Env) (ms : List Mutation) (s : KeyValueStore)
    (v : View) : BringsTo codec env (ms.map fun m => respPush m.parts) s v ↔
      (∀ m ∈ ms, m.Decodable) ∧
        SameView ((ms.foldl (fun s m => (execute codec env m.wire.toCommand s).2) s).live env.now) v := by
  have decodes : ∀ cmds : List Command,
      (ms.map fun m => respPush m.parts).map decodeFrame = cmds.map some ↔
        (∀ m ∈ ms, m.Decodable) ∧ cmds = ms.map fun m => m.wire.toCommand := by
    induction ms with
    | nil => rintro (_ | ⟨c, cmds⟩) <;> simp
    | cons m ms ih =>
      rintro (_ | ⟨c, cmds⟩)
      · simp
      · rw [List.map_cons, List.map_cons, List.map_cons, List.map_cons, List.cons_eq_cons,
          m.decodeFrame_parts, ih, List.forall_mem_cons, List.cons_eq_cons]
        exact and_and_and_comm
  simp only [BringsTo, decodes]
  constructor
  · rintro ⟨_, ⟨decodable, rfl⟩, same⟩
    rw [List.foldl_map] at same
    exact ⟨decodable, same⟩
  · rintro ⟨decodable, same⟩
    refine ⟨_, ⟨decodable, rfl⟩, ?_⟩
    rwa [List.foldl_map]

theorem live_mutation (codec : Codec) (env : Env) (m : Option Mutation) (uncapped : s.Uncapped) :
    (m.toList.foldl (fun s m => (execute codec env m.wire.toCommand s).2) s).live env.now =
        afterFrame codec env m (s.live env.now) ∧
      (m.toList.foldl (fun s m => (execute codec env m.wire.toCommand s).2) s).Uncapped := by
  cases m with
  | none => exact ⟨rfl, uncapped⟩
  | some m =>
    obtain ⟨-, view, still⟩ := execute_mutation codec env m.wire uncapped
    rw [← m.wire.perform_eq codec env] at view
    exact ⟨view, still⟩

theorem live_deletions (codec : Codec) (env : Env) (victims : List String) (uncapped : s.Uncapped) :
    ((victims.map fun key => Mutation.del [key]).foldl
      (fun s m => (execute codec env m.wire.toCommand s).2) s).live env.now =
        without victims (s.live env.now) := by
  induction victims generalizing s with
  | nil => exact (without_nil _).symm
  | cons key victims ih =>
    obtain ⟨view, still⟩ := live_mutation codec env (some (.del [key])) uncapped
    have gone : (perform codec env (Mutation.del [key]).wire.toCommand (s.live env.now)).2 =
        without [key] (s.live env.now) :=
      funext fun k => eval_delKeys env.now [key] 0 _ k fun k => settle_live _ _ k
    rw [List.map_cons, List.foldl_cons, show key :: victims = [key] ++ victims from rfl, without_append,
      ← gone]
    exact (ih still).trans (congrArg (without victims) view)

/-- A replica without limits executes the frame of a write and the deletions. -/
theorem bringsTo_framesOf {reply : Value} (text : ReplyIsText cmd reply) (victims : List String)
    (uncapped : s.Uncapped) :
    BringsTo codec env (framesOf cmd reply env.now victims) s v ↔
      (∀ m ∈ absolute env.now reply cmd, m.Decodable) ∧
        (∀ key ∈ victims, (Mutation.del [key]).Decodable) ∧
          SameView (without victims
            (afterFrame codec env (absolute env.now reply cmd) (s.live env.now))) v := by
  have frames : framesOf cmd reply env.now victims =
      ((absolute env.now reply cmd).toList ++ victims.map fun key => Mutation.del [key]).map
        fun m => respPush m.parts := by
    rw [framesOf, broadcastFor_eq text, List.map_append, List.map_map]
    cases absolute env.now reply cmd <;> rfl
  obtain ⟨view, still⟩ := live_mutation codec env (absolute env.now reply cmd) uncapped
  rw [frames, bringsTo_mutations, List.foldl_append, live_deletions codec env victims still, view,
    List.forall_mem_append, List.forall_mem_map, and_assoc]
  simp only [Option.mem_toList, Option.mem_def]

/-! ## The store with limits -/

theorem scope_of_write (write : isWriteCommand cmd = true) : mutationScope cmd ≠ .readOnly := by
  intro reads
  induction cmd with
  | dedup client id inner ih => exact ih write reads
  | _ => first | (cases reads; done) | cases write

/-- The keys that a write evicts after it has been carried out. -/
def evictedAfter (codec : Codec) (env : Env) (cmd : Command) (s : KeyValueStore) : List String :=
  (executeReporting codec env cmd s).2.2.drop (makeRoom env cmd s).2.2.length

/-- What a store shows when it has made room for a command. -/
def roomed (env : Env) (cmd : Command) (s : KeyValueStore) : View :=
  without (makeRoom env cmd s).2.2 (s.live env.now)

/-- A write that succeeds does what it does to the keys that are left when room has been made. -/
structure CarriedOut (codec : Codec) (env : Env) (cmd : Command) (s : KeyValueStore) : Prop where
  victims : (executeReporting codec env cmd s).2.2 =
    (makeRoom env cmd s).2.2 ++ evictedAfter codec env cmd s
  reply : (executeReporting codec env cmd s).1 = (perform codec env cmd (roomed env cmd s)).1
  view : (executeReporting codec env cmd s).2.1.live env.now =
    without (evictedAfter codec env cmd s) (perform codec env cmd (roomed env cmd s)).2

theorem carriedOut_of_succeeds (write : isWriteCommand cmd = true)
    (succeeds : (executeReporting codec env cmd s).1.isError = false) : CarriedOut codec env cmd s := by
  suffices parts : ∃ post, (executeReporting codec env cmd s).2.2 = (makeRoom env cmd s).2.2 ++ post ∧
      (executeReporting codec env cmd s).1 = (perform codec env cmd (roomed env cmd s)).1 ∧
      (executeReporting codec env cmd s).2.1.live env.now =
        without post (perform codec env cmd (roomed env cmd s)).2 by
    obtain ⟨post, victims, reply, view⟩ := parts
    have after : evictedAfter codec env cmd s = post := by
      rw [evictedAfter, victims, List.drop_left]
    exact ⟨after.symm ▸ victims, reply, after.symm ▸ view⟩
  have books := executeReporting_books codec env cmd s
  generalize executeReporting codec env cmd s = r at books succeeds ⊢
  obtain ⟨reply, s', victims⟩ := r
  cases books with
  | looked scope _ => exact absurd scope (scope_of_write write)
  | rebuilt | refused | full => cases succeeds
  | flushed flush =>
    subst flush
    refine ⟨[], ?_, rfl, ?_⟩
    · rw [makeRoom_of_not_capped env s rfl (by rintro _ ⟨⟩)]
      rfl
    · rw [without_nil]
      funext k
      simp [KeyValueStore.live, Lapse.live, perform, program, Prog.eval]
  | wrote _ made _ chain _ =>
    have live : Lapse.live env.now (makeRoom env cmd s).2.1.data = roomed env cmd s :=
      makeRoom_evicts.live env.now
    refine ⟨_, rfl, ?_, ?_⟩
    · rw [Prog.run_fst, live]
      rfl
    · rw [chain.evicts.live, KeyValueStore.live, KeyValueStore.commit_data, live_run, live]
      rfl

/-! ## The keys that are left -/

/-- The command answers alike on two views, and leaves them alike where they are. -/
structure Agrees (codec : Codec) (env : Env) (cmd : Command) (v w : View) : Prop where
  reply : (perform codec env cmd v).1 = (perform codec env cmd w).1
  cell : ∀ k, v k = w k → (perform codec env cmd v).2 k = (perform codec env cmd w).2 k

theorem agrees_of_one {key : String} {act : Act} (one : program codec env cmd = .one key act)
    (same : v key = w key) : Agrees codec env cmd v w := by
  refine ⟨?_, fun k agree => ?_⟩
  · rw [perform_one one, perform_one one, same]
  · rw [perform_one one, perform_one one]
    dsimp only
    by_cases own : k = key
    · subst own
      rw [Function.update_self, Function.update_self, same]
    · rw [Function.update_of_ne own, Function.update_of_ne own, agree]

theorem agrees_mSet (codec : Codec) (env : Env) (pairs : List (String × Bytes)) (v w : View) :
    Agrees codec env (.mSet pairs) v w := by
  refine ⟨?_, fun k agree => ?_⟩
  · rw [perform, perform, program, eval_mSetPairs, eval_mSetPairs]
  · rw [perform, perform, program]
    induction pairs generalizing v w with
    | nil => exact agree
    | cons pair pairs ih =>
      refine ih _ _ ?_
      by_cases own : k = pair.1
      · subst own
        rw [Function.update_self, Function.update_self]
        rfl
      · rw [Function.update_of_ne own, Function.update_of_ne own, agree]

theorem mSet_eq_none_iff (t : ℕ) (pairs : List (String × Bytes)) (v : View) (k : String) :
    ((mSetPairs pairs).eval t v).2 k = none ↔ k ∉ pairs.map Prod.fst ∧ v k = none := by
  induction pairs generalizing v with
  | nil => simp [mSetPairs]
  | cons pair pairs ih =>
    refine (ih _).trans ?_
    by_cases own : k = pair.1
    · subst own
      rw [Function.update_self]
      simp [Lapse.settle, Lapse.Cell.isExpired]
    · rw [Function.update_of_ne own]
      simp [own]

/-- A command that evicts keys to make room sets one other key, or is `MSET`. -/
theorem makeRoom_sorts (env : Env) (cmd : Command) (s : KeyValueStore) :
    (makeRoom env cmd s).2.2 = [] ∨ (∃ key, cappedKey cmd = some key) ∨ ∃ pairs, cmd = .mSet pairs := by
  by_cases several : ∃ pairs, cmd = .mSet pairs
  · exact .inr (.inr several)
  · cases capped : cappedKey cmd with
    | some key => exact .inr (.inl ⟨key, rfl⟩)
    | none =>
      rw [makeRoom_of_not_capped env s capped fun pairs eq => absurd ⟨pairs, eq⟩ several]
      exact .inl rfl

theorem program_of_capped (codec : Codec) (env : Env) {key : String}
    (capped : cappedKey cmd = some key) : ∃ act, program codec env cmd = .one key act := by
  cases cmd <;> cases capped <;> exact ⟨_, rfl⟩

theorem outcome_of_capped {key : String} (capped : cappedKey cmd = some key) {m : Mutation}
    (form : outcome codec env cmd v = some m) :
    ∃ act, program codec env m.wire.toCommand = .one key act := by
  cases cmd <;> cases capped
  case set | setNx =>
    obtain rfl := eq_of_when form
    exact ⟨_, rfl⟩
  all_goals
    obtain rfl := Option.some.inj form
    exact ⟨_, rfl⟩

theorem roomed_eq {key : String} (spared : key ∉ (makeRoom env cmd s).2.2) :
    roomed env cmd s key = s.live env.now key :=
  if_neg spared

theorem roomed_of_evicted {key : String} (evicted : key ∈ (makeRoom env cmd s).2.2) :
    roomed env cmd s key = none :=
  if_pos evicted

theorem roomed_capped {key : String} (capped : cappedKey cmd = some key) :
    roomed env cmd s key = s.live env.now key :=
  roomed_eq fun evicted => makeRoom_capped_other capped evicted rfl

/-- Making room does not change what a command does to the other keys. -/
theorem agrees_roomed (codec : Codec) (env : Env) (cmd : Command) (s : KeyValueStore) :
    Agrees codec env cmd (roomed env cmd s) (s.live env.now) := by
  obtain none | ⟨key, capped⟩ | ⟨pairs, rfl⟩ := makeRoom_sorts env cmd s
  · rw [roomed, none, without_nil]
    exact ⟨rfl, fun _ _ => rfl⟩
  · obtain ⟨act, one⟩ := program_of_capped codec env capped
    exact agrees_of_one one (roomed_capped capped)
  · exact agrees_mSet codec env pairs _ _

theorem afterFrame_roomed {k : String} (spared : k ∉ (makeRoom env cmd s).2.2) :
    afterFrame codec env (outcome codec env cmd (s.live env.now)) (roomed env cmd s) k =
      afterFrame codec env (outcome codec env cmd (s.live env.now)) (s.live env.now) k := by
  cases form : outcome codec env cmd (s.live env.now) with
  | none => exact roomed_eq spared
  | some m =>
    refine Agrees.cell ?_ k (roomed_eq spared)
    obtain none | ⟨key, capped⟩ | ⟨pairs, rfl⟩ := makeRoom_sorts env cmd s
    · rw [roomed, none, without_nil]
      exact ⟨rfl, fun _ _ => rfl⟩
    · obtain ⟨act, one⟩ := outcome_of_capped capped form
      exact agrees_of_one one (roomed_capped capped)
    · obtain rfl := Option.some.inj form
      exact agrees_mSet codec env pairs _ _

/-- A key that was evicted to make room is not there after the command, unless `MSET` sets it. -/
theorem evicted_eq_none_iff {k : String} (evicted : k ∈ (makeRoom env cmd s).2.2) :
    (perform codec env cmd (roomed env cmd s)).2 k = none ↔
      ∀ pairs, cmd = .mSet pairs → k ∉ pairs.map Prod.fst := by
  obtain none | ⟨key, capped⟩ | ⟨pairs, rfl⟩ := makeRoom_sorts env cmd s
  · rw [none] at evicted
    cases evicted
  · obtain ⟨act, one⟩ := program_of_capped codec env capped
    rw [perform_one one]
    dsimp only
    rw [Function.update_of_ne (makeRoom_capped_other capped evicted), roomed_of_evicted evicted]
    refine iff_of_true rfl ?_
    rintro pairs rfl
    cases capped
  · rw [perform, program, mSet_eq_none_iff, roomed_of_evicted evicted]
    simp

theorem kept_roomed : Kept env cmd (roomed env cmd s) ↔ Kept env cmd (s.live env.now) := by
  obtain none | ⟨key, capped⟩ | ⟨pairs, rfl⟩ := makeRoom_sorts env cmd s
  · rw [roomed, none, without_nil]
  · have same : roomed env cmd s _ = s.live env.now _ := roomed_capped capped
    cases cmd
    case set =>
      cases capped
      rw [Kept, Kept, same]
    all_goals cases capped <;> exact .rfl
  · exact .rfl

theorem afterFrame_of_one {key : String} {act : Act} (one : program codec env cmd = .one key act)
    (sent : ∀ m ∈ outcome codec env cmd v, ∃ act, program codec env m.wire.toCommand = .one key act)
    {k : String} (other : k ≠ key) :
    afterFrame codec env (outcome codec env cmd v) v k = (perform codec env cmd v).2 k := by
  rw [perform_one one]
  dsimp only
  rw [Function.update_of_ne other]
  cases form : outcome codec env cmd v with
  | none => rfl
  | some m =>
    obtain ⟨act, one⟩ := sent m form
    rw [afterFrame, perform_one one]
    exact Function.update_of_ne other _ _

/-- What a frame loses, it loses at the only key of the command. -/
theorem lost_at_key (codec : Codec) (lost : ¬Kept env cmd v) : ∃ key, scopeKeys cmd = [key] ∧
    ∀ k, k ≠ key →
      afterFrame codec env (outcome codec env cmd v) v k = (perform codec env cmd v).2 k := by
  cases cmd
  case set key val opts =>
    refine ⟨key, rfl, fun k => afterFrame_of_one rfl fun m form => ?_⟩
    obtain rfl := eq_of_when form
    exact ⟨_, rfl⟩
  case sAdd key members =>
    refine ⟨key, rfl, fun k => afterFrame_of_one rfl fun m form => ?_⟩
    obtain rfl := eq_of_when form
    exact ⟨_, rfl⟩
  case zAdd key opts pairs | zIncrBy key delta member =>
    refine ⟨key, rfl, fun k => afterFrame_of_one rfl fun m form => ?_⟩
    obtain rfl := Option.some.inj form
    exact ⟨_, rfl⟩
  case rlCheck key config =>
    refine ⟨key, rfl, fun k => afterFrame_of_one rfl fun m form => ?_⟩
    cases form
  all_goals exact absurd trivial lost

/-! ## A write and its victims -/

/-- The absolute form of the write and the deletions pass the parser; what the form loses concerns a key
that is evicted; and a key that was evicted to make room for an `MSET` that sets it is evicted again. -/
structure Propagates (codec : Codec) (env : Env) (cmd : Command) (s : KeyValueStore) : Prop where
  form : ∀ m ∈ outcome codec env cmd (s.live env.now), m.Decodable
  deletions : ∀ key ∈ (executeReporting codec env cmd s).2.2, (Mutation.del [key]).Decodable
  kept : Kept env cmd (s.live env.now) ∨
    ∃ key ∈ scopeKeys cmd, key ∈ (executeReporting codec env cmd s).2.2
  again : ∀ pairs, cmd = .mSet pairs → ∀ key ∈ (makeRoom env cmd s).2.2, key ∈ pairs.map Prod.fst →
    key ∈ evictedAfter codec env cmd s

theorem sameView_without_iff {pre post : List String} : SameView (without (pre ++ post) v) (without post w) ↔
    (∀ k ∈ pre, k ∉ post → w k = none) ∧ ∀ k ∉ pre ++ post, config (v k) = config (w k) := by
  constructor
  · intro same
    refine ⟨fun k before after => ?_, fun k neither => ?_⟩
    · have gone := same k
      rw [without, without, if_pos (List.mem_append_left post before), if_neg after] at gone
      exact (Option.map_eq_none_iff.mp gone.symm)
    · have kept := same k
      rwa [without, without, if_neg neither, if_neg fun after => neither (List.mem_append_right pre after)]
        at kept
  · rintro ⟨gone, kept⟩ k
    unfold without
    split_ifs with evicted after after
    · rfl
    · obtain before | after' := List.mem_append.mp evicted
      · rw [gone k before after]
      · exact absurd after' after
    · exact absurd (List.mem_append_right pre after) evicted
    · exact kept k evicted

/-- The frame agrees with the write outside the victims exactly if nothing is lost elsewhere. -/
theorem agree_outside_iff (write : isWriteCommand cmd = true) (live : ∀ k, settle env.now (v k) = v k)
    (ok : (perform codec env cmd v).1.isError = false) (victims : List String) :
    (∀ k ∉ victims, config (afterFrame codec env (outcome codec env cmd v) v k) =
      config ((perform codec env cmd v).2 k)) ↔ Kept env cmd v ∨ ∃ key ∈ scopeKeys cmd, key ∈ victims := by
  have mirrored : SameView (afterFrame codec env (outcome codec env cmd v) v) (perform codec env cmd v).2 ↔
      Kept env cmd v := by
    rw [← mirrored_iff live write ok, Mirrored]
    cases outcome codec env cmd v with
    | none => exact ⟨.symm, .symm⟩
    | some m => exact .rfl
  by_cases kept : Kept env cmd v
  · exact iff_of_true (fun k _ => mirrored.mpr kept k) (.inl kept)
  · obtain ⟨key, own, elsewhere⟩ := lost_at_key codec kept
    rw [own]
    constructor
    · intro outside
      refine .inr ⟨key, List.mem_singleton.mpr rfl, ?_⟩
      by_contra spared
      refine kept (mirrored.mp fun k => ?_)
      by_cases same : k = key
      · exact same ▸ outside key spared
      · rw [elsewhere k same]
    · rintro (h | ⟨_, mem, evicted⟩) k spared
      · exact absurd h kept
      · obtain rfl := List.mem_singleton.mp mem
        rw [elsewhere k fun same => spared (same ▸ evicted)]

theorem sameView_without_left {keys : List String} {m : Option Mutation} {u : View} (same : SameView v w) :
    SameView (without keys (afterFrame codec env m v)) u ↔
      SameView (without keys (afterFrame codec env m w)) u := by
  have after : SameView (afterFrame codec env m v) (afterFrame codec env m w) := by
    cases m with
    | none => exact same
    | some m => exact perform_sameView codec env m.wire.toCommand same
  have left : SameView (without keys (afterFrame codec env m v))
      (without keys (afterFrame codec env m w)) := by
    intro k
    unfold without
    split_ifs
    · rfl
    · exact after k
  exact ⟨left.symm.trans, left.trans⟩

/-- The frames of a successful write show what the write and its evictions leave exactly if nothing else is
lost, and no key that was evicted to make room is set after all. -/
theorem shown_iff (write : isWriteCommand cmd = true)
    (succeeds : (executeReporting codec env cmd s).1.isError = false) :
    SameView (without (executeReporting codec env cmd s).2.2
        (afterFrame codec env (outcome codec env cmd (s.live env.now)) (s.live env.now)))
        ((executeReporting codec env cmd s).2.1.live env.now) ↔
      (Kept env cmd (s.live env.now) ∨
        ∃ key ∈ scopeKeys cmd, key ∈ (executeReporting codec env cmd s).2.2) ∧
      ∀ pairs, cmd = .mSet pairs → ∀ key ∈ (makeRoom env cmd s).2.2, key ∈ pairs.map Prod.fst →
        key ∈ evictedAfter codec env cmd s := by
  obtain ⟨victims, reply, view⟩ := carriedOut_of_succeeds write succeeds
  have form : outcome codec env cmd (roomed env cmd s) = outcome codec env cmd (s.live env.now) := by
    rw [outcome, outcome, (agrees_roomed codec env cmd s).reply]
  have live : ∀ k, settle env.now (roomed env cmd s k) = roomed env cmd s k := by
    intro k
    rw [roomed, ← makeRoom_evicts.live env.now]
    exact settle_live _ _ k
  have shown := @sameView_without_iff
    (afterFrame codec env (outcome codec env cmd (s.live env.now)) (s.live env.now))
    (perform codec env cmd (roomed env cmd s)).2 (makeRoom env cmd s).2.2 (evictedAfter codec env cmd s)
  rw [← victims, ← view] at shown
  rw [shown, and_comm]
  refine and_congr ?_ ?_
  · refine Iff.trans (forall₂_congr fun k spared => ?_) ((agree_outside_iff write live (reply ▸ succeeds)
      (executeReporting codec env cmd s).2.2).trans (or_congr_left kept_roomed))
    have before : k ∉ (makeRoom env cmd s).2.2 := by
      intro before
      exact spared (victims ▸ List.mem_append_left _ before)
    rw [form, afterFrame_roomed before]
  · constructor
    · intro gone pairs eq key before own
      by_contra spared
      exact (evicted_eq_none_iff before).mp (gone key before spared) pairs eq own
    · intro again k before spared
      exact (evicted_eq_none_iff before).mpr fun pairs eq own => spared (again pairs eq k before own)

/-- A replica without limits that shows what the server shows still does so when it has executed the
frames of a successful write, exactly if the write propagates. -/
theorem victims_propagate_iff (codec : Codec) (env : Env) (origin : ℕ) {st : ServerState}
    (accepts : st.Accepts cmd) (write : isWriteCommand (ServerState.unwrapDedup cmd).1 = true)
    (succeeds : (executeReporting codec env (ServerState.unwrapDedup cmd).1 st.store).1.isError = false)
    {replica : KeyValueStore} (uncapped : replica.Uncapped)
    (same : SameView (replica.live env.now) (st.store.live env.now)) :
    BringsTo codec env ((st.executeOrderedWrite codec env origin cmd).2.log.drop st.log.length) replica
        ((st.executeOrderedWrite codec env origin cmd).2.store.live env.now) ↔
      Propagates codec env (ServerState.unwrapDedup cmd).1 st.store := by
  obtain ⟨store, log⟩ := accepts.logs codec env origin
  generalize (ServerState.unwrapDedup cmd).1 = cmd at write succeeds store log ⊢
  have form : absolute env.now (executeReporting codec env cmd st.store).1 cmd =
      outcome codec env cmd (st.store.live env.now) := by
    rw [(carriedOut_of_succeeds write succeeds).reply, (agrees_roomed codec env cmd st.store).reply]
    rfl
  rw [log, List.drop_left, store, bringsTo_framesOf (replyIsText codec env cmd succeeds) _ uncapped, form,
    sameView_without_left same, shown_iff write succeeds]
  exact ⟨fun ⟨form, deletions, kept, again⟩ => ⟨form, deletions, kept, again⟩,
    fun ⟨form, deletions, kept, again⟩ => ⟨form, deletions, kept, again⟩⟩

/-- A `SET` on a full server evicts the other key. -/
theorem victims_propagate_iff_set :
    BringsTo .literals (.fixed 0)
      ((fullServer.executeOrderedWrite .literals (.fixed 0) 1 (.set "b" [118] {})).2.log.drop
        fullServer.log.length)
      (execute .literals (.fixed 0) (.set "a" [118] {}) {}).2
      ((fullServer.executeOrderedWrite .literals (.fixed 0) 1 (.set "b" [118] {})).2.store.live 0) := by
  refine Iff.mpr (victims_propagate_iff .literals (.fixed 0) 1 ⟨rfl, fun _ none => by cases none⟩ rfl rfl
    ⟨rfl, rfl⟩ fun k => rfl) ⟨?_, ?_, .inl nofun, nofun⟩
  · rintro m ⟨⟩
    exact ((Mutation.decodeFrame_parts _ _).mp rfl).1
  · intro key evicted
    obtain rfl := List.mem_singleton.mp evicted
    exact ((Mutation.decodeFrame_parts _ _).mp rfl).1

/-- An `MSET` on a full server evicts a key that it sets, and the replica deletes it in the end. -/
theorem mSet_loses_own_key :
    fromValue (arrayOf [bulk "MSET", bulk "a", bulk "1", bulk "b", bulk "2"]) =
        .ok (.mSet [("a", asBytes "1"), ("b", asBytes "2")]) ∧
      (fullServer.executeOrderedWrite .literals (.fixed 0) 1
        (.mSet [("a", asBytes "1"), ("b", asBytes "2")])).1.isError = false ∧
      ¬BringsTo .literals (.fixed 0)
        ((fullServer.executeOrderedWrite .literals (.fixed 0) 1
          (.mSet [("a", asBytes "1"), ("b", asBytes "2")])).2.log.drop fullServer.log.length)
        (execute .literals (.fixed 0) (.set "a" [118] {}) {}).2
        ((fullServer.executeOrderedWrite .literals (.fixed 0) 1
          (.mSet [("a", asBytes "1"), ("b", asBytes "2")])).2.store.live 0) := by
  refine ⟨rfl, rfl, fun ⟨cmds, decoded, same⟩ => ?_⟩
  obtain rfl : cmds = [.mSet [("a", asBytes "1"), ("b", asBytes "2")], .del ["a"]] :=
    List.map_injective_iff.mpr (Option.some_injective _) (decoded.symm.trans rfl)
  exact absurd (congrArg Option.isSome (same "a")) (by decide)

end Recached
