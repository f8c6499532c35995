import Recached.Notices
import Recached.Sync

/-!
# Which mutations reach the clients

The pushes that a write adds, whether a client applies them, and whether every connection without
scopes hears of the keys that its own client has not changed.
-/

namespace Recached

open Text

/-! ## The pushes of a write -/

namespace ServerState

/-- The ways in which a server executes a write: for a connection, and as part of a transaction. -/
inductive Executes (codec : Codec) (env : Env) (origin : ℕ) (st : ServerState) :
    Command → ServerState → Prop
  | ordered {cmd : Command} : st.Accepts cmd →
    Executes codec env origin st (unwrapDedup cmd).1 (st.executeOrderedWrite codec env origin cmd).2
  | queued {cmd : Command} :
    Executes codec env origin st cmd (st.executeQueuedWrite codec env origin cmd)

/-- The pushes that the server has added. -/
def newPushes (st st' : ServerState) : List SyncPush := st'.pushes.drop st.pushes.length

end ServerState

def deletionPush (origin : ℕ) (key : String) : SyncPush :=
  ⟨origin, [key], respPush (Mutation.del [key]).parts⟩

/-- The pushes of a write with these victims. -/
def pushesOf (cmd : Command) (reply : Value) (now origin : ℕ) (victims : List String) : List SyncPush :=
  (broadcastFor cmd reply now).toList.map (fun msg => ⟨origin, primaryKeys cmd, msg⟩) ++
    victims.map (deletionPush origin)

theorem applyWriteEffects_pushes (st : ServerState) (now origin : ℕ) (cmd : Command) (reply : Value) :
    (st.applyWriteEffects now origin cmd reply).pushes =
      st.pushes ++ pushesOf cmd reply now origin [] := by
  unfold ServerState.applyWriteEffects pushesOf
  cases broadcastFor cmd reply now <;> simp

theorem applyEvictionEffects_pushes (st : ServerState) (now origin : ℕ) (victims : List String) :
    (st.applyEvictionEffects now origin victims).pushes =
      st.pushes ++ victims.map (deletionPush origin) := by
  induction victims generalizing st with
  | nil => simp [ServerState.applyEvictionEffects]
  | cons key victims ih =>
    have first := applyWriteEffects_pushes st now origin (.del [key]) (.integer 1)
    refine (ih (st.applyWriteEffects now origin (.del [key]) (.integer 1))).trans ?_
    rw [first, List.append_assoc]
    rfl

theorem executeQueuedWrite_pushes (codec : Codec) (env : Env) (origin : ℕ) (cmd : Command)
    (st : ServerState) : (st.executeQueuedWrite codec env origin cmd).pushes =
      st.pushes ++ pushesOf cmd (executeReporting codec env cmd st.store).1 env.now origin
        (executeReporting codec env cmd st.store).2.2 := by
  have evictions := applyEvictionEffects_pushes (ServerState.applyWriteEffects env.now origin cmd
    (executeReporting codec env cmd st.store).1
    { st with store := (executeReporting codec env cmd st.store).2.1 }) env.now origin
    (executeReporting codec env cmd st.store).2.2
  refine evictions.trans ?_
  rw [applyWriteEffects_pushes, pushesOf, pushesOf]
  simp

theorem commitWrite_pushes (st : ServerState) (origin : ℕ) (cmd : Command)
    (wrapper : Option (String × ℕ)) : (st.commitWrite origin cmd wrapper).pushes = st.pushes := by
  unfold ServerState.commitWrite
  split <;> split <;> rfl

theorem ServerState.Accepts.executeOrderedWrite {st : ServerState} {cmd : Command}
    (accepts : st.Accepts cmd) (codec : Codec) (env : Env) (origin : ℕ) :
    (st.executeOrderedWrite codec env origin cmd).2 =
        st.executeQueuedWrite codec env origin (unwrapDedup cmd).1 ∨
      (st.executeOrderedWrite codec env origin cmd).2 =
        (st.executeQueuedWrite codec env origin (unwrapDedup cmd).1).commitWrite origin
          (unwrapDedup cmd).1 (unwrapDedup cmd).2 := by
  have fresh : ((unwrapDedup cmd).2.any fun w => st.dedupIsDuplicate w.1 w.2) = false := by
    simpa [Option.any_eq_false] using accepts.2
  have healthy : (!st.persistenceHealthy) = false := by simp [accepts.1]
  unfold ServerState.executeOrderedWrite
  rw [healthy]
  dsimp only
  rw [fresh]
  simp only [Bool.false_eq_true, if_false]
  split
  · exact .inl rfl
  · exact .inr rfl

theorem ServerState.Executes.spec {codec : Codec} {env : Env} {origin : ℕ} {st st' : ServerState}
    {cmd : Command} (executes : st.Executes codec env origin cmd st') :
    st'.store = (executeReporting codec env cmd st.store).2.1 ∧
      st.newPushes st' = pushesOf cmd (executeReporting codec env cmd st.store).1 env.now origin
        (executeReporting codec env cmd st.store).2.2 := by
  have queued (cmd : Command) : (st.executeQueuedWrite codec env origin cmd).store =
        (executeReporting codec env cmd st.store).2.1 ∧
      st.newPushes (st.executeQueuedWrite codec env origin cmd) =
        pushesOf cmd (executeReporting codec env cmd st.store).1 env.now origin
          (executeReporting codec env cmd st.store).2.2 := by
    refine ⟨(executeQueuedWrite_executed codec env origin cmd st).store, ?_⟩
    rw [ServerState.newPushes, executeQueuedWrite_pushes, List.drop_left]
  cases executes with
  | queued => exact queued cmd
  | ordered accepts =>
    obtain same | committed := accepts.executeOrderedWrite codec env origin
    · rw [same]
      exact queued _
    · rw [committed, ServerState.newPushes, commitWrite_pushes, (commitWrite_spec _ _ _ _).1]
      exact queued _

theorem mem_pushesOf {cmd : Command} {reply : Value} (text : ReplyIsText cmd reply) {now origin : ℕ}
    {victims : List String} {push : SyncPush} :
    push ∈ pushesOf cmd reply now origin victims ↔
      (∃ m ∈ absolute now reply cmd, push = ⟨origin, primaryKeys cmd, respPush m.parts⟩) ∨
        ∃ k ∈ victims, push = deletionPush origin k := by
  rw [pushesOf, broadcastFor_eq text]
  simp [eq_comm]

/-! ## What a client applies -/

/-- The frame is a command that clients replay, and every client applies it. -/
structure Taken (frame : Bytes) : Prop where
  replayable : ∃ cmd, decodeFrame frame = some cmd ∧ isReplayableMutation cmd = true
  applied : ∀ (codec : Codec) (env : Env) (client : SyncClient),
    (client.handleFrame codec env frame).1 = .applied

theorem isReplayableMutation_wire (m : Mutation) :
    isReplayableMutation m.wire.toCommand = isReplayableMutation m.toCommand := by
  cases m <;> rfl

theorem not_message (m : Mutation) :
    (asBytes m.written.1).map Binary64.asciiLower ≠ asBytes "message" := by
  cases m <;> (dsimp only [Mutation.written]; decide)

/-- No mutation has the form of a pub/sub message. -/
theorem pubSubMessage_parts (m : Mutation) : pubSubMessage (bulks m.parts) = none := by
  have other := not_message m
  unfold pubSubMessage
  split
  · next kind channel payload eq =>
    rw [Mutation.parts, bulks_cons, List.cons.injEq, Value.bulkString.injEq, Option.some.injEq] at eq
    rw [eq.1] at other
    exact if_neg other
  · rfl

theorem taken_parts (m : Mutation) :
    Taken (respPush m.parts) ↔ m.Decodable ∧ isReplayableMutation m.toCommand = true := by
  constructor
  · rintro ⟨⟨cmd, decoded, replayable⟩, -⟩
    obtain ⟨decodable, rfl⟩ := (m.decodeFrame_parts cmd).mp decoded
    exact ⟨decodable, isReplayableMutation_wire m ▸ replayable⟩
  · rintro ⟨⟨acceptable, fits⟩, replayable⟩
    rw [← isReplayableMutation_wire] at replayable
    refine ⟨⟨_, (m.decodeFrame_parts _).mpr ⟨⟨acceptable, fits⟩, rfl⟩, replayable⟩, fun codec env client => ?_⟩
    have parsed := Value.parse_push fits []
    have decoded : fromValue (.array (some (bulks m.parts))) = .ok m.wire.toCommand :=
      (decodes_iff m _).mpr ⟨acceptable, rfl⟩
    rw [List.append_nil, ← respPush_eq] at parsed
    simp only [SyncClient.handleFrame, parsed, handlePush, pubSubMessage_parts, decoded, replayable, if_true]

/-! ## Who lacks a mutation -/

/-- The push names the key, or empties the store. -/
def SyncPush.Covers (push : SyncPush) (k : String) : Prop :=
  k ∈ push.keys ∨ push.resp = respPush Mutation.flushDb.parts

/-- The key has changed on the server, and not by the hand of the client of this connection: another
connection wrote it, or it was evicted. -/
def Lacks (origin : ℕ) (evicted : List String) (before after : View) (connId : ℕ) (k : String) : Prop :=
  connId ≠ origin ∧ config (before k) ≠ config (after k) ∨ k ∈ evicted ∧ (before k).isSome = true

/-- Every client applies the pushes of a write, and every connection that lacks a change is sent one
of them that covers it. -/
structure Reaches (origin : ℕ) (evicted : List String) (before after : View)
    (pushes : List SyncPush) : Prop where
  taken : ∀ push ∈ pushes, Taken push.resp
  covered : ∀ connId k, connId ≠ 0 → Lacks origin evicted before after connId k →
    ∃ push ∈ pushes, pushVisible false none connId push = true ∧ push.Covers k

/-- The write is no `APPEND`, its mutation and the deletions of its victims pass the parser, it
creates no set without members, and if it comes from a sync client it evicts no live key. -/
structure Reaching (now origin : ℕ) (cmd : Command) (reply : Value) (evicted : List String)
    (before : View) : Prop where
  notAppend : ∀ key suffix, cmd ≠ .append key suffix
  decodable : ∀ m ∈ absolute now reply cmd, m.Decodable
  deletions : ∀ k ∈ evicted, (Mutation.del [k]).Decodable
  members : ∀ key, cmd = .sAdd key [] → (before key).isSome = true ∨ key ∈ evicted
  evicts : origin = 0 ∨ ∀ k ∈ evicted, before k = none

theorem isReplayableMutation_absolute {now : ℕ} {reply : Value} {cmd : Command} {m : Mutation}
    (form : absolute now reply cmd = some m) (notSet : ∀ key limit windowSecs, cmd ≠ .rlSet key limit windowSecs) :
    isReplayableMutation m.toCommand = true ↔ ∀ key suffix, cmd ≠ .append key suffix := by
  cases cmd
  case append key suffix =>
    refine iff_of_false ?_ (fun h => h key suffix rfl)
    rw [absolute, when] at form
    split_ifs at form
    rw [← Option.some.inj form]
    exact Bool.false_ne_true
  case rlSet key limit windowSecs => exact absurd rfl (notSet key limit windowSecs)
  all_goals
    refine iff_of_true ?_ (by simp)
    simp only [absolute, when] at form
  all_goals first
    | (rw [← Option.some.inj form]; rfl)
    | (split_ifs at form; rw [← Option.some.inj form]; rfl)
    | (split at form <;> cases form; rfl)
    | cases form

section

variable {codec : Codec} {env : Env} {origin : ℕ} {st st' : ServerState} {cmd : Command}

/-- A successful `APPEND` is propagated. -/
theorem absolute_append {key : String} {suffix : Bytes} {s : KeyValueStore}
    (succeeds : (executeReporting codec env (.append key suffix) s).1.isError = false) :
    absolute env.now (executeReporting codec env (.append key suffix) s).1 (.append key suffix) =
      some (.append key suffix) := by
  obtain ⟨d, reply⟩ := executeReporting_reply codec env (rfl : readsKeyspace (.append key suffix) = false)
    succeeds
  have act : ((program codec env (.append key suffix)).run env.now d).1 =
      (typedEntry .str [] (fun s => (s ++ suffix, .integer (s ++ suffix).length))
        (Lapse.live env.now d key)).2 := rfl
  rw [reply, act] at succeeds ⊢
  unfold typedEntry at succeeds ⊢
  split at succeeds
  · rfl
  · split at succeeds
    · rfl
    · cases succeeds

/-- An `SADD` without members creates the set all the same. -/
theorem live_sAdd_nil {key : String} {s : KeyValueStore}
    (succeeds : (executeReporting codec env (.sAdd key []) s).1.isError = false)
    (spared : key ∉ (executeReporting codec env (.sAdd key []) s).2.2)
    (absent : s.live env.now key = none) :
    (executeReporting codec env (.sAdd key []) s).2.1.live env.now key = some ⟨.set ∅, none⟩ ∧
      absolute env.now (executeReporting codec env (.sAdd key []) s).1 (.sAdd key []) = none := by
  obtain ⟨failed, -⟩ | ⟨pre, -, reply, before, after⟩ :=
    (executeReporting_fares codec env s (rfl : readsKeyspace (.sAdd key []) = false)).spared spared
  · rw [failed] at succeeds
    cases succeeds
  · have absent' : Lapse.live env.now (dropped pre s.data) key = none := by
      rw [← absent, KeyValueStore.live, Lapse.live, Lapse.live, before]
    have ran : Lapse.live env.now ((program codec env (.sAdd key [])).run env.now (dropped pre s.data)).2 =
        (perform codec env (.sAdd key []) (Lapse.live env.now (dropped pre s.data))).2 :=
      Lapse.live_run ..
    have first : ((program codec env (.sAdd key [])).run env.now (dropped pre s.data)).1 =
        (perform codec env (.sAdd key []) (Lapse.live env.now (dropped pre s.data))).1 := Lapse.Prog.run_fst ..
    rw [perform_one rfl, absent'] at ran first
    refine ⟨?_, ?_⟩
    · refine Eq.trans ?_ ((congrFun ran key).trans ((Function.update_self ..).trans rfl))
      rw [KeyValueStore.live, Lapse.live, Lapse.live, after]
    · rw [reply, first]
      rfl

/-- The deletion of a key covers no other. -/
theorem deletionPush_covers {k key : String} (decodable : (Mutation.del [key]).Decodable)
    (covers : (deletionPush origin key).Covers k) : k = key := by
  obtain named | flush := covers
  · exact List.mem_singleton.mp named
  · have decoded := (Mutation.decodeFrame_parts (.del [key]) _).mpr ⟨decodable, rfl⟩
    rw [show respPush (Mutation.del [key]).parts = respPush Mutation.flushDb.parts from flush] at decoded
    cases ((Mutation.decodeFrame_parts .flushDb _).mp decoded).2

/-- The pushes of a successful write reach every client that lacks it exactly when the write is of
this kind. -/
theorem pushes_reach_iff (executes : st.Executes codec env origin cmd st')
    (write : isWriteCommand cmd = true) (notSet : ∀ key limit windowSecs, cmd ≠ .rlSet key limit windowSecs)
    (notCheck : ∀ key config, cmd ≠ .rlCheck key config)
    (succeeds : (executeReporting codec env cmd st.store).1.isError = false) :
    Reaches origin (executeReporting codec env cmd st.store).2.2 (st.store.live env.now)
        (st'.store.live env.now) (st.newPushes st') ↔
      Reaching env.now origin cmd (executeReporting codec env cmd st.store).1
        (executeReporting codec env cmd st.store).2.2 (st.store.live env.now) := by
  obtain ⟨store, pushes⟩ := executes.spec
  have text := replyIsText codec env cmd succeeds
  rw [store, pushes]
  constructor
  · rintro ⟨taken, covered⟩
    have deletions : ∀ k ∈ (executeReporting codec env cmd st.store).2.2, (Mutation.del [k]).Decodable :=
      fun k evicted => ((taken_parts _).mp (taken _ ((mem_pushesOf text).mpr (.inr ⟨k, evicted, rfl⟩)))).1
    have forms : ∀ m ∈ absolute env.now (executeReporting codec env cmd st.store).1 cmd,
        m.Decodable ∧ isReplayableMutation m.toCommand = true :=
      fun m form => (taken_parts m).mp (taken _ ((mem_pushesOf text).mpr (.inl ⟨m, form, rfl⟩)))
    refine ⟨?_, fun m form => (forms m form).1, deletions, ?_, ?_⟩
    · rintro key suffix rfl
      have form : absolute _ _ _ = some (.append key suffix) := absolute_append succeeds
      cases (forms _ form).2
    · rintro key rfl
      by_contra neither
      obtain ⟨absent, spared⟩ := not_or.mp neither
      rw [Bool.not_eq_true, Option.isSome_eq_false_iff, Option.isNone_iff_eq_none] at absent
      obtain ⟨created, silent⟩ := live_sAdd_nil succeeds spared absent
      have lacks : Lacks origin (executeReporting codec env (.sAdd key []) st.store).2.2
          (st.store.live env.now) ((executeReporting codec env (.sAdd key []) st.store).2.1.live env.now)
          (origin + 1) key := by
        refine .inl ⟨by omega, ?_⟩
        rw [absent, created]
        exact nofun
      obtain ⟨push, mem, -, covers⟩ := covered _ _ (Nat.succ_ne_zero origin) lacks
      obtain ⟨m, form, -⟩ | ⟨k, evicted, rfl⟩ := (mem_pushesOf text).mp mem
      · rw [silent] at form
        cases form
      · obtain rfl := deletionPush_covers (deletions k evicted) covers
        exact spared evicted
    · by_contra neither
      obtain ⟨real, lived⟩ := not_or.mp neither
      push Not at lived
      obtain ⟨k, evicted, lived⟩ := lived
      obtain ⟨push, mem, visible, -⟩ := covered origin k real
        (.inr ⟨evicted, Option.isSome_iff_ne_none.mpr lived⟩)
      have own : push.origin = origin := by
        obtain ⟨m, -, rfl⟩ | ⟨k, -, rfl⟩ := (mem_pushesOf text).mp mem <;> rfl
      simp [pushVisible, own] at visible
  · rintro ⟨notAppend, decodable, deletions, members, evicts⟩
    refine ⟨fun push hp => ?_, fun connId k real lacks => ?_⟩
    · obtain ⟨m, form, rfl⟩ | ⟨k, evicted, rfl⟩ := (mem_pushesOf text).mp hp
      · exact (taken_parts m).mpr ⟨decodable m form,
          (isReplayableMutation_absolute form notSet).mpr notAppend⟩
      · exact (taken_parts _).mpr ⟨deletions k evicted, rfl⟩
    · have visible {push : SyncPush} (own : push.origin = origin) (other : connId ≠ origin) :
          pushVisible false none connId push = true := by
        simpa [pushVisible, own] using other.symm
      have deletion (evicted : k ∈ (executeReporting codec env cmd st.store).2.2) (other : connId ≠ origin) :
          ∃ push ∈ pushesOf cmd (executeReporting codec env cmd st.store).1 env.now origin
            (executeReporting codec env cmd st.store).2.2,
              pushVisible false none connId push = true ∧ push.Covers k :=
        ⟨deletionPush origin k, (mem_pushesOf text).mpr (.inr ⟨k, evicted, rfl⟩), visible rfl other,
          .inl List.mem_cons_self⟩
      obtain ⟨other, rewritten⟩ | ⟨evicted, lived⟩ := lacks
      · by_cases evicted : k ∈ (executeReporting codec env cmd st.store).2.2
        · exact deletion evicted other
        · obtain victim | ⟨framed, concerned⟩ := executeReporting_rewrites codec env write notCheck
            (fun eq => (members k eq).resolve_right evicted) succeeds rewritten
          · exact absurd victim evicted
          · rw [broadcastFor_eq text] at framed
            obtain ⟨m, form⟩ := Option.ne_none_iff_exists'.mp (mt (congrArg (Option.map _)) framed)
            refine ⟨_, (mem_pushesOf text).mpr (.inl ⟨m, form, rfl⟩), visible rfl other, ?_⟩
            obtain rfl | primary := concerned
            · exact .inr (congrArg (fun m => respPush m.parts) (Option.some.inj form).symm)
            · exact .inl primary
      · refine deletion evicted fun own => ?_
        obtain tcp | spared := evicts
        · exact real (own.trans tcp)
        · rw [spared k evicted] at lived
          cases lived

end

theorem pushes_reach_iff_set :
    Reaches 1 (executeReporting .literals (.fixed 0) (.set "k" [118] {}) {}).2.2
        (KeyValueStore.live 0 {})
        ((ServerState.executeOrderedWrite .literals (.fixed 0) 1 (.set "k" [118] {})
          { store := {} }).2.store.live 0)
        (ServerState.newPushes { store := {} } (ServerState.executeOrderedWrite .literals (.fixed 0) 1
          (.set "k" [118] {}) { store := {} }).2) ↔
      Reaching 0 1 (.set "k" [118] {})
        (executeReporting .literals (.fixed 0) (.set "k" [118] {}) {}).1
        (executeReporting .literals (.fixed 0) (.set "k" [118] {}) {}).2.2 (KeyValueStore.live 0 {}) :=
  pushes_reach_iff (@ServerState.Executes.ordered .literals (.fixed 0) 1 { store := {} }
    (.set "k" [118] {}) ⟨rfl, fun _ none => by cases none⟩) rfl nofun nofun rfl

/-- A server with room for one key, which is taken. -/
def fullServer : ServerState :=
  { store := (execute .literals (.fixed 0) (.set "a" [118] {})
      { maxKeys := some 1, evictionPolicy := .allKeysRandom }).2 }

/-- No client applies the push of an `APPEND`, and a client whose `SET` evicts a key is sent nothing
about that key. -/
theorem append_ignored_eviction_untold :
    (fromValue (arrayOf [bulk "APPEND", bulk "k", bulk "x"]) = .ok (.append "k" (asBytes "x")) ∧
      (ServerState.executeOrderedWrite .literals (.fixed 0) 1 (.append "k" (asBytes "x"))
        { store := {} }).1.isError = false ∧
      ∃ push, ServerState.newPushes { store := {} } (ServerState.executeOrderedWrite .literals (.fixed 0)
          1 (.append "k" (asBytes "x")) { store := {} }).2 = [push] ∧
        (SyncClient.handleFrame .literals (.fixed 0) push.resp {}).1 = .ignored ∧ ¬Taken push.resp) ∧
      (executeReporting .literals (.fixed 0) (.set "b" [118] {}) fullServer.store).2.2 = ["a"] ∧
      shown (fullServer.store.live 0 "a") = some (.str [118]) ∧
      shown ((fullServer.executeOrderedWrite .literals (.fixed 0) 1 (.set "b" [118] {})).2.store.live 0
        "a") = none ∧
      ∀ push ∈ fullServer.newPushes
          (fullServer.executeOrderedWrite .literals (.fixed 0) 1 (.set "b" [118] {})).2,
        pushVisible false none 1 push = false := by
  refine ⟨⟨rfl, rfl, _, rfl, rfl, fun taken => ?_⟩, rfl, rfl, rfl, by decide⟩
  cases ((taken_parts (.append "k" (asBytes "x"))).mp taken).2

end Recached
