import Recached.Simulation

/-!
# Commands and recorded attempts

What a rate limiter has recorded is never visible in the rest of a view: every command takes views
that differ in recorded attempts to views that differ in recorded attempts.
-/

namespace Recached

open Text Lapse

/-! ## Cells up to recorded attempts -/

def SameConfig (l l' : Option Cell) : Prop := config l = config l'

/-- Cells that differ in recorded attempts are equal or both limiters. -/
theorem SameConfig.cases {l l' : Option Cell} (h : SameConfig l l') :
    l = l' ∨ ∃ rl rl' exp, l = some ⟨.rateLimiter rl, exp⟩ ∧ l' = some ⟨.rateLimiter rl', exp⟩ ∧
      rl.limit = rl'.limit ∧ rl.windowMs = rl'.windowMs := by
  cases l with
  | none =>
    cases l' with
    | none => exact .inl rfl
    | some c' => exact absurd h nofun
  | some c =>
    cases l' with
    | none => exact absurd h nofun
    | some c' =>
      obtain ⟨value, exp⟩ := c
      obtain ⟨value', exp'⟩ := c'
      have parts : value.config = value'.config ∧ exp = exp' := by
        simpa [SameConfig, config] using h
      obtain ⟨same, rfl⟩ := parts
      cases value
      case rateLimiter rl =>
        cases value'
        case rateLimiter rl' =>
          have fields : rl.limit = rl'.limit ∧ rl.windowMs = rl'.windowMs := by
            simpa [EntryValue.config] using same
          exact .inr ⟨rl, rl', exp, rfl, rfl, fields⟩
        all_goals cases same
      all_goals
        cases value'
        case rateLimiter => cases same
        all_goals
          simp only [EntryValue.config] at same
          exact .inl (by rw [same])

theorem similar_sameConfig : Prog.Similar SameConfig where
  none := rfl
  isSome {l l'} h := by
    obtain rfl | ⟨rl, rl', exp, rfl, rfl, -⟩ := h.cases <;> rfl
  settle {l l'} h now := by
    rw [SameConfig, config_settle, config_settle, h]

/-- What an act makes of a cell does not depend on recorded attempts. -/
def IgnoresAttempts (act : Act) : Prop :=
  ∀ l l', SameConfig l l' → SameConfig ((act l).1.apply l) ((act l').1.apply l')

/-- It is enough that the act leaves limiters as they are. -/
theorem ignoresAttempts_of_fixed {act : Act}
    (fixed : ∀ rl exp, (act (some ⟨.rateLimiter rl, exp⟩)).1.apply (some ⟨.rateLimiter rl, exp⟩) =
      some ⟨.rateLimiter rl, exp⟩) : IgnoresAttempts act := by
  intro l l' h
  obtain rfl | ⟨rl, rl', exp, rfl, rfl, -⟩ := h.cases
  · exact rfl
  · rw [fixed, fixed]
    exact h

theorem ignoresAttempts_readAs {α : Type} (k : Kind α) (touch : Bool) (absent : Value)
    (f : α → Value) : IgnoresAttempts (readAs k touch absent f) := by
  refine ignoresAttempts_of_fixed fun rl exp => ?_
  unfold readAs
  dsimp only
  split
  · split <;> rfl
  · rfl

theorem ignoresAttempts_updateAs {α : Type} {k : Kind α} (other : ∀ rl, k.unwrap (.rateLimiter rl) = none)
    (absent : Value) (f : α → α × Value) : IgnoresAttempts (updateAs k absent f) :=
  ignoresAttempts_of_fixed fun rl exp => by rw [updateAs_other (other rl)]; rfl

theorem ignoresAttempts_typedEntry {α : Type} {k : Kind α}
    (other : ∀ rl, k.unwrap (.rateLimiter rl) = none) (default : α) (f : α → α × Value) :
    IgnoresAttempts (typedEntry k default f) :=
  ignoresAttempts_of_fixed fun rl exp => by rw [typedEntry_other (other rl)]; rfl

theorem ignoresAttempts_setAct (now : ℕ) (val : Bytes) (opts : SetOptions) :
    IgnoresAttempts (setAct now val opts) := by
  intro l l' h
  obtain rfl | ⟨rl, rl', exp, rfl, rfl, -⟩ := h.cases
  · exact rfl
  · have old : ∀ rl, existingStr (some (⟨.rateLimiter rl, exp⟩ : Cell)) = none := fun _ => rfl
    have met : ∀ rl rl', conditionMet (some (⟨.rateLimiter rl, exp⟩ : Cell)) opts.condition =
        conditionMet (some (⟨.rateLimiter rl', exp⟩ : Cell)) opts.condition := fun _ _ => rfl
    simp only [setAct, old, met rl rl', Option.isSome_some, Option.bind_some]
    cases setDeadline now exp opts.expiry with
    | error e => split_ifs <;> exact h
    | ok deadline => split_ifs <;> first | exact h | rfl

theorem ignoresAttempts_setExpiry (tsMs : ℕ) : IgnoresAttempts (setExpiry tsMs) := by
  intro l l' h
  obtain rfl | ⟨rl, rl', exp, rfl, rfl, limit, window⟩ := h.cases
  · exact rfl
  · simp [SameConfig, setExpiry, config, EntryValue.config, limit, window]

theorem ignoresAttempts_persist : IgnoresAttempts persistAct := by
  intro l l' h
  obtain rfl | ⟨rl, rl', exp, rfl, rfl, limit, window⟩ := h.cases
  · exact rfl
  · cases exp <;> simp [SameConfig, persistAct, config, EntryValue.config, limit, window]

theorem ignoresAttempts_ttl (now : ℕ) (unit : ℕ → ℤ) : IgnoresAttempts (ttlAct now unit) :=
  ignoresAttempts_of_fixed fun rl exp => by cases exp <;> rfl

theorem ignoresAttempts_rlSet (limit windowSecs : ℕ) : IgnoresAttempts (rlSetAct limit windowSecs) := by
  intro l l' h
  obtain rfl | ⟨rl, rl', exp, rfl, rfl, -⟩ := h.cases
  · exact rfl
  · simp [SameConfig, rlSetAct, Kind.rateLimiter, config, EntryValue.config]

theorem ignoresAttempts_rlCheck (now : ℕ) (key : String) (cfg : Option (ℕ × ℕ)) :
    IgnoresAttempts (rlCheckAct now key cfg) := by
  intro l l' h
  obtain rfl | ⟨rl, rl', exp, rfl, rfl, limit, window⟩ := h.cases
  · exact rfl
  · cases cfg with
    | none =>
      simp only [SameConfig, rlCheckAct, Kind.rateLimiter, Effect.apply_modify, rlAttempt_config]
      simp [EntryValue.config, limit, window]
    | some p =>
      obtain ⟨limit', windowSecs⟩ := p
      simp only [SameConfig, rlCheckAct, Kind.rateLimiter, Effect.apply_modify, rlAttempt_config]
      simp [EntryValue.config]

theorem ignoresAttempts_jMerge (codec : Codec) (patch : String) :
    IgnoresAttempts (jMergeAct codec patch) := by
  refine ignoresAttempts_of_fixed fun rl exp => ?_
  unfold jMergeAct
  split
  · rfl
  · split_ifs with null documents
    · cases documents
    · rfl
    · rw [typedEntry_other (by rfl)]
      rfl

theorem ignoresAttempts_jSet (codec : Codec) (path value : String) :
    IgnoresAttempts (jSetAct codec path value) := by
  refine ignoresAttempts_of_fixed fun rl exp => ?_
  unfold jSetAct
  split
  · rfl
  · split
    · rfl
    · dsimp only
      split_ifs
      · rfl
      · rw [typedEntry_other (by rfl)]
        rfl

/-! ## Every command -/

/-- What a program does to views does not depend on recorded attempts. -/
abbrev Blind {β : Type} (p : Lapse.Prog String EntryValue β) : Prop := Prog.Alike SameConfig p p

theorem blind_one {β : Type} (key : String) {act : Option Cell → Effect × β}
    (ignores : ∀ l l', SameConfig l l' → SameConfig ((act l).1.apply l) ((act l').1.apply l')) :
    Blind (.one key act) :=
  .one key ignores

theorem blind_delKeys (keys : List String) (n : ℕ) (f : ℕ → Value) :
    Blind ((delKeys keys n).bind fun n => .done (f n)) := by
  induction keys generalizing n with
  | nil => trivial
  | cons key keys ih =>
    refine ⟨rfl, fun l l' h => ?_⟩
    have there := similar_sameConfig.isSome h
    dsimp only
    rw [there]
    refine ⟨?_, ih _⟩
    cases l' with
    | none => exact h
    | some c => rfl

theorem blind_existKeys (keys : List String) (n : ℕ) (f : ℕ → Value) :
    Blind ((existKeys keys n).bind fun n => .done (f n)) := by
  induction keys generalizing n with
  | nil => trivial
  | cons key keys ih =>
    refine ⟨rfl, fun l l' h => ⟨h, ?_⟩⟩
    have there := similar_sameConfig.isSome h
    dsimp only
    rw [there]
    exact ih _

theorem existingStr_sameConfig {l l' : Option Cell} (h : SameConfig l l') :
    existingStr l = existingStr l' := by
  obtain rfl | ⟨rl, rl', exp, rfl, rfl, -⟩ := h.cases <;> rfl

theorem blind_mGetKeys (keys : List String) (f : List Value → Value) :
    Blind ((mGetKeys keys).bind fun vs => .done (f vs)) := by
  induction keys generalizing f with
  | nil => trivial
  | cons key keys ih =>
    refine ⟨rfl, fun l l' h => ?_⟩
    have same := existingStr_sameConfig h
    dsimp only
    rw [same]
    refine ⟨by split_ifs <;> exact h, ?_⟩
    simp only [Prog.bind_bind]
    exact ih _

theorem blind_mSetPairs (pairs : List (String × Bytes)) : Blind (mSetPairs pairs) := by
  induction pairs with
  | nil => trivial
  | cons pair pairs ih => exact ⟨rfl, fun l l' _ => ⟨rfl, ih⟩⟩

theorem blind_readSets (keys : List String) {f : Except Value (List (Option MemberSet)) → Prog Value}
    (blind : ∀ sets, Blind (f sets)) : Blind ((readSets keys).bind f) := by
  induction keys generalizing f with
  | nil => exact blind _
  | cons key keys ih =>
    refine ⟨rfl, fun l l' h => ⟨h, ?_⟩⟩
    obtain rfl | ⟨rl, rl', exp, rfl, rfl, -⟩ := h.cases
    · cases l with
      | none =>
        simp only [Prog.bind_bind]
        exact ih fun _ => blind _
      | some c =>
        dsimp only
        split
        · simp only [Prog.bind_bind]
          exact ih fun _ => blind _
        · exact blind _
    · exact blind _

theorem blind_combine (keys : List String) (f : List (Option MemberSet) → MemberSet) :
    Blind (combine keys f) := by
  refine blind_readSets keys fun sets => ?_
  cases sets <;> trivial

theorem blind_combineStore (dst : String) (keys : List String)
    (f : List (Option MemberSet) → MemberSet) : Blind (combineStore dst keys f) := by
  refine blind_readSets keys fun sets => ?_
  cases sets with
  | error e => trivial
  | ok sets => exact blind_one dst fun _ _ _ => rfl

theorem blind_sMove (src dst member : String) : Blind (sMove src dst member) := by
  refine ⟨rfl, fun s s' hs => ⟨hs, rfl, fun d d' hd => ⟨hd, ?_⟩⟩⟩
  have source : notSet s = notSet s' := by
    obtain rfl | ⟨rl, rl', exp, rfl, rfl, -⟩ := hs.cases <;> rfl
  have target : notSet d = notSet d' := by
    obtain rfl | ⟨rl, rl', exp, rfl, rfl, -⟩ := hd.cases <;> rfl
  dsimp only
  rw [source, target]
  split_ifs
  · trivial
  · refine ⟨rfl, fun l l' h => ⟨ignoresAttempts_updateAs (fun _ => rfl) _ _ l l' h, ?_⟩⟩
    have held : (l.bind fun c => Kind.set.unwrap c.value) = l'.bind fun c => Kind.set.unwrap c.value := by
      obtain rfl | ⟨rl, rl', exp, rfl, rfl, -⟩ := h.cases <;> rfl
    dsimp only
    rw [held]
    split_ifs
    · exact blind_one dst (ignoresAttempts_typedEntry (fun _ => rfl) _ _)
    · trivial

theorem program_blind (codec : Codec) (env : Env) (cmd : Command) : Blind (program codec env cmd) := by
  cases cmd
  case ping msg => cases msg <;> trivial
  case decrBy key delta =>
    simp only [program]
    split_ifs
    · trivial
    · exact blind_one key (ignoresAttempts_typedEntry (fun _ => rfl) _ _)
  case del keys => exact blind_delKeys keys 0 _
  case unlink keys => exact blind_delKeys keys 0 _
  case «exists» keys => exact blind_existKeys keys 0 _
  case mGet keys => exact blind_mGetKeys keys _
  case mSet pairs => exact blind_mSetPairs pairs
  case sInter keys => exact blind_combine keys _
  case sUnion keys => exact blind_combine keys _
  case sDiff keys => exact blind_combine keys _
  case sInterStore dst keys => exact blind_combineStore dst keys _
  case sUnionStore dst keys => exact blind_combineStore dst keys _
  case sDiffStore dst keys => exact blind_combineStore dst keys _
  case sMove src dst member => exact blind_sMove src dst member
  case rename src dst => exact ⟨rfl, rfl, fun _ => trivial⟩
  case eSet key val => exact blind_one key (ignoresAttempts_setAct _ _ _)
  case set key val opts => exact blind_one key (ignoresAttempts_setAct _ _ _)
  case expire key secs => exact blind_one key (ignoresAttempts_setExpiry _)
  case pExpire key ms => exact blind_one key (ignoresAttempts_setExpiry _)
  case expireAt key ts => exact blind_one key (ignoresAttempts_setExpiry _)
  case pExpireAt key ts => exact blind_one key (ignoresAttempts_setExpiry _)
  case persist key => exact blind_one key ignoresAttempts_persist
  case ttl key => exact blind_one key (ignoresAttempts_ttl _ _)
  case pTtl key => exact blind_one key (ignoresAttempts_ttl _ _)
  case rlSet key limit windowSecs => exact blind_one key (ignoresAttempts_rlSet _ _)
  case rlCheck key cfg => exact blind_one key (ignoresAttempts_rlCheck _ _ _)
  case jSet key path value => exact blind_one key (ignoresAttempts_jSet _ _ _)
  case jMerge key patch => exact blind_one key (ignoresAttempts_jMerge _ _)
  -- the other commands read one key, change a value of one kind in place, or replace a string
  all_goals first
    | trivial
    | exact blind_one _ (ignoresAttempts_readAs _ _ _ _)
    | exact blind_one _ (ignoresAttempts_updateAs (fun _ => rfl) _ _)
    | exact blind_one _ (ignoresAttempts_typedEntry (fun _ => rfl) _ _)
    | exact blind_one _ (ignoresAttempts_of_fixed fun _ _ => rfl)
    | exact blind_one _ fun _ _ _ => rfl

/-- Every command takes views that differ in recorded attempts to such views. -/
theorem perform_sameView (codec : Codec) (env : Env) (cmd : Command) {v w : View} (h : SameView v w) :
    SameView (perform codec env cmd v).2 (perform codec env cmd w).2 :=
  Prog.eval_alike similar_sameConfig env.now (program_blind codec env cmd) h

theorem SameView.settle {v w : View} (h : SameView v w) (now : ℕ) :
    SameView (v.settle now) (w.settle now) :=
  fun k => similar_sameConfig.settle (h k) now

end Recached
