import Recached.Views

/-!
# Confinement of scoped connections

In strict mode the keys a command's scope lists are checked against the scopes of the connection.
`confined_to_scope` says that this is enough: the command neither reads nor writes another key.
-/

namespace Recached

open KeyValueStore

/-- A command is confined to a set of keys: two stores whose live entries agree there give the same
reply and agree there afterwards, and every entry elsewhere is left as it was. -/
structure Confined (codec : Codec) (env : Env) (cmd : Command) (K : Set String) : Prop where
  agree : ∀ s₁ s₂ : KeyValueStore, s₁.Uncapped → s₂.Uncapped →
    (∀ k ∈ K, s₁.live env.now k = s₂.live env.now k) →
      (execute codec env cmd s₁).1 = (execute codec env cmd s₂).1 ∧
        ∀ k ∈ K, (execute codec env cmd s₁).2.live env.now k =
          (execute codec env cmd s₂).2.live env.now k
  frame : ∀ s : KeyValueStore, s.Uncapped → ∀ k ∉ K, (execute codec env cmd s).2.data[k]? = s.data[k]?

theorem Confined.mono {codec : Codec} {env : Env} {cmd : Command} {K L : Set String} (h : K ⊆ L)
    (confined : Confined codec env cmd K) : Confined codec env cmd L where
  agree s₁ s₂ h₁ h₂ same := by
    obtain ⟨reply, after⟩ := confined.agree s₁ s₂ h₁ h₂ fun k hk => same k (h hk)
    refine ⟨reply, fun k hk => ?_⟩
    by_cases inside : k ∈ K
    · exact after k inside
    · have kept₁ := confined.frame s₁ h₁ k inside
      have kept₂ := confined.frame s₂ h₂ k inside
      have before := same k hk
      simp only [live, Lapse.live] at before ⊢
      rw [kept₁, kept₂, before]
  frame s hs k hk := confined.frame s hs k fun inside => hk (h inside)

/-- A command that reads the keyspace has an administrative scope. -/
theorem direct_of_scope {cmd : Command} (h : commandScope cmd ≠ .admin) :
    readsKeyspace cmd = false ∧ cmd ≠ .flushDb := by
  refine ⟨?_, fun flush => h (flush ▸ rfl)⟩
  unfold readsKeyspace
  split <;> first | exact absurd rfl h | rfl

theorem confined_of_scope (codec : Codec) (env : Env) {cmd : Command}
    (h : commandScope cmd ≠ .admin) :
    Confined codec env cmd {k | k ∈ (commandScope cmd).listed} := by
  obtain ⟨direct, notFlush⟩ := direct_of_scope h
  have on := program_on codec env notFlush
  constructor
  · intro s₁ s₂ h₁ h₂ same
    obtain ⟨reply₁, live₁⟩ := execute_uncapped codec env cmd h₁ direct
    obtain ⟨reply₂, live₂⟩ := execute_uncapped codec env cmd h₂ direct
    rw [reply₁, reply₂, live₁, live₂]
    exact Lapse.Prog.eval_agree on (Lapse.Prog.steady_self _ _) same
      fun k _ => Lapse.settle_live _ _ _
  · intro s hs k hk
    have data := (executeReporting_uncapped codec env cmd hs).data
    have frame := Lapse.Prog.run_frame on env.now s.data hk
    rwa [← data] at frame

/-- A command runs on the keys of its scope alone, and so a connection that is allowed to run it
reaches no key outside its scopes with it. -/
theorem confined_to_scope (codec : Codec) (env : Env) (cmd : Command) (K : List String)
    (scope : commandScope cmd = .keys K ∨ commandScope cmd = .keyLess ∧ K = []) :
    Confined codec env cmd {k | k ∈ K} ∧
      ∀ scopes : List String, strictScopeAllows (some scopes) cmd = true →
        Confined codec env cmd {k | scopesMatch scopes [k] = true} := by
  have listed : (commandScope cmd).listed = K := by
    rcases scope with h | ⟨h, rfl⟩ <;> rw [h] <;> rfl
  have notAdmin : commandScope cmd ≠ .admin := by
    rcases scope with h | ⟨h, -⟩ <;> rw [h] <;> exact nofun
  have confined : Confined codec env cmd {k | k ∈ K} := listed ▸ confined_of_scope codec env notAdmin
  refine ⟨confined, fun scopes allowed => confined.mono fun k hk => ?_⟩
  rcases scope with h | ⟨-, rfl⟩
  · simp only [strictScopeAllows, h, List.all_eq_true] at allowed
    exact allowed k hk
  · exact absurd hk List.not_mem_nil

theorem confined_to_scope_sMove :
    Confined .literals (.fixed 0) (.sMove "a" "b" "m") {k | k ∈ ["a", "b"]} ∧
      ∀ scopes : List String, strictScopeAllows (some scopes) (.sMove "a" "b" "m") = true →
        Confined .literals (.fixed 0) (.sMove "a" "b" "m") {k | scopesMatch scopes [k] = true} :=
  confined_to_scope _ _ _ ["a", "b"] (.inl rfl)

end Recached
