import Mathlib.Logic.Function.Basic
import Mathlib.Data.Set.Basic
import Mathlib.Tactic.Common
import Std.Data.ExtTreeMap

/-!
# Programs over entries that lapse

A store maps keys to entries; an entry is a cell (a value with an optional deadline) and the time it
was last used.  A cell whose deadline has been reached is still stored but counts as absent.

A `Prog` reads and replaces cells one key at a time.  It has two meanings: `run` works on the stored
entries, lapsed ones included, and `eval` on a view, the live cells alone.  `run_fst` and `live_run`
say that `run` computes what `eval` says.  For a program that stays on a set of keys, `run_frame`
says that every other entry is left as it was, and `eval_agree` that the reply and the cells of the
set depend on the cells of the set alone, also when the second run is at a later time at which none
of them has lapsed; programs on disjoint sets run in either order (`run_comm`).  `eval_alike` compares
views whose cells are related, `eval_timeless` says that without deadlines the time does not matter,
`run_keeps` that every cell stays of a kind that the program keeps, and `cell_run_looks` that a
program which only looks leaves every cell.
-/

namespace Lapse

/-! ## Cells and views -/

structure Cell (α : Type) where
  value : α
  expiresAtMs : Option ℕ := none

structure Entry (α : Type) extends Cell α where
  lastAccessMs : ℕ

variable {κ α β γ : Type}

def Cell.isExpired (now : ℕ) (c : Cell α) : Bool := c.expiresAtMs.any (· ≤ now)

/-- A cell as it is seen at a time: absent once it has lapsed. -/
def settle (now : ℕ) (l : Option (Cell α)) : Option (Cell α) := l.filter fun c => !c.isExpired now

@[simp] theorem settle_none (now : ℕ) : settle now (none : Option (Cell α)) = none := rfl

theorem isExpired_mono {t t' : ℕ} (h : t ≤ t') {c : Cell α} (lapsed : c.isExpired t) :
    c.isExpired t' := by
  simp only [Cell.isExpired, Option.any_eq_true, decide_eq_true_eq] at *
  obtain ⟨d, hd, le⟩ := lapsed
  exact ⟨d, hd, le.trans h⟩

theorem settle_settle {t t' : ℕ} (h : t ≤ t') (l : Option (Cell α)) :
    settle t' (settle t l) = settle t' l := by
  cases l with
  | none => rfl
  | some c =>
    simp only [settle, Option.filter_some]
    cases lapsed : c.isExpired t with
    | false => simp [Option.filter_some]
    | true => simp [isExpired_mono h lapsed]

@[simp] theorem settle_self (now : ℕ) (l : Option (Cell α)) :
    settle now (settle now l) = settle now l :=
  settle_settle le_rfl l

theorem settle_eq_some {now : ℕ} {l : Option (Cell α)} {c : Cell α} :
    settle now l = some c ↔ l = some c ∧ c.isExpired now = false := by
  simp [settle, Option.filter_eq_some_iff]

/-- A cell without deadline never lapses. -/
@[simp] theorem settle_forever (now : ℕ) (a : α) : settle now (some ⟨a, none⟩) = some ⟨a, none⟩ := rfl

theorem settle_of_settled {t t' : ℕ} (h : t ≤ t') {l : Option (Cell α)} (live : settle t' l = l) :
    settle t l = l := by
  rw [← live]
  cases l with
  | none => rfl
  | some c =>
    obtain ⟨-, alive⟩ := settle_eq_some.mp live
    rw [live, settle_eq_some]
    refine ⟨rfl, ?_⟩
    cases lapsed : c.isExpired t with
    | false => rfl
    | true => rw [isExpired_mono h lapsed] at alive; exact alive

/-- The cell, if there is one, is of a kind. -/
def Meets (Q : Cell α → Prop) (l : Option (Cell α)) : Prop := ∀ c ∈ l, Q c

section

variable {Q : Cell α → Prop}

theorem Meets.none : Meets Q none := by
  rintro c ⟨⟩

theorem Meets.some {c : Cell α} (h : Q c) : Meets Q (some c) := by
  rintro _ ⟨⟩
  exact h

theorem Meets.settle {l : Option (Cell α)} (h : Meets Q l) (now : ℕ) : Meets Q (Lapse.settle now l) :=
  fun c mem => h c (settle_eq_some.mp mem).1

end

/-- The cell, if there is one, has no deadline. -/
def Lasts (l : Option (Cell α)) : Prop := ∀ c ∈ l, c.expiresAtMs = none

theorem Lasts.none : Lasts (none : Option (Cell α)) := nofun

theorem Lasts.some {c : Cell α} (h : c.expiresAtMs = Option.none) : Lasts (some c) := by
  intro c' eq
  rwa [← Option.some.inj eq]

theorem Lasts.settle {l : Option (Cell α)} (h : Lasts l) (now : ℕ) : Lapse.settle now l = l := by
  cases l with
  | none => rfl
  | some c =>
    refine settle_eq_some.mpr ⟨rfl, ?_⟩
    rw [Cell.isExpired, h c rfl]
    rfl

/-- The live cell of every key. -/
abbrev View (κ α : Type) := κ → Option (Cell α)

/-- A view at a later time. -/
def View.settle (now : ℕ) (v : View κ α) : View κ α := fun k => Lapse.settle now (v k)

/-- What becomes of a cell.  `keep` and `touch` leave it, `modify` changes it in place and `replace`
puts a new entry for it; they differ in the time of last use. -/
inductive Effect (α : Type) where
  | keep
  | touch
  | modify (c : Cell α)
  | replace (c : Cell α)
  | remove

def Effect.apply : Effect α → Option (Cell α) → Option (Cell α)
  | .keep, l | .touch, l => l
  | .modify c, _ | .replace c, _ => some c
  | .remove, _ => none

@[simp] theorem Effect.apply_keep (l : Option (Cell α)) : Effect.keep.apply l = l := rfl
@[simp] theorem Effect.apply_touch (l : Option (Cell α)) : Effect.touch.apply l = l := rfl
@[simp] theorem Effect.apply_modify (c : Cell α) (l : Option (Cell α)) :
    (Effect.modify c).apply l = some c := rfl
@[simp] theorem Effect.apply_replace (c : Cell α) (l : Option (Cell α)) :
    (Effect.replace c).apply l = some c := rfl
@[simp] theorem Effect.apply_remove (l : Option (Cell α)) :
    (Effect.remove : Effect α).apply l = none := rfl

/-! ## Programs -/

/-- A program over the cells of a store: reply, access one key, move an entry, or drop all. -/
inductive Prog (κ α β : Type) where
  | done (reply : β)
  | access (key : κ) (effect : Option (Cell α) → Effect α)
      (next : Option (Cell α) → Prog κ α β)
  | rename (src dst : κ) (next : Bool → Prog κ α β)
  | clear (next : Prog κ α β)

namespace Prog

/-- A program that accesses one key and replies. -/
def one (key : κ) (act : Option (Cell α) → Effect α × β) : Prog κ α β :=
  access key (fun l => (act l).1) fun l => done (act l).2

/-- Read a key without using it. -/
def read (key : κ) (next : Option (Cell α) → Prog κ α β) : Prog κ α β :=
  access key (fun _ => .keep) next

def bind : Prog κ α β → (β → Prog κ α γ) → Prog κ α γ
  | done b, f => f b
  | access key effect next, f => access key effect fun l => (next l).bind f
  | rename src dst next, f => rename src dst fun b => (next b).bind f
  | clear next, f => clear (next.bind f)

instance : Monad (Prog κ α) where
  pure := done
  bind := bind

theorem bind_bind {δ : Type} (p : Prog κ α β) (f : β → Prog κ α γ) (g : γ → Prog κ α δ) :
    (p.bind f).bind g = p.bind fun b => (f b).bind g := by
  induction p with
  | done _ => rfl
  | access key effect next ih => exact congrArg (access key effect) (funext fun l => ih l)
  | rename src dst next ih => exact congrArg (rename src dst) (funext fun b => ih b)
  | clear next ih => exact congrArg clear ih

/-- The program only accesses keys of the set. -/
def On (K : Set κ) : Prog κ α β → Prop
  | done _ => True
  | access key _ next => key ∈ K ∧ ∀ l, (next l).On K
  | rename src dst next => src ∈ K ∧ dst ∈ K ∧ ∀ b, (next b).On K
  | clear _ => False

/-- Whatever the program writes over a cell that lives at the later of two times lives at both of
them or at neither. -/
def Steady (t t' : ℕ) : Prog κ α β → Prop
  | done _ => True
  | access _ effect next =>
    (∀ l, settle t' l = l → settle t ((effect l).apply l) = settle t' ((effect l).apply l)) ∧
      ∀ l, (next l).Steady t t'
  | rename _ _ next => ∀ b, (next b).Steady t t'
  | clear next => next.Steady t t'

theorem steady_self (t : ℕ) (p : Prog κ α β) : p.Steady t t := by
  induction p with
  | done _ => trivial
  | access _ _ _ ih => exact ⟨fun _ _ => rfl, ih⟩
  | rename _ _ _ ih => exact ih
  | clear _ ih => exact ih

/-- The program takes no entry out of the store. -/
def Retains : Prog κ α β → Prop
  | done _ => True
  | access _ effect next => (∀ l, effect l ≠ .remove) ∧ ∀ l, (next l).Retains
  | rename _ _ _ => False
  | clear _ => False

theorem Retains.bind {p : Prog κ α β} {f : β → Prog κ α γ} (hp : p.Retains)
    (hf : ∀ b, (f b).Retains) : (p.bind f).Retains := by
  induction p with
  | done b => exact hf b
  | access _ _ _ ih => exact ⟨hp.1, fun l => ih l (hp.2 l)⟩
  | rename _ _ _ _ => exact hp.elim
  | clear _ _ => exact hp.elim

/-- The program looks at cells and changes none. -/
def Looks : Prog κ α β → Prop
  | done _ => True
  | access _ effect next => (∀ l, effect l = .keep ∨ effect l = .touch) ∧ ∀ l, (next l).Looks
  | rename _ _ _ => False
  | clear _ => False

theorem Looks.bind {p : Prog κ α β} {f : β → Prog κ α γ} (hp : p.Looks)
    (hf : ∀ b, (f b).Looks) : (p.bind f).Looks := by
  induction p with
  | done b => exact hf b
  | access _ _ _ ih => exact ⟨hp.1, fun l => ih l (hp.2 l)⟩
  | rename _ _ _ _ => exact hp.elim
  | clear _ _ => exact hp.elim

/-- Over cells of a kind the program leaves cells of the kind. -/
def Keeps (Q : Cell α → Prop) : Prog κ α β → Prop
  | done _ => True
  | access _ effect next =>
    (∀ l, Meets Q l → Meets Q ((effect l).apply l)) ∧ ∀ l, Meets Q l → (next l).Keeps Q
  | rename _ _ next => ∀ b, (next b).Keeps Q
  | clear next => next.Keeps Q

section

variable {Q : Cell α → Prop}

theorem Keeps.one {key : κ} {act : Option (Cell α) → Effect α × β}
    (keeps : ∀ l, Meets Q l → Meets Q ((act l).1.apply l)) : (Prog.one key act).Keeps Q :=
  ⟨keeps, fun _ _ => trivial⟩

theorem Keeps.bind {p : Prog κ α β} {f : β → Prog κ α γ} (hp : p.Keeps Q)
    (hf : ∀ b, (f b).Keeps Q) : (p.bind f).Keeps Q := by
  induction p with
  | done b => exact hf b
  | access _ _ _ ih => exact ⟨hp.1, fun l holds => ih l (hp.2 l holds)⟩
  | rename _ _ _ ih => exact fun b => ih b (hp b)
  | clear _ ih => exact ih hp

theorem Looks.keeps {p : Prog κ α β} (looks : p.Looks) : p.Keeps Q := by
  induction p with
  | done _ => trivial
  | access _ effect _ ih =>
    refine ⟨fun l holds => ?_, fun l _ => ih l (looks.2 l)⟩
    obtain eq | eq := looks.1 l <;> rw [eq] <;> exact holds
  | rename _ _ _ _ => exact looks.elim
  | clear _ _ => exact looks.elim

end

/-- Over cells without deadlines the program leaves cells without deadlines. -/
def Timeless : Prog κ α β → Prop
  | done _ => True
  | access _ effect next =>
    (∀ l, Lasts l → Lasts ((effect l).apply l)) ∧ ∀ l, Lasts l → (next l).Timeless
  | rename _ _ next => ∀ b, (next b).Timeless
  | clear next => next.Timeless

theorem timeless_iff_keeps {p : Prog κ α β} :
    p.Timeless ↔ p.Keeps fun c => c.expiresAtMs = none := by
  induction p with
  | done _ => rfl
  | access _ _ _ ih => exact and_congr Iff.rfl (forall_congr' fun l => forall_congr' fun _ => ih l)
  | rename _ _ _ ih => exact forall_congr' ih
  | clear _ ih => exact ih

theorem Timeless.one {key : κ} {act : Option (Cell α) → Effect α × β}
    (lasts : ∀ l, Lasts l → Lasts ((act l).1.apply l)) : (Prog.one key act).Timeless :=
  ⟨lasts, fun _ _ => trivial⟩

theorem Timeless.bind {p : Prog κ α β} {f : β → Prog κ α γ} (hp : p.Timeless)
    (hf : ∀ b, (f b).Timeless) : (p.bind f).Timeless :=
  timeless_iff_keeps.mpr ((timeless_iff_keeps.mp hp).bind fun b => timeless_iff_keeps.mp (hf b))

/-- Every reply of the program is of a kind. -/
def Yields (P : β → Prop) : Prog κ α β → Prop
  | done b => P b
  | access _ _ next => ∀ l, (next l).Yields P
  | rename _ _ next => ∀ b, (next b).Yields P
  | clear next => next.Yields P

theorem Yields.bind {P : β → Prop} {Q : γ → Prop} {p : Prog κ α β} {f : β → Prog κ α γ}
    (hp : p.Yields P) (hf : ∀ b, P b → (f b).Yields Q) : (p.bind f).Yields Q := by
  induction p with
  | done b => exact hf b hp
  | access _ _ _ ih => exact fun l => ih l (hp l)
  | rename _ _ _ ih => exact fun b => ih b (hp b)
  | clear _ ih => exact ih hp

theorem Yields.bind_of_forall {Q : γ → Prop} {p : Prog κ α β} {f : β → Prog κ α γ}
    (hf : ∀ b, (f b).Yields Q) : (p.bind f).Yields Q := by
  induction p with
  | done b => exact hf b
  | access _ _ _ ih => exact fun l => ih l
  | rename _ _ _ ih => exact fun b => ih b
  | clear _ ih => exact ih

theorem On.mono {K L : Set κ} (h : K ⊆ L) {p : Prog κ α β} (on : p.On K) : p.On L := by
  induction p with
  | done _ => trivial
  | access _ _ _ ih => exact ⟨h on.1, fun l => ih l (on.2 l)⟩
  | rename _ _ _ ih => exact ⟨h on.1, h on.2.1, fun b => ih b (on.2.2 b)⟩
  | clear _ _ => exact on.elim

theorem On.one {K : Set κ} {key : κ} (h : key ∈ K) (act : Option (Cell α) → Effect α × β) :
    (Prog.one key act).On K :=
  ⟨h, fun _ => trivial⟩

theorem On.bind {K : Set κ} {p : Prog κ α β} {f : β → Prog κ α γ} (hp : p.On K)
    (hf : ∀ b, (f b).On K) : (p.bind f).On K := by
  induction p with
  | done b => exact hf b
  | access _ _ _ ih => exact ⟨hp.1, fun l => ih l (hp.2 l)⟩
  | rename _ _ _ ih => exact ⟨hp.1, hp.2.1, fun b => ih b (hp.2.2 b)⟩
  | clear _ _ => exact hp.elim

theorem Steady.bind {t t' : ℕ} {p : Prog κ α β} {f : β → Prog κ α γ} (hp : p.Steady t t')
    (hf : ∀ b, (f b).Steady t t') : (p.bind f).Steady t t' := by
  induction p with
  | done b => exact hf b
  | access _ _ _ ih => exact ⟨hp.1, fun l => ih l (hp.2 l)⟩
  | rename _ _ _ ih => exact fun b => ih b (hp b)
  | clear _ ih => exact ih hp

/-- Related cells are alive or not together, and stay related as time passes. -/
structure Similar (R : Option (Cell α) → Option (Cell α) → Prop) : Prop where
  none : R none none
  isSome : ∀ {l l'}, R l l' → l.isSome = l'.isSome
  settle : ∀ {l l'}, R l l' → ∀ now, R (Lapse.settle now l) (Lapse.settle now l')

/-- The programs do the same to related cells, whatever they reply. -/
def Alike (R : Option (Cell α) → Option (Cell α) → Prop) : Prog κ α β → Prog κ α β → Prop
  | done _, done _ => True
  | access key effect next, access key' effect' next' =>
    key = key' ∧ ∀ l l', R l l' →
      R ((effect l).apply l) ((effect' l').apply l') ∧ Alike R (next l) (next' l')
  | rename src dst next, rename src' dst' next' =>
    src = src' ∧ dst = dst' ∧ ∀ b, Alike R (next b) (next' b)
  | clear next, clear next' => Alike R next next'
  | _, _ => False

theorem Alike.one {R : Option (Cell α) → Option (Cell α) → Prop} (key : κ)
    {act : Option (Cell α) → Effect α × β}
    (same : ∀ l l', R l l' → R ((act l).1.apply l) ((act l').1.apply l')) :
    Alike R (Prog.one key act) (Prog.one key act) :=
  ⟨rfl, fun l l' h => ⟨same l l' h, trivial⟩⟩

/-! ## The meaning on a view -/

variable [DecidableEq κ]

def eval (now : ℕ) : Prog κ α β → View κ α → β × View κ α
  | done b, v => (b, v)
  | access key effect next, v =>
    eval now (next (v key))
      (Function.update v key (settle now ((effect (v key)).apply (v key))))
  | rename src dst next, v =>
    match v src with
    | none => eval now (next false) v
    | some c => eval now (next true) (Function.update (Function.update v src none) dst (some c))
  | clear next, _ => eval now next fun _ => none

theorem eval_bind (now : ℕ) (p : Prog κ α β) (f : β → Prog κ α γ) (v : View κ α) :
    eval now (p.bind f) v = eval now (f (eval now p v).1) (eval now p v).2 := by
  induction p generalizing v with
  | done _ => rfl
  | access _ _ _ ih => exact ih _ _
  | rename src _ _ ih =>
    simp only [bind, eval]
    split <;> exact ih _ _
  | clear _ ih => exact ih _

@[simp] theorem eval_done (now : ℕ) (b : β) (v : View κ α) :
    eval now (done b : Prog κ α β) v = (b, v) := rfl

theorem eval_one (now : ℕ) (key : κ) (act : Option (Cell α) → Effect α × β) (v : View κ α) :
    eval now (one key act) v =
      ((act (v key)).2, Function.update v key (settle now ((act (v key)).1.apply (v key)))) := rfl

/-- A key outside the set keeps its cell. -/
theorem eval_frame {K : Set κ} {p : Prog κ α β} (on : p.On K) (now : ℕ) (v : View κ α) {k : κ}
    (hk : k ∉ K) : (eval now p v).2 k = v k := by
  induction p generalizing v with
  | done _ => rfl
  | access key _ _ ih =>
    have ne : k ≠ key := fun h => hk (h ▸ on.1)
    exact (ih _ (on.2 _) _).trans (Function.update_of_ne ne _ _)
  | rename src dst _ ih =>
    have ne_src : k ≠ src := fun h => hk (h ▸ on.1)
    have ne_dst : k ≠ dst := fun h => hk (h ▸ on.2.1)
    simp only [eval]
    split
    · exact ih _ (on.2.2 _) _
    · rw [ih _ (on.2.2 _), Function.update_of_ne ne_dst, Function.update_of_ne ne_src]
  | clear _ _ => exact on.elim

/-- The reply and the cells of the set depend on the cells of the set alone, and not on the time as
long as none of them lapses. -/
theorem eval_agree {K : Set κ} {t t' : ℕ} {p : Prog κ α β} (on : p.On K) (steady : p.Steady t t')
    {v w : View κ α} (agree : ∀ k ∈ K, v k = w k) (alive : ∀ k ∈ K, settle t' (w k) = w k) :
    (eval t p v).1 = (eval t' p w).1 ∧ ∀ k ∈ K, (eval t p v).2 k = (eval t' p w).2 k := by
  induction p generalizing v w with
  | done _ => exact ⟨rfl, agree⟩
  | access key effect _ ih =>
    have same : v key = w key := agree key on.1
    simp only [eval, same]
    refine ih _ (on.2 _) (steady.2 _) (fun k hk => ?_) fun k hk => ?_
    · by_cases h : k = key
      · subst h
        rw [Function.update_self, Function.update_self, steady.1 _ (alive k on.1)]
      · rw [Function.update_of_ne h, Function.update_of_ne h, agree k hk]
    · by_cases h : k = key
      · subst h
        rw [Function.update_self, settle_self]
      · rw [Function.update_of_ne h, alive k hk]
  | rename src dst _ ih =>
    have same : v src = w src := agree src on.1
    simp only [eval, same]
    cases moved : w src with
    | none => exact ih _ (on.2.2 _) (steady _) agree alive
    | some c =>
      refine ih _ (on.2.2 _) (steady _) (fun k hk => ?_) fun k hk => ?_
      · simp only [Function.update_apply]
        split_ifs <;> first | rfl | exact agree k hk
      · simp only [Function.update_apply]
        split_ifs
        · rw [← moved, alive src on.1]
        · rfl
        · exact alive k hk
  | clear _ _ => exact on.elim

/-- Of cells that have not lapsed a program leaves cells that have not. -/
theorem eval_settled (now : ℕ) (p : Prog κ α β) {v : View κ α} (live : ∀ k, settle now (v k) = v k)
    (k : κ) : settle now ((eval now p v).2 k) = (eval now p v).2 k := by
  induction p generalizing v with
  | done _ => exact live k
  | access key effect _ ih =>
    refine ih _ fun k => ?_
    by_cases h : k = key
    · subst h
      rw [Function.update_self, settle_self]
    · rw [Function.update_of_ne h, live]
  | rename src dst _ ih =>
    simp only [eval]
    cases moved : v src with
    | none => exact ih _ live
    | some c =>
      refine ih _ fun k => ?_
      simp only [Function.update_apply]
      split_ifs
      · rw [← moved, live]
      · rfl
      · exact live k
  | clear _ ih => exact ih fun _ => rfl

/-- If the cells of the set last, a program does later what it does now. -/
theorem eval_later {K : Set κ} {t t' : ℕ} {p : Prog κ α β} (on : p.On K) (steady : p.Steady t t')
    {v : View κ α} (lasting : ∀ k ∈ K, settle t' (v k) = v k) :
    (eval t p v).1 = (eval t' p (v.settle t')).1 ∧
      (eval t p v).2.settle t' = (eval t' p (v.settle t')).2 := by
  have alive (k : κ) : settle t' (v.settle t' k) = v.settle t' k := settle_self t' (v k)
  obtain ⟨reply, cells⟩ :=
    eval_agree on steady (w := v.settle t') (fun k hk => (lasting k hk).symm) fun k _ => alive k
  refine ⟨reply, funext fun k => ?_⟩
  by_cases hk : k ∈ K
  · rw [View.settle, cells k hk, eval_settled t' p alive]
  · rw [View.settle, eval_frame on t v hk, eval_frame on t' _ hk]
    rfl

theorem eval_alike {R : Option (Cell α) → Option (Cell α) → Prop} (similar : Similar R) (now : ℕ)
    {p q : Prog κ α β} (alike : Alike R p q) {v w : View κ α} (related : ∀ k, R (v k) (w k)) (k : κ) :
    R ((eval now p v).2 k) ((eval now q w).2 k) := by
  induction p generalizing q v w with
  | done _ =>
    cases q with
    | done _ => exact related k
    | access | rename | clear => exact alike.elim
  | access key effect next ih =>
    cases q with
    | access key' effect' next' =>
      obtain ⟨rfl, alike⟩ := alike
      obtain ⟨same, rest⟩ := alike _ _ (related key)
      refine ih _ rest fun k => ?_
      by_cases h : k = key
      · subst h
        rw [Function.update_self, Function.update_self]
        exact similar.settle same now
      · rw [Function.update_of_ne h, Function.update_of_ne h]
        exact related k
    | done | rename | clear => exact alike.elim
  | rename src dst next ih =>
    cases q with
    | rename src' dst' next' =>
      obtain ⟨rfl, rfl, alike⟩ := alike
      have there := similar.isSome (related src)
      simp only [eval]
      cases found : v src with
      | none =>
        rw [found, Option.isSome_none] at there
        rw [Option.not_isSome_iff_eq_none.mp (Bool.eq_false_iff.mp there.symm)]
        exact ih _ (alike false) related
      | some c =>
        rw [found, Option.isSome_some] at there
        obtain ⟨c', found'⟩ := Option.isSome_iff_exists.mp there.symm
        rw [found']
        refine ih _ (alike true) fun k => ?_
        simp only [Function.update_apply]
        split_ifs
        · exact found' ▸ found ▸ related src
        · exact similar.none
        · exact related k
    | done | access | clear => exact alike.elim
  | clear next ih =>
    cases q with
    | clear next' => exact ih alike fun _ => similar.none
    | done | access | rename => exact alike.elim

/-- Without deadlines a program does the same at any time, and leaves none. -/
theorem eval_timeless {p : Prog κ α β} (timeless : p.Timeless) (t t' : ℕ) {v : View κ α}
    (lasts : ∀ k, Lasts (v k)) :
    eval t p v = eval t' p v ∧ ∀ k, Lasts ((eval t p v).2 k) := by
  induction p generalizing v with
  | done _ => exact ⟨rfl, lasts⟩
  | access key effect next ih =>
    have cell := timeless.1 (v key) (lasts key)
    simp only [eval, cell.settle]
    refine ih _ (timeless.2 _ (lasts key)) fun k => ?_
    by_cases h : k = key
    · subst h
      rwa [Function.update_self]
    · rw [Function.update_of_ne h]
      exact lasts k
  | rename src dst next ih =>
    simp only [eval]
    cases found : v src with
    | none => exact ih _ (timeless _) lasts
    | some c =>
      refine ih _ (timeless _) fun k => ?_
      simp only [Function.update_apply]
      split_ifs
      · exact found ▸ lasts src
      · exact .none
      · exact lasts k
  | clear next ih => exact ih timeless fun _ => .none

end Prog

/-! ## The meaning on the stored entries -/

abbrev Data (κ α : Type) [Ord κ] := Std.ExtTreeMap κ (Entry α)

variable [Ord κ] [Std.TransOrd κ]

/-- The live cells of a store. -/
def live (now : ℕ) (d : Data κ α) : View κ α := fun k => settle now (d[k]?.map Entry.toCell)

/-- Every cell is of a kind. -/
def Every (Q : Cell α → Prop) (d : Data κ α) : Prop := ∀ k : κ, Meets Q (d[k]?.map Entry.toCell)

theorem Every.live {Q : Cell α → Prop} {d : Data κ α} (h : Every Q d) (now : ℕ) (k : κ) :
    Meets Q (live now d k) :=
  (h k).settle now

theorem Every.mono {Q : Cell α → Prop} {d d' : Data κ α} (h : Every Q d)
    (sub : ∀ (k : κ) (e : Entry α), d'[k]? = some e → d[k]? = some e) : Every Q d' := by
  intro k c mem
  obtain ⟨e, found, rfl⟩ := Option.map_eq_some_iff.mp mem
  exact h k e.toCell (by rw [sub k e found]; rfl)

/-- No entry has a deadline. -/
def NoDeadlines (d : Data κ α) : Prop := ∀ k : κ, Lasts (d[k]?.map Entry.toCell)

theorem NoDeadlines.live {d : Data κ α} (h : NoDeadlines d) (now : ℕ) (k : κ) :
    live now d k = d[k]?.map Entry.toCell :=
  (h k).settle now

theorem NoDeadlines.lasts {d : Data κ α} (h : NoDeadlines d) (now : ℕ) (k : κ) :
    Lasts (Lapse.live now d k) := by
  rw [h.live]
  exact h k

theorem settle_live (now : ℕ) (d : Data κ α) (k : κ) : settle now (live now d k) = live now d k :=
  settle_self _ _

/-- Carry out what becomes of a cell; a cell changed in place keeps its time of last use. -/
def store (now : ℕ) (key : κ) (d : Data κ α) : Effect α → Data κ α
  | .keep => d
  | .touch => d.alter key fun e => e.map fun e => { e with lastAccessMs := now }
  | .modify c => d.alter key fun e => some ⟨c, (e.map Entry.lastAccessMs).getD now⟩
  | .replace c => d.insert key ⟨c, now⟩
  | .remove => d.erase key

def move (now : ℕ) (src dst : κ) (d : Data κ α) : Bool × Data κ α :=
  match d[src]? with
  | none => (false, d)
  | some e => if e.isExpired now then (false, d.erase src) else (true, (d.erase src).insert dst e)

namespace Prog

def run (now : ℕ) : Prog κ α β → Data κ α → β × Data κ α
  | done b, d => (b, d)
  | access key effect next, d =>
    run now (next (live now d key)) (store now key d (effect (live now d key)))
  | rename src dst next, d => run now (next (move now src dst d).1) (move now src dst d).2
  | clear next, _ => run now next ∅

theorem Yields.run {P : β → Prop} {p : Prog κ α β} (h : p.Yields P) (now : ℕ) (d : Data κ α) :
    P (p.run now d).1 := by
  induction p generalizing d with
  | done _ => exact h
  | access _ _ _ ih => exact ih _ (h _) _
  | rename _ _ _ ih => exact ih _ (h _) _
  | clear _ ih => exact ih h _

theorem run_bind (now : ℕ) (p : Prog κ α β) (f : β → Prog κ α γ) (d : Data κ α) :
    run now (p.bind f) d = run now (f (run now p d).1) (run now p d).2 := by
  induction p generalizing d with
  | done _ => rfl
  | access _ _ _ ih => exact ih _ _
  | rename _ _ _ ih => exact ih _ _
  | clear _ ih => exact ih _

end Prog

theorem getElem?_move_agree (now : ℕ) {src : κ} (dst : κ) {d d' : Data κ α}
    (same : d[src]? = d'[src]?) :
    (move now src dst d).1 = (move now src dst d').1 ∧
      ∀ k : κ, d[k]? = d'[k]? → (move now src dst d).2[k]? = (move now src dst d').2[k]? := by
  unfold move
  rw [same]
  cases d'[src]? with
  | none => exact ⟨rfl, fun k h => h⟩
  | some e =>
    dsimp only
    split_ifs
    · refine ⟨rfl, fun k h => ?_⟩
      simp [Std.ExtTreeMap.getElem?_erase, h]
    · refine ⟨rfl, fun k h => ?_⟩
      simp [Std.ExtTreeMap.getElem?_insert, Std.ExtTreeMap.getElem?_erase, h]

theorem Every.move {Q : Cell α → Prop} {d : Data κ α} (h : Every Q d) (now : ℕ) (src dst : κ) :
    Every Q (move now src dst d).2 := by
  intro k
  unfold Lapse.move
  cases found : d[src]? with
  | none => exact h k
  | some e =>
    have moved : Meets Q (some e.toCell) := by simpa [found] using h src
    dsimp only
    split_ifs
    · rw [Std.ExtTreeMap.getElem?_erase]
      split_ifs
      · exact .none
      · exact h k
    · rw [Std.ExtTreeMap.getElem?_insert, Std.ExtTreeMap.getElem?_erase]
      split_ifs
      · exact moved
      · exact .none
      · exact h k

variable [Std.LawfulEqOrd κ]

theorem getElem?_store_of_ne {now : ℕ} {key k : κ} (h : k ≠ key) (d : Data κ α) (e : Effect α) :
    (store now key d e)[k]? = d[k]? := by
  have ne : compare key k ≠ .eq := fun eq => h (Std.LawfulEqOrd.eq_of_compare eq).symm
  cases e <;>
    simp [store, Std.ExtTreeMap.getElem?_alter, Std.ExtTreeMap.getElem?_insert,
      Std.ExtTreeMap.getElem?_erase, ne]

theorem getElem?_move_of_ne {now : ℕ} {src dst k : κ} (hs : k ≠ src) (hd : k ≠ dst)
    (d : Data κ α) : (move now src dst d).2[k]? = d[k]? := by
  have ne_src : compare src k ≠ .eq := fun eq => hs (Std.LawfulEqOrd.eq_of_compare eq).symm
  have ne_dst : compare dst k ≠ .eq := fun eq => hd (Std.LawfulEqOrd.eq_of_compare eq).symm
  unfold move
  split
  · rfl
  · split <;>
      simp [Std.ExtTreeMap.getElem?_insert, Std.ExtTreeMap.getElem?_erase, ne_src, ne_dst]

theorem getElem?_store_self {now : ℕ} {key : κ} {d d' : Data κ α} (same : d[key]? = d'[key]?)
    (e : Effect α) : (store now key d e)[key]? = (store now key d' e)[key]? := by
  cases e <;> simp [store, same]

/-- An entry outside the set is left as it was, its time of last use included. -/
theorem Prog.run_frame {K : Set κ} {p : Prog κ α β} (on : p.On K) (now : ℕ) (d : Data κ α) {k : κ}
    (hk : k ∉ K) : (p.run now d).2[k]? = d[k]? := by
  induction p generalizing d with
  | done _ => rfl
  | access key _ _ ih =>
    have ne : k ≠ key := fun h => hk (h ▸ on.1)
    exact (ih _ (on.2 _) _).trans (getElem?_store_of_ne ne _ _)
  | rename src dst _ ih =>
    have ne_src : k ≠ src := fun h => hk (h ▸ on.1)
    have ne_dst : k ≠ dst := fun h => hk (h ▸ on.2.1)
    exact (ih _ (on.2.2 _) _).trans (getElem?_move_of_ne ne_src ne_dst _)
  | clear _ _ => exact on.elim

theorem mem_store {now : ℕ} {key k : κ} {d : Data κ α} {e : Effect α} (kept : e ≠ .remove)
    (hk : k ∈ d) : k ∈ store now key d e := by
  rw [Std.ExtTreeMap.mem_iff_isSome_getElem?] at hk ⊢
  by_cases h : k = key
  · subst h
    cases e with
    | remove => exact absurd rfl kept
    | keep => exact hk
    | touch => simpa [store] using hk
    | modify c | replace c => simp [store]
  · rwa [getElem?_store_of_ne h]

theorem Prog.mem_run {p : Prog κ α β} (h : p.Retains) (now : ℕ) {d : Data κ α} {k : κ}
    (hk : k ∈ d) : k ∈ (p.run now d).2 := by
  induction p generalizing d with
  | done _ => exact hk
  | access _ _ _ ih => exact ih _ (h.2 _) (mem_store (h.1 _) hk)
  | rename _ _ _ _ => exact h.elim
  | clear _ _ => exact h.elim

theorem cell_store_looks {now : ℕ} {key : κ} {d : Data κ α} {e : Effect α}
    (looks : e = .keep ∨ e = .touch) (k : κ) :
    (store now key d e)[k]?.map Entry.toCell = d[k]?.map Entry.toCell := by
  obtain rfl | rfl := looks
  · rfl
  · by_cases h : k = key
    · subst h
      simp only [store, Std.ExtTreeMap.getElem?_alter_self, Option.map_map]
      rfl
    · rw [getElem?_store_of_ne h]

theorem Prog.cell_run_looks {p : Prog κ α β} (looks : p.Looks) (now : ℕ) (d : Data κ α) (k : κ) :
    (p.run now d).2[k]?.map Entry.toCell = d[k]?.map Entry.toCell := by
  induction p generalizing d with
  | done _ => rfl
  | access _ _ _ ih => exact (ih _ (looks.2 _) _).trans (cell_store_looks (looks.1 _) k)
  | rename _ _ _ _ => exact looks.elim
  | clear _ _ => exact looks.elim

theorem Every.store {Q : Cell α → Prop} {d : Data κ α} (h : Every Q d) (now : ℕ) (key : κ)
    {e : Effect α} (cell : Meets Q (e.apply (Lapse.live now d key))) : Every Q (store now key d e) := by
  intro k
  by_cases same : k = key
  · subst same
    cases e with
    | keep => exact h k
    | touch =>
      simp only [Lapse.store, Std.ExtTreeMap.getElem?_alter_self, Option.map_map]
      exact h k
    | modify c | replace c => simpa [Lapse.store] using cell
    | remove => simpa [Lapse.store] using cell
  · rw [getElem?_store_of_ne same]
    exact h k

theorem Prog.run_keeps {Q : Cell α → Prop} {p : Prog κ α β} (keeps : p.Keeps Q) (now : ℕ)
    {d : Data κ α} (h : Every Q d) : Every Q (p.run now d).2 := by
  induction p generalizing d with
  | done _ => exact h
  | access key effect next ih =>
    have holds := h.live now key
    exact ih _ (keeps.2 _ holds) (h.store now key (keeps.1 _ holds))
  | rename src dst next ih => exact ih _ (keeps _) (h.move now src dst)
  | clear next ih => exact ih keeps fun k => by simpa using .none

theorem Prog.run_timeless {p : Prog κ α β} (timeless : p.Timeless) (now : ℕ) {d : Data κ α}
    (h : NoDeadlines d) : NoDeadlines (p.run now d).2 :=
  run_keeps (timeless_iff_keeps.mp timeless) now h

/-- The reply and the entries of the set depend on the entries of the set alone. -/
theorem Prog.run_agree {K : Set κ} {p : Prog κ α β} (on : p.On K) (now : ℕ) {d d' : Data κ α}
    (agree : ∀ k ∈ K, d[k]? = d'[k]?) :
    (p.run now d).1 = (p.run now d').1 ∧ ∀ k ∈ K, (p.run now d).2[k]? = (p.run now d').2[k]? := by
  induction p generalizing d d' with
  | done _ => exact ⟨rfl, agree⟩
  | access key effect _ ih =>
    have same : live now d key = live now d' key := by rw [live, live, agree key on.1]
    simp only [run, same]
    refine ih _ (on.2 _) fun k hk => ?_
    by_cases h : k = key
    · subst h
      exact getElem?_store_self (agree k hk) _
    · rw [getElem?_store_of_ne h, getElem?_store_of_ne h, agree k hk]
  | rename src dst _ ih =>
    obtain ⟨reply, moved⟩ := getElem?_move_agree now dst (agree src on.1)
    simp only [run, reply]
    exact ih _ (on.2.2 _) fun k hk => moved k (agree k hk)
  | clear _ _ => exact on.elim

/-- Programs that stay on disjoint sets run in either order. -/
theorem Prog.run_comm {K L : Set κ} {p : Prog κ α β} {q : Prog κ α γ} (hp : p.On K) (hq : q.On L)
    (disjoint : ∀ k ∈ K, k ∉ L) (now now' : ℕ) (d : Data κ α) :
    (q.run now' (p.run now d).2).2 = (p.run now (q.run now' d).2).2 := by
  refine Std.ExtTreeMap.ext_getElem? fun k => ?_
  by_cases first : k ∈ K
  · rw [run_frame hq _ _ (disjoint k first)]
    refine ((run_agree hp now fun k hk => ?_).2 k first).symm
    exact run_frame hq _ _ (disjoint k hk)
  · rw [run_frame hp _ _ first]
    by_cases second : k ∈ L
    · refine (run_agree hq now' fun k hk => ?_).2 k second
      exact run_frame hp _ _ fun h => disjoint k h hk
    · rw [run_frame hq _ _ second, run_frame hq _ _ second, run_frame hp _ _ first]

variable [DecidableEq κ]

theorem live_store (now : ℕ) (key : κ) (d : Data κ α) (e : Effect α) :
    live now (store now key d e) =
      Function.update (live now d) key (settle now (e.apply (live now d key))) := by
  funext k
  by_cases h : k = key
  · subst h
    rw [Function.update_self]
    cases e with
    | keep => exact (settle_self _ _).symm
    | touch =>
      simp only [live, store, Std.ExtTreeMap.getElem?_alter_self, Effect.apply_touch, settle_self,
        Option.map_map]
      rfl
    | modify c => simp [live, store]
    | replace c => simp [live, store]
    | remove => simp [live, store]
  · rw [Function.update_of_ne h, live, getElem?_store_of_ne h, live]

theorem live_move_none {now : ℕ} {src : κ} {d : Data κ α} (h : live now d src = none) (dst : κ) :
    (move now src dst d).1 = false ∧ live now (move now src dst d).2 = live now d := by
  unfold move
  cases found : d[src]? with
  | none => exact ⟨rfl, rfl⟩
  | some e =>
    have lapsed : e.isExpired now = true := by
      simpa [live, found, settle] using h
    simp only [lapsed, if_true]
    refine ⟨trivial, ?_⟩
    have := live_store now src d .remove
    rw [Effect.apply_remove, settle_none, ← h, Function.update_eq_self] at this
    exact this

theorem live_move_some {now : ℕ} {src : κ} {d : Data κ α} {c : Cell α}
    (h : live now d src = some c) (dst : κ) :
    (move now src dst d).1 = true ∧ live now (move now src dst d).2 =
      Function.update (Function.update (live now d) src none) dst (some c) := by
  obtain ⟨found, alive⟩ := settle_eq_some.mp h
  obtain ⟨e, he, rfl⟩ := Option.map_eq_some_iff.mp found
  unfold move
  simp only [he, alive]
  refine ⟨rfl, ?_⟩
  funext k
  have erased := congrFun (live_store now src d .remove) k
  simp only [live, store] at erased
  by_cases hd : k = dst
  · subst hd
    simp [live, settle_eq_some, alive]
  · have ne : compare dst k ≠ .eq := fun eq => hd (Std.LawfulEqOrd.eq_of_compare eq).symm
    rw [Function.update_of_ne hd]
    simp only [live, Std.ExtTreeMap.getElem?_insert, ne, Bool.false_eq_true, if_false]
    exact erased

/-- A run on the stored entries does what the program means on the live cells. -/
theorem Prog.run_eval (now : ℕ) (p : Prog κ α β) (d : Data κ α) :
    (p.run now d).1 = (p.eval now (live now d)).1 ∧
      live now (p.run now d).2 = (p.eval now (live now d)).2 := by
  induction p generalizing d with
  | done _ => exact ⟨rfl, rfl⟩
  | access _ _ _ ih =>
    simp only [run, eval, ← live_store]
    exact ih _ _
  | rename src dst _ ih =>
    simp only [run, eval]
    cases h : live now d src with
    | none =>
      obtain ⟨reply, kept⟩ := live_move_none h dst
      rw [reply]
      simpa only [kept] using ih false (move now src dst d).2
    | some c =>
      obtain ⟨reply, moved⟩ := live_move_some h dst
      rw [reply]
      simpa only [moved] using ih true (move now src dst d).2
  | clear _ ih =>
    have empty : live now (∅ : Data κ α) = fun _ => none := by
      funext k
      simp [live]
    simpa only [run, eval, empty] using ih ∅

theorem Prog.run_fst (now : ℕ) (p : Prog κ α β) (d : Data κ α) :
    (p.run now d).1 = (p.eval now (live now d)).1 :=
  (p.run_eval now d).1

theorem live_run (now : ℕ) (p : Prog κ α β) (d : Data κ α) :
    live now (p.run now d).2 = (p.eval now (live now d)).2 :=
  (p.run_eval now d).2

end Lapse
