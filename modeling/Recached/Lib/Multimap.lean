import Mathlib.Data.List.Nodup
import Mathlib.Tactic.Common

/-!
# Tables of holders

A list of pairs of a key and those who hold it stands for a relation between keys and holders, kept
without repetitions and without empty entries.  `holders` reads it; `add`, `remove` and `removeAll` change it, and each has a
lemma on the relation (`lists_add` and so on) and one on the shape (`Wf.add` and so on).
-/

namespace Multimap

section

variable {κ ν : Type} {t : List (κ × List ν)} {k : κ} {v : ν}

/-- The table has the holder under the key. -/
def Lists (t : List (κ × List ν)) (k : κ) (v : ν) : Prop := ∃ vs, (k, vs) ∈ t ∧ v ∈ vs

/-- Every key once, every holder of a key once, and no entry without a holder. -/
structure Wf (t : List (κ × List ν)) : Prop where
  keys : (t.map Prod.fst).Nodup
  distinct : ∀ e ∈ t, e.2.Nodup
  inhabited : ∀ e ∈ t, e.2 ≠ []

theorem not_lists_nil : ¬Lists ([] : List (κ × List ν)) k v := fun ⟨_, mem, _⟩ => by cases mem

theorem wf_nil : Wf ([] : List (κ × List ν)) :=
  ⟨List.nodup_nil, fun _ h => (by cases h), fun _ h => (by cases h)⟩

/-- What a filter of the entries leaves that have a holder is well formed if the entries have kept their
keys and lost holders only. -/
theorem Wf.filterMap (h : Wf t) {g : κ × List ν → List ν} (sub : ∀ e, (g e).Sublist e.2)
    {p : κ × List ν → Bool} (full : ∀ e ∈ t, p (e.1, g e) = true → g e ≠ []) :
    Wf ((t.map fun e => (e.1, g e)).filter p) := by
  refine ⟨?_, ?_, ?_⟩
  · refine h.keys.sublist ?_
    have kept := (List.filter_sublist (l := t.map fun e => (e.1, g e)) (p := p)).map Prod.fst
    rwa [List.map_map] at kept
  · intro e mem
    obtain ⟨e', mem', rfl⟩ := List.mem_map.mp (List.mem_of_mem_filter mem)
    exact (h.distinct e' mem').sublist (sub e')
  · intro e mem
    obtain ⟨inside, passes⟩ := List.mem_filter.mp mem
    obtain ⟨e', mem', rfl⟩ := List.mem_map.mp inside
    exact full e' mem' passes

end

/-! ## The holders of a key -/

section

variable {κ ν : Type} [DecidableEq κ] {t : List (κ × List ν)} {k : κ} {v : ν}

/-- Those who hold the key. -/
def holders (k : κ) (t : List (κ × List ν)) : List ν :=
  ((t.find? fun e => e.1 = k).map Prod.snd).getD []

/-- Put other holders in the place of those of a key; an entry that becomes empty goes. -/
def keep (k : κ) (vs : List ν) (t : List (κ × List ν)) : List (κ × List ν) :=
  (t.map fun e => if e.1 = k then (e.1, vs) else e).filter fun e => e.1 != k || !e.2.isEmpty

theorem entry_of_find? {e : κ × List ν} (found : (t.find? fun e => e.1 = k) = some e) :
    (k, e.2) ∈ t ∧ holders k t = e.2 := by
  have key := List.find?_some found
  rw [decide_eq_true_iff] at key
  refine ⟨key ▸ List.mem_of_find?_eq_some found, ?_⟩
  rw [holders, found]
  rfl

theorem holders_eq (h : Wf t) {vs : List ν} (mem : (k, vs) ∈ t) : holders k t = vs := by
  cases found : t.find? fun e => e.1 = k with
  | none => exact absurd (decide_eq_true rfl) (List.find?_eq_none.mp found _ mem)
  | some e =>
    obtain ⟨entry, holders⟩ := entry_of_find? found
    have same : (k, e.2) = (k, vs) := List.inj_on_of_nodup_map h.keys entry mem rfl
    rw [holders]
    exact (Prod.mk.inj same).2

theorem mem_holders (h : Wf t) : v ∈ holders k t ↔ Lists t k v := by
  constructor
  · intro mem
    cases found : t.find? fun e => e.1 = k with
    | none => simp [holders, found] at mem
    | some e =>
      obtain ⟨entry, holders⟩ := entry_of_find? found
      exact ⟨e.2, entry, holders ▸ mem⟩
  · rintro ⟨vs, entry, mem⟩
    rwa [holders_eq h entry]

theorem nodup_holders (h : Wf t) (k : κ) : (holders k t).Nodup := by
  cases found : t.find? fun e => e.1 = k with
  | none => simp [holders, found]
  | some e =>
    obtain ⟨entry, holders⟩ := entry_of_find? found
    rw [holders]
    exact h.distinct (k, e.2) entry

/-- To leave the holders in place is to leave the table. -/
theorem keep_holders (h : Wf t) (k : κ) : keep k (holders k t) t = t := by
  have same : (t.map fun e => if e.1 = k then (e.1, holders k t) else e) = t := by
    refine (List.map_congr_left fun e mem => ?_).trans (List.map_id t)
    split_ifs with key
    · subst key
      rw [holders_eq h mem]
      rfl
    · rfl
  rw [keep, same, List.filter_eq_self]
  intro e mem
  simp [h.inhabited e mem]

end

/-! ## The end of a holder -/

section

variable {κ ν : Type} [DecidableEq ν] {t : List (κ × List ν)} {k : κ} {v v' : ν}

def removeAll (v : ν) (t : List (κ × List ν)) : List (κ × List ν) :=
  (t.map fun e => (e.1, e.2.filter (· != v))).filter fun e => !e.2.isEmpty

theorem lists_removeAll : Lists (removeAll v t) k v' ↔ Lists t k v' ∧ v' ≠ v := by
  constructor
  · rintro ⟨vs, entry, mem⟩
    obtain ⟨e, there, eq⟩ := List.mem_map.mp (List.mem_of_mem_filter entry)
    cases eq
    obtain ⟨old, other⟩ := List.mem_filter.mp mem
    exact ⟨⟨e.2, there, old⟩, by simpa using other⟩
  · rintro ⟨⟨vs, entry, mem⟩, other⟩
    have kept : v' ∈ vs.filter (· != v) := List.mem_filter.mpr ⟨mem, by simpa using other⟩
    refine ⟨vs.filter (· != v), List.mem_filter.mpr ⟨List.mem_map_of_mem entry, ?_⟩, kept⟩
    simpa using List.ne_nil_of_mem kept

theorem Wf.removeAll (h : Wf t) (v : ν) : Wf (removeAll v t) := by
  refine h.filterMap (fun e => List.filter_sublist) fun e _ passes => ?_
  simpa using passes

end

/-! ## A key and a holder -/

section

variable {κ ν : Type} [DecidableEq κ] {t : List (κ × List ν)} {k k' : κ} {v v' : ν}

def add (k : κ) (v : ν) (t : List (κ × List ν)) : List (κ × List ν) :=
  if t.any fun e => e.1 = k then t.map fun e => if e.1 = k then (e.1, e.2 ++ [v]) else e
  else t ++ [(k, [v])]

theorem lists_add : Lists (add k v t) k' v' ↔ Lists t k' v' ∨ k' = k ∧ v' = v := by
  unfold add
  split_ifs with known
  · constructor
    · rintro ⟨vs, entry, mem⟩
      obtain ⟨e, there, eq⟩ := List.mem_map.mp entry
      split_ifs at eq with key
      · cases eq
        rcases List.mem_append.mp mem with old | new
        · exact .inl ⟨e.2, there, old⟩
        · exact .inr ⟨key, List.mem_singleton.mp new⟩
      · subst eq
        exact .inl ⟨vs, there, mem⟩
    · rintro (⟨vs, entry, mem⟩ | ⟨rfl, rfl⟩)
      · by_cases key : k' = k
        · exact ⟨vs ++ [v], List.mem_map.mpr ⟨_, entry, if_pos key⟩, List.mem_append_left _ mem⟩
        · exact ⟨vs, List.mem_map.mpr ⟨_, entry, if_neg key⟩, mem⟩
      · obtain ⟨e, there, key⟩ := List.any_eq_true.mp known
        have key := of_decide_eq_true key
        refine ⟨e.2 ++ [v'], List.mem_map.mpr ⟨e, there, ?_⟩, by simp⟩
        rw [if_pos key, key]
  · constructor
    · rintro ⟨vs, entry, mem⟩
      rcases List.mem_append.mp entry with old | new
      · exact .inl ⟨vs, old, mem⟩
      · cases List.mem_singleton.mp new
        exact .inr ⟨rfl, List.mem_singleton.mp mem⟩
    · rintro (⟨vs, entry, mem⟩ | ⟨rfl, rfl⟩)
      · exact ⟨vs, List.mem_append_left _ entry, mem⟩
      · exact ⟨[v'], by simp, List.mem_singleton.mpr rfl⟩

theorem Wf.add (h : Wf t) (new : ¬Lists t k v) : Wf (add k v t) := by
  unfold Multimap.add
  split_ifs with known
  · refine ⟨?_, fun e mem => ?_, fun e mem => ?_⟩
    · have same : Prod.fst ∘ (fun e : κ × List ν => if e.1 = k then (e.1, e.2 ++ [v]) else e) =
          Prod.fst := by
        funext e
        simp only [Function.comp_apply]
        split_ifs <;> rfl
      rw [List.map_map, same]
      exact h.keys
    · obtain ⟨e, there, rfl⟩ := List.mem_map.mp mem
      split_ifs with key
      · refine List.nodup_append_comm.mp (List.nodup_cons.mpr ⟨fun old => new ?_, h.distinct e there⟩)
        exact ⟨e.2, key ▸ there, old⟩
      · exact h.distinct e there
    · obtain ⟨e, there, rfl⟩ := List.mem_map.mp mem
      split_ifs
      · simp
      · exact h.inhabited e there
  · have unknown : k ∉ t.map Prod.fst := by
      intro mem
      obtain ⟨e, there, key⟩ := List.mem_map.mp mem
      exact known (List.any_eq_true.mpr ⟨e, there, decide_eq_true key⟩)
    refine ⟨?_, fun e mem => ?_, fun e mem => ?_⟩
    · rw [List.map_append]
      exact List.nodup_append_comm.mp (List.nodup_cons.mpr ⟨unknown, h.keys⟩)
    · rcases List.mem_append.mp mem with old | new
      · exact h.distinct e old
      · rw [List.mem_singleton.mp new]
        exact List.nodup_singleton v
    · rcases List.mem_append.mp mem with old | new
      · exact h.inhabited e old
      · rw [List.mem_singleton.mp new]
        exact List.cons_ne_nil v []

variable [DecidableEq ν]

def remove (k : κ) (v : ν) (t : List (κ × List ν)) : List (κ × List ν) :=
  (t.map fun e => if e.1 = k then (e.1, e.2.filter (· != v)) else e).filter
    fun e => e.1 != k || !e.2.isEmpty

theorem lists_remove : Lists (remove k v t) k' v' ↔ Lists t k' v' ∧ ¬(k' = k ∧ v' = v) := by
  constructor
  · rintro ⟨vs, entry, mem⟩
    obtain ⟨e, there, eq⟩ := List.mem_map.mp (List.mem_of_mem_filter entry)
    split_ifs at eq with key
    · cases eq
      obtain ⟨old, other⟩ := List.mem_filter.mp mem
      exact ⟨⟨e.2, there, old⟩, fun same => by simp [same.2] at other⟩
    · subst eq
      exact ⟨⟨vs, there, mem⟩, fun same => key same.1⟩
  · rintro ⟨⟨vs, entry, mem⟩, other⟩
    by_cases key : k' = k
    · have kept : v' ∈ vs.filter (· != v) :=
        List.mem_filter.mpr ⟨mem, by simpa using fun same => other ⟨key, same⟩⟩
      refine ⟨vs.filter (· != v), List.mem_filter.mpr ⟨?_, ?_⟩, kept⟩
      · exact List.mem_map.mpr ⟨_, entry, if_pos key⟩
      · simp [List.ne_nil_of_mem kept]
    · refine ⟨vs, List.mem_filter.mpr ⟨List.mem_map.mpr ⟨_, entry, if_neg key⟩, ?_⟩, mem⟩
      simp [key]

theorem Wf.remove (h : Wf t) (k : κ) (v : ν) : Wf (remove k v t) := by
  have entries : (t.map fun e => if e.1 = k then (e.1, e.2.filter (· != v)) else e) =
      t.map fun e => (e.1, if e.1 = k then e.2.filter (· != v) else e.2) :=
    List.map_congr_left fun e _ => by split_ifs <;> rfl
  rw [Multimap.remove, entries]
  refine h.filterMap (fun e => ?_) fun e mem passes => ?_
  · split_ifs
    · exact List.filter_sublist
    · exact List.Sublist.refl _
  · split_ifs at passes ⊢ with key
    · simpa [key] using passes
    · exact h.inhabited e mem

end

/-! ## Fewer holders -/

section

variable {κ ν : Type} {t t' t'' : List (κ × List ν)} {k : κ} {v : ν}

/-- Keys and holders have gone, and nothing else has changed. -/
inductive Fewer : List (κ × List ν) → List (κ × List ν) → Prop
  | nil : Fewer [] []
  | keep (k : κ) {vs vs' : List ν} {t t' : List (κ × List ν)} (sub : vs'.Sublist vs) (rest : Fewer t t') :
    Fewer ((k, vs) :: t) ((k, vs') :: t')
  | drop (e : κ × List ν) {t t' : List (κ × List ν)} (rest : Fewer t t') : Fewer (e :: t) t'

/-- Every key once, and every holder of a key once. -/
structure Distinct (t : List (κ × List ν)) : Prop where
  keys : (t.map Prod.fst).Nodup
  holders : ∀ e ∈ t, e.2.Nodup

theorem Wf.toDistinct (h : Wf t) : Distinct t := ⟨h.keys, h.distinct⟩

theorem Fewer.refl (t : List (κ × List ν)) : Fewer t t := by
  induction t with
  | nil => exact .nil
  | cons e t ih => exact .keep e.1 (List.Sublist.refl _) ih

theorem Fewer.trans (h : Fewer t t') (h' : Fewer t' t'') : Fewer t t'' := by
  induction h generalizing t'' with
  | nil => exact h'
  | keep k sub rest ih =>
    cases h' with
    | keep k sub' rest' => exact .keep k (sub'.trans sub) (ih rest')
    | drop e rest' => exact .drop _ (ih rest')
  | drop e rest ih => exact .drop e (ih h')

theorem Fewer.filter (t : List (κ × List ν)) (p : κ × List ν → Bool) : Fewer t (t.filter p) := by
  induction t with
  | nil => exact .nil
  | cons e t ih =>
    rw [List.filter_cons]
    split_ifs
    · exact .keep e.1 (List.Sublist.refl _) ih
    · exact .drop e ih

theorem Fewer.map {g : κ × List ν → κ × List ν} (keys : ∀ e ∈ t, (g e).1 = e.1)
    (sub : ∀ e ∈ t, (g e).2.Sublist e.2) : Fewer t (t.map g) := by
  induction t with
  | nil => exact .nil
  | cons e t ih =>
    have first : g e = (e.1, (g e).2) := Prod.ext (keys e List.mem_cons_self) rfl
    rw [List.map_cons, first]
    exact .keep e.1 (sub e List.mem_cons_self)
      (ih (fun e' mem => keys e' (List.mem_cons_of_mem _ mem))
        fun e' mem => sub e' (List.mem_cons_of_mem _ mem))

theorem Fewer.lists (h : Fewer t t') (listed : Lists t' k v) : Lists t k v := by
  induction h with
  | nil => exact listed
  | keep k' sub rest ih =>
    obtain ⟨vs, mem, holds⟩ := listed
    rcases List.mem_cons.mp mem with eq | mem
    · cases eq
      exact ⟨_, List.mem_cons_self, sub.subset holds⟩
    · obtain ⟨vs, mem, holds⟩ := ih ⟨vs, mem, holds⟩
      exact ⟨vs, List.mem_cons_of_mem _ mem, holds⟩
  | drop e rest ih =>
    obtain ⟨vs, mem, holds⟩ := ih listed
    exact ⟨vs, List.mem_cons_of_mem _ mem, holds⟩

theorem Fewer.keys (h : Fewer t t') : (t'.map Prod.fst).Sublist (t.map Prod.fst) := by
  induction h with
  | nil => exact List.Sublist.slnil
  | keep k sub rest ih => exact ih.cons_cons k
  | drop e rest ih => exact ih.cons e.1

theorem Distinct.fewer (distinct : Distinct t) (h : Fewer t t') : Distinct t' := by
  refine ⟨distinct.keys.sublist h.keys, ?_⟩
  have holders := distinct.holders
  clear distinct
  induction h with
  | nil => exact holders
  | keep k sub rest ih =>
    obtain ⟨first, others⟩ := List.forall_mem_cons.mp holders
    exact List.forall_mem_cons.mpr ⟨first.sublist sub, ih others⟩
  | drop e rest ih => exact ih (List.forall_mem_cons.mp holders).2

variable [DecidableEq κ]

theorem Distinct.add (h : Distinct t) (new : ¬Lists t k v) : Distinct (add k v t) := by
  unfold Multimap.add
  split_ifs with known
  · have keys : (t.map fun e => if e.1 = k then (e.1, e.2 ++ [v]) else e).map Prod.fst = t.map Prod.fst := by
      rw [List.map_map]
      refine List.map_congr_left fun e _ => ?_
      simp only [Function.comp_apply]
      split_ifs <;> rfl
    refine ⟨keys ▸ h.keys, fun e mem => ?_⟩
    obtain ⟨e, there, rfl⟩ := List.mem_map.mp mem
    split_ifs with key
    · have absent : v ∉ e.2 := fun old => new ⟨e.2, key ▸ there, old⟩
      exact (h.holders e there).append (List.nodup_singleton v) (List.disjoint_singleton.mpr absent)
    · exact h.holders e there
  · have unknown : k ∉ t.map Prod.fst := by
      intro mem
      obtain ⟨e, there, key⟩ := List.mem_map.mp mem
      exact known (List.any_eq_true.mpr ⟨e, there, decide_eq_true key⟩)
    refine ⟨?_, fun e mem => ?_⟩
    · rw [List.map_append]
      exact h.keys.append (List.nodup_singleton k) (List.disjoint_singleton.mpr unknown)
    · rcases List.mem_append.mp mem with old | added
      · exact h.holders e old
      · rw [List.mem_singleton.mp added]
        exact List.nodup_singleton v

theorem keep_fewer (h : Wf t) {vs : List ν} (sub : vs.Sublist (holders k t)) : Fewer t (keep k vs t) := by
  refine (Fewer.map (fun e _ => ?_) fun e mem => ?_).trans (.filter _ _)
  · split_ifs <;> rfl
  · split_ifs with key
    · subst key
      rwa [holders_eq h (show (e.1, e.2) ∈ t from mem)] at sub
    · exact List.Sublist.refl _

theorem Wf.keep (h : Wf t) {vs : List ν} (sub : vs.Sublist (holders k t)) : Wf (keep k vs t) := by
  obtain ⟨keys, distinct⟩ := h.toDistinct.fewer (keep_fewer h sub)
  refine ⟨keys, distinct, fun e mem => ?_⟩
  obtain ⟨entry, passes⟩ := List.mem_filter.mp mem
  obtain ⟨e, there, rfl⟩ := List.mem_map.mp entry
  split_ifs at passes ⊢ with key
  · simpa [key] using passes
  · exact h.inhabited e there

/-- A holder stays that is among those that are put in the place of the others. -/
theorem lists_keep {vs : List ν} {k' : κ} (listed : Lists t k' v) (stays : k' = k → v ∈ vs) :
    Lists (keep k vs t) k' v := by
  obtain ⟨old, mem, holds⟩ := listed
  by_cases key : k' = k
  · have full : vs ≠ [] := List.ne_nil_of_mem (stays key)
    refine ⟨vs, List.mem_filter.mpr ⟨List.mem_map.mpr ⟨_, mem, if_pos key⟩, ?_⟩, stays key⟩
    simp [full]
  · refine ⟨old, List.mem_filter.mpr ⟨List.mem_map.mpr ⟨_, mem, if_neg key⟩, ?_⟩, holds⟩
    simp [key]

end

end Multimap
