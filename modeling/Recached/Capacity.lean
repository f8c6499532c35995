import Recached.Views

/-!
# What eviction does to a store

However its victims are chosen, eviction erases them and never raises the memory account.
-/

namespace Recached

open Text Lapse

/-- A view without some keys. -/
def without (keys : List String) (v : View) : View := fun k => if k ∈ keys then none else v k

@[simp] theorem without_nil (v : View) : without [] v = v := by
  funext k
  simp [without]

theorem without_append (keys keys' : List String) (v : View) :
    without (keys ++ keys') v = without keys' (without keys v) := by
  funext k
  by_cases h : k ∈ keys <;> by_cases h' : k ∈ keys' <;> simp [without, h, h']

namespace KeyValueStore

/-- The second store is the first one without the victims, and accounted with no more memory. -/
structure Evicts (s s' : KeyValueStore) (victims : List String) : Prop where
  data : s'.data = victims.foldl (fun d key => d.erase key) s.data
  memory : s'.memoryBytes ≤ s.memoryBytes

theorem Evicts.refl (s : KeyValueStore) : Evicts s s [] := ⟨rfl, le_rfl⟩

theorem Evicts.trans {s s' s'' : KeyValueStore} {victims victims' : List String}
    (h : Evicts s s' victims) (h' : Evicts s' s'' victims') : Evicts s s'' (victims ++ victims') :=
  ⟨by rw [h'.data, h.data, List.foldl_append], h'.memory.trans h.memory⟩

theorem live_erase (now : ℕ) (d : Data) (key : String) :
    Lapse.live now (d.erase key) = without [key] (Lapse.live now d) := by
  have erased := live_store now key d .remove
  rw [Effect.apply_remove, Lapse.settle_none] at erased
  refine erased.trans (funext fun k => ?_)
  simp [without, Function.update_apply]

theorem live_foldl_erase (now : ℕ) (victims : List String) (d : Data) :
    Lapse.live now (victims.foldl (fun d key => d.erase key) d) = without victims (Lapse.live now d) := by
  induction victims generalizing d with
  | nil => exact (without_nil _).symm
  | cons key victims ih =>
    rw [List.foldl_cons, ih, live_erase, ← without_append]
    rfl

theorem Evicts.live {s s' : KeyValueStore} {victims : List String} (h : Evicts s s' victims)
    (now : ℕ) : s'.live now = without victims (s.live now) := by
  rw [KeyValueStore.live, h.data, live_foldl_erase]
  rfl

theorem adjustMemory_zero (s : KeyValueStore) (freed : ℕ) :
    (s.adjustMemory freed 0).memoryBytes ≤ s.memoryBytes := by
  unfold adjustMemory
  split_ifs with h
  · simp [Nat.le_zero.mp h]
  · exact Nat.sub_le _ _

theorem evictOne_evicts {now : ℕ} {sample : List ℕ} {s s' : KeyValueStore} {victim : String}
    (h : s.evictOne now sample = some (victim, s')) : Evicts s s' [victim] := by
  unfold evictOne at h
  dsimp only at h
  by_cases never : s.evictionPolicy = .noEviction
  · rw [if_pos never] at h
    exact absurd h nofun
  · rw [if_neg never] at h
    split at h
    · exact absurd h nofun
    · obtain ⟨rfl, rfl⟩ := Prod.mk.inj (Option.some.inj h)
      refine ⟨?_, adjustMemory_zero ..⟩
      exact adjustMemory_data ..

variable (env : Env)

theorem evictMany_evicts (n : ℕ) (evicted : List String) (s : KeyValueStore) :
    ∃ victims, (s.evictMany env n evicted).2.2 = evicted ++ victims ∧
      Evicts s (s.evictMany env n evicted).2.1 victims := by
  induction n generalizing evicted s with
  | zero => exact ⟨[], (List.append_nil _).symm, .refl s⟩
  | succ n ih =>
    unfold evictMany
    split
    · exact ⟨[], (List.append_nil _).symm, .refl s⟩
    · rename_i key s' chosen
      obtain ⟨victims, list, evicts⟩ := ih (evicted ++ [key]) s'
      exact ⟨key :: victims, by rw [list, List.append_assoc]; rfl, (evictOne_evicts chosen).trans evicts⟩

theorem evictUntil_evicts (target fuel : ℕ) (evicted : List String) (s : KeyValueStore) :
    ∃ victims, (s.evictUntil env target fuel evicted).2 = evicted ++ victims ∧
      Evicts s (s.evictUntil env target fuel evicted).1 victims := by
  induction fuel generalizing evicted s with
  | zero => exact ⟨[], (List.append_nil _).symm, .refl s⟩
  | succ fuel ih =>
    unfold evictUntil
    split_ifs
    · exact ⟨[], (List.append_nil _).symm, .refl s⟩
    · split
      · exact ⟨[], (List.append_nil _).symm, .refl s⟩
      · rename_i key s' chosen
        obtain ⟨victims, list, evicts⟩ := ih (evicted ++ [key]) s'
        exact ⟨key :: victims, by rw [list, List.append_assoc]; rfl, (evictOne_evicts chosen).trans evicts⟩

theorem tryEvictForMemory_evicts (evicted : List String) (s : KeyValueStore) :
    ∃ victims, (s.tryEvictForMemory env evicted).2.2 = evicted ++ victims ∧
      Evicts s (s.tryEvictForMemory env evicted).2.1 victims := by
  unfold tryEvictForMemory
  split
  · exact ⟨[], (List.append_nil _).symm, .refl s⟩
  · exact evictUntil_evicts ..

@[simp] theorem syncKeys_memory (keys : List String) (s : KeyValueStore) :
    (keys.foldl .syncKeyMetadata s).memoryBytes = s.memoryBytes := by
  induction keys generalizing s with
  | nil => rfl
  | cons key keys ih => exact ih (s.syncKeyMetadata key)

end KeyValueStore

open KeyValueStore

variable {codec : Codec} {env : Env} {cmd : Command} {s : KeyValueStore}

/-- Only `MSET` and the commands with a capped key make room for themselves. -/
theorem makeRoom_of_not_capped (env : Env) (s : KeyValueStore) (one : cappedKey cmd = none)
    (several : ∀ pairs, cmd = .mSet pairs → pairs = []) : makeRoom env cmd s = (true, s, []) := by
  unfold makeRoom
  split
  · rfl
  · split
    · rw [several _ rfl]
      simp [evictMany]
    · rw [one]

theorem executeInner_of_room (codec : Codec) {s' : KeyValueStore} {evicted : List String}
    (direct : readsKeyspace cmd = false) (room : makeRoom env cmd s = (true, s', evicted)) :
    executeInner codec env cmd s =
      (((program codec env cmd).run env.now s'.data).1,
        { s' with data := ((program codec env cmd).run env.now s'.data).2 }, evicted) := by
  unfold executeInner
  split
  case h_1 | h_2 | h_3 => cases direct
  rw [room]

theorem executeInner_of_no_room (codec : Codec) {s' : KeyValueStore} {evicted : List String}
    (direct : readsKeyspace cmd = false) (room : makeRoom env cmd s = (false, s', evicted)) :
    executeInner codec env cmd s = (.error "ERR max keys limit reached", s', evicted) := by
  unfold executeInner
  split
  case h_1 | h_2 | h_3 => exact absurd direct nofun
  rw [room]

/-! ## Limits -/

namespace KeyValueStore

/-- The stores have the same limits and the same policy. -/
def SameLimits (s s' : KeyValueStore) : Prop :=
  s'.maxKeys = s.maxKeys ∧ s'.maxMemoryBytes = s.maxMemoryBytes ∧ s'.evictionPolicy = s.evictionPolicy

theorem SameLimits.refl (s : KeyValueStore) : SameLimits s s := ⟨rfl, rfl, rfl⟩

theorem SameLimits.trans {s s' s'' : KeyValueStore} (h : SameLimits s s') (h' : SameLimits s' s'') :
    SameLimits s s'' :=
  ⟨h'.1.trans h.1, h'.2.1.trans h.2.1, h'.2.2.trans h.2.2⟩

theorem SameLimits.hasCapacityLimits {s s' : KeyValueStore} (h : SameLimits s s') :
    s'.hasCapacityLimits = s.hasCapacityLimits := by
  rw [KeyValueStore.hasCapacityLimits, h.1, h.2.1]
  rfl

theorem adjustMemory_limits (s : KeyValueStore) (before after : ℕ) :
    SameLimits s (s.adjustMemory before after) := by
  unfold adjustMemory
  split <;> exact .refl s

theorem syncKeys_limits (keys : List String) (s : KeyValueStore) :
    SameLimits s (keys.foldl .syncKeyMetadata s) := by
  induction keys generalizing s with
  | nil => exact .refl s
  | cons key keys ih => exact ih (s.syncKeyMetadata key)

theorem evictOne_limits {s s' : KeyValueStore} {now : ℕ} {sample : List ℕ} {victim : String}
    (h : s.evictOne now sample = some (victim, s')) : SameLimits s s' := by
  unfold evictOne at h
  dsimp only at h
  by_cases never : s.evictionPolicy = .noEviction
  · rw [if_pos never] at h
    exact absurd h nofun
  · rw [if_neg never] at h
    split at h
    · exact absurd h nofun
    · obtain ⟨-, rfl⟩ := Prod.mk.inj (Option.some.inj h)
      exact adjustMemory_limits _ _ 0

theorem evictMany_limits (env : Env) (n : ℕ) (evicted : List String) (s : KeyValueStore) :
    SameLimits s (s.evictMany env n evicted).2.1 := by
  induction n generalizing evicted s with
  | zero => exact .refl s
  | succ n ih =>
    unfold evictMany
    split
    · exact .refl s
    · next key s' chosen => exact (evictOne_limits chosen).trans (ih _ s')

theorem evictUntil_limits (env : Env) (target fuel : ℕ) (evicted : List String) (s : KeyValueStore) :
    SameLimits s (s.evictUntil env target fuel evicted).1 := by
  induction fuel generalizing evicted s with
  | zero => exact .refl s
  | succ fuel ih =>
    unfold evictUntil
    split_ifs
    · exact .refl s
    · split
      · exact .refl s
      · next key s' chosen => exact (evictOne_limits chosen).trans (ih _ s')

theorem tryEvictForMemory_limits (env : Env) (evicted : List String) (s : KeyValueStore) :
    SameLimits s (s.tryEvictForMemory env evicted).2.1 := by
  unfold tryEvictForMemory
  split
  · exact .refl s
  · exact evictUntil_limits ..

end KeyValueStore

open KeyValueStore

theorem makeRoom_limits (env : Env) (cmd : Command) (s : KeyValueStore) :
    SameLimits s (makeRoom env cmd s).2.1 := by
  unfold makeRoom
  split
  · exact .refl s
  · split
    · exact evictMany_limits ..
    · split
      · exact .refl s
      · split
        · exact evictMany_limits ..
        · exact .refl s

theorem executeInner_limits (codec : Codec) (env : Env) (cmd : Command) (s : KeyValueStore) :
    SameLimits s (executeInner codec env cmd s).2.1 := by
  have room : SameLimits s (makeRoom env cmd s).2.1 := makeRoom_limits ..
  unfold executeInner
  split
  · exact .refl s
  · unfold scanKeys
    dsimp only
    split_ifs <;> exact .refl s
  · exact .refl s
  · split
    · next s' evicted made =>
      rw [made] at room
      exact room
    · next s' evicted made =>
      rw [made] at room
      exact room.trans ⟨rfl, rfl, rfl⟩

/-- The bookkeeping after a command. -/
theorem bookkeeping_limits (keys evicted : List String) (before after : ℕ) :
    SameLimits s ((keys.foldl .syncKeyMetadata
      ((executeInner codec env cmd s).2.1.adjustMemory before after)).tryEvictForMemory
        env evicted).2.1 :=
  (executeInner_limits ..).trans (.trans (adjustMemory_limits _ _ _)
    (.trans (syncKeys_limits _ _) (tryEvictForMemory_limits env _ _)))

/-- Commands do not change the limits of a store. -/
theorem executeReporting_limits (codec : Codec) (env : Env) (cmd : Command) (s : KeyValueStore) :
    SameLimits s (executeReporting codec env cmd s).2.1 := by
  have inner : SameLimits s (executeInner codec env cmd s).2.1 := executeInner_limits ..
  unfold executeReporting
  split
  · exact inner
  · exact inner.trans (.trans ⟨rfl, rfl, rfl⟩ (tryEvictForMemory_limits ..))
  · dsimp only
    split_ifs
    · exact (bookkeeping_limits _ _ _ _).trans ⟨rfl, rfl, rfl⟩
    · exact bookkeeping_limits _ _ _ _

end Recached
