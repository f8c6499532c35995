import Recached.Index

/-!
# The cap on the number of keys

Only `SET`, `SETNX`, `SETEX`, `PSETEX`, `ESET` and `MSET` check the cap before they write.  A store
stays within it as long as the other commands create no key in a full store and `MSET` does not evict
keys that it writes itself.
-/

namespace Recached

open Text Lapse KeyValueStore

/-! ## Numbers of keys -/

theorem length_le_of_subset {keys keys' : List String} (distinct : keys.Nodup)
    (within : ∀ k ∈ keys, k ∈ keys') : keys.length ≤ keys'.length :=
  (List.subperm_of_subset distinct within).length_le

theorem contains_of_not_mem {d : Data} {k : String} (absent : k ∉ d) : d.contains k = false :=
  Bool.eq_false_iff.mpr fun there => absent (Std.ExtTreeMap.mem_iff_contains.mpr there)

/-- Entries of other keys count at most as many as are listed. -/
theorem size_le_of_mem {d d' : Data} (more : List String) (within : ∀ k ∈ d', k ∈ d ∨ k ∈ more) :
    d'.size ≤ d.size + more.length := by
  have counted := @length_le_of_subset d'.keys (d.keys ++ more) Std.ExtTreeMap.nodup_keys
    fun k mem => by simpa using within k (Std.ExtTreeMap.mem_keys.mp mem)
  simpa using counted

/-! ## The keys that commands create -/

theorem mem_run_one {now : ℕ} {key k : String} {act : Act} {d : Data}
    (mem : k ∈ ((Prog.one key act : Prog Value).run now d).2) :
    k ∈ d ∨ k = key ∧ ∃ c, (act none).1 = .modify c ∨ (act none).1 = .replace c := by
  by_cases there : k ∈ d
  · exact .inl there
  · refine .inr ?_
    have absent : d[k]? = none := Option.not_isSome_iff_eq_none.mp fun some =>
      there (Std.ExtTreeMap.mem_iff_isSome_getElem?.mpr some)
    change k ∈ Lapse.store now key d (act (Lapse.live now d key)).1 at mem
    by_cases same : k = key
    · subst same
      have gone : Lapse.live now d k = none := by simp [Lapse.live, absent]
      refine ⟨rfl, ?_⟩
      rw [gone] at mem
      cases effect : (act none).1 with
      | keep =>
        rw [effect] at mem
        exact absurd mem there
      | touch =>
        rw [effect] at mem
        simp [Lapse.store, absent] at mem
      | modify c => exact ⟨c, .inl rfl⟩
      | replace c => exact ⟨c, .inr rfl⟩
      | remove =>
        rw [effect] at mem
        simp [Lapse.store] at mem
    · rw [Std.ExtTreeMap.mem_iff_isSome_getElem?, getElem?_store_of_ne same, absent] at mem
      cases mem

theorem run_readSets_error (now : ℕ) (keys : List String) (d : Data)
    (typed : (keys.any fun k => notSet (Lapse.live now d k)) = true) :
    ∃ e, ((readSets keys).run now d).1 = .error e := by
  induction keys with
  | nil => cases typed
  | cons key keys ih =>
    simp only [readSets, Prog.read, Prog.run, Lapse.store]
    cases found : Lapse.live now d key with
    | none =>
      have later : (keys.any fun k => notSet (Lapse.live now d k)) = true := by
        simpa [found, notSet] using typed
      obtain ⟨e, error⟩ := ih later
      dsimp only
      rw [Prog.run_bind, error]
      exact ⟨e, rfl⟩
    | some c =>
      cases kind : Kind.set.unwrap c.value with
      | none =>
        dsimp only
        rw [kind]
        exact ⟨_, rfl⟩
      | some set =>
        have later : (keys.any fun k => notSet (Lapse.live now d k)) = true := by
          simpa [found, notSet, kind] using typed
        obtain ⟨e, error⟩ := ih later
        dsimp only
        rw [kind]
        dsimp only
        rw [Prog.run_bind, error]
        exact ⟨e, rfl⟩

/-- The key that a command which does not check the cap puts if it is not stored. -/
def createdKey (codec : Codec) (cmd : Command) (v : View) : Option String :=
  match cmd with
  | .append key _ | .getSet key _ | .incr key | .decr key | .incrBy key _ | .hSet key _
  | .hIncrBy key _ _ | .hIncrByFloat key _ _ | .hSetNx key _ _ | .lPush key _ | .rPush key _
  | .sAdd key _ | .zAdd key _ _ | .zIncrBy key _ _ | .rlSet key _ _ => some key
  | .decrBy key delta => if delta = Decimal.i64Min then none else some key
  | .sInterStore dst keys | .sUnionStore dst keys | .sDiffStore dst keys =>
    if keys.any fun k => notSet (v k) then none else some dst
  | .sMove src dst member =>
    if notSet (v src) || notSet (v dst) then none
    else if ((v src).bind fun c => Kind.set.unwrap c.value).any fun s => s.contains member then some dst
    else none
  | .rlCheck key config => if config.isSome then some key else none
  | .jSet key path value =>
    match parseJsonPath path, codec.fromStr value with
    | .ok (.index _ :: _), _ => none
    | .ok _, .ok _ => some key
    | _, _ => none
  | .jMerge key patch =>
    match codec.fromStr patch with
    | .ok patch => if patch.isNull then none else some key
    | .error _ => none
  | _ => none

theorem mem_run_delKeys {now : ℕ} {keys : List String} {n : ℕ} {d : Data} {k : String}
    (mem : k ∈ ((delKeys keys n).run now d).2) : k ∈ d := by
  induction keys generalizing n d with
  | nil => exact mem
  | cons key keys ih =>
    have before := ih mem
    by_cases alive : (Lapse.live now d key).isSome = true
    · simp only [alive, if_true, Lapse.store] at before
      exact Std.ExtTreeMap.mem_of_mem_erase before
    · simpa only [alive, if_false, Bool.false_eq_true, Lapse.store] using before

variable {codec : Codec} {env : Env} {cmd : Command}

theorem mem_run_sMove {now : ℕ} {src dst member k : String} {d : Data}
    (mem : k ∈ ((sMove src dst member).run now d).2) :
    k ∈ d ∨ createdKey codec (.sMove src dst member) (Lapse.live now d) = some k := by
  have source (mem : k ∈ ((Prog.one src (updateAs .set nil fun s => (s.erase member, nil)) :
      Prog Value).run now d).2) : k ∈ d := by
    obtain there | ⟨-, c, modified | replaced⟩ := mem_run_one mem
    · exact there
    · cases modified
    · cases replaced
  change k ∈ ((if notSet (Lapse.live now d src) || notSet (Lapse.live now d dst) then .done wrongType
    else .access src (fun l => (updateAs .set nil (fun s => (s.erase member, nil)) l).1) fun l =>
      if (l.bind fun c => Kind.set.unwrap c.value).any fun s => s.contains member then
        .one dst (typedEntry .set ∅ fun s => (s.insert member, .integer 1))
      else .done (.integer 0) : Prog Value).run now d).2 at mem
  by_cases typed : (notSet (Lapse.live now d src) || notSet (Lapse.live now d dst)) = true
  · rw [if_pos typed] at mem
    exact .inl mem
  · rw [if_neg typed] at mem
    simp only [Prog.run] at mem
    split_ifs at mem with holds
    · obtain before | ⟨rfl, -⟩ := mem_run_one mem
      · exact .inl (source before)
      · exact .inr (by rw [createdKey, if_neg typed, if_pos holds])
    · exact .inl (source mem)

theorem mem_run_combineStore {now : ℕ} {dst k : String} {keys : List String}
    {f : List (Option MemberSet) → MemberSet} {d : Data}
    (mem : k ∈ ((combineStore dst keys f).run now d).2) :
    k ∈ d ∨ (if keys.any fun k => notSet (Lapse.live now d k) then none else some dst) = some k := by
  rw [combineStore, Prog.run_bind, run_readSets] at mem
  split_ifs with typed
  · obtain ⟨e, error⟩ := run_readSets_error now keys d typed
    rw [error] at mem
    exact .inl mem
  · cases sets : ((readSets keys).run now d).1 with
    | error e =>
      rw [sets] at mem
      exact .inl mem
    | ok sets' =>
      rw [sets] at mem
      obtain there | ⟨rfl, -⟩ := mem_run_one mem
      · exact .inl there
      · exact .inr rfl

/-- A command that neither checks the cap nor moves an entry creates at most one key. -/
theorem mem_run_created {keys : List String} (scope : mutationScope cmd = .keys keys)
    (unchecked : cappedKey cmd = none) (notSeveral : ∀ pairs, cmd ≠ .mSet pairs)
    (notRename : ∀ src dst, cmd ≠ .rename src dst) {d : Data} {k : String}
    (mem : k ∈ ((program codec env cmd).run env.now d).2) :
    k ∈ d ∨ createdKey codec cmd (Lapse.live env.now d) = some k := by
  -- a command that leaves an absent key alone
  have none {key : String} {act : Act} (one : program codec env cmd = .one key act)
      (leaves : ∀ c, (act none).1 ≠ .modify c ∧ (act none).1 ≠ .replace c) : k ∈ d := by
    rw [one] at mem
    obtain there | ⟨rfl, c, modified | replaced⟩ := mem_run_one mem
    · exact there
    · exact absurd modified (leaves c).1
    · exact absurd replaced (leaves c).2
  have one {key : String} {act : Act} (one : program codec env cmd = .one key act)
      (creates : createdKey codec cmd (Lapse.live env.now d) = some key) :
      k ∈ d ∨ createdKey codec cmd (Lapse.live env.now d) = some k := by
    rw [one] at mem
    obtain there | ⟨rfl, -⟩ := mem_run_one mem
    · exact .inl there
    · exact .inr creates
  cases cmd
  case mSet pairs => exact absurd rfl (notSeveral pairs)
  case rename src dst => exact absurd rfl (notRename src dst)
  case del keys | unlink keys =>
    rw [program, Prog.run_bind] at mem
    exact .inl (mem_run_delKeys mem)
  case sMove src dst member => exact mem_run_sMove mem
  case sInterStore dst keys | sUnionStore dst keys | sDiffStore dst keys =>
    exact mem_run_combineStore mem
  case decrBy key delta =>
    simp only [program] at mem
    simp only [createdKey]
    split_ifs at mem ⊢
    · exact .inl mem
    · obtain there | ⟨rfl, -⟩ := mem_run_one mem
      · exact .inl there
      · exact .inr rfl
  case jSet key path value =>
    obtain there | ⟨rfl, c, written⟩ := mem_run_one mem
    · exact .inl there
    · refine .inr ?_
      unfold jSetAct at written
      simp only [createdKey]
      cases parsed : parseJsonPath path with
      | error e => simp [parsed] at written
      | ok segs =>
        cases document : codec.fromStr value with
        | error e => simp [parsed, document] at written
        | ok doc =>
          rcases segs with - | ⟨seg, segs⟩
          · rfl
          · cases seg with
            | index i => simp [parsed, document] at written
            | field name => rfl
  case jMerge key patch =>
    obtain there | ⟨rfl, c, written⟩ := mem_run_one mem
    · exact .inl there
    · refine .inr ?_
      unfold jMergeAct at written
      simp only [createdKey]
      cases document : codec.fromStr patch with
      | error e => simp [document] at written
      | ok doc =>
        cases null : doc.isNull with
        | true => simp [document, null] at written
        | false => simp [null]
  case rlCheck key config =>
    cases config with
    | none => exact .inl (none rfl fun c => ⟨by rintro ⟨⟩, by rintro ⟨⟩⟩)
    | some p => exact one rfl rfl
  all_goals first
    | (cases scope; done)
    | (cases unchecked; done)
    | exact one rfl rfl
    | exact .inl (none rfl fun c => ⟨by rintro ⟨⟩, by rintro ⟨⟩⟩)
    | exact .inl mem

/-! ## One command -/

theorem size_move (now : ℕ) (src dst : String) (d : Data) : (move now src dst d).2.size ≤ d.size := by
  unfold move
  cases found : d[src]? with
  | none => exact le_rfl
  | some e =>
    have there : d.contains src = true := by
      rw [Std.ExtTreeMap.contains_eq_isSome_getElem?, found]
      rfl
    have smaller : (d.erase src).size + 1 = d.size := by
      have positive : d.size ≠ 0 := fun empty => by
        rw [Std.ExtTreeMap.eq_empty_iff_size_eq_zero.mpr empty] at there
        simp at there
      rw [Std.ExtTreeMap.size_erase, if_pos there]
      omega
    dsimp only
    split_ifs
    · exact Std.ExtTreeMap.size_erase_le
    · exact (Std.ExtTreeMap.size_insert_le).trans smaller.le

/-- The steps that keep the cap: a full store is given no new key by a command that does not check the
cap, and `MSET` evicts none of the keys that it writes. -/
def KeepsKeyCap (codec : Codec) (s : KeyValueStore) (op : Env × Command) : Prop :=
  SparesOwn op.1 op.2 s ∧ ∀ key ∉ s.data, createdKey codec op.2 (s.live op.1.now) = some key →
    ∀ max ∈ s.maxKeys, s.data.size < max

variable {s : KeyValueStore}

theorem size_evictMany {n : ℕ} {evicted : List String} (all : (s.evictMany env n evicted).1 = true) :
    (s.evictMany env n evicted).2.1.data.size + n = s.data.size := by
  induction n generalizing s evicted with
  | zero => rfl
  | succ n ih =>
    unfold evictMany at all ⊢
    split at all
    · cases all
    · next key s' chosen =>
      have rest := ih all
      have one := evictOne_size chosen
      omega

/-- `MSET` makes room for the keys that are not stored, counted with repetitions. -/
theorem size_run_mSet {max : ℕ} {pairs : List (String × Bytes)} (cap : s.maxKeys = some max)
    (fits : s.data.size ≤ max) (spares : SparesOwn env (.mSet pairs) s)
    (made : (makeRoom env (.mSet pairs) s).1 = true) :
    ((program codec env (.mSet pairs)).run env.now (makeRoom env (.mSet pairs) s).2.1.data).2.size
      ≤ max := by
  have chain : (makeRoom env (.mSet pairs) s).2.1.data =
      dropped (makeRoom env (.mSet pairs) s).2.2 s.data :=
    (@makeRoom_evictions env (.mSet pairs) s).evicts.data
  have room : makeRoom env (.mSet pairs) s = s.evictMany env
      ((pairs.filter fun p => !s.data.contains p.1).length - (max - s.data.size)) [] := by
    simp only [makeRoom, cap]
  have evicted := @size_evictMany env s _ [] (by rwa [room] at made)
  rw [← room] at evicted
  have within := @size_le_of_mem (makeRoom env (.mSet pairs) s).2.1.data
    ((program codec env (.mSet pairs)).run env.now (makeRoom env (.mSet pairs) s).2.1.data).2
    ((pairs.filter fun p => !s.data.contains p.1).map Prod.fst) fun k mem => by
      by_cases own : k ∈ pairs.map Prod.fst
      · obtain ⟨p, listed, rfl⟩ := List.mem_map.mp own
        by_cases stored : p.1 ∈ s.data
        · refine .inl (Std.ExtTreeMap.mem_iff_isSome_getElem?.mpr ?_)
          rw [chain, getElem?_dropped _ _ fun victim => spares pairs rfl _ victim own]
          exact Std.ExtTreeMap.mem_iff_isSome_getElem?.mp stored
        · refine .inr (List.mem_map.mpr ⟨p, List.mem_filter.mpr ⟨listed, ?_⟩, rfl⟩)
          simp [contains_of_not_mem stored]
      · have frame := @run_outside_scope codec env (.mSet pairs) (pairs.map Prod.fst) rfl
          (makeRoom env (.mSet pairs) s).2.1.data k (by rwa [mem_scopeKeys rfl])
        rw [Std.ExtTreeMap.mem_iff_isSome_getElem?, frame] at mem
        exact .inl (Std.ExtTreeMap.mem_iff_isSome_getElem?.mpr mem)
  rw [List.length_map] at within
  omega

theorem size_run_capped {max : ℕ} {own : String} (capped : cappedKey cmd = some own)
    (cap : s.maxKeys = some max) (fits : s.data.size ≤ max) (made : (makeRoom env cmd s).1 = true) :
    ((program codec env cmd).run env.now (makeRoom env cmd s).2.1.data).2.size ≤ max := by
  have scope : mutationScope cmd = .keys [own] := by
    cases cmd <;> cases capped <;> rfl
  have room := @makeRoom_of_capped env cmd s own capped
  have within := @size_le_of_mem (makeRoom env cmd s).2.1.data
    ((program codec env cmd).run env.now (makeRoom env cmd s).2.1.data).2
  have outside (k : String) (other : k ≠ own) :=
    @run_outside_scope codec env cmd [own] scope (makeRoom env cmd s).2.1.data k
      (by rwa [mem_scopeKeys scope, List.mem_singleton])
  have others (k : String) (mem : k ∈ ((program codec env cmd).run env.now
      (makeRoom env cmd s).2.1.data).2) (other : k ≠ own) : k ∈ (makeRoom env cmd s).2.1.data := by
    rw [Std.ExtTreeMap.mem_iff_isSome_getElem?, outside k other] at mem
    exact Std.ExtTreeMap.mem_iff_isSome_getElem?.mpr mem
  rw [cap] at room
  dsimp only at room
  by_cases stored : own ∈ (makeRoom env cmd s).2.1.data
  · have same := within [] fun k mem => .inl (by
      by_cases other : k = own
      · exact other ▸ stored
      · exact others k mem other)
    have fewer := (@makeRoom_evictions env cmd s).size
    rw [List.length_nil] at same
    omega
  · have one := within [own] fun k mem => by
      by_cases other : k = own
      · exact .inr (List.mem_singleton.mpr other)
      · exact .inl (others k mem other)
    rw [List.length_singleton] at one
    refine one.trans ?_
    split_ifs at room with full
    · have evicted := @size_evictMany env s 1 [] (by rwa [room] at made)
      rw [← room] at evicted
      omega
    · have same : (makeRoom env cmd s).2.1 = s := by rw [room]
      rw [same] at stored ⊢
      have room : ¬ max ≤ s.data.size := fun le => full (by simp [le, contains_of_not_mem stored])
      omega

theorem makeRoom_of_unchecked (unchecked : cappedKey cmd = none)
    (notSeveral : ∀ pairs, cmd ≠ .mSet pairs) : makeRoom env cmd s = (true, s, []) :=
  makeRoom_of_not_capped env s unchecked fun pairs eq => absurd eq (notSeveral pairs)

theorem size_run {max : ℕ} {keys : List String} (scope : mutationScope cmd = .keys keys)
    (cap : s.maxKeys = some max) (fits : s.data.size ≤ max) (keeps : KeepsKeyCap codec s (env, cmd))
    (made : (makeRoom env cmd s).1 = true) :
    ((program codec env cmd).run env.now (makeRoom env cmd s).2.1.data).2.size ≤ max := by
  cases capped : cappedKey cmd with
  | some own => exact size_run_capped capped cap fits made
  | none =>
    by_cases several : ∃ pairs, cmd = .mSet pairs
    · obtain ⟨pairs, rfl⟩ := several
      exact size_run_mSet cap fits keeps.1 made
    · have notSeveral : ∀ pairs, cmd ≠ .mSet pairs := fun pairs eq => several ⟨pairs, eq⟩
      rw [makeRoom_of_unchecked capped notSeveral]
      by_cases moves : ∃ src dst, cmd = .rename src dst
      · obtain ⟨src, dst, rfl⟩ := moves
        exact (size_move env.now src dst s.data).trans fits
      · have created (k : String) := @mem_run_created codec env cmd keys scope capped notSeveral
          (fun src dst eq => moves ⟨src, dst, eq⟩) s.data k
        have kept (more : List String) (covered : ∀ k ∉ s.data,
            createdKey codec cmd (s.live env.now) = some k → k ∈ more) :=
          @size_le_of_mem s.data ((program codec env cmd).run env.now s.data).2 more fun k mem => by
            by_cases stored : k ∈ s.data
            · exact .inl stored
            · exact .inr (covered k stored ((created k mem).resolve_left stored))
        cases new : createdKey codec cmd (s.live env.now) with
        | none => exact (kept [] fun k _ eq => by rw [new] at eq; cases eq).trans fits
        | some key =>
          by_cases stored : key ∈ s.data
          · refine (kept [] fun k absent eq => ?_).trans fits
            rw [new] at eq
            exact absurd (Option.some.inj eq ▸ stored) absent
          · have room := keeps.2 key stored new max cap
            have one := kept [key] fun k absent eq => by
              rw [new] at eq
              exact List.mem_singleton.mpr (Option.some.inj eq).symm
            rw [List.length_singleton] at one
            dsimp only
            omega

theorem keyCap_step {max : ℕ} (cap : s.maxKeys = some max) (fits : s.data.size ≤ max)
    (keeps : KeepsKeyCap codec s (env, cmd)) :
    (executeReporting codec env cmd s).2.1.data.size ≤ max := by
  have evicted := (@makeRoom_evictions env cmd s).size
  have books := executeReporting_books codec env cmd s
  generalize executeReporting codec env cmd s = r at books ⊢
  obtain ⟨reply, s', victims⟩ := r
  cases books with
  | looked scope looked =>
    have same := @size_le_of_mem s.data s'.data [] fun k mem => by
      have cell := congrArg Option.isSome (looked.cell k)
      rw [Option.isSome_map, Option.isSome_map] at cell
      rw [Std.ExtTreeMap.mem_iff_isSome_getElem?, cell] at mem
      exact .inl (Std.ExtTreeMap.mem_iff_isSome_getElem?.mpr mem)
    exact same.trans fits
  | flushed flush => exact (Std.ExtTreeMap.size_empty).le.trans (Nat.zero_le max)
  | rebuilt dedup scope chain _ =>
    have fewer := chain.size
    change _ = s.data.size at fewer
    dsimp only at fewer ⊢
    omega
  | refused outgrows => exact fits
  | full scope full chain _ =>
    have fewer := chain.size
    rw [commit_data] at fewer
    dsimp only at fewer ⊢
    omega
  | wrote scope made _ chain _ =>
    have fewer := chain.size
    rw [commit_data] at fewer
    have run := size_run scope cap fits keeps made
    dsimp only at fewer ⊢
    omega

/-! ## Runs of commands -/

/-- One command after the other, each with its own clock and its own random choices. -/
def commandStep (codec : Codec) (s : KeyValueStore) (op : Env × Command) : Option KeyValueStore :=
  some (executeReporting codec op.1 op.2 s).2.1

/-- A store with at most `max` keys holds at most `max` after every run of commands that keep the cap. -/
theorem key_cap_holds (codec : Codec) (max : ℕ) (s s' : KeyValueStore) (cap : s.maxKeys = some max)
    (fits : s.data.size ≤ max) (ops : List (Env × Command))
    (run : Runs.exec (commandStep codec) s ops = some s')
    (each : Runs.Each (commandStep codec) (KeepsKeyCap codec) s ops) : s'.data.size ≤ max := by
  have held := Runs.invariant (P := fun s : KeyValueStore => s.maxKeys = some max ∧ s.data.size ≤ max)
    (fun s op s' h keeps next => ?_) run each ⟨cap, fits⟩
  · exact held.2
  · obtain rfl := Option.some.inj next
    exact ⟨(executeReporting_limits codec op.1 op.2 s).1.trans h.1, keyCap_step h.1 h.2 keeps⟩

theorem key_cap_holds_set :
    let s := KeyValueStore.withConfig (some 1) none .allKeysRandom 10
    let ops := [(Env.fixed 0, .set "a" [49] {}), (.fixed 0, .lPush "a" [[50]]), (.fixed 0, .set "b" [50] {})]
    ∃ s', Runs.exec (commandStep .literals) s ops = some s' ∧ s'.data.size ≤ 1 := by
  intro s ops
  refine ⟨_, rfl, key_cap_holds .literals 1 s _ rfl (by decide) ops rfl ?_⟩
  refine ⟨⟨by rintro _ ⟨⟩, nofun⟩, fun s₁ first => ⟨⟨by rintro _ ⟨⟩, fun key absent new => ?_⟩, fun s₂ _ =>
    ⟨⟨by rintro _ ⟨⟩, nofun⟩, fun _ _ => trivial⟩⟩⟩
  obtain rfl := Option.some.inj first
  obtain rfl := Option.some.inj new
  exact absurd (by decide) absent

/-- `LPUSH` creates a key in a full store; and `MSET` evicts `a` to make room for `b` and then puts both. -/
theorem key_cap_exceeded :
    (∃ s, Runs.exec (commandStep .literals) (.withConfig (some 1) none .noEviction 10)
        [(.fixed 0, .set "a" [49] {}), (.fixed 0, .lPush "b" [[50]])] = some s ∧ 1 < s.data.size) ∧
    ∃ s, Runs.exec (commandStep .literals) (.withConfig (some 1) none .allKeysRandom 10)
        [(.fixed 0, .set "a" [49] {}), (.fixed 0, .mSet [("a", [49]), ("b", [50])])] = some s ∧
      1 < s.data.size :=
  ⟨⟨_, rfl, by decide⟩, _, rfl, by decide⟩

end Recached
