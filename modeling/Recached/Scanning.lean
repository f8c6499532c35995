import Recached.Lib.Paging
import Recached.OrderedIndex

/-!
# Scanning the keyspace

A scan walks the ordered index page by page, and a cursor stands for the last key it has looked at.  An
`Iteration` is what a client sees that uses each cursor once, while the store goes on changing; it is a
walk over the ordered keys (`Iteration.walk`), so that it misses no key and ends (`scans_all`).
-/

namespace Recached

open Text Lapse KeyValueStore

/-! ## Cursors -/

def SameCursors (s s' : KeyValueStore) : Prop :=
  s'.scanCursors = s.scanCursors ∧ s'.nextScanCursor = s.nextScanCursor

section

variable {codec : Codec} {env : Env} {cmd : Command} {s s' s'' : KeyValueStore}

theorem SameCursors.refl (s : KeyValueStore) : SameCursors s s := ⟨rfl, rfl⟩

theorem SameCursors.trans (first : SameCursors s s') (second : SameCursors s' s'') : SameCursors s s'' :=
  ⟨second.1.trans first.1, second.2.trans first.2⟩

theorem erase_cursors (freed : ℕ) (victim : String) (s : KeyValueStore) : SameCursors s
    (({ s with data := s.data.erase victim }.adjustMemory freed 0).syncKeyMetadata victim) := by
  unfold syncKeyMetadata adjustMemory
  split_ifs <;> exact .refl s

theorem KeyValueStore.Evictions.cursors {now : ℕ} {victims : List String}
    (chain : Evictions now s s' victims) : SameCursors s s' := by
  induction chain with
  | none s => exact .refl s
  | next sample first _ ih =>
    obtain ⟨-, -, -, rfl⟩ := evictOne_spec first
    exact (erase_cursors ..).trans ih

theorem commit_cursors (keys : List String) (before : ℕ) (data : Data) (s : KeyValueStore) :
    SameCursors s (s.commit keys before data) := by
  obtain ⟨memory, index, eq⟩ := commit_parts keys before data s
  rw [eq]
  exact .refl s

theorem removeExpired_cursors (now : ℕ) (keys : List String) (s : KeyValueStore) :
    SameCursors s (s.removeExpired now keys) := by
  induction keys generalizing s with
  | nil => exact .refl s
  | cons key keys ih =>
    rw [KeyValueStore.removeExpired, List.foldl_cons]
    refine SameCursors.trans ?_ (ih _)
    cases s.data[key]? with
    | none => exact .refl s
    | some e =>
      dsimp only
      split_ifs
      · exact erase_cursors ..
      · exact .refl s

theorem executeReporting_cursors (other : ∀ cursor pattern count, cmd ≠ .scan cursor pattern count) :
    SameCursors s (executeReporting codec env cmd s).2.1 := by
  by_cases reads : mutationScope cmd = .readOnly
  · unfold executeReporting executeInner
    rw [reads]
    dsimp only
    split
    · exact .refl s
    · exact absurd rfl (other _ _ _)
    · exact .refl s
    · rw [makeRoom_of_readOnly reads]
      exact .refl s
  · have room := (@makeRoom_evictions env cmd s).cursors
    have books := executeReporting_books codec env cmd s
    generalize executeReporting codec env cmd s = r at books ⊢
    obtain ⟨reply, s', victims⟩ := r
    cases books with
    | looked scope looked => exact absurd scope reads
    | flushed flush => exact .refl s
    | rebuilt dedup scope chain _ => exact chain.cursors
    | refused outgrows => exact .refl s
    | full scope full chain _ => exact (room.trans (commit_cursors ..)).trans chain.cursors
    | wrote scope made _ chain _ => exact (room.trans (commit_cursors ..)).trans chain.cursors

end

/-! ## One call -/

/-- The page of the ordered index that a call looks at. -/
def keyPage (now : ℕ) (pattern : Option String) (count : Option ℕ) (s : KeyValueStore) :
    Paging.Page String where
  members := s.index.ordered.toList
  batch := max (count.getD 10) 1
  keep key := globMatch (pattern.getD "*") key && (s.data[key]?.any fun e => !e.isExpired now)
  sorted := Std.ExtTreeSet.ordered_toList.imp fun lt => compare_lt_iff_lt.mp lt
  positive := Nat.lt_of_lt_of_le Nat.one_pos (le_max_right _ 1)

/-- The key that a cursor stands for; a scan starts before all keys. -/
def KeyValueStore.position (s : KeyValueStore) (cursor : ℕ) : Option String :=
  if cursor = 0 then none else s.scanCursors[cursor]?

section

variable {now cursor : ℕ} {pattern : Option String} {count : Option ℕ} {s : KeyValueStore}

/-- A call with a cursor that is not known ends the scan. -/
theorem scanKeys_unknown (later : cursor ≠ 0) (unknown : s.scanCursors[cursor]? = none) :
    scanKeys now cursor pattern count s =
      (scanReply 0 [], { s with scanCursors := s.scanCursors.erase cursor }) := by
  unfold scanKeys
  dsimp only
  rw [if_neg later, unknown, if_pos ⟨later, rfl⟩]
  rfl

theorem scanKeys_reply (now cursor : ℕ) (pattern : Option String) (count : Option ℕ) (s : KeyValueStore) :
    ∃ (next : ℕ) (page : List String),
      (scanKeys now cursor pattern count s).1 = scanReply next (page.map bulk) := by
  unfold scanKeys
  dsimp only
  rw [← position]
  generalize s.position cursor = lastKey
  split_ifs
  · exact ⟨0, [], rfl⟩
  · exact ⟨0, _, rfl⟩
  · exact ⟨_, _, rfl⟩
  · exact ⟨_, _, rfl⟩

/-- A call only drops cursors from the table and enters the next one. -/
theorem scanKeys_table (now cursor : ℕ) (pattern : Option String) (count : Option ℕ) (s : KeyValueStore) :
    ∃ table : Std.ExtTreeMap ℕ String, (∀ c : ℕ, (table[c]?).isSome → (s.scanCursors[c]?).isSome) ∧
      (SameCursors { s with scanCursors := table } (scanKeys now cursor pattern count s).2 ∨
        ∃ last, SameCursors
          { s with
            scanCursors := table.insert (max s.nextScanCursor 1) last
            nextScanCursor := s.nextScanCursor + 1 }
          (scanKeys now cursor pattern count s).2) := by
  have erased {table : Std.ExtTreeMap ℕ String} {k c : ℕ} (there : ((table.erase k)[c]?).isSome) :
      (table[c]?).isSome := by
    rw [Std.ExtTreeMap.getElem?_erase] at there
    split_ifs at there
    · cases there
    · exact there
  unfold scanKeys
  dsimp only
  rw [← position]
  generalize s.position cursor = lastKey
  split_ifs with stale fits full
  · exact ⟨_, fun c => erased, .inl (.refl _)⟩
  · exact ⟨_, fun c => erased, .inl (.refl _)⟩
  · cases (s.scanCursors.erase cursor).toList.head? with
    | none => exact ⟨_, fun c => erased, .inr ⟨_, .refl _⟩⟩
    | some oldest => exact ⟨_, fun c there => erased (erased there), .inr ⟨_, .refl _⟩⟩
  · exact ⟨_, fun c => erased, .inr ⟨_, .refl _⟩⟩

/-- What a call does that starts a scan or goes on with one. -/
theorem scanKeys_known (known : cursor = 0 ∨ (s.scanCursors[cursor]?).isSome)
    (room : (s.scanCursors.erase cursor).size < maxScanCursors) :
    let page := keyPage now pattern count s
    scanKeys now cursor pattern count s =
      match page.next (s.position cursor) with
      | none => (scanReply 0 ((page.returned (s.position cursor)).map bulk),
        { s with scanCursors := s.scanCursors.erase cursor })
      | some last => (scanReply (max s.nextScanCursor 1) ((page.returned (s.position cursor)).map bulk),
        { s with
          scanCursors := (s.scanCursors.erase cursor).insert (max s.nextScanCursor 1) last
          nextScanCursor := s.nextScanCursor + 1 }) := by
  intro page
  have goes : ¬(cursor ≠ 0 ∧ s.position cursor = none) := by
    rintro ⟨later, unknown⟩
    rw [position, if_neg later] at unknown
    obtain rfl | there := known
    · exact later rfl
    · rw [unknown] at there
      cases there
  have eq : scanKeys now cursor pattern count s =
      if (Paging.beyond (s.position cursor) page.members).length ≤ page.batch then
        (scanReply 0 ((page.returned (s.position cursor)).map bulk),
          { s with scanCursors := s.scanCursors.erase cursor })
      else (scanReply (max s.nextScanCursor 1) ((page.returned (s.position cursor)).map bulk),
        { s with
          scanCursors := (s.scanCursors.erase cursor).insert (max s.nextScanCursor 1)
            ((page.candidates (s.position cursor)).getLast?.getD "")
          nextScanCursor := s.nextScanCursor + 1 }) := by
    unfold scanKeys
    dsimp only
    rw [← position, if_neg goes, if_neg room.not_ge]
    cases s.position cursor with
    | none => simp only [Paging.Page.returned, Paging.Page.candidates, Paging.beyond_none]; rfl
    | some key => rfl
  rw [eq]
  unfold Paging.Page.next
  split_ifs with fits
  · rfl
  · cases last : (page.candidates (s.position cursor)).getLast? with
    | some last => rfl
    | none =>
      have done : page.next (s.position cursor) = none := by rw [Paging.Page.next, if_neg fits, last]
      rw [page.candidates_of_next_none done, List.getLast?_eq_none_iff] at last
      rw [last] at fits
      exact absurd (Nat.zero_le _) fits

/-- A cursor that stands for a key, and is not handed out again. -/
structure Pending (s : KeyValueStore) (cursor : ℕ) (key : String) : Prop where
  found : s.scanCursors[cursor]? = some key
  older : cursor < s.nextScanCursor

theorem Pending.of_same {s' : KeyValueStore} {key : String} (pending : Pending s cursor key)
    (same : SameCursors s s') : Pending s' cursor key :=
  ⟨same.1 ▸ pending.found, same.2 ▸ pending.older⟩

/-- A scan with another cursor leaves it, if the table has room. -/
theorem Pending.scan {key : String} (pending : Pending s cursor key) {other : ℕ} (ne : other ≠ cursor)
    (room : s.scanCursors.size < maxScanCursors) (now : ℕ) (pattern : Option String) (count : Option ℕ) :
    Pending (scanKeys now other pattern count s).2 cursor key := by
  have away : compare other cursor ≠ .eq := fun eq => ne (Std.LawfulEqOrd.eq_of_compare eq)
  have left : (s.scanCursors.erase other)[cursor]? = some key := by
    rw [Std.ExtTreeMap.getElem?_erase, if_neg away, pending.found]
  have smaller : (s.scanCursors.erase other).size < maxScanCursors :=
    Std.ExtTreeMap.size_erase_le.trans_lt room
  by_cases known : other = 0 ∨ (s.scanCursors[other]?).isSome
  · rw [scanKeys_known known smaller]
    cases (keyPage now pattern count s).next (s.position other) with
    | none => exact ⟨left, pending.older⟩
    | some last =>
      have older := pending.older
      have fresh : compare (max s.nextScanCursor 1) cursor ≠ .eq := fun eq => by
        have := Std.LawfulEqOrd.eq_of_compare eq
        omega
      refine ⟨?_, Nat.lt_succ_of_lt older⟩
      dsimp only
      rw [Std.ExtTreeMap.getElem?_insert, if_neg fresh, left]
  · rw [not_or, Option.not_isSome_iff_eq_none] at known
    rw [scanKeys_unknown known.1 known.2]
    exact ⟨left, pending.older⟩

end

/-! ## An iteration -/

/-- What an operation leaves of a scan: no call uses its cursor, and none finds the table full. -/
def Spares (cursor : ℕ) (s : KeyValueStore) (op : StoreOp) : Prop :=
  ∀ env other pattern count, op = .execute env (.scan other pattern count) →
    other ≠ cursor ∧ s.scanCursors.size < maxScanCursors

section

variable {codec : Codec} {s s' : KeyValueStore} {cursor : ℕ} {key : String}

/-- Only a scan changes the table of cursors. -/
theorem StoreOp.cursors (codec : Codec) (op : StoreOp) (s : KeyValueStore) :
    SameCursors s (op.apply codec s) ∨
      ∃ env other pattern count, op = .execute env (.scan other pattern count) ∧
        op.apply codec s = (scanKeys env.now other pattern count s).2 := by
  cases op with
  | execute env cmd =>
    by_cases scan : ∃ other pattern count, cmd = .scan other pattern count
    · obtain ⟨other, pattern, count, rfl⟩ := scan
      exact .inr ⟨env, other, pattern, count, rfl, rfl⟩
    · exact .inl (executeReporting_cursors fun other pattern count eq => scan ⟨other, pattern, count, eq⟩)
  | sweepExpired now => exact .inl (removeExpired_cursors now _ s)
  | sweepExpiredBudget now start limit => exact .inl (removeExpired_cursors now _ s)
  | tryEvictForMemory env =>
    obtain ⟨victims, -, chain⟩ := tryEvictForMemory_evictions env [] s
    exact .inl chain.cursors
  | restore now entries => exact .inl (.refl s)
  | replace now entries => exact .inl (.refl s)

theorem Pending.apply (pending : Pending s cursor key) {op : StoreOp} (spares : Spares cursor s op) :
    Pending (op.apply codec s) cursor key := by
  obtain same | ⟨env, other, pattern, count, eq, after⟩ := op.cursors codec s
  · exact pending.of_same same
  · obtain ⟨ne, room⟩ := spares env other pattern count eq
    rw [after]
    exact pending.scan ne room env.now pattern count

/-- The cursors of the table were handed out before the next one. -/
structure Numbered (s : KeyValueStore) : Prop where
  counter : 1 ≤ s.nextScanCursor
  older : ∀ cursor, (s.scanCursors[cursor]?).isSome → cursor < s.nextScanCursor

theorem Numbered.of_same (h : Numbered s) (same : SameCursors s s') : Numbered s' := by
  obtain ⟨table, next⟩ := same
  constructor
  · rw [next]
    exact h.counter
  · rw [table, next]
    exact h.older

theorem Numbered.apply (h : Numbered s) (codec : Codec) (op : StoreOp) : Numbered (op.apply codec s) := by
  obtain same | ⟨env, other, pattern, count, -, after⟩ := op.cursors codec s
  · exact h.of_same same
  · rw [after]
    obtain ⟨table, fewer, same | ⟨last, same⟩⟩ := scanKeys_table env.now other pattern count s
    · have kept : Numbered { s with scanCursors := table } :=
        ⟨h.counter, fun cursor found => h.older cursor (fewer cursor found)⟩
      exact kept.of_same same
    · refine Numbered.of_same ⟨Nat.le_succ_of_le h.counter, fun cursor found => ?_⟩ same
      have counter := h.counter
      dsimp only at found ⊢
      rw [Std.ExtTreeMap.getElem?_insert] at found
      split_ifs at found with eq
      · have := Std.LawfulEqOrd.eq_of_compare eq
        omega
      · exact Nat.lt_succ_of_lt (h.older cursor (fewer cursor found))

/-- What holds of every store that can be reached: only stored keys are listed, and all keys are that are
live at a time which is not yet over. -/
structure Scannable (since : ℕ) (s : KeyValueStore) : Prop where
  stored : ∀ key ∈ s.index.ordered, key ∈ s.data
  live : ∀ key e, s.data[key]? = some e → e.isExpired since = false → key ∈ s.index.ordered
  numbered : Numbered s

theorem Scannable.apply {since : ℕ} (h : Scannable since s) {op : StoreOp} (le : op.time ≤ since) :
    Scannable since (op.apply codec s) where
  stored key := (op.reindexed codec s key).stored (h.stored key)
  live key _ := (op.reindexed codec s key).live le (h.live key)
  numbered := h.numbered.apply codec op

end

/-- A call of a client, and what is done to the store before its next one. -/
structure Turn where
  env : Env
  pattern : Option String
  count : Option ℕ
  after : List StoreOp

/-- The stores that operations lead through, each at its time. -/
def passed (codec : Codec) : KeyValueStore → List StoreOp → List (ℕ × KeyValueStore)
  | _, [] => []
  | s, op :: ops => (op.time, op.apply codec s) :: passed codec (op.apply codec s) ops

/-- A client goes through the cursors, each used once, until it stops or the cursor is zero: its turns,
the pages it gets, the last cursor, and the stores at the calls and in between. -/
inductive Iteration (codec : Codec) : ℕ → KeyValueStore → List Turn → List (List String) → ℕ →
    List (ℕ × KeyValueStore) → Prop
  | last {cursor next : ℕ} {s s' : KeyValueStore} {t : Turn} {page : List String}
    (room : s.scanCursors.size < maxScanCursors)
    (call : executeReporting codec t.env (.scan cursor t.pattern t.count) s =
      (scanReply next (page.map bulk), s', [])) :
    Iteration codec cursor s [t] [page] next [(t.env.now, s)]
  | more {cursor next last : ℕ} {s s' s'' : KeyValueStore} {t : Turn} {page : List String}
    {turns : List Turn} {pages : List (List String)} {seen : List (ℕ × KeyValueStore)}
    (room : s.scanCursors.size < maxScanCursors)
    (call : executeReporting codec t.env (.scan cursor t.pattern t.count) s =
      (scanReply next (page.map bulk), s', []))
    (unfinished : next ≠ 0) (after : Runs.exec (storeStep codec) s' t.after = some s'')
    (spares : Runs.Each (storeStep codec) (Spares next) s' t.after)
    (rest : Iteration codec next s'' turns pages last seen) :
    Iteration codec cursor s (t :: turns) (page :: pages) last
      ((t.env.now, s) ::
        passed codec s (.execute t.env (.scan cursor t.pattern t.count) :: t.after) ++ seen)

section

variable {codec : Codec} {cursor next last : ℕ} {s s' s'' : KeyValueStore} {ops : List StoreOp} {t : Turn}
  {page : List String} {turns : List Turn} {pages : List (List String)} {seen : List (ℕ × KeyValueStore)}
  {P : KeyValueStore → Prop} {Q : ℕ × KeyValueStore → Prop}

theorem passed_invariant
    (keeps : ∀ (op : StoreOp) s, P s → Q (op.time, op.apply codec s) → P (op.apply codec s)) (start : P s)
    (all : ∀ p ∈ passed codec s ops, Q p) (run : Runs.exec (storeStep codec) s ops = some s') :
    (∀ p ∈ passed codec s ops, P p.2) ∧ P s' := by
  induction ops generalizing s with
  | nil =>
    obtain rfl := Option.some.inj run
    exact ⟨List.forall_mem_nil _, start⟩
  | cons op ops ih =>
    have step := keeps op s start (all _ List.mem_cons_self)
    obtain ⟨inside, final⟩ := ih step (fun p mem => all p (List.mem_cons_of_mem _ mem)) run
    refine ⟨fun p mem => ?_, final⟩
    obtain rfl | later := List.mem_cons.mp mem
    · exact step
    · exact inside p later

/-- What every operation preserves, a call included, holds of all stores of an iteration. -/
theorem Iteration.invariant
    (keeps : ∀ (op : StoreOp) s, P s → Q (op.time, op.apply codec s) → P (op.apply codec s))
    (iteration : Iteration codec cursor s turns pages last seen) (start : P s) (all : ∀ p ∈ seen, Q p) :
    ∀ p ∈ seen, P p.2 := by
  induction iteration with
  | last room call =>
    intro p mem
    obtain rfl := List.mem_singleton.mp mem
    exact start
  | @more cursor next last s s' s'' t page turns pages seen room call unfinished after spares rest ih =>
    have run : Runs.exec (storeStep codec) s (.execute t.env (.scan cursor t.pattern t.count) :: t.after) =
        some s'' := by
      refine Runs.exec_cons.mpr ⟨s', ?_, after⟩
      rw [storeStep, StoreOp.apply, call]
    obtain ⟨inside, final⟩ := passed_invariant keeps start
      (fun p mem => all p (List.mem_cons_of_mem _ (List.mem_append_left _ mem))) run
    have later := ih final fun p mem => all p (List.mem_cons_of_mem _ (List.mem_append_right _ mem))
    intro p mem
    obtain rfl | between := List.mem_cons.mp mem
    · exact start
    · exact (List.mem_append.mp between).elim (inside p) (later p)

/-! ### The walk of an iteration -/

theorem scanReply_inj {next' : ℕ} {page' : List String}
    (same : scanReply next (page.map bulk) = scanReply next' (page'.map bulk)) :
    next = next' ∧ page = page' := by
  have bulk_injective : Function.Injective bulk := fun a b eq => by
    simpa [bulk] using eq
  simp only [scanReply, arrayOf, blob, Value.array.injEq, Option.some.injEq, List.cons.injEq,
    Value.bulkString.injEq, and_true] at same
  refine ⟨?_, (List.map_injective_iff.mpr bulk_injective) same.2⟩
  exact Option.some.inj (by rw [← Decimal.digitsValue_digits, same.1, Decimal.digitsValue_digits])

theorem position_pending {key : String} (pending : Pending s cursor key) (later : cursor ≠ 0) :
    s.position cursor = some key := by
  rw [position, if_neg later, pending.found]

/-- A call returns one page, and the next cursor stands for its end. -/
theorem call_known (room : s.scanCursors.size < maxScanCursors) (counter : 1 ≤ s.nextScanCursor)
    (here : cursor = 0 ∨ ∃ key, Pending s cursor key)
    (call : executeReporting codec t.env (.scan cursor t.pattern t.count) s =
      (scanReply next (page.map bulk), s', [])) :
    let p := keyPage t.env.now t.pattern t.count s
    page = p.returned (s.position cursor) ∧
      (p.next (s.position cursor) = none ∧ next = 0 ∨
        ∃ key, p.next (s.position cursor) = some key ∧ next ≠ 0 ∧ Pending s' next key) := by
  have known : cursor = 0 ∨ (s.scanCursors[cursor]?).isSome := by
    obtain start | ⟨key, pending⟩ := here
    · exact .inl start
    · right
      rw [pending.found]
      rfl
  have smaller : (s.scanCursors.erase cursor).size < maxScanCursors :=
    Std.ExtTreeMap.size_erase_le.trans_lt room
  have eq : ((scanKeys t.env.now cursor t.pattern t.count s).1,
      (scanKeys t.env.now cursor t.pattern t.count s).2, []) =
        (scanReply next (page.map bulk), s', ([] : List String)) := call
  rw [scanKeys_known known smaller] at eq
  cases more : (keyPage t.env.now t.pattern t.count s).next (s.position cursor) with
  | none =>
    rw [more] at eq
    obtain ⟨reply, -⟩ := Prod.mk.inj eq
    obtain ⟨rfl, rfl⟩ := scanReply_inj reply
    exact ⟨rfl, .inl ⟨more, rfl⟩⟩
  | some key =>
    rw [more] at eq
    obtain ⟨reply, rest⟩ := Prod.mk.inj eq
    obtain ⟨rfl, rfl⟩ := scanReply_inj reply
    obtain ⟨rfl, -⟩ := Prod.mk.inj rest
    refine ⟨rfl, .inr ⟨key, more, by omega, ?_, ?_⟩⟩
    · simp
    · dsimp only
      omega

theorem Pending.run {key : String} (pending : Pending s cursor key)
    (spares : Runs.Each (storeStep codec) (Spares cursor) s ops)
    (run : Runs.exec (storeStep codec) s ops = some s') : Pending s' cursor key := by
  refine Runs.invariant (P := fun s => Pending s cursor key) (fun s op s' pending spares next => ?_) run
    spares pending
  obtain rfl := Option.some.inj next
  exact pending.apply spares

/-- The pages of an iteration are those of a walk over the ordered keys, as they are at each call. -/
theorem Iteration.walk (iteration : Iteration codec cursor s turns pages last seen)
    (counter : 1 ≤ s.nextScanCursor) (here : cursor = 0 ∨ ∃ key, Pending s cursor key) :
    ∃ walked stop, Paging.Walk (s.position cursor) walked pages stop ∧ (stop = none ↔ last = 0) ∧
      walked.length = turns.length ∧ ∀ p ∈ walked, ∃ t ∈ turns, ∃ s, (t.env.now, s) ∈ seen ∧
        p = keyPage t.env.now t.pattern t.count s := by
  induction iteration with
  | @last cursor next s s' t page room call =>
    obtain ⟨rfl, ends⟩ := call_known room counter here call
    refine ⟨_, _, .last _ _, ?_, rfl, fun p mem => ?_⟩
    · obtain ⟨done, rfl⟩ | ⟨key, more, open', -⟩ := ends
      · exact iff_of_true done rfl
      · rw [more]
        exact iff_of_false (by simp) open'
    · obtain rfl := List.mem_singleton.mp mem
      exact ⟨t, by simp, s, by simp, rfl⟩
  | @more cursor next last s s' s'' t page turns pages seen room call unfinished after spares rest ih =>
    obtain ⟨rfl, ends⟩ := call_known room counter here call
    obtain ⟨-, done⟩ | ⟨key, more, -, pending⟩ := ends
    · exact absurd done unfinished
    · have pending := pending.run spares after
      obtain ⟨walked, stop, walk, iff, length, pages⟩ :=
        ih (Nat.one_le_iff_ne_zero.mpr (Nat.ne_zero_of_lt pending.older)) (.inr ⟨key, pending⟩)
      rw [position_pending pending unfinished] at walk
      refine ⟨_, stop, .next more walk, iff, by simp [length], fun p mem => ?_⟩
      obtain rfl | later := List.mem_cons.mp mem
      · exact ⟨t, by simp, s, by simp, rfl⟩
      · obtain ⟨t', turn, s₁, passed, eq⟩ := pages p later
        exact ⟨t', List.mem_cons_of_mem _ turn, s₁,
          List.mem_cons_of_mem _ (List.mem_append_right _ passed), eq⟩

/-- An iteration that goes on has started with a cursor of the table. -/
theorem Iteration.known (iteration : Iteration codec cursor s turns pages last seen)
    (unfinished : last ≠ 0) : cursor = 0 ∨ (s.scanCursors[cursor]?).isSome := by
  by_contra unknown
  rw [not_or, Option.not_isSome_iff_eq_none] at unknown
  have ends {t : Turn} {next : ℕ} {page : List String} {s' : KeyValueStore}
      (call : executeReporting codec t.env (.scan cursor t.pattern t.count) s =
        (scanReply next (page.map bulk), s', [])) : next = 0 := by
    have eq := congrArg Prod.fst call
    change (scanKeys t.env.now cursor t.pattern t.count s).1 = _ at eq
    rw [scanKeys_unknown unknown.1 unknown.2] at eq
    change scanReply 0 (([] : List String).map bulk) = _ at eq
    exact (scanReply_inj eq).1.symm
  cases iteration with
  | last room call => exact unfinished (ends call)
  | more room call open' after spares rest => exact open' (ends call)

theorem Iteration.start_mem (iteration : Iteration codec cursor s turns pages last seen) :
    ∃ now, seen.head? = some (now, s) := by
  cases iteration with
  | last room call => exact ⟨_, rfl⟩
  | more room call open' after spares rest => exact ⟨_, rfl⟩

end

/-! ## Scanning a store -/

theorem Scannable.run {codec : Codec} {since : ℕ} {s s' : KeyValueStore} {ops : List StoreOp}
    (h : Scannable since s) (before : ∀ op ∈ ops, op.time ≤ since)
    (run : Runs.exec (storeStep codec) s ops = some s') : Scannable since s' := by
  induction ops generalizing s with
  | nil => exact Option.some.inj run ▸ h
  | cons op ops ih =>
    exact ih (h.apply (before op List.mem_cons_self))
      (fun op mem => before op (List.mem_cons_of_mem _ mem)) run

/-- What a client can rely on that scans the store, at the time or later. -/
structure ScansAll (codec : Codec) (since : ℕ) (s : KeyValueStore) : Prop where
  /-- Every call is answered. -/
  answers : ∀ cursor env pattern count, ∃ (next : ℕ) (page : List String) (s' : KeyValueStore),
    executeReporting codec env (.scan cursor pattern count) s = (scanReply next (page.map bulk), s', [])
  /-- A full iteration returns a key that is live and matches throughout exactly once. -/
  complete : ∀ turns pages seen, Iteration codec 0 s turns pages 0 seen → (∀ p ∈ seen.head?, since ≤ p.1) →
    ∀ key, (∀ p ∈ seen, ∃ e, p.2.data[key]? = some e ∧ e.isExpired p.1 = false) →
      (∀ t ∈ turns, globMatch (t.pattern.getD "*") key = true) → pages.flatten.count key = 1
  /-- From here on, as long as no key is added, there is at most one unfinished call for each key. -/
  ends : ∀ cursor turns pages last seen, Iteration codec cursor s turns pages last seen →
    (∀ p ∈ seen, ∀ key ∈ p.2.data, key ∈ s.data) → last ≠ 0 → turns.length ≤ s.data.size

theorem Scannable.scansAll {since : ℕ} {s : KeyValueStore} (h : Scannable since s) (codec : Codec) :
    ScansAll codec since s where
  answers cursor env pattern count := by
    obtain ⟨next, page, reply⟩ := scanKeys_reply env.now cursor pattern count s
    exact ⟨next, page, (scanKeys env.now cursor pattern count s).2, by rw [← reply]; rfl⟩
  complete turns pages seen iteration later key live matching := by
    obtain ⟨now, start⟩ := iteration.start_mem
    have listed : ∀ p ∈ seen, key ∈ p.2.index.ordered := by
      refine iteration.invariant (P := fun s => key ∈ s.index.ordered) (fun op s there alive => ?_) ?_ live
      · obtain ⟨e, found, alive⟩ := alive
        exact (op.reindexed codec s key).stays there found alive
      · obtain ⟨e, found, alive⟩ := live (now, s) (List.mem_of_mem_head? start)
        refine h.live key e found ?_
        cases past : e.isExpired since with
        | false => rfl
        | true =>
          rw [isExpired_mono (later _ start) past] at alive
          exact alive
    obtain ⟨walked, stop, walk, done, -, calls⟩ := iteration.walk h.numbered.counter (.inl rfl)
    have once := walk.increasing.1.imp fun lt => ne_of_lt lt
    refine List.count_eq_one_of_mem once (walk.mem (done.mpr rfl) (fun p mem => ?_) ?_)
    · obtain ⟨t, turn, s₁, there, rfl⟩ := calls p mem
      obtain ⟨e, found, alive⟩ := live _ there
      refine ⟨Std.ExtTreeSet.mem_toList.mpr (listed _ there), ?_⟩
      simp only [keyPage, matching t turn, Bool.true_and]
      dsimp only at found alive
      rw [found, Option.any_some, alive]
      rfl
    · rintro b ⟨⟩
  ends cursor turns pages last seen iteration shrinks unfinished := by
    have stored : ∀ p ∈ seen, ∀ key ∈ p.2.index.ordered, key ∈ p.2.data :=
      iteration.invariant (P := fun s => ∀ key ∈ s.index.ordered, key ∈ s.data) (Q := fun _ => True)
        (fun op s before _ key => (op.reindexed codec s key).stored (before key)) h.stored
        fun _ _ => trivial
    have here : cursor = 0 ∨ ∃ key, Pending s cursor key :=
      (iteration.known unfinished).imp_right fun there => by
        obtain ⟨key, found⟩ := Option.isSome_iff_exists.mp there
        exact ⟨key, found, h.numbered.older cursor there⟩
    obtain ⟨walked, stop, walk, done, length, calls⟩ := iteration.walk h.numbered.counter here
    have more : stop.isSome := Option.isSome_iff_ne_none.mpr fun none => unfinished (done.mp none)
    have among : ∀ p ∈ walked, ∀ a ∈ p.members, a ∈ s.data.keys := fun p mem a member => by
      obtain ⟨t, -, s₁, there, rfl⟩ := calls p mem
      have kept := shrinks _ there a (stored _ there a (Std.ExtTreeSet.mem_toList.mp member))
      exact Std.ExtTreeMap.mem_keys.mpr kept
    rw [← length, ← Std.ExtTreeMap.length_keys]
    exact (walk.length_le more among).trans (List.length_filter_le _ _)

/-- The clock must not have run back when the scan starts: a key that had lapsed when the index was
rebuilt has lost its place there. -/
theorem scans_all (codec : Codec) (maxKeys maxMemoryBytes : Option ℕ) (policy : EvictionPolicy)
    (sample : ℕ) (ops : List StoreOp) (s : KeyValueStore)
    (run : Runs.exec (storeStep codec) (.withConfig maxKeys maxMemoryBytes policy sample) ops = some s)
    (since : ℕ) (before : ∀ op ∈ ops, op.time ≤ since) : ScansAll codec since s := by
  have start : Scannable since (.withConfig maxKeys maxMemoryBytes policy sample) := by
    refine ⟨fun key there => ?_, fun key e found => ?_, le_rfl, fun cursor found => ?_⟩
    · simp [withConfig] at there
    · simp [withConfig] at found
    · simp [withConfig] at found
  exact (start.run before run).scansAll codec

theorem scans_all_three :
    let ops := [.execute (.fixed 0) (.mSet [("a", [49]), ("b", [50]), ("c", [51])])]
    ∃ s, Runs.exec (storeStep .literals) (.withConfig none none .noEviction 10) ops = some s ∧
      ScansAll .literals 0 s ∧
        ∃ turns seen, Iteration .literals 0 s turns [["a", "b"], ["c", "d"]] 0 seen := by
  intro ops
  refine ⟨_, rfl, scans_all .literals none none .noEviction 10 ops _ rfl 0 ?_,
    [⟨.fixed 1, none, some 2, [.execute (.fixed 2) (.mSet [("a0", [52]), ("d", [53])])]⟩,
      ⟨.fixed 3, some "?", none, []⟩], ?_⟩
  · simp [ops, StoreOp.time, Env.fixed]
  · refine ⟨_, .more (by decide) rfl (by decide) rfl ⟨?_, fun _ _ => trivial⟩ (.last (by decide) rfl)⟩
    rintro env other pattern count ⟨⟩

end Recached
