import Recached.Scanning

/-!
# Scanning a collection

`HSCAN`, `SSCAN` and `ZSCAN` sort the elements that match and cut a page out of them; the cursor is how
far into the sorted list the next page starts.  A client that follows the cursors of a collection which
does not change meets every matching element in exactly one page (`traverses_once`), and no cursor leads
outside the list (`pages_bounded`).
-/

namespace Recached

open Text Lapse

/-! ## Pages by offset -/

section

variable {α β : Type} {items : List α} {cursor : ℕ} {count : Option ℕ}

theorem scanPage_map (f : α → β) (items : List α) (cursor : ℕ) (count : Option ℕ) :
    scanPage (items.map f) cursor count =
      ((scanPage items cursor count).1.map f, (scanPage items cursor count).2) := by
  simp only [scanPage, List.length_map, List.map_take, List.map_drop]

/-- The last page is all that is left. -/
theorem scanPage_last (last : items.length ≤ cursor + max (count.getD 10) 1) :
    scanPage items cursor count = (items.drop cursor, 0) := by
  have stop : min (min cursor items.length + max (count.getD 10) 1) items.length = items.length := by
    omega
  simp only [scanPage, stop, le_refl, if_true, Prod.mk.injEq, and_true]
  obtain within | past := Nat.le_total cursor items.length
  · rw [Nat.min_eq_left within, List.take_of_length_le (by rw [List.length_drop])]
  · rw [Nat.min_eq_right past, List.drop_of_length_le past, Nat.sub_self, List.take_zero]

theorem scanPage_more (more : cursor + max (count.getD 10) 1 < items.length) :
    scanPage items cursor count =
      ((items.drop cursor).take (max (count.getD 10) 1), cursor + max (count.getD 10) 1) := by
  have within : min cursor items.length = cursor := by omega
  have stop : min (cursor + max (count.getD 10) 1) items.length = cursor + max (count.getD 10) 1 := by
    omega
  simp only [scanPage, within, stop, Nat.add_sub_cancel_left, if_neg (Nat.not_le.mpr more)]

/-- A page is a stretch of the list, and the next cursor lies within it. -/
theorem scanPage_bounded (items : List α) (cursor : ℕ) (count : Option ℕ) :
    ∃ start stop, start = min cursor items.length ∧ start ≤ stop ∧ stop ≤ items.length ∧
      stop - start ≤ max (count.getD 10) 1 ∧
      (scanPage items cursor count).1 = (items.drop start).take (stop - start) ∧
      (scanPage items cursor count).2 ≤ stop :=
  ⟨min cursor items.length, min (min cursor items.length + max (count.getD 10) 1) items.length, rfl,
    by omega, by omega, by omega, rfl, by simp only [scanPage]; split_ifs <;> omega⟩

end

/-! ## Collections -/

/-- What can be scanned. -/
inductive Collection where
  | hash (h : Hash)
  | set (s : MemberSet)
  | zset (z : ZSet)

namespace Collection

def value : Collection → EntryValue
  | hash h => .hash h
  | set s => .set s
  | zset z => .zset z

/-- The command that scans it. -/
def scan : Collection → String → ScanArgs → Command
  | hash _ => .hScan
  | set _ => .sScan
  | zset _ => .zScan

/-- Only the fields of a hash can be listed without their values. -/
def novaluesOk : Collection → Bool
  | hash _ => true
  | set _ | zset _ => false

/-- The elements in order: the name of each, and what a reply lists for it. -/
def elements (novalues : Bool) : Collection → List (String × List Value)
  | hash h => h.toList.map fun f => (f.1, if novalues then [bulk f.1] else [bulk f.1, blob f.2])
  | set s => s.toList.map fun m => (m, [bulk m])
  | zset z => z.toList.map fun e => (e.1, [bulk e.1, blob (formatScore e.2)])

def matching (c : Collection) (novalues : Bool) (pattern : Option String) : List (String × List Value) :=
  (c.elements novalues).filter fun e => globMatch (pattern.getD "*") e.1

/-- A live key holds the collection. -/
def HeldBy (c : Collection) (key : String) (now : ℕ) (s : KeyValueStore) : Prop :=
  (s.live now key).map Lapse.Cell.value = some c.value

theorem names_nodup (c : Collection) (novalues : Bool) : ((c.elements novalues).map Prod.fst).Nodup := by
  have distinct {β : Type} (m : Std.ExtTreeMap String β) : (m.toList.map Prod.fst).Nodup := by
    rw [Std.ExtTreeMap.map_fst_toList_eq_keys]
    exact Std.ExtTreeMap.nodup_keys
  cases c with
  | hash h => simpa [elements, Function.comp_def] using distinct h
  | set s =>
    have ordered : s.toList.Nodup :=
      Std.ExtTreeSet.ordered_toList.imp fun lt => ne_of_lt (compare_lt_iff_lt.mp lt)
    simpa [elements, Function.comp_def] using ordered
  | zset z => simpa [elements, Function.comp_def] using distinct z

/-- A call answers with a page of the elements that match. -/
theorem reply_scan {c : Collection} {key : String} {env : Env} {s : KeyValueStore}
    (held : c.HeldBy key env.now s) (codec : Codec) (args : ScanArgs) :
    let (page, next) := scanPage (c.matching args.novalues args.pattern) args.cursor args.count
    (execute codec env (c.scan key args) s).1 = scanReply next (page.flatMap Prod.snd) := by
  obtain ⟨cell, there, value⟩ := Option.map_eq_some_iff.mp held
  have reads : mutationScope (c.scan key args) = .readOnly := by cases c <;> rfl
  have direct : readsKeyspace (c.scan key args) = false := by cases c <;> rfl
  dsimp only
  rw [execute_reads codec env s reads direct]
  cases c with
  | hash h =>
    rw [scan, perform_one rfl, there]
    simp only [readAs, value, Collection.value, Kind.hash, hScanAct, matching, elements, List.filter_map,
      scanPage_map, List.flatMap_map]
    rfl
  | set s =>
    rw [scan, perform_one rfl, there]
    simp only [readAs, value, Collection.value, Kind.set, matching, elements, List.filter_map,
      scanPage_map, List.flatMap_map]
    exact congrArg _ List.map_eq_flatMap
  | zset z =>
    rw [scan, perform_one rfl, there]
    simp only [zsetRead, readAs, value, Collection.value, Kind.zset, zScanAct, matching, elements,
      List.filter_map, scanPage_map, List.flatMap_map]
    rfl

end Collection

/-! ## Following the cursors -/

/-- The options do not look at the cursor. -/
theorem parseScanOptions_cursor (novaluesOk : Bool) (cursor : ℕ) (args : ScanArgs) (tokens : List Value) :
    parseScanOptions novaluesOk { args with cursor } tokens =
      (parseScanOptions novaluesOk args tokens).map fun args => { args with cursor } := by
  fun_induction parseScanOptions novaluesOk args tokens
  case case1 => rfl
  case case2 v isMatch => simp only [parseScanOptions, isMatch, Except.map]
  case case3 args opt isMatch v rest go p text ih =>
    simp only [text] at ih
    simp only [parseScanOptions, isMatch, text, go]
    cases checkPattern p with
    | error e => rfl
    | ok u => exact ih
  case case4 args opt isMatch v rest go text ih =>
    simp only [text] at ih
    simp only [parseScanOptions, isMatch, text, go]
    exact ih
  case case5 v isCount => simp only [parseScanOptions, isCount, Except.map]
  case case6 args opt isCount v rest ih =>
    simp only [parseScanOptions, isCount]
    cases extractInt v with
    | error e => rfl
    | ok n =>
      dsimp only [bind, Except.bind]
      split_ifs
      · rfl
      · exact ih n
  case case7 args opt rest isNovalues allowed ih =>
    conv_lhs => unfold parseScanOptions
    simp only [isNovalues, if_pos allowed]
    exact ih
  case case8 args opt rest isNovalues refused =>
    unfold parseScanOptions
    simp only [isNovalues, if_neg refused, Except.map]
  case case9 args opt rest notMatch notCount notNovalues =>
    unfold parseScanOptions
    dsimp only
    split
    · exact absurd ‹_› notMatch
    · exact absurd ‹_› notCount
    · exact absurd ‹_› notNovalues
    · rfl

/-- One call: what it meets, and the options after the cursor. -/
structure ScanCall where
  env : Env
  store : KeyValueStore
  tokens : List Value

/-- A client scans a collection: it sends every cursor back as it was answered, until it is `0`. -/
inductive Traversal (codec : Codec) (c : Collection) (key : String) :
    Value → List ScanCall → List (List (String × List Value)) → Prop
  | last {cursor : Value} {t : ScanCall} {args : ScanArgs} {page : List (String × List Value)}
      (accepted : parseScanArgs cursor t.tokens c.novaluesOk = .ok args)
      (reply : (execute codec t.env (c.scan key args) t.store).1 =
        arrayOf [bulk "0", arrayOf (page.flatMap Prod.snd)]) :
      Traversal codec c key cursor [t] [page]
  | more {cursor next : Value} {t : ScanCall} {args : ScanArgs} {page : List (String × List Value)}
      {turns : List ScanCall} {pages : List (List (String × List Value))}
      (accepted : parseScanArgs cursor t.tokens c.novaluesOk = .ok args)
      (reply : (execute codec t.env (c.scan key args) t.store).1 =
        arrayOf [next, arrayOf (page.flatMap Prod.snd)])
      (unfinished : next ≠ bulk "0")
      (rest : Traversal codec c key next turns pages) :
      Traversal codec c key cursor (t :: turns) (page :: pages)

theorem bulk_zero : bulk "0" = blob (Decimal.digits 0) :=
  congrArg blob (by decide)

theorem cursor_ne_zero {n : ℕ} (later : n ≠ 0) : blob (Decimal.digits n) ≠ bulk "0" := by
  rw [bulk_zero]
  intro same
  have digits : Decimal.digits n = Decimal.digits 0 := Option.some.inj (Value.bulkString.inj same)
  exact later (Option.some.inj (by rw [← Decimal.digitsValue_digits, digits, Decimal.digitsValue_digits]))

/-- The cursor of a reply is read back as the number it stands for. -/
theorem parseScanArgs_digits {n : ℕ} (fits : n ≤ Decimal.u64Max) (tokens : List Value)
    (novaluesOk : Bool) :
    parseScanArgs (blob (Decimal.digits n)) tokens novaluesOk =
      (parseScanArgs (bulk "0") tokens novaluesOk).map fun args => { args with cursor := n } := by
  have read : Decimal.parseU64 (asBytes (stringArg (blob (Decimal.digits n)))) = some n := by
    rw [stringArg, blob, extractString, Option.getD_some, (Decimal.isText_digits n).asBytes_lossy,
      Decimal.parseU64_digits fits]
  have start : Decimal.parseU64 (asBytes (stringArg (bulk "0"))) = some 0 := by decide
  simp only [parseScanArgs, read, start]
  exact parseScanOptions_cursor novaluesOk n { cursor := 0 } tokens

/-- The calls find the collection unchanged and name one pattern. -/
structure Steadily (c : Collection) (key : String) (pattern : Option String) (novalues : Bool)
    (calls : ℕ → ScanCall) : Prop where
  held : ∀ i, c.HeldBy key (calls i).env.now (calls i).store
  options : ∀ i, ∃ args, parseScanArgs (bulk "0") (calls i).tokens c.novaluesOk = .ok args ∧
    args.pattern = pattern ∧ args.novalues = novalues

section

variable {c : Collection} {key : String} {pattern : Option String} {novalues : Bool}

/-- From any cursor on the pages are what is left of the elements that match. -/
theorem Steadily.traversal (fits : (c.elements novalues).length ≤ Decimal.u64Max) (codec : Codec)
    {calls : ℕ → ScanCall} (steady : Steadily c key pattern novalues calls) {cursor : ℕ}
    (within : cursor ≤ (c.matching novalues pattern).length) :
    ∃ pages,
      Traversal codec c key (blob (Decimal.digits cursor)) ((List.range pages.length).map calls) pages ∧
      pages.flatten = (c.matching novalues pattern).drop cursor ∧
      pages.length ≤ (c.matching novalues pattern).length - cursor + 1 := by
  generalize left : (c.matching novalues pattern).length - cursor = n
  induction n using Nat.strong_induction_on generalizing cursor calls with
  | _ n ih =>
    have fitting : cursor ≤ Decimal.u64Max := within.trans ((List.length_filter_le ..).trans fits)
    obtain ⟨args, accepted, rfl, rfl⟩ := steady.options 0
    have reply := Collection.reply_scan (steady.held 0) codec { args with cursor }
    have parsed := parseScanArgs_digits fitting (calls 0).tokens c.novaluesOk
    rw [accepted] at parsed
    have batch : 0 < max (args.count.getD 10) 1 := by omega
    by_cases more : cursor + max (args.count.getD 10) 1 < (c.matching args.novalues args.pattern).length
    · rw [scanPage_more more] at reply
      have later : Steadily c key args.pattern args.novalues fun i => calls (i + 1) :=
        ⟨fun i => steady.held (i + 1), fun i => steady.options (i + 1)⟩
      obtain ⟨pages, rest, flat, short⟩ := ih _ (by omega) later more.le rfl
      refine ⟨((c.matching args.novalues args.pattern).drop cursor).take (max (args.count.getD 10) 1) ::
        pages, ?_, ?_, ?_⟩
      · rw [List.length_cons, List.range_succ_eq_map, List.map_cons, List.map_map]
        exact .more parsed reply (cursor_ne_zero (by omega)) rest
      · rw [List.flatten_cons, flat, ← List.drop_drop, List.take_append_drop]
      · rw [List.length_cons]
        omega
    · rw [scanPage_last (Nat.not_lt.mp more)] at reply
      refine ⟨[(c.matching args.novalues args.pattern).drop cursor], .last parsed ?_, by simp, by simp⟩
      rw [reply, scanReply, bulk_zero]

end

/-- What scanning a collection at a key amounts to. -/
structure PagesThrough (codec : Codec) (c : Collection) (key : String) : Prop where
  once : ∀ pattern novalues calls, Steadily c key pattern novalues calls → ∃ pages,
    Traversal codec c key (bulk "0") ((List.range pages.length).map calls) pages ∧
      pages.flatten = c.matching novalues pattern ∧ (pages.flatten.map Prod.fst).Nodup ∧
      pages.length ≤ (c.matching novalues pattern).length + 1
  bounded : ∀ env s args, c.HeldBy key env.now s → ∃ start stop next,
    let items := c.matching args.novalues args.pattern
    start = min args.cursor items.length ∧ start ≤ stop ∧ stop ≤ items.length ∧ next ≤ stop ∧
      (execute codec env (c.scan key args) s).1 =
        scanReply next (((items.drop start).take (stop - start)).flatMap Prod.snd)

/-- The size of a collection is a machine number, so that its cursors are. -/
theorem collection_scanned (codec : Codec) (c : Collection) (key : String)
    (fits : (c.elements false).length ≤ Decimal.u64Max) : PagesThrough codec c key where
  once pattern novalues calls steady := by
    have sized : (c.elements novalues).length ≤ Decimal.u64Max := by
      cases c <;> simpa only [Collection.elements, List.length_map] using fits
    rw [bulk_zero]
    obtain ⟨pages, walk, flat, short⟩ := steady.traversal sized codec (Nat.zero_le _)
    rw [List.drop_zero] at flat
    refine ⟨pages, walk, flat, ?_, short⟩
    rw [flat]
    exact (List.filter_sublist.map Prod.fst).nodup (c.names_nodup novalues)
  bounded env s args held := by
    have reply := Collection.reply_scan held codec args
    obtain ⟨start, stop, start_eq, le, within, -, page, next⟩ :=
      scanPage_bounded (c.matching args.novalues args.pattern) args.cursor args.count
    exact ⟨start, stop, _, start_eq, le, within, next, by rw [← page]; exact reply⟩

theorem collection_scanned_three :
    let h : Hash := ((∅ : Hash).insert "a" [49]).insert "b" [50]
    let s : KeyValueStore := { data := (∅ : Data).insert "h" ⟨⟨.hash h, none⟩, 0⟩ }
    PagesThrough .literals (.hash h) "h" ∧
      ∃ pages, Traversal .literals (.hash h) "h" (bulk "0")
        ((List.range pages.length).map fun _ => ⟨.fixed 0, s, [bulk "count", bulk "1"]⟩) pages ∧
        pages.flatten = [("a", [bulk "a", blob [49]]), ("b", [bulk "b", blob [50]])] := by
  intro h s
  have scanned := collection_scanned .literals (.hash h) "h" (by decide)
  obtain ⟨pages, walk, flat, -, -⟩ := scanned.once none false
    (fun _ => ⟨.fixed 0, s, [bulk "count", bulk "1"]⟩) ⟨fun _ => rfl, fun _ => ⟨_, rfl, rfl, rfl⟩⟩
  exact ⟨scanned, pages, walk, flat⟩

end Recached
