import Recached.Arguments

/-!
# What the parsers carry

One statement for each section of the table of parsers: every parser in it reads the arguments that
`layout` names for its command.  `parsers_carry` puts the sections together.
-/

namespace Recached

open Text

/-! ## Strings, deadlines and the server -/

/-- An optional first argument, empty if it is not a string. -/
theorem optional_reads {name : String} {args : List Value} (text : TextArgs name args)
    (free : isPayloadIndex name 1 = false) : ReadsAs extractBytes [] ([0].filterMap (args[·]?))
      ((args.head?.map stringArg).toList.map asBytes) := by
  cases args with
  | nil => exact .nil
  | cons v vs =>
    have v_text : IsTextArg v := text 0 v rfl free
    show ReadsAs extractBytes [] [v] [asBytes (stringArg v)]
    rw [v_text.stringArg]
    exact .getD .nil

theorem expiryParsers_carry : ∀ entry ∈ expiryParsers, Carries entry.1 entry.2 := by
  have timed (name : String) (said : String) {g : String → ℕ → Command}
      (found : layout name = .fixed [0] 2)
      (free : isPayloadIndex name 1 = false) (carried : ∀ key t, (g key t).carried = [asBytes key]) :
      Carries name (deadline said g) := by
    refine carries_required found rfl fun args text => ?_
    refine whenOk_bind.mpr fun u arity => whenOk_bind.mpr fun t _ => ?_
    have := (need_ok u).mp arity
    split_ifs
    · exact whenOk_error _
    · rw [whenOk_ok, carried, text.argAt free]
      exact ⟨by simp; omega, rfl⟩
  simp only [expiryParsers, List.forall_mem_cons, List.not_mem_nil, IsEmpty.forall_iff, implies_true,
    and_true]
  refine ⟨timed _ _ rfl rfl fun _ _ => rfl, timed _ _ rfl rfl fun _ _ => rfl,
    timed _ _ rfl rfl fun _ _ => rfl, timed _ _ rfl rfl fun _ _ => rfl,
    ?_, ?_, ?_⟩
  all_goals
    refine carries_onName rfl rfl fun args text => ?_
    exact (whenOk_ok _).mpr (readAt_one (text.argAt rfl))

theorem coreParsers_carry : ∀ entry ∈ coreParsers, Carries entry.1 entry.2 := by
  simp only [coreParsers, List.forall_mem_cons, List.not_mem_nil, IsEmpty.forall_iff, implies_true,
    and_true]
  refine ⟨?ping, ?auth, ?hello, ?info, ?quit, ?client, ?config, ?command, ?cluster, ?module, ?pubsub,
    ?memory⟩
  case ping =>
    refine carries_fixed rfl rfl fun args text => ?_
    rw [whenOk_ok]
    cases args with
    | nil => exact .nil
    | cons v vs =>
      have v_text : IsTextArg v := text 0 v rfl rfl
      show ReadsAs extractBytes [] [v] ((extractString v).toList.map asBytes)
      rw [← Option.toList_map, v_text.extractString, ← List.append_nil (Option.toList _)]
      exact .toList .nil
  case hello =>
    refine carries_fixed rfl rfl fun args text => ?_
    rw [whenOk_ok]
    exact optional_reads text rfl
  case auth =>
    refine carries_onName rfl rfl fun args text => ?_
    exact (whenOk_ok _).mpr (readAt_one (text.argAt rfl))
  case quit =>
    exact carries_required rfl rfl fun args text => (whenOk_ok _).mpr ⟨by simp, rfl⟩
  case info =>
    intro args text
    have said (v : Value) : asBytes (toLowercase (stringArg v)) = (saidBytes "INFO" v).getD [] := by
      rcases v with _ | _ | _ | (_ | data) | _
      all_goals first | rfl | simp [saidBytes, stringArg, extractString, extractBytes]
    have carried : (Command.info (args.map fun v => toLowercase (stringArg v))).carried =
        args.map fun v => (saidBytes "INFO" v).getD [] := by
      simp [Command.carried, said]
    rw [whenOk_ok]
    refine ⟨by simp [layout, Layout.all], fun _ => ?_⟩
    rw [carried]
    exact .map_getD args
  case memory =>
    intro args text
    have texts := text.mem rfl
    show WhenOk _ (_ >>= _)
    rw [whenOk_bind]
    intro u arity
    have room : (layout "MEMORY").room = none := rfl
    have names : (layout "MEMORY").carried args =
      if toUppercase (stringArg (argAt args 1)) = "USAGE" then (args.drop 1).take 1 else args := rfl
    rw [room, names, saidBytes_eq (by decide)]
    simp only [Option.not_mem_none, IsEmpty.forall_iff, implies_true, true_and, forall_true_left]
    by_cases usage : toUppercase (stringArg (argAt args 1)) = "USAGE"
    · rw [if_pos usage, if_neg (not_not.mpr usage)]
      refine whenOk_bind.mpr fun u long => whenOk_bind.mpr fun key said => ?_
      have reads : ReadsAs extractBytes [] ((args.drop 1).take 1) [asBytes key] := by
        rcases args with _ | ⟨a, _ | ⟨v, vs⟩⟩
        · exact absurd (need_length long) (by simp)
        · exact absurd (need_length long) (by simp)
        · rw [takeKey_eq said]
          show ReadsAs extractBytes [] [v] [asBytes (stringArg v)]
          rw [(texts v (by simp)).stringArg]
          exact .getD .nil
      repeat' first
        | exact whenOk_error _
        | refine whenOk_bind.mpr fun _ _ => ?_
        | split
      all_goals exact (whenOk_ok _).mpr reads
    · rw [if_neg usage, if_pos usage, whenOk_ok]
      show ReadsAs extractBytes [] args ((collectStrings args).map asBytes)
      rw [collectStrings_eq texts]
      exact .filterMap args
  all_goals
    refine carries_names rfl rfl rfl fun args => ?_
    simp [Command.carried]

/-! ## Pairs and payloads -/

/-- The names and payloads of pairs, each after the other. -/
theorem parsePairs_reads {key : Value → Except String String}
    (keyed : ∀ {v k}, key v = .ok k → k = stringArg v) {vs : List Value} {pairs : List (String × Bytes)}
    (even : vs.length % 2 = 0) (text : ∀ i v, vs[2 * i]? = some v → IsTextArg v)
    (parsed : parsePairs key vs = .ok pairs) :
    ReadsAs extractBytes [] vs (pairs.flatMap fun p => [asBytes p.1, p.2]) := by
  induction vs using parsePairs.induct generalizing pairs with
  | case1 k v rest ih =>
    obtain ⟨name, named, parsed⟩ := bind_ok_iff.mp parsed
    obtain ⟨others, later, same⟩ := bind_ok_iff.mp parsed
    simp only [List.length_cons] at even
    have reads := ih (by omega) (fun i w at_i => text (i + 1) w at_i) later
    rw [← Except.ok.inj same, keyed named, List.flatMap_cons, (text 0 k rfl).stringArg]
    exact .getD (.getD reads)
  | case2 vs short =>
    rcases vs with _ | ⟨k, _ | ⟨v, rest⟩⟩
    · rw [← Except.ok.inj parsed]
      exact .nil
    · simp at even
    · exact absurd rfl (short k v rest)

theorem stringParsers_carry : ∀ entry ∈ stringParsers, Carries entry.1 entry.2 := by
  have payload (name : String) {g : String → Bytes → Command} (found : layout name = .fixed [0, 1] 2)
      (free : isPayloadIndex name 1 = false)
      (carried : ∀ key val, (g key val).carried = [asBytes key, val]) :
      Carries name (keyPayload g) := by
    refine carries_required found rfl fun args text => ?_
    refine whenOk_bind.mpr fun u arity => whenOk_bind.mpr fun key said => ?_
    have := need_length arity
    rw [whenOk_ok, carried, takeKey_eq said, text.argAt free]
    exact ⟨by simp; omega, rfl⟩
  have timed (name said : String) {g : String → ℕ → Bytes → Command}
      (found : layout name = .fixed [0, 2] 3)
      (free : isPayloadIndex name 1 = false)
      (carried : ∀ key t val, (g key t val).carried = [asBytes key, val]) :
      Carries name (keyTimePayload said g) := by
    refine carries_required found rfl fun args text => ?_
    refine whenOk_bind.mpr fun u arity => whenOk_bind.mpr fun t _ => whenOk_bind.mpr fun key said => ?_
    have := need_length arity
    rw [whenOk_ok, carried, extractKey_eq said, text.argAt free]
    exact ⟨by simp; omega, rfl⟩
  simp only [stringParsers, List.forall_mem_cons, List.not_mem_nil, IsEmpty.forall_iff, implies_true,
    and_true]
  refine ⟨?set, ?get, ?eset, ?del, ?unlink, payload _ rfl rfl fun _ _ => rfl, ?strlen,
    ?getrange, payload _ rfl rfl fun _ _ => rfl, ?mget, ?mset,
    payload _ rfl rfl fun _ _ => rfl, timed _ _ rfl rfl fun _ _ _ => rfl,
    timed _ _ rfl rfl fun _ _ _ => rfl, ?incr, ?decr, ?incrby, ?decrby⟩
  case set =>
    intro args text
    refine whenOk_bind.mpr fun u arity => whenOk_bind.mpr fun key said => whenOk_bind.mpr fun opts _ => ?_
    have room : (layout "SET").room = none := rfl
    have front : (layout "SET").carried args = args.take 2 := rfl
    rw [whenOk_ok, room, front, saidBytes_eq (by decide), takeKey_eq said]
    refine ⟨by simp, fun _ => ?_⟩
    rcases args with _ | ⟨k, _ | ⟨v, vs⟩⟩
    · exact absurd (need_length arity) (by simp)
    · exact absurd (need_length arity) (by simp)
    · have k_text : IsTextArg k := text 0 k rfl rfl
      show ReadsAs extractBytes [] [k, v] [asBytes (stringArg k), bytesArg v]
      rw [k_text.stringArg]
      exact .getD (.getD .nil)
  case mset =>
    refine carries_all rfl rfl fun args text => ?_
    show WhenOk _ (ite _ _ _)
    split_ifs with odd
    · exact whenOk_error _
    · refine whenOk_bind.mpr fun pairs parsed => (whenOk_ok _).mpr ?_
      refine parsePairs_reads takeKey_eq (by omega) (fun i v at_i => text _ v at_i ?_) parsed
      simp [isPayloadIndex]
  case del | unlink | mget =>
    refine carries_keys rfl rfl rfl fun args => ?_
    refine whenOk_bind.mpr fun _ _ => whenOk_bind.mpr fun keys said => (whenOk_ok _).mpr ?_
    exact ⟨keys, said, rfl⟩
  all_goals
    refine carries_onKey rfl rfl fun args text => ?_
    repeat' first
      | refine whenOk_bind.mpr fun _ _ => ?_
      | refine (whenOk_ok _).mpr ?_
    first
      | exact readAt_one (text.argAt rfl)
      | exact readAt_two (text.argAt rfl) rfl

/-! ## Scans -/

/-- The pattern of a scan is the last one among its options. -/
theorem parseScanOptions_pattern {novaluesOk : Bool} {a a' : ScanArgs} {tokens : List Value}
    (h : parseScanOptions novaluesOk a tokens = .ok a') :
    a'.pattern = ((scanPatterns tokens).getLast?.map extractString).getD a.pattern := by
  have last {v : Value} {vs : List Value} (p : Option String) :
      ((v :: vs).getLast?.map extractString).getD p =
        (vs.getLast?.map extractString).getD (extractString v) := by
    rw [List.getLast?_cons]
    cases vs.getLast? <;> rfl
  fun_induction parseScanOptions novaluesOk a tokens
  case case1 args =>
    rw [← Except.ok.inj h]
    rfl
  case case3 args opt isMatch v rest go p text ih =>
    obtain ⟨_, -, h⟩ := bind_ok_iff.mp h
    simp only [scanPatterns, isMatch, last]
    exact ih h
  case case4 args opt isMatch v rest go text ih =>
    simp only [scanPatterns, isMatch, last]
    exact ih h
  case case6 args opt isCount v rest ih =>
    obtain ⟨n, -, h⟩ := bind_ok_iff.mp h
    simp only [scanPatterns, isCount]
    split_ifs at h with low
    · cases h
    · exact ih n h
  case case7 args opt rest isFlag allowed ih =>
    have same : scanPatterns (opt :: rest) = scanPatterns rest := by
      cases rest <;> simp [scanPatterns, isFlag]
    rw [same]
    exact ih h
  all_goals cases h
theorem mem_scanPatterns {tokens : List Value} {v : Value} (h : v ∈ scanPatterns tokens) :
    v ∈ tokens := by
  induction tokens using scanPatterns.induct with
  | case1 => cases h
  | case2 opt p rest isMatch ih =>
    simp only [scanPatterns, isMatch, List.mem_cons] at h
    rcases h with rfl | h
    · simp
    · simp [ih h]
  | case3 opt n rest isCount ih =>
    simp only [scanPatterns, isCount] at h
    simp [ih h]
  | case4 opt rest notMatch notCount ih =>
    rw [scanPatterns.eq_def] at h
    dsimp only at h
    split at h
    · exact absurd rfl (notMatch _ _ ‹_›)
    · exact absurd rfl (notCount _ _ ‹_›)
    · exact List.mem_cons_of_mem _ (ih h)

theorem parseScanArgs_reads {novaluesOk : Bool} {cursor : Value} {tokens : List Value} {scan : ScanArgs}
    (parsed : parseScanArgs cursor tokens novaluesOk = .ok scan) (text : ∀ v ∈ tokens, IsTextArg v) :
    scan.carried.length ≤ 1 ∧ ((scanPatterns tokens).length ≤ 1 →
      ReadsAs extractBytes [] (scanPatterns tokens) scan.carried) := by
  have pattern : scan.pattern = ((scanPatterns tokens).getLast?.map extractString).getD none := by
    unfold parseScanArgs at parsed
    split at parsed
    · cases parsed
    · exact parseScanOptions_pattern parsed
  unfold ScanArgs.carried
  refine ⟨by cases scan.pattern <;> simp, fun once => ?_⟩
  rcases patterns : scanPatterns tokens with _ | ⟨v, _ | ⟨w, vs⟩⟩
  · rw [pattern, patterns]
    exact .nil
  · have v_text : IsTextArg v := text v (mem_scanPatterns (by rw [patterns]; simp))
    rw [pattern, patterns]
    show ReadsAs extractBytes [] [v] ((extractString v).toList.map asBytes)
    rw [← Option.toList_map, v_text.extractString, ← List.append_nil (Option.toList _)]
    exact .toList .nil
  · rw [patterns] at once
    simp at once

theorem onKey_scan_carries {name : String} {novaluesOk : Bool} {g : String → ScanArgs → Command}
    (found : layout name = .scan 1) (free : payloadNames.contains name = false)
    (carried : ∀ key scan, (g key scan).carried = asBytes key :: scan.carried) :
    Carries name (onKey 3 fun key args => do
      let scan ← parseScanArgs (argAt args 2) (argsFrom args 3) novaluesOk
      .ok (g key scan)) := by
  intro args text
  refine whenOk_onKey fun arity => ?_
  rw [whenOk_bind]
  intro scan parsed
  rcases args with _ | ⟨k, vs⟩
  · simp at arity
  have texts := text.mem free
  rw [List.forall_mem_cons] at texts
  obtain ⟨short, reads⟩ := parseScanArgs_reads parsed fun v mem => texts.2 v (List.mem_of_mem_drop mem)
  rw [whenOk_ok, found, carried, saidBytes_of_room found rfl]
  simp only [Layout.scan, Option.mem_some_iff, forall_eq', List.length_cons]
  refine ⟨by omega, fun fits => ?_⟩
  show ReadsAs extractBytes [] (k :: scanPatterns (vs.drop 1)) (asBytes (stringArg k) :: scan.carried)
  rw [texts.1.stringArg]
  refine .getD (reads ?_)
  show (scanPatterns (vs.drop 1)).length ≤ 1
  simpa using fits

theorem keyParsers_carry : ∀ entry ∈ keyParsers, Carries entry.1 entry.2 := by
  simp only [keyParsers, List.forall_mem_cons, List.not_mem_nil, IsEmpty.forall_iff, implies_true,
    and_true]
  refine ⟨?many, ?keys, ?scan, ?dbsize, ?flushdb, ?rename, ?type, ?sync, ?qsub, ?qunsub⟩
  case many =>
    refine carries_keys rfl rfl rfl fun args => ?_
    refine whenOk_bind.mpr fun _ _ => whenOk_bind.mpr fun keys said => (whenOk_ok _).mpr ?_
    exact ⟨keys, said, rfl⟩
  case scan =>
    intro args text
    refine whenOk_bind.mpr fun u arity => whenOk_bind.mpr fun scan parsed => (whenOk_ok _).mpr ?_
    have texts := text.mem rfl
    obtain ⟨short, reads⟩ := parseScanArgs_reads parsed fun v mem => texts v (List.mem_of_mem_drop mem)
    rw [saidBytes_eq (by decide)]
    refine ⟨fun n mem => ?_, fun fits => reads (fits 1 rfl)⟩
    cases mem
    exact short
  case dbsize | flushdb =>
    exact carries_required rfl rfl fun args text => (whenOk_ok _).mpr ⟨by simp, rfl⟩
  case sync =>
    refine carries_all rfl rfl fun args text => whenOk_bind.mpr fun _ _ => (whenOk_ok _).mpr ?_
    show ReadsAs extractBytes [] args ((args.map stringArg).map asBytes)
    rw [map_stringArg (text.mem rfl)]
    exact .map_getD args
  case qunsub =>
    refine carries_fixed rfl rfl fun args text => whenOk_bind.mpr fun _ _ => ?_
    rw [whenOk_ok]
    exact optional_reads text rfl
  case keys | qsub =>
    refine carries_onName rfl rfl fun args text => ?_
    repeat' first
      | exact whenOk_error _
      | refine whenOk_bind.mpr fun _ _ => ?_
      | split
    all_goals exact (whenOk_ok _).mpr (readAt_one (text.argAt rfl))
  all_goals
    refine carries_onName rfl rfl fun args text => ?_
    refine (whenOk_ok _).mpr ?_
    first
      | exact readAt_one (text.argAt rfl)
      | exact readAt_two (text.argAt rfl) (text.argAt rfl)

theorem jsonParsers_carry : ∀ entry ∈ jsonParsers, Carries entry.1 entry.2 := by
  simp only [jsonParsers, List.forall_mem_cons, List.not_mem_nil, IsEmpty.forall_iff, implies_true,
    and_true]
  refine ⟨?jset, ?jget, ?jmerge⟩
  case jget =>
    refine carries_fixed rfl rfl fun args text => whenOk_onKey fun arity => ?_
    rw [whenOk_ok]
    have texts := text.mem rfl
    rcases args with _ | ⟨k, _ | ⟨path, vs⟩⟩
    · simp at arity
    · show ReadsAs extractBytes [] [k] [asBytes (stringArg k)]
      rw [(texts k (by simp)).stringArg]
      exact .getD .nil
    · show ReadsAs extractBytes [] [k, path] [asBytes (stringArg k), asBytes (stringArg path)]
      rw [(texts k (by simp)).stringArg, (texts path (by simp)).stringArg]
      exact .getD (.getD .nil)
  all_goals
    refine carries_required rfl rfl fun args text => ?_
    refine whenOk_bind.mpr fun u arity => whenOk_bind.mpr fun key said => ?_
    have := need_length arity
    rw [whenOk_ok, takeKey_eq said]
    simp only [takeString_eq]
    refine ⟨by simp; omega, ?_⟩
    have texts (i : ℕ) := text.argAt (i := i) (by simp [isPayloadIndex])
    simp only [stringArg] at texts
    simp [Command.carried, readAt, texts, stringArg]

theorem limiterParsers_carry : ∀ entry ∈ limiterParsers, Carries entry.1 entry.2 := by
  simp only [limiterParsers, List.forall_mem_cons, List.not_mem_nil, IsEmpty.forall_iff, implies_true,
    and_true]
  refine ⟨?rlset, ?rlcheck⟩
  all_goals
    refine carries_onKey rfl rfl fun args text => ?_
    repeat' first
      | exact whenOk_error _
      | refine whenOk_bind.mpr fun _ _ => ?_
      | split
    all_goals exact (whenOk_ok _).mpr (readAt_one (text.argAt rfl))

/-! ## Collections -/

theorem hSet_carries {name : String} (found : layout name = .all) (plain : (name == "INFO") = false)
    (free : ∀ i, i % 2 = 0 ∨ i = 1 → isPayloadIndex name i = false) : Carries name parseHSet := by
  refine carries_all found plain fun args text => ?_
  unfold parseHSet
  dsimp only
  split_ifs with arity
  · exact whenOk_error _
  refine whenOk_bind.mpr fun key said => whenOk_bind.mpr fun pairs parsed => (whenOk_ok _).mpr ?_
  rcases args with _ | ⟨k, vs⟩
  · simp at arity
  have k_text : IsTextArg k := text 0 k rfl (free 1 (.inr rfl))
  rw [extractKey_eq said]
  show ReadsAs extractBytes [] (k :: vs) (asBytes (stringArg k) :: _)
  rw [k_text.stringArg]
  refine .getD (parsePairs_reads (fun {v name} h => ?_) ?_ (fun i v at_i => ?_) parsed)
  · rw [takeString_eq] at h
    exact (Except.ok.inj h).symm
  · show vs.length % 2 = 0
    simp only [List.length_cons] at arity
    omega
  · exact text (2 * i + 1) v at_i (free _ (.inl (by omega)))

theorem hashParsers_carry : ∀ entry ∈ hashParsers, Carries entry.1 entry.2 := by
  simp only [hashParsers, List.forall_mem_cons, List.not_mem_nil, IsEmpty.forall_iff, implies_true,
    and_true]
  refine ⟨?hset, ?hmset, ?hget, ?hgetall, ?hdel, ?hkeys, ?hvals, ?hlen, ?hincrby, ?hincrbyfloat,
    ?hexists, ?hsetnx, ?hmget,
    onKey_scan_carries rfl rfl fun _ _ => rfl⟩
  case hset | hmset =>
    refine hSet_carries rfl rfl fun i low => ?_
    simp [isPayloadIndex]
    omega
  case hdel | hmget =>
    refine carries_keyNames rfl rfl rfl fun args =>
      whenOk_onKey fun arity => (whenOk_ok _).mpr ⟨by omega, rfl⟩
  all_goals
    refine carries_onName rfl rfl fun args text => ?_
    repeat' first
      | refine whenOk_bind.mpr fun _ _ => ?_
      | refine (whenOk_ok _).mpr ?_
    first
      | exact readAt_one (text.argAt rfl)
      | exact readAt_two (text.argAt rfl) (text.argAt rfl)
      | exact readAt_three (text.argAt rfl) (text.argAt rfl) rfl

theorem push_carries {name : String} {g : String → List Bytes → Command} (found : layout name = .all)
    (plain : (name == "INFO") = false) (free : isPayloadIndex name 1 = false)
    (carried : ∀ key vals, (g key vals).carried = asBytes key :: vals) :
    Carries name (pushValues g) := by
  refine carries_all found plain fun args text => whenOk_onKey fun arity => ?_
  rcases args with _ | ⟨k, vs⟩
  · simp at arity
  have k_text : IsTextArg k := text 0 k rfl free
  rw [whenOk_ok, carried]
  show ReadsAs extractBytes [] (k :: vs) (asBytes (stringArg k) :: vs.filterMap extractBytes)
  rw [k_text.stringArg]
  exact .getD (.filterMap vs)

theorem pop_carries {name : String} {g : String → Option ℕ → Command}
    (found : layout name = .fixed [0] 2) (free : isPayloadIndex name 1 = false)
    (carried : ∀ key count, (g key count).carried = [asBytes key]) : Carries name (popCount g) :=
  carries_onKey found rfl fun args text => whenOk_bind.mpr fun count _ => by
    rw [whenOk_ok, carried, text.argAt free]
    rfl

theorem listParsers_carry : ∀ entry ∈ listParsers, Carries entry.1 entry.2 := by
  simp only [listParsers, List.forall_mem_cons, List.not_mem_nil, IsEmpty.forall_iff, implies_true,
    and_true]
  have push {name : String} {g : String → List Bytes → Command} := @push_carries name g
  refine ⟨push rfl rfl rfl fun _ _ => rfl, push rfl rfl rfl fun _ _ => rfl,
    push rfl rfl rfl fun _ _ => rfl, push rfl rfl rfl fun _ _ => rfl,
    pop_carries rfl rfl fun _ _ => rfl, pop_carries rfl rfl fun _ _ => rfl,
    ?_, ?_, ?_, ?_, ?_, ?_⟩
  all_goals
    refine carries_onName rfl rfl fun args text => ?_
    repeat' first
      | refine whenOk_bind.mpr fun _ _ => ?_
      | refine (whenOk_ok _).mpr ?_
    first
      | exact readAt_one (text.argAt rfl)
      | exact readAt_two (text.argAt rfl) rfl

theorem keysOnly_carries {name : String} {g : List String → Command} (found : layout name = .all)
    (plain : (name == "INFO") = false) (free : payloadNames.contains name = false)
    (carried : ∀ keys, (g keys).carried = keys.map asBytes) : Carries name (keysOnly g) :=
  carries_names found plain free fun _ => whenOk_bind.mpr fun _ _ => (whenOk_ok _).mpr (carried _)

theorem storeKeys_carries {name : String} {g : String → List String → Command}
    (found : layout name = .all) (plain : (name == "INFO") = false)
    (free : payloadNames.contains name = false)
    (carried : ∀ dst keys, (g dst keys).carried = asBytes dst :: keys.map asBytes) :
    Carries name (storeKeys g) :=
  carries_keyNames found plain free fun args =>
    whenOk_onName fun arity => (whenOk_ok _).mpr ⟨by omega, carried _ _⟩

theorem setParsers_carry : ∀ entry ∈ setParsers, Carries entry.1 entry.2 := by
  simp only [setParsers, List.forall_mem_cons, List.not_mem_nil, IsEmpty.forall_iff, implies_true,
    and_true]
  refine ⟨?sadd, ?smembers, ?srem, ?scard, ?sismember, ?smismember, ?sinter, ?sinterstore, ?sunion,
    ?sunionstore, ?sdiff, ?sdiffstore, pop_carries rfl rfl fun _ _ => rfl, ?srandmember,
    ?smove,
    onKey_scan_carries rfl rfl fun _ _ => rfl⟩
  case sadd =>
    refine carries_keyNames rfl rfl rfl fun args => ?_
    refine whenOk_bind.mpr fun _ arity => whenOk_bind.mpr fun key said => (whenOk_ok _).mpr ?_
    have := need_length arity
    rw [takeKey_eq said]
    exact ⟨by omega, rfl⟩
  case srem | smismember =>
    refine carries_keyNames rfl rfl rfl fun args =>
      whenOk_onKey fun arity => (whenOk_ok _).mpr ⟨by omega, rfl⟩
  case sinter | sunion | sdiff =>
    exact keysOnly_carries rfl rfl rfl fun _ => rfl
  case sinterstore | sunionstore | sdiffstore =>
    exact storeKeys_carries rfl rfl rfl fun _ _ => rfl
  case srandmember =>
    refine carries_onKey rfl rfl fun args text => ?_
    repeat' first
      | exact whenOk_error _
      | refine whenOk_bind.mpr fun _ _ => ?_
      | split
    all_goals exact (whenOk_ok _).mpr (readAt_one (text.argAt rfl))
  all_goals
    refine carries_onName rfl rfl fun args text => ?_
    refine (whenOk_ok _).mpr ?_
    first
      | exact readAt_one (text.argAt rfl)
      | exact readAt_two (text.argAt rfl) (text.argAt rfl)
      | exact readAt_three (text.argAt rfl) (text.argAt rfl) (text.argAt rfl)

/-! ## Sorted sets -/

theorem parseZAddOptions_rest (opts : ZAddOptions) (vs : List Value) :
    (parseZAddOptions opts vs).2 = vs.dropWhile isZAddOption := by
  fun_induction parseZAddOptions opts vs
  case case1 => rfl
  case case8 opts tok rest nx xx gt lt ch incr =>
    have other : isZAddOption tok = false := by
      simp only [isZAddOption, List.mem_cons, List.not_mem_nil, or_false, decide_eq_false_iff_not]
      rintro (h | h | h | h | h | h)
      exacts [nx h, xx h, gt h, lt h, ch h, incr h]
    rw [List.dropWhile_cons_of_neg (by simp [other])]
  all_goals
    rename_i tok rest isFlag ih
    rw [List.dropWhile_cons_of_pos (by simp [isZAddOption, isFlag]), ih]

/-- The members of pairs, without their scores. -/
theorem parseZAddPairs_reads {vs : List Value} {pairs : List (Binary64 × String)}
    (text : ∀ v ∈ vs, IsTextArg v) (parsed : parseZAddPairs vs = .ok pairs) :
    ReadsAs extractBytes [] (zAddMembers vs) (pairs.map fun p => asBytes p.2) := by
  induction vs using parseZAddPairs.induct generalizing pairs with
  | case1 score member rest ih =>
    obtain ⟨x, -, parsed⟩ := bind_ok_iff.mp parsed
    obtain ⟨others, later, same⟩ := bind_ok_iff.mp parsed
    have reads := ih (fun v mem => text v (by simp [mem])) later
    rw [← Except.ok.inj same, List.map_cons, (text member (by simp)).stringArg]
    exact .getD reads
  | case2 vs short =>
    rcases vs with _ | ⟨a, _ | ⟨b, rest⟩⟩
    · rw [← Except.ok.inj parsed]
      exact .nil
    · rw [← Except.ok.inj parsed]
      exact .nil
    · exact absurd rfl (short a b rest)

theorem zAdd_carries : Carries "ZADD" parseZAdd := by
  intro args text
  refine whenOk_onKey fun arity => ?_
  rcases args with _ | ⟨k, vs⟩
  · simp at arity
  have texts := text.mem rfl
  rw [List.forall_mem_cons] at texts
  have room : (layout "ZADD").room = none := rfl
  have members : (layout "ZADD").carried (k :: vs) = k :: zAddMembers (vs.dropWhile isZAddOption) := rfl
  rw [room, members, saidBytes_eq (by decide)]
  have reads {opts : ZAddOptions} {pairs : List (Binary64 × String)}
      (parsed : parseZAddPairs (parseZAddOptions {} (argsFrom (k :: vs) 2)).2 = .ok pairs) :
      ReadsAs extractBytes [] (k :: zAddMembers (vs.dropWhile isZAddOption))
        (Command.zAdd (stringArg k) opts pairs).carried := by
    rw [parseZAddOptions_rest] at parsed
    show ReadsAs extractBytes [] (k :: _) (asBytes (stringArg k) :: _)
    rw [texts.1.stringArg]
    exact .getD (parseZAddPairs_reads (fun v mem => texts.2 v (List.dropWhile_subset _ mem)) parsed)
  cases parsedOpts : parseZAddOptions {} (argsFrom (k :: vs) 2) with
  | mk opts rest =>
    rw [parsedOpts] at reads
    dsimp only
    repeat' first
      | exact whenOk_error _
      | refine whenOk_bind.mpr fun _ _ => ?_
      | split
    all_goals exact (whenOk_ok _).mpr ⟨by simp, fun _ => reads (by assumption)⟩

theorem sortedSetParsers_carry : ∀ entry ∈ sortedSetParsers, Carries entry.1 entry.2 := by
  have indices {name : String} {g : String → ℤ → ℤ → Bool → Command}
      (found : layout name = layoutIndexRange) (free : isPayloadIndex name 1 = false)
      (carried : ∀ key i j scores, (g key i j scores).carried = [asBytes key]) :
      Carries name (indexRange g) := by
    intro args text
    refine whenOk_onKey fun arity => whenOk_bind.mpr fun i _ => whenOk_bind.mpr fun j _ => ?_
    rcases args with _ | ⟨k, vs⟩
    · simp at arity
    have k_text : IsTextArg k := text 0 k rfl free
    rw [whenOk_ok, found, carried, saidBytes_of_room found rfl]
    simp only [layoutIndexRange, Option.mem_some_iff, forall_eq', List.length_cons, List.length_nil,
      le_refl, true_and]
    intro fits
    have ended : (k :: vs).drop (if isWithscores (k :: vs) then 4 else 3) = [] := by
      simp only [List.take_succ_cons, List.take_zero, List.cons_append, List.nil_append,
        List.length_cons] at fits
      exact List.eq_nil_of_length_eq_zero (by omega)
    rw [ended]
    show ReadsAs extractBytes [] [k] [asBytes (stringArg k)]
    rw [k_text.stringArg]
    exact .getD .nil
  have scores {name : String} {g : String → String → String → Bool → Option (ℤ × ℤ) → Command}
      (found : layout name = .front 3) (plain : (name == "INFO") = false)
      (free : payloadNames.contains name = false)
      (carried : ∀ key a b scores limit, (g key a b scores limit).carried =
        [asBytes key, asBytes a, asBytes b]) : Carries name (scoreRange g) := by
    intro args text
    refine whenOk_onKey fun arity => whenOk_bind.mpr fun opts _ => ?_
    have texts := text.mem free
    rw [whenOk_ok, found, carried, saidBytes_eq plain]
    refine ⟨by simp [Layout.front], fun _ => ?_⟩
    rcases args with _ | ⟨k, _ | ⟨a, _ | ⟨b, vs⟩⟩⟩
    · simp at arity
    · simp at arity
    · simp at arity
    · show ReadsAs extractBytes [] [k, a, b] [asBytes (stringArg k), asBytes (stringArg a),
        asBytes (stringArg b)]
      rw [(texts k (by simp)).stringArg, (texts a (by simp)).stringArg, (texts b (by simp)).stringArg]
      exact .getD (.getD (.getD .nil))
  simp only [sortedSetParsers, List.forall_mem_cons, List.not_mem_nil, IsEmpty.forall_iff, implies_true,
    and_true]
  refine ⟨zAdd_carries, indices rfl rfl fun _ _ _ _ => rfl,
    indices rfl rfl fun _ _ _ _ => rfl,
    scores rfl rfl rfl fun _ _ _ _ _ => rfl,
    scores rfl rfl rfl fun _ _ _ _ _ => rfl,
    ?zscore, ?zmscore, ?zrank, ?zrevrank, ?zrem, ?zcard, ?zincrby, ?zcount,
    onKey_scan_carries rfl rfl fun _ _ => rfl⟩
  case zmscore | zrem =>
    refine carries_keyNames rfl rfl rfl fun args =>
      whenOk_onKey fun arity => (whenOk_ok _).mpr ⟨by omega, rfl⟩
  all_goals
    refine carries_onName rfl rfl fun args text => ?_
    repeat' first
      | refine whenOk_bind.mpr fun _ _ => ?_
      | refine (whenOk_ok _).mpr ?_
    first
      | exact readAt_one (text.argAt rfl)
      | exact readAt_two (text.argAt rfl) (text.argAt rfl)
      | exact readAt_three (text.argAt rfl) (text.argAt rfl) (text.argAt rfl)

theorem serverParsers_carry : ∀ entry ∈ serverParsers, Carries entry.1 entry.2 := by
  simp only [serverParsers, List.forall_mem_cons, List.not_mem_nil, IsEmpty.forall_iff, implies_true,
    and_true]
  refine ⟨?multi, ?exec, ?discard, ?subscribe, ?unsubscribe, ?psubscribe, ?punsubscribe, ?publish, ?watch,
    ?unwatch, ?save, ?bgsave, ?lastsave, ?replicaof⟩
  case subscribe | watch =>
    exact keysOnly_carries rfl rfl rfl fun _ => rfl
  case unsubscribe | psubscribe | punsubscribe | unwatch =>
    refine carries_names rfl rfl rfl fun args => ?_
    simp [Command.carried]
  case publish =>
    refine carries_onName rfl rfl fun args text => ?_
    exact (whenOk_ok _).mpr (readAt_two (text.argAt rfl) rfl)
  all_goals
    refine carries_required rfl rfl fun args text => ?_
    repeat' first
      | exact whenOk_error _
      | refine whenOk_bind.mpr fun _ _ => ?_
      | split
    all_goals exact (whenOk_ok _).mpr ⟨by simp, rfl⟩

theorem parsers_carry : ∀ entry ∈ parsers, Carries entry.1 entry.2 := by
  simp only [parsers, List.forall_mem_append]
  exact ⟨⟨⟨⟨⟨⟨⟨⟨⟨⟨coreParsers_carry, stringParsers_carry⟩, expiryParsers_carry⟩, keyParsers_carry⟩,
    jsonParsers_carry⟩, limiterParsers_carry⟩, hashParsers_carry⟩, listParsers_carry⟩, setParsers_carry⟩,
    sortedSetParsers_carry⟩, serverParsers_carry⟩

end Recached
