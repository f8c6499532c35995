import Recached.Carried
import Recached.Transparency

/-!
# Any bytes as a payload

Whether a frame is decoded does not depend on the bytes at the payload positions of its command,
except inside `DEDUP`, whose own check takes every argument for text.  With what a command carries
this says which frames are decoded faithfully.
-/

namespace Recached

open Text

/-! ## Frames with empty payloads -/

def emptied : Value → Value
  | .bulkString (some _) => .bulkString (some [])
  | v => v

/-- The arguments from position `i` on, with empty payloads. -/
def emptiedFrom (cmdName : String) : (i : ℕ) → List Value → List Value
  | _, [] => []
  | i, v :: vs => (if isPayloadIndex cmdName i then emptied v else v) :: emptiedFrom cmdName (i + 1) vs

section

variable {name : String} {i : ℕ}

@[simp] theorem length_emptiedFrom (vs : List Value) : (emptiedFrom name i vs).length = vs.length := by
  induction vs generalizing i with
  | nil => rfl
  | cons v vs ih => simp [emptiedFrom, ih]

theorem getElem?_emptiedFrom (vs : List Value) (k : ℕ) :
    (emptiedFrom name i vs)[k]? =
      vs[k]?.map fun v => if isPayloadIndex name (i + k) then emptied v else v := by
  induction vs generalizing i k with
  | nil => rfl
  | cons v vs ih =>
    cases k with
    | zero => rfl
    | succ k =>
      rw [emptiedFrom, List.getElem?_cons_succ, List.getElem?_cons_succ, ih, Nat.add_right_comm,
        Nat.add_assoc]

theorem emptiedFrom_free (free : ∀ k, i ≤ k → isPayloadIndex name k = false) (vs : List Value) :
    emptiedFrom name i vs = vs := by
  induction vs generalizing i with
  | nil => rfl
  | cons v vs ih =>
    rw [emptiedFrom, free i le_rfl, ih fun k low => free k (by omega)]
    rfl

theorem drop_emptiedFrom (vs : List Value) (k : ℕ) :
    (emptiedFrom name i vs).drop k = emptiedFrom name (i + k) (vs.drop k) := by
  induction vs generalizing i k with
  | nil => simp [emptiedFrom]
  | cons v vs ih =>
    cases k with
    | zero => rfl
    | succ k =>
      rw [emptiedFrom, List.drop_succ_cons, ih, List.drop_succ_cons, Nat.add_right_comm, Nat.add_assoc]

theorem argAt_emptiedFrom (args : List Value) {k : ℕ} (free : isPayloadIndex name (1 + (k - 1)) = false) :
    argAt (emptiedFrom name 1 args) k = argAt args k := by
  unfold argAt
  rw [List.getD_eq_getElem?_getD, getElem?_emptiedFrom, List.getD_eq_getElem?_getD, free]
  simp

end

/-! ## Acceptance -/

theorem isOk_bind {α β : Type} {x : Except String α} {f g : α → Except String β}
    (h : ∀ a, (f a).isOk = (g a).isOk) : (x >>= f).isOk = (x >>= g).isOk := by
  cases x with
  | error e => rfl
  | ok a => exact h a

theorem isOk_bind_ok {α β : Type} (x : Except String α) (g : α → β) :
    (x >>= fun a => (.ok (g a) : Except String β)).isOk = x.isOk := by
  cases x <;> rfl

section

variable {name : String} {args args' : List Value} {n : ℕ}
variable {f : String → List Value → Except String Command}

theorem need_congr (same : args'.length = args.length) : need n name args' = need n name args := by
  unfold need
  rw [same]

theorem isOk_onKey (same : args'.length = args.length) (key : argAt args' 1 = argAt args 1)
    (h : ∀ key, (f key args').isOk = (f key args).isOk) :
    (onKey n f name args').isOk = (onKey n f name args).isOk := by
  unfold onKey
  rw [need_congr same, key]
  exact isOk_bind fun _ => isOk_bind h

theorem isOk_onName (same : args'.length = args.length) (key : argAt args' 1 = argAt args 1)
    (h : ∀ key, (f key args').isOk = (f key args).isOk) :
    (onName n f name args').isOk = (onName n f name args).isOk := by
  unfold onName
  rw [need_congr same, key]
  exact isOk_bind fun _ => h _

theorem isOk_parsePairs {key : Value → Except String String} {i : ℕ} {vs : List Value}
    (free : ∀ j, isPayloadIndex name (i + 2 * j) = false) :
    (parsePairs key (emptiedFrom name i vs)).isOk = (parsePairs key vs).isOk := by
  induction vs using parsePairs.induct generalizing i with
  | case1 k v rest ih =>
    have later := ih (i := i + 1 + 1) fun j => by
      have := free (j + 1)
      rwa [show i + 2 * (j + 1) = i + 1 + 1 + 2 * j by ring] at this
    have first : isPayloadIndex name i = false := free 0
    rw [emptiedFrom, emptiedFrom, first]
    simp only [parsePairs, Bool.false_eq_true, if_false]
    exact isOk_bind fun _ => (isOk_bind_ok _ _).trans (later.trans (isOk_bind_ok _ _).symm)
  | case2 vs short =>
    rcases vs with _ | ⟨k, _ | ⟨v, rest⟩⟩
    · rfl
    · rfl
    · exact absurd rfl (short k v rest)

end

/-- The parser of a command does not look at the bytes of its payloads. -/
def PayloadBlind (name : String) (parser : Parser) : Prop :=
  ∀ args, (parser name (emptiedFrom name 1 args)).isOk = (parser name args).isOk

theorem keyPayload_blind {name : String} {g : String → Bytes → Command}
    (free : isPayloadIndex name 1 = false) : PayloadBlind name (keyPayload g) := by
  intro args
  unfold keyPayload
  rw [need_congr (length_emptiedFrom args), argAt_emptiedFrom args free]
  exact isOk_bind fun _ => isOk_bind fun _ => rfl

theorem keyTimePayload_blind {name said : String} {g : String → ℕ → Bytes → Command}
    (key : isPayloadIndex name 1 = false) (time : isPayloadIndex name 2 = false) :
    PayloadBlind name (keyTimePayload said g) := by
  intro args
  unfold keyTimePayload
  rw [need_congr (length_emptiedFrom args), argAt_emptiedFrom (k := 1) args key,
    argAt_emptiedFrom (k := 2) args time]
  exact isOk_bind fun _ => isOk_bind fun _ => isOk_bind fun _ => rfl

theorem pushValues_blind {name : String} {g : String → List Bytes → Command}
    (free : isPayloadIndex name 1 = false) : PayloadBlind name (pushValues g) := fun args =>
  isOk_onKey (length_emptiedFrom args) (argAt_emptiedFrom args free) fun _ => rfl

theorem parseHSet_blind {name : String} (free : ∀ i, i % 2 = 0 ∨ i = 1 → isPayloadIndex name i = false) :
    PayloadBlind name parseHSet := by
  intro args
  have pairs : argsFrom (emptiedFrom name 1 args) 2 = emptiedFrom name 2 (argsFrom args 2) :=
    drop_emptiedFrom args 1
  unfold parseHSet
  rw [length_emptiedFrom, argAt_emptiedFrom args (free 1 (.inr rfl)), pairs]
  dsimp only
  split_ifs
  · rfl
  · refine isOk_bind fun key => (isOk_bind_ok _ _).trans ((isOk_parsePairs fun j => ?_).trans
      (isOk_bind_ok _ _).symm)
    exact free _ (.inl (by omega))

theorem payloads_blind : ∀ name ∈ payloadNames, ∀ parser, parsers.lookup name = some parser →
    PayloadBlind name parser := by
  have of {name : String} {parser : Parser} (found : parsers.lookup name = some parser)
      (h : PayloadBlind name parser) (parser' : Parser) (found' : parsers.lookup name = some parser') :
      PayloadBlind name parser' := by
    cases found.symm.trans found'
    exact h
  simp only [payloadNames, List.forall_mem_cons, List.not_mem_nil, IsEmpty.forall_iff, implies_true,
    and_true]
  refine ⟨of rfl ?set, of rfl ?eset, of rfl (keyPayload_blind rfl), of rfl (keyPayload_blind rfl),
    of rfl (keyPayload_blind rfl), of rfl ?publish, of rfl (keyTimePayload_blind rfl rfl),
    of rfl (keyTimePayload_blind rfl rfl), of rfl ?hsetnx, of rfl ?lset, of rfl ?lrem,
    of rfl (pushValues_blind rfl), of rfl (pushValues_blind rfl), of rfl (pushValues_blind rfl),
    of rfl (pushValues_blind rfl), of rfl ?hset, of rfl ?hmset, of rfl ?mset⟩
  case set =>
    intro args
    have opts : argsFrom (emptiedFrom "SET" 1 args) 3 = argsFrom args 3 := by
      refine (drop_emptiedFrom args 2).trans (emptiedFrom_free (fun k low => ?_) _)
      simp [isPayloadIndex]
      omega
    dsimp only
    rw [need_congr (length_emptiedFrom args), argAt_emptiedFrom args rfl, opts]
    exact isOk_bind fun _ => isOk_bind fun _ => isOk_bind fun _ => rfl
  case eset =>
    exact fun args => isOk_onKey (length_emptiedFrom args) (argAt_emptiedFrom args rfl) fun _ => rfl
  case publish | hsetnx =>
    exact fun args => isOk_onName (length_emptiedFrom args) (argAt_emptiedFrom args rfl) fun _ => rfl
  case lset | lrem =>
    intro args
    refine isOk_onName (length_emptiedFrom args) (argAt_emptiedFrom args rfl) fun _ => ?_
    rw [argAt_emptiedFrom args rfl]
    exact isOk_bind fun _ => rfl
  case hset | hmset =>
    refine parseHSet_blind fun i low => ?_
    simp [isPayloadIndex]
    omega
  case mset =>
    intro args
    dsimp only
    rw [length_emptiedFrom]
    split_ifs
    · rfl
    · refine (isOk_bind_ok _ _).trans ((isOk_parsePairs fun j => ?_).trans (isOk_bind_ok _ _).symm)
      simp [isPayloadIndex]

/-- No parser looks at the bytes of a payload. -/
theorem parsers_blind {name : String} {parser : Parser} (found : parsers.lookup name = some parser) :
    PayloadBlind name parser := by
  cases payload : payloadNames.contains name with
  | true => exact payloads_blind name (List.contains_iff_mem.mp payload) parser found
  | false =>
    intro args
    rw [emptiedFrom_free fun k _ => isPayloadIndex_free payload k]

/-! ## Frames -/

/-- The parser of a name applied to its arguments. -/
def parseArgs (cmdName : String) (args : List Value) : Except String Command :=
  match parsers.lookup cmdName with
  | some parser => parser cmdName args
  | none => .ok (.unknown cmdName)

section

variable {name : Value} {cmdName : String} {args : List Value} {c : Command}

theorem fromArray_plain (named : commandName name = .ok cmdName) (plain : cmdName ≠ "DEDUP") :
    fromArray (name :: args) = .ok c ↔ TextArgs cmdName args ∧ parseArgs cmdName args = .ok c := by
  rw [textArgs_iff, fromArray, named, parseArgs]
  dsimp only [bind, Except.bind]
  cases invalidTextFrom cmdName 1 args with
  | some pos => simp
  | none =>
    rw [if_neg plain]
    exact (and_iff_right rfl).symm

theorem textArgs_dedup : TextArgs "DEDUP" args ↔ ∀ v ∈ args, IsTextArg v := by
  refine ⟨fun text => text.mem rfl, fun text k v at_k _ => text v ?_⟩
  exact List.mem_of_getElem? at_k

/-- A wrapped frame: `DEDUP`, a client, a number, and a command that is not wrapped. -/
theorem fromArray_wrapped {client id part : Value} {parts : List Value}
    (named : commandName name = .ok "DEDUP") :
    fromArray (name :: client :: id :: part :: parts) = .ok c ↔
      (∀ v ∈ client :: id :: part :: parts, IsTextArg v) ∧
        (stringArg client ≠ "" ∧ (asBytes (stringArg client)).length ≤ 64) ∧
        ∃ n, (extractInt id = .ok n ∧ 0 ≤ n) ∧ ∃ inner, fromArray (part :: parts) = .ok inner ∧
          isDedup inner = false ∧ c = .dedup (stringArg client) n.toNat inner := by
  rw [← textArgs_dedup, textArgs_iff, fromArray, named]
  dsimp only [bind, Except.bind]
  cases invalidTextFrom "DEDUP" 1 (client :: id :: part :: parts) with
  | some pos => simp
  | none =>
    simp only [if_true, true_and]
    split_ifs with unnamed
    · grind
    · push Not at unnamed
      cases extractInt id with
      | error e => simp
      | ok n =>
        simp only [Except.ok.injEq, and_iff_right unnamed]
        split_ifs with negative
        · simp only [false_iff]
          rintro ⟨n, ⟨rfl, fine⟩, -⟩
          omega
        · cases fromArray (part :: parts) with
          | error e => simp
          | ok inner =>
            have only : (∃ m, (n = m ∧ 0 ≤ m) ∧ ∃ inner', (.ok inner : Except String Command) =
                  .ok inner' ∧ isDedup inner' = false ∧ c = .dedup (stringArg client) m.toNat inner') ↔
                isDedup inner = false ∧ c = .dedup (stringArg client) n.toNat inner := by
              constructor
              · rintro ⟨_, ⟨rfl, -⟩, _, same, h⟩
                cases same
                exact h
              · exact fun h => ⟨n, ⟨rfl, by omega⟩, inner, rfl, h⟩
            rw [only]
            cases inner <;> simp [isDedup, eq_comm]

theorem args_of_wrapped (named : commandName name = .ok "DEDUP")
    (decoded : fromArray (name :: args) = .ok c) :
    ∃ client id part parts, args = client :: id :: part :: parts := by
  rw [fromArray, named] at decoded
  dsimp only [bind, Except.bind] at decoded
  split at decoded
  · cases decoded
  · rcases args with _ | ⟨client, _ | ⟨id, _ | ⟨part, parts⟩⟩⟩
    · cases decoded
    · cases decoded
    · cases decoded
    · exact ⟨client, id, part, parts, rfl⟩

/-- The name a frame begins with, if it has one. -/
def frameName (parts : List Value) : String :=
  match parts.head?.map commandName with
  | some (.ok cmdName) => cmdName
  | _ => ""

/-- The bytes of the arguments that a command is to carry, `none` for one that is not a string. -/
def saidArgs (cmdName : String) (args : List Value) : List (Option Bytes) :=
  ((layout cmdName).carried args).map (saidBytes cmdName)

/-- There is room for the arguments that are neither counts, times or scores nor options. -/
def HasRoom (cmdName : String) (args : List Value) : Prop :=
  ∀ n ∈ (layout cmdName).room, ((layout cmdName).carried args).length ≤ n

theorem layout_unknown {cmdName : String} (unknown : parsers.lookup cmdName = none) :
    layout cmdName = .fixed [] 0 := by
  rw [List.lookup_eq_none_iff] at unknown
  simp only [parsers, coreParsers, stringParsers, expiryParsers, keyParsers, jsonParsers, limiterParsers,
    hashParsers, listParsers, setParsers, sortedSetParsers, serverParsers, List.cons_append,
    List.nil_append, List.forall_mem_cons, bne_iff_ne] at unknown
  simp [layout, unknown]

/-- A parsed command carries its arguments iff all of them are strings and there is room for them. -/
theorem parseArgs_exact (text : TextArgs cmdName args) (parsed : parseArgs cmdName args = .ok c) :
    saidArgs cmdName args = c.carried.map some ↔
      (∀ o ∈ saidArgs cmdName args, o.isSome) ∧ HasRoom cmdName args := by
  have carries : (∀ n ∈ (layout cmdName).room, c.carried.length ≤ n) ∧ (HasRoom cmdName args →
      ReadsAs (saidBytes cmdName) [] ((layout cmdName).carried args) c.carried) := by
    unfold parseArgs at parsed
    split at parsed
    · next parser found =>
      obtain ⟨before, after, table, -⟩ := List.lookup_eq_some_iff.mp found
      exact parsers_carry (cmdName, parser) (by rw [table]; simp) args text c parsed
    · next unknown =>
      cases parsed
      unfold HasRoom
      rw [layout_unknown unknown]
      refine ⟨fun n mem => Nat.zero_le n, fun room => ?_⟩
      rw [List.eq_nil_of_length_eq_zero (Nat.le_zero.mp (room 0 rfl))]
      exact .nil
  simp only [saidArgs, List.forall_mem_map]
  constructor
  · intro same
    have exact_length : ((layout cmdName).carried args).length = c.carried.length := by
      simpa using congrArg List.length same
    have room : HasRoom cmdName args := fun n mem => exact_length.trans_le (carries.1 n mem)
    exact ⟨(carries.2 room).exact_iff.mp same, room⟩
  · exact fun ⟨strings, room⟩ => (carries.2 room).exact_iff.mpr strings

theorem isOk_iff {x : Except String Command} : x.isOk = true ↔ ∃ c, x = .ok c := by
  cases x <;> simp [Except.isOk, Except.toBool]

theorem isTextArg_emptied (v : Value) (text : IsTextArg v) : IsTextArg (emptied v) := by
  unfold emptied
  split
  · rintro b h
    cases h
    exact isText_asBytes ""
  · exact text

theorem isTextArg_emptiedFrom {i : ℕ} {vs : List Value} (text : ∀ v ∈ vs, IsTextArg v) :
    ∀ v ∈ emptiedFrom cmdName i vs, IsTextArg v := by
  intro v mem
  obtain ⟨k, found⟩ := List.mem_iff_getElem?.mp mem
  rw [getElem?_emptiedFrom, Option.map_eq_some_iff] at found
  obtain ⟨w, at_k, rfl⟩ := found
  have w_text := text w (List.mem_of_getElem? at_k)
  split_ifs
  · exact isTextArg_emptied w w_text
  · exact w_text

theorem textArgs_emptied : TextArgs cmdName (emptiedFrom cmdName 1 args) ↔ TextArgs cmdName args := by
  have same (k : ℕ) (free : isPayloadIndex cmdName (k + 1) = false) :
      (emptiedFrom cmdName 1 args)[k]? = args[k]? := by
    rw [getElem?_emptiedFrom, Nat.add_comm, free]
    simp
  constructor
  · exact fun text k v at_k free => text k v ((same k free).trans at_k) free
  · exact fun text k v at_k free => text k v ((same k free).symm.trans at_k) free

theorem parseArgs_blind :
    (parseArgs cmdName (emptiedFrom cmdName 1 args)).isOk = (parseArgs cmdName args).isOk := by
  unfold parseArgs
  split
  · next parser found => exact parsers_blind found args
  · rfl

/-- A frame that is not wrapped is accepted whatever the bytes of its payloads. -/
theorem isOk_plain (named : commandName name = .ok cmdName) (plain : cmdName ≠ "DEDUP") :
    (fromArray (name :: emptiedFrom cmdName 1 args)).isOk = (fromArray (name :: args)).isOk := by
  rw [Bool.eq_iff_iff, isOk_iff, isOk_iff]
  simp only [fromArray_plain named plain, exists_and_left, textArgs_emptied, ← isOk_iff, parseArgs_blind]

end

/-- The command of a frame, without `DEDUP` and its two arguments. -/
def unwrapped (parts : List Value) : List Value :=
  if frameName parts = "DEDUP" then parts.drop 3 else parts

/-- The bytes of the arguments that the command of a frame is to carry. -/
def frameSaid (parts : List Value) : List (Option Bytes) :=
  let command := unwrapped parts
  let said := saidArgs (frameName command) command.tail
  if frameName parts = "DEDUP" then extractBytes (argAt parts.tail 1) :: said else said

/-- The frame with empty payloads. -/
def emptiedFrame (parts : List Value) : List Value :=
  let command := unwrapped parts
  let before := if frameName parts = "DEDUP" then parts.take 4 else parts.take 1
  before ++ emptiedFrom (frameName command) 1 command.tail

/-- Whether the part at position `i` of a frame is a payload. -/
def isPayloadAt (parts : List Value) (i : ℕ) : Bool :=
  if frameName parts = "DEDUP" then 3 < i && isPayloadIndex (frameName (parts.drop 3)) (i - 3)
  else isPayloadIndex (frameName parts) i

/-- Every argument that a command is to carry is a string and has a place, and in a wrapped frame it is
text. -/
structure Whole (parts : List Value) : Prop where
  strings : ∀ o ∈ frameSaid parts, o.isSome
  room : HasRoom (frameName (unwrapped parts)) (unwrapped parts).tail
  text : frameName parts = "DEDUP" → ∀ v ∈ parts.tail, IsTextArg v

section

variable {name : Value} {cmdName : String} {args : List Value} {c : Command}

theorem frameName_cons (named : commandName name = .ok cmdName) : frameName (name :: args) = cmdName := by
  simp [frameName, named]

theorem named_of_ok (decoded : fromArray (name :: args) = .ok c) (others : List Value) :
    commandName name = .ok (frameName (name :: others)) := by
  rw [fromArray] at decoded
  obtain ⟨cmdName, named, -⟩ := bind_ok_iff.mp decoded
  rw [frameName_cons named, named]

theorem isDedup_parseArgs (parsed : parseArgs cmdName args = .ok c) : isDedup c = false := by
  have yields : ∀ entry ∈ parsers, ∀ name args,
      yieldsOnly (fun c => !isDedup c) (entry.2 name args) = true :=
    parsers_yield (fun cmd plain => by cases cmd <;> first | rfl | cases plain)
      (parseZAdd_bound fun _ _ _ => rfl)
  unfold parseArgs at parsed
  split at parsed
  · next parser found =>
    obtain ⟨before, after, table, -⟩ := List.lookup_eq_some_iff.mp found
    have fine : yieldsOnly (fun c => !isDedup c) (parser cmdName args) = true :=
      yields (cmdName, parser) (by rw [table]; simp) cmdName args
    rw [parsed] at fine
    simpa [yieldsOnly] using fine
  · cases parsed
    rfl

theorem isDedup_of_wrapped (named : commandName name = .ok "DEDUP")
    (decoded : fromArray (name :: args) = .ok c) : isDedup c = true := by
  obtain ⟨client, id, part, rest, rfl⟩ := args_of_wrapped named decoded
  obtain ⟨-, -, n, -, inner, -, -, rfl⟩ := (fromArray_wrapped named).mp decoded
  rfl

/-- The frame of a command that is not wrapped. -/
theorem plain_iff (plain : frameName (name :: args) ≠ "DEDUP")
    (accepted : (fromArray (emptiedFrame (name :: args))).isOk) :
    (∃ c, fromArray (name :: args) = .ok c) ∧ ∀ c, fromArray (name :: args) = .ok c →
      isDedup c = false ∧ (frameSaid (name :: args) = c.carried.map some ↔ Whole (name :: args)) := by
  have empties : emptiedFrame (name :: args) =
      name :: emptiedFrom (frameName (name :: args)) 1 args := by
    simp [emptiedFrame, unwrapped, plain]
  have command : unwrapped (name :: args) = name :: args := if_neg plain
  obtain ⟨c₀, decoded₀⟩ := isOk_iff.mp accepted
  rw [empties] at accepted decoded₀
  have named : commandName name = .ok (frameName (name :: args)) := named_of_ok decoded₀ args
  rw [isOk_plain named plain] at accepted
  refine ⟨isOk_iff.mp accepted, fun c decoded => ?_⟩
  obtain ⟨text, parsed⟩ := (fromArray_plain named plain).mp decoded
  refine ⟨isDedup_parseArgs parsed, ?_⟩
  have said : frameSaid (name :: args) = saidArgs (frameName (name :: args)) args := by
    simp [frameSaid, command, plain]
  rw [said, parseArgs_exact text parsed]
  constructor
  · exact fun ⟨strings, room⟩ => ⟨said ▸ strings, by rw [command]; exact room, fun h => absurd h plain⟩
  · exact fun whole => ⟨said ▸ whole.strings, by have := whole.room; rwa [command] at this⟩

theorem isOk_emptiedFrame_plain (plain : frameName (name :: args) ≠ "DEDUP")
    (decoded : fromArray (name :: args) = .ok c) : (fromArray (emptiedFrame (name :: args))).isOk := by
  have empties : emptiedFrame (name :: args) =
      name :: emptiedFrom (frameName (name :: args)) 1 args := by
    simp [emptiedFrame, unwrapped, plain]
  rw [empties, isOk_plain (named_of_ok decoded args) plain]
  exact isOk_iff.mpr ⟨c, decoded⟩

section

variable {client id part : Value} {rest : List Value}

/-- The frame of a wrapped command. -/
theorem wrapped_iff (named : commandName name = .ok "DEDUP")
    (accepted : (fromArray (emptiedFrame (name :: client :: id :: part :: rest))).isOk) :
    (∃ c, fromArray (name :: client :: id :: part :: rest) = .ok c ∧
      frameSaid (name :: client :: id :: part :: rest) = c.carried.map some) ↔
      Whole (name :: client :: id :: part :: rest) := by
  have wraps : frameName (name :: client :: id :: part :: rest) = "DEDUP" := frameName_cons named
  have command : unwrapped (name :: client :: id :: part :: rest) = part :: rest := if_pos wraps
  have empties : emptiedFrame (name :: client :: id :: part :: rest) =
      name :: client :: id :: part :: emptiedFrom (frameName (part :: rest)) 1 rest := by
    simp [emptiedFrame, command, wraps]
  rw [empties, isOk_iff] at accepted
  obtain ⟨_, accepted⟩ := accepted
  obtain ⟨-, clientOk, n, number, inner₀, decoded₀, single₀, -⟩ := (fromArray_wrapped named).mp accepted
  have inner_named : commandName part = .ok (frameName (part :: rest)) := named_of_ok decoded₀ rest
  have plain : frameName (part :: rest) ≠ "DEDUP" := by
    intro nested
    rw [nested] at inner_named
    rw [isDedup_of_wrapped inner_named decoded₀] at single₀
    cases single₀
  have inner_empties : emptiedFrame (part :: rest) =
      part :: emptiedFrom (frameName (part :: rest)) 1 rest := by
    simp [emptiedFrame, unwrapped, plain]
  obtain ⟨⟨inner, decoded⟩, exact_iff⟩ := plain_iff plain (by
    rw [inner_empties]
    exact isOk_iff.mpr ⟨inner₀, decoded₀⟩)
  obtain ⟨single, exact_iff⟩ := exact_iff inner decoded
  have said : frameSaid (name :: client :: id :: part :: rest) =
      extractBytes client :: frameSaid (part :: rest) := by
    simp [frameSaid, wraps, plain, unwrapped, argAt]
  constructor
  · rintro ⟨c, wrapped, same⟩
    obtain ⟨text, -, m, -, inner', decoded', -, rfl⟩ := (fromArray_wrapped named).mp wrapped
    cases decoded.symm.trans decoded'
    rw [said] at same
    obtain ⟨first, same⟩ := List.cons.inj same
    have whole := exact_iff.mp same
    refine ⟨?_, ?_, fun _ => text⟩
    · rw [said, List.forall_mem_cons]
      exact ⟨by rw [first]; rfl, whole.strings⟩
    · have := whole.room
      rw [command]
      rwa [unwrapped, if_neg plain] at this
  · intro whole
    have strings := whole.strings
    rw [said, List.forall_mem_cons] at strings
    have inner_whole : Whole (part :: rest) := by
      refine ⟨strings.2, ?_, fun nested => absurd nested plain⟩
      have := whole.room
      rw [command] at this
      rwa [unwrapped, if_neg plain]
    have text := whole.text wraps
    refine ⟨_, (fromArray_wrapped named).mpr ⟨text, clientOk, n, number, inner, decoded, single, rfl⟩, ?_⟩
    rw [said, exact_iff.mpr inner_whole]
    obtain ⟨b, client_said⟩ := Option.isSome_iff_exists.mp strings.1
    have := (text client (by simp)).stringArg
    rw [client_said] at this
    show extractBytes client :: _ = some (asBytes (stringArg client)) :: _
    rw [this, client_said]
    rfl

/-- Every argument of an accepted frame outside its payload positions is text. -/
theorem text_of_ok {parts : List Value} (decoded : fromArray parts = .ok c) {k : ℕ} {v : Value}
    (at_k : parts.tail[k]? = some v) (free : isPayloadAt parts (k + 1) = false) : IsTextArg v := by
  cases parts with
  | nil => simp at at_k
  | cons name args =>
    have named := named_of_ok decoded args
    by_cases wraps : frameName (name :: args) = "DEDUP"
    · rw [wraps] at named
      obtain ⟨client, id, part, rest, rfl⟩ := args_of_wrapped named decoded
      exact ((fromArray_wrapped named).mp decoded).1 v (List.mem_of_getElem? at_k)
    · rw [isPayloadAt, if_neg wraps] at free
      exact ((fromArray_plain named wraps).mp decoded).1 k v at_k free

theorem isOk_emptiedFrame {parts : List Value} (decoded : fromArray parts = .ok c) :
    (fromArray (emptiedFrame parts)).isOk := by
  cases parts with
  | nil => simp [fromArray] at decoded
  | cons name args =>
    have named := named_of_ok decoded args
    by_cases wraps : frameName (name :: args) = "DEDUP"
    · rw [wraps] at named
      obtain ⟨client, id, part, rest, rfl⟩ := args_of_wrapped named decoded
      obtain ⟨text, clientOk, n, number, inner, inner_decoded, single, -⟩ :=
        (fromArray_wrapped named).mp decoded
      have inner_named := named_of_ok inner_decoded rest
      have plain : frameName (part :: rest) ≠ "DEDUP" := by
        intro nested
        rw [nested] at inner_named
        rw [isDedup_of_wrapped inner_named inner_decoded] at single
        cases single
      have empties : emptiedFrame (name :: client :: id :: part :: rest) =
          name :: client :: id :: part :: emptiedFrom (frameName (part :: rest)) 1 rest := by
        simp [emptiedFrame, unwrapped, wraps]
      obtain ⟨inner', decoded'⟩ := isOk_iff.mp (isOk_emptiedFrame_plain plain inner_decoded)
      have inner_empties : emptiedFrame (part :: rest) =
          part :: emptiedFrom (frameName (part :: rest)) 1 rest := by
        simp [emptiedFrame, unwrapped, plain]
      rw [inner_empties] at decoded'
      have single' : isDedup inner' = false :=
        isDedup_parseArgs ((fromArray_plain inner_named plain).mp decoded').2
      simp only [List.forall_mem_cons] at text
      rw [empties, isOk_iff]
      refine ⟨_, (fromArray_wrapped named).mpr ⟨?_, clientOk, n, number, inner', decoded', single', rfl⟩⟩
      simp only [List.forall_mem_cons]
      exact ⟨text.1, text.2.1, text.2.2.1, isTextArg_emptiedFrom text.2.2.2⟩
    · exact isOk_emptiedFrame_plain wraps decoded

/-- A frame that is accepted with empty payloads is decoded, and its command carries exactly the bytes
of its arguments, iff each of these is a string and has a place and, in a wrapped frame, is text.  The
frames that are accepted are accepted with empty payloads, and all but their payloads is text. -/
theorem decoding_faithful_iff (parts : List Value) :
    ((fromValue (.array (some (emptiedFrame parts)))).isOk = true →
      ((∃ c, fromValue (.array (some parts)) = .ok c ∧ frameSaid parts = c.carried.map some) ↔
        Whole parts)) ∧
    ∀ c, fromValue (.array (some parts)) = .ok c →
      (fromValue (.array (some (emptiedFrame parts)))).isOk = true ∧
      ∀ k v, parts.tail[k]? = some v → isPayloadAt parts (k + 1) = false → IsTextArg v := by
  refine ⟨fun accepted => ?_, fun c decoded => ⟨isOk_emptiedFrame decoded, fun k v => text_of_ok decoded⟩⟩
  change (fromArray (emptiedFrame parts)).isOk = true at accepted
  change (∃ c, fromArray parts = .ok c ∧ _) ↔ _
  cases parts with
  | nil =>
    obtain ⟨c, decoded⟩ := isOk_iff.mp accepted
    simp [emptiedFrame, unwrapped, frameName, emptiedFrom, fromArray] at decoded
  | cons name args =>
    by_cases wraps : frameName (name :: args) = "DEDUP"
    · have shape : emptiedFrame (name :: args) =
          name :: (args.take 3 ++ emptiedFrom (frameName (args.drop 2)) 1 (args.drop 2).tail) := by
        simp [emptiedFrame, unwrapped, wraps]
      obtain ⟨c, decoded⟩ := isOk_iff.mp accepted
      rw [shape] at decoded
      have named := named_of_ok decoded args
      rw [wraps] at named
      obtain ⟨client, id, part, rest, same⟩ := args_of_wrapped named decoded
      have long : 3 ≤ args.length := by
        have := congrArg List.length same
        simp only [List.length_append, List.length_take, length_emptiedFrom, List.length_tail,
          List.length_drop, List.length_cons] at this
        omega
      obtain ⟨client, id, part, rest, rfl⟩ : ∃ a b c l, args = a :: b :: c :: l := by
        rcases args with _ | ⟨a, _ | ⟨b, _ | ⟨c, l⟩⟩⟩
        all_goals first | exact ⟨_, _, _, _, rfl⟩ | simp at long
      exact wrapped_iff named accepted
    · obtain ⟨⟨c, decoded⟩, exact_iff⟩ := plain_iff wraps accepted
      constructor
      · rintro ⟨c', decoded', same⟩
        exact (exact_iff c' decoded').2.mp same
      · exact fun whole => ⟨c, decoded, (exact_iff c decoded).2.mpr whole⟩

end

end

theorem decoding_faithful_iff_set :
    (fromValue (.array (some (emptiedFrame [bulk "SET", bulk "k", blob [255]])))).isOk = true ∧
    ((∃ c, fromValue (.array (some [bulk "SET", bulk "k", blob [255]])) = .ok c ∧
      frameSaid [bulk "SET", bulk "k", blob [255]] = c.carried.map some) ↔
      Whole [bulk "SET", bulk "k", blob [255]]) :=
  ⟨rfl, (decoding_faithful_iff _).1 rfl⟩

/-- A number as the payload of `SET` is decoded as an empty value, and a binary payload is refused in a
wrapped `SET` that is accepted with an empty one. -/
theorem number_payload_emptied :
    ¬ (∀ parts c, fromValue (.array (some parts)) = .ok c → frameSaid parts = c.carried.map some) ∧
    ¬ ∀ parts, (fromValue (.array (some (emptiedFrame parts)))).isOk = true →
      (fromValue (.array (some parts))).isOk = true := by
  constructor
  · intro faithful
    have carried := faithful [bulk "SET", bulk "k", .integer 5] (.set "k" [] {}) rfl
    exact absurd carried (by decide)
  · intro anyBytes
    have accepted := anyBytes
      [bulk "DEDUP", bulk "c", bulk "1", bulk "SET", bulk "k", blob [255]] rfl
    exact absurd accepted (by decide)

end Recached
