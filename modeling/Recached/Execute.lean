import Recached.Store

/-!
# Executing commands

`program` says what every command does to the entries of the keys it names, as a program over cells;
`executeInner` adds the key cap and the commands that read the keyspace itself, and
`executeReporting` the memory account, the key index and eviction.

Most commands are one of a few shapes over one key: `readAs`, `updateAs` for a value that must be
there, and `typedEntry` for a value that is created when it is not.
-/

namespace Recached

open Text Lapse

abbrev Prog := Lapse.Prog String EntryValue

/-- What a command does to the one key it names, and its reply. -/
abbrev Act := Option Cell → Effect × Value

def wrongType : Value :=
  .error "WRONGTYPE Operation against a key holding the wrong kind of value"

def ok : Value := .simpleString "OK"

def nil : Value := .bulkString none

def bulk (s : String) : Value := .bulkString (some (asBytes s))

def blob (b : Bytes) : Value := .bulkString (some b)

def arrayOf (items : List Value) : Value := .array (some items)

/-! ## Kinds of values -/

/-- One of the kinds of values: how to build it and how to recognise it. -/
structure Kind (α : Type) where
  wrap : α → EntryValue
  unwrap : EntryValue → Option α
  unwrap_eq_some {v : EntryValue} {x : α} : unwrap v = some x ↔ v = wrap x

namespace Kind

def str : Kind Bytes where
  wrap := .str
  unwrap | .str s => some s | _ => none
  unwrap_eq_some {v _} := by cases v <;> simp

def hash : Kind Hash where
  wrap := .hash
  unwrap | .hash h => some h | _ => none
  unwrap_eq_some {v _} := by cases v <;> simp

def list : Kind (List Bytes) where
  wrap := .list
  unwrap | .list l => some l | _ => none
  unwrap_eq_some {v _} := by cases v <;> simp

def set : Kind MemberSet where
  wrap := .set
  unwrap | .set s => some s | _ => none
  unwrap_eq_some {v _} := by cases v <;> simp

def zset : Kind ZSet where
  wrap := .zset
  unwrap | .zset z => some z | _ => none
  unwrap_eq_some {v _} := by cases v <;> simp

def rateLimiter : Kind RateLimiter where
  wrap := .rateLimiter
  unwrap | .rateLimiter rl => some rl | _ => none
  unwrap_eq_some {v _} := by cases v <;> simp

def json : Kind Json where
  wrap := .json
  unwrap | .json doc => some doc | _ => none
  unwrap_eq_some {v _} := by cases v <;> simp

@[simp] theorem unwrap_wrap (k : Kind α) (x : α) : k.unwrap (k.wrap x) = some x :=
  k.unwrap_eq_some.mpr rfl

end Kind

/-! ## Shapes of commands -/

/-- Read a value of one kind. -/
def readAs (k : Kind α) (touch : Bool) (absent : Value) (f : α → Value) : Act
  | none => (.keep, absent)
  | some c =>
    match k.unwrap c.value with
    | some x => (if touch then .touch else .keep, f x)
    | none => (.keep, wrongType)

/-- Change a value of one kind in place, if there is one. -/
def updateAs (k : Kind α) (absent : Value) (f : α → α × Value) : Act
  | none => (.keep, absent)
  | some c =>
    match k.unwrap c.value with
    | some x => (.modify { c with value := k.wrap (f x).1 }, (f x).2)
    | none => (.keep, wrongType)

/-- Change a value of one kind in place, starting from `default` if the key does not live. -/
def typedEntry (k : Kind α) (default : α) (f : α → α × Value) : Act
  | none => (.modify ⟨k.wrap (f default).1, none⟩, (f default).2)
  | some c =>
    match k.unwrap c.value with
    | some x => (.modify { c with value := k.wrap (f x).1 }, (f x).2)
    | none => (.keep, wrongType)

section

variable {k : Kind α} {c : Cell} {x : α}

theorem updateAs_held (h : k.unwrap c.value = some x) (absent : Value) (f : α → α × Value) :
    updateAs k absent f (some c) = (.modify { c with value := k.wrap (f x).1 }, (f x).2) := by
  rw [updateAs, h]

theorem updateAs_other (h : k.unwrap c.value = none) (absent : Value) (f : α → α × Value) :
    updateAs k absent f (some c) = (.keep, wrongType) := by
  rw [updateAs, h]

theorem typedEntry_held (h : k.unwrap c.value = some x) (default : α) (f : α → α × Value) :
    typedEntry k default f (some c) = (.modify { c with value := k.wrap (f x).1 }, (f x).2) := by
  rw [typedEntry, h]

theorem typedEntry_other (h : k.unwrap c.value = none) (default : α) (f : α → α × Value) :
    typedEntry k default f (some c) = (.keep, wrongType) := by
  rw [typedEntry, h]

end

/-! ## Strings -/

/-- The new deadline of `SET`. -/
def setDeadline (now : ℕ) (existing : Option ℕ) : Option SetExpiry → Except Value (Option ℕ)
  | none => .ok none
  | some (.ex seconds) =>
    if Decimal.u64Max / 1000 < seconds then .error (.error "ERR TTL overflow")
    else .ok (some (satAdd now (seconds * 1000)))
  | some (.px ms) => .ok (some (satAdd now ms))
  | some (.exAt seconds) => .ok (some (satMul seconds 1000))
  | some (.pxAt ms) => .ok (some ms)
  | some .keepTtl => .ok existing

/-- Whether the condition of `SET` is met. -/
def conditionMet (l : Option Cell) : Option SetCondition → Bool
  | some .nx => l.isNone
  | some .xx => l.isSome
  | none => true

/-- The string a key holds, if it does. -/
def existingStr (l : Option Cell) : Option Bytes := l.bind fun c => Kind.str.unwrap c.value

def setAct (now : ℕ) (val : Bytes) (opts : SetOptions) : Act := fun l =>
  let old : Value := .bulkString (existingStr l)
  if opts.get && l.isSome && (existingStr l).isNone then (.keep, wrongType)
  else if !conditionMet l opts.condition then (.keep, if opts.get then old else nil)
  else
    match setDeadline now (l.bind Lapse.Cell.expiresAtMs) opts.expiry with
    | .error e => (.keep, e)
    | .ok expiresAtMs => (.replace ⟨.str val, expiresAtMs⟩, if opts.get then old else ok)

def getSetAct (val : Bytes) : Act
  | none => (.replace ⟨.str val, none⟩, nil)
  | some c =>
    match c.value with
    | .str s => (.replace ⟨.str val, none⟩, blob s)
    | _ => (.keep, wrongType)

def setNxAct (val : Bytes) : Act
  | none => (.replace ⟨.str val, none⟩, .integer 1)
  | some _ => (.keep, .integer 0)

def addToNumber (delta : ℤ) (s : Bytes) : Bytes × Value :=
  match Decimal.parseI64 s with
  | none => (s, .error "ERR value is not an integer or out of range")
  | some n =>
    match checkedAdd n delta with
    | none => (s, .error "ERR increment or decrement would overflow")
    | some new => (Decimal.ofInt new, .integer new)

def incrBy (delta : ℤ) : Act := typedEntry .str (asBytes "0") (addToNumber delta)

/-! ## Deadlines -/

def setExpiry (tsMs : ℕ) : Act
  | none => (.keep, .integer 0)
  | some c => (.modify { c with expiresAtMs := some tsMs }, .integer 1)

def persistAct : Act
  | some ⟨value, some _⟩ => (.modify ⟨value, none⟩, .integer 1)
  | _ => (.keep, .integer 0)

/-- `TTL` and `PTTL`: the remaining time in the unit of the command. -/
def ttlAct (now : ℕ) (unit : ℕ → ℤ) : Act
  | none => (.keep, .integer (-2))
  | some ⟨_, none⟩ => (.keep, .integer (-1))
  | some ⟨_, some exp⟩ => (.keep, .integer (unit (exp - now)))

/-! ## Hashes -/

def addToField (field : String) (delta : ℤ) (h : Hash) : Hash × Value :=
  match checkedAdd ((h[field]?.bind Decimal.parseI64).getD 0) delta with
  | none => (h, .error "ERR increment or decrement would overflow")
  | some new => (h.insert field (Decimal.ofInt new), .integer new)

def hashIncrInt (field : String) (delta : ℤ) : Act := typedEntry .hash ∅ (addToField field delta)

def notFinite : Value := .error "ERR increment would produce NaN or Infinity"

def addFloatToField (field : String) (delta : Binary64) (h : Hash) : Hash × Value :=
  let new := ((h[field]?.bind Binary64.parse).getD .zero).add delta
  if new.isNaN || new.isInfinite then (h, notFinite)
  else (h.insert field (formatScore new), blob (formatScore new))

def hashIncrFloat (field : String) (delta : Binary64) : Act :=
  typedEntry .hash ∅ (addFloatToField field delta)

def hSetAct (pairs : List (String × Bytes)) : Act := typedEntry .hash ∅ fun h =>
  let newCount := (pairs.filter fun p => !h.contains p.1).length
  (pairs.foldl (fun h p => h.insert p.1 p.2) h, .integer newCount)

def hDelAct (fields : List String) : Act := updateAs .hash (.integer 0) fun h =>
  let (h, count) := fields.foldl (fun (acc : Hash × ℕ) f =>
    (acc.1.erase f, if acc.1.contains f then acc.2 + 1 else acc.2)) (h, 0)
  (h, .integer count)

def hScanAct (args : ScanArgs) (h : Hash) : List Value × ℕ :=
  let fields := h.toList.filter fun f => globMatch (args.pattern.getD "*") f.1
  let (page, next) := scanPage fields args.cursor args.count
  (page.flatMap fun f => if args.novalues then [bulk f.1] else [bulk f.1, blob f.2], next)

def scanReply (next : ℕ) (items : List Value) : Value :=
  arrayOf [blob (Decimal.digits next), arrayOf items]

def emptyScan : Value := scanReply 0 []

/-! ## Lists -/

def noListResponse (count : Option ℕ) : Value := if count.isSome then arrayOf [] else nil

def lPushAct (vals : List Bytes) (l : List Bytes) : List Bytes × Value :=
  let l := vals.foldl (fun l v => v :: l) l
  (l, .integer l.length)

def rPushAct (vals : List Bytes) (l : List Bytes) : List Bytes × Value :=
  let l := l ++ vals
  (l, .integer l.length)

def lPopAct (count : Option ℕ) : Act := updateAs .list (noListResponse count) fun l =>
  match count with
  | some n => (l.drop n, arrayOf ((l.take n).map blob))
  | none => (l.tail, .bulkString l.head?)

def rPopAct (count : Option ℕ) : Act := updateAs .list (noListResponse count) fun l =>
  match count with
  | some n => (l.take (l.length - n), arrayOf ((l.drop (l.length - n)).reverse.map blob))
  | none => (l.dropLast, .bulkString l.getLast?)

def lSetAct (idx : ℤ) (val : Bytes) : Act := updateAs .list (.error "ERR no such key") fun l =>
  match resolveIdx idx l.length with
  | none => (l, .error "ERR index out of range")
  | some i => (l.set i val, ok)

def lRemAct (count : ℤ) (element : Bytes) : Act := updateAs .list (.integer 0) fun l =>
  let (removed, l) := lRem l count element
  (l, .integer removed)

def lTrimAct (start stop : ℤ) : Act := updateAs .list ok fun l => (indexSlice l start stop, ok)

/-! ## Sets -/

def sPopAct (draws : ℕ → ℕ) (count : Option ℕ) : Act := updateAs .set (noListResponse count) fun s =>
  -- asking for all of them or more drains the set
  let (popped, s) := popMembers draws (min (count.getD 1) s.size) s
  (s, if count.isSome then arrayOf (popped.map bulk) else .bulkString (popped.head?.map asBytes))

def sRandMemberAct (draws : ℕ → ℕ) (count : Option ℤ) : Act :=
  readAs .set false (if count.isSome then arrayOf [] else nil) fun s =>
    match count with
    | none => .bulkString ((popMembers draws (min 1 s.size) s).1.head?.map asBytes)
    | some n =>
      if 0 ≤ n then arrayOf ((popMembers draws (min n.toNat s.size) s).1.map bulk)
      else arrayOf ((drawMembers draws (min n.natAbs maxArrayElements) s).map bulk)

/-- The sets the keys hold, `none` for a key that does not live; an error at the first key of
another type. -/
def readSets : List String → Prog (Except Value (List (Option MemberSet)))
  | [] => .done (.ok [])
  | key :: keys => .read key fun l =>
    match l with
    | none => (readSets keys).bind fun rest => .done (rest.map (none :: ·))
    | some c =>
      match Kind.set.unwrap c.value with
      | some s => (readSets keys).bind fun rest => .done (rest.map (some s :: ·))
      | none => .done (.error wrongType)

def setInter (sets : List (Option MemberSet)) : MemberSet :=
  if sets.any Option.isNone then ∅
  else
    match sets.filterMap id with
    | [] => ∅
    | first :: rest => rest.foldl (fun acc s => acc.filter fun m => s.contains m) first

def setUnion (sets : List (Option MemberSet)) : MemberSet :=
  (sets.filterMap id).foldl (· ∪ ·) ∅

def setDiff : List (Option MemberSet) → MemberSet
  | [] => ∅
  | first :: rest =>
    (rest.filterMap id).foldl (fun acc s => acc.filter fun m => !s.contains m) (first.getD ∅)

def combine (keys : List String) (f : List (Option MemberSet) → MemberSet) : Prog Value :=
  (readSets keys).bind fun sets =>
    match sets with
    | .error e => .done e
    | .ok sets => .done (arrayOf ((f sets).toList.map bulk))

def combineStore (dst : String) (keys : List String) (f : List (Option MemberSet) → MemberSet) :
    Prog Value :=
  (readSets keys).bind fun sets =>
    match sets with
    | .error e => .done e
    | .ok sets => .one dst fun _ => (.replace ⟨.set (f sets), none⟩, .integer (f sets).size)

/-- A key that lives and holds something else than a set. -/
def notSet (l : Option Cell) : Bool := l.any fun c => (Kind.set.unwrap c.value).isNone

def sMove (src dst member : String) : Prog Value :=
  .read src fun s => .read dst fun d =>
    if notSet s || notSet d then .done wrongType
    else
      .access src
        (fun l => (updateAs .set nil (fun s => (s.erase member, nil)) l).1)
        fun l =>
          if (l.bind fun c => Kind.set.unwrap c.value).any fun s => s.contains member then
            .one dst (typedEntry .set ∅ fun s => (s.insert member, .integer 1))
          else .done (.integer 0)

/-! ## Sorted sets -/

def encodeZRange (items : List (String × Binary64)) (withscores : Bool) : Value :=
  arrayOf (items.flatMap fun e =>
    if withscores then [bulk e.1, blob (formatScore e.2)] else [bulk e.1])

def score (z : ZSet) (member : String) : Value := .bulkString (z[member]?.map formatScore)

/-- Read a sorted set; a key that does not live reads as an empty one. -/
def zsetRead (f : ZSet → Except Value Value) : Act :=
  let reply (z : ZSet) : Value := match f z with
    | .ok v | .error v => v
  readAs .zset true (reply ∅) reply

def zRangeByScoreRead (min max : String) (f : List (String × Binary64) → Value) : Act :=
  zsetRead fun z => do
    let min ← ScoreBound.parse min
    let max ← ScoreBound.parse max
    .ok (f (rangeByScore z min max))

def addToScore (delta : Binary64) (member : String) (z : ZSet) : ZSet × Value :=
  let new := (z[member]?.getD .zero).add delta
  if new.isNaN || new.isInfinite then (z, notFinite)
  else (z.insert member new, blob (formatScore new))

def zIncrByAct (delta : Binary64) (member : String) : Act :=
  typedEntry .zset ∅ (addToScore delta member)

def zRemAct (members : List String) : Act := updateAs .zset (.integer 0) fun z =>
  let (z, count) := members.foldl (fun (acc : ZSet × ℕ) m =>
    (acc.1.erase m, if acc.1.contains m then acc.2 + 1 else acc.2)) (z, 0)
  (z, .integer count)

def zScanAct (args : ScanArgs) (z : ZSet) : Value :=
  let members := z.toList.filter fun e => globMatch (args.pattern.getD "*") e.1
  let (page, next) := scanPage members args.cursor args.count
  scanReply next (page.flatMap fun e => [bulk e.1, blob (formatScore e.2)])

/-! ## JSON -/

def setInDocument (val : Json) (segs : List JsonPathSeg) (doc : Json) : Json × Value :=
  match jsonSetAt val segs doc with
  | (doc, none) => (doc, ok)
  | (doc, some e) => (doc, .error e)

def jSetAct (codec : Codec) (path value : String) : Act := fun l =>
  match parseJsonPath path with
  | .error e => (.keep, .error e)
  | .ok segs =>
    match codec.fromStr value with
    | .error e => (.keep, .error s!"ERR invalid JSON value: {e}")
    | .ok val =>
      let leadingIndex := match segs with
        | .index _ :: _ => true
        | _ => false
      if l.isNone && leadingIndex then
        (.keep, .error "ERR path segment '[..]' is not an array (key does not exist)")
      else
        typedEntry .json .null (setInDocument val segs) l

def jGetAct (codec : Codec) (path : Option String) : Act :=
  readAs .json true nil fun doc =>
    match parseJsonPath (path.getD "$") with
    | .error e => .error e
    | .ok segs => .bulkString ((jsonGetAt segs doc).map fun v => asBytes (codec.toStr v))

def jMergeAct (codec : Codec) (patch : String) : Act := fun l =>
  match codec.fromStr patch with
  | .error e => (.keep, .error s!"ERR invalid JSON patch: {e}")
  | .ok patch =>
    if patch.isNull then
      -- a null patch deletes the document, and only a document
      if l.all fun c => (Kind.json.unwrap c.value).isSome then (.remove, ok) else (.keep, wrongType)
    else typedEntry .json .null (fun doc => (jsonMergePatch patch doc, ok)) l

/-! ## Rate limiting -/

def rlSetAct (limit windowSecs : ℕ) : Act := fun l =>
  let windowMs := satMul windowSecs 1000
  match l with
  | none => (.modify ⟨.rateLimiter { limit, windowMs }, none⟩, ok)
  | some c =>
    match Kind.rateLimiter.unwrap c.value with
    | some rl => (.modify ⟨.rateLimiter { rl with limit, windowMs }, none⟩, ok)
    | none => (.keep, wrongType)

/-- Record an attempt with a limiter that has the given deadline. -/
def rlAttempt (now : ℕ) (rl : RateLimiter) (expiresAtMs : Option ℕ) : Cell × Value :=
  let (rl', allowed, remaining, retryAfterMs) := rl.check now
  (⟨.rateLimiter rl', expiresAtMs.map fun _ => satAdd now rl.windowMs⟩,
    arrayOf [.integer allowed, .integer (asI64 remaining), .integer (asI64 retryAfterMs)])

def rlCheckAct (now : ℕ) (key : String) (config : Option (ℕ × ℕ)) : Act
  | none =>
    match config with
    | none =>
      (.keep, .error
        s!"ERR no rate limit configured for '{key}'; call RLSET first or use RLCHECK key limit window")
    | some (limit, windowSecs) =>
      let windowMs := satMul windowSecs 1000
      let (cell, reply) := rlAttempt now { limit, windowMs } (some (satAdd now windowMs))
      (.replace cell, reply)
  | some c =>
    match Kind.rateLimiter.unwrap c.value with
    | none => (.keep, wrongType)
    | some rl =>
      let rl := match config with
        | some (limit, windowSecs) => { rl with limit, windowMs := satMul windowSecs 1000 }
        | none => rl
      let (cell, reply) := rlAttempt now rl c.expiresAtMs
      (.modify cell, reply)

/-! ## Several keys -/

/-- Remove the keys that live; the number removed. -/
def delKeys : List String → ℕ → Prog ℕ
  | [], n => .done n
  | key :: keys, n =>
    .access key (fun l => if l.isSome then .remove else .keep) fun l =>
      delKeys keys (if l.isSome then n + 1 else n)

def existKeys : List String → ℕ → Prog ℕ
  | [], n => .done n
  | key :: keys, n => .read key fun l => existKeys keys (if l.isSome then n + 1 else n)

def mGetKeys : List String → Prog (List Value)
  | [] => .done []
  | key :: keys =>
    .access key (fun l => if (existingStr l).isSome then .touch else .keep) fun l =>
      (mGetKeys keys).bind fun rest => .done (.bulkString (existingStr l) :: rest)

def mSetPairs : List (String × Bytes) → Prog Value
  | [] => .done ok
  | (key, val) :: pairs => .access key (fun _ => .replace ⟨.str val, none⟩) fun _ => mSetPairs pairs

/-! ## The commands -/

def handledElsewhere (name : String) : Value :=
  .error s!"ERR {name} is handled by the connection layer, not the store"

/-- What a command does to the entries of the keys it names.  The commands that read the keyspace
itself are in `executeInner`. -/
def program (codec : Codec) (env : Env) : Command → Prog Value
  | .ping (some m) => .done (bulk m)
  | .ping none => .done (.simpleString "PONG")
  | .auth _ => .done (handledElsewhere "AUTH")
  | .hello _ => .done (handledElsewhere "HELLO")
  | .info _ => .done (handledElsewhere "INFO")
  | .quit => .done (handledElsewhere "QUIT")
  | .client _ => .done (handledElsewhere "CLIENT")
  | .config _ => .done (handledElsewhere "CONFIG")
  | .commandQuery _ => .done (handledElsewhere "COMMAND")
  | .cluster _ => .done (handledElsewhere "CLUSTER")
  | .module _ => .done (handledElsewhere "MODULE")
  | .pubSub _ => .done (handledElsewhere "PUBSUB")
  | .memory _ => .done (handledElsewhere "MEMORY")
  -- strings
  | .eSet key val => .one key (setAct env.now val {})
  | .set key val opts => .one key (setAct env.now val opts)
  | .get key => .one key (readAs .str true nil blob)
  | .del keys => (delKeys keys 0).bind fun n => .done (.integer n)
  | .unlink keys => (delKeys keys 0).bind fun n => .done (.integer n)
  | .append key suffix =>
    .one key (typedEntry .str [] fun s => (s ++ suffix, .integer (s ++ suffix).length))
  | .strlen key => .one key (readAs .str false (.integer 0) fun s => .integer s.length)
  | .getRange key start stop =>
    .one key (readAs .str true (blob []) fun s => blob (byteRange s start stop))
  | .getSet key val => .one key (getSetAct val)
  | .mGet keys => (mGetKeys keys).bind fun vs => .done (arrayOf vs)
  | .mSet pairs => mSetPairs pairs
  | .setNx key val => .one key (setNxAct val)
  | .setEx key secs val =>
    .one key fun _ => (.replace ⟨.str val, some (satAdd env.now (satMul secs 1000))⟩, ok)
  | .pSetEx key ms val => .one key fun _ => (.replace ⟨.str val, some (satAdd env.now ms)⟩, ok)
  | .incr key => .one key (incrBy 1)
  | .decr key => .one key (incrBy (-1))
  | .incrBy key delta => .one key (incrBy delta)
  | .decrBy key delta =>
    -- the smallest number has no negation
    if delta = Decimal.i64Min then .done (.error "ERR increment or decrement would overflow")
    else .one key (incrBy (-delta))
  -- expiry
  | .expire key secs => .one key (setExpiry (satAdd env.now (satMul secs 1000)))
  | .pExpire key ms => .one key (setExpiry (satAdd env.now ms))
  | .expireAt key ts => .one key (setExpiry (satMul ts 1000))
  | .pExpireAt key ts => .one key (setExpiry ts)
  | .ttl key => .one key (ttlAct env.now fun ms => asI64 (satAdd ms 500 / 1000))
  | .pTtl key => .one key (ttlAct env.now asI64)
  | .persist key => .one key persistAct
  -- keys
  | .exists keys => (existKeys keys 0).bind fun n => .done (.integer n)
  | .keys _ | .scan _ _ _ | .dbSize => .done nil
  | .flushDb => .clear (.done ok)
  | .rename src dst =>
    .rename src dst fun moved => .done (if moved then ok else .error "ERR no such key")
  | .type key => .one key fun l =>
    (.keep, .simpleString ((l.map fun c => c.value.typeName).getD "none"))
  | .memoryUsage key => .one key fun l =>
    (.keep, (l.map fun c => .integer (entrySize key c.value)).getD nil)
  -- hashes
  | .hSet key pairs => .one key (hSetAct pairs)
  | .hGet key field => .one key (readAs .hash true nil fun h => .bulkString h[field]?)
  | .hGetAll key => .one key (readAs .hash true (arrayOf []) fun h =>
    arrayOf (h.toList.flatMap fun f => [bulk f.1, blob f.2]))
  | .hDel key fields => .one key (hDelAct fields)
  | .hKeys key => .one key (readAs .hash false (arrayOf []) fun h =>
    arrayOf (h.toList.map fun f => bulk f.1))
  | .hVals key => .one key (readAs .hash false (arrayOf []) fun h =>
    arrayOf (h.toList.map fun f => blob f.2))
  | .hLen key => .one key (readAs .hash false (.integer 0) fun h => .integer h.size)
  | .hIncrBy key field delta => .one key (hashIncrInt field delta)
  | .hIncrByFloat key field delta => .one key (hashIncrFloat field delta)
  | .hExists key field => .one key (readAs .hash false (.integer 0) fun h =>
    .integer (if h.contains field then 1 else 0))
  | .hSetNx key field val => .one key (typedEntry .hash ∅ fun h =>
    if h.contains field then (h, .integer 0) else (h.insert field val, .integer 1))
  | .hMGet key fields => .one key (readAs .hash false (arrayOf (fields.map fun _ => nil)) fun h =>
    arrayOf (fields.map fun f => .bulkString h[f]?))
  | .hScan key args => .one key (readAs .hash true emptyScan fun h =>
    scanReply (hScanAct args h).2 (hScanAct args h).1)
  -- lists
  | .lPush key vals => .one key (typedEntry .list [] (lPushAct vals))
  | .rPush key vals => .one key (typedEntry .list [] (rPushAct vals))
  | .lPushX key vals => .one key (updateAs .list (.integer 0) (lPushAct vals))
  | .rPushX key vals => .one key (updateAs .list (.integer 0) (rPushAct vals))
  | .lPop key count => .one key (lPopAct count)
  | .rPop key count => .one key (rPopAct count)
  | .lRange key start stop => .one key (readAs .list true (arrayOf []) fun l =>
    arrayOf ((indexSlice l start stop).map blob))
  | .lLen key => .one key (readAs .list false (.integer 0) fun l => .integer l.length)
  | .lIndex key idx => .one key (readAs .list false nil fun l =>
    .bulkString ((resolveIdx idx l.length).bind fun i => l[i]?))
  | .lSet key idx val => .one key (lSetAct idx val)
  | .lRem key count element => .one key (lRemAct count element)
  | .lTrim key start stop => .one key (lTrimAct start stop)
  -- sets
  | .sAdd key members => .one key (typedEntry .set ∅ fun s =>
    ((insertAll members s).2, .integer (insertAll members s).1))
  | .sMembers key => .one key (readAs .set true (arrayOf []) fun s => arrayOf (s.toList.map bulk))
  | .sRem key members => .one key (updateAs .set (.integer 0) fun s =>
    ((removeAll members s).2, .integer (removeAll members s).1))
  | .sCard key => .one key (readAs .set false (.integer 0) fun s => .integer s.size)
  | .sIsMember key member => .one key (readAs .set true (.integer 0) fun s =>
    .integer (if s.contains member then 1 else 0))
  | .sMIsMember key members =>
    .one key (readAs .set false (arrayOf (members.map fun _ => .integer 0)) fun s =>
      arrayOf (members.map fun m => .integer (if s.contains m then 1 else 0)))
  | .sInter keys => combine keys setInter
  | .sInterStore dst keys => combineStore dst keys setInter
  | .sUnion keys => combine keys setUnion
  | .sUnionStore dst keys => combineStore dst keys setUnion
  | .sDiff keys => combine keys setDiff
  | .sDiffStore dst keys => combineStore dst keys setDiff
  | .sPop key count => .one key (sPopAct env.draws count)
  | .sRandMember key count => .one key (sRandMemberAct env.draws count)
  | .sMove src dst member => sMove src dst member
  | .sScan key args => .one key (readAs .set true emptyScan fun s =>
    let members := s.toList.filter fun m => globMatch (args.pattern.getD "*") m
    let (page, next) := scanPage members args.cursor args.count
    scanReply next (page.map bulk))
  -- sorted sets
  | .zAdd key opts pairs => .one key (typedEntry .zset ∅ fun z => zAddExec z opts pairs)
  | .zRange key start stop withscores => .one key (zsetRead fun z =>
    .ok (encodeZRange (indexSlice (iterAsc z) start stop) withscores))
  | .zRevRange key start stop withscores => .one key (zsetRead fun z =>
    .ok (encodeZRange (indexSlice (iterAsc z).reverse start stop) withscores))
  | .zRangeByScore key min max withscores limit =>
    .one key (zRangeByScoreRead min max fun items =>
      encodeZRange (applyLimit items limit) withscores)
  | .zRevRangeByScore key max min withscores limit =>
    .one key (zRangeByScoreRead min max fun items =>
      encodeZRange (applyLimit items.reverse limit) withscores)
  | .zScore key member => .one key (readAs .zset true nil fun z => score z member)
  | .zMScore key members =>
    .one key (readAs .zset false (arrayOf (members.map fun _ => nil)) fun z =>
      arrayOf (members.map (score z)))
  | .zRank key member => .one key (readAs .zset false nil fun z =>
    ((zRank z member).map fun i => .integer i).getD nil)
  | .zRevRank key member => .one key (readAs .zset false nil fun z =>
    ((zRank z member).map fun i => .integer (z.size - 1 - i : ℕ)).getD nil)
  | .zRem key members => .one key (zRemAct members)
  | .zCard key => .one key (readAs .zset false (.integer 0) fun z => .integer z.size)
  | .zIncrBy key delta member => .one key (zIncrByAct delta member)
  | .zCount key min max => .one key (zRangeByScoreRead min max fun items => .integer items.length)
  | .zScan key args => .one key (zsetRead fun z => .ok (zScanAct args z))
  -- JSON
  | .jSet key path value => .one key (jSetAct codec path value)
  | .jGet key path => .one key (jGetAct codec path)
  | .jMerge key patch => .one key (jMergeAct codec patch)
  -- rate limiting
  | .rlSet key limit windowSecs => .one key (rlSetAct limit windowSecs)
  | .rlCheck key config => .one key (rlCheckAct env.now key config)
  -- everything else is handled by the server
  | .multi => .done ok
  | .exec => .done (.error "ERR EXEC without MULTI")
  | .discard => .done (.error "ERR DISCARD without MULTI")
  | .subscribe _ | .unsubscribe _ | .pSubscribe _ | .pUnsubscribe _ =>
    .done (.error "ERR only in pub/sub context")
  | .publish _ _ => .done (.integer 0)
  | .watch _ | .unwatch _ => .done (.error "ERR WATCH/UNWATCH only supported over WebSocket")
  | .sync _ => .done (.error "ERR SYNC is only available on the WebSocket port")
  | .dedup _ _ _ => .done (.error "ERR DEDUP is only available on the WebSocket port")
  | .qSub _ | .qUnsub _ => .done (.error "ERR live queries are only available on the WebSocket port")
  | .save | .bgSave | .lastSave =>
    .done (.error "ERR persistence commands must be handled by the server")
  | .replicaOfNoOne => .done (.error "ERR REPLICAOF NO ONE must be handled by the server")
  | .unknown name => .done (.error s!"ERR unknown command '{name}'")

/-! ## The key cap -/

/-- The key of a command that checks the cap on the number of keys before it writes one key. -/
def cappedKey : Command → Option String
  | .eSet key _ | .set key _ _ | .setNx key _ | .setEx key _ _ | .pSetEx key _ _ => some key
  | _ => none

/-- Make room for the keys a command is about to create; whether there is room now. -/
def makeRoom (env : Env) (cmd : Command) (s : KeyValueStore) : Bool × KeyValueStore × List String :=
  match s.maxKeys with
  | none => (true, s, [])
  | some max =>
    match cmd with
    | .mSet pairs =>
      let newCount := (pairs.filter fun p => !s.data.contains p.1).length
      s.evictMany env (newCount - (max - s.data.size)) []
    | _ =>
      match cappedKey cmd with
      | none => (true, s, [])
      | some key =>
        if max ≤ s.data.size && !s.data.contains key then s.evictMany env 1 [] else (true, s, [])

/-! ## Commands that read the keyspace -/

def maxScanCursors : ℕ := 4096

def scanKeys (now : ℕ) (cursor : ℕ) (pattern : Option String) (count : Option ℕ)
    (s : KeyValueStore) : Value × KeyValueStore :=
  let lastKey := if cursor = 0 then none else s.scanCursors[cursor]?
  let s := { s with scanCursors := s.scanCursors.erase cursor }
  if cursor ≠ 0 ∧ lastKey = none then (emptyScan, s)
  else
    let batch := max (count.getD 10) 1
    let ordered := match lastKey with
      | some key => s.index.ordered.toList.filter fun k => key < k
      | none => s.index.ordered.toList
    let candidates := ordered.take batch
    let live := candidates.filter fun key =>
      globMatch (pattern.getD "*") key && (s.data[key]?.any fun e => !e.isExpired now)
    if ordered.length ≤ batch then (scanReply 0 (live.map bulk), s)
    else
      let token := max s.nextScanCursor 1
      -- which cursor leaves a full table is not specified; here it is the smallest
      let cursors := if maxScanCursors ≤ s.scanCursors.size then
        (s.scanCursors.toList.head?.map fun c => s.scanCursors.erase c.1).getD s.scanCursors
        else s.scanCursors
      (scanReply token (live.map bulk),
        { s with
          scanCursors := cursors.insert token ((candidates.getLast?).getD "")
          nextScanCursor := s.nextScanCursor + 1 })

def matchingKeys (now : ℕ) (pattern : String) (data : Data) : List String :=
  (data.toList.filter fun e => !e.2.isExpired now && globMatch pattern e.1).map Prod.fst

/-! ## The whole command -/

/-- Run one command; also the keys evicted to make room. -/
def executeInner (codec : Codec) (env : Env) (cmd : Command) (s : KeyValueStore) :
    Value × KeyValueStore × List String :=
  match cmd with
  | .keys pattern => (arrayOf ((matchingKeys env.now pattern s.data).map bulk), s, [])
  | .scan cursor pattern count =>
    let (reply, s) := scanKeys env.now cursor pattern count s
    (reply, s, [])
  | .dbSize => (.integer s.index.all.keys.length, s, [])
  | cmd =>
    match makeRoom env cmd s with
    | (false, s, evicted) => (.error "ERR max keys limit reached", s, evicted)
    | (true, s, evicted) =>
      let (reply, data) := (program codec env cmd).run env.now s.data
      (reply, { s with data }, evicted)

inductive MutationScope where
  | readOnly
  | keys (keys : List String)
  | all

def mutationScope : Command → MutationScope
  | .set key _ _ | .eSet key _ | .append key _ | .getSet key _ | .setNx key _ | .setEx key _ _
  | .pSetEx key _ _ | .incr key | .decr key | .incrBy key _ | .decrBy key _ | .expire key _
  | .pExpire key _ | .expireAt key _ | .pExpireAt key _ | .persist key | .hSet key _ | .hDel key _
  | .hIncrBy key _ _ | .hIncrByFloat key _ _ | .hSetNx key _ _ | .lPush key _ | .rPush key _
  | .lPushX key _ | .rPushX key _ | .lPop key _ | .rPop key _ | .lSet key _ _ | .lRem key _ _
  | .lTrim key _ _ | .sAdd key _ | .sRem key _ | .sPop key _ | .zAdd key _ _ | .zRem key _
  | .zIncrBy key _ _ | .rlSet key _ _ | .rlCheck key _ | .jSet key _ _ | .jMerge key _ => .keys [key]
  | .del keys | .unlink keys => .keys keys
  | .mSet pairs => .keys (pairs.map Prod.fst)
  | .rename src dst | .sMove src dst _ => .keys [src, dst]
  | .sInterStore dst keys | .sUnionStore dst keys | .sDiffStore dst keys => .keys (dst :: keys)
  | .flushDb => .all
  | .dedup _ _ inner => mutationScope inner
  | _ => .readOnly

/-- Put an entry back as it was. -/
def restoreEntry (data : Data) (saved : String × Option Entry) : Data :=
  match saved.2 with
  | some e => data.insert saved.1 e
  | none => data.erase saved.1

/-- Run one command with its bookkeeping; also all keys that capacity eviction removed. -/
def executeReporting (codec : Codec) (env : Env) (cmd : Command) (s : KeyValueStore) :
    Value × KeyValueStore × List String :=
  match mutationScope cmd with
  | .readOnly => executeInner codec env cmd s
  | .all =>
    let (reply, s, evicted) := executeInner codec env cmd s
    let (_, s, evicted) := (s.rebuildMetadata env.now).tryEvictForMemory env evicted
    (reply, s, evicted)
  | .keys keys =>
    let keys := (keys.insertionSort (· ≤ ·)).dedup
    let memoryBefore := s.memoryBytes
    let rollback := keys.map fun key => (key, s.data[key]?)
    let footprint (s : KeyValueStore) := (keys.map (KeyValueStore.entryMemory s.data)).sum
    let before := footprint s
    let (reply, s, evicted) := executeInner codec env cmd s
    let s := keys.foldl .syncKeyMetadata (s.adjustMemory before (footprint s))
    let (withinLimit, s, evicted) := s.tryEvictForMemory env evicted
    if !withinLimit && memoryBefore < s.memoryBytes && s.evictionPolicy = .noEviction then
      -- the cap refuses the write: the touched entries are put back
      let s := ({ s with data := rollback.foldl restoreEntry s.data }).rebuildMetadata env.now
      (.error "OOM command not allowed when used memory > 'maxmemory'.", s, [])
    else (reply, s, evicted)

def execute (codec : Codec) (env : Env) (cmd : Command) (s : KeyValueStore) : Value × KeyValueStore :=
  let (reply, s, _) := executeReporting codec env cmd s
  (reply, s)

end Recached
