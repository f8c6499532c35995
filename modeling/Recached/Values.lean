import Mathlib.Data.List.Sort
import Recached.Cmd
import Recached.Json
import Recached.Resp

/-!
# Stored values

The values a key can hold, with the operations on them that commands are made of: index ranges,
sorted sets and score bounds, sets and random draws from them, rate limiters, glob patterns.

Hashes, sets and sorted sets are finite maps and sets; the order in which the members of a set are
stored, which random members depend on, is part of what the draws stand for.
-/

namespace Recached

open Text

abbrev Hash := Std.ExtTreeMap String Bytes

abbrev MemberSet := Std.ExtTreeSet String

abbrev ZSet := Std.ExtTreeMap String Binary64

/-! ## Machine arithmetic -/

def satAdd (a b : ℕ) : ℕ := min (a + b) Decimal.u64Max

def satMul (a b : ℕ) : ℕ := min (a * b) Decimal.u64Max

/-- The signed number with the same 64 bits. -/
def asI64 (n : ℕ) : ℤ := if n < 2 ^ 63 then n else (n : ℤ) - 2 ^ 64

def checkedAdd (a b : ℤ) : Option ℤ :=
  if Decimal.i64Min ≤ a + b ∧ a + b ≤ Decimal.i64Max then some (a + b) else none

def satAddInt (a b : ℤ) : ℤ := max Decimal.i64Min (min (a + b) Decimal.i64Max)

/-! ## Index ranges -/

def resolveIdx (idx : ℤ) (len : ℕ) : Option ℕ :=
  let resolved := if 0 ≤ idx then idx else (len : ℤ) + idx
  -- a negative number cast to an unsigned one is beyond every length
  if 0 ≤ resolved ∧ resolved < len then some resolved.toNat else none

def resolveRange (start stop : ℤ) (len : ℕ) : Option (ℕ × ℕ) :=
  if len = 0 then none
  else
    let s := (max (if start < 0 then (len : ℤ) + start else start) 0).toNat
    let e := min (if stop < 0 then (len : ℤ) + stop else stop) (len - 1)
    if e < 0 ∨ len ≤ s ∨ e.toNat < s then none else some (s, e.toNat)

/-- The elements from `s` to `e`, both included. -/
def slice (items : List α) (s e : ℕ) : List α := (items.drop s).take (e - s + 1)

def indexSlice (ordered : List α) (start stop : ℤ) : List α :=
  match resolveRange start stop ordered.length with
  | none => []
  | some (s, e) => slice ordered s e

def byteRange (data : Bytes) (start stop : ℤ) : Bytes :=
  let len : ℤ := data.length
  if len = 0 then []
  else
    let s := max (if start < 0 then satAddInt start len else start) 0
    let e := min (max (if stop < 0 then satAddInt stop len else stop) 0) (len - 1)
    if e < s then [] else slice data s.toNat e.toNat

def applyLimit (items : List α) : Option (ℤ × ℤ) → List α
  | none => items
  | some (offset, count) =>
    let rest := items.drop (max offset 0).toNat
    if count < 0 then rest else rest.take count.toNat

def scanPage (items : List α) (cursor : ℕ) (count : Option ℕ) : List α × ℕ :=
  let batch := max (count.getD 10) 1
  let start := min cursor items.length
  let stop := min (start + batch) items.length
  ((items.drop start).take (stop - start), if items.length ≤ stop then 0 else stop)

/-! ## Glob patterns -/

/-- The matching loop: the rest of the text and of the pattern, and where to resume after the most
recent star. -/
def globLoop : (fuel : ℕ) → (text pat : Bytes) → Option (Bytes × Bytes) → Bool
  | _, [], pat, _ => pat.all (· = 42)
  | 0, _, _, _ => false
  | fuel + 1, t :: text, pat, star =>
    let retry : Bool :=
      match star with
      | some (pat, resume) => globLoop fuel resume.tail pat (some (pat, resume.tail))
      | none => false
    match pat with
    | p :: pat =>
      if p = 63 ∨ p = t then globLoop fuel text pat star
      else if p = 42 then globLoop fuel (t :: text) pat (some (pat, t :: text))
      else retry
    | [] => retry

/-- Every byte of the text is taken by the most recent star at most once, and between two such steps
the text and the pattern only get shorter, so the fuel suffices. -/
def globMatch (pattern s : String) : Bool :=
  let pat := asBytes pattern
  let text := asBytes s
  globLoop ((text.length + 1) * (text.length + pat.length + 1)) text pat none

/-! ## Sorted sets -/

def formatScore (s : Binary64) : Bytes :=
  if s = .infinity then asBytes "inf"
  else if s = Binary64.infinity.negate then asBytes "-inf"
  else if s.isIntegral && s.absLt (10 ^ 15) then Decimal.ofInt s.truncate
  else s.display

/-- Ascending by score, then by member. -/
def scoreBefore (a b : String × Binary64) : Bool :=
  a.2.totalKey < b.2.totalKey || (a.2.totalKey = b.2.totalKey && a.1 ≤ b.1)

def iterAsc (z : ZSet) : List (String × Binary64) := z.toList.insertionSort fun a b => scoreBefore a b

inductive ScoreBound where
  | negInf
  | posInf
  | inclusive (v : Binary64)
  | exclusive (v : Binary64)

def ScoreBound.parse (s : String) : Except Value ScoreBound :=
  let float (b : Bytes) (f : Binary64 → ScoreBound) : Except Value ScoreBound :=
    match Binary64.parse b with
    | some v => .ok (f v)
    | none => .error (.error "ERR min or max is not a float")
  if s = "-inf" then .ok negInf
  else if s = "+inf" ∨ s = "inf" then .ok posInf
  else
    match asBytes s with
    | 40 :: rest => float rest exclusive
    | b => float b inclusive

def aboveMin (score : Binary64) : ScoreBound → Bool
  | .negInf => true
  | .posInf => false
  | .inclusive v => v.le score
  | .exclusive v => v.lt score

def belowMax (score : Binary64) : ScoreBound → Bool
  | .posInf => true
  | .negInf => false
  | .inclusive v => score.le v
  | .exclusive v => score.lt v

def ScoreBound.start : ScoreBound → Binary64
  | .negInf => Binary64.infinity.negate
  | .posInf => .infinity
  | .inclusive v | .exclusive v => v

def rangeByScore (z : ZSet) (min max : ScoreBound) : List (String × Binary64) :=
  (((iterAsc z).dropWhile fun e => e.2.totalKey < min.start.totalKey).takeWhile fun e =>
    belowMax e.2 max).filter fun e => aboveMin e.2 min

def zRank (z : ZSet) (member : String) : Option ℕ :=
  z[member]?.map fun score =>
    ((iterAsc z).takeWhile fun e => scoreBefore e (member, score) && e.1 != member).length

/-- The smallest difference between scores that counts as a change, `2 ^ -52`. -/
def epsilon : Binary64 := ⟨false, 971 * 2 ^ 52, by norm_num⟩

/-- `|a - b| > ε`. -/
def differs (a b : Binary64) : Bool := epsilon.lt (a.sub b).abs

def scoreShouldUpdate (score oldScore : Binary64) (opts : ZAddOptions) : Bool :=
  if opts.gt then oldScore.lt score
  else if opts.lt then score.lt oldScore
  else differs score oldScore

/-- One pair of `ZADD`: the sorted set, and the numbers added and changed. -/
def zAddPair (opts : ZAddOptions) (acc : ZSet × ℕ × ℕ) (pair : Binary64 × String) : ZSet × ℕ × ℕ :=
  let (z, added, changed) := acc
  let (score, member) := pair
  match opts.condition, z[member]? with
  | none, none => (z.insert member score, added + 1, changed + 1)
  | none, some old =>
    if opts.gt || opts.lt then
      if scoreShouldUpdate score old opts then (z.insert member score, added, changed + 1) else acc
    else (z.insert member score, added, if differs old score then changed + 1 else changed)
  | some .nx, some _ => acc
  | some .nx, none => (z.insert member score, added + 1, changed + 1)
  | some .xx, none => acc
  | some .xx, some old =>
    if scoreShouldUpdate score old opts then (z.insert member score, added, changed + 1) else acc

def zAddExec (z : ZSet) (opts : ZAddOptions) (pairs : List (Binary64 × String)) : ZSet × Value :=
  if opts.incr then
    match pairs with
    | [] => (z, .bulkString none)
    | (delta, member) :: _ =>
      let score := (z[member]?.getD .zero).add delta
      (z.insert member score, .bulkString (some (formatScore score)))
  else
    let (z, added, changed) := pairs.foldl (zAddPair opts) (z, 0, 0)
    (z, .integer (if opts.ch then changed else added))

/-! ## Sets -/

/-- Insert members one after another: the number of those that were new, and the set. -/
def insertAll : List String → MemberSet → ℕ × MemberSet
  | [], s => (0, s)
  | m :: ms, s =>
    let (n, s') := insertAll ms (s.insert m)
    (if s.contains m then n else n + 1, s')

/-- Remove members one after another: the number of those that were there, and the set. -/
def removeAll : List String → MemberSet → ℕ × MemberSet
  | [], s => (0, s)
  | m :: ms, s =>
    let (n, s') := removeAll ms (s.erase m)
    (if s.contains m then n + 1 else n, s')

/-- Take `n` members, each the one the next draw chooses among those left. -/
def popMembers (draws : ℕ → ℕ) : (n : ℕ) → MemberSet → List String × MemberSet
  | 0, s => ([], s)
  | n + 1, s =>
    match s.toList[draws n % s.size]? with
    | none => ([], s)
    | some m =>
      let (ms, s') := popMembers draws n (s.erase m)
      (m :: ms, s')

/-- `n` members with repetition. -/
def drawMembers (draws : ℕ → ℕ) (n : ℕ) (s : MemberSet) : List String :=
  (List.range n).filterMap fun i => s.toList[draws i % s.size]?

/-! ## Lists -/

/-- Remove the first `limit` elements equal to `element`, all of them without a limit; also the
number removed. -/
def removeFirst (element : Bytes) : (limit : Option ℕ) → List Bytes → ℕ × List Bytes
  | _, [] => (0, [])
  | some 0, list => (0, list)
  | limit, v :: rest =>
    if v = element then
      let (n, rest) := removeFirst element (limit.map (· - 1)) rest
      (n + 1, rest)
    else
      let (n, rest) := removeFirst element limit rest
      (n, v :: rest)

/-- `LREM`: from the head for a positive count, from the tail for a negative one, all for zero.  The
bound `i64::MIN` has no positive counterpart and removes nothing. -/
def lRem (list : List Bytes) (count : ℤ) (element : Bytes) : ℕ × List Bytes :=
  if count = 0 then removeFirst element none list
  else if 0 < count then removeFirst element (some count.toNat) list
  else
    let (n, rest) := removeFirst element (some (asI64 count.natAbs).toNat) list.reverse
    (n, rest.reverse)

/-! ## Rate limiters -/

def rlBuckets : ℕ := 64

structure RateLimiter where
  limit : ℕ
  windowMs : ℕ
  buckets : List (ℕ × ℕ) := []
deriving DecidableEq

namespace RateLimiter

def bucketMs (rl : RateLimiter) : ℕ := max (rl.windowMs / rlBuckets) 1

/-- Record an attempt: the limiter, and whether it is allowed, how many remain and the wait. -/
def check (rl : RateLimiter) (now : ℕ) : RateLimiter × ℕ × ℕ × ℕ :=
  let width := rl.bucketMs
  let cutoff := now - rl.windowMs
  let buckets := rl.buckets.dropWhile fun b => b.1 + width ≤ cutoff
  let used := (buckets.map Prod.snd).sum
  if used < rl.limit then
    let current := now - now % width
    let buckets :=
      match buckets.getLast? with
      | some (start, count) =>
        if start = current then buckets.dropLast ++ [(start, count + 1)]
        else buckets ++ [(current, 1)]
      | none => [(current, 1)]
    ({ rl with buckets }, 1, rl.limit - used - 1, 0)
  else
    let retryAfter := (buckets.head?.map fun b => b.1 + width + rl.windowMs - now).getD 0
    ({ rl with buckets }, 0, 0, min retryAfter rl.windowMs)

end RateLimiter

/-! ## The value of a key -/

inductive EntryValue where
  | str (s : Bytes)
  | hash (h : Hash)
  | list (l : List Bytes)
  | set (s : MemberSet)
  | zset (z : ZSet)
  | rateLimiter (rl : RateLimiter)
  | json (doc : Json)

def EntryValue.typeName : EntryValue → String
  | str _ => "string"
  | hash _ => "hash"
  | list _ => "list"
  | set _ => "set"
  | zset _ => "zset"
  | rateLimiter _ => "ratelimit"
  | json _ => "json"

/-- The bytes a value is accounted with. -/
def EntryValue.size : EntryValue → ℕ
  | str s => s.length
  | hash h => (h.toList.map fun f => (asBytes f.1).length + f.2.length).sum
  | list l => (l.map List.length).sum
  | set s => (s.toList.map fun m => (asBytes m).length).sum
  | zset z => (z.toList.map fun e => (asBytes e.1).length + 8).sum
  | rateLimiter rl => rl.buckets.length * 16 + 16
  | json doc => jsonApproxSize doc

def entrySize (key : String) (value : EntryValue) : ℕ := (asBytes key).length + value.size + 64

end Recached
