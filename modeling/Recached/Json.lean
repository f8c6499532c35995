import Recached.Lib.Binary64

/-!
# JSON documents

Documents, paths into them and merge patches.  Reading and printing documents is done by a library
outside the repository and appears as the parameter `Codec` of the store.  An object is kept as the
list of its fields in the order of their names.
-/

namespace Recached

inductive JsonNumber where
  | posInt (n : ℕ)
  | negInt (i : ℤ)
  | float (x : Binary64)
deriving DecidableEq

inductive Json where
  | null
  | bool (b : Bool)
  | number (n : JsonNumber)
  | string (s : String)
  | array (items : List Json)
  | object (fields : List (String × Json))

/-- The library that reads and prints JSON text; reading may fail with a message. -/
structure Codec where
  fromStr : String → Except String Json
  toStr : Json → String

inductive JsonPathSeg where
  | field (name : String)
  | index (i : ℕ)
deriving DecidableEq

def maxJsonPathDepth : ℕ := 128

/-- The segments of a path, at most `budget` of them. -/
def parseJsonSegs : (budget : ℕ) → List Char → Except String (List JsonPathSeg)
  | _, [] => .ok []
  | 0, _ :: _ => .error "ERR JSON path too deep"
  | budget + 1, c :: r =>
    let plain : Char → Bool := fun c => c != '.' && c != '['
    if c = '.' then
      if (r.takeWhile plain).isEmpty then .error "ERR invalid JSON path: empty field"
      else do
        let segs ← parseJsonSegs budget (r.dropWhile plain)
        .ok (.field (String.ofList (r.takeWhile plain)) :: segs)
    else if c = '[' then
      match r.dropWhile fun c => c != ']' with
      | [] => .error "ERR invalid JSON path: unterminated index"
      | _ :: rest =>
        match Decimal.parseU64 (Text.asBytes (String.ofList (r.takeWhile fun c => c != ']'))) with
        | none => .error "ERR invalid JSON path: bad index"
        | some i => do
          let segs ← parseJsonSegs budget rest
          .ok (.index i :: segs)
    else do
      let segs ← parseJsonSegs budget ((c :: r).dropWhile plain)
      .ok (.field (String.ofList ((c :: r).takeWhile plain)) :: segs)

def parseJsonPath (path : String) : Except String (List JsonPathSeg) :=
  match path.toList with
  | '$' :: rest => parseJsonSegs maxJsonPathDepth rest
  | chars => parseJsonSegs maxJsonPathDepth chars

namespace Json

def isNull : Json → Bool
  | null => true
  | _ => false

/-- Put a field into an object, keeping the fields in order. -/
def insertField (name : String) (v : Json) : List (String × Json) → List (String × Json)
  | [] => [(name, v)]
  | (n, w) :: rest =>
    if name < n then (name, v) :: (n, w) :: rest
    else if name = n then (name, v) :: rest
    else (n, w) :: insertField name v rest

def removeField (name : String) (fields : List (String × Json)) : List (String × Json) :=
  fields.filter fun f => f.1 != name

end Json

/-- Set a value at a path: the document afterwards, and the error if the path does not fit.  What
was created on the way to the error stays. -/
def jsonSetAt (value : Json) : List JsonPathSeg → Json → Json × Option String
  | [], _ => (value, none)
  | .field f :: rest, cur =>
    match if cur.isNull then Json.object [] else cur with
    | .object fields =>
      let (slot, error) := jsonSetAt value rest ((fields.lookup f).getD .null)
      (.object (Json.insertField f slot fields), error)
    | other => (other, some s!"ERR path segment '.{f}' is not an object")
  | .index i :: rest, cur =>
    match cur with
    | .array items =>
      let len := items.length
      match items[i]? with
      | some item =>
        let (slot, error) := jsonSetAt value rest item
        (.array (items.set i slot), error)
      | none => (.array items, some s!"ERR index {i} out of bounds (len {len})")
    | other => (other, some s!"ERR path segment '[{i}]' is not an array")

def jsonGetAt : List JsonPathSeg → Json → Option Json
  | [], cur => some cur
  | .field f :: rest, .object fields => (fields.lookup f).bind (jsonGetAt rest)
  | .index i :: rest, .array items => items[i]?.bind (jsonGetAt rest)
  | _, _ => none

mutual

/-- Merge a patch into a document: objects merge, a null removes its field, and any other patch
replaces the document. -/
def jsonMergePatch : (patch target : Json) → Json
  | .object fields, .object target => .object (mergeFields fields target)
  | .object fields, _ => .object (mergeFields fields [])
  | patch, _ => patch

def mergeFields : (patch target : List (String × Json)) → List (String × Json)
  | [], target => target
  | (name, v) :: rest, target =>
    if v.isNull then mergeFields rest (Json.removeField name target)
    else
      mergeFields rest
        (Json.insertField name (jsonMergePatch v ((target.lookup name).getD .null)) target)

end

mutual

def jsonApproxSize : Json → ℕ
  | .null | .bool _ => 8
  | .number _ => 16
  | .string s => (Text.asBytes s).length + 8
  | .array items => 8 + itemsApproxSize items
  | .object fields => 8 + fieldsApproxSize fields

def itemsApproxSize : List Json → ℕ
  | [] => 0
  | v :: rest => jsonApproxSize v + itemsApproxSize rest

def fieldsApproxSize : List (String × Json) → ℕ
  | [] => 0
  | (name, v) :: rest => (Text.asBytes name).length + jsonApproxSize v + fieldsApproxSize rest

end

end Recached
