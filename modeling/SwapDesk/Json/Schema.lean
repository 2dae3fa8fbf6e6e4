import SwapDesk.Decimal.Basic
import SwapDesk.Json.Reading

/-! Decoding of JSON into typed values. Fields of a record are taken in the order of the text: the
first fault in the text is the one reported, and missing fields are looked for afterwards in the order
of declaration. -/
namespace SwapDesk

/-- The sort of value that a decoder met. -/
inductive Found
  | null
  | bool (b : Bool)
  | whole (n : Int)
  | float (f : Binary64)
  | text (s : String)
  | list
  | record

/-- Why a text or value was not accepted. `illFormed` is a text that is no JSON. -/
inductive Fault
  | illFormed
  | missing (field : String)
  | duplicate (field : String)
  | variant (found : String) (allowed : List String)
  | kind (found : Found) (expected : String)
  | value (found : Found) (expected : String)
  | count (n : Nat) (expected : String)
  | refused (reason : String)

def ticked (s : String) : String := "`" ++ s ++ "`"

/-- A character inside a quoted text of a message. -/
def printable (c : Char) : List Char :=
  if c = '"' then ['\\', '"']
  else if c = '\\' then ['\\', '\\']
  else if c = '\n' then ['\\', 'n']
  else if c = '\r' then ['\\', 'r']
  else if c = '\t' then ['\\', 't']
  else if c.toNat = 0 then ['\\', '0']
  else if c.toNat < 32 ∨ (127 ≤ c.toNat ∧ c.toNat < 160) then
    '\\' :: 'u' :: '\x7b' :: (Nat.toDigits 16 c.toNat ++ ['\x7d'])
  else [c]

def Found.describe : Found → String
  | .null => "null"
  | .bool true => "boolean `true`"
  | .bool false => "boolean `false`"
  | .whole n => "integer " ++ ticked (toString n)
  | .float f => "floating point " ++ ticked f.toText
  | .text s => "string " ++ String.ofList ('"' :: (s.toList.flatMap printable ++ ['"']))
  | .list => "sequence"
  | .record => "map"

def describeAllowed : List String → String
  | [a, b] => "expected " ++ ticked a ++ " or " ++ ticked b
  | [a] => "expected " ++ ticked a
  | allowed => "expected one of " ++ ", ".intercalate (allowed.map ticked)

def Fault.message : Fault → String
  | .illFormed => "invalid JSON"
  | .missing field => "missing field " ++ ticked field
  | .duplicate field => "duplicate field " ++ ticked field
  | .variant found allowed =>
    "unknown variant " ++ ticked found ++ ", " ++ describeAllowed allowed
  | .kind found expected => "invalid type: " ++ found.describe ++ ", expected " ++ expected
  | .value found expected => "invalid value: " ++ found.describe ++ ", expected " ++ expected
  | .count n expected => "invalid length " ++ toString n ++ ", expected " ++ expected
  | .refused reason => reason

abbrev Decoder (α : Type) := Reading → Except Fault α

namespace Decoder

variable {α β : Type}

/-- The value of a whole text. -/
def ofText (decode : Decoder α) (s : String) : Except Fault α := do
  let (reading, clean) := Reading.ofChars s.toList
  let x ← decode reading
  if clean then return x else throw .illFormed

def ofJson (decode : Decoder α) (j : Json) : Except Fault α := decode (Reading.ofJson j)

/-- The fault of a reading that has another sort than the expected one. -/
def mismatch (expected : String) : Reading → Fault
  | .null => .kind .null expected
  | .bool b => .kind (.bool b) expected
  | .number (some (.whole n)) => .kind (.whole n) expected
  | .number (some (.float f)) => .kind (.float f) expected
  | .text (some s) => .kind (.text s) expected
  | .list _ _ => .kind .list expected
  | .record _ _ => .kind .record expected
  | _ => .illFormed

def text : Decoder String
  | .text (some s) => .ok s
  | r => .error (mismatch "a string" r)

/-- A whole number of at least `low` and below `high`. -/
def wholeIn (low high : Int) (name : String) : Decoder Int
  | .number (some (.whole n)) =>
    if low ≤ n ∧ n < high then .ok n else .error (.value (.whole n) name)
  | r => .error (mismatch name r)

def word64 : Decoder Nat := fun r => Int.toNat <$> wholeIn 0 (pow2 64) "u64" r

def word32 : Decoder Nat := fun r => Int.toNat <$> wholeIn 0 (pow2 32) "u32" r

def int64 : Decoder Int := wholeIn (-pow2 63) (pow2 63) "i64"

def decimalName : String := "a Decimal type representing a fixed-point number"

/-- A decimal is a text or a number; a number with a fraction stands for its shortest decimal. -/
def decimal : Decoder Decimal
  | .text (some s) =>
    match Decimal.ofText? s with
    | some d => .ok d
    | none => .error (.value (.text s) decimalName)
  | .number (some (.whole n)) =>
    match Decimal.ofParts? n 0 with
    | some d => .ok d
    | none => .error (.value (.whole n) decimalName)
  | .number (some (.float f)) =>
    match Decimal.readPlain? f.toPlainText.toList with
    | some d => .ok d
    | none => .error (.value (.float f) decimalName)
  | r => .error (mismatch decimalName r)

/-- A missing value is written as null. -/
def optional (decode : Decoder α) : Decoder (Option α)
  | .null => .ok none
  | r => some <$> decode r

mutual

/-- Any value; of two fields with one name the last counts, and fields come in key order. -/
def json : Decoder Json
  | .null => .ok .null
  | .bool b => .ok (.bool b)
  | .number (some n) => .ok (.number n)
  | .text (some s) => .ok (.text s)
  | .list items closed => do
    let items ← jsonItems items
    if closed then return .list items else throw .illFormed
  | .record members closed => do
    let fields ← jsonFields [] members
    if closed then return .record fields else throw .illFormed
  | _ => .error .illFormed

def jsonItems : List Reading → Except Fault (List Json)
  | [] => .ok []
  | r :: rest => do
    let x ← json r
    return x :: (← jsonItems rest)

def jsonFields (fields : List (String × Json)) :
    List (Option String × Reading) → Except Fault (List (String × Json))
  | [] => .ok fields
  | (key, r) :: rest => do
    let some k := key | throw .illFormed
    jsonFields (insertSorted k (← json r) fields) rest

end

def dictFrom (decode : Decoder α) (d : Dict α) :
    List (Option String × Reading) → Except Fault (Dict α)
  | [] => .ok d
  | (key, r) :: rest => do
    let some k := key | throw .illFormed
    dictFrom decode (d.insert k (← decode r)) rest

/-- A map with arbitrary keys; the last of two equal keys counts. -/
def dict (decode : Decoder α) : Decoder (Dict α)
  | .record members closed => do
    let d ← dictFrom decode .empty members
    if closed then return d else throw .illFormed
  | r => .error (mismatch "a map" r)

/-- One of finitely many names; the name may also be the only key of an object with a null. -/
def variant (names : List (String × α)) : Decoder α
  | .text (some s) => pick s
  | .record ((some k, r) :: rest) closed => do
    let x ← pick k
    match r, rest, closed with
    | .null, [], true => return x
    | _, _, _ => throw .illFormed
  | .record _ _ => .error .illFormed
  | r => .error (mismatch "string or map" r)
where
  pick (s : String) : Except Fault α :=
    match lookup s names with
    | some x => .ok x
    | none => .error (.variant s (names.map Prod.fst))

/-- A value whose number of keys is known before the first is read. -/
def variantOfJson (names : List (String × α)) : Json → Except Fault α
  | .record fields =>
    if fields.length = 1 then ofJson (variant names) (.record fields)
    else .error (.value .record "map with a single key")
  | j => ofJson (variant names) j

end Decoder

/-- A named field: how its value is checked and whether it must be there. -/
structure Field where
  name : String
  check : Reading → Except Fault Unit
  required : Bool

/-- The fields of a record in order of declaration, and how the record is made from them. -/
structure Schema (α : Type) where
  fields : List Field
  build : (String → Option Reading) → Except Fault α

namespace Schema

variable {α β : Type}

instance : Functor Schema where
  map f s := ⟨s.fields, fun r => f <$> s.build r⟩

instance : Seq Schema where
  seq s t :=
    let t := t ()
    ⟨s.fields ++ t.fields, fun r => do
      let f ← s.build r
      return f (← t.build r)⟩

def required (name : String) (decode : Decoder α) : Schema α :=
  ⟨[⟨name, fun r => do let _ ← decode r, true⟩], fun readings =>
    match readings name with
    | some r => decode r
    | none => .error (.missing name)⟩

def defaulting (name : String) (decode : Decoder α) (value : α) : Schema α :=
  ⟨[⟨name, fun r => do let _ ← decode r, false⟩], fun readings =>
    match readings name with
    | some r => decode r
    | none => .ok value⟩

/-- A field that may be missing or null. -/
def optional (name : String) (decode : Decoder α) : Schema (Option α) :=
  defaulting name (Decoder.optional decode) none

/-- The known fields of an object, checked in the order of the text. -/
def gather (fields : List Field) (seen : List (String × Reading)) :
    List (Option String × Reading) → Except Fault (List (String × Reading))
  | [] => .ok seen
  | (key, r) :: rest => do
    let some k := key | throw .illFormed
    match fields.find? (·.name == k) with
    | none => if r.isWhole then gather fields seen rest else throw .illFormed
    | some f =>
      if (lookup k seen).isSome then throw (.duplicate k)
      f.check r
      gather fields ((k, r) :: seen) rest

/-- The fields of an array, taken in order of declaration. -/
def gatherItems (expected : String) (seen : List (String × Reading)) :
    List Field → List Reading → Except Fault (List (String × Reading))
  | [], [] => .ok seen
  | [], r :: rest => .error (.count (seen.length + (r :: rest).length) "fewer elements in array")
  | f :: fields, [] =>
    if f.required then .error (.count seen.length expected)
    else gatherItems expected seen fields []
  | f :: fields, r :: rest => do
    f.check r
    gatherItems expected ((f.name, r) :: seen) fields rest

/-- A record called `name`: an object with its fields, or an array of them. -/
def decoder (name : String) (s : Schema α) : Decoder α
  | .record members closed => do
    let seen ← gather s.fields [] members
    if !closed then throw .illFormed
    match s.fields.find? fun f => f.required && (lookup f.name seen).isNone with
    | some f => throw (.missing f.name)
    | none => s.build fun k => lookup k seen
  | .list items closed => do
    let n := s.fields.length
    let elements := if n = 1 then " with 1 element" else " with " ++ toString n ++ " elements"
    let seen ← gatherItems ("struct " ++ name ++ elements) [] s.fields items
    if !closed then throw .illFormed
    s.build fun k => lookup k seen
  | r => .error (Decoder.mismatch ("struct " ++ name) r)

end Schema

end SwapDesk
