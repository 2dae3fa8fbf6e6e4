import SwapDesk.Binary64.Shortest
import SwapDesk.Dict

/-! JSON values and their two written forms. An object lists its fields in the order in which they
are written. -/
namespace SwapDesk

/-- A whole number between `-2 ^ 63` and `2 ^ 64 - 1`, or a binary64 number. -/
inductive Number
  | whole (n : Int)
  | float (f : Binary64)
deriving DecidableEq

def Number.toText : Number → String
  | .whole n => toString n
  | .float f => f.toText

inductive Json
  | null
  | bool (b : Bool)
  | number (n : Number)
  | text (s : String)
  | list (items : List Json)
  | record (fields : List (String × Json))

namespace Json

instance : Inhabited Json := ⟨.null⟩

def int (n : Int) : Json := .number (.whole n)

def ofOption {α : Type} (f : α → Json) : Option α → Json
  | none => .null
  | some x => f x

def ofDict {α : Type} (f : α → Json) (d : Dict α) : Json :=
  .record (d.entries.map fun e => (e.1, f e.2))

def texts (l : List String) : Json := .list (l.map .text)

def hexDigit (n : Nat) : Char := (Nat.digitChar n)

/-- Quotes, backslashes and controls are escaped; everything else stands for itself. -/
def escapeChar (c : Char) : List Char :=
  if c = '"' then ['\\', '"']
  else if c = '\\' then ['\\', '\\']
  else if c = '\n' then ['\\', 'n']
  else if c = '\r' then ['\\', 'r']
  else if c = '\t' then ['\\', 't']
  else if c.toNat = 8 then ['\\', 'b']
  else if c.toNat = 12 then ['\\', 'f']
  else if c.toNat < 32 then
    ['\\', 'u', '0', '0', hexDigit (c.toNat / 16), hexDigit (c.toNat % 16)]
  else [c]

def quote (s : String) : List Char := '"' :: (s.toList.flatMap escapeChar ++ ['"'])

/-- The line of a layout: with a depth, a new line indented by two blanks for each level. -/
def lineBreak : Option Nat → List Char
  | none => []
  | some depth => '\n' :: List.replicate (2 * depth) ' '

def colon : Option Nat → List Char
  | none => [':']
  | some _ => [':', ' ']

mutual

/-- The written form: without a depth on one line and without blanks, with a depth one item a
line, indented from that depth on. -/
def render (depth : Option Nat) : Json → List Char
  | .null => ['n', 'u', 'l', 'l']
  | .bool true => ['t', 'r', 'u', 'e']
  | .bool false => ['f', 'a', 'l', 's', 'e']
  | .number n => n.toText.toList
  | .text s => quote s
  | .list [] => ['[', ']']
  | .list (x :: xs) =>
    '[' :: (lineBreak (depth.map (· + 1)) ++ render (depth.map (· + 1)) x ++
      renderItems (depth.map (· + 1)) xs ++ lineBreak depth ++ [']'])
  | .record [] => ['\x7b', '\x7d']
  | .record ((k, x) :: fields) =>
    '\x7b' :: (lineBreak (depth.map (· + 1)) ++ quote k ++ colon depth ++
      render (depth.map (· + 1)) x ++ renderFields (depth.map (· + 1)) fields ++
      lineBreak depth ++ ['\x7d'])

def renderItems (depth : Option Nat) : List Json → List Char
  | [] => []
  | x :: xs => ',' :: (lineBreak depth ++ render depth x ++ renderItems depth xs)

def renderFields (depth : Option Nat) : List (String × Json) → List Char
  | [] => []
  | (k, x) :: fields =>
    ',' :: (lineBreak depth ++ quote k ++ colon depth ++ render depth x ++
      renderFields depth fields)

end

def compact (j : Json) : String := String.ofList (j.render none)

def pretty (j : Json) : String := String.ofList (j.render (some 0))

/-- The field `k` of an object. -/
def field? (j : Json) (k : String) : Option Json :=
  match j with
  | .record fields => lookup k fields
  | _ => none

end Json

end SwapDesk
