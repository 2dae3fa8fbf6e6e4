import SwapDesk.Json.Numeral

/-! Reading JSON text one character at a time. A text with a fault still gives the values before the
fault, so that a decoder reports what comes first in the text. -/
namespace SwapDesk

/-- What a text spells. `broken` is no value; a container that is not `closed` has a fault after the
listed members. A numeral out of range and a text with half a surrogate pair have no value. `deep`
marks containers inside more than 126 others. -/
inductive Reading
  | broken
  | null
  | bool (b : Bool)
  | number (n : Option Number)
  | text (s : Option String)
  | list (items : List Reading) (closed : Bool)
  | record (members : List (Option String × Reading)) (closed : Bool)
  | deep (inner : Reading)

namespace Reading

instance : Inhabited Reading := ⟨.broken⟩

/-- An open container: its members so far, last first. `field` waits for the value of a key. -/
inductive Frame
  | list (items : List Reading)
  | record (members : List (Option String × Reading))
  | field (members : List (Option String × Reading)) (key : Option String)

/-- A quoted text under way: characters last first, and whether half a surrogate pair was seen. -/
structure Spelling where
  chars : List Char
  lone : Bool

/-- Inside an escape. `half` is a high surrogate that waits for its partner. -/
inductive Escape
  | none
  | slash
  | hex (missing : Nat) (value : Nat)
  | half (high : Nat)
  | halfSlash (high : Nat)
  | halfHex (high : Nat) (missing : Nat) (value : Nat)

/-- Inside a numeral: the part that the last character belongs to. -/
inductive NumeralPart
  | minus
  | zero
  | whole
  | point
  | fraction
  | mark
  | markSign
  | exponent
deriving DecidableEq

/-- What may come next. -/
inductive Expect
  | value
  | firstItem
  | firstKey
  | key
  | colon (key : Option String)
  | next
  | quoted (isKey : Bool) (s : Spelling) (escape : Escape)
  | numeral (lexeme : List Char) (part : NumeralPart)
  | word (rest : List Char) (value : Reading)
  | finished (r : Reading)
  | failed (r : Reading) (afterEnd : Bool)

structure Scan where
  stack : List Frame
  expect : Expect

def start : Scan := ⟨[], .value⟩

def maxDepth : Nat := 127

/-- A container inside the given open ones. -/
def nested (outer : List Frame) (r : Reading) : Reading :=
  if maxDepth ≤ outer.length then .deep r else r

/-- The containers left open when the text goes wrong. -/
def abandon : List Frame → Option Reading → Reading
  | [], inner => inner.getD .broken
  | .list items :: outer, inner =>
    abandon outer (some (nested outer (.list (inner.toList ++ items).reverse false)))
  | .record members :: outer, _ =>
    abandon outer (some (nested outer (.record members.reverse false)))
  | .field members key :: outer, inner =>
    abandon outer
      (some (nested outer (.record ((key, inner.getD .broken) :: members).reverse false)))

def fail (stack : List Frame) : Scan := ⟨[], .failed (abandon stack none) false⟩

/-- A complete value goes into the innermost container. -/
def push (stack : List Frame) (r : Reading) : Scan :=
  match stack with
  | [] => ⟨[], .finished r⟩
  | .list items :: outer => ⟨.list (r :: items) :: outer, .next⟩
  | .field members key :: outer => ⟨.record ((key, r) :: members) :: outer, .next⟩
  | .record _ :: _ => fail stack

def isSpace (c : Char) : Bool := c == ' ' || c == '\n' || c == '\t' || c == '\r'

/-- After a value inside a container, or after the whole text. -/
def stepNext (stack : List Frame) (c : Char) : Scan :=
  match stack, c with
  | .list items :: outer, ']' => push outer (nested outer (.list items.reverse true))
  | .list _ :: _, ',' => ⟨stack, .value⟩
  | .record members :: outer, '\x7d' =>
    push outer (nested outer (.record members.reverse true))
  | .record _ :: _, ',' => ⟨stack, .key⟩
  | _, _ => if isSpace c then ⟨stack, .next⟩ else fail stack

def stepValue (stack : List Frame) (c : Char) : Scan :=
  if c = '"' then ⟨stack, .quoted false ⟨[], false⟩ .none⟩
  else if c = '[' then ⟨.list [] :: stack, .firstItem⟩
  else if c = '\x7b' then ⟨.record [] :: stack, .firstKey⟩
  else if c = '-' then ⟨stack, .numeral [c] .minus⟩
  else if c = '0' then ⟨stack, .numeral [c] .zero⟩
  else if (digitValue? c).isSome then ⟨stack, .numeral [c] .whole⟩
  else if c = 't' then ⟨stack, .word ['r', 'u', 'e'] (.bool true)⟩
  else if c = 'f' then ⟨stack, .word ['a', 'l', 's', 'e'] (.bool false)⟩
  else if c = 'n' then ⟨stack, .word ['u', 'l', 'l'] .null⟩
  else if isSpace c then ⟨stack, .value⟩
  else fail stack

def stepKey (stack : List Frame) (c : Char) : Scan :=
  if c = '"' then ⟨stack, .quoted true ⟨[], false⟩ .none⟩
  else if isSpace c then ⟨stack, .key⟩
  else fail stack

/-- A key moves the record into the state that waits for the key's value. -/
def holdKey (stack : List Frame) (key : Option String) : List Frame :=
  match stack with
  | .record members :: outer => .field members key :: outer
  | _ => stack

def hexValue? (c : Char) : Option Nat :=
  if 'a' ≤ c ∧ c ≤ 'f' then some (c.toNat - 'a'.toNat + 10)
  else if 'A' ≤ c ∧ c ≤ 'F' then some (c.toNat - 'A'.toNat + 10)
  else digitValue? c

/-- The character of a one-letter escape. -/
def escaped? (c : Char) : Option Char :=
  if c = '"' ∨ c = '\\' ∨ c = '/' then some c
  else if c = 'b' then some (Char.ofNat 8)
  else if c = 'f' then some (Char.ofNat 12)
  else if c = 'n' then some '\n'
  else if c = 'r' then some '\r'
  else if c = 't' then some '\t'
  else none

def isHigh (n : Nat) : Bool := 0xD800 ≤ n && n < 0xDC00

def isLow (n : Nat) : Bool := 0xDC00 ≤ n && n < 0xE000

def Spelling.add (s : Spelling) (c : Char) : Spelling := ⟨c :: s.chars, s.lone⟩

def Spelling.spoil (s : Spelling) : Spelling := ⟨s.chars, true⟩

def Spelling.text? (s : Spelling) : Option String :=
  if s.lone then none else some (String.ofList s.chars.reverse)

/-- A complete `\u` escape without a partner before it. -/
def Spelling.unit (s : Spelling) (n : Nat) : Spelling × Escape :=
  if isHigh n then (s, .half n)
  else if isLow n then (s.spoil, .none)
  else (s.add (Char.ofNat n), .none)

/-- The end of a quoted text. -/
def stepQuote (stack : List Frame) (isKey : Bool) (s : Spelling) : Scan :=
  if isKey then ⟨holdKey stack s.text?, .colon s.text?⟩ else push stack (.text s.text?)

/-- A character of a quoted text outside escapes. -/
def stepPlain (stack : List Frame) (isKey : Bool) (s : Spelling) (c : Char) : Scan :=
  if c = '"' then stepQuote stack isKey s
  else if c = '\\' then ⟨stack, .quoted isKey s .slash⟩
  else if c.toNat < 32 then fail stack
  else ⟨stack, .quoted isKey (s.add c) .none⟩

def stepQuoted (stack : List Frame) (isKey : Bool) (s : Spelling) (escape : Escape) (c : Char) :
    Scan :=
  match escape with
  | .none => stepPlain stack isKey s c
  | .slash =>
    if c = 'u' then ⟨stack, .quoted isKey s (.hex 4 0)⟩
    else match escaped? c with
      | some d => ⟨stack, .quoted isKey (s.add d) .none⟩
      | none => fail stack
  | .hex missing value =>
    match hexValue? c with
    | none => fail stack
    | some d =>
      if missing ≤ 1 then
        let (s, escape) := s.unit (16 * value + d)
        ⟨stack, .quoted isKey s escape⟩
      else ⟨stack, .quoted isKey s (.hex (missing - 1) (16 * value + d))⟩
  | .half high =>
    if c = '\\' then ⟨stack, .quoted isKey s (.halfSlash high)⟩
    else stepPlain stack isKey s.spoil c
  | .halfSlash high =>
    if c = 'u' then ⟨stack, .quoted isKey s (.halfHex high 4 0)⟩
    else match escaped? c with
      | some d => ⟨stack, .quoted isKey (s.spoil.add d) .none⟩
      | none => fail stack
  | .halfHex high missing value =>
    match hexValue? c with
    | none => fail stack
    | some d =>
      let value := 16 * value + d
      if 1 < missing then ⟨stack, .quoted isKey s (.halfHex high (missing - 1) value)⟩
      else if isLow value then
        let point := 0x10000 + (high - 0xD800) * 0x400 + (value - 0xDC00)
        ⟨stack, .quoted isKey (s.add (Char.ofNat point)) .none⟩
      else
        let (s, escape) := s.spoil.unit value
        ⟨stack, .quoted isKey s escape⟩

/-- The part that `c` belongs to when it continues a numeral. -/
def NumeralPart.next? (part : NumeralPart) (c : Char) : Option NumeralPart :=
  let isDigit := (digitValue? c).isSome
  let isMark := c == 'e' || c == 'E'
  match part with
  | .minus => if c = '0' then some .zero else if isDigit then some .whole else none
  | .zero => if c = '.' then some .point else if isMark then some .mark else none
  | .whole =>
    if isDigit then some .whole
    else if c = '.' then some .point
    else if isMark then some .mark
    else none
  | .point => if isDigit then some .fraction else none
  | .fraction => if isDigit then some .fraction else if isMark then some .mark else none
  | .mark =>
    if c = '+' ∨ c = '-' then some .markSign else if isDigit then some .exponent else none
  | .markSign => if isDigit then some .exponent else none
  | .exponent => if isDigit then some .exponent else none

/-- A numeral may end here if `c` follows. -/
def NumeralPart.endsBefore (part : NumeralPart) (c : Option Char) : Bool :=
  match part with
  | .whole | .fraction | .exponent => true
  | .zero => !(c.any fun c => (digitValue? c).isSome)
  | _ => false

def stepNumeral (stack : List Frame) (lexeme : List Char) (part : NumeralPart) (c : Char) : Scan :=
  match part.next? c with
  | some part => ⟨stack, .numeral (c :: lexeme) part⟩
  | none =>
    if part.endsBefore (some c) then
      let scan := push stack (.number (Number.ofLexeme? lexeme.reverse))
      match scan.expect with
      | .next => stepNext scan.stack c
      | .finished r => if isSpace c then scan else ⟨[], .failed r true⟩
      | _ => scan
    else fail stack

def stepWord (stack : List Frame) (rest : List Char) (value : Reading) (c : Char) : Scan :=
  match rest with
  | [d] => if c = d then push stack value else fail stack
  | d :: rest => if c = d then ⟨stack, .word rest value⟩ else fail stack
  | [] => fail stack

def step (scan : Scan) (c : Char) : Scan :=
  let stack := scan.stack
  match scan.expect with
  | .value => stepValue stack c
  | .firstItem =>
    if c = ']' then stepNext stack c
    else if isSpace c then scan
    else stepValue stack c
  | .firstKey =>
    if c = '\x7d' then stepNext stack c
    else if isSpace c then scan
    else stepKey stack c
  | .key => stepKey stack c
  | .colon key =>
    if c = ':' then ⟨stack, .value⟩
    else if isSpace c then ⟨stack, .colon key⟩
    else fail stack
  | .next => stepNext stack c
  | .quoted isKey s escape => stepQuoted stack isKey s escape c
  | .numeral lexeme part => stepNumeral stack lexeme part c
  | .word rest value => stepWord stack rest value c
  | .finished r => if isSpace c then scan else ⟨[], .failed r true⟩
  | .failed _ _ => scan

/-- What was read, and whether nothing but the value was there. -/
def Scan.result (scan : Scan) : Reading × Bool :=
  match scan.expect with
  | .finished r => (r, true)
  | .failed r afterEnd => (r, !afterEnd)
  | .numeral lexeme part =>
    if scan.stack.isEmpty ∧ part.endsBefore none then
      (.number (Number.ofLexeme? lexeme.reverse), true)
    else (abandon scan.stack none, true)
  | _ => (abandon scan.stack none, true)

def ofChars (cs : List Char) : Reading × Bool := (cs.foldl step start).result

mutual

/-- The reading that spells a value. -/
def ofJson : Json → Reading
  | .null => .null
  | .bool b => .bool b
  | .number n => .number (some n)
  | .text s => .text (some s)
  | .list items => .list (ofItems items) true
  | .record fields => .record (ofFields fields) true

def ofItems : List Json → List Reading
  | [] => []
  | x :: xs => ofJson x :: ofItems xs

def ofFields : List (String × Json) → List (Option String × Reading)
  | [] => []
  | (k, x) :: fields => (some k, ofJson x) :: ofFields fields

end

mutual

/-- The text has no fault of form: numerals may be out of range and depth does not matter. -/
def isWhole : Reading → Bool
  | .broken => false
  | .list items closed => closed && areWhole items
  | .record members closed => closed && membersWhole members
  | .deep inner => inner.isWhole
  | _ => true

def areWhole : List Reading → Bool
  | [] => true
  | r :: rest => r.isWhole && areWhole rest

def membersWhole : List (Option String × Reading) → Bool
  | [] => true
  | (_, r) :: rest => r.isWhole && membersWhole rest

end

end Reading

end SwapDesk
