import SwapDesk.Decimal.Basic

/-! Texts of decimals: plain (`-12.50`, `1_000`, `.5`) and with an exponent (`1.5e-8`). -/
namespace SwapDesk

def digitValue? (c : Char) : Option Nat :=
  if '0' ≤ c ∧ c ≤ '9' then some (c.toNat - '0'.toNat) else none

/-- The value of a non-empty run of digits. -/
def naturalOf? (cs : List Char) : Option Nat :=
  if cs.isEmpty then none
  else cs.foldl (fun acc c => do return 10 * (← acc) + (← digitValue? c)) (some 0)

namespace Decimal

def ofMagnitude? (negative : Bool) (n scale : Nat) : Option Decimal :=
  ofParts? (if negative then -(n : Int) else n) scale

/-- Ends a text that has no room for the digit `c`: five and above rounds up, and whatever
follows `c` is not looked at. -/
def roundAt? (negative : Bool) (n scale : Nat) (c : Char) : Option Decimal := do
  let digit ← if c = '_' ∨ c = '.' then some 0 else digitValue? c
  if digit < 5 then ofMagnitude? negative n scale
  else if n + 1 < coefficientBound then ofMagnitude? negative (n + 1) scale
  else if scale = 0 then none
  else ofMagnitude? negative ((n + 5) / 10) (scale - 1)

/-- Reads on after a coefficient `n` with `scale` fraction digits. `digits` tells whether a digit
was seen and `point` whether the point was. -/
def readFrom? (negative point digits : Bool) (n scale : Nat) : List Char → Option Decimal
  | [] => if digits then ofMagnitude? negative n scale else none
  | c :: rest =>
    if point ∧ maxScale ≤ scale then roundAt? negative n scale c
    else if c = '.' ∧ ¬ point then readFrom? negative true digits n scale rest
    else if c = '_' ∧ digits then readFrom? negative point digits n scale rest
    else match digitValue? c with
      | none => none
      | some d =>
        if 10 * n + d < coefficientBound then
          readFrom? negative point true (10 * n + d) (if point then scale + 1 else 0) rest
        else if point then roundAt? negative n scale c
        else none

/-- A text without an exponent. -/
def readPlain? : List Char → Option Decimal
  | '-' :: rest => readFrom? true false false 0 0 rest
  | '+' :: rest => readFrom? false false false 0 0 rest
  | cs => readFrom? false false false 0 0 cs

/-- An exponent's digits, below `2 ^ 32`; a plus sign may stand before them. -/
def exponent? (cs : List Char) : Option Nat := do
  let digits := match cs with
    | '+' :: rest => rest
    | _ => cs
  let n ← naturalOf? digits
  if n < pow2 32 then some n else none

/-- Moves the point `e` places to the left. Scales are added as 32-bit words. -/
def shiftDown? (a : Decimal) (e : Nat) : Option Decimal :=
  ofParts? a.mantissa ((a.scale + e) % pow2 32)

/-- Moves the point `e` places to the right. -/
def shiftUp? (a : Decimal) (e : Nat) : Option Decimal :=
  if e ≤ a.scale then ofParts? a.mantissa (a.scale - e)
  else if maxScale < e then none
  else ofParts? (a.mantissa * pow10 (e - a.scale)) 0

/-- A text with an exponent behind the first `e` or `E`. -/
def readScientific? (cs : List Char) : Option Decimal := do
  let isMark : Char → Bool := fun c => c == 'e' || c == 'E'
  let base ← readPlain? (cs.takeWhile fun c => !isMark c)
  match cs.dropWhile fun c => !isMark c with
  | [] => none
  | _ :: '-' :: digits => base.shiftDown? (← exponent? digits)
  | _ :: digits => base.shiftUp? (← exponent? digits)

def ofText? (text : String) : Option Decimal :=
  readPlain? text.toList <|> readScientific? text.toList

end Decimal

end SwapDesk
