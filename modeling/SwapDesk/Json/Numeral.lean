import SwapDesk.Json.Basic
import SwapDesk.Decimal.Read

/-! The value of a JSON numeral. Digits are gathered in a 64-bit word; a numeral with a fraction, an
exponent or more digits than fit is a binary64 number, computed from the word and one power of
ten. -/
namespace SwapDesk

namespace Number

def wordBound : Nat := pow2 64

/-- The digits of a numeral as far as the word takes them, and the power of ten still owed. -/
structure Gathered where
  word : Nat
  power : Int

/-- Digits before the point: once a digit does not fit, it and all later ones only count. -/
def gatherWhole : Gathered → List Char → Gathered
  | g, [] => g
  | g, c :: rest =>
    let next := 10 * g.word + (digitValue? c).getD 0
    if g.power = 0 ∧ next < wordBound then gatherWhole ⟨next, 0⟩ rest
    else gatherWhole ⟨g.word, g.power + 1⟩ rest

/-- Digits after the point: once a digit does not fit, it and all later ones are dropped. -/
def gatherFraction : Gathered → List Char → Gathered
  | g, [] => g
  | g, c :: rest =>
    let next := 10 * g.word + (digitValue? c).getD 0
    if next < wordBound then gatherFraction ⟨next, g.power - 1⟩ rest else g

/-- The binary64 power `10 ^ k`, `k` up to 308. -/
def tenTo (k : Nat) : Binary64 := (Binary64.ofDecimal? false 1 k).getD (Binary64.zero false)

/-- Powers below `10 ^ -308` are taken in steps of 308 as long as something is left. -/
def scaleDown : Nat → Binary64 → Nat → Option Binary64
  | 0, f, _ => some f
  | fuel + 1, f, k =>
    if f.isZero then some f
    else if k ≤ 308 then f.div? (tenTo k)
    else do scaleDown fuel (← f.div? (tenTo 308)) (k - 308)

/-- The word times the power; `none` beyond the greatest binary64 number. -/
def Gathered.toFloat? (g : Gathered) (negative : Bool) : Option Binary64 := do
  let f ← Binary64.ofRatio? negative g.word 1
  if g.word = 0 then some f
  else if g.power < 0 then scaleDown (g.power.natAbs + 1) f g.power.natAbs
  else if g.power ≤ 308 then f.mul? (tenTo g.power.toNat)
  else none

/-- A numeral in its parts; the exponent is given by its sign and digits. -/
structure Parts where
  negative : Bool
  whole : List Char
  fraction : List Char
  exponent : Option (Bool × List Char)

/-- An exponent has at most 31 bits; a longer one gives zero or is out of range. -/
def exponentBound : Nat := pow2 31

def Parts.value? (p : Parts) : Option Number :=
  let g := gatherWhole ⟨0, 0⟩ p.whole
  if p.fraction.isEmpty ∧ p.exponent.isNone ∧ g.power = 0 ∧
      (!p.negative ∨ (0 < g.word ∧ g.word ≤ pow2 63)) then
    some (.whole (if p.negative then -(g.word : Int) else g.word))
  else
    let g := gatherFraction g p.fraction
    match p.exponent with
    | none => (g.toFloat? p.negative).map .float
    | some (down, digits) =>
      let e := (naturalOf? digits).getD 0
      if e < exponentBound then
        ((⟨g.word, g.power + if down then -(e : Int) else e⟩ : Gathered).toFloat? p.negative).map .float
      else if down ∨ g.word = 0 then some (.float (.zero p.negative))
      else none

/-- Splits a well-formed numeral. -/
def Parts.ofLexeme (cs : List Char) : Parts :=
  let (negative, cs) := match cs with
    | '-' :: rest => (true, rest)
    | _ => (false, cs)
  let isDigit := fun c => (digitValue? c).isSome
  let whole := cs.takeWhile isDigit
  let rest := cs.dropWhile isDigit
  let (fraction, rest) := match rest with
    | '.' :: rest => (rest.takeWhile isDigit, rest.dropWhile isDigit)
    | _ => ([], rest)
  let exponent := match rest with
    | _ :: '-' :: digits => some (true, digits)
    | _ :: '+' :: digits => some (false, digits)
    | _ :: digits => some (false, digits)
    | [] => none
  ⟨negative, whole, fraction, exponent⟩

/-- The value of a well-formed numeral, if it is in range. -/
def ofLexeme? (cs : List Char) : Option Number := (Parts.ofLexeme cs).value?

end Number

end SwapDesk
