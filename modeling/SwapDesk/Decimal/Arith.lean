import SwapDesk.Decimal.Basic
import SwapDesk.Rounding

/-! Arithmetic on decimals. Results keep the exact scale where it fits; a result that does not fit
loses as few digits as needed, rounded half to even; `none` is a result out of range. -/
namespace SwapDesk

namespace Decimal

def ofSign? (negative : Bool) (n scale : Nat) : Option Decimal :=
  ofParts? (if negative then -(n : Int) else n) scale

/-- The number `± n / 10 ^ scale` with as few digits dropped as fit the bounds. -/
def fit? (negative : Bool) (n scale : Nat) : Option Decimal := do
  let dropped ← (List.range (scale + 1)).find? fun k =>
    scale ≤ maxScale + k ∧ roundHalfEven n (pow10 k) < coefficientBound
  ofSign? negative (roundHalfEven n (pow10 dropped)) (scale - dropped)

/-- The difference in sign of two factors. -/
def signsDiffer (a b : Decimal) : Bool := a.isNegative != b.isNegative

/-- A product with zero is the plain zero, and so is a product of two coefficients below `2 ^ 32`
with more than 47 fraction digits. -/
def mul? (a b : Decimal) : Option Decimal :=
  if a.isZero ∨ b.isZero then some zero
  else if a.mantissa.natAbs < pow2 32 ∧ b.mantissa.natAbs < pow2 32 ∧ 47 < a.scale + b.scale then
    some zero
  else
    fit? (signsDiffer a b) (a.mantissa.natAbs * b.mantissa.natAbs) (a.scale + b.scale)

/-- Adding zero changes nothing, not even the scale. -/
def add? (a b : Decimal) : Option Decimal :=
  if a.isZero then some b
  else if b.isZero then some a
  else
    let scale := max a.scale b.scale
    let sum := a.mantissa * pow10 (scale - a.scale) + b.mantissa * pow10 (scale - b.scale)
    fit? (sum < 0) sum.natAbs scale

def sub? (a b : Decimal) : Option Decimal := a.add? b.neg

/-- A quotient in the making: digits so far, what is left to divide, and whether digits behind the
natural scale were needed. A scale below zero is made up for at the end. -/
structure Quotient where
  digits : Nat
  rest : Nat
  scale : Int
  extended : Bool

namespace Quotient

/-- How many of the next nine digits fit behind the others. -/
def room (q : Quotient) : Nat :=
  let fits (x : Nat) : Bool :=
    q.scale + x ≤ maxScale && q.digits * pow10 x < coefficientBound
  ((List.range 10).reverse.find? fits).getD 0

/-- The next `x` digits. -/
def extend (q : Quotient) (divisor x : Nat) : Quotient :=
  { q with
    digits := q.digits * pow10 x + q.rest * pow10 x / divisor
    rest := q.rest * pow10 x % divisor
    scale := q.scale + x }

/-- Drops the last digit of a coefficient that is too great. -/
def shorten? (q : Quotient) : Option Quotient :=
  if q.digits < coefficientBound then some q
  else if q.scale ≤ 0 then none
  else
    let sticky : Nat := if q.rest = 0 then 0 else 1
    some { q with digits := roundHalfEven (2 * q.digits + sticky) 20, scale := q.scale - 1 }

/-- Rounds what is left, half to even. -/
def round? (q : Quotient) (divisor : Nat) : Option Quotient :=
  shorten? { q with digits := roundHalfEven (q.digits * divisor + q.rest) divisor }

/-- Divides on, nine digits at a time, until nothing is left or no digit fits any more. -/
def finish? (divisor : Nat) : Nat → Quotient → Option Quotient
  | 0, q => some q
  | fuel + 1, q =>
    if q.rest = 0 then
      if 0 ≤ q.scale then some q
      else
        let q := q.extend divisor (min 9 q.scale.natAbs)
        if q.digits < coefficientBound then finish? divisor fuel q else none
    else
      let x : Nat := q.room
      let q : Quotient := { q with extended := true }
      if x < 9 ∧ q.scale + (x : Int) < 0 then none
      else if x = 0 then q.round? divisor
      else
        let q := q.extend divisor x
        if q.digits < coefficientBound then finish? divisor fuel q else q.shorten?

/-- Takes `k` zeros off the end, if they are there and behind the point. -/
def strip (k : Nat) (q : Quotient) : Quotient :=
  if k ≤ q.scale ∧ q.digits % pow10 k = 0 then
    { q with digits := q.digits / pow10 k, scale := q.scale - k }
  else q

/-- Takes eight zeros at a time off a multiple of `2 ^ 32`. -/
def stripEights : Nat → Quotient → Quotient
  | 0, q => q
  | fuel + 1, q =>
    if q.digits % pow2 32 = 0 ∧ 8 ≤ q.scale ∧ q.digits % pow10 8 = 0 then
      stripEights fuel (q.strip 8)
    else q

/-- Takes zeros off the end of an extended quotient: eights, then up to seven. -/
def tidy (q : Quotient) : Quotient :=
  if q.extended then ((q.stripEights 4 |>.strip 4).strip 2).strip 1 else q

end Quotient

/-- A quotient keeps the difference of the scales if it is exact there. Any other is extended to as
many digits as it needs or as fit. Division by zero has no result. -/
def div? (a b : Decimal) : Option Decimal := do
  let n := a.mantissa.natAbs
  let d := b.mantissa.natAbs
  if d = 0 then none
  else if n = 0 then some zero
  else
    let scale : Int := a.scale - b.scale
    let q ← Quotient.finish? d (2 * maxScale + 1) ⟨n / d, n % d, scale, false⟩
    ofSign? (signsDiffer a b) q.tidy.digits q.tidy.scale.toNat

end Decimal

end SwapDesk
