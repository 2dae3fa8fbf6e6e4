import SwapDesk.Power
import SwapDesk.Rounding

/-! Finite binary64 numbers and the rounding of rationals to them. -/
namespace SwapDesk

/-- The number `± significand · 2 ^ exponent`. Results of rounding have a significand below `2 ^ 53`
and the least exponent, not below -1074, for which that holds. -/
structure Binary64 where
  negative : Bool
  significand : Nat
  exponent : Int
deriving DecidableEq, Inhabited

namespace Binary64

def leastExponent : Int := -1074

def greatestExponent : Int := 971

def zero (negative : Bool) : Binary64 := ⟨negative, 0, leastExponent⟩

def isZero (f : Binary64) : Bool := f.significand == 0

/-- `n / d` in units of `2 ^ e`, as numerator and denominator. -/
def inUnits (n d : Nat) (e : Int) : Nat × Nat :=
  if 0 ≤ e then (n, d * pow2 e.toNat) else (n * pow2 (-e).toNat, d)

/-- The binary64 number nearest to `± n / d`, halfway to even; `none` beyond the greatest. -/
def ofRatio? (negative : Bool) (n d : Nat) : Option Binary64 :=
  if n = 0 then some (zero negative)
  else
    let guess : Int := (n.log2 : Int) - d.log2 - 52
    let (a, b) := inUnits n d guess
    let e := max (if a / b < pow2 52 then guess - 1 else guess) leastExponent
    let (a, b) := inUnits n d e
    let m := roundHalfEven a b
    let (m, e) := if m = pow2 53 then (pow2 52, e + 1) else (m, e)
    if greatestExponent < e then none else some ⟨negative, m, e⟩

/-- The nearest number to `± n / d · 2 ^ e`. -/
def ofScaled? (negative : Bool) (n d : Nat) (e : Int) : Option Binary64 :=
  if 0 ≤ e then ofRatio? negative (n * pow2 e.toNat) d
  else ofRatio? negative n (d * pow2 (-e).toNat)

def mul? (f g : Binary64) : Option Binary64 :=
  ofScaled? (f.negative != g.negative) (f.significand * g.significand) 1 (f.exponent + g.exponent)

/-- The divisor is not zero. -/
def div? (f g : Binary64) : Option Binary64 :=
  ofScaled? (f.negative != g.negative) f.significand g.significand (f.exponent - g.exponent)

/-- The nearest number to `± n · 10 ^ k`. -/
def ofDecimal? (negative : Bool) (n : Nat) (k : Int) : Option Binary64 :=
  if 0 ≤ k then ofRatio? negative (n * pow10 k.toNat) 1 else ofRatio? negative n (pow10 (-k).toNat)

end Binary64

end SwapDesk
