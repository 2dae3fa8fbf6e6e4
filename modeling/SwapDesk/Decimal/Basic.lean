import SwapDesk.Power

/-! Decimal numbers with a 96-bit coefficient and up to 28 fraction digits. The scale is part of
a number (`1.50` and `1.5` differ) but not of its value. -/
namespace SwapDesk

/-- The least magnitude that no coefficient reaches. -/
def coefficientBound : Nat := pow2 96

def maxScale : Nat := 28

/-- The number `mantissa / 10 ^ scale`. -/
structure Decimal where
  mantissa : Int
  scale : Nat
  mantissa_lt : mantissa.natAbs < coefficientBound
  scale_le : scale ≤ maxScale
deriving DecidableEq

namespace Decimal

variable {a b : Decimal}

theorem ext (hm : a.mantissa = b.mantissa) (hs : a.scale = b.scale) : a = b := by
  cases a
  cases b
  cases hm
  cases hs
  rfl

/-- The number `m / 10 ^ s`, if it is within the bounds. -/
def ofParts? (m : Int) (s : Nat) : Option Decimal :=
  if hm : m.natAbs < coefficientBound then
    if hs : s ≤ maxScale then some ⟨m, s, hm, hs⟩ else none
  else none

/-- A whole number below `2 ^ 64`. -/
def ofSmall (n : Nat) (h : n < pow2 64) : Decimal :=
  ⟨n, 0, Nat.lt_trans h (by decide), Nat.zero_le _⟩

def zero : Decimal := ofSmall 0 (by decide)

def one : Decimal := ofSmall 1 (by decide)

instance : Inhabited Decimal := ⟨zero⟩

def neg (a : Decimal) : Decimal :=
  ⟨-a.mantissa, a.scale, by rw [Int.natAbs_neg]; exact a.mantissa_lt, a.scale_le⟩

def isZero (a : Decimal) : Bool := a.mantissa == 0

/-- Zero counts as not negative. -/
def isNegative (a : Decimal) : Bool := a.mantissa < 0

/-- Order of the values: the scale does not count. -/
def cmp (a b : Decimal) : Ordering :=
  compare (a.mantissa * pow10 b.scale) (b.mantissa * pow10 a.scale)

/-- Equality of the values. -/
def sameValue (a b : Decimal) : Bool := a.cmp b == .eq

theorem sameValue_iff :
    a.sameValue b = true ↔ a.mantissa * pow10 b.scale = b.mantissa * pow10 a.scale := by
  simp [sameValue, cmp]

theorem ofParts?_eq_some (a : Decimal) : ofParts? a.mantissa a.scale = some a := by
  simp [ofParts?, a.mantissa_lt, a.scale_le]

/-- The digits of `n`, the last `scale` of them behind a point. -/
def digitsText (n scale : Nat) : List Char :=
  let digits := Nat.toDigits 10 n
  if scale = 0 then digits
  else
    let padded := List.replicate (scale + 1 - digits.length) '0' ++ digits
    let whole := padded.length - scale
    padded.take whole ++ '.' :: padded.drop whole

/-- All fraction digits are written, trailing zeros included. -/
def toText (a : Decimal) : String :=
  let text := digitsText a.mantissa.natAbs a.scale
  String.ofList (if a.isNegative then '-' :: text else text)

end Decimal

end SwapDesk
