import SwapDesk.Binary64.Basic

/-! The shortest decimal that rounds to a binary64 number, and two ways of writing it. -/
namespace SwapDesk

/-- Which of two equally near decimals is taken. -/
inductive Tie
  | even
  | up

/-- The decimal `digits · 10 ^ exponent`. -/
structure Shortest where
  digits : Nat
  exponent : Int
deriving DecidableEq

namespace Binary64

/-- Four times a number, and the ends of the reals that round to it, as multiples of `1 / scale`. -/
structure Bounds where
  value : Nat
  low : Nat
  high : Nat
  scale : Nat
  closed : Bool

/-- Just above a power of two the lower neighbour is only half as far away. -/
def bounds (f : Binary64) : Bounds :=
  let m := f.significand
  let unit := pow2 f.exponent.toNat
  let below := if m = pow2 52 ∧ leastExponent < f.exponent then 1 else 2
  { value := 4 * m * unit
    low := (4 * m - below) * unit
    high := (4 * m + 2) * unit
    scale := 4 * pow2 (-f.exponent).toNat
    closed := m % 2 == 0 }

/-- The bounds measured in units of `10 ^ k`. -/
def Bounds.inPowers (b : Bounds) (k : Int) : Bounds :=
  let factor := pow10 (-k).toNat
  { b with
    value := b.value * factor
    low := b.low * factor
    high := b.high * factor
    scale := b.scale * pow10 k.toNat }

def Bounds.admits (b : Bounds) (n : Nat) : Bool :=
  if b.closed then b.low ≤ n * b.scale && n * b.scale ≤ b.high
  else b.low < n * b.scale && n * b.scale < b.high

/-- The multiple of the unit nearest to the value, if one of its two neighbours is admitted. -/
def Bounds.nearest? (b : Bounds) (tie : Tie) : Option Nat :=
  let below := b.value / b.scale
  let above := below + 1
  let twice := 2 * (b.value % b.scale)
  match b.admits below, b.admits above with
  | false, false => none
  | true, false => some below
  | false, true => some above
  | true, true =>
    if twice < b.scale then some below
    else if b.scale < twice then some above
    else match tie with
      | .even => some (if below % 2 = 0 then below else above)
      | .up => some above

/-- The decimal exponent of the leading digit of `n / d`. -/
def leadingExponent (n d : Nat) : Int :=
  let guess : Int := ((Nat.toDigits 10 n).length : Int) - (Nat.toDigits 10 d).length
  if d * pow10 guess.toNat ≤ n * pow10 (-guess).toNat then guess else guess - 1

/-- Moves trailing zeros of the digits into the exponent. -/
def stripDigits : Nat → Nat → Int → Shortest
  | 0, n, k => ⟨n, k⟩
  | fuel + 1, n, k => if n % 10 = 0 then stripDigits fuel (n / 10) (k + 1) else ⟨n, k⟩

/-- Of the decimals that round to `f`, one with the fewest digits, and of those the nearest. -/
def shortest (f : Binary64) (tie : Tie) : Shortest :=
  if f.isZero then ⟨0, 0⟩
  else
    let b := f.bounds
    let lead := leadingExponent b.value b.scale
    let found := (List.range 17).findSome? fun (i : Nat) =>
      let k := lead - (i : Int)
      ((b.inPowers k).nearest? tie).map fun n => (n, k)
    match found with
    | some (n, k) => stripDigits 20 n k
    | none => ⟨f.significand, 0⟩

/-- Digits without an exponent; `fraction` stands behind a whole number. -/
def positional (s : Shortest) (fraction : List Char) : List Char :=
  let digits := Nat.toDigits 10 s.digits
  let point : Int := digits.length + s.exponent
  if 0 ≤ s.exponent then digits ++ List.replicate s.exponent.toNat '0' ++ fraction
  else if 0 < point then digits.take point.toNat ++ '.' :: digits.drop point.toNat
  else '0' :: '.' :: (List.replicate (-point).toNat '0' ++ digits)

/-- One digit before the point, and the exponent with its sign. -/
def exponential (s : Shortest) : List Char :=
  let digits := Nat.toDigits 10 s.digits
  let exponent : Int := digits.length + s.exponent - 1
  let lead := match digits with
    | [d] => [d]
    | d :: rest => d :: '.' :: rest
    | [] => []
  lead ++ 'e' :: (if 0 ≤ exponent then '+' else '-') :: Nat.toDigits 10 exponent.natAbs

def signed (f : Binary64) (text : List Char) : List Char :=
  if f.negative then '-' :: text else text

/-- Positional from `10 ^ -5` up to below `10 ^ 16`, always with a fraction; else with an
exponent. -/
def toText (f : Binary64) : String :=
  let s := f.shortest .even
  let lead : Int := (Nat.toDigits 10 s.digits).length + s.exponent - 1
  String.ofList (f.signed
    (if -5 ≤ lead ∧ lead ≤ 15 then positional s ['.', '0'] else exponential s))

/-- Always positional, and a whole number has no fraction. -/
def toPlainText (f : Binary64) : String :=
  String.ofList (f.signed (positional (f.shortest .up) []))

end Binary64

end SwapDesk
