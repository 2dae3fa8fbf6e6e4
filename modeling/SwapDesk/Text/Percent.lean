import SwapDesk.Json.Reading

/-! Percent encoding of query values: every byte of the UTF-8 form that is no ASCII letter or digit
and none of `-`, `_`, `.` and `~` is written as `%` and two hexadecimal digits. -/
namespace SwapDesk

def isPlainByte (b : UInt8) : Bool :=
  let n := b.toNat
  (0x30 ≤ n && n ≤ 0x39) || (0x41 ≤ n && n ≤ 0x5A) || (0x61 ≤ n && n ≤ 0x7A) ||
    n == 0x2D || n == 0x5F || n == 0x2E || n == 0x7E

def upperHexDigit (n : Nat) : Char := (Nat.digitChar n).toUpper

def percentByte (b : UInt8) : List Char :=
  if isPlainByte b then [Char.ofNat b.toNat]
  else ['%', upperHexDigit (b.toNat / 16), upperHexDigit (b.toNat % 16)]

def percentEncode (s : String) : String :=
  String.ofList (s.toUTF8.toList.flatMap percentByte)

/-- The bytes that a percent-encoded text stands for. -/
def percentBytes? : List Char → Option (List UInt8)
  | [] => some []
  | '%' :: a :: b :: rest => do
    let high ← Reading.hexValue? a
    let low ← Reading.hexValue? b
    return UInt8.ofNat (16 * high + low) :: (← percentBytes? rest)
  | c :: rest => do
    if c = '%' ∨ 128 ≤ c.toNat then none
    else return UInt8.ofNat c.toNat :: (← percentBytes? rest)

end SwapDesk
