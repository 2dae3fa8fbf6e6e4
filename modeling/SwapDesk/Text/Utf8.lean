import SwapDesk.Power

/-! Text of bytes. Bytes that are no UTF-8 are replaced: each longest start of a character, or else
a single byte, by one replacement character. -/
namespace SwapDesk

def replacement : Char := Char.ofNat 0xFFFD

/-- How many bytes follow a first byte, and the range of the first of them. -/
def followers? (b : Nat) : Option (Nat × Nat × Nat) :=
  if 0xC2 ≤ b ∧ b ≤ 0xDF then some (1, 0x80, 0xBF)
  else if b = 0xE0 then some (2, 0xA0, 0xBF)
  else if b = 0xED then some (2, 0x80, 0x9F)
  else if 0xE1 ≤ b ∧ b ≤ 0xEF then some (2, 0x80, 0xBF)
  else if b = 0xF0 then some (3, 0x90, 0xBF)
  else if b = 0xF4 then some (3, 0x80, 0x8F)
  else if 0xF1 ≤ b ∧ b ≤ 0xF3 then some (3, 0x80, 0xBF)
  else none

/-- A character under way: bytes missing, range of the next one and the bits so far. -/
structure Unfinished where
  missing : Nat
  low : Nat
  high : Nat
  bits : Nat

/-- The text so far, last character first, and whether every byte belonged to one. -/
structure Utf8Scan where
  chars : List Char
  part : Option Unfinished
  valid : Bool

def Utf8Scan.spoil (s : Utf8Scan) : Utf8Scan := ⟨replacement :: s.chars, none, false⟩

def Utf8Scan.first (s : Utf8Scan) (b : Nat) : Utf8Scan :=
  if b < 0x80 then ⟨Char.ofNat b :: s.chars, none, s.valid⟩
  else match followers? b with
    | some (missing, low, high) =>
      ⟨s.chars, some ⟨missing, low, high, b % pow2 (6 - missing)⟩, s.valid⟩
    | none => s.spoil

def Utf8Scan.step (s : Utf8Scan) (byte : UInt8) : Utf8Scan :=
  let b := byte.toNat
  match s.part with
  | none => s.first b
  | some p =>
    if p.low ≤ b ∧ b ≤ p.high then
      let bits := 64 * p.bits + b % 64
      if p.missing ≤ 1 then ⟨Char.ofNat bits :: s.chars, none, s.valid⟩
      else ⟨s.chars, some ⟨p.missing - 1, 0x80, 0xBF, bits⟩, s.valid⟩
    else s.spoil.first b

def Utf8Scan.finish (s : Utf8Scan) : Utf8Scan := if s.part.isSome then s.spoil else s

def utf8Scan (bytes : List UInt8) : Utf8Scan :=
  (bytes.foldl Utf8Scan.step ⟨[], none, true⟩).finish

def decodeLossy (bytes : List UInt8) : String := String.ofList (utf8Scan bytes).chars.reverse

/-- The text of bytes that are UTF-8. -/
def decodeUtf8? (bytes : List UInt8) : Option String :=
  let s := utf8Scan bytes
  if s.valid then some (String.ofList s.chars.reverse) else none

end SwapDesk
