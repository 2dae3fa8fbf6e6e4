import SwapDesk.Decimal.Read
import SwapDesk.Text.Blank

/-! Points of time in UTC, to the nanosecond, and their texts (RFC 3339). A leap second is the 59th
second with more than a billion nanoseconds. -/
namespace SwapDesk

def isLeapYear (year : Int) : Bool :=
  year % 4 == 0 && (year % 100 != 0 || year % 400 == 0)

def daysInMonth (year : Int) (month : Nat) : Nat :=
  if month = 2 then if isLeapYear year then 29 else 28
  else if month = 4 ∨ month = 6 ∨ month = 9 ∨ month = 11 then 30
  else 31

def billion : Nat := 1000000000

def firstYear : Int := -262143

def lastYear : Int := 262142

/-- A calendar date and a time of day that exist. -/
def isCalendarTime (year : Int) (month day hour minute second nanos : Nat) : Bool :=
  firstYear ≤ year && year ≤ lastYear && 1 ≤ month && month ≤ 12 && 1 ≤ day &&
    day ≤ daysInMonth year month && hour < 24 && minute < 60 && second < 60 &&
    nanos < 2 * billion && (nanos < billion || second == 59)

structure Instant where
  year : Int
  month : Nat
  day : Nat
  hour : Nat
  minute : Nat
  second : Nat
  nanos : Nat
  valid : isCalendarTime year month day hour minute second nanos = true
deriving DecidableEq

namespace Instant

def of? (year : Int) (month day hour minute second nanos : Nat) : Option Instant :=
  if h : isCalendarTime year month day hour minute second nanos = true then
    some ⟨year, month, day, hour, minute, second, nanos, h⟩
  else none

/-- Days since the first of January 1970, by years that begin in March. -/
def dayNumber (year : Int) (month day : Nat) : Int :=
  let y := if month ≤ 2 then year - 1 else year
  let era := y.fdiv 400
  let yearOfEra := y - 400 * era
  let dayOfYear : Int := (153 * ((month + 9) % 12) + 2) / 5 + day - 1
  let dayOfEra := 365 * yearOfEra + yearOfEra / 4 - yearOfEra / 100 + dayOfYear
  146097 * era + dayOfEra - 719468

/-- Seconds since the beginning of 1970; a leap second belongs to the second before it. -/
def seconds (i : Instant) : Int :=
  86400 * dayNumber i.year i.month i.day + 3600 * i.hour + 60 * i.minute + i.second

/-- The instant that many seconds and nanoseconds after the beginning of 1970. -/
def ofSeconds? (seconds : Int) (nanos : Nat) : Option Instant :=
  let z := seconds.fdiv 86400 + 719468
  let clock := (seconds.fmod 86400).toNat
  let era := z.fdiv 146097
  let dayOfEra := z - 146097 * era
  let yearOfEra :=
    (dayOfEra - dayOfEra / 1460 + dayOfEra / 36524 - dayOfEra / 146096) / 365
  let dayOfYear := (dayOfEra - (365 * yearOfEra + yearOfEra / 4 - yearOfEra / 100)).toNat
  let month := (5 * dayOfYear + 2) / 153
  let day := dayOfYear - (153 * month + 2) / 5 + 1
  let year := yearOfEra + 400 * era + if 10 ≤ month then 1 else 0
  of? year (if 10 ≤ month then month - 9 else month + 3) day (clock / 3600) (clock / 60 % 60)
    (clock % 60) nanos

def firstSecond : Int := 86400 * dayNumber firstYear 1 1

def lastSecond : Int := 86400 * dayNumber lastYear 12 31 + 86399

/-- A point on the time line, as seconds since 1970 and nanoseconds. -/
structure Mark where
  seconds : Int
  nanos : Nat

/-- The point `nanoseconds` before an instant, if the calendar reaches that far. -/
def before? (i : Instant) (nanoseconds : Int) : Option Mark :=
  let total := billion * i.seconds + i.nanos - nanoseconds
  let seconds := total.fdiv billion
  if firstSecond ≤ seconds ∧ seconds ≤ lastSecond then
    some ⟨seconds, (total.fmod billion).toNat⟩
  else none

def isAfter (i : Instant) (m : Mark) : Bool :=
  m.seconds < i.seconds || (m.seconds == i.seconds && m.nanos < i.nanos)

/-- `n` in decimal with at least `width` digits. -/
def padded (width n : Nat) : List Char :=
  let digits := Nat.toDigits 10 n
  List.replicate (width - digits.length) '0' ++ digits

/-- Years outside of 0 to 9999 carry a sign. -/
def yearChars (year : Int) : List Char :=
  if 0 ≤ year ∧ year ≤ 9999 then padded 4 year.toNat
  else (if year < 0 then '-' else '+') :: padded 4 year.natAbs

/-- No digits for whole seconds, else three, six or nine. -/
def fractionChars (nanos : Nat) : List Char :=
  if nanos = 0 then []
  else if nanos % 1000000 = 0 then '.' :: padded 3 (nanos / 1000000)
  else if nanos % 1000 = 0 then '.' :: padded 6 (nanos / 1000)
  else '.' :: padded 9 nanos

def toChars (i : Instant) : List Char :=
  let leap := billion ≤ i.nanos
  yearChars i.year ++ '-' :: padded 2 i.month ++ '-' :: padded 2 i.day ++ 'T' ::
    padded 2 i.hour ++ ':' :: padded 2 i.minute ++ ':' ::
    padded 2 (if leap then i.second + 1 else i.second) ++
    fractionChars (if leap then i.nanos - billion else i.nanos) ++ ['Z']

def toText (i : Instant) : String := String.ofList i.toChars

/-- A run of at least one and at most `width` digits, and what follows. -/
def number? (width : Nat) (cs : List Char) : Option (Nat × List Char) := do
  let digits := (cs.take width).takeWhile fun c => (digitValue? c).isSome
  let n ← naturalOf? digits
  return (n, cs.drop digits.length)

/-- A year of up to four digits, or of any number of digits behind a sign. -/
def year? (cs : List Char) : Option (Int × List Char) :=
  match dropBlanks cs with
  | '-' :: rest => (number? rest.length rest).map fun (n, rest) => (-(n : Int), rest)
  | '+' :: rest => (number? rest.length rest).map fun (n, rest) => ((n : Int), rest)
  | rest => (number? 4 rest).map fun (n, rest) => ((n : Int), rest)

/-- A part of one or two digits, blanks before it. -/
def part? (cs : List Char) : Option (Nat × List Char) := number? 2 (dropBlanks cs)

/-- The mark `c` between two parts, blanks before it. -/
def between? (c : Char) (cs : List Char) : Option (List Char) :=
  match dropBlanks cs with
  | d :: rest => if d = c then some rest else none
  | [] => none

/-- Digits behind a point, in nanoseconds; digits after the ninth do not count. -/
def fraction? (cs : List Char) : Option (Nat × List Char) :=
  match cs with
  | '.' :: rest => do
    let (n, after) ← number? 9 rest
    let taken := rest.length - after.length
    return (n * pow10 (9 - taken), after.dropWhile fun c => (digitValue? c).isSome)
  | _ => some (0, cs)

/-- Minutes east of UTC. -/
def offset? (cs : List Char) : Option (Int × List Char) := do
  let twoDigits (cs : List Char) : Option (Nat × List Char) :=
    match cs with
    | a :: b :: rest => do return (10 * (← digitValue? a) + (← digitValue? b), rest)
    | _ => none
  let isUtc := (cs.take 3).map Char.toUpper == ['U', 'T', 'C']
  if isUtc then return (0, cs.drop 3)
  let sign :: rest := cs | none
  if sign = 'Z' ∨ sign = 'z' then return (0, rest)
  let negative := sign = '-' ∨ sign.toNat = 0x2212
  if sign ≠ '+' ∧ ¬ negative then none
  let (hours, rest) ← twoDigits rest
  let (minutes, rest) ← twoDigits (rest.dropWhile fun c => c == ':' || isBlank c)
  if 60 ≤ minutes ∨ 24 ≤ hours then none
  let total : Int := 60 * hours + minutes
  return (if negative then -total else total, rest)

/-- The instant whose local time, `minutes` ahead of UTC, is given. The date moves by a day at
most. -/
def ofLocal? (year : Int) (month day hour minute second nanos : Nat) (minutes : Int) :
    Option Instant := do
  let _ ← of? year month day hour minute second nanos
  let clock : Int := 60 * hour + minute - minutes
  if clock < 0 then
    let clock := (clock + 1440).toNat
    if 1 < day then of? year month (day - 1) (clock / 60) (clock % 60) second nanos
    else if 1 < month then
      of? year (month - 1) (daysInMonth year (month - 1)) (clock / 60) (clock % 60) second nanos
    else of? (year - 1) 12 31 (clock / 60) (clock % 60) second nanos
  else if 1440 ≤ clock then
    let clock := (clock - 1440).toNat
    if day < daysInMonth year month then
      of? year month (day + 1) (clock / 60) (clock % 60) second nanos
    else if month < 12 then of? year (month + 1) 1 (clock / 60) (clock % 60) second nanos
    else of? (year + 1) 1 1 (clock / 60) (clock % 60) second nanos
  else of? year month day (clock.toNat / 60) (clock.toNat % 60) second nanos

/-- Reads a date, a `T` or a blank, a time and an offset. Blanks may stand between the parts. -/
def ofChars? (cs : List Char) : Option Instant := do
  let (year, cs) ← year? cs
  let cs ← between? '-' cs
  let (month, cs) ← part? cs
  let cs ← between? '-' cs
  let (day, cs) ← part? cs
  let mark :: cs := cs | none
  if mark ≠ 'T' ∧ mark ≠ 't' ∧ mark ≠ ' ' then none
  let (hour, cs) ← part? cs
  let cs ← between? ':' cs
  let (minute, cs) ← part? cs
  let cs ← between? ':' cs
  let (second, cs) ← part? cs
  let (nanos, cs) ← fraction? cs
  let (minutes, cs) ← offset? (dropBlanks cs)
  if dropBlanks cs ≠ [] then none
  if second = 60 then ofLocal? year month day hour minute 59 (nanos + billion) minutes
  else ofLocal? year month day hour minute second nanos minutes

def ofText? (s : String) : Option Instant := ofChars? s.toList

end Instant

end SwapDesk
