import SwapDesk.Decimal.Read
import SwapDesk.Toml.Basic
import SwapDesk.Toml.Text

/-! The values of TOML: numbers, dates and times, truth values, arrays and inline tables. -/
namespace SwapDesk.Toml

/-- Digits, with single underscores between them. -/
def digitsFrom (isDigit : Char → Bool) (done : List Char) : List Char → Option (List Char × List Char)
  | '_' :: c :: rest => if isDigit c then digitsFrom isDigit (c :: done) rest else none
  | '_' :: [] => none
  | c :: rest =>
    if isDigit c then digitsFrom isDigit (c :: done) rest else some (done.reverse, c :: rest)
  | [] => some (done.reverse, [])

/-- A run of digits that is not empty. -/
def digits? (isDigit : Char → Bool) : List Char → Option (List Char × List Char)
  | c :: rest => if isDigit c then digitsFrom isDigit [c] rest else none
  | [] => none

def isDecimalDigit (c : Char) : Bool := (digitValue? c).isSome

/-- A whole number has 64 bits. -/
def whole? (n : Int) : Option Toml :=
  if -pow2 63 ≤ n ∧ n < pow2 63 then some (.whole n) else none

/-- Digits in base two, eight or sixteen. -/
def based? (base : Nat) (cs : List Char) : Option (Toml × List Char) := do
  let isDigit := fun c => (Reading.hexValue? c).any (· < base)
  let (digits, rest) ← digits? isDigit cs
  let n := digits.foldl (fun n c => base * n + (Reading.hexValue? c).getD 0) 0
  return (← whole? n, rest)

/-- The digits before the point: a zero, or a run that does not begin with one. -/
def wholePart? : List Char → Option (List Char × List Char)
  | '0' :: rest => some (['0'], rest)
  | cs => digits? isDecimalDigit cs

/-- The exponent behind its mark. -/
def exponent? (cs : List Char) : Option (Int × List Char) := do
  let (negative, cs) := match cs with
    | '-' :: rest => (true, rest)
    | '+' :: rest => (false, rest)
    | _ => (false, cs)
  let (digits, rest) ← digits? isDecimalDigit cs
  let n ← naturalOf? digits
  return (if negative then -n else n, rest)

/-- The least exponent of ten that no binary64 number of a text reaches: beyond it digits are cut
off, which does not change the number. -/
def exponentLimit (digits : Nat) : Nat := digits + 400

/-- The nearest binary64 number. One too great has none if it is negative, and is refused
otherwise. -/
def floatOf? (negative : Bool) (digits : List Char) (exponent : Int) : Option Toml := do
  let n ← naturalOf? digits
  let limit : Int := exponentLimit digits.length
  let exponent := max (-limit) (min exponent limit)
  match Binary64.ofDecimal? negative n exponent with
  | some f => some (.float (some f))
  | none => if negative then some (.float none) else none

/-- A number behind its sign. -/
def number? (negative : Bool) (cs : List Char) : Option (Toml × List Char) := do
  let (digits, rest) ← wholePart? cs
  let scaled := fun (digits : List Char) (power : Int) (rest : List Char) => do
    let (e, rest) ← exponent? rest
    return (← floatOf? negative digits (power + e), rest)
  match rest with
  | '.' :: rest =>
    let (fraction, rest) ← digits? isDecimalDigit rest
    let all := digits ++ fraction
    let power : Int := -fraction.length
    match rest with
    | 'e' :: rest => scaled all power rest
    | 'E' :: rest => scaled all power rest
    | _ => return (← floatOf? negative all power, rest)
  | 'e' :: rest => scaled digits 0 rest
  | 'E' :: rest => scaled digits 0 rest
  | _ =>
    let n : Int ← naturalOf? digits
    return (← whole? (if negative then -n else n), rest)

/-- A number of exactly `width` digits, and no more than `most`. -/
def fixed? (width low most : Nat) (cs : List Char) : Option (Nat × List Char) := do
  let digits := cs.take width
  if digits.length < width then none
  else
    let n ← naturalOf? digits
    if low ≤ n ∧ n ≤ most then some (n, cs.drop width) else none

def expect? (c : Char) : List Char → Option (List Char)
  | d :: rest => if c = d then some rest else none
  | [] => none

def daysOf (year month : Nat) : Nat :=
  if month = 2 then if year % 4 = 0 ∧ (year % 100 ≠ 0 ∨ year % 400 = 0) then 29 else 28
  else if month = 4 ∨ month = 6 ∨ month = 9 ∨ month = 11 then 30
  else 31

def date? (cs : List Char) : Option (List Char) := do
  let (year, cs) ← fixed? 4 0 9999 cs
  let cs ← expect? '-' cs
  let (month, cs) ← fixed? 2 1 12 cs
  let cs ← expect? '-' cs
  let (_, cs) ← fixed? 2 1 (daysOf year month) cs
  return cs

/-- The time of a day, to the second or finer. -/
def clock? (cs : List Char) : Option (List Char) := do
  let (_, cs) ← fixed? 2 0 23 cs
  let cs ← expect? ':' cs
  let (_, cs) ← fixed? 2 0 59 cs
  let cs ← expect? ':' cs
  let (_, cs) ← fixed? 2 0 60 cs
  match cs with
  | '.' :: c :: rest =>
    if isDecimalDigit c then return rest.dropWhile isDecimalDigit else return cs
  | _ => return cs

/-- What follows a date and a time: perhaps an offset. -/
def offset? : List Char → Option (List Char)
  | 'Z' :: rest => some rest
  | 'z' :: rest => some rest
  | c :: rest =>
    if c = '+' ∨ c = '-' then do
      let (_, rest) ← fixed? 2 0 23 rest
      let rest ← expect? ':' rest
      let (_, rest) ← fixed? 2 0 59 rest
      return rest
    else some (c :: rest)
  | [] => some []

/-- Whether a time of day begins here. -/
def startsClock (cs : List Char) : Bool :=
  match fixed? 2 0 23 cs with
  | some (_, ':' :: _) => true
  | _ => false

def time? (cs : List Char) : Option (Toml × List Char) :=
  match (cs.take 4).all isDecimalDigit, cs.drop 4 with
  | true, '-' :: _ => do
    let rest ← date? cs
    match rest with
    | c :: later =>
      if (c = 'T' ∨ c = 't' ∨ c = ' ') ∧ startsClock later then
        return (.time, ← offset? (← clock? later))
      else return (.time, rest)
    | [] => return (.time, [])
  | _, _ => do return (.time, ← clock? cs)

/-- Whether a date or a time of day begins here. -/
def startsTime (cs : List Char) : Bool :=
  ((cs.take 4).all isDecimalDigit && (cs.drop 4).head? == some '-' && 5 ≤ cs.length) ||
    startsClock cs

/-- The characters behind a word. -/
def word? (word : List Char) (cs : List Char) : Option (List Char) :=
  if cs.take word.length = word then some (cs.drop word.length) else none

/-- A value that holds no others. -/
def plain? (cs : List Char) : Option (Toml × List Char) :=
  let special (cs : List Char) : Option (Toml × List Char) :=
    ((word? ['i', 'n', 'f'] cs).orElse fun _ => word? ['n', 'a', 'n'] cs).map
      fun rest => (.float none, rest)
  match cs with
  | 't' :: _ => (word? ['t', 'r', 'u', 'e'] cs).map fun rest => (.bool true, rest)
  | 'f' :: _ => (word? ['f', 'a', 'l', 's', 'e'] cs).map fun rest => (.bool false, rest)
  | '"' :: _ => (string? cs).map fun (s, rest) => (.text s, rest)
  | '\'' :: _ => (string? cs).map fun (s, rest) => (.text s, rest)
  | '0' :: 'x' :: rest => based? 16 rest
  | '0' :: 'o' :: rest => based? 8 rest
  | '0' :: 'b' :: rest => based? 2 rest
  | '-' :: rest => (special rest).orElse fun _ => number? true rest
  | '+' :: rest => (special rest).orElse fun _ => number? false rest
  | _ => if startsTime cs then time? cs else (special cs).orElse fun _ => number? false cs

abbrev Read (α : Type) := List Char → Option (α × List Char)

/-- The items of an array up to its bracket; a comma may follow the last. -/
def itemsFrom (item : Read Toml) (done : List Toml) : Nat → Read (List Toml)
  | 0, _ => none
  | fuel + 1, cs =>
    match dropLines false cs with
    | ']' :: rest => some (done.reverse, rest)
    | cs => do
      let (v, rest) ← item cs
      match dropLines false rest with
      | ',' :: rest => itemsFrom item (v :: done) fuel rest
      | ']' :: rest => return ((v :: done).reverse, rest)
      | _ => none

/-- A key, the equals sign and a value. -/
def binding? (item : Read Toml) : Read Binding := fun cs => do
  let (path, name, rest) ← key? cs
  let rest ← expect? '=' rest
  let (v, rest) ← item (dropSpace rest)
  return (⟨path, name, v⟩, rest)

/-- The bindings of an inline table up to its brace; no comma follows the last. -/
def bindingsFrom (item : Read Toml) (done : List Binding) : Nat → Read (List Binding)
  | 0, _ => none
  | fuel + 1, cs => do
    let (b, rest) ← binding? item cs
    match dropSpace rest with
    | ',' :: rest => bindingsFrom item (b :: done) fuel rest
    | '\x7d' :: rest => return ((b :: done).reverse, rest)
    | _ => none

/-- A value with less than `depth` levels of arrays and inline tables. -/
def value? : Nat → Read Toml
  | 0, _ => none
  | depth + 1, cs =>
    match cs with
    | '[' :: rest =>
      if depth = 0 then none
      else do
        let (items, rest) ← itemsFrom (value? depth) [] (rest.length + 1) rest
        return (.list items, rest)
    | '\x7b' :: rest =>
      if depth = 0 then none
      else
        match dropSpace rest with
        | '\x7d' :: rest => some (.table [], rest)
        | rest => do
          let (bs, rest) ← bindingsFrom (value? depth) [] (rest.length + 1) rest
          return (← ofBindings? bs, rest)
    | _ => plain? cs

end SwapDesk.Toml
