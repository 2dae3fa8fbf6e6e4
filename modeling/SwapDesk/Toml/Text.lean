import SwapDesk.Json.Reading

/-! The texts of TOML: blanks, comments, quoted strings and keys. Each function returns what it read and
the characters behind it. -/
namespace SwapDesk.Toml

def isSpace (c : Char) : Bool := c == ' ' || c == '\t'

def dropSpace (cs : List Char) : List Char := cs.dropWhile isSpace

/-- What may stand in a comment: everything but control characters. -/
def isPrintable (c : Char) : Bool := c == '\t' || (0x20 ≤ c.toNat && c.toNat ≠ 0x7F)

def newline? : List Char → Option (List Char)
  | '\n' :: rest => some rest
  | '\r' :: '\n' :: rest => some rest
  | _ => none

/-- The end of a line: blanks, perhaps a comment, and a line break or the end of the text. -/
def lineEnd? (cs : List Char) : Option (List Char) :=
  let cs := dropSpace cs
  let cs := match cs with
    | '#' :: rest => rest.dropWhile isPrintable
    | _ => cs
  if cs.isEmpty then some [] else newline? cs

/-- Drops blanks, line breaks and whole comments. -/
def dropLines (inComment : Bool) : List Char → List Char
  | '\n' :: rest => dropLines false rest
  | '\r' :: '\n' :: rest => dropLines false rest
  | c :: rest =>
    if inComment then if isPrintable c then dropLines true rest else c :: rest
    else if isSpace c then dropLines false rest
    else if c = '#' then dropLines true rest
    else c :: rest
  | [] => []

/-- The character with a hexadecimal number. -/
def numbered? (digits : List Char) : Option Char := do
  let n ← digits.foldlM (fun n c => do return 16 * n + (← Reading.hexValue? c)) 0
  if n.isValidChar then some (Char.ofNat n) else none

/-- The character that an escape stands for, behind its backslash. -/
def escape? : List Char → Option (Char × List Char)
  | 'b' :: rest => some ('\x08', rest)
  | 't' :: rest => some ('\t', rest)
  | 'n' :: rest => some ('\n', rest)
  | 'f' :: rest => some ('\x0c', rest)
  | 'r' :: rest => some ('\r', rest)
  | '"' :: rest => some ('"', rest)
  | '\\' :: rest => some ('\\', rest)
  | 'u' :: rest =>
    if rest.length < 4 then none
    else do return (← numbered? (rest.take 4), rest.drop 4)
  | 'U' :: rest =>
    if rest.length < 8 then none
    else do return (← numbered? (rest.take 8), rest.drop 8)
  | _ => none

/-- The rest of a string in double quotes, on one line. -/
def quotedFrom (done : List Char) : Nat → List Char → Option (String × List Char)
  | 0, _ => none
  | fuel + 1, cs =>
    match cs with
    | [] => none
    | '"' :: rest => some (String.ofList done.reverse, rest)
    | '\\' :: rest => do
      let (c, rest) ← escape? rest
      quotedFrom (c :: done) fuel rest
    | c :: rest => if isPrintable c then quotedFrom (c :: done) fuel rest else none

/-- The rest of a string in single quotes, on one line. -/
def literalFrom (done : List Char) : List Char → Option (String × List Char)
  | [] => none
  | '\'' :: rest => some (String.ofList done.reverse, rest)
  | c :: rest => if isPrintable c then literalFrom (c :: done) rest else none

/-- Blanks and line breaks behind a backslash at the end of a line. -/
def continuation? (cs : List Char) : Option (List Char) := do
  let rest ← newline? (dropSpace cs)
  return dropBreaks rest
where
  dropBreaks : List Char → List Char
    | '\n' :: rest => dropBreaks rest
    | '\r' :: '\n' :: rest => dropBreaks rest
    | c :: rest => if isSpace c then dropBreaks rest else c :: rest
    | [] => []

/-- The rest of a string on several lines that ends at three of its quotes. One or two of them may
stand anywhere, also before the last three. Line breaks become plain ones. -/
def linesFrom (quote : Char) (escapes : Bool) (done : List Char) :
    Nat → List Char → Option (String × List Char)
  | 0, _ => none
  | fuel + 1, cs =>
    let quotes := (cs.takeWhile (· == quote)).length
    if 3 ≤ quotes then
      let inner := min (quotes - 3) 2
      some (String.ofList (done.reverse ++ List.replicate inner quote), cs.drop (inner + 3))
    else
      match cs with
      | [] => none
      | c :: rest =>
        if c = '\\' ∧ escapes then
          match continuation? rest with
          | some rest => linesFrom quote escapes done fuel rest
          | none => do
            let (c, rest) ← escape? rest
            linesFrom quote escapes (c :: done) fuel rest
        else
          match newline? cs with
          | some rest => linesFrom quote escapes ('\n' :: done) fuel rest
          | none => if isPrintable c then linesFrom quote escapes (c :: done) fuel rest else none

/-- A string on several lines, behind its opening quotes. A line break right there does not count. -/
def lines? (quote : Char) (escapes : Bool) (cs : List Char) : Option (String × List Char) :=
  linesFrom quote escapes [] (cs.length + 1) ((newline? cs).getD cs)

/-- A string with its quotes. -/
def string? : List Char → Option (String × List Char)
  | '"' :: '"' :: '"' :: rest => lines? '"' true rest
  | '\'' :: '\'' :: '\'' :: rest => lines? '\'' false rest
  | '"' :: rest => quotedFrom [] (rest.length + 1) rest
  | '\'' :: rest => literalFrom [] rest
  | _ => none

def isBare (c : Char) : Bool := c.isAlphanum || c == '-' || c == '_'

/-- One name of a key: in quotes on one line, or bare. -/
def name? : List Char → Option (String × List Char)
  | '"' :: rest => quotedFrom [] (rest.length + 1) rest
  | '\'' :: rest => literalFrom [] rest
  | cs =>
    let bare := cs.takeWhile isBare
    if bare.isEmpty then none else some (String.ofList bare, cs.dropWhile isBare)

/-- The names of a key have at most this number. -/
def keyLimit : Nat := 80

/-- Names with dots between them, and blanks around each. -/
def namesFrom (done : List String) : Nat → List Char → Option (List String × List Char)
  | 0, _ => none
  | fuel + 1, cs => do
    let (name, rest) ← name? (dropSpace cs)
    match dropSpace rest with
    | '.' :: rest => namesFrom (name :: done) fuel rest
    | rest => return ((name :: done).reverse, rest)

/-- A key: the path, the last name and what follows. -/
def key? (cs : List Char) : Option (List String × String × List Char) := do
  let (names, rest) ← namesFrom [] (cs.length + 1) cs
  if keyLimit ≤ names.length then none
  else return (names.dropLast, ← names.getLast?, rest)

end SwapDesk.Toml
