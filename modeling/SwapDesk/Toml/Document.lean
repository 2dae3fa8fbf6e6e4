import SwapDesk.Toml.Value

/-! Whole TOML documents: lines with bindings, and headers that begin sections. -/
namespace SwapDesk.Toml

def depthLimit : Nat := 80

/-- What a line says. -/
inductive Line
  | binding (b : Binding)
  | table (path : List String) (name : String)
  | element (path : List String) (name : String)

/-- A header behind its opening brackets. -/
def header? (closing : List Char) (make : List String → String → Line) (cs : List Char) :
    Option (Line × List Char) := do
  let (path, name, rest) ← key? cs
  return (make path name, ← lineEnd? (← word? closing rest))

/-- A line that is not empty. -/
def line? : List Char → Option (Line × List Char)
  | '[' :: '[' :: rest => header? [']', ']'] .element rest
  | '[' :: rest => header? [']'] .table rest
  | cs => do
    let (b, rest) ← binding? (value? depthLimit) cs
    return (.binding b, ← lineEnd? rest)

def linesOf? : Nat → List Char → Option (List Line)
  | 0, _ => none
  | fuel + 1, cs =>
    match dropSpace cs with
    | [] => some []
    | cs =>
      match lineEnd? cs with
      | some rest => linesOf? fuel rest
      | none => do
        let (l, rest) ← line? cs
        return l :: (← linesOf? fuel rest)

/-- The bindings before the first header, and the sections behind it. -/
def sectionsOf : List Line → List Binding × List Section
  | [] => ([], [])
  | .binding b :: rest =>
    let (bs, sections) := sectionsOf rest
    (b :: bs, sections)
  | .table path name :: rest =>
    let (bs, sections) := sectionsOf rest
    ([], .table path name bs :: sections)
  | .element path name :: rest =>
    let (bs, sections) := sectionsOf rest
    ([], .element path name bs :: sections)

/-- The table that a text stands for. A byte order mark may come first. -/
def ofText? (s : String) : Option (List (String × Toml)) := do
  let cs := match s.toList with
    | c :: rest => if c.toNat = 0xFEFF then rest else c :: rest
    | [] => []
  let (bs, sections) := sectionsOf (← linesOf? (cs.length + 1) cs)
  ofSections? (.root bs :: sections)

end SwapDesk.Toml
