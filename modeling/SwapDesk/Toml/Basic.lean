import SwapDesk.Binary64.Basic
import SwapDesk.Dict

/-! TOML documents. A document is a table of named values; its sections are tables too. -/
namespace SwapDesk

/-- A TOML value. A float without a number is infinite or none at all; of a date or a time only the
kind is kept. -/
inductive Toml
  | text (s : String)
  | whole (n : Int)
  | float (f : Option Binary64)
  | bool (b : Bool)
  | time
  | list (items : List Toml)
  | table (fields : List (String × Toml))

namespace Toml

/-- How a table came to be: written as such, implied by a longer header, or made by a dotted key. -/
inductive Origin
  | written
  | implied
  | dotted
deriving DecidableEq

/-- What a document holds under a name while it is put together. -/
inductive Entry
  | value (v : Toml)
  | table (origin : Origin) (fields : List (String × Entry))
  | tables (elements : List Entry)

abbrev Fields := List (String × Entry)

/-- A key and its value; the key is a path and a last name. -/
structure Binding where
  path : List String
  name : String
  value : Toml

/-- Replaces the entry of a name. -/
def replace (k : String) (e : Entry) (fields : Fields) : Fields :=
  fields.map fun f => if f.1 = k then (k, e) else f

/-- Changes the fields of the table at a path. Tables that are missing on the way are made. Of an
array of tables the last one is meant. A dotted key does not lead into a table that is written out. -/
def alter (byDots : Bool) (f : Origin → Fields → Option Fields) :
    List String → Origin → Fields → Option Fields
  | [], origin, fields => f origin fields
  | k :: path, _, fields =>
    match lookup k fields with
    | none => do
      let origin := if byDots then Origin.dotted else .implied
      return fields ++ [(k, .table origin (← alter byDots f path origin []))]
    | some (.value _) => none
    | some (.table origin inner) => do
      if byDots ∧ origin = .written then none
      else return replace k (.table origin (← alter byDots f path origin inner)) fields
    | some (.tables elements) => do
      match elements.getLast? with
      | some (.table origin inner) =>
        let last := Entry.table origin (← alter byDots f path origin inner)
        return replace k (.tables (elements.dropLast ++ [last])) fields
      | _ => none

/-- Adds a binding to a table. A name is bound once, and a dotted key only adds to tables that dotted
keys made. -/
def bind (fields : Fields) (b : Binding) : Option Fields :=
  alter true (fun origin inner =>
    if (origin == .dotted) = b.path.isEmpty ∨ (lookup b.name inner).isSome then none
    else some (inner ++ [(b.name, .value b.value)])) b.path .written fields

def bindAll (fields : Fields) (bs : List Binding) : Option Fields := bs.foldlM bind fields

/-- A section: its header, if it has one, and its bindings. -/
inductive Section
  | root (bindings : List Binding)
  | table (path : List String) (name : String) (bindings : List Binding)
  | element (path : List String) (name : String) (bindings : List Binding)

/-- Adds a section. A table is written out once; a further element goes to the end of its array. -/
def addSection (fields : Fields) : Section → Option Fields
  | .root bs => bindAll fields bs
  | .table path name bs =>
    alter false (fun _ inner =>
      match lookup name inner with
      | none => do return inner ++ [(name, .table .written (← bindAll [] bs))]
      | some (.table .implied known) => do
        return replace name (.table .written (← bindAll known bs)) inner
      | some _ => none) path .written fields
  | .element path name bs =>
    alter false (fun _ inner =>
      match lookup name inner with
      | none => do return inner ++ [(name, .tables [.table .written (← bindAll [] bs)])]
      | some (.tables elements) => do
        return replace name (.tables (elements ++ [.table .written (← bindAll [] bs)])) inner
      | some _ => none) path .written fields

mutual

def ofEntry : Entry → Toml
  | .value v => v
  | .table _ fields => .table (ofFields fields)
  | .tables elements => .list (ofEntries elements)

def ofEntries : List Entry → List Toml
  | [] => []
  | e :: rest => ofEntry e :: ofEntries rest

def ofFields : List (String × Entry) → List (String × Toml)
  | [] => []
  | (k, e) :: rest => (k, ofEntry e) :: ofFields rest

end

/-- The table of bindings that are written between braces. -/
def ofBindings? (bs : List Binding) : Option Toml := do
  return .table (ofFields (← bindAll [] bs))

def ofSections? (sections : List Section) : Option (List (String × Toml)) := do
  return ofFields (← sections.foldlM addSection [])

end Toml

end SwapDesk
