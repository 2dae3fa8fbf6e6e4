import SwapDesk.Decimal.Read
import SwapDesk.Feed

/-! What is logged of the events that a subscriber gets, and which lines are shown. -/
namespace SwapDesk

inductive LogLevel
  | error
  | warn
  | info
  | debug
  | trace
deriving DecidableEq

namespace LogLevel

def all : List LogLevel := [error, warn, info, debug, trace]

def name : LogLevel → String
  | error => "error"
  | warn => "warn"
  | info => "info"
  | debug => "debug"
  | trace => "trace"

/-- The level's number; less urgent levels have greater ones. -/
def number : LogLevel → Nat
  | error => 1
  | warn => 2
  | info => 3
  | debug => 4
  | trace => 5

/-- A number in decimal digits, with or without a plus sign. -/
def numberOf? (cs : List Char) : Option Nat :=
  let digits := match cs with
    | '+' :: rest => rest
    | _ => cs
  if digits.isEmpty then none
  else (digits.mapM digitValue?).map fun ds => ds.foldl (fun n d => 10 * n + d) 0

/-- A level is written as its number, or as its name in letters of any case. -/
def ofText? (s : String) : Option LogLevel :=
  match numberOf? s.toList with
  | some n => all.find? (·.number = n)
  | none => all.find? fun l => l.name.toList = s.toList.map Char.toLower

/-- The limit that a text asks for; lines up to `info` are shown if it asks for none. -/
def limit (asked : Option String) : LogLevel := (asked.bind ofText?).getD info

/-- Whether lines of a level are shown under a limit. -/
def isShown (limit level : LogLevel) : Bool := level.number ≤ limit.number

end LogLevel

structure LogLine where
  level : LogLevel
  text : String
deriving DecidableEq

/-- The line of an order that failed. -/
def failureLine (id : String) (reason : Option String) : LogLine :=
  ⟨.warn, "[FAIL] " ++ id ++ ": " ++ reason.getD "unknown"⟩

def Fill.line (f : Fill) : LogLine :=
  ⟨.info, "[FILL] " ++ f.id ++ " " ++ f.side.name ++ " " ++ f.amount.toText ++ " " ++
    f.pair.toText ++ " @ " ++ f.price.toText ++ " | fee " ++ f.fee.toText ++ " " ++
    f.feeAsset.getD "?"⟩

/-- What is logged of a delivery. -/
def Delivery.line? : Delivery → Option LogLine
  | .missed n => some ⟨.warn, "[EVENTS] dropped " ++ toString n ++ " events"⟩
  | .event (.filled fill) => some fill.line
  | .event (.approved id token _) => some ⟨.info, "[APPROVE] " ++ token ++ " approved (" ++ id ++ ")"⟩
  | .event (.failed id reason) => some (failureLine id reason)
  | .event _ => none

end SwapDesk
