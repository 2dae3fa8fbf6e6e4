import SwapDesk.Desk.Caller
import SwapDesk.Log
import SwapDesk.Order.Stats
import SwapDesk.Settings.Reading

/-! A shift is a desk at work from its opening to its closing. From one shift to the next the orders are
kept in a text. While the shift lasts, the desk's activities go on in any order, time goes by, and now
and then comes a round, in which old orders are removed and the others kept. -/
namespace SwapDesk

/-- What there is when a shift is to open. Orders are kept only if there is a name to keep them
under. -/
structure Setup where
  /-- The name that settings are read under. -/
  source : Option String
  /-- What was read. -/
  settings : Option (List UInt8)
  /-- The name that orders are kept under. -/
  keeping : Option String
  records : Option String

/-- Why a shift does not open. -/
inductive Hindrance
  | noSource
  | settings (cause : SettingsError)
  | unreadable (name : String)
  | records (name : String) (fault : Fault)

/-- The variable that names the settings, if no argument does. -/
def Setup.sourceVariable : String := "GATEWAY_CONNECTOR_CONFIG"

/-- The variable that names the kept orders. -/
def Setup.keepingVariable : String := "GATEWAY_CONNECTOR_STATE"

def Hindrance.message : Hindrance → String
  | noSource =>
    "usage: gateway_amm_connector <config.toml> (or set " ++ Setup.sourceVariable ++ ")"
  | settings cause => cause.message
  | unreadable name => "reading " ++ name
  | records name _ => "parsing " ++ name

/-- The orders that were kept. -/
def Setup.kept (u : Setup) : Except Hindrance Orders :=
  match u.keeping, u.records with
  | some name, some text => (Orders.ofText text).mapError (.records name)
  | _, _ => .ok .empty

structure Shift where
  desk : Desk
  keeping : Option String
  /-- The text in which orders were kept last. -/
  records : Option String
  log : List LogLine

inductive Move
  /-- An activity goes on, if it can. -/
  | turn (activity : Activity)
  /-- Milliseconds go by, up to a calendar time. -/
  | pass (wait : Nat) (now : Instant)
  | round

namespace Shift

/-- The subscriber of the feed whose deliveries are logged. -/
def reader : String := "log"

/-- Logs all that was published. -/
def readFeed (s : Shift) : Shift :=
  match s.desk.feed.drain reader with
  | some (deliveries, feed) =>
    { s with
      desk := { s.desk with feed }
      log := s.log ++ deliveries.filterMap Delivery.line? }
  | none => s

/-- Opens a shift: takes back the kept orders and sets the desk going. A gateway that is not up does
not matter. -/
def start (u : Setup) (now : Instant) (nonce : String) : Except Hindrance Shift := do
  if u.source.isNone then throw .noSource
  let settings ← (Settings.ofBytes u.settings).mapError .settings
  let d ← (Desk.ofSettings settings now nonce).mapError fun f => .settings (.invalid f)
  let d := { d with feed := d.feed.subscribe reader }.checkNetwork.1
  let d := (d.restore (← u.kept)).1.begin
  return ⟨d, u.keeping, u.records, []⟩

/-- Keeps the orders as they are. -/
def keep (s : Shift) : Shift :=
  if s.keeping.isSome then { s with records := some (Orders.toText s.desk.book.orders) } else s

/-- How old a terminal order may be, in milliseconds. -/
def retention : Nat := 24 * 60 * 60 * billion

/-- The time from round to round, in milliseconds. -/
def roundInterval : Nat := 30 * 1000

def round (s : Shift) : Shift :=
  let desk := (s.desk.command (.purge retention)).1
  let line : LogLine := ⟨.info, (Stats.ofBook desk.book).line⟩
  { s with desk, log := s.log ++ [line] }.keep

def step (s : Shift) : Move → Shift
  | .turn a => if s.desk.canRun a then { s with desk := s.desk.poll a }.readFeed else s
  | .pass wait now => { s with desk := { s.desk with now, clock := s.desk.clock + wait } }
  | .round => s.round

def run (s : Shift) (moves : List Move) : Shift := moves.foldl step s

/-- Closes a shift. -/
def close (s : Shift) : Shift := { s with desk := s.desk.finish }.readFeed.keep

/-- An activity that can go on. -/
def busy? (s : Shift) : Option Activity := s.desk.activities.find? s.desk.canRun

/-- The move of a shift that is left alone: an activity's turn, or the time until the next alarm. -/
def next (s : Shift) : Move :=
  match s.busy? with
  | some a => .turn a
  | none => .pass ((s.desk.nextDue?.getD (s.desk.clock + 1)) - s.desk.clock) s.desk.now

/-- Left alone as long as a condition holds; the number bounds the moves. -/
def workWhile (goOn : Shift → Bool) : Nat → Shift → Shift
  | 0, s => s
  | n + 1, s => if goOn s then workWhile goOn n (s.step s.next) else s

/-- Whether a text has another in it. -/
def holds (part : List Char) : List Char → Bool
  | [] => part.isEmpty
  | c :: rest => part.isPrefixOf (c :: rest) || holds part rest

def hasLogged (s : Shift) (text : String) : Bool :=
  s.log.any fun l => holds text.toList l.text.toList

/-- More moves than there are in any time between two rounds. -/
def moveBound : Nat := pow10 12

/-- Left alone until a text was logged, or for lack of a text until nobody has anything to do. Either
way it is over before the next round. -/
def workUntil (s : Shift) (text : Option String) : Shift :=
  workWhile (fun s => match text with
    | some t => !s.hasLogged t && s.desk.clock < roundInterval
    | none => s.busy?.isSome) moveBound s

end Shift

end SwapDesk
