import SwapDesk.Desk.Pass
import SwapDesk.Desk.Visit

/-! The scheduling loop and the ticker. A request to shut down comes before everything else, and a wake
signal before a tick. -/
namespace SwapDesk.Desk

def setLoop (d : Desk) (l : Loop) : Desk := { d with loop := some l }

/-- The tick after one that is heeded now. One that is heeded late moves all later ones. -/
def nextTick (d : Desk) (t : Tick) : Tick :=
  if t.due + 5 < d.clock then ⟨d.clock + d.settings.pollInterval, none⟩
  else ⟨t.due + d.settings.pollInterval, none⟩

/-- Begins a cycle. -/
def beginCycle (d : Desk) (t : Tick) : Desk :=
  d.setLoop (.cycle t (.start (.pass false)) .fresh)

/-- Ends the loop while it is idle; a signal that it was about to hear is kept. -/
def endIdle (d : Desk) (ear : Ear) : Desk :=
  let d := d.setLoop .ended
  if ear = .rung then { d with permit := true } else d

/-- Waits for a signal or the next tick. -/
def listen (d : Desk) (t : Tick) : Desk :=
  match t.turn with
  | some _ => d.setLoop (.idle t .listening)
  | none =>
    let (d, alarm) := d.setAlarm t.due
    d.setLoop (.idle ⟨t.due, some alarm.turn⟩ .listening)

def pollStartup (d : Desk) (v : Visit) : Desk :=
  if d.shutdown.isGiven then (d.dropVisit .loop v).setLoop .ended
  else
    let (d, v) := d.pollVisit .loop v
    if !v.isOver then d.setLoop (.startup v)
    else if d.settings.pollInterval = 0 then d.setLoop .ended
    else d.setLoop (.idle ⟨d.clock + d.settings.pollInterval, none⟩ .closed)

def pollIdle (d : Desk) (t : Tick) (ear : Ear) : Desk :=
  if d.shutdown.isGiven then d.endIdle ear
  else if ear = .rung then d.beginCycle t
  else if d.permit then { d with permit := false }.beginCycle t
  else if t.due ≤ d.clock then d.beginCycle (d.nextTick t)
  else d.listen t

/-- The two halves of a cycle take turns, the reconciliation first. The loop does not survive a pass
that overflows. -/
def pollCycle (d : Desk) (t : Tick) (v : Visit) (p : Pass) : Desk :=
  if d.shutdown.isGiven then (d.dropVisit .loop v).setLoop .ended
  else
    let (d, v) := d.pollVisit .loop v
    let (d, p) := d.pollPass p
    match p with
    | .ended (.error _) => (d.dropVisit .loop v).setLoop .ended
    | .ended (.ok _) => if v.isOver then d.setLoop (.idle t .closed) else d.setLoop (.cycle t v p)
    | _ => d.setLoop (.cycle t v p)

/-- Goes on up to the next phase of the loop, or as far as possible. -/
def pollLoop (d : Desk) : Desk :=
  match d.loop with
  | some (.startup v) => d.pollStartup v
  | some (.idle t ear) => d.pollIdle t ear
  | some (.cycle t v p) => d.pollCycle t v p
  | _ => d

def canLoop (d : Desk) : Bool :=
  match d.loop with
  | some (.startup v) => d.shutdown.isGiven || d.canVisit .loop v
  | some (.idle t ear) => d.shutdown.isGiven || ear != .listening || t.due ≤ d.clock
  | some (.cycle _ v p) => d.shutdown.isGiven || d.canVisit .loop v || d.canPass p
  | _ => false

/-- Raises the wake signal if an order is active, and sets the next alarm. -/
def tick (d : Desk) (due : Nat) : Desk :=
  let d := if d.book.hasActive then d.wake else d
  let (d, alarm) := d.setAlarm (due + d.settings.minPollInterval)
  { d with ticker := some (.waiting alarm) }

def pollTicker (d : Desk) : Desk :=
  match d.ticker with
  | some .fresh =>
    if d.shutdown.isGiven || d.settings.minPollInterval = 0 then { d with ticker := some .ended }
    else d.tick d.clock
  | some (.waiting alarm) =>
    if d.shutdown.isGiven then { d with ticker := some .ended }
    else if d.isPast alarm then d.tick alarm.due
    else d
  | _ => d

def canTick (d : Desk) : Bool :=
  match d.ticker with
  | some .fresh => true
  | some (.waiting alarm) => d.shutdown.isGiven || d.isPast alarm
  | _ => false

end SwapDesk.Desk
