import SwapDesk.Desk.Loop

/-! How the activities take turns. `canRun` tells which can go on, and `poll` lets one of them go on; any
order of turns is possible. `run` is the order of a single worker: first come first served, the caller
when nobody else is left, and the clock moves on only when nobody can do anything. -/
namespace SwapDesk.Desk

/-- Takes the end of a submission. The loop is woken if the gateway accepted it. -/
def finishSending (d : Desk) (s : Sending) (reply : Except Failure Accepted) : Desk :=
  let change := d.book.update d.now (submissionReport s.order s.kind reply)
  let d := { d with sendings := d.sendings.filter (·.serial ≠ s.serial) }
  let d := d.commit change.book change.events change.gotHash
  match reply with
  | .ok _ => d.wake
  | .error _ => d

/-- Sends the request of a submission. -/
def send (d : Desk) (s : Sending) : Desk × Arrival Accepted :=
  let (asked, a) := d.ask (s.instruction.request d.settings)
  (asked, ⟨a.alarm, (s.instruction.accepted d.settings) <$> a.reply⟩)

def pollSending (d : Desk) (s : Sending) : Desk :=
  let (d, a) := match s.reply with
    | none => d.send s
    | some a => (d, a)
  if d.isPast a.alarm then d.finishSending s a.reply
  else
    { d with sendings := d.sendings.map fun t =>
        if t.serial = s.serial then { t with reply := some a } else t }

def pollDelayed (d : Desk) (s : Delayed) : Desk :=
  let (d, alarm) := match s.alarm with
    | none => d.setAlarm (d.clock + s.wait)
    | some alarm => (d, alarm)
  if d.isPast alarm then
    ({ d with delays := d.delays.filter (·.serial ≠ s.serial) }.perform s.command).1
  else
    { d with delays := d.delays.map fun t =>
        if t.serial = s.serial then { t with alarm := some alarm } else t }

/-- All activities that are not over. -/
def activities (d : Desk) : List Activity :=
  [.loop, .ticker] ++ d.sendings.map (fun s => .sending s.serial) ++
    d.delays.map fun s => .delayed s.serial

def canRun (d : Desk) : Activity → Bool
  | .loop => d.canLoop
  | .ticker => d.canTick
  | .sending n => d.sendings.any fun s => s.serial = n && s.reply.all fun a => d.isPast a.alarm
  | .delayed n => d.delays.any fun s => s.serial = n && s.alarm.all d.isPast

/-- Lets an activity go on. -/
def poll (d : Desk) : Activity → Desk
  | .loop => d.pollLoop
  | .ticker => d.pollTicker
  | .sending n =>
    match d.sendings.find? (·.serial = n) with
    | some s => d.pollSending s
    | none => d
  | .delayed n =>
    match d.delays.find? (·.serial = n) with
    | some s => d.pollDelayed s
    | none => d

/-- Breaks off all submissions. -/
def abortSendings (d : Desk) : Desk := { d with sendings := [], errand := .over }

/-- Goes on with the wait for submissions. -/
def pollSubmissions (d : Desk) (deadline : Alarm) : Desk :=
  if d.sendings.isEmpty then { d with errand := .over }
  else if d.isPast deadline then d.abortSendings
  else { d with errand := .submissions deadline }

/-- Lets the caller go on. -/
def pollErrand (d : Desk) : Desk :=
  match d.errand with
  | .visit v =>
    let (d, v) := d.pollVisit .caller v
    { d with errand := .visit v }
  | .pass p =>
    let (d, p) := d.pollPass p
    { d with errand := .pass p }
  | .workers =>
    if d.loop.all Loop.isOver && d.ticker.all Ticker.isOver then
      let (d, deadline) := d.setAlarm (d.clock + d.settings.requestTimeout)
      d.pollSubmissions deadline
    else d
  | .submissions deadline => d.pollSubmissions deadline
  | _ => d

/-- Whether the caller has what it waits for. -/
def errandOver (d : Desk) : Bool :=
  match d.errand with
  | .sleep alarm => d.isPast alarm
  | .visit v => v.isOver
  | .pass p => p.isOver
  | .ping a => d.isPast a.alarm
  | .price a => d.isPast a.alarm
  | .workers | .submissions _ => false
  | .over => true

/-- Puts every activity that can go on in line. -/
def enqueue (d : Desk) : Desk :=
  { d with
    ready := d.ready ++ d.activities.filter fun a => d.canRun a && !d.ready.contains a }

/-- Lets the first in line go on for as long as it can. -/
def serve (d : Desk) (a : Activity) (rest : List Activity) : Desk :=
  let d := d.poll a
  { d with ready := if d.canRun a then a :: rest else rest }.enqueue

def visitAlarms (v : Visit) : List Alarm :=
  match v.stage with
  | .asked a => [a.alarm]
  | .fetching a => [a.alarm]
  | _ => []

def passAlarms : Pass → List Alarm
  | .awaiting _ _ deadline _ => [deadline]
  | .querying queries _ => queries.map (·.arrival.alarm)
  | _ => []

def tickAlarms (t : Tick) : List Alarm := t.turn.toList.map fun turn => ⟨t.due, turn⟩

/-- The alarms that an activity has set. -/
def alarmsOf (d : Desk) : Activity → List Alarm
  | .loop =>
    match d.loop with
    | some (.startup v) => visitAlarms v
    | some (.idle t _) => tickAlarms t
    | some (.cycle t v p) => tickAlarms t ++ visitAlarms v ++ passAlarms p
    | _ => []
  | .ticker =>
    match d.ticker with
    | some (.waiting alarm) => [alarm]
    | _ => []
  | .sending n =>
    d.sendings.flatMap fun s =>
      if s.serial = n then s.reply.toList.map (·.alarm) else []
  | .delayed n =>
    d.delays.flatMap fun s => if s.serial = n then s.alarm.toList else []

def errandAlarms (d : Desk) : List Alarm :=
  match d.errand with
  | .sleep alarm => [alarm]
  | .visit v => visitAlarms v
  | .pass p => passAlarms p
  | .ping a => [a.alarm]
  | .price a => [a.alarm]
  | .submissions deadline => [deadline]
  | _ => []

/-- The time of the next alarm. -/
def nextDue? (d : Desk) : Option Nat :=
  let alarms := d.errandAlarms ++ d.activities.flatMap d.alarmsOf
  (alarms.filterMap fun a => if d.clock < a.due then some a.due else none).min?

/-- The activities whose alarms go off at a time, in the order of the alarms. -/
def wokenAt (d : Desk) (due : Nat) : List Activity :=
  let alarms := d.activities.flatMap fun a =>
    ((d.alarmsOf a).filter (·.due = due)).map fun alarm => (alarm.turn, a)
  ((alarms.mergeSort fun x y => x.1 ≤ y.1).map Prod.snd).eraseDups

/-- Moves the clock on to a time. -/
def jump (d : Desk) (due : Nat) : Desk :=
  { d with clock := due, ready := d.wokenAt due }

/-- Runs until the caller has what it waits for; the number bounds the turns. -/
def run : Nat → Desk → Desk
  | 0, d => d
  | n + 1, d =>
    match d.ready with
    | a :: rest => run n (d.serve a rest)
    | [] =>
      let d := d.pollErrand.enqueue
      if d.errandOver then d
      else match d.ready, d.nextDue? with
        | [], some due =>
          let d := (d.jump due).pollErrand.enqueue
          if d.errandOver then d else run n d
        | [], none => d
        | _, _ => run n d

/-- More turns than any errand takes. -/
def turnBound : Nat := pow10 12

/-- Has the caller wait for something. -/
def await (d : Desk) (e : Errand) : Desk :=
  let d := { d with errand := e }.pollErrand.enqueue
  if d.errandOver then d else run turnBound d

end SwapDesk.Desk
