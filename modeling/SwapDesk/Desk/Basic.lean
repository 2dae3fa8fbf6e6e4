import SwapDesk.Balance.Reconciler
import SwapDesk.Feed
import SwapDesk.Gateway.Script
import SwapDesk.Order.Command
import SwapDesk.Order.Instruction
import SwapDesk.Order.Issuer
import SwapDesk.Order.Poll

/-! The desk: the book and everything that works on it. Several activities take turns: the scheduling
loop, the ticker, submissions, delayed commands and the caller. Each goes on until it has to wait for a
reply, a time, a signal or its turn with the reconciler. Times are in milliseconds. -/
namespace SwapDesk

/-- A time to wait for. Of two alarms for one time the one that was set first goes off first. -/
structure Alarm where
  due : Nat
  turn : Nat
deriving DecidableEq

/-- A reply on its way. -/
structure Arrival (α : Type) where
  alarm : Alarm
  reply : Except Failure α

/-- Who works with the reconciler. -/
inductive Party
  | loop
  | caller
deriving DecidableEq

/-- The reconciler's lock: who has it, and who waits for it, first come first served. -/
structure Lock where
  holder : Option Party
  queue : List Party

namespace Lock

def isFree (l : Lock) : Bool := l.holder.isNone

/-- Takes the lock if it is free, else waits in line. -/
def request (l : Lock) (p : Party) : Lock :=
  if l.holder = none then { l with holder := some p }
  else if l.holder = some p ∨ p ∈ l.queue then l
  else { l with queue := l.queue ++ [p] }

/-- Gives up the lock, which goes to the first in line, or the place in line. -/
def leave (l : Lock) (p : Party) : Lock :=
  if l.holder = some p then ⟨l.queue.head?, l.queue.tail⟩
  else { l with queue := l.queue.filter (· ≠ p) }

end Lock

/-- What the reconciler is wanted for. -/
inductive Purpose
  /-- A pass; a forced one does not mind the interval. -/
  | pass (force : Bool)
  /-- To have it find out the chain's own currency. -/
  | native
  /-- To look at it. -/
  | look
deriving DecidableEq

inductive VisitStage
  | waiting
  | asked (reply : Arrival NetworkReply)
  | fetching (reply : Arrival BalancesReply)
  | ended (result : Option Reconciled)

/-- Work with the reconciler under way. -/
structure Visit where
  purpose : Purpose
  stage : VisitStage

def Visit.start (purpose : Purpose) : Visit := ⟨purpose, .waiting⟩

def Visit.isOver (v : Visit) : Bool :=
  match v.stage with
  | .ended _ => true
  | _ => false

/-- A question that is not answered yet. -/
structure Query where
  inquiry : Inquiry
  arrival : Arrival TransactionReply

/-- A polling pass under way. While it waits for hashes, `rung` tells that one came. -/
inductive Pass
  | fresh
  | awaiting (ready : List Inquiry) (missing : List String) (deadline : Alarm) (rung : Bool)
  | querying (queries : List Query) (report : PollReport)
  | ended (result : Except Overflow PollReport)

namespace Pass

def isOver : Pass → Bool
  | ended _ => true
  | _ => false

def ring : Pass → Pass
  | awaiting ready missing deadline _ => awaiting ready missing deadline true
  | p => p

end Pass

/-- The next tick of the loop; it has a turn once it is waited for. -/
structure Tick where
  due : Nat
  turn : Option Nat

/-- Whether an idle loop listens for the wake signal. -/
inductive Ear
  | closed
  | listening
  | rung
deriving DecidableEq

/-- The scheduling loop: one forced reconciliation, then cycles of a reconciliation and a polling
pass side by side. -/
inductive Loop
  | startup (visit : Visit)
  | idle (tick : Tick) (ear : Ear)
  | cycle (tick : Tick) (visit : Visit) (pass : Pass)
  | ended

namespace Loop

def isOver : Loop → Bool
  | ended => true
  | _ => false

def ring : Loop → Loop
  | cycle tick visit pass => cycle tick visit pass.ring
  | l => l

end Loop

/-- Raises the wake signal at regular times while orders are active. -/
inductive Ticker
  | fresh
  | waiting (alarm : Alarm)
  | ended

def Ticker.isOver : Ticker → Bool
  | ended => true
  | _ => false

/-- A submission under way. -/
structure Sending where
  serial : Nat
  order : String
  kind : OrderKind
  instruction : Instruction
  reply : Option (Arrival Accepted)

/-- A command that is carried out after a while. -/
structure Delayed where
  serial : Nat
  wait : Nat
  alarm : Option Alarm
  command : Command

/-- What the caller waits for. -/
inductive Errand
  | sleep (alarm : Alarm)
  | visit (visit : Visit)
  | pass (pass : Pass)
  | ping (reply : Arrival Bool)
  | price (reply : Arrival PriceReply)
  /-- The end of the loop and the ticker. -/
  | workers
  /-- The end of all submissions, up to a time. -/
  | submissions (deadline : Alarm)
  | over

def Errand.ring : Errand → Errand
  | pass p => pass p.ring
  | e => e

/-- The activities besides the caller. -/
inductive Activity
  | loop
  | ticker
  | sending (serial : Nat)
  | delayed (serial : Nat)
deriving DecidableEq

/-- A call to the gateway and when it began. -/
structure Asked where
  time : Nat
  request : Request
deriving DecidableEq

/-- The request to end the loop and the ticker. It also counts as given when nobody is left who could
give it. -/
structure Shutdown where
  requested : Bool
  abandoned : Bool

def Shutdown.isGiven (s : Shutdown) : Bool := s.requested || s.abandoned

structure Desk where
  settings : Settings
  pairs : List Pair
  /-- The calendar time that changes are stamped with. -/
  now : Instant
  clock : Nat
  /-- How many alarms were set. -/
  turns : Nat
  /-- How many submissions and delayed commands there were. -/
  serials : Nat
  script : Script
  asked : List Asked
  book : Book
  feed : Feed
  issuer : Issuer
  reconciler : Reconciler
  lock : Lock
  /-- A wake signal that nobody has heard yet. -/
  permit : Bool
  shutdown : Shutdown
  running : Bool
  loop : Option Loop
  ticker : Option Ticker
  sendings : List Sending
  delays : List Delayed
  errand : Errand
  /-- The activities that can go on, in the order of their turns. -/
  ready : List Activity

namespace Desk

/-- A desk at the beginning, with nothing tracked and nothing under way. -/
def opening (s : Settings) (pairs : List Pair) (now : Instant) (nonce : String) : Desk :=
  { settings := s
    pairs, now
    clock := 0
    turns := 0
    serials := 0
    script := .empty
    asked := []
    book := .fresh s.limits
    feed := .ofCapacity s.eventCapacity
    issuer := .fresh nonce
    reconciler := .ofSettings s pairs
    lock := ⟨none, []⟩
    permit := false
    shutdown := ⟨false, false⟩
    running := false
    loop := none
    ticker := none
    sendings := []
    delays := []
    errand := .over
    ready := [] }

/-- An alarm that goes off at a time. -/
def setAlarm (d : Desk) (due : Nat) : Desk × Alarm :=
  ({ d with turns := d.turns + 1 }, ⟨due, d.turns⟩)

def isPast (d : Desk) (a : Alarm) : Bool := a.due ≤ d.clock

/-- Sends a request. What will be answered is settled at once. -/
def ask (d : Desk) (r : Request) : Desk × Arrival r.call.Reply :=
  let (scripted, script) := d.script.take r
  let (d, alarm) := d.setAlarm (d.clock + scripted.delay)
  ({ d with script, asked := d.asked ++ [⟨d.clock, r⟩] }, ⟨alarm, Script.reply r.call scripted⟩)

/-- Tells every pass that waits for hashes that one came. -/
def ringHashes (d : Desk) : Desk :=
  { d with loop := d.loop.map Loop.ring, errand := d.errand.ring }

/-- Takes over a changed book and publishes the events of the change. -/
def commit (d : Desk) (book : Book) (events : List Event) (gotHash : Bool) : Desk :=
  let d := { d with book, feed := d.feed.publishAll events }
  if gotHash then d.ringHashes else d

/-- Carries out a command on the book. -/
def perform (d : Desk) (c : Command) : Desk × Effect :=
  let e := d.book.perform d.now c
  (d.commit e.book e.events e.gotHash, e)

/-- Raises the wake signal: it is heard by an idle loop that listens, else it is kept. -/
def wake (d : Desk) : Desk :=
  match d.loop with
  | some (.idle tick .listening) => { d with loop := some (.idle tick .rung) }
  | _ => { d with permit := true }

end Desk

end SwapDesk
