import SwapDesk.Desk.Run

/-! What a caller can do with a desk. -/
namespace SwapDesk

/-- Why a desk does not do what it was asked for. -/
inductive Refusal
  | notRunning
  | alreadyRunning
  | rejected (reason : Rejection)
  | overflow (cause : Overflow)
  | gateway (cause : Failure)

def Refusal.message : Refusal → String
  | notRunning => "connector is not running"
  | alreadyRunning => "connector is already running"
  | rejected reason => reason.message
  | overflow cause => cause.message
  | gateway cause => cause.message

structure Quote where
  price : Decimal
  limitPrice : Decimal
  expectedAmount : Option Decimal
  gasCost : Option Decimal

namespace Desk

def ofSettings (s : Settings) (now : Instant) (nonce : String) : Except SettingsFault Desk := do
  return opening s (← s.tradingPairs) now nonce

/-- Starts the loop. -/
def startLoop (d : Desk) : Desk := { d with loop := some (.startup (.start (.pass true))) }.enqueue

def startTicker (d : Desk) : Desk := { d with ticker := some .fresh }.enqueue

/-- Sets the loop and the ticker going. -/
def begin (d : Desk) : Desk :=
  { d with running := true, shutdown := ⟨false, false⟩ }.startLoop.startTicker

/-- Ends the loop and the ticker. Submissions have one request timeout left. -/
def finish (d : Desk) : Desk :=
  { d with running := false, shutdown := ⟨true, false⟩ }.enqueue.await .workers

def start (d : Desk) : Except Refusal Desk :=
  if d.running then .error .alreadyRunning else .ok d.begin

def stop (d : Desk) : Except Refusal Desk :=
  if d.running then .ok d.finish else .error .notRunning

/-- Sets or resets the request to shut down. -/
def setShutdown (d : Desk) (requested : Bool) : Desk :=
  { d with shutdown := { d.shutdown with requested } }.enqueue

def abandonShutdown (d : Desk) : Desk :=
  { d with shutdown := { d.shutdown with abandoned := true } }.enqueue

def callWake (d : Desk) : Desk := d.wake.enqueue

/-- Takes a kept wake signal, and tells whether there was one. -/
def takeWake (d : Desk) : Desk × Bool := ({ d with permit := false }, d.permit)

/-- Carries out a command. -/
def command (d : Desk) (c : Command) : Desk × Effect :=
  let (d, e) := d.perform c
  (d.enqueue, e)

/-- Has a command carried out after a while. -/
def later (d : Desk) (wait : Nat) (c : Command) : Desk :=
  let delayed : Delayed := ⟨d.serials, wait, none, c⟩
  { d with serials := d.serials + 1, delays := d.delays ++ [delayed] }.enqueue

/-- Takes back kept orders and wakes the loop if there were any. -/
def restore (d : Desk) (kept : Orders) : Desk × Nat :=
  let (book, n) := d.book.restore kept
  let d := d.commit book [] (0 < n)
  ((if 0 < n then d.wake else d).enqueue, n)

/-- What is to be tracked for an instruction. Only a desk that is running takes any. -/
def termsFor (d : Desk) (i : Instruction) : Except Refusal Terms := do
  let terms ← i.terms.mapError .overflow
  if d.running then return terms else throw .notRunning

/-- Tracks a new order. -/
def enroll (d : Desk) (terms : Terms) : Desk × Except Refusal String :=
  let (id, issuer) := d.issuer.issue terms.kind terms.side terms.pair
  let d := { d with issuer }
  match d.book.track (terms.order d.now id) with
  | .error reason => (d, .error (.rejected reason))
  | .ok (book, events) => (d.commit book events false, .ok id)

/-- Begins the submission of a tracked order. -/
def submit (d : Desk) (i : Instruction) (kind : OrderKind) (id : String) : Desk :=
  let sending : Sending := ⟨d.serials, id, kind, i, none⟩
  { d with serials := d.serials + 1, sendings := d.sendings ++ [sending] }.enqueue

/-- Tracks an order for an instruction and has it submitted. -/
def instruct (d : Desk) (i : Instruction) : Desk × Except Refusal String :=
  match d.termsFor i with
  | .error r => (d, .error r)
  | .ok terms =>
    match d.enroll terms with
    | (d, .error r) => (d, .error r)
    | (d, .ok id) => (d.submit i terms.kind id, .ok id)

/-- A broadcast transaction is not called back, so nothing is ever cancelled. -/
def cancel (_ : Desk) (_id : String) : Bool := false

def sleep (d : Desk) (wait : Nat) : Desk :=
  let (d, alarm) := d.setAlarm (d.clock + wait)
  d.await (.sleep alarm)

/-- A polling pass of the caller's own. -/
def pollOnce (d : Desk) : Desk × Option (Except Overflow PollReport) :=
  let d := d.await (.pass .fresh)
  match d.errand with
  | .pass (.ended result) => (d, some result)
  | _ => (d, none)

/-- Works with the reconciler. -/
def consult (d : Desk) (purpose : Purpose) : Desk × Option Reconciled :=
  let d := d.await (.visit (.start purpose))
  match d.errand with
  | .visit ⟨_, .ended result⟩ => (d, result)
  | _ => (d, none)

def reconcile (d : Desk) (force : Bool) : Desk × Option Reconciled := d.consult (.pass force)

/-- Whether the gateway is up. -/
def checkNetwork (d : Desk) : Desk × Bool :=
  let (d, a) := d.ask .ping
  let up := match a.reply with
    | .ok up => up
    | .error _ => false
  (d.await (.ping a), up)

/-- The gateway's price and the limit price made of it. -/
def quote (d : Desk) (pair : Pair) (side : Side) (amount : Decimal) :
    Desk × Except Refusal Quote :=
  let s := d.settings
  let (d, a) := d.ask
    (.price ⟨s.chain, s.network, s.connector, pair.base, pair.quote, amount, side⟩)
  let result : Except Refusal Quote := do
    let r ← a.reply.mapError .gateway
    let limit ← (limitPrice r.price side s.slippage).mapError .overflow
    return ⟨r.price, limit, r.expectedAmount, r.gasCost⟩
  (d.await (.price a), result)

end Desk

end SwapDesk
