import SwapDesk.Desk.Basic

/-! Polling passes: wait for the hashes of new transactions, charge the orders whose hash did not come,
then ask about all others at once and take each answer as it arrives. -/
namespace SwapDesk.Desk

def takeTally (d : Desk) (t : Tally) : Desk := d.commit t.book t.events t.gotHash

/-- Takes one answer. Where the pass breaks off, what it has done by then stands. -/
def answer (d : Desk) (report : PollReport) (q : Inquiry)
    (reply : Except Failure TransactionReply) : Except (Desk × Overflow) (Desk × PollReport) :=
  match (Tally.start d.book report).answer d.now d.reconciler.native q reply with
  | .error x => .error (d.takeTally x.tally, x.cause)
  | .ok t => .ok (d.takeTally t, t.report)

def closePass (kept : List Query) (report : PollReport) : Pass :=
  if kept.isEmpty then .ended (.ok report.close) else .querying kept report

/-- Takes the answers that have arrived; the other questions stay open. -/
def collect (d : Desk) (report : PollReport) (kept : List Query) : List Query → Desk × Pass
  | [] => (d, closePass kept report)
  | q :: rest =>
    if d.isPast q.arrival.alarm then
      match d.answer report q.inquiry q.arrival.reply with
      | .error (d, cause) => (d, .ended (.error cause))
      | .ok (d, report) => d.collect report kept rest
    else d.collect report (kept ++ [q]) rest

/-- Asks about each order. An answer that comes at once is taken before the next question. -/
def askAll (d : Desk) (report : PollReport) (kept : List Query) : List Inquiry → Desk × Pass
  | [] => (d, closePass kept report)
  | q :: rest =>
    let (d, arrival) := d.ask (.transaction ⟨d.settings.chain, d.settings.network, q.hash⟩)
    if d.isPast arrival.alarm then
      match d.answer report q arrival.reply with
      | .error (d, cause) => (d, .ended (.error cause))
      | .ok (d, report) => d.askAll report kept rest
    else d.askAll report (kept ++ [⟨q, arrival⟩]) rest

/-- Ends the wait for hashes. -/
def chargeAndAsk (d : Desk) (ready : List Inquiry) (missing : List String) : Desk × Pass :=
  match (Tally.start d.book .empty).chargeAll d.now missing with
  | .error x => (d.takeTally x.tally, .ended (.error x.cause))
  | .ok t => (d.takeTally t).askAll t.report [] ready

/-- Looks for the missing hashes, and waits for the rest of them up to a time. -/
def awaitHashes (d : Desk) (ready : List Inquiry) (missing : List String) (due : Nat) :
    Desk × Pass :=
  let (got, missing) := d.book.recheck missing
  let ready := ready ++ got
  if missing.isEmpty || due ≤ d.clock then d.chargeAndAsk ready missing
  else
    let (d, deadline) := d.setAlarm due
    (d, .awaiting ready missing deadline false)

/-- Begins a pass; without active orders there is nothing to do. -/
def beginPass (d : Desk) : Desk × Pass :=
  let active := d.book.active
  if active.isEmpty then (d, .ended (.ok .empty))
  else
    let (ready, missing) := inquiries active
    d.awaitHashes ready missing (d.clock + d.settings.hashWait)

/-- Goes on as far as possible. A hash that came counts for more than the end of the wait. -/
def pollPass (d : Desk) : Pass → Desk × Pass
  | .fresh => d.beginPass
  | .awaiting ready missing deadline rung =>
    if rung then d.awaitHashes ready missing deadline.due
    else if d.isPast deadline then d.chargeAndAsk ready missing
    else (d, .awaiting ready missing deadline rung)
  | .querying queries report => d.collect report [] queries
  | .ended result => (d, .ended result)

/-- Whether a pass can go on. -/
def canPass (d : Desk) : Pass → Bool
  | .fresh => true
  | .awaiting _ _ deadline rung => rung || d.isPast deadline
  | .querying queries _ => queries.any fun q => d.isPast q.arrival.alarm
  | .ended _ => false

end SwapDesk.Desk
