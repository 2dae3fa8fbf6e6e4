import SwapDesk.Order.Book
import SwapDesk.Gateway.Failure
import SwapDesk.Order.Resolution

/-! What a polling pass does to a book: which transactions it asks about, what each answer changes, and
the tally of the pass. -/
namespace SwapDesk

/-- A question: the order and the hash of its transaction. -/
structure Inquiry where
  order : String
  hash : String
deriving DecidableEq

/-- The questions about those of the orders that have a hash, and the ids of the others. -/
def inquiries (orders : List Order) : List Inquiry × List String :=
  (orders.filterMap fun o => o.txHash.map fun h => ⟨o.id, h⟩,
   (orders.filter fun o => o.txHash.isNone).map (·.id))

namespace Book

/-- The question about an order that had no hash, if it has one now and is still active. -/
def inquiry? (b : Book) (id : String) : Option Inquiry := do
  let o ← b.find? id
  if o.state.isTerminal then none else return ⟨id, ← o.txHash⟩

/-- Still active and without a hash. -/
def lacksHash (b : Book) (id : String) : Bool :=
  (b.find? id).any fun o => o.state.isActive && o.txHash.isNone

/-- The orders of a list that have got a hash, and those that still lack one. The others are
dropped. -/
def recheck (b : Book) (missing : List String) : List Inquiry × List String :=
  (missing.filterMap b.inquiry?, missing.filter b.lacksHash)

/-- The change that a reply about a transaction makes, if any. The reply does not count unless the
hash is still that of the order. -/
def settle (b : Book) (now : Instant) (native : Option String) (q : Inquiry)
    (reply : TransactionReply) : Except Overflow (Option Change) :=
  match b.findByHash? q.hash with
  | none => .ok none
  | some o =>
    if o.id ≠ q.order then .ok none
    else do
      match ← reply.resolution (o.extraDecimal? "gasPrice") with
      | .filled fee =>
        return some (b.update now
          { Update.toState q.order .filled with
            txHash := some q.hash
            fee := some fee
            feeAsset := native <|> o.extraText? "gasPriceToken" })
      | .ambiguous => return some (b.markAmbiguous now q.order)
      | .notFound => return some (b.markNotFound now q.order)
      | .awaitingReceipt => return none

end Book

/-- The tally of a pass. -/
structure PollReport where
  polled : Nat
  filled : Nat
  failed : Nat
  /-- Orders that are still active after the pass. -/
  pending : Nat
  errors : Nat
  /-- Orders whose hash did not come in time. -/
  awaiting : Nat
deriving DecidableEq

namespace PollReport

def empty : PollReport := ⟨0, 0, 0, 0, 0, 0⟩

def count (r : PollReport) : Outcome → PollReport
  | .applied _ .filled => { r with filled := r.filled + 1 }
  | .applied _ .failed => { r with failed := r.failed + 1 }
  | _ => r

def close (r : PollReport) : PollReport :=
  { r with pending := r.polled + r.awaiting - r.filled - r.failed }

end PollReport

/-- A book in the middle of a pass, what the pass published and its tally. -/
structure Tally where
  book : Book
  events : List Event
  gotHash : Bool
  report : PollReport

/-- The end of a pass that breaks off: the tally by then, and the cause. -/
structure Break where
  tally : Tally
  cause : Overflow

namespace Tally

def start (b : Book) (r : PollReport) : Tally := ⟨b, [], false, r⟩

def take (t : Tally) (c : Change) : Tally :=
  ⟨c.book, t.events ++ c.events, t.gotHash || c.gotHash, t.report.count c.outcome⟩

/-- Takes a change and goes on, unless the change could not be counted. -/
def goOn (t : Tally) (c : Change) : Except Break Tally :=
  match c.outcome with
  | .overflow cause => .error ⟨t.take c, cause⟩
  | _ => .ok (t.take c)

/-- A hash that does not come counts like a transaction that is not found. -/
def charge (now : Instant) (t : Tally) (id : String) : Except Break Tally :=
  t.goOn (t.book.markNotFound now id)

def chargeAll (now : Instant) (t : Tally) (missing : List String) : Except Break Tally := do
  let t ← missing.foldlM (charge now) t
  return { t with report := { t.report with awaiting := missing.length } }

/-- A question that failed is only counted. -/
def answer (now : Instant) (native : Option String) (t : Tally) (q : Inquiry)
    (reply : Except Failure TransactionReply) : Except Break Tally :=
  let t := { t with report := { t.report with polled := t.report.polled + 1 } }
  match reply with
  | .error _ => .ok { t with report := { t.report with errors := t.report.errors + 1 } }
  | .ok reply =>
    match t.book.settle now native q reply with
    | .error cause => .error ⟨t, cause⟩
    | .ok none => .ok t
    | .ok (some c) => t.goOn c

end Tally

end SwapDesk
