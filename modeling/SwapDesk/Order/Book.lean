import SwapDesk.Order.Event
import SwapDesk.Overflow

/-! The book of tracked orders. Every change of an order goes through one of its operations; each
says what it did, which events it publishes and whether an order got the hash of its transaction. -/
namespace SwapDesk

/-- How many reports in a row an order survives that do not settle it. -/
structure Limits where
  notFound : UInt32
  ambiguous : Option UInt32
deriving DecidableEq

def Limits.default : Limits := ⟨10, none⟩

/-- Why a lost order failed. -/
def lostReason : String := "lost"

/-- Why an order failed that stayed ambiguous. -/
def unresolvedReason : String := "unresolved"

/-- A report about one order. -/
structure Update where
  order : String
  state : OrderState
  txHash : Option String
  fee : Option Decimal
  feeAsset : Option String
  extras : Option (Dict Json)
  failure : Option String

namespace Update

/-- A report of a state and nothing else. -/
def toState (order : String) (state : OrderState) : Update :=
  ⟨order, state, none, none, none, none, none⟩

/-- A report that the order failed. -/
def failing (order reason : String) : Update :=
  { toState order .failed with failure := some reason }

end Update

inductive Rejection
  | duplicate (id : String)
  | step (source target : OrderState)
deriving DecidableEq

def Rejection.message : Rejection → String
  | .duplicate id => "order " ++ id ++ " is already tracked"
  | .step source target =>
    "invalid state transition: from " ++ source.name ++ " to " ++ target.name

/-- What became of a report. -/
inductive Outcome
  | applied (source target : OrderState)
  | unknown
  | terminal (state : OrderState)
  | rejected (reason : Rejection)
  | counted (count : UInt32)
  /-- The count cannot be raised any more, and whoever raises it breaks off there. -/
  | overflow (cause : Overflow)
deriving DecidableEq

def Outcome.isApplied : Outcome → Bool
  | .applied _ _ => true
  | _ => false

/-- The orders by id, and the ids of orders by transaction hash. -/
structure Book where
  orders : Orders
  byHash : Dict String
  limits : Limits

/-- A report's effect. -/
structure Change where
  book : Book
  outcome : Outcome
  events : List Event
  gotHash : Bool

/-- The data of an order after an admitted report. -/
def Order.amend (o : Order) (now : Instant) (u : Update) : Order :=
  { o with
    txHash := u.txHash <|> o.txHash
    fee := u.fee.getD o.fee
    feeAsset := if u.fee.isSome then u.feeAsset <|> o.feeAsset else o.feeAsset
    extras := u.extras.getD o.extras
    failure := u.failure <|> o.failure
    state := u.state
    updatedAt := now }

namespace Book

def fresh (limits : Limits) : Book := ⟨.empty, .empty, limits⟩

def find? (b : Book) (id : String) : Option Order := b.orders.find? id

/-- The order that is indexed under a transaction hash. -/
def findByHash? (b : Book) (hash : String) : Option Order := do b.find? (← b.byHash.find? hash)

/-- Non-terminal orders in the order of their ids. -/
def active (b : Book) : List Order := b.orders.values.filter (·.state.isActive)

def hasActive (b : Book) : Bool := b.orders.values.any (·.state.isActive)

/-- The index without the hash that an order had, and with the one that it has now. -/
def reindex (index : Dict String) (id : String) (old new : Option String) : Dict String :=
  let index := match old with
    | some h => index.erase h
    | none => index
  match new with
  | some h => index.insert h id
  | none => index

/-- Nothing changed. -/
def keep (b : Book) (outcome : Outcome) : Change := ⟨b, outcome, [], false⟩

/-- Takes a new order into the book. -/
def track (b : Book) (o : Order) : Except Rejection (Book × List Event) :=
  if b.orders.contains o.id then .error (.duplicate o.id)
  else
    .ok ({ b with
      orders := b.orders.insert o.id o
      byHash := reindex b.byHash o.id none o.txHash }, [o.creation])

/-- Whether a report brings a hash that the order does not have yet. -/
def bringsHash (o : Order) (u : Update) : Bool := u.txHash.isSome && u.txHash != o.txHash

/-- Applies a report: all of it, or nothing if the order is unknown, terminal or may not take the
step. -/
def update (b : Book) (now : Instant) (u : Update) : Change :=
  match b.find? u.order with
  | none => b.keep .unknown
  | some o =>
    if o.state.isTerminal then b.keep (.terminal o.state)
    else if !o.state.canStep u.state then b.keep (.rejected (.step o.state u.state))
    else
      let gotHash := bringsHash o u
      let amended := o.amend now u
      { book :=
          { b with
            orders := b.orders.insert u.order amended
            byHash := if gotHash then reindex b.byHash o.id o.txHash u.txHash else b.byHash }
        outcome := .applied o.state u.state
        events := amended.transition o.state
        gotHash }

/-- Replaces an order's data without a report. -/
def put (b : Book) (id : String) (o : Order) : Book := { b with orders := b.orders.insert id o }

/-- Counts a report that the transaction is not found; at the limit the order is lost. -/
def markNotFound (b : Book) (now : Instant) (id : String) : Change :=
  match b.find? id with
  | none => b.keep .unknown
  | some o =>
    if o.state.isTerminal then b.keep (.terminal o.state)
    else
      match nextCount? o.notFound with
      | none => b.keep (.overflow .count)
      | some count =>
        let b := b.put id { o with notFound := count }
        if b.limits.notFound ≤ count then b.update now (.failing id lostReason)
        else b.keep (.counted count)

/-- Counts a report that the transaction is still under way. It exists, so the count of not-found
reports starts again, and does so even if this report cannot be counted. -/
def markAmbiguous (b : Book) (now : Instant) (id : String) : Change :=
  match b.find? id with
  | none => b.keep .unknown
  | some o =>
    if o.state.isTerminal then b.keep (.terminal o.state)
    else
      match nextCount? o.ambiguous with
      | none => (b.put id { o with notFound := 0 }).keep (.overflow .count)
      | some count =>
        let b := b.put id { o with notFound := 0, ambiguous := count }
        match b.limits.ambiguous with
        | none => b.keep (.counted count)
        | some limit =>
          if limit ≤ count then b.update now (.failing id unresolvedReason)
          else b.keep (.counted count)

/-- Takes back one kept order under `id`, unless the order in the book is terminal. -/
def restoreOne (b : Book) (id : String) (o : Order) : Book × Nat :=
  let old := b.find? id
  if old.any (·.state.isTerminal) then (b, 0)
  else
    ({ b with
      orders := b.orders.insert id { o with id }
      byHash := reindex b.byHash id (old.bind (·.txHash)) o.txHash }, 1)

/-- Takes back kept orders one by one and counts them. -/
def restoreFrom (b : Book) : List (String × Order) → Book × Nat
  | [] => (b, 0)
  | (id, o) :: rest =>
    let (b, n) := b.restoreOne id o
    let (b, m) := b.restoreFrom rest
    (b, n + m)

def restore (b : Book) (kept : Orders) : Book × Nat := b.restoreFrom kept.entries

/-- Terminal and last updated at or before a point of time. -/
def isStale (cutoff : Instant.Mark) (o : Order) : Bool :=
  o.state.isTerminal && !o.updatedAt.isAfter cutoff

/-- Drops stale orders, and the index entries of their hashes. -/
def purgeBefore (b : Book) (cutoff : Instant.Mark) : Book × Nat :=
  let stale := b.orders.filter fun _ o => isStale cutoff o
  let hashes := stale.values.filterMap (·.txHash)
  ({ b with
    orders := b.orders.filter fun _ o => !isStale cutoff o
    byHash := b.byHash.filter fun h _ => !hashes.contains h }, stale.size)

/-- Drops terminal orders that were last updated `age` nanoseconds ago or before. -/
def purge (b : Book) (now : Instant) (age : Int) : Except Overflow (Book × Nat) := do
  let cutoff ← Overflow.check .time (now.before? age)
  return b.purgeBefore cutoff

end Book

end SwapDesk
