import SwapDesk.Balance.Map
import SwapDesk.Gateway.Failure
import SwapDesk.Settings

/-! Keeping the balances equal to the gateway's. Each successful pass replaces the whole map; passes
that are not forced keep an interval between them. Times are in milliseconds. -/
namespace SwapDesk

structure Reconciler where
  chain : String
  network : String
  wallet : String
  interval : Nat
  /-- The tokens of the trading pairs and of the settings, in order and without repetition. -/
  tokens : Dict Unit
  /-- The chain's own currency, once it is known. -/
  native : Option String
  /-- The balances, once a pass succeeded. -/
  balances : Option BalanceMap
  /-- The end of the last successful pass. -/
  lastSync : Option Nat

/-- How a pass ended. -/
inductive Reconciled
  /-- The last success is too recent. -/
  | skipped
  /-- The chain's own currency is still unknown. -/
  | deferred
  | applied (diff : BalanceDiff)
  | failed (cause : Failure)

namespace Reconciler

def ofSettings (s : Settings) (pairs : List Pair) : Reconciler :=
  { chain := s.chain
    network := s.network
    wallet := s.wallet
    interval := s.balanceInterval
    tokens := .ofList
      ((pairs.flatMap (fun p => [p.base, p.quote]) ++ s.tokens.map upper).map fun t => (t, ()))
    native := s.native
    balances := none
    lastSync := none }

/-- Whether the interval since the last success is over. -/
def isDue (r : Reconciler) (now : Nat) : Bool :=
  match r.lastSync with
  | none => true
  | some last => r.interval ≤ now - last

/-- The tokens whose balances are asked for, in order. -/
def interest (r : Reconciler) : List String :=
  match r.native with
  | none => r.tokens.keys
  | some t => (r.tokens.insert t ()).keys

def networkRequest (r : Reconciler) : NetworkRequest := ⟨r.chain, r.network⟩

def balancesRequest (r : Reconciler) : BalancesRequest :=
  ⟨r.chain, r.network, r.wallet, r.interest⟩

def learn (r : Reconciler) (native : String) : Reconciler := { r with native := some native }

def current (r : Reconciler) : BalanceMap := r.balances.getD .empty

/-- Takes the balances of a reply in place of all that were there. Before the first of them there is
nothing to compare with, and every token is new. -/
def accept (r : Reconciler) (now : Nat) (reply : BalancesReply) : Reconciler × BalanceDiff :=
  let next := BalanceMap.ofReply reply
  let diff := match r.balances with
    | some previous => previous.diff next
    | none => { added := next.keys, removed := [], changed := [] }
  ({ r with balances := some next, lastSync := some now }, diff)

end Reconciler

end SwapDesk
