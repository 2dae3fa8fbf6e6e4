import SwapDesk.Gateway.Exchange
import SwapDesk.Order.Book
import SwapDesk.Order.Resolution
import SwapDesk.Settings

/-! What a caller can have done on the chain: the order that is tracked for it, the request that is
sent, and the report that the gateway's reply amounts to. -/
namespace SwapDesk

inductive Instruction
  | swap (side : Side) (pair : Pair) (amount price : Decimal)
  /-- Lets the spender of the settings dispose of a token. -/
  | approve (token : String)
  | addLiquidity (pair : Pair) (base quote : Decimal)
  | removeLiquidity (pair : Pair) (percent : Decimal)
deriving DecidableEq

/-- What an order says about its instruction. -/
structure Terms where
  kind : OrderKind
  side : Side
  pair : Pair
  amount : Decimal
  price : Decimal
deriving DecidableEq

/-- An accepted transaction: its hash and what else the gateway said about it. -/
structure Accepted where
  hash : String
  extras : Dict Json

namespace Accepted

def decimalExtra (key : String) (d : Option Decimal) : List (String × Json) :=
  d.toList.map fun d => (key, .text d.toText)

def gasExtras (price : Option Decimal) (token : Option String) (nonce : Option UInt64) :
    List (String × Json) :=
  decimalExtra "gasPrice" price ++ token.toList.map (fun t => ("gasPriceToken", .text t)) ++
    nonce.toList.map fun n => ("nonce", .int n.toNat)

def ofTrade (r : TradeReply) : Accepted :=
  ⟨r.txHash, .ofList (gasExtras r.gasPrice r.gasPriceToken r.nonce ++
    decimalExtra "gasLimit" r.gasLimit ++ decimalExtra "gasCost" r.gasCost)⟩

def ofApproval (r : ApproveReply) : Accepted := ⟨r.hash, .ofList (gasExtras none none r.nonce)⟩

def ofLiquidity (r : LiquidityReply) : Accepted :=
  ⟨r.txHash, .ofList (gasExtras r.gasPrice r.gasPriceToken r.nonce)⟩

end Accepted

namespace Instruction

/-- The price of added liquidity is what the base amount costs in the quote token. -/
def liquidityPrice (base quote : Decimal) : Except Overflow Decimal :=
  if base.isZero then .ok .zero else quote.div base

def terms : Instruction → Except Overflow Terms
  | swap side pair amount price => .ok ⟨.trade, side, pair, amount, price⟩
  | approve token => .ok ⟨.approval, .buy, ⟨upper token, upper token⟩, .zero, .zero⟩
  | addLiquidity pair base quote => do
    return ⟨.addLiquidity, .buy, pair, base, ← liquidityPrice base quote⟩
  | removeLiquidity pair percent => .ok ⟨.removeLiquidity, .sell, pair, percent, .zero⟩

def request (s : Settings) : Instruction → Request
  | swap side pair amount price =>
    .trade ⟨s.chain, s.network, s.connector, s.wallet, pair.base, pair.quote, side, amount, price,
      none⟩
  | approve token => .approve ⟨s.chain, s.network, s.wallet, s.spenderName, upper token⟩
  | addLiquidity pair base quote =>
    .addLiquidity ⟨s.chain, s.network, s.connector, s.wallet, pair.base, pair.quote, base, quote⟩
  | removeLiquidity pair percent =>
    .removeLiquidity ⟨s.chain, s.network, s.connector, s.wallet, pair.base, pair.quote, percent⟩

def accepted (s : Settings) : (i : Instruction) → (i.request s).call.Reply → Accepted
  | swap _ _ _ _, r => .ofTrade r
  | approve _, r => .ofApproval r
  | addLiquidity _ _ _, r => .ofLiquidity r
  | removeLiquidity _ _, r => .ofLiquidity r

end Instruction

/-- The new order of an instruction. -/
def Terms.order (t : Terms) (now : Instant) (id : String) : Order :=
  .fresh now id t.kind t.side t.pair t.amount t.price

/-- The state of an order whose transaction was accepted. -/
def OrderKind.acceptedState : OrderKind → OrderState
  | .approval => .pendingApproval
  | _ => .opened

/-- The report that a submission amounts to. Nothing is tried twice: any failure fails the order. -/
def submissionReport (id : String) (kind : OrderKind) : Except Failure Accepted → Update
  | .ok a =>
    { Update.toState id kind.acceptedState with
      txHash := some a.hash
      extras := some a.extras }
  | .error f =>
    { Update.failing id f.message with
      extras := some (.ofList [("error", .text f.message)]) }

end SwapDesk
