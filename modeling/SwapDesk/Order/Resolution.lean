import SwapDesk.Decimal.Arith
import SwapDesk.Gateway.Reply
import SwapDesk.Overflow

/-! What the chain's word about a transaction means for its order. -/
namespace SwapDesk

inductive Resolution
  /-- Done, at this fee. -/
  | filled (fee : Decimal)
  /-- Still under way. -/
  | ambiguous
  /-- Unknown to the chain, or reverted. -/
  | notFound
  /-- Said to be done, but without a receipt yet. -/
  | awaitingReceipt
deriving DecidableEq

namespace Decimal

def mul (a b : Decimal) : Except Overflow Decimal := Overflow.check .multiplication (a.mul? b)

def add (a b : Decimal) : Except Overflow Decimal := Overflow.check .addition (a.add? b)

def sub (a b : Decimal) : Except Overflow Decimal := Overflow.check .subtraction (a.sub? b)

def div (a b : Decimal) : Except Overflow Decimal := Overflow.check .division (a.div? b)

end Decimal

/-- The fee is the gas used times its price: the receipt's, else the one quoted at submission. -/
def TransactionReply.resolution (r : TransactionReply) (quoted : Option Decimal) :
    Except Overflow Resolution :=
  match r.status with
  | .notFound => .ok .notFound
  | .pending | .likelySuccess | .likelyFailure => .ok .ambiguous
  | .confirmed =>
    match r.receipt with
    | none => .ok .awaitingReceipt
    | some receipt =>
      if receipt.succeeded then do
        let price := (receipt.effectiveGasPrice <|> quoted).getD .zero
        return .filled (← receipt.gasUsed.mul price)
      else .ok .notFound

/-- The price with a margin: buying may cost more and selling may bring less. -/
def limitPrice (price : Decimal) (side : Side) (margin : Decimal) : Except Overflow Decimal := do
  match side with
  | .buy => price.mul (← Decimal.one.add margin)
  | .sell => price.mul (← Decimal.one.sub margin)

end SwapDesk
