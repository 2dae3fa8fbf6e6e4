import SwapDesk.Order.Record
import SwapDesk.Text.Percent

/-! Calls to the gateway and the JSON of their requests. -/
namespace SwapDesk

/-- A swap of `amount` of the base token at no worse a price than the limit. -/
structure TradeRequest where
  chain : String
  network : String
  connector : String
  address : String
  base : String
  quote : String
  side : Side
  amount : Decimal
  limitPrice : Decimal
  nonce : Option UInt64
deriving DecidableEq

structure PriceRequest where
  chain : String
  network : String
  connector : String
  base : String
  quote : String
  amount : Decimal
  side : Side
deriving DecidableEq

structure TransactionRequest where
  chain : String
  network : String
  txHash : String
deriving DecidableEq

structure BalancesRequest where
  chain : String
  network : String
  address : String
  tokens : List String
deriving DecidableEq

structure NetworkRequest where
  chain : String
  network : String
deriving DecidableEq

/-- Lets `spender` dispose of a token of the wallet. -/
structure ApproveRequest where
  chain : String
  network : String
  address : String
  spender : String
  token : String
deriving DecidableEq

structure AddLiquidityRequest where
  chain : String
  network : String
  connector : String
  address : String
  token0 : String
  token1 : String
  amount0 : Decimal
  amount1 : Decimal
deriving DecidableEq

structure RemoveLiquidityRequest where
  chain : String
  network : String
  connector : String
  address : String
  token0 : String
  token1 : String
  percent : Decimal
deriving DecidableEq

inductive Request
  | trade (r : TradeRequest)
  | price (r : PriceRequest)
  | transaction (r : TransactionRequest)
  | balances (r : BalancesRequest)
  | network (r : NetworkRequest)
  | ping
  | approve (r : ApproveRequest)
  | addLiquidity (r : AddLiquidityRequest)
  | removeLiquidity (r : RemoveLiquidityRequest)
deriving DecidableEq

/-- The calls that the gateway answers. -/
inductive Call
  | trade
  | price
  | transaction
  | balances
  | network
  | ping
  | approve
  | addLiquidity
  | removeLiquidity
deriving DecidableEq

namespace Call

def all : List Call :=
  [trade, price, transaction, balances, network, ping, approve, addLiquidity, removeLiquidity]

def name : Call → String
  | trade => "submit_trade"
  | price => "get_price"
  | transaction => "get_transaction_status"
  | balances => "get_balances"
  | network => "get_network_status"
  | ping => "ping"
  | approve => "approve_token"
  | addLiquidity => "add_liquidity"
  | removeLiquidity => "remove_liquidity"

def ofName? (s : String) : Option Call := all.find? fun c => c.name == s

end Call

namespace Request

def call : Request → Call
  | trade _ => .trade
  | price _ => .price
  | transaction _ => .transaction
  | balances _ => .balances
  | network _ => .network
  | ping => .ping
  | approve _ => .approve
  | addLiquidity _ => .addLiquidity
  | removeLiquidity _ => .removeLiquidity

def nonceField : Option UInt64 → List (String × Json)
  | some n => [("nonce", .int n.toNat)]
  | none => []

/-- A request's fields in the order in which they are sent; null where nothing is sent. -/
def toJson : Request → Json
  | trade r =>
    .record ([
      ("chain", .text r.chain),
      ("network", .text r.network),
      ("connector", .text r.connector),
      ("address", .text r.address),
      ("base", .text r.base),
      ("quote", .text r.quote),
      ("side", .text r.side.name),
      ("amount", Order.decimalJson r.amount),
      ("limitPrice", Order.decimalJson r.limitPrice)] ++ nonceField r.nonce)
  | price r =>
    .record [
      ("chain", .text r.chain),
      ("network", .text r.network),
      ("connector", .text r.connector),
      ("base", .text r.base),
      ("quote", .text r.quote),
      ("amount", Order.decimalJson r.amount),
      ("side", .text r.side.name)]
  | transaction r =>
    .record [("chain", .text r.chain), ("network", .text r.network), ("txHash", .text r.txHash)]
  | balances r =>
    .record [
      ("chain", .text r.chain),
      ("network", .text r.network),
      ("address", .text r.address),
      ("tokenSymbols", .texts r.tokens)]
  | network r => .record [("chain", .text r.chain), ("network", .text r.network)]
  | ping => .null
  | approve r =>
    .record [
      ("chain", .text r.chain),
      ("network", .text r.network),
      ("address", .text r.address),
      ("spender", .text r.spender),
      ("token", .text r.token)]
  | addLiquidity r =>
    .record [
      ("chain", .text r.chain),
      ("network", .text r.network),
      ("connector", .text r.connector),
      ("address", .text r.address),
      ("token0", .text r.token0),
      ("token1", .text r.token1),
      ("amount0", Order.decimalJson r.amount0),
      ("amount1", Order.decimalJson r.amount1)]
  | removeLiquidity r =>
    .record [
      ("chain", .text r.chain),
      ("network", .text r.network),
      ("connector", .text r.connector),
      ("address", .text r.address),
      ("token0", .text r.token0),
      ("token1", .text r.token1),
      ("decreasePercent", Order.decimalJson r.percent)]

end Request

end SwapDesk
