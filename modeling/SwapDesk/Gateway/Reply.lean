import SwapDesk.Gateway.Request

/-! Replies of the gateway and how they are decoded. Unknown fields are ignored and optional ones may
be null. -/
namespace SwapDesk

/-- A submitted swap. -/
structure TradeReply where
  txHash : String
  gasPrice : Option Decimal
  gasPriceToken : Option String
  gasLimit : Option Decimal
  gasCost : Option Decimal
  nonce : Option UInt64

structure PriceReply where
  price : Decimal
  expectedAmount : Option Decimal
  gasCost : Option Decimal

/-- What the chain knows of a transaction. -/
inductive TxStatus
  | notFound
  | pending
  | confirmed
  | likelySuccess
  | likelyFailure
deriving DecidableEq

namespace TxStatus

def ofCode? (code : Int) : Option TxStatus :=
  if code = -1 then some notFound
  else if code = 0 then some pending
  else if code = 1 then some confirmed
  else if code = 2 then some likelySuccess
  else if code = 3 then some likelyFailure
  else none

/-- Still under way, outcome open. -/
def isAmbiguous : TxStatus → Bool
  | pending | likelySuccess | likelyFailure => true
  | _ => false

end TxStatus

structure Receipt where
  status : Int
  gasUsed : Decimal
  effectiveGasPrice : Option Decimal

/-- A status of one; any other status is a reverted transaction. -/
def Receipt.succeeded (r : Receipt) : Bool := r.status == 1

structure TransactionReply where
  txHash : String
  status : TxStatus
  receipt : Option Receipt
  block : Option UInt64

/-- One token's balance: a decimal, or any other value as it came. -/
inductive BalanceEntry
  | amount (d : Decimal)
  | invalid (j : Json)

/-- The balance if it can be used: a decimal that is not negative. -/
def BalanceEntry.usable? : BalanceEntry → Option Decimal
  | .amount d => if d.isNegative then none else some d
  | .invalid _ => none

structure BalancesReply where
  balances : Dict BalanceEntry

structure NetworkReply where
  chain : String
  network : String
  nativeCurrency : String
  block : Option UInt64
  rpcUrl : Option String

structure PingReply where
  status : String

def PingReply.isUp (r : PingReply) : Bool := r.status == "ok"

structure ApproveReply where
  hash : String
  nonce : Option UInt64

structure LiquidityReply where
  txHash : String
  gasPrice : Option Decimal
  gasPriceToken : Option String
  nonce : Option UInt64

/-- The body of an answer that is not a success. -/
structure ErrorReply where
  message : Option String
  error : Option String

def wordDecoder : Decoder UInt64 := fun r => UInt64.ofNat <$> Decoder.word64 r

def TradeReply.decoder : Decoder TradeReply :=
  Schema.decoder "TradeResponse" <|
    TradeReply.mk <$> .required "txHash" Decoder.text
      <*> .optional "gasPrice" Decoder.decimal
      <*> .optional "gasPriceToken" Decoder.text
      <*> .optional "gasLimit" Decoder.decimal
      <*> .optional "gasCost" Decoder.decimal
      <*> .optional "nonce" wordDecoder

def PriceReply.decoder : Decoder PriceReply :=
  Schema.decoder "PriceResponse" <|
    PriceReply.mk <$> .required "price" Decoder.decimal
      <*> .optional "expectedAmount" Decoder.decimal
      <*> .optional "gasCost" Decoder.decimal

def TxStatus.decoder : Decoder TxStatus := fun r => do
  let code ← Decoder.int64 r
  match ofCode? code with
  | some s => return s
  | none => throw (.refused ("unknown txStatus " ++ toString code))

def Receipt.decoder : Decoder Receipt :=
  Schema.decoder "TxReceipt" <|
    Receipt.mk <$> .required "status" Decoder.int64
      <*> .required "gasUsed" Decoder.decimal
      <*> .optional "effectiveGasPrice" Decoder.decimal

def TransactionReply.decoder : Decoder TransactionReply :=
  Schema.decoder "TxStatusResponse" <|
    TransactionReply.mk <$> .required "txHash" Decoder.text
      <*> .required "txStatus" TxStatus.decoder
      <*> .optional "txReceipt" Receipt.decoder
      <*> .optional "currentBlock" wordDecoder

/-- Every value is accepted. -/
def BalanceEntry.decoder : Decoder BalanceEntry := fun r => do
  let j ← Decoder.json r
  match Decoder.decimal r with
  | .ok d => return .amount d
  | .error _ => return .invalid j

def BalancesReply.decoder : Decoder BalancesReply :=
  Schema.decoder "BalancesResponse" <|
    BalancesReply.mk <$> .required "balances" (Decoder.dict BalanceEntry.decoder)

def NetworkReply.decoder : Decoder NetworkReply :=
  Schema.decoder "NetworkStatusResponse" <|
    NetworkReply.mk <$> .required "chain" Decoder.text
      <*> .required "network" Decoder.text
      <*> .required "nativeCurrency" Decoder.text
      <*> .optional "currentBlockNumber" wordDecoder
      <*> .optional "rpcUrl" Decoder.text

def PingReply.decoder : Decoder PingReply :=
  Schema.decoder "PingResponse" <| PingReply.mk <$> .required "status" Decoder.text

def ApproveReply.decoder : Decoder ApproveReply :=
  Schema.decoder "ApproveResponse" <|
    ApproveReply.mk <$>
      .required "approval" (Schema.decoder "ApprovalTx" (.required "hash" Decoder.text))
      <*> .optional "nonce" wordDecoder

def LiquidityReply.decoder : Decoder LiquidityReply :=
  Schema.decoder "LiquidityResponse" <|
    LiquidityReply.mk <$> .required "txHash" Decoder.text
      <*> .optional "gasPrice" Decoder.decimal
      <*> .optional "gasPriceToken" Decoder.text
      <*> .optional "nonce" wordDecoder

def ErrorReply.decoder : Decoder ErrorReply :=
  Schema.decoder "ErrorBody" <|
    ErrorReply.mk <$> .optional "message" Decoder.text <*> .optional "error" Decoder.text

/-- What the gateway says of its own error. -/
def ErrorReply.text? (r : ErrorReply) : Option String := r.message <|> r.error

end SwapDesk
