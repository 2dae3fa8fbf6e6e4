import SwapDesk.Gateway.Failure
import SwapDesk.Gateway.Reply
import SwapDesk.Text.Utf8

/-! Exchanges with the gateway: the message that carries a request, and what the answer to it
means. -/
namespace SwapDesk

/-- What is sent: a target below the gateway's address, and a body if something is posted. -/
structure Message where
  target : String
  body : Option String
deriving DecidableEq

/-- An address without the slashes at its end. -/
def baseAddress (address : String) : String :=
  String.ofList (address.toList.reverse.dropWhile (· == '/')).reverse

/-- The target that asks for the state of a network. -/
def statusTarget (chain network : String) : String :=
  "/chain/status?chain=" ++ percentEncode chain ++ "&network=" ++ percentEncode network

namespace Request

def target : Request → String
  | trade _ => "/amm/trade"
  | price _ => "/amm/price"
  | transaction _ => "/chain/poll"
  | balances _ => "/chain/balances"
  | network r => statusTarget r.chain r.network
  | ping => "/"
  | approve _ => "/chain/approve"
  | addLiquidity _ => "/amm/liquidity/add"
  | removeLiquidity _ => "/amm/liquidity/remove"

/-- Everything is posted but the two questions for a state. -/
def isPosted : Request → Bool
  | network _ | ping => false
  | _ => true

def message (r : Request) : Message :=
  ⟨r.target, if r.isPosted then some r.toJson.compact else none⟩

end Request

/-- What came back. -/
inductive Response
  /-- Nothing, or not all of it. -/
  | broken (text : String)
  | complete (status : Nat) (body : List UInt8)

namespace Response

/-- A final status has three digits and is not below 200, but for the one of a changed protocol. Other
statuses below 200 announce an answer and are none themselves. -/
def isFinal (status : Nat) : Bool := (200 ≤ status && status < 1000) || status == 101

/-- Answers with these statuses have no body. -/
def isBare (status : Nat) : Bool := status == 101 || status == 204 || status == 304

def isSuccess (status : Nat) : Bool := 200 ≤ status && status < 300

/-- What is made of a status and of the body's bytes, all of them or only the first. -/
def received (status : Nat) (body : List UInt8) (all : Bool) : Response :=
  if !isFinal status then broken "no final answer"
  else if isBare status then complete status []
  else if all then complete status body
  else broken "end of the body is missing"

/-- The reason of a rejection: what the body says of it, else the body itself. -/
def reason (body : String) : String :=
  match Decoder.ofText ErrorReply.decoder body with
  | .ok r => r.text?.getD body
  | .error _ => body

variable {α : Type}

def decode (decoder : Decoder α) : Response → Except Failure α
  | broken text => .error (.transport text)
  | complete status body =>
    let body := decodeLossy body
    if isSuccess status then
      (Decoder.ofText decoder body).mapError fun f => .malformed f.message
    else .error (.application status (reason body))

end Response

/-- The reply to each call. -/
abbrev Call.Reply : Call → Type
  | .trade => TradeReply
  | .price => PriceReply
  | .transaction => TransactionReply
  | .balances => BalancesReply
  | .network => NetworkReply
  | .ping => Bool
  | .approve => ApproveReply
  | .addLiquidity => LiquidityReply
  | .removeLiquidity => LiquidityReply

/-- How the body of a successful answer is read. -/
def Call.decoder : (c : Call) → Decoder c.Reply
  | .trade => TradeReply.decoder
  | .price => PriceReply.decoder
  | .transaction => TransactionReply.decoder
  | .balances => BalancesReply.decoder
  | .network => NetworkReply.decoder
  | .ping => fun r => PingReply.isUp <$> PingReply.decoder r
  | .approve => ApproveReply.decoder
  | .addLiquidity => LiquidityReply.decoder
  | .removeLiquidity => LiquidityReply.decoder

end SwapDesk
