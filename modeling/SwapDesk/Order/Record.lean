import SwapDesk.Instant
import SwapDesk.Json.Schema
import SwapDesk.Order.Lifecycle
import SwapDesk.Order.Pair

/-! Tracked orders and their JSON form. -/
namespace SwapDesk

/-- One order. `txHash` is the hash of its transaction, once the gateway has accepted it; `extras`
holds what the gateway said about the transaction and is not interpreted here. -/
structure Order where
  id : String
  txHash : Option String
  pair : Pair
  side : Side
  price : Decimal
  amount : Decimal
  kind : OrderKind
  createdAt : Instant
  updatedAt : Instant
  state : OrderState
  fee : Decimal
  feeAsset : Option String
  failure : Option String
  extras : Dict Json
  notFound : UInt32
  ambiguous : UInt32

namespace Order

/-- An order as it is tracked first. -/
def fresh (now : Instant) (id : String) (kind : OrderKind) (side : Side) (pair : Pair)
    (amount price : Decimal) : Order :=
  { id, pair, side, price, amount, kind
    txHash := none
    createdAt := now
    updatedAt := now
    state := kind.initialState
    fee := .zero
    feeAsset := none
    failure := none
    extras := .empty
    notFound := 0
    ambiguous := 0 }

/-- The decimal under `key` of the extras, if there is one. -/
def extraDecimal? (o : Order) (key : String) : Option Decimal :=
  match o.extras.find? key with
  | some (.text s) => Decimal.ofText? s
  | some (.number n) => Decimal.ofText? n.toText
  | _ => none

/-- The text under `key` of the extras, if there is one. -/
def extraText? (o : Order) (key : String) : Option String :=
  match o.extras.find? key with
  | some (.text s) => some s
  | _ => none

def decimalJson (d : Decimal) : Json := .text d.toText

def wordJson (n : UInt32) : Json := .int n.toNat

def toJson (o : Order) : Json :=
  .record [
    ("client_order_id", .text o.id),
    ("exchange_order_id", .ofOption .text o.txHash),
    ("trading_pair", .text o.pair.toText),
    ("side", .text o.side.name),
    ("price", decimalJson o.price),
    ("amount", decimalJson o.amount),
    ("kind", .text o.kind.name),
    ("created_at", .text o.createdAt.toText),
    ("last_update", .text o.updatedAt.toText),
    ("state", .text o.state.name),
    ("fee", decimalJson o.fee),
    ("fee_asset", .ofOption .text o.feeAsset),
    ("failure_reason", .ofOption .text o.failure),
    ("misc", .ofDict (fun j => j) o.extras),
    ("not_found_count", wordJson o.notFound),
    ("ambiguous_count", wordJson o.ambiguous)]

def sideNames : List (String × Side) := Side.all.map fun s => (s.name, s)

def kindNames : List (String × OrderKind) := OrderKind.all.map fun k => (k.name, k)

def stateNames : List (String × OrderState) := OrderState.all.map fun s => (s.name, s)

def pairFault (raw : String) : Fault := .refused ("invalid trading pair: " ++ raw)

def pairDecoder : Decoder Pair := fun r => do
  let raw ← Decoder.text r
  match Pair.ofText? raw with
  | some p => return p
  | none => throw (pairFault raw)

def instantDecoder : Decoder Instant := fun r => do
  let raw ← Decoder.text r
  match Instant.ofText? raw with
  | some i => return i
  | none => throw (.refused "invalid timestamp")

def counterDecoder : Decoder UInt32 := fun r => UInt32.ofNat <$> Decoder.word32 r

def schema : Schema Order :=
  Order.mk <$> .required "client_order_id" Decoder.text
    <*> .optional "exchange_order_id" Decoder.text
    <*> .required "trading_pair" pairDecoder
    <*> .required "side" (Decoder.variant sideNames)
    <*> .required "price" Decoder.decimal
    <*> .required "amount" Decoder.decimal
    <*> .required "kind" (Decoder.variant kindNames)
    <*> .required "created_at" instantDecoder
    <*> .required "last_update" instantDecoder
    <*> .required "state" (Decoder.variant stateNames)
    <*> .defaulting "fee" Decoder.decimal .zero
    <*> .optional "fee_asset" Decoder.text
    <*> .optional "failure_reason" Decoder.text
    <*> .defaulting "misc" (Decoder.dict Decoder.json) .empty
    <*> .defaulting "not_found_count" counterDecoder 0
    <*> .defaulting "ambiguous_count" counterDecoder 0

def decoder : Decoder Order := schema.decoder "OrderRecord"

end Order

/-- Orders by their id. -/
abbrev Orders := Dict Order

namespace Orders

def toJson (orders : Orders) : Json := .ofDict Order.toJson orders

def decoder : Decoder Orders := Decoder.dict Order.decoder

/-- The text in which orders are kept between runs. -/
def toText (orders : Orders) : String := (toJson orders).pretty

def ofText (s : String) : Except Fault Orders := Decoder.ofText decoder s

end Orders

end SwapDesk
