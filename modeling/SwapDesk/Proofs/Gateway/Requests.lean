import SwapDesk.Gateway.Exchange
import SwapDesk.Proofs.Json.Reading
import SwapDesk.Proofs.Text.Decimals

/-! What the gateway reads in the body of a request: an object with the request's fields, from which
the request can be told. -/
namespace SwapDesk

namespace Reading

def ofString (s : String) : Reading := .text (some s)

def ofSide : Side → Reading
  | .buy => ofString "BUY"
  | .sell => ofString "SELL"

/-- A decimal is quoted, with all its fraction digits. -/
def ofDecimal (d : Decimal) : Reading := ofString d.toText

def ofWord (n : UInt64) : Reading := .number (some (.whole n.toNat))

def ofStrings (l : List String) : Reading := .list (l.map ofString) true

variable {s s' : String} {a b : Side} {d e : Decimal} {n m : UInt64} {l l' : List String}

@[simp] theorem ofString_inj : ofString s = ofString s' ↔ s = s' := by
  simp [ofString]

@[simp] theorem ofSide_inj : ofSide a = ofSide b ↔ a = b := by
  cases a <;> cases b <;> simp [ofSide]

/-- The scale is told by the digits: the text is decoded as the very same decimal. -/
theorem decimal_ofDecimal (d : Decimal) : Decoder.decimal (ofDecimal d) = .ok d := by
  rw [ofDecimal, ofString, Decoder.decimal, Decimal.ofText?_toText]

@[simp] theorem ofDecimal_inj : ofDecimal d = ofDecimal e ↔ d = e := by
  refine ⟨fun h => ?_, congrArg ofDecimal⟩
  have hread := decimal_ofDecimal d
  rw [h, decimal_ofDecimal] at hread
  exact (Except.ok.inj hread).symm

@[simp] theorem ofWord_inj : ofWord n = ofWord m ↔ n = m := by
  refine ⟨fun h => ?_, congrArg ofWord⟩
  have hvalue : (n.toNat : Int) = m.toNat :=
    Number.whole.inj (Option.some.inj (Reading.number.inj h))
  exact UInt64.toNat_inj.mp (Int.ofNat.inj hvalue)

@[simp] theorem ofStrings_inj : ofStrings l = ofStrings l' ↔ l = l' := by
  have hinj : Function.Injective ofString := fun _ _ => ofString_inj.mp
  simp [ofStrings, List.map_inj_right fun _ _ h => hinj h]

theorem ofItems_map_text (l : List String) : ofItems (l.map .text) = l.map ofString := by
  induction l with
  | nil => rfl
  | cons s l ih => exact congrArg (ofString s :: ·) ih

end Reading

open Reading (ofString ofSide ofDecimal ofWord ofStrings)

namespace Request

variable {r r' : Request}

/-- A nonce is sent only if there is one. -/
def nonceFields : Option UInt64 → List (String × Reading)
  | some n => [("nonce", ofWord n)]
  | none => []

@[simp] theorem nonceFields_inj {a b : Option UInt64} : nonceFields a = nonceFields b ↔ a = b := by
  cases a <;> cases b <;> simp [nonceFields]

/-- The fields in the order in which they are sent. -/
def fields : Request → List (String × Reading)
  | trade r =>
    [("chain", ofString r.chain), ("network", ofString r.network),
      ("connector", ofString r.connector), ("address", ofString r.address),
      ("base", ofString r.base), ("quote", ofString r.quote), ("side", ofSide r.side),
      ("amount", ofDecimal r.amount), ("limitPrice", ofDecimal r.limitPrice)] ++
      nonceFields r.nonce
  | price r =>
    [("chain", ofString r.chain), ("network", ofString r.network),
      ("connector", ofString r.connector), ("base", ofString r.base), ("quote", ofString r.quote),
      ("amount", ofDecimal r.amount), ("side", ofSide r.side)]
  | transaction r =>
    [("chain", ofString r.chain), ("network", ofString r.network), ("txHash", ofString r.txHash)]
  | balances r =>
    [("chain", ofString r.chain), ("network", ofString r.network), ("address", ofString r.address),
      ("tokenSymbols", ofStrings r.tokens)]
  | approve r =>
    [("chain", ofString r.chain), ("network", ofString r.network), ("address", ofString r.address),
      ("spender", ofString r.spender), ("token", ofString r.token)]
  | addLiquidity r =>
    [("chain", ofString r.chain), ("network", ofString r.network),
      ("connector", ofString r.connector), ("address", ofString r.address),
      ("token0", ofString r.token0), ("token1", ofString r.token1),
      ("amount0", ofDecimal r.amount0), ("amount1", ofDecimal r.amount1)]
  | removeLiquidity r =>
    [("chain", ofString r.chain), ("network", ofString r.network),
      ("connector", ofString r.connector), ("address", ofString r.address),
      ("token0", ofString r.token0), ("token1", ofString r.token1),
      ("decreasePercent", ofDecimal r.percent)]
  | network _ | ping => []

/-- The request as one value. -/
def reading (r : Request) : Reading := .record (r.fields.map fun e => (some e.1, e.2)) true

theorem isPosted_of_call (hc : r'.call = r.call) : r'.isPosted = r.isPosted := by
  cases r <;> cases r' <;> cases hc <;> rfl

theorem ofJson_toJson (h : r.isPosted = true) : Reading.ofJson r.toJson = r.reading := by
  cases r with
  | trade r =>
    obtain ⟨_, _, _, _, _, _, side, _, _, nonce⟩ := r
    cases side <;> cases nonce <;> rfl
  | price r =>
    obtain ⟨_, _, _, _, _, _, side⟩ := r
    cases side <;> rfl
  | balances r =>
    have htokens : Reading.ofJson (.texts r.tokens) = ofStrings r.tokens :=
      congrArg (Reading.list · true) (Reading.ofItems_map_text r.tokens)
    simp [toJson, reading, fields, Reading.ofJson, Reading.ofFields, htokens, ofString]
  | transaction | approve | addLiquidity | removeLiquidity => rfl
  | network | ping => cases h

theorem legible_int (n : UInt64) : (Json.int n.toNat).Legible 1 := by
  have hlt : n.toNat < pow2 64 := n.toNat_lt
  exact .whole 1 ⟨by omega, by omega⟩

theorem legible_texts (l : List String) : (Json.texts l).Legible 1 :=
  .list (by simp [Json.Legible.text])

theorem legible_toJson (r : Request) : r.toJson.Legible 2 := by
  cases r with
  | trade r =>
    refine .record (List.forall_mem_append.mpr ⟨?_, ?_⟩)
    · simp [Order.decimalJson, Json.Legible.text]
    · cases r.nonce <;> simp [nonceField, legible_int]
  | balances r => exact .record (by simp [Json.Legible.text, legible_texts])
  | price | transaction | network | approve | addLiquidity | removeLiquidity =>
    exact .record (by simp [Order.decimalJson, Json.Legible.text])
  | ping => exact .null 2

/-- The body is read without a fault as the request's value. -/
theorem ofChars_compact (h : r.isPosted = true) :
    Reading.ofChars r.toJson.compact.toList = (r.reading, true) := by
  rw [Json.compact, String.toList_ofList, Reading.ofChars_render,
    Reading.spelled_of_legible r.legible_toJson (by decide), ofJson_toJson h]

/-- The value tells the request, among those of one call. -/
theorem eq_of_reading_eq (hp : r.isPosted = true) (hc : r'.call = r.call)
    (h : r'.reading = r.reading) : r' = r := by
  have hpairs : Function.Injective fun e : String × Reading => (some e.1, e.2) := by
    rintro ⟨k, x⟩ ⟨k', x'⟩ he
    cases he
    rfl
  have hmembers :
      r'.fields.map (fun e => (some e.1, e.2)) = r.fields.map fun e => (some e.1, e.2) :=
    (Reading.record.inj h).1
  have hfields : r'.fields = r.fields := (List.map_inj_right fun _ _ he => hpairs he).mp hmembers
  cases r <;> cases r' <;> cases hc
  case trade.trade p q | price.price p q | transaction.transaction p q | balances.balances p q |
      approve.approve p q | addLiquidity.addLiquidity p q | removeLiquidity.removeLiquidity p q =>
    cases p
    cases q
    simpa [fields] using hfields
  case network.network | ping.ping => cases hp

/-- The body of a posted request is read without a fault as an object with the request's fields,
each of them once: texts and the tokens' names in order as they are, a side in capitals, decimals
with all their digits, and a nonce exactly if there is one. So no two requests of one call have the
same body. -/
theorem bodies_tell_requests (h : r.isPosted = true) :
    (∃ body, r.message.body = some body ∧
      Reading.ofChars body.toList = (.record (r.fields.map fun e => (some e.1, e.2)) true, true)) ∧
    (r.fields.map Prod.fst).Nodup ∧
    ∀ r', r'.call = r.call → r'.message.body = r.message.body → r' = r := by
  have hbody : ∀ q : Request, q.isPosted = true → q.message.body = some q.toJson.compact :=
    fun q hq => if_pos hq
  refine ⟨⟨_, hbody r h, ofChars_compact h⟩, ?_, fun r' hc hsame => ?_⟩
  · cases r with
    | trade r => cases hn : r.nonce <;> simp [fields, nonceFields, hn]
    | _ => simp [fields]
  · have hposted : r'.isPosted = true := (isPosted_of_call hc).trans h
    rw [hbody r h, hbody r' hposted, Option.some.injEq] at hsame
    have hread := ofChars_compact hposted
    rw [hsame, ofChars_compact h] at hread
    exact eq_of_reading_eq h hc (Prod.mk.inj hread).1.symm

/-- A purchase with quotes and controls in its texts. -/
def quotedTrade (nonce : Option UInt64) : Request :=
  .trade ⟨"\"c\"", "\n\x01", "\\", "w", "A😀", "B", .buy, (Decimal.ofText? "1.50").getD .zero, .one,
    nonce⟩

/-- It is read as it was, and not without its nonce. -/
theorem quoted_trade_reads_back :
    (∃ body, (quotedTrade (some 7)).message.body = some body ∧
      Reading.ofChars body.toList = (.record [(some "chain", ofString "\"c\""),
        (some "network", ofString "\n\x01"), (some "connector", ofString "\\"),
        (some "address", ofString "w"), (some "base", ofString "A😀"), (some "quote", ofString "B"),
        (some "side", ofString "BUY"), (some "amount", ofString "1.50"),
        (some "limitPrice", ofString "1"), (some "nonce", .number (some (.whole 7)))] true, true)) ∧
      (quotedTrade none).message.body ≠ (quotedTrade (some 7)).message.body := by
  obtain ⟨hread, _, honly⟩ := bodies_tell_requests (r := quotedTrade (some 7)) rfl
  refine ⟨hread, fun hsame => ?_⟩
  cases honly (quotedTrade none) rfl hsame

end Request
end SwapDesk
