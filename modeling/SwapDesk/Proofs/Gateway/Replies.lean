import SwapDesk.Gateway.Exchange
import SwapDesk.Proofs.Json.Fields

/-! What the replies of the gateway look like. For each call the fields of its reply are listed with
what each of them stands for; a reply is decoded exactly if the JSON value carries it
(`Call.decoder_eq_ok_iff`). -/
namespace SwapDesk

open Schema (Holds MayHold decoder_iff_of_build)

variable {r : Reading}

/-! ### Parts of replies -/

/-- The value is a receipt. -/
def Receipt.Carried (r : Reading) (v : Receipt) : Prop :=
  ∃ fields, r.Presents ["status", "gasUsed", "effectiveGasPrice"] fields ∧
    Holds fields "status" Decoder.int64.Gives v.status ∧
    Holds fields "gasUsed" Decoder.decimal.Gives v.gasUsed ∧
    MayHold fields "effectiveGasPrice" Decoder.decimal.Gives v.effectiveGasPrice

/-- The value is a status by its code. -/
def TxStatus.Carried (r : Reading) (v : TxStatus) : Prop :=
  ∃ code, Decoder.int64.Gives r code ∧ TxStatus.ofCode? code = some v

/-- The value tells the hash of an approval. -/
def ApproveReply.HashCarried (r : Reading) (hash : String) : Prop :=
  ∃ fields, r.Presents ["hash"] fields ∧ Holds fields "hash" Decoder.text.Gives hash

/-- The value says what went wrong, if it says anything at all. -/
def ErrorReply.Carried (r : Reading) (v : ErrorReply) : Prop :=
  ∃ fields, r.Presents ["message", "error"] fields ∧
    MayHold fields "message" Decoder.text.Gives v.message ∧
    MayHold fields "error" Decoder.text.Gives v.error

theorem Receipt.gives_decoder : Receipt.decoder.Gives = Receipt.Carried := by
  funext r v
  refine propext (decoder_iff_of_build (by decide) fun fields => ?_)
  obtain ⟨status, gasUsed, price⟩ := v
  simp

theorem TxStatus.gives_decoder : TxStatus.decoder.Gives = TxStatus.Carried := by
  funext r v
  refine propext (bind_eq_ok.trans (exists_congr fun code => and_congr_right fun _ => ?_))
  cases ofCode? code <;> simp [pure, Except.pure]

theorem ApproveReply.gives_hash :
    (Schema.decoder "ApprovalTx" (.required "hash" Decoder.text)).Gives =
      ApproveReply.HashCarried := by
  funext r hash
  exact propext (decoder_iff_of_build (by decide) fun fields => Schema.build_holds)

theorem ErrorReply.decoder_eq_ok_iff {v : ErrorReply} :
    ErrorReply.decoder r = .ok v ↔ v.Carried r := by
  refine decoder_iff_of_build (by decide) fun fields => ?_
  obtain ⟨message, error⟩ := v
  simp

/-! ### Replies -/

/-- The value is a reply to the call. -/
def Call.Carries : (c : Call) → Reading → c.Reply → Prop
  | .trade, r, v =>
    ∃ fields, r.Presents ["txHash", "gasPrice", "gasPriceToken", "gasLimit", "gasCost", "nonce"]
        fields ∧
      Holds fields "txHash" Decoder.text.Gives v.txHash ∧
      MayHold fields "gasPrice" Decoder.decimal.Gives v.gasPrice ∧
      MayHold fields "gasPriceToken" Decoder.text.Gives v.gasPriceToken ∧
      MayHold fields "gasLimit" Decoder.decimal.Gives v.gasLimit ∧
      MayHold fields "gasCost" Decoder.decimal.Gives v.gasCost ∧
      MayHold fields "nonce" wordDecoder.Gives v.nonce
  | .price, r, v =>
    ∃ fields, r.Presents ["price", "expectedAmount", "gasCost"] fields ∧
      Holds fields "price" Decoder.decimal.Gives v.price ∧
      MayHold fields "expectedAmount" Decoder.decimal.Gives v.expectedAmount ∧
      MayHold fields "gasCost" Decoder.decimal.Gives v.gasCost
  | .transaction, r, v =>
    ∃ fields, r.Presents ["txHash", "txStatus", "txReceipt", "currentBlock"] fields ∧
      Holds fields "txHash" Decoder.text.Gives v.txHash ∧
      Holds fields "txStatus" TxStatus.Carried v.status ∧
      MayHold fields "txReceipt" Receipt.Carried v.receipt ∧
      MayHold fields "currentBlock" wordDecoder.Gives v.block
  | .balances, r, v =>
    ∃ fields, r.Presents ["balances"] fields ∧
      Holds fields "balances" (Decoder.dict BalanceEntry.decoder).Gives v.balances
  | .network, r, v =>
    ∃ fields, r.Presents ["chain", "network", "nativeCurrency", "currentBlockNumber", "rpcUrl"]
        fields ∧
      Holds fields "chain" Decoder.text.Gives v.chain ∧
      Holds fields "network" Decoder.text.Gives v.network ∧
      Holds fields "nativeCurrency" Decoder.text.Gives v.nativeCurrency ∧
      MayHold fields "currentBlockNumber" wordDecoder.Gives v.block ∧
      MayHold fields "rpcUrl" Decoder.text.Gives v.rpcUrl
  | .ping, r, up =>
    ∃ fields, r.Presents ["status"] fields ∧
      ∃ status, Holds fields "status" Decoder.text.Gives status ∧ up = (status == "ok")
  | .approve, r, v =>
    ∃ fields, r.Presents ["approval", "nonce"] fields ∧
      Holds fields "approval" ApproveReply.HashCarried v.hash ∧
      MayHold fields "nonce" wordDecoder.Gives v.nonce
  | .addLiquidity, r, v | .removeLiquidity, r, v =>
    ∃ fields, r.Presents ["txHash", "gasPrice", "gasPriceToken", "nonce"] fields ∧
      Holds fields "txHash" Decoder.text.Gives v.txHash ∧
      MayHold fields "gasPrice" Decoder.decimal.Gives v.gasPrice ∧
      MayHold fields "gasPriceToken" Decoder.text.Gives v.gasPriceToken ∧
      MayHold fields "nonce" wordDecoder.Gives v.nonce

/-- A reply is decoded from exactly the values that carry it. -/
theorem Call.decoder_eq_ok_iff (c : Call) {v : c.Reply} : c.decoder r = .ok v ↔ c.Carries r v := by
  cases c with
  | trade =>
    refine decoder_iff_of_build (by decide) fun fields => ?_
    obtain ⟨hash, price, token, limit, cost, nonce⟩ := v
    simp [and_assoc]
  | price =>
    refine decoder_iff_of_build (by decide) fun fields => ?_
    obtain ⟨price, expected, cost⟩ := v
    simp
  | transaction =>
    refine decoder_iff_of_build (by decide) fun fields => ?_
    obtain ⟨hash, status, receipt, block⟩ := v
    simp [and_assoc, TxStatus.gives_decoder, Receipt.gives_decoder]
  | balances =>
    refine decoder_iff_of_build (by decide) fun fields => ?_
    obtain ⟨balances⟩ := v
    simp
  | network =>
    refine decoder_iff_of_build (by decide) fun fields => ?_
    obtain ⟨chain, network, native, block, url⟩ := v
    simp [and_assoc]
  | ping =>
    have hping : ∀ p : PingReply, PingReply.decoder r = .ok p ↔
        ∃ fields, r.Presents ["status"] fields ∧
          Holds fields "status" Decoder.text.Gives p.status := by
      intro p
      refine decoder_iff_of_build (by decide) fun fields => ?_
      obtain ⟨status⟩ := p
      simp
    have hup : Call.ping.decoder r = .ok v ↔ ∃ p, PingReply.decoder r = .ok p ∧ v = p.isUp := by
      change PingReply.isUp <$> PingReply.decoder r = _ ↔ _
      cases PingReply.decoder r <;> simp [eq_comm]
    rw [hup]
    constructor
    · rintro ⟨p, hp, rfl⟩
      obtain ⟨fields, hr, hstatus⟩ := (hping p).mp hp
      exact ⟨fields, hr, p.status, hstatus, rfl⟩
    · rintro ⟨fields, hr, status, hstatus, rfl⟩
      exact ⟨⟨status⟩, (hping ⟨status⟩).mpr ⟨fields, hr, hstatus⟩, rfl⟩
  | approve =>
    refine decoder_iff_of_build (by decide) fun fields => ?_
    obtain ⟨hash, nonce⟩ := v
    simp [ApproveReply.gives_hash]
  | addLiquidity | removeLiquidity =>
    refine decoder_iff_of_build (by decide) fun fields => ?_
    obtain ⟨hash, price, token, nonce⟩ := v
    simp [and_assoc]

end SwapDesk
