import SwapDesk.Order.Instruction
import SwapDesk.Proofs.Json.Decoding
import SwapDesk.Proofs.Order.Pairing
import SwapDesk.Proofs.Text.Decimals
import SwapDesk.Proofs.Text.Instants

/-! Kept orders. All that an order holds is read back from its text unchanged but for its pair, which is
read as pairs are. -/
namespace SwapDesk

/-- How deep the values among the extras may be nested: a map of orders puts three levels around them. -/
def extrasDepth : Nat := Reading.maxDepth - 3

/-- Extras whose values are read back as they were written. -/
def Dict.Storable (extras : Dict Json) : Prop :=
  ∀ k j, extras.find? k = some j → j.Sorted ∧ j.Legible extrasDepth

namespace Order

variable {o : Order} {p : Pair}

theorem decimal_ofJson (d : Decimal) : Decoder.ofJson Decoder.decimal (decimalJson d) = .ok d := by
  simp only [Decoder.ofJson, decimalJson, Reading.ofJson, Decoder.decimal, Decimal.ofText?_toText]

theorem instant_ofJson (i : Instant) : Decoder.ofJson instantDecoder (.text i.toText) = .ok i := by
  simp only [Decoder.ofJson, instantDecoder, Reading.ofJson, Decoder.text, Except.bind, bind,
    Instant.ofText?_toText]
  rfl

theorem counter_ofJson (n : UInt32) : Decoder.ofJson counterDecoder (wordJson n) = .ok n := by
  have hlow : (0 : Int) ≤ n.toNat := Int.natCast_nonneg _
  have hhigh : (n.toNat : Int) < pow2 32 := Int.ofNat_lt.mpr n.toNat_lt
  simp only [Decoder.ofJson, counterDecoder, wordJson, Json.int, Reading.ofJson, Decoder.word32,
    Decoder.wholeIn, hlow, hhigh, and_self, if_true]
  exact congrArg Except.ok UInt32.ofNat_toNat

theorem side_ofJson (s : Side) : Decoder.ofJson (Decoder.variant sideNames) (.text s.name) = .ok s := by
  cases s <;> rfl

theorem kind_ofJson (k : OrderKind) :
    Decoder.ofJson (Decoder.variant kindNames) (.text k.name) = .ok k := by
  cases k <;> rfl

theorem state_ofJson (s : OrderState) :
    Decoder.ofJson (Decoder.variant stateNames) (.text s.name) = .ok s := by
  cases s <;> rfl

theorem optionalText_ofJson (t : Option String) :
    Decoder.ofJson (Decoder.optional Decoder.text) (.ofOption .text t) = .ok t := by
  cases t <;> rfl

theorem extras_ofJson (h : o.extras.Storable) :
    Decoder.ofJson (Decoder.dict Decoder.json) (.ofDict (fun j => j) o.extras) = .ok o.extras :=
  Decoder.dict_ofDict_iff.mpr fun k j hj => Decoder.json_ofJson (h k j hj).1

theorem pair_ofJson (h : Pair.ofText? o.pair.toText = some p) :
    Decoder.ofJson pairDecoder (.text o.pair.toText) = .ok p := by
  simp only [Decoder.ofJson, pairDecoder, Reading.ofJson, Decoder.text, Except.bind, bind, h]
  rfl

theorem decoder_toJson (h : o.extras.Storable) (hp : Pair.ofText? o.pair.toText = some p) :
    Decoder.ofJson decoder o.toJson = .ok { o with pair := p } := by
  have hid : Decoder.ofJson Decoder.text (.text o.id) = .ok o.id := rfl
  have hfields := (Schema.accepts_required "client_order_id" hid).map Order.mk
    |>.seq (Schema.accepts_defaulting "exchange_order_id" none (optionalText_ofJson o.txHash))
    |>.seq (Schema.accepts_required "trading_pair" (pair_ofJson hp))
    |>.seq (Schema.accepts_required "side" (side_ofJson o.side))
    |>.seq (Schema.accepts_required "price" (decimal_ofJson o.price))
    |>.seq (Schema.accepts_required "amount" (decimal_ofJson o.amount))
    |>.seq (Schema.accepts_required "kind" (kind_ofJson o.kind))
    |>.seq (Schema.accepts_required "created_at" (instant_ofJson o.createdAt))
    |>.seq (Schema.accepts_required "last_update" (instant_ofJson o.updatedAt))
    |>.seq (Schema.accepts_required "state" (state_ofJson o.state))
    |>.seq (Schema.accepts_defaulting "fee" .zero (decimal_ofJson o.fee))
    |>.seq (Schema.accepts_defaulting "fee_asset" none (optionalText_ofJson o.feeAsset))
    |>.seq (Schema.accepts_defaulting "failure_reason" none (optionalText_ofJson o.failure))
    |>.seq (Schema.accepts_defaulting "misc" .empty (extras_ofJson h))
    |>.seq (Schema.accepts_defaulting "not_found_count" 0 (counter_ofJson o.notFound))
    |>.seq (Schema.accepts_defaulting "ambiguous_count" 0 (counter_ofJson o.ambiguous))
  exact Schema.decoder_ofJson hfields (by decide) "OrderRecord"

theorem pair_of_checked {raw : String} {u : Unit}
    (h : (do let _ ← pairDecoder (Reading.ofJson (.text raw))) = .ok u) :
    ∃ p, Pair.ofText? raw = some p := by
  cases hp : Pair.ofText? raw with
  | some p => exact ⟨p, rfl⟩
  | none =>
    have hrefused : pairDecoder (Reading.ofJson (.text raw)) = .error (pairFault raw) := by
      simp only [pairDecoder, Reading.ofJson, Decoder.text, Except.bind, bind, hp]
      rfl
    rw [hrefused] at h
    cases h

/-- Nothing but the pair can be lost. -/
theorem decoder_toJson_iff (h : o.extras.Storable) :
    Decoder.ofJson decoder o.toJson = .ok o ↔ o.pair.Canonical := by
  constructor
  · intro ho
    have hm : ("trading_pair", Json.text o.pair.toText) ∈
        [("client_order_id", Json.text o.id), ("exchange_order_id", .ofOption .text o.txHash),
          ("trading_pair", .text o.pair.toText)] := by simp
    obtain ⟨p, hp⟩ := pair_of_checked (Schema.check_of_decoder ho (List.mem_append_left _ hm) rfl)
    rw [decoder_toJson h hp] at ho
    have hsame : p = o.pair := congrArg Order.pair (Except.ok.inj ho)
    exact Pair.ofText?_toText_iff.mp (hsame ▸ hp)
  · intro hp
    exact decoder_toJson h hp.ofText?_toText

theorem legible_ofOption (n : Nat) (t : Option String) : (Json.ofOption .text t).Legible n := by
  cases t with
  | none => exact .null n
  | some s => exact .text n s

theorem legible_wordJson (n : Nat) (k : UInt32) : (wordJson k).Legible n := by
  have hk := k.toNat_lt
  have hpow : pow2 64 = 18446744073709551616 := by decide
  refine .whole n ⟨?_, ?_⟩ <;> omega

theorem legible_extras (h : o.extras.Storable) :
    (Json.ofDict (fun j => j) o.extras).Legible (extrasDepth + 1) := by
  refine .record ?_
  intro e he
  obtain ⟨⟨k, j⟩, hm, rfl⟩ := List.mem_map.mp he
  exact (h k j (o.extras.mem_entries_iff.mp hm)).2

theorem legible_toJson (h : o.extras.Storable) : o.toJson.Legible (extrasDepth + 2) := by
  refine .record ?_
  simp only [List.forall_mem_cons, List.not_mem_nil, false_implies, implies_true, and_true,
    legible_ofOption, legible_wordJson, legible_extras h, Json.Legible.text, decimalJson]

end Order

namespace Orders

variable {orders : Orders}

theorem legible_toJson (h : ∀ id o, orders.find? id = some o → o.extras.Storable) :
    (toJson orders).Legible Reading.maxDepth := by
  refine .record ?_
  intro e he
  obtain ⟨⟨id, o⟩, hm, rfl⟩ := List.mem_map.mp he
  exact Order.legible_toJson (h id o (orders.mem_entries_iff.mp hm))

/-- The text of orders is decoded as their JSON is. -/
theorem ofText_toText (h : ∀ id o, orders.find? id = some o → o.extras.Storable) :
    ofText orders.toText = Decoder.ofJson decoder (toJson orders) := by
  have hspelled := Reading.spelled_of_legible (legible_toJson h) (Nat.le_of_eq (Nat.zero_add _))
  rw [Decoder.ofJson, ← hspelled]
  exact Decoder.ofText_render decoder (toJson orders) (some 0)

/-- Orders are read back from their text as they were exactly if all their pairs are. -/
theorem ofText_toText_iff (h : ∀ id o, orders.find? id = some o → o.extras.Storable) :
    ofText orders.toText = .ok orders ↔
      ∀ id o, orders.find? id = some o → o.pair.Canonical := by
  rw [ofText_toText h, toJson, decoder, Decoder.dict_ofDict_iff]
  constructor
  · intro hall id o ho
    exact (Order.decoder_toJson_iff (h id o ho)).mp (hall id o ho)
  · intro hall id o ho
    exact (Order.decoder_toJson_iff (h id o ho)).mpr (hall id o ho)

end Orders

/-! ### What replies bring in -/

/-- Decimals are written as texts, and the only numbers are words. -/
inductive Plain : Json → Prop
  | text (s : String) : Plain (.text s)
  | word (n : UInt64) : Plain (.int n.toNat)

variable {extras : Dict Json} {k : String} {j : Json} {l : List (String × Json)}

theorem storable_empty : (Dict.empty : Dict Json).Storable := by
  intro k j h
  cases h

theorem Dict.Storable.insert (h : extras.Storable) (hj : Plain j) (k : String) :
    (extras.insert k j).Storable := by
  intro k' j' hfind
  rw [Dict.find?_insert] at hfind
  split at hfind
  · cases hfind
    cases hj with
    | text s => exact ⟨.text s, .text _ s⟩
    | word n =>
      have hn := n.toNat_lt
      have hpow : pow2 64 = 18446744073709551616 := by decide
      refine ⟨.number _, .whole _ ⟨?_, ?_⟩⟩ <;> omega
  · exact h k' j' hfind

theorem storable_ofList (h : ∀ e ∈ l, Plain e.2) : (Dict.ofList l).Storable := by
  have hfold : ∀ (l : List (String × Json)) (d : Dict Json), d.Storable → (∀ e ∈ l, Plain e.2) →
      (l.foldl (fun d e => d.insert e.1 e.2) d).Storable := by
    intro l
    induction l with
    | nil => exact fun d hd _ => hd
    | cons e l ih =>
      intro d hd h
      apply ih _ (hd.insert (h e List.mem_cons_self) e.1)
      exact fun y hy => h y (List.mem_cons_of_mem e hy)
  exact hfold l .empty storable_empty h

namespace Accepted

theorem plain_decimalExtra (key : String) (d : Option Decimal) :
    ∀ e ∈ decimalExtra key d, Plain e.2 := by
  intro e he
  obtain ⟨d, _, rfl⟩ := List.mem_map.mp he
  exact .text _

theorem plain_gasExtras (price : Option Decimal) (token : Option String) (nonce : Option UInt64) :
    ∀ e ∈ gasExtras price token nonce, Plain e.2 := by
  intro e he
  rcases List.mem_append.mp he with he | he
  · rcases List.mem_append.mp he with he | he
    · exact plain_decimalExtra _ price e he
    · obtain ⟨t, _, rfl⟩ := List.mem_map.mp he
      exact .text t
  · obtain ⟨n, _, rfl⟩ := List.mem_map.mp he
    exact .word n

theorem storable_ofTrade (r : TradeReply) : (ofTrade r).extras.Storable := by
  apply storable_ofList
  intro e he
  rcases List.mem_append.mp he with he | he
  · rcases List.mem_append.mp he with he | he
    · exact plain_gasExtras _ _ _ e he
    · exact plain_decimalExtra _ _ e he
  · exact plain_decimalExtra _ _ e he

/-- Whatever the gateway replies, it can be kept. -/
theorem storable_accepted (s : Settings) (i : Instruction) (r : (i.request s).call.Reply) :
    (i.accepted s r).extras.Storable := by
  cases i with
  | swap side pair amount price => exact storable_ofTrade r
  | approve token => exact storable_ofList (plain_gasExtras none none _)
  | addLiquidity pair base quote => exact storable_ofList (plain_gasExtras _ _ _)
  | removeLiquidity pair percent => exact storable_ofList (plain_gasExtras _ _ _)

end Accepted

/-- The report of a submission brings in nothing that could not be kept. -/
theorem storable_report {id : String} {kind : OrderKind} {reply : Except Failure Accepted}
    (o : Order) (now : Instant) (h : ∀ a, reply = .ok a → a.extras.Storable) :
    (o.amend now (submissionReport id kind reply)).extras.Storable := by
  cases reply with
  | ok a => exact h a rfl
  | error f =>
    apply storable_ofList
    intro e he
    cases List.mem_singleton.mp he
    exact .text f.message

end SwapDesk
