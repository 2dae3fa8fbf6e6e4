import SwapDesk.Proofs.Desk.Instructing
import SwapDesk.Proofs.Order.Margin

/-! Which calls leave the range of the decimals. Two calls calculate: a limit price is a product, and the
price of added liquidity is a quotient. -/
namespace SwapDesk

variable {d : Desk} {i : Instruction} {pair : Pair} {side : Side} {amount base quote : Decimal}
  {cause : Overflow}

theorem Instruction.terms_addLiquidity_eq_error_iff :
    (addLiquidity pair base quote).terms = .error cause ↔
      liquidityPrice base quote = .error cause := by
  rw [terms]
  cases liquidityPrice base quote <;> simp [bind, Except.bind, pure, Except.pure]

namespace Desk

/-- Nothing but the terms of an instruction leaves the range. -/
theorem instruct_eq_overflow_iff :
    (d.instruct i).2 = .error (.overflow cause) ↔ i.terms = .error cause := by
  rcases d.instruct_cases i with ⟨c, hterms, h⟩ | ⟨t, hterms, ⟨-, h⟩ | ⟨-, -, h⟩ | ⟨-, -, h⟩⟩ <;>
    simp [h, hterms]

/-- The gateway's answer to the question for a price. -/
def priceReply (d : Desk) (pair : Pair) (side : Side) (amount : Decimal) :
    Except Failure PriceReply :=
  (d.ask (.price ⟨d.settings.chain, d.settings.network, d.settings.connector, pair.base,
    pair.quote, amount, side⟩)).2.reply

theorem quote_eq_overflow_iff :
    (d.quote pair side amount).2 = .error (.overflow cause) ↔
      ∃ r, d.priceReply pair side amount = .ok r ∧
        limitPrice r.price side d.settings.slippage = .error cause := by
  show (do
    let r ← (d.priceReply pair side amount).mapError Refusal.gateway
    let limit ← (limitPrice r.price side d.settings.slippage).mapError .overflow
    return (⟨r.price, limit, r.expectedAmount, r.gasCost⟩ : Quote)) = .error (.overflow cause) ↔ _
  cases d.priceReply pair side amount with
  | error f => simp [Except.mapError, bind, Except.bind]
  | ok r =>
    cases hlimit : limitPrice r.price side d.settings.slippage <;>
      simp [hlimit, Except.mapError, bind, Except.bind, pure, Except.pure]

/-- With valid settings, the limit of a purchase is out of range if the price with its margin is, that
of a sale never is, and the price of added liquidity is if the quotient of the amounts is. -/
theorem leaves_range_iff (hs : d.settings.validate = .ok ()) :
    (∀ pair side amount cause,
      (d.quote pair side amount).2 = .error (.overflow cause) ↔
        cause = .multiplication ∧ side = .buy ∧ ∃ r, d.priceReply pair side amount = .ok r ∧
          Decimal.overflowBound ≤ |r.price.value| * (1 + d.settings.slippage.value)) ∧
    ∀ pair base quote cause,
      (d.instruct (.addLiquidity pair base quote)).2 = .error (.overflow cause) ↔
        cause = .division ∧ base.value ≠ 0 ∧
          Decimal.overflowBound ≤ |quote.value / base.value| := by
  obtain ⟨hb, hb1⟩ := Settings.slippage_of_validate hs
  have hm : |d.settings.slippage.value| < 1 := abs_lt.mpr ⟨by linarith, hb1⟩
  constructor
  · intro pair side amount cause
    rw [quote_eq_overflow_iff]
    simp only [limitPrice_eq_error_iff hm]
    cases side with
    | buy =>
      have hfactor : |Side.buy.factor d.settings.slippage.value| = 1 + d.settings.slippage.value :=
        abs_of_nonneg (by rw [Side.factor]; linarith)
      simp only [abs_mul, hfactor]
      constructor
      · rintro ⟨r, hr, hle, hc⟩
        exact ⟨hc.symm, trivial, r, hr, hle⟩
      · rintro ⟨hc, -, r, hr, hle⟩
        exact ⟨r, hr, hle, hc.symm⟩
    | sell =>
      refine iff_of_false ?_ fun h => by cases h.2.1
      rintro ⟨r, -, hle, -⟩
      have hfactor : |Side.sell.factor d.settings.slippage.value| ≤ 1 := by
        rw [Side.factor]
        exact abs_le.mpr ⟨by linarith, by linarith⟩
      have hprice := r.price.abs_value_lt
      rw [abs_mul] at hle
      exact absurd (hle.trans (mul_le_of_le_one_right (abs_nonneg _) hfactor)) (not_le.mpr hprice)
  · intro pair base quote cause
    rw [instruct_eq_overflow_iff, Instruction.terms_addLiquidity_eq_error_iff,
      Instruction.liquidityPrice_eq_error_iff]

/-- The last price whose limit with a margin of one in a hundred is in range, and the next one. -/
theorem leaves_range_above_last_price :
    let s := Settings.named "c" "n" "x" "w"
    let d (price : String) : Desk := { Desk.opening s [] .epoch "" with
      script := Script.empty.setCall .price [⟨0, .ok (.record [("price", .text price)])⟩] }
    s.validate = .ok () ∧
      (∀ cause, ((d "78443725261647859003508861718").quote ⟨"A", "B"⟩ .buy .one).2 ≠
        .error (.overflow cause)) ∧
      ((d "78443725261647859003508861719").quote ⟨"A", "B"⟩ .buy .one).2 =
        .error (.overflow .multiplication) := by
  intro s d
  have hs : s.validate = .ok () := by decide +kernel
  have hslippage : s.slippage.value = 1 / 100 := by
    norm_num [s, Settings.named, Settings.defaultSlippage, Decimal.value, pow10]
  have hlastPrice : ((d "78443725261647859003508861718").priceReply ⟨"A", "B"⟩ .buy .one).toOption.map
      (·.price) = some ⟨78443725261647859003508861718, 0, by decide, by decide⟩ := by decide +kernel
  have hnextPrice : ((d "78443725261647859003508861719").priceReply ⟨"A", "B"⟩ .buy .one).toOption.map
      (·.price) = some ⟨78443725261647859003508861719, 0, by decide, by decide⟩ := by decide +kernel
  obtain ⟨hlast, -⟩ := leaves_range_iff (d := d "78443725261647859003508861718") hs
  obtain ⟨hnext, -⟩ := leaves_range_iff (d := d "78443725261647859003508861719") hs
  refine ⟨hs, fun cause h => ?_, (hnext _ _ _ _).mpr ⟨rfl, rfl, ?_⟩⟩
  · obtain ⟨-, -, r, hr, hle⟩ := (hlast _ _ _ _).mp h
    rw [hr] at hlastPrice
    have hp : r.price = _ := Option.some.inj hlastPrice
    rw [hp] at hle
    change Decimal.overflowBound ≤ _ * (1 + s.slippage.value) at hle
    rw [hslippage, Decimal.overflowBound, Decimal.coefficientBound_cast] at hle
    norm_num [Decimal.value, pow10] at hle
  · cases hr : (d "78443725261647859003508861719").priceReply ⟨"A", "B"⟩ .buy .one with
    | error f =>
      rw [hr] at hnextPrice
      cases hnextPrice
    | ok r =>
      rw [hr] at hnextPrice
      have hp : r.price = _ := Option.some.inj hnextPrice
      refine ⟨r, rfl, ?_⟩
      rw [hp]
      change Decimal.overflowBound ≤ _ * (1 + s.slippage.value)
      rw [hslippage, Decimal.overflowBound, Decimal.coefficientBound_cast]
      norm_num [Decimal.value, pow10]

/-- With valid settings and a running desk, neither a purchase at the greatest price nor a great
amount for a tenth of a token has a result. -/
theorem great_amounts_leave_range :
    let s := Settings.named "c" "n" "x" "w"
    let great : Decimal := ⟨79228162514264337593543950335, 0, by decide, by decide⟩
    let d : Desk := { (Desk.opening s [] .epoch "").begin with
      script := Script.empty.setCall .price [⟨0, .ok (.record [("price", .text great.toText)])⟩] }
    s.validate = .ok () ∧
      ((d.priceReply ⟨"A", "B"⟩ .buy .one).toOption.map (·.price)) = some great ∧
      ((d.quote ⟨"A", "B"⟩ .buy .one).2 matches .error (.overflow .multiplication)) ∧
      ((d.instruct (.addLiquidity ⟨"A", "B"⟩ ⟨1, 1, by decide, by decide⟩ great)).2 matches
        .error (.overflow .division)) := by
  decide +kernel

end Desk

end SwapDesk
