import SwapDesk.Proofs.Decimal.Product
import SwapDesk.Settings

/-! The limit prices that a margin makes of a price. -/
namespace SwapDesk

variable {b l : Decimal} {s : Settings} {cause : Overflow}

namespace Decimal

/-- Next to one there is room for all digits of a number below one. -/
theorem exists_one_add (hb : |b.value| < 1) : ∃ e : Decimal, e.value = 1 + b.value := by
  have hpos := pow10_cast_pos b.scale
  have hunits : |(b.mantissa : ℚ)| < pow10 b.scale := by
    rwa [value, abs_div, abs_of_pos hpos, div_lt_one hpos] at hb
  have hnat : b.mantissa.natAbs < pow10 b.scale := by
    rw [← Int.cast_abs, Int.abs_eq_natAbs] at hunits
    exact_mod_cast hunits
  have hpow : pow10 b.scale ≤ pow10 maxScale := Nat.pow_le_pow_right (by decide) b.scale_le
  have hbound : 2 * pow10 maxScale < coefficientBound := by decide +kernel
  refine ⟨⟨pow10 b.scale + b.mantissa, b.scale, by omega, b.scale_le⟩, ?_⟩
  rw [value, value, Int.cast_add, Int.cast_natCast, add_div, div_self hpos.ne']

/-- A number below one is added to one without rounding. -/
theorem one_add_exact (hb : |b.value| < 1) :
    ∃ f, one.add? b = some f ∧ f.value = 1 + b.value := by
  have hsum : one.value + b.value = 1 + b.value := by rw [value_one]
  cases h : one.add? b with
  | none =>
    rw [add?_eq_none_iff, hsum, overflowBound, coefficientBound_cast] at h
    rw [abs_lt] at hb
    exact absurd h (not_le.mpr (abs_lt.mpr ⟨by linarith, by linarith⟩))
  | some f =>
    obtain ⟨e, he⟩ := exists_one_add hb
    refine ⟨f, rfl, ?_⟩
    rw [(rounds_of_add? h).exact (he.trans hsum.symm), hsum]

end Decimal

namespace Settings

theorem refuse_eq_ok {fault : SettingsFault} {bad : Bool} :
    refuse fault bad = .ok () ↔ bad = false := by
  cases bad <;> simp [refuse]

/-- Valid settings have a margin from nothing to less than the whole price. -/
theorem slippage_of_validate (h : s.validate = .ok ()) :
    0 ≤ s.slippage.value ∧ s.slippage.value < 1 := by
  simp only [validate, bind_eq_ok] at h
  obtain ⟨_, _, _, _, _, _, _, _, _, _, _, _, _, _, _, hslippage, _⟩ := h
  obtain ⟨hsign, hone⟩ := Bool.or_eq_false_iff.mp (refuse_eq_ok.mp hslippage)
  have hlt : s.slippage.cmp .one = .lt := by simpa using hone
  refine ⟨not_lt.mp fun hneg => ?_, ?_⟩
  · rw [Decimal.isNegative_iff.mpr hneg] at hsign
    cases hsign
  · rw [← Decimal.value_one]
    exact Decimal.cmp_eq_lt_iff.mp hlt

end Settings

/-- What a price is multiplied by. -/
def Side.factor : Side → ℚ → ℚ
  | .buy, margin => 1 + margin
  | .sell, margin => 1 - margin

section

variable {margin : Decimal} (hm : |margin.value| < 1) (p : Decimal) (side : Side)

include hm

/-- The factor is exact, so that only the product is rounded. -/
theorem limitPrice_eq_mul :
    ∃ f : Decimal, f.value = side.factor margin.value ∧ limitPrice p side margin = p.mul f := by
  cases side with
  | buy =>
    obtain ⟨f, hf, hvalue⟩ := Decimal.one_add_exact hm
    refine ⟨f, hvalue, ?_⟩
    rw [limitPrice, Decimal.add, hf]
    rfl
  | sell =>
    obtain ⟨f, hf, hvalue⟩ := Decimal.one_add_exact (b := margin.neg) (by
      rwa [Decimal.value_neg, abs_neg])
    refine ⟨f, by rw [hvalue, Decimal.value_neg, Side.factor, sub_eq_add_neg], ?_⟩
    rw [limitPrice, Decimal.sub, Decimal.sub?, hf]
    rfl

theorem rounds_of_limitPrice (h : limitPrice p side margin = .ok l) :
    l.Rounds (p.value * side.factor margin.value) := by
  obtain ⟨f, hf, heq⟩ := limitPrice_eq_mul hm p side
  rw [heq] at h
  rw [← hf]
  exact Decimal.mul_rounds h

theorem limitPrice_eq_error_iff :
    limitPrice p side margin = .error cause ↔
      Decimal.overflowBound ≤ |p.value * side.factor margin.value| ∧ .multiplication = cause := by
  obtain ⟨f, hf, heq⟩ := limitPrice_eq_mul hm p side
  rw [heq, ← hf, Decimal.mul_eq_error_iff]

end

/-- The factors are exact. The limit of a sale exists and is between zero and the price, the limit
of a purchase is the price or more, and no more than one rounding lies between a limit and the exact
product: a limit is the product if a decimal is, and otherwise at most half a unit of its last digit
away. -/
theorem limits_enclose_price {s : Settings} {p : Decimal} (hs : s.validate = .ok ())
    (hp : 0 ≤ p.value) :
    (∃ f, Decimal.one.add s.slippage = .ok f ∧ f.value = 1 + s.slippage.value) ∧
    (∃ f, Decimal.one.sub s.slippage = .ok f ∧ f.value = 1 - s.slippage.value) ∧
    (∃ l, limitPrice p .sell s.slippage = .ok l ∧ 0 ≤ l.value ∧ l.value ≤ p.value) ∧
    (∀ l, limitPrice p .buy s.slippage = .ok l → p.value ≤ l.value) ∧
    ∀ side l, limitPrice p side s.slippage = .ok l →
      l.Rounds (p.value * side.factor s.slippage.value) ∧
      ((∃ e : Decimal, e.value = p.value * side.factor s.slippage.value) →
        l.value = p.value * side.factor s.slippage.value) ∧
      |l.value - p.value * side.factor s.slippage.value| ≤ Decimal.halfUnit l.scale := by
  obtain ⟨hb, hb1⟩ := Settings.slippage_of_validate hs
  have hm : |s.slippage.value| < 1 := abs_lt.mpr ⟨by linarith, hb1⟩
  have hround := fun side l => rounds_of_limitPrice (l := l) hm p side
  refine ⟨?_, ?_, ?_, ?_, ?_⟩
  · obtain ⟨f, hf, hvalue⟩ := Decimal.one_add_exact hm
    exact ⟨f, Overflow.check_eq_ok.mpr hf, hvalue⟩
  · obtain ⟨f, hf, hvalue⟩ := Decimal.one_add_exact (b := s.slippage.neg) (by
      rwa [Decimal.value_neg, abs_neg])
    rw [Decimal.value_neg, ← sub_eq_add_neg] at hvalue
    exact ⟨f, Overflow.check_eq_ok.mpr hf, hvalue⟩
  · have hle : p.value * Side.sell.factor s.slippage.value ≤ p.value :=
      mul_le_of_le_one_right hp (by rw [Side.factor]; linarith)
    have hnonneg : 0 ≤ p.value * Side.sell.factor s.slippage.value :=
      mul_nonneg hp (by rw [Side.factor]; linarith)
    cases h : limitPrice p .sell s.slippage with
    | error cause =>
      have hbound := (limitPrice_eq_error_iff hm p .sell).mp h
      rw [abs_of_nonneg hnonneg] at hbound
      have := (abs_lt.mp (p.abs_value_lt)).2
      linarith
    | ok l => exact ⟨l, rfl, (hround _ l h).nonneg hnonneg, (hround _ l h).above p hle⟩
  · intro l h
    refine (hround _ l h).below p (le_mul_of_one_le_right hp ?_)
    rw [Side.factor]
    linarith
  · intro side l h
    have := hround side l h
    exact ⟨this, fun ⟨e, he⟩ => this.exact he, this.near⟩

/-- The greatest price with 28 fraction digits. Its limit for a purchase has one digit less. -/
theorem limits_enclose_greatest_fine_price :
    let s := Settings.named "c" "n" "x" "w"
    let p : Decimal := ⟨79228162514264337593543950335, 28, by decide, by decide⟩
    s.validate = .ok () ∧ 0 ≤ p.value ∧
      (∃ l, limitPrice p .sell s.slippage = .ok l ∧ 0 ≤ l.value ∧ l.value ≤ p.value) ∧
      ∃ l, limitPrice p .buy s.slippage = .ok l ∧
        l.mantissa = 8002044413940698096947938984 ∧ l.scale = 27 ∧ p.value ≤ l.value ∧
        |l.value - p.value * (1 + s.slippage.value)| ≤ Decimal.halfUnit 27 := by
  intro s p
  have hs : s.validate = .ok () := by decide +kernel
  have hp : 0 ≤ p.value := not_lt.mp (mt Decimal.isNegative_iff.mpr (by decide))
  obtain ⟨-, -, hsell, hbuy, hnear⟩ := limits_enclose_price hs hp
  have hlimit : limitPrice p .buy s.slippage =
      .ok ⟨8002044413940698096947938984, 27, by decide, by decide⟩ := by decide +kernel
  exact ⟨hs, hp, hsell, _, hlimit, rfl, rfl, hbuy _ hlimit, (hnear .buy _ hlimit).2.2⟩

end SwapDesk
