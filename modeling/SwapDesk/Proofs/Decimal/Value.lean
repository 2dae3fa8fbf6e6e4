import Mathlib.Algebra.Order.Field.Rat
import Mathlib.Algebra.Order.Field.Basic
import Mathlib.Data.Rat.Cast.Order
import Mathlib.Tactic.FieldSimp
import Mathlib.Tactic.Linarith
import Mathlib.Tactic.NormNum
import Mathlib.Tactic.Positivity
import Mathlib.Tactic.Ring
import SwapDesk.Decimal.Arith

/-! The rational number that a decimal stands for, and what makes a decimal the rounding of a
rational number. -/
namespace SwapDesk.Decimal

variable {a b d e : Decimal} {x t : ℚ}

theorem pow10_cast_pos (k : Nat) : (0 : ℚ) < pow10 k := Nat.cast_pos.mpr (pow10_pos k)

def value (a : Decimal) : ℚ := a.mantissa / pow10 a.scale

/-- Half a unit of the last of `scale` fraction digits. -/
def halfUnit (scale : Nat) : ℚ := 1 / (2 * pow10 scale)

/-- The least magnitude that rounds to a coefficient out of range. -/
def overflowBound : ℚ := coefficientBound - 1 / 2

/-- The decimal `d` is the number `x` after rounding: at most half a unit of its last digit away,
and never on the other side of a decimal. The last digit of a zero is the last one there can be. -/
structure Rounds (d : Decimal) (x : ℚ) : Prop where
  near : |d.value - x| ≤ halfUnit d.scale
  tiny : d.mantissa = 0 → |x| ≤ halfUnit maxScale
  below : ∀ e : Decimal, e.value ≤ x → e.value ≤ d.value
  above : ∀ e : Decimal, x ≤ e.value → d.value ≤ e.value

theorem value_zero : zero.value = 0 := by
  simp [value, zero, ofSmall]

theorem value_one : one.value = 1 := by
  simp [value, one, ofSmall, pow10]

theorem value_neg (a : Decimal) : a.neg.value = -a.value := by
  simp [value, neg, neg_div]

theorem value_mul_pow10 (a : Decimal) : a.value * pow10 a.scale = a.mantissa :=
  div_mul_cancel₀ _ (pow10_cast_pos a.scale).ne'

theorem value_eq_zero_iff : a.value = 0 ↔ a.mantissa = 0 := by
  rw [value, div_eq_zero_iff, Int.cast_eq_zero]
  exact or_iff_left (pow10_cast_pos a.scale).ne'

theorem isZero_iff : a.isZero = true ↔ a.value = 0 := by
  rw [value_eq_zero_iff, isZero, beq_iff_eq]

theorem isNegative_iff : a.isNegative = true ↔ a.value < 0 := by
  rw [value, div_lt_iff₀ (pow10_cast_pos a.scale), zero_mul, Int.cast_lt_zero, isNegative,
    decide_eq_true_iff]

theorem cmp_eq_lt_iff : a.cmp b = .lt ↔ a.value < b.value := by
  rw [cmp, compare_lt_iff_lt, value, value,
    div_lt_div_iff₀ (pow10_cast_pos a.scale) (pow10_cast_pos b.scale)]
  exact_mod_cast Iff.rfl

theorem sameValue_iff_value : a.sameValue b = true ↔ a.value = b.value := by
  rw [sameValue_iff, value, value,
    div_eq_div_iff (pow10_cast_pos a.scale).ne' (pow10_cast_pos b.scale).ne']
  exact_mod_cast Iff.rfl

theorem coefficientBound_cast : (coefficientBound : ℚ) = 79228162514264337593543950336 := by
  have : coefficientBound = 79228162514264337593543950336 := by decide +kernel
  rw [this]
  norm_num

theorem abs_mantissa_le (a : Decimal) : |(a.mantissa : ℚ)| ≤ coefficientBound - 1 := by
  have : (a.mantissa.natAbs : ℚ) + 1 ≤ coefficientBound := by exact_mod_cast a.mantissa_lt
  rw [← Int.cast_abs, Int.abs_eq_natAbs, Int.cast_natCast]
  linarith

theorem abs_value_lt (a : Decimal) : |a.value| < overflowBound := by
  have hone : (1 : ℚ) ≤ pow10 a.scale := by exact_mod_cast pow10_pos a.scale
  rw [value, abs_div, abs_of_pos (pow10_cast_pos a.scale), overflowBound]
  have := div_le_self (abs_nonneg (a.mantissa : ℚ)) hone
  linarith [abs_mantissa_le a]

theorem value_le_iff : e.value ≤ d.value ↔ e.value * pow10 d.scale ≤ d.mantissa :=
  le_div_iff₀ (pow10_cast_pos d.scale)

theorem le_value_iff : d.value ≤ e.value ↔ d.mantissa ≤ e.value * pow10 d.scale :=
  div_le_iff₀ (pow10_cast_pos d.scale)

variable {s : Nat}

/-- In units of a scale at least as fine as its own, a decimal is a whole number. -/
theorem value_mul_pow10_of_le (hs : a.scale ≤ s) :
    a.value * pow10 s = ((a.mantissa * pow10 (s - a.scale) : Int) : ℚ) := by
  obtain ⟨k, rfl⟩ := Nat.exists_eq_add_of_le hs
  rw [Nat.add_sub_cancel_left, pow10_add, Nat.cast_mul, ← mul_assoc, value_mul_pow10]
  push_cast
  rfl

/-- A decimal with more digits behind the point has fewer before it. -/
theorem value_mul_pow10_of_lt (hs : s < a.scale) :
    a.value * pow10 s * 10 ≤ coefficientBound - 1 := by
  obtain ⟨k, hk⟩ := Nat.exists_eq_add_of_le (Nat.succ_le_of_lt hs)
  have hscale : (pow10 a.scale : ℚ) = pow10 s * 10 * pow10 k := by
    rw [hk, pow10_add, pow10_succ]
    push_cast
    rfl
  have hone : (1 : ℚ) ≤ pow10 k := by exact_mod_cast pow10_pos k
  have hpos := pow10_cast_pos s
  calc a.value * pow10 s * 10
      ≤ |a.value * pow10 s * 10| := le_abs_self _
    _ ≤ |a.value * pow10 s * 10| * pow10 k := le_mul_of_one_le_right (abs_nonneg _) hone
    _ = |(a.mantissa : ℚ)| := by
        rw [← value_mul_pow10, hscale, ← abs_of_pos (pow10_cast_pos k), ← abs_mul]
        congr 1
        rw [abs_of_pos (pow10_cast_pos k)]
        ring
    _ ≤ coefficientBound - 1 := abs_mantissa_le a

/-- Where the next digit has no room, no finer decimal comes near. -/
theorem finer_lt (he : d.scale < e.scale) (ht : overflowBound ≤ 10 * t)
    (hlow : t - 1 / 2 ≤ d.mantissa) :
    e.value * pow10 d.scale < t ∧ e.value * pow10 d.scale ≤ d.mantissa := by
  have hfine := value_mul_pow10_of_lt he
  rw [overflowBound, coefficientBound_cast] at ht
  rw [coefficientBound_cast] at hfine
  have hwhole : (7922816251426433759354395034 : ℤ) ≤ d.mantissa := by
    have : ((7922816251426433759354395033 : ℤ) : ℚ) < d.mantissa := by
      push_cast
      linarith
    exact Int.cast_lt.mp this
  have hcast : (7922816251426433759354395034 : ℚ) ≤ d.mantissa := by exact_mod_cast hwhole
  constructor <;> linarith

namespace Rounds

theorem exact (h : d.Rounds x) (he : e.value = x) : d.value = x := by
  rw [← he]
  exact le_antisymm (h.above e he.ge) (h.below e he.le)

theorem refl (d : Decimal) : d.Rounds d.value where
  near := by
    rw [sub_self, abs_zero, halfUnit]
    have := pow10_cast_pos d.scale
    positivity
  tiny h := by
    rw [value_eq_zero_iff.mpr h, abs_zero, halfUnit]
    have := pow10_cast_pos maxScale
    positivity
  below _ h := h
  above _ h := h

theorem neg (h : d.Rounds x) : d.neg.Rounds (-x) where
  near := by
    rw [value_neg, neg_sub_neg, abs_sub_comm]
    exact h.near
  tiny hd := by
    rw [abs_neg]
    exact h.tiny (neg_eq_zero.mp hd)
  below e he := by
    have := h.above e.neg (by rw [value_neg]; linarith)
    rw [value_neg] at this ⊢
    linarith
  above e he := by
    have := h.below e.neg (by rw [value_neg]; linarith)
    rw [value_neg] at this ⊢
    linarith

theorem nonneg (h : d.Rounds x) (hx : 0 ≤ x) : 0 ≤ d.value := by
  have := h.below zero (by rwa [value_zero])
  rwa [value_zero] at this

/-- The same number with fewer digits behind the point. -/
theorem of_value (h : d.Rounds x) (hv : e.value = d.value) (hs : e.scale ≤ d.scale) :
    e.Rounds x where
  near := by
    have hpow : (pow10 e.scale : ℚ) ≤ pow10 d.scale :=
      Nat.cast_le.mpr (Nat.pow_le_pow_right (by decide) hs)
    have hpos := pow10_cast_pos e.scale
    rw [hv]
    refine h.near.trans (one_div_le_one_div_of_le (by positivity) ?_)
    linarith
  tiny he := h.tiny (value_eq_zero_iff.mp (hv ▸ value_eq_zero_iff.mpr he))
  below c hc := hv ▸ h.below c hc
  above c hc := hv ▸ h.above c hc

/-- In units of its last digit `d` is the whole number next to `t`, and it has all the fraction
digits there can be, or all that there is room for, or it is `t` itself. -/
theorem of_near (ht : 0 ≤ t) (hnear : |d.mantissa - t| ≤ 1 / 2)
    (hfull : d.mantissa = t ∨ d.scale = maxScale ∨ overflowBound ≤ 10 * t) :
    d.Rounds (t / pow10 d.scale) := by
  have hpos := pow10_cast_pos d.scale
  rcases abs_le.mp hnear with ⟨hlow, hhigh⟩
  constructor
  case near =>
    rw [value, ← sub_div, abs_div, abs_of_pos hpos, halfUnit, ← div_div]
    exact div_le_div_of_nonneg_right hnear hpos.le
  case tiny =>
    intro hzero
    rw [hzero, Int.cast_zero] at hhigh hfull hlow
    have hunit : t / pow10 d.scale ≤ halfUnit d.scale := by
      rw [halfUnit, ← div_div]
      exact div_le_div_of_nonneg_right (by linarith) hpos.le
    rw [abs_of_nonneg (div_nonneg ht hpos.le)]
    rcases hfull with hexact | hscale | hroom
    · rw [← hexact, zero_div, halfUnit]
      have := pow10_cast_pos maxScale
      positivity
    · rwa [hscale] at hunit ⊢
    · rw [overflowBound, coefficientBound_cast] at hroom
      linarith
  case below =>
    intro e he
    rw [value_le_iff]
    rw [le_div_iff₀ hpos] at he
    rcases le_or_gt e.scale d.scale with hs | hs
    · rw [value_mul_pow10_of_le hs] at he ⊢
      have : ((e.mantissa * pow10 (d.scale - e.scale) : Int) : ℚ) < ((d.mantissa + 1 : Int) : ℚ) := by
        push_cast at he ⊢
        linarith
      exact Int.cast_le.mpr (Int.le_of_lt_add_one (Int.cast_lt.mp this))
    · rcases hfull with hexact | hscale | hroom
      · rwa [hexact]
      · exact absurd e.scale_le (by omega)
      · exact (finer_lt hs hroom (by linarith)).2
  case above =>
    intro e he
    rw [le_value_iff]
    rw [div_le_iff₀ hpos] at he
    rcases le_or_gt e.scale d.scale with hs | hs
    · rw [value_mul_pow10_of_le hs] at he ⊢
      have : (d.mantissa : ℚ) < ((e.mantissa * pow10 (d.scale - e.scale) + 1 : Int) : ℚ) := by
        push_cast at he ⊢
        linarith
      exact Int.cast_le.mpr (Int.le_of_lt_add_one (Int.cast_lt.mp this))
    · rcases hfull with hexact | hscale | hroom
      · rwa [hexact]
      · exact absurd e.scale_le (by omega)
      · exact absurd he (not_le.mpr (finer_lt hs hroom (by linarith)).1)

/-- Half a unit of the last digit there can be, or less, is rounded to nothing. -/
theorem zero (hx : |x| ≤ halfUnit maxScale) : Decimal.zero.Rounds x := by
  let least : Decimal := ⟨0, maxScale, by decide, Nat.le_refl _⟩
  have hnonneg : ∀ y : ℚ, 0 ≤ y → y ≤ halfUnit maxScale → Decimal.zero.Rounds y := by
    intro y hy hle
    have hpos := pow10_cast_pos maxScale
    have hunits : y * pow10 maxScale ≤ 1 / 2 := by
      rwa [halfUnit, ← div_div, le_div_iff₀ hpos] at hle
    have hround : least.Rounds (y * pow10 maxScale / pow10 maxScale) := by
      refine of_near (by positivity) ?_ (Or.inr (Or.inl rfl))
      rw [Int.cast_zero, zero_sub, abs_neg, abs_of_nonneg (by positivity)]
      exact hunits
    rw [mul_div_cancel_right₀ _ hpos.ne'] at hround
    refine hround.of_value ?_ (Nat.zero_le _)
    rw [value_zero, value_eq_zero_iff.mpr rfl]
  rcases le_total 0 x with h | h
  · exact hnonneg x h (by rwa [abs_of_nonneg h] at hx)
  · have := (hnonneg (-x) (by linarith) (by rwa [abs_of_nonpos h] at hx)).neg
    rwa [neg_neg] at this

end Rounds

theorem halfUnit_lt_overflowBound : halfUnit maxScale < overflowBound := by
  have : halfUnit maxScale ≤ 1 / 2 := by
    have hone : (1 : ℚ) ≤ pow10 maxScale := by exact_mod_cast pow10_pos maxScale
    exact one_div_le_one_div_of_le (by norm_num) (by linarith)
  rw [overflowBound, coefficientBound_cast]
  linarith

end SwapDesk.Decimal
