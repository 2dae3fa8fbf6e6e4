import SwapDesk.Order.Resolution
import SwapDesk.Proofs.Decimal.Value

/-! Products of decimals: what is rounded how, and which are out of range. -/
namespace SwapDesk

variable {n k : Nat} {negative : Bool}

/-- Rounding moves a quotient by at most a half. -/
theorem roundHalfEven_near (n : Nat) (hk : 0 < k) : |(roundHalfEven n k : ℚ) - n / k| ≤ 1 / 2 := by
  have hpos : (0 : ℚ) < k := Nat.cast_pos.mpr hk
  have hdiv := Nat.div_add_mod n k
  have hmod := Nat.mod_lt n hk
  have hbounds : 2 * n ≤ 2 * (k * roundHalfEven n k) + k ∧
      2 * (k * roundHalfEven n k) ≤ 2 * n + k := by
    simp only [roundHalfEven]
    split
    · rw [Nat.mul_add]
      omega
    · omega
  obtain ⟨hlow, hhigh⟩ := hbounds
  have hlow' : 2 * (n : ℚ) ≤ 2 * (k * roundHalfEven n k) + k := by exact_mod_cast hlow
  have hhigh' : 2 * (k * (roundHalfEven n k : ℚ)) ≤ 2 * n + k := by exact_mod_cast hhigh
  rw [abs_le, neg_le_sub_iff_le_add, sub_le_iff_le_add, div_le_iff₀ hpos, ← sub_le_iff_le_add',
    le_div_iff₀ hpos]
  constructor <;> linarith

/-- The bound is even, so what is halfway below it is rounded up to it. -/
theorem roundHalfEven_lt_iff (n : Nat) (hk : 0 < k) :
    roundHalfEven n k < coefficientBound ↔ (n : ℚ) / k < Decimal.overflowBound := by
  have hpos : (0 : ℚ) < k := Nat.cast_pos.mpr hk
  have hnat : roundHalfEven n k < coefficientBound ↔ 2 * n + k < 2 * (k * coefficientBound) := by
    have hdiv := Nat.div_add_mod n k
    have hmod := Nat.mod_lt n hk
    have hle := le_roundHalfEven n k
    have hge := roundHalfEven_le n k
    have hbound : coefficientBound = 79228162514264337593543950336 := by decide +kernel
    rcases Nat.lt_trichotomy (n / k + 1) coefficientBound with hq | hq | hq
    · have := Nat.mul_le_mul_left k hq
      rw [Nat.mul_succ, Nat.mul_succ] at this
      omega
    · rw [← hq, Nat.mul_succ]
      simp only [roundHalfEven]
      split <;> omega
    · have := Nat.mul_le_mul_left k (Nat.le_of_lt_succ hq)
      omega
  rw [hnat, Decimal.overflowBound, div_lt_iff₀ hpos, ← Nat.cast_lt (α := ℚ)]
  push_cast
  constructor <;> intro h <;> linarith

namespace Decimal

variable {a b d : Decimal} {s : Nat} {x : ℚ}

/-- A magnitude with its sign. -/
def signed (negative : Bool) (x : ℚ) : ℚ := if negative then -x else x

theorem signed_mul (p q : Bool) (x y : ℚ) : signed p x * signed q y = signed (p != q) (x * y) := by
  cases p <;> cases q <;> simp [signed]

theorem signed_div (p q : Bool) (x y : ℚ) : signed p x / signed q y = signed (p != q) (x / y) := by
  cases p <;> cases q <;> simp [signed, neg_div, div_neg]

theorem abs_signed (p : Bool) (hx : 0 ≤ x) : |signed p x| = x := by
  cases p <;> simp [signed, abs_of_nonneg hx]

theorem signed_div_right (p : Bool) (x y : ℚ) : signed p x / y = signed p (x / y) := by
  cases p <;> simp [signed, neg_div]

theorem cast_eq_signed (m : Int) : (m : ℚ) = signed (m < 0) m.natAbs := by
  rw [signed, Nat.cast_natAbs]
  by_cases h : m < 0
  · rw [if_pos (decide_eq_true h), abs_of_neg h, Int.cast_neg, neg_neg]
  · rw [if_neg (by simpa using h), abs_of_nonneg (not_lt.mp h)]

theorem value_eq_signed (a : Decimal) :
    a.value = signed a.isNegative (a.mantissa.natAbs / pow10 a.scale) := by
  rw [← signed_div_right, isNegative, ← cast_eq_signed, value]

/-- A negative number is the negation of its magnitude. -/
theorem ofSign?_true (n s : Nat) : ofSign? true n s = (ofSign? false n s).map neg := by
  simp only [ofSign?, ofParts?]
  by_cases hn : n < coefficientBound <;> by_cases hs : s ≤ maxScale <;> simp [hn, hs, neg]

theorem ofParts?_eq_some_iff {m : Int} :
    ofParts? m s = some d ↔ d.mantissa = m ∧ d.scale = s := by
  constructor
  · intro h
    rw [ofParts?] at h
    by_cases hm : m.natAbs < coefficientBound
    · by_cases hs : s ≤ maxScale
      · rw [dif_pos hm, dif_pos hs] at h
        cases h
        exact ⟨rfl, rfl⟩
      · rw [dif_pos hm, dif_neg hs] at h
        cases h
    · rw [dif_neg hm] at h
      cases h
  · rintro ⟨rfl, rfl⟩
    exact ofParts?_eq_some d

/-- Without its last `k` fraction digits, the number has few enough digits. -/
def Suffices (n s k : Nat) : Prop :=
  s ≤ maxScale + k ∧ roundHalfEven n (pow10 k) < coefficientBound

instance : Decidable (Suffices n s k) := inferInstanceAs (Decidable (_ ∧ _))

theorem fit?_eq (negative : Bool) (n s : Nat) :
    fit? negative n s = ((List.range (s + 1)).find? fun k => Suffices n s k).bind fun k =>
      ofSign? negative (roundHalfEven n (pow10 k)) (s - k) := rfl

theorem Suffices.exists_decimal (h : Suffices n s k) :
    ∃ d, ofSign? false (roundHalfEven n (pow10 k)) (s - k) = some d :=
  ⟨⟨roundHalfEven n (pow10 k), s - k, h.2, by have := h.1; omega⟩,
    ofParts?_eq_some_iff.mpr ⟨rfl, rfl⟩⟩

/-- Dropping fewer digits leaves a greater number. -/
theorem suffices_of_le {j : Nat} (hjk : j ≤ k) (hs : s ≤ maxScale + k) (h : Suffices n s j) :
    Suffices n s k := by
  refine ⟨hs, ?_⟩
  have hj := h.2
  rw [roundHalfEven_lt_iff n (pow10_pos _)] at hj ⊢
  refine lt_of_le_of_lt (div_le_div_of_nonneg_left (Nat.cast_nonneg n) (pow10_cast_pos j) ?_) hj
  exact Nat.cast_le.mpr (Nat.pow_le_pow_right (by decide) hjk)

theorem ten_mul_div_pow10_succ (x : ℚ) (j : Nat) : 10 * (x / pow10 (j + 1)) = x / pow10 j := by
  rw [pow10_succ, Nat.cast_mul, ← div_div]
  exact mul_div_cancel₀ _ (by norm_num)

/-- What is rounded to fit is exact if no digit was dropped. If one was, there is no room for it,
before the point or behind it. -/
theorem fit?_false_rounds (h : fit? false n s = some d) : d.Rounds (n / pow10 s) := by
  rw [fit?_eq] at h
  obtain ⟨k, hfind, hd⟩ := Option.bind_eq_some_iff.mp h
  obtain ⟨-, hmem, hleast⟩ := List.find?_range_eq_some.mp hfind
  obtain ⟨hm, hs⟩ := ofParts?_eq_some_iff.mp hd
  have hmant : (d.mantissa : ℚ) = roundHalfEven n (pow10 k) := by
    rw [hm, if_neg Bool.false_ne_true, Int.cast_natCast]
  have hks : k ≤ s := Nat.le_of_lt_succ (List.mem_range.mp hmem)
  have hpow : (pow10 s : ℚ) = pow10 k * pow10 d.scale := by
    rw [hs, ← Nat.cast_mul, ← pow10_add, Nat.add_sub_cancel' hks]
  rw [hpow, ← div_div]
  refine .of_near (by positivity) (hmant ▸ roundHalfEven_near n (pow10_pos k)) ?_
  cases k with
  | zero =>
    left
    rw [hmant, roundHalfEven_of_dvd (pow10_pos 0) (one_dvd n)]
    simp [pow10]
  | succ j =>
    right
    by_cases hscale : s ≤ maxScale + j
    · right
      have hj : ¬ Suffices n s j := by simpa using hleast j (Nat.lt_succ_self j)
      rw [ten_mul_div_pow10_succ, ← not_lt, ← roundHalfEven_lt_iff n (pow10_pos j)]
      exact fun hlt => hj ⟨hscale, hlt⟩
    · left
      have := d.scale_le
      omega

theorem fit?_false_eq_none_iff : fit? false n s = none ↔ overflowBound ≤ (n : ℚ) / pow10 s := by
  rw [← not_lt, ← roundHalfEven_lt_iff n (pow10_pos s), ← not_iff_not, not_not,
    ← ne_eq, Option.ne_none_iff_exists', fit?_eq]
  constructor
  · rintro ⟨d, hd⟩
    obtain ⟨k, hfind, -⟩ := Option.bind_eq_some_iff.mp hd
    obtain ⟨hk, hmem, -⟩ := List.find?_range_eq_some.mp hfind
    exact (suffices_of_le (Nat.le_of_lt_succ (List.mem_range.mp hmem)) (Nat.le_add_left s maxScale)
      (of_decide_eq_true hk)).2
  · intro h
    cases hfind : (List.range (s + 1)).find? fun k => Suffices n s k with
    | none =>
      have := List.find?_eq_none.mp hfind s (List.mem_range.mpr (Nat.lt_succ_self s))
      exact absurd (decide_eq_true ⟨Nat.le_add_left s maxScale, h⟩) this
    | some k =>
      obtain ⟨hk, -, -⟩ := List.find?_range_eq_some.mp hfind
      obtain ⟨d, hd⟩ := (of_decide_eq_true hk).exists_decimal
      exact ⟨d, hd⟩

theorem fit?_true (n s : Nat) : fit? true n s = (fit? false n s).map neg := by
  simp only [fit?_eq, ofSign?_true, Option.map_bind]
  rfl

theorem fit?_rounds (h : fit? negative n s = some d) : d.Rounds (signed negative (n / pow10 s)) := by
  cases negative with
  | false => exact fit?_false_rounds h
  | true =>
    rw [fit?_true] at h
    obtain ⟨c, hc, rfl⟩ := Option.map_eq_some_iff.mp h
    exact (fit?_false_rounds hc).neg

theorem fit?_eq_none_iff : fit? negative n s = none ↔ overflowBound ≤ (n : ℚ) / pow10 s := by
  cases negative with
  | false => exact fit?_false_eq_none_iff
  | true => rw [fit?_true, Option.map_eq_none_iff, fit?_false_eq_none_iff]

theorem value_mul (a b : Decimal) :
    a.value * b.value = signed (signsDiffer a b)
      ((a.mantissa.natAbs * b.mantissa.natAbs : Nat) / pow10 (a.scale + b.scale)) := by
  rw [value_eq_signed a, value_eq_signed b, signed_mul, div_mul_div_comm, pow10_add, signsDiffer]
  push_cast
  rfl

/-- A product of two small coefficients with too many fraction digits is less than half of the
least decimal. -/
theorem abs_mul_le_of_fine (ha : a.mantissa.natAbs < pow2 32) (hb : b.mantissa.natAbs < pow2 32)
    (hs : 47 < a.scale + b.scale) : |a.value * b.value| ≤ halfUnit maxScale := by
  have hcoefficient : a.mantissa.natAbs * b.mantissa.natAbs ≤ pow2 32 * pow2 32 :=
    Nat.mul_le_mul (Nat.le_of_lt ha) (Nat.le_of_lt hb)
  have hcross : a.mantissa.natAbs * b.mantissa.natAbs * (2 * pow10 maxScale) ≤
      pow10 (a.scale + b.scale) :=
    calc a.mantissa.natAbs * b.mantissa.natAbs * (2 * pow10 maxScale)
        ≤ pow2 32 * pow2 32 * (2 * pow10 maxScale) := Nat.mul_le_mul_right _ hcoefficient
      _ ≤ pow10 48 := by decide +kernel
      _ ≤ pow10 (a.scale + b.scale) := Nat.pow_le_pow_right (by decide) hs
  have hpos := pow10_cast_pos maxScale
  rw [value_mul, abs_signed _ (by positivity), halfUnit,
    div_le_div_iff₀ (pow10_cast_pos _) (by positivity), one_mul]
  exact_mod_cast hcross

/-- A product is nothing, if there is next to nothing to round, or as many digits as fit. -/
theorem mul?_cases (a b : Decimal) :
    a.mul? b = some zero ∧ |a.value * b.value| ≤ halfUnit maxScale ∨
      a.mul? b = fit? (signsDiffer a b) (a.mantissa.natAbs * b.mantissa.natAbs)
        (a.scale + b.scale) := by
  by_cases hzero : a.isZero ∨ b.isZero
  · refine Or.inl ⟨if_pos hzero, ?_⟩
    have hproduct : a.value * b.value = 0 := by
      simpa only [isZero_iff, ← mul_eq_zero] using hzero
    have hpos := pow10_cast_pos maxScale
    rw [hproduct, abs_zero, halfUnit]
    positivity
  · by_cases hfine : a.mantissa.natAbs < pow2 32 ∧ b.mantissa.natAbs < pow2 32 ∧
        47 < a.scale + b.scale
    · exact Or.inl ⟨(if_neg hzero).trans (if_pos hfine),
        abs_mul_le_of_fine hfine.1 hfine.2.1 hfine.2.2⟩
    · exact Or.inr ((if_neg hzero).trans (if_neg hfine))

/-- The product of two decimals is their exact product, rounded. -/
theorem rounds_of_mul? (h : a.mul? b = some d) : d.Rounds (a.value * b.value) := by
  rcases mul?_cases a b with ⟨hzero, hle⟩ | hfit
  · cases hzero.symm.trans h
    exact .zero hle
  · rw [value_mul]
    exact fit?_rounds (hfit ▸ h)

theorem mul?_eq_none_iff : a.mul? b = none ↔ overflowBound ≤ |a.value * b.value| := by
  rcases mul?_cases a b with ⟨hzero, hle⟩ | hfit
  · have := halfUnit_lt_overflowBound
    rw [hzero, iff_false_left (Option.some_ne_none _), not_le]
    linarith
  · rw [hfit, fit?_eq_none_iff, value_mul, abs_signed _ (by positivity)]

/-- A product that needs no rounding is exact. -/
theorem exists_exact_mul? (hm : (a.mantissa * b.mantissa).natAbs < coefficientBound)
    (hs : a.scale + b.scale ≤ maxScale) :
    ∃ d, a.mul? b = some d ∧ d.value = a.value * b.value := by
  let e : Decimal := ⟨a.mantissa * b.mantissa, a.scale + b.scale, hm, hs⟩
  have he : e.value = a.value * b.value := by
    have hmantissa : (e.mantissa : ℚ) = a.mantissa * b.mantissa := Int.cast_mul ..
    rw [value, value, value, div_mul_div_comm, hmantissa, pow10_add, Nat.cast_mul]
  cases hd : a.mul? b with
  | none =>
    have hlarge := mul?_eq_none_iff.mp hd
    rw [← he] at hlarge
    exact absurd (abs_value_lt e) (not_lt.mpr hlarge)
  | some d => exact ⟨d, rfl, (rounds_of_mul? hd).exact he⟩

/-- The sum of two decimals in units of the finer scale. -/
def alignedSum (a b : Decimal) : Int :=
  a.mantissa * pow10 (max a.scale b.scale - a.scale) +
    b.mantissa * pow10 (max a.scale b.scale - b.scale)

theorem value_add (a b : Decimal) :
    a.value + b.value =
      signed (alignedSum a b < 0) ((alignedSum a b).natAbs / pow10 (max a.scale b.scale)) := by
  have hsum : (a.value + b.value) * pow10 (max a.scale b.scale) = alignedSum a b := by
    rw [add_mul, value_mul_pow10_of_le (le_max_left _ _), value_mul_pow10_of_le (le_max_right _ _),
      ← Int.cast_add, alignedSum]
  rw [← signed_div_right, ← cast_eq_signed, ← hsum]
  exact (mul_div_cancel_right₀ _ (pow10_cast_pos _).ne').symm

theorem add?_cases (a b : Decimal) :
    (∃ d, a.add? b = some d ∧ d.value = a.value + b.value) ∨
      a.add? b = fit? (alignedSum a b < 0) (alignedSum a b).natAbs (max a.scale b.scale) := by
  by_cases ha : a.isZero
  · exact Or.inl ⟨b, if_pos ha, by rw [isZero_iff.mp ha, zero_add]⟩
  · by_cases hb : b.isZero
    · exact Or.inl ⟨a, (if_neg ha).trans (if_pos hb), by rw [isZero_iff.mp hb, add_zero]⟩
    · exact Or.inr ((if_neg ha).trans (if_neg hb))

/-- The sum of two decimals is their exact sum, rounded. -/
theorem rounds_of_add? (h : a.add? b = some d) : d.Rounds (a.value + b.value) := by
  rcases add?_cases a b with ⟨c, hc, hvalue⟩ | hfit
  · cases hc.symm.trans h
    rw [← hvalue]
    exact .refl d
  · rw [value_add]
    exact fit?_rounds (hfit ▸ h)

theorem add?_eq_none_iff : a.add? b = none ↔ overflowBound ≤ |a.value + b.value| := by
  rcases add?_cases a b with ⟨c, hc, hvalue⟩ | hfit
  · have := abs_value_lt c
    rw [hc, ← hvalue, iff_false_left (Option.some_ne_none _), not_le]
    exact this
  · rw [hfit, fit?_eq_none_iff, value_add, abs_signed _ (by positivity)]

variable {cause : Overflow}

theorem mul_rounds (h : a.mul b = .ok d) : d.Rounds (a.value * b.value) :=
  rounds_of_mul? (Overflow.check_eq_ok.mp h)

theorem mul_eq_error_iff :
    a.mul b = .error cause ↔ overflowBound ≤ |a.value * b.value| ∧ .multiplication = cause := by
  rw [mul, Overflow.check_eq_error, mul?_eq_none_iff]

end Decimal

end SwapDesk
