import Mathlib.Algebra.Order.Field.Power
import SwapDesk.Proofs.Decimal.Product

/-! Quotients of decimals. The digits so far and what is left to divide make up the exact quotient
at every step, and where the division ends there is no room for more digits. -/
namespace SwapDesk.Decimal

/-- The last digit of a number is dropped. What is behind the number counts as a half of one. -/
theorem roundHalfEven_sticky_near {n : Nat} {t : ℚ} (hle : n ≤ t) (hlt : t < n + 1) :
    |(roundHalfEven (2 * n + if t = n then 0 else 1) 20 : ℚ) - t / 10| ≤ 1 / 2 := by
  by_cases ht : t = n
  · rw [if_pos ht, Nat.add_zero, ht]
    have hnear := roundHalfEven_near (2 * n) (k := 20) (by decide)
    push_cast at hnear
    rwa [mul_div_assoc, show (2 : ℚ) * (n / 20) = n / 10 by ring] at hnear
  · rw [if_neg ht]
    have hsplit : ∃ q, roundHalfEven (2 * n + 1) 20 = q ∧ n < 10 * q + 5 ∧ 10 * q < n + 6 := by
      refine ⟨_, rfl, ?_⟩
      simp only [roundHalfEven]
      split <;> omega
    obtain ⟨q, hq, hhigh, hlow⟩ := hsplit
    have hhigh' : (n : ℚ) + 1 ≤ 10 * q + 5 := by exact_mod_cast hhigh
    have hlow' : 10 * (q : ℚ) ≤ n + 5 := by exact_mod_cast Nat.le_of_lt_succ hlow
    rw [hq, abs_le]
    constructor <;> linarith

namespace Quotient

variable {q : Quotient} {divisor x : Nat}

/-- The digits with what is left behind them, in units of the last digit. -/
def units (divisor : Nat) (q : Quotient) : ℚ := q.digits + q.rest / divisor

/-- The exact quotient. -/
def number (divisor : Nat) (q : Quotient) : ℚ := q.units divisor / (10 : ℚ) ^ q.scale

theorem pow10_cast (k : Nat) : (pow10 k : ℚ) = (10 : ℚ) ^ (k : Int) := by
  rw [pow10, zpow_natCast]
  exact Nat.cast_pow 10 k

theorem units_extend (hd : 0 < divisor) (q : Quotient) (x : Nat) :
    (q.extend divisor x).units divisor = q.units divisor * pow10 x := by
  have hpos : (divisor : ℚ) ≠ 0 := Nat.cast_ne_zero.mpr hd.ne'
  have hdiv : (divisor : ℚ) * ↑(q.rest * pow10 x / divisor) + ↑(q.rest * pow10 x % divisor) =
      q.rest * pow10 x := by
    exact_mod_cast Nat.div_add_mod (q.rest * pow10 x) divisor
  simp only [units, extend]
  push_cast
  field_simp
  linarith

theorem number_extend (hd : 0 < divisor) (q : Quotient) (x : Nat) :
    (q.extend divisor x).number divisor = q.number divisor := by
  rw [number, units_extend hd, extend, zpow_add₀ (by norm_num), pow10_cast]
  exact mul_div_mul_right _ _ (zpow_ne_zero _ (by norm_num))

theorem digits_le_units (divisor : Nat) (q : Quotient) : (q.digits : ℚ) ≤ q.units divisor := by
  rw [units]
  have : (0 : ℚ) ≤ q.rest / divisor := by positivity
  linarith

theorem units_lt (h : q.rest < divisor) : q.units divisor < q.digits + 1 := by
  have hpos : (0 : ℚ) < divisor := Nat.cast_pos.mpr (Nat.zero_lt_of_lt h)
  rw [units, add_lt_add_iff_left, div_lt_one hpos]
  exact Nat.cast_lt.mpr h

theorem units_eq_iff (hd : 0 < divisor) : q.units divisor = q.digits ↔ q.rest = 0 := by
  have hpos : (divisor : ℚ) ≠ 0 := Nat.cast_ne_zero.mpr hd.ne'
  rw [units, add_eq_left, div_eq_zero_iff, Nat.cast_eq_zero]
  exact or_iff_left hpos

/-- Without fraction digits, all the digits so far are before the point. -/
theorem le_number (divisor : Nat) (hs : q.scale ≤ 0) : (q.digits : ℚ) ≤ q.number divisor := by
  refine (digits_le_units divisor q).trans (le_div_self ?_ (by positivity) ?_)
  · exact (Nat.cast_nonneg _).trans (digits_le_units divisor q)
  · exact zpow_le_one_of_nonpos₀ (by norm_num) hs

/-- Too many digits before the point put a quotient out of range. -/
theorem overflow_of_digits (hs : q.scale ≤ 0) (hb : coefficientBound ≤ q.digits) :
    overflowBound ≤ q.number divisor := by
  have hdigits : (coefficientBound : ℚ) ≤ q.digits := Nat.cast_le.mpr hb
  have := le_number divisor hs
  rw [overflowBound]
  linarith

/-- The greatest number that passes is found from above. -/
theorem find?_reverse_range {p : Nat → Bool} {n k : Nat}
    (h : (List.range n).reverse.find? p = some k) :
    p k = true ∧ k < n ∧ ∀ j, k < j → j < n → p j = false := by
  induction n with
  | zero => cases h
  | succ n ih =>
    rw [List.range_succ, List.reverse_append, List.reverse_singleton, List.singleton_append,
      List.find?_cons] at h
    split at h
    · next hn =>
      cases h
      exact ⟨hn, Nat.lt_succ_self _, fun j hj hlt => by omega⟩
    · next hn =>
      obtain ⟨hk, hlt, hmore⟩ := ih h
      refine ⟨hk, by omega, fun j hj hlt => ?_⟩
      rcases Nat.lt_succ_iff_lt_or_eq.mp hlt with hj' | rfl
      · exact hmore j hj hj'
      · exact hn

/-- There is room for `x` more digits, on both sides of the point. -/
def Fits (q : Quotient) (x : Nat) : Prop :=
  q.scale + x ≤ maxScale ∧ q.digits * pow10 x < coefficientBound

/-- The room is all that there is, up to nine digits. -/
theorem room_spec (h : q.Fits 0) :
    q.Fits q.room ∧ q.room ≤ 9 ∧ (q.room < 9 → ¬ q.Fits (q.room + 1)) := by
  have hfits : ∀ x, (decide (q.scale + (x : Nat) ≤ (maxScale : Int)) &&
      decide (q.digits * pow10 x < coefficientBound)) = true ↔ q.Fits x := by
    intro x
    rw [Bool.and_eq_true, decide_eq_true_iff, decide_eq_true_iff, Fits]
  cases hfind : (List.range 10).reverse.find? fun x =>
      decide (q.scale + (x : Nat) ≤ (maxScale : Int)) &&
        decide (q.digits * pow10 x < coefficientBound) with
  | none => exact absurd ((hfits 0).mpr h) (List.find?_eq_none.mp hfind 0 (by simp))
  | some k =>
    obtain ⟨hk, hlt, hmore⟩ := find?_reverse_range hfind
    have hroom : q.room = k := congrArg (Option.getD · 0) hfind
    rw [hroom, ← hfits, ← hfits, Bool.not_eq_true]
    exact ⟨hk, Nat.le_of_lt_succ hlt, fun h9 => hmore _ (Nat.lt_succ_self k) (by omega)⟩

/-- The outcome of a division: no quotient for a number out of range, and for any other a coefficient
and a scale that it is rounded to. -/
def Settles (x : ℚ) : Option Quotient → Prop
  | none => overflowBound ≤ x
  | some q => x < overflowBound ∧
    ∃ d : Decimal, d.mantissa = q.digits ∧ (d.scale : Int) = q.scale ∧ d.Rounds x

/-- What ends with a coefficient next to the exact digits settles the quotient. -/
theorem settles_of_near {r : Quotient} {t x : ℚ} (h0 : 0 ≤ r.scale) (hmax : r.scale ≤ maxScale)
    (hb : r.digits < coefficientBound) (ht : 0 ≤ t) (hx : x = t / (10 : ℚ) ^ r.scale)
    (hlt : x < overflowBound) (hnear : |(r.digits : ℚ) - t| ≤ 1 / 2)
    (hfull : (r.digits : ℚ) = t ∨ r.scale = maxScale ∨ overflowBound ≤ 10 * t) :
    Settles x (some r) := by
  obtain ⟨s, hs⟩ := Int.eq_ofNat_of_zero_le h0
  let d : Decimal := ⟨r.digits, s, hb, by omega⟩
  have hround : d.Rounds (t / pow10 s) := by
    refine .of_near (d := d) ht hnear ?_
    rcases hfull with h | h | h
    · exact Or.inl h
    · exact Or.inr (Or.inl (by show s = maxScale; omega))
    · exact Or.inr (Or.inr h)
  refine ⟨hlt, d, rfl, hs.symm, ?_⟩
  rw [hx, hs, ← pow10_cast]
  exact hround

theorem units_nonneg (divisor : Nat) (q : Quotient) : 0 ≤ q.units divisor :=
  (Nat.cast_nonneg _).trans (digits_le_units divisor q)

theorem number_le_units (divisor : Nat) (hs : 0 ≤ q.scale) : q.number divisor ≤ q.units divisor :=
  div_le_self (units_nonneg divisor q) (one_le_zpow₀ (by norm_num) hs)

/-- The last digit moves behind the point of the units. -/
theorem number_eq_tenth (divisor : Nat) (q : Quotient) :
    q.number divisor = q.units divisor / 10 / (10 : ℚ) ^ (q.scale - 1) := by
  rw [number, div_div, ← zpow_one_add₀ (by norm_num), add_sub_cancel]

theorem number_le_tenth (divisor : Nat) (hs : 0 < q.scale) : q.number divisor ≤ q.units divisor / 10 := by
  rw [number_eq_tenth]
  exact div_le_self (div_nonneg (units_nonneg divisor q) (by norm_num))
    (one_le_zpow₀ (by norm_num) (by omega))

/-- A coefficient that grew too great is settled without its last digit. -/
theorem settles_shorten? (hrest : q.rest < divisor) (hmax : q.scale ≤ maxScale)
    (hb : coefficientBound ≤ q.digits) (hb2 : q.digits < 2 * coefficientBound) :
    Settles (q.number divisor) q.shorten? := by
  rw [shorten?, if_neg (not_lt.mpr hb)]
  by_cases hs : q.scale ≤ 0
  · rw [if_pos hs]
    exact overflow_of_digits hs hb
  · rw [if_neg hs]
    have hlow := digits_le_units divisor q
    have hhigh := units_lt hrest
    have htenth := number_le_tenth divisor (not_le.mp hs)
    have hnear := roundHalfEven_sticky_near hlow hhigh
    simp only [units_eq_iff (Nat.zero_lt_of_lt hrest)] at hnear
    have hdigits : (coefficientBound : ℚ) ≤ q.digits := Nat.cast_le.mpr hb
    have hdigits2 : (q.digits : ℚ) + 1 ≤ 2 * coefficientBound := by exact_mod_cast hb2
    rw [coefficientBound_cast] at hdigits hdigits2
    have hs1 : 0 ≤ q.scale - 1 ∧ q.scale - 1 ≤ maxScale := by omega
    refine settles_of_near (t := q.units divisor / 10) hs1.1 hs1.2 ?_ (by linarith)
      (number_eq_tenth divisor q) ?_ hnear (Or.inr (Or.inr ?_))
    · rw [← Nat.cast_lt (α := ℚ), coefficientBound_cast]
      have := (abs_le.mp hnear).2
      linarith
    · rw [overflowBound, coefficientBound_cast]
      linarith
    · rw [overflowBound, coefficientBound_cast]
      linarith

/-- A coefficient that was rounded up to the bound is settled without its last digit too. -/
theorem settles_carry (hrest : q.rest < divisor) (hne : q.rest ≠ 0) (hs : 0 ≤ q.scale)
    (hfits : q.Fits 0) (hbound : overflowBound ≤ q.units divisor) :
    Settles (q.number divisor) (shorten? { q with digits := coefficientBound }) := by
  rw [shorten?, if_neg (lt_irrefl _)]
  by_cases hs0 : q.scale ≤ 0
  · rw [if_pos hs0]
    show overflowBound ≤ q.number divisor
    rwa [number, le_antisymm hs0 hs, zpow_zero, div_one]
  · rw [if_neg hs0]
    have hdrop : roundHalfEven (2 * coefficientBound + if q.rest = 0 then 0 else 1) 20 =
        7922816251426433759354395034 := by
      rw [if_neg hne]
      decide +kernel
    have hsmall : 7922816251426433759354395034 < coefficientBound := by decide +kernel
    have hmax : q.scale ≤ maxScale := by simpa using hfits.1
    have hs1 : 0 ≤ q.scale - 1 ∧ q.scale - 1 ≤ maxScale := by
      have : ¬ q.scale ≤ 0 := hs0
      omega
    have hhigh := units_lt hrest
    have hdigits : (q.digits : ℚ) + 1 ≤ coefficientBound := by
      exact_mod_cast (by simpa [pow10] using hfits.2 : q.digits < coefficientBound)
    have htenth := number_le_tenth divisor (not_le.mp hs0)
    refine settles_of_near (t := q.units divisor / 10) hs1.1 hs1.2 (hdrop ▸ hsmall)
      (div_nonneg (units_nonneg divisor q) (by norm_num)) (number_eq_tenth divisor q) ?_ ?_
      (Or.inr (Or.inr ?_))
    all_goals rw [overflowBound, coefficientBound_cast] at hbound
    all_goals rw [coefficientBound_cast] at hdigits
    · rw [overflowBound, coefficientBound_cast]
      linarith
    · rw [hdrop, abs_le]
      push_cast
      constructor <;> linarith
    · rw [overflowBound, coefficientBound_cast]
      linarith

/-- Where there is no room for one more digit, what is left is rounded. -/
theorem settles_round? (hrest : q.rest < divisor) (hne : q.rest ≠ 0) (hs : 0 ≤ q.scale)
    (hfits : q.Fits 0) (hfull : ¬ q.Fits 1) : Settles (q.number divisor) (q.round? divisor) := by
  have hd : 0 < divisor := Nat.zero_lt_of_lt hrest
  have hunits : q.units divisor = ((q.digits * divisor + q.rest : Nat) : ℚ) / divisor := by
    have : (divisor : ℚ) ≠ 0 := Nat.cast_ne_zero.mpr hd.ne'
    rw [units]
    push_cast
    field_simp
  have hmax : q.scale ≤ maxScale := by simpa using hfits.1
  have hdigits : q.digits < coefficientBound := by simpa [pow10] using hfits.2
  have hnear := roundHalfEven_near (q.digits * divisor + q.rest) hd
  have hlt := roundHalfEven_lt_iff (q.digits * divisor + q.rest) hd
  have hle := roundHalfEven_le (q.digits * divisor + q.rest) divisor
  rw [← hunits] at hnear hlt
  rw [Nat.mul_comm q.digits, Nat.mul_add_div hd, Nat.div_eq_of_lt hrest, Nat.add_zero,
    Nat.mul_comm divisor] at hle
  rw [round?]
  by_cases hm : roundHalfEven (q.digits * divisor + q.rest) divisor < coefficientBound
  · rw [shorten?, if_pos hm]
    refine settles_of_near hs hmax hm (units_nonneg divisor q) rfl
      ((number_le_units divisor hs).trans_lt (hlt.mp hm)) hnear (Or.inr ?_)
    rcases not_and_or.mp hfull with hscale | hroom
    · exact Or.inl (by show q.scale = maxScale; omega)
    · right
      have hten : (coefficientBound : ℚ) ≤ q.digits * 10 := by
        exact_mod_cast (not_lt.mp hroom : coefficientBound ≤ q.digits * pow10 1)
      have := digits_le_units divisor q
      rw [overflowBound]
      linarith
  · have hm' : roundHalfEven (q.digits * divisor + q.rest) divisor = coefficientBound := by omega
    rw [hm']
    exact settles_carry hrest hne hs hfits (not_lt.mp (mt hlt.mpr hm))

/-- The next digits, as many as there is room for, make a coefficient that is at most a little too
great. -/
theorem digits_extend_lt (hrest : q.rest < divisor) (h9 : x ≤ 9) (hfits : q.Fits x) :
    (q.extend divisor x).digits < 2 * coefficientBound := by
  have hnext : q.rest * pow10 x / divisor < pow10 x :=
    Nat.div_lt_of_lt_mul (Nat.mul_lt_mul_of_pos_right hrest (pow10_pos x))
  have hpow : pow10 x ≤ pow10 9 := Nat.pow_le_pow_right (by decide) h9
  have hnine : pow10 9 ≤ coefficientBound := by decide +kernel
  have := hfits.2
  show q.digits * pow10 x + q.rest * pow10 x / divisor < _
  omega

/-- Every step adds a digit behind the point, so the division ends before its fuel does. -/
theorem settles_finish? {fuel : Nat} (hrest : q.rest < divisor) (hfits : q.Fits 0)
    (hfuel : maxScale - q.scale < fuel) : Settles (q.number divisor) (finish? divisor fuel q) := by
  have hd : 0 < divisor := Nat.zero_lt_of_lt hrest
  induction fuel generalizing q with
  | zero =>
    have := hfits.1
    omega
  | succ fuel ih =>
    have hmax : q.scale ≤ maxScale := by simpa using hfits.1
    have hdigits : q.digits < coefficientBound := by simpa [pow10] using hfits.2
    have hmod : ∀ x, (q.extend divisor x).rest < divisor := fun x => Nat.mod_lt _ hd
    have hnext : ∀ (extended : Bool) (x : Nat), 0 < x → q.scale + x ≤ maxScale →
        (q.extend divisor x).digits < coefficientBound →
        Settles (q.number divisor) (finish? divisor fuel ({ q with extended }.extend divisor x)) := by
      intro extended x hx hscale hlt
      rw [← number_extend hd q x]
      refine ih (hmod x) ⟨?_, ?_⟩ ?_
      · show q.scale + x + (0 : Nat) ≤ maxScale
        omega
      · show (q.extend divisor x).digits * pow10 0 < coefficientBound
        simpa [pow10] using hlt
      · show maxScale - (q.scale + x) < fuel
        omega
    rw [finish?]
    by_cases hzero : q.rest = 0
    · rw [if_pos hzero]
      by_cases hs : 0 ≤ q.scale
      · rw [if_pos hs]
        have hunits := (units_eq_iff hd).mpr hzero
        refine settles_of_near hs hmax hdigits (units_nonneg divisor q) rfl ?_
          (by rw [hunits, sub_self, abs_zero]; norm_num) (Or.inl hunits.symm)
        have hlast : (q.digits : ℚ) + 1 ≤ coefficientBound := by exact_mod_cast hdigits
        have := number_le_units divisor hs
        rw [overflowBound]
        linarith
      · rw [if_neg hs]
        have hscale : q.scale + (min 9 q.scale.natAbs : Nat) ≤ 0 := by omega
        by_cases hlt : (q.extend divisor (min 9 q.scale.natAbs)).digits < coefficientBound
        · rw [if_pos hlt]
          exact hnext q.extended _ (by omega) (by omega) hlt
        · rw [if_neg hlt, ← number_extend hd q (min 9 q.scale.natAbs)]
          exact overflow_of_digits hscale (not_lt.mp hlt)
    · rw [if_neg hzero]
      obtain ⟨hroom, h9, hfull⟩ := room_spec hfits
      by_cases hover : q.room < 9 ∧ q.scale + (q.room : Int) < 0
      · rw [if_pos hover, ← number_extend hd q (q.room + 1)]
        have hscale : q.scale + (q.room + 1 : Nat) ≤ 0 := by omega
        have hmany : coefficientBound ≤ q.digits * pow10 (q.room + 1) :=
          not_lt.mp fun hlt => hfull hover.1 ⟨by omega, hlt⟩
        exact overflow_of_digits hscale (hmany.trans (Nat.le_add_right _ _))
      · rw [if_neg hover]
        by_cases hnone : q.room = 0
        · rw [if_pos hnone]
          rw [hnone] at hover hfull
          have hs : 0 ≤ q.scale := by omega
          exact settles_round? (q := { q with extended := true }) hrest hzero hs hfits
            (hfull (by decide))
        · rw [if_neg hnone]
          show Settles _ (if _ then _ else _)
          by_cases hlt : ({ q with extended := true }.extend divisor q.room).digits < coefficientBound
          · rw [if_pos hlt]
            exact hnext true _ (Nat.pos_of_ne_zero hnone) hroom.1 hlt
          · rw [if_neg hlt, ← number_extend hd q q.room]
            exact settles_shorten? (q := { q with extended := true }.extend divisor q.room) (hmod _)
              hroom.1 (not_lt.mp hlt) (digits_extend_lt hrest h9 hroom)

/-- Zeros at the end, behind the point, do not change the number. -/
theorem settles_strip {x : ℚ} (k : Nat) (h : Settles x (some q)) : Settles x (some (q.strip k)) := by
  obtain ⟨hlt, d, hm, hs, hround⟩ := h
  rw [strip]
  split
  case isFalse => exact ⟨hlt, d, hm, hs, hround⟩
  case isTrue hk =>
    obtain ⟨hkscale, hdvd⟩ := hk
    have hks : k ≤ d.scale := by omega
    have hdigits : q.digits / pow10 k * pow10 k = q.digits :=
      Nat.div_mul_cancel (Nat.dvd_of_mod_eq_zero hdvd)
    have hb : q.digits / pow10 k < coefficientBound := by
      refine (Nat.div_le_self _ _).trans_lt ?_
      have := d.mantissa_lt
      rwa [hm] at this
    let e : Decimal := ⟨(q.digits / pow10 k : Nat), d.scale - k, hb, (Nat.sub_le _ _).trans d.scale_le⟩
    have hvalue : e.value = d.value := by
      have hpow : (pow10 d.scale : ℚ) = pow10 (d.scale - k) * pow10 k := by
        rw [← Nat.cast_mul, ← pow10_add, Nat.sub_add_cancel hks]
      have hcast : ((q.digits / pow10 k : Nat) : ℚ) * pow10 k = q.digits := by
        exact_mod_cast hdigits
      rw [value, value, hm, hpow, Int.cast_natCast, Int.cast_natCast, ← hcast,
        mul_div_mul_right _ _ (pow10_cast_pos k).ne']
    exact ⟨hlt, e, rfl, by show ((d.scale - k : Nat) : Int) = q.scale - k; omega,
      hround.of_value hvalue (Nat.sub_le _ _)⟩

theorem settles_stripEights {x : ℚ} (fuel : Nat) (h : Settles x (some q)) :
    Settles x (some (q.stripEights fuel)) := by
  induction fuel generalizing q with
  | zero => exact h
  | succ fuel ih =>
    rw [stripEights]
    split
    · exact ih (settles_strip 8 h)
    · exact h

theorem settles_tidy {x : ℚ} (h : Settles x (some q)) : Settles x (some q.tidy) := by
  rw [tidy]
  split
  · exact settles_strip 1 (settles_strip 2 (settles_strip 4 (settles_stripEights 4 h)))
  · exact h

end Quotient

variable {a b d : Decimal}

theorem value_div (a b : Decimal) :
    a.value / b.value = signed (signsDiffer a b)
      (a.mantissa.natAbs / b.mantissa.natAbs / (10 : ℚ) ^ ((a.scale : Int) - b.scale)) := by
  rw [value_eq_signed a, value_eq_signed b, signed_div, signsDiffer, zpow_sub₀ (by norm_num),
    ← Quotient.pow10_cast, ← Quotient.pow10_cast, div_div_div_eq, div_div_eq_mul_div]
  congr 1
  ring

/-- The coefficients are divided first, and the scales are subtracted. -/
def startQuotient (a b : Decimal) : Quotient :=
  ⟨a.mantissa.natAbs / b.mantissa.natAbs, a.mantissa.natAbs % b.mantissa.natAbs,
    a.scale - b.scale, false⟩

theorem settles_start (a : Decimal) (hb : b.mantissa ≠ 0) :
    Quotient.Settles |a.value / b.value|
      (Quotient.finish? b.mantissa.natAbs (2 * maxScale + 1) (startQuotient a b)) := by
  have hd : 0 < b.mantissa.natAbs := Int.natAbs_pos.mpr hb
  have hnumber : (startQuotient a b).number b.mantissa.natAbs = |a.value / b.value| := by
    have hpos : (b.mantissa.natAbs : ℚ) ≠ 0 := Nat.cast_ne_zero.mpr hd.ne'
    have hdiv : (b.mantissa.natAbs : ℚ) * ↑(a.mantissa.natAbs / b.mantissa.natAbs) +
        ↑(a.mantissa.natAbs % b.mantissa.natAbs) = a.mantissa.natAbs := by
      exact_mod_cast Nat.div_add_mod a.mantissa.natAbs b.mantissa.natAbs
    rw [value_div, abs_signed _ (by positivity), Quotient.number, Quotient.units, startQuotient]
    congr 1
    rw [← hdiv, add_div, mul_div_cancel_left₀ _ hpos]
  have ha := a.scale_le
  have hb := b.scale_le
  rw [← hnumber]
  refine Quotient.settles_finish? (Nat.mod_lt _ hd) ⟨?_, ?_⟩ ?_
  · show (a.scale : Int) - b.scale + (0 : Nat) ≤ maxScale
    omega
  · refine (Nat.mul_one _).symm ▸ (Nat.div_le_self _ _).trans_lt a.mantissa_lt
  · show (maxScale : Int) - (a.scale - b.scale) < (2 * maxScale + 1 : Nat)
    omega

theorem div?_of_ne_zero (ha : a.mantissa ≠ 0) (hb : b.mantissa ≠ 0) :
    a.div? b =
      (Quotient.finish? b.mantissa.natAbs (2 * maxScale + 1) (startQuotient a b)).bind fun q =>
        ofSign? (signsDiffer a b) q.tidy.digits q.tidy.scale.toNat := by
  rw [div?]
  simp only [Int.natAbs_eq_zero, if_neg ha, if_neg hb]
  rfl

theorem exists_ofSign? {n s : Nat} {x : ℚ} (negative : Bool) (hm : d.mantissa = n)
    (hs : d.scale = s) (h : d.Rounds x) :
    ∃ e, ofSign? negative n s = some e ∧ e.Rounds (signed negative x) := by
  have hd : ofSign? false n s = some d := ofParts?_eq_some_iff.mpr ⟨hm, hs⟩
  cases negative with
  | false => exact ⟨d, hd, h⟩
  | true => exact ⟨d.neg, by rw [ofSign?_true, hd]; rfl, h.neg⟩

/-- Out of range, or the exact quotient after rounding: the outcome of a division is one of these. -/
theorem div?_settled (a : Decimal) (hb : b.value ≠ 0) :
    overflowBound ≤ |a.value / b.value| ∧ a.div? b = none ∨
      |a.value / b.value| < overflowBound ∧
        ∃ d, a.div? b = some d ∧ d.Rounds (a.value / b.value) := by
  rw [ne_eq, value_eq_zero_iff] at hb
  by_cases ha : a.mantissa = 0
  · have hzero : a.value / b.value = 0 := by rw [value_eq_zero_iff.mpr ha, zero_div]
    have hdiv : a.div? b = some zero := by
      rw [div?]
      simp only [Int.natAbs_eq_zero, if_pos ha, if_neg hb]
    have hpos : |(0 : ℚ)| < overflowBound := by
      rw [← value_zero]
      exact abs_value_lt zero
    rw [hzero]
    exact Or.inr ⟨hpos, zero, hdiv, value_zero ▸ .refl zero⟩
  · have hstart := settles_start a hb
    rw [div?_of_ne_zero ha hb]
    cases hfinish : Quotient.finish? b.mantissa.natAbs (2 * maxScale + 1) (startQuotient a b) with
    | none =>
      rw [hfinish] at hstart
      exact Or.inl ⟨hstart, rfl⟩
    | some q =>
      rw [hfinish] at hstart
      obtain ⟨hlt, d, hm, hs, hround⟩ := Quotient.settles_tidy hstart
      obtain ⟨e, he, hrounds⟩ := exists_ofSign? (signsDiffer a b) hm
        (s := q.tidy.scale.toNat) (by omega) hround
      refine Or.inr ⟨hlt, e, he, ?_⟩
      rw [value_div] at hrounds ⊢
      rwa [abs_signed _ (by positivity)] at hrounds

theorem rounds_of_div? (hb : b.value ≠ 0) (h : a.div? b = some d) :
    d.Rounds (a.value / b.value) := by
  rcases div?_settled a hb with ⟨-, hnone⟩ | ⟨-, e, he, hround⟩
  · rw [h] at hnone
    cases hnone
  · cases he.symm.trans h
    exact hround

theorem div?_eq_none_iff (hb : b.value ≠ 0) :
    a.div? b = none ↔ overflowBound ≤ |a.value / b.value| := by
  rcases div?_settled a hb with ⟨hle, hnone⟩ | ⟨hlt, e, he, -⟩
  · exact iff_of_true hnone hle
  · exact iff_of_false (by rw [he]; exact Option.some_ne_none e) (not_le.mpr hlt)

variable {cause : Overflow}

theorem div_rounds (hb : b.value ≠ 0) (h : a.div b = .ok d) : d.Rounds (a.value / b.value) :=
  rounds_of_div? hb (Overflow.check_eq_ok.mp h)

theorem div_eq_error_iff (hb : b.value ≠ 0) :
    a.div b = .error cause ↔ overflowBound ≤ |a.value / b.value| ∧ .division = cause := by
  rw [div, Overflow.check_eq_error, div?_eq_none_iff hb]

end SwapDesk.Decimal
