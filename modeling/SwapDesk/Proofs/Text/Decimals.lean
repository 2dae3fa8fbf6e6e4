import SwapDesk.Proofs.Text.Digits

/-! Decimals and their texts. The text of a decimal is read as the same number with the same scale. -/
namespace SwapDesk.Decimal

variable {c : Char} {cs rest : List Char} {n scale : Nat} {negative point digits : Bool}

/-- A digit that there is room for. -/
theorem readFrom?_digit (hc : c.isDigit = true) (hroom : point = true → scale < maxScale)
    (hn : 10 * n + (c.toNat - '0'.toNat) < coefficientBound) :
    readFrom? negative point digits n scale (c :: rest) =
      readFrom? negative point true (10 * n + (c.toNat - '0'.toNat))
        (if point then scale + 1 else 0) rest := by
  have hfull : ¬(point = true ∧ maxScale ≤ scale) := fun h =>
    Nat.not_le_of_lt (hroom h.1) h.2
  have hpoint : c ≠ '.' := ne_of_isDigit hc rfl
  have hgap : c ≠ '_' := ne_of_isDigit hc rfl
  rw [readFrom?, if_neg hfull, if_neg fun h => hpoint h.1, if_neg fun h => hgap h.1,
    digitValue?_of_isDigit hc]
  exact if_pos hn

theorem readFrom?_whole (hd : Digits cs) (hne : cs ≠ [])
    (hn : Nat.ofDigitChars 10 cs n < coefficientBound) :
    readFrom? negative false digits n 0 (cs ++ rest) =
      readFrom? negative false true (Nat.ofDigitChars 10 cs n) 0 rest := by
  induction cs generalizing n digits with
  | nil => exact absurd rfl hne
  | cons c cs ih =>
    rw [Nat.ofDigitChars_cons] at hn ⊢
    have hc := Nat.lt_of_le_of_lt (le_ofDigitChars cs _) hn
    rw [List.cons_append, readFrom?_digit hd.head (fun h => absurd h (by decide)) hc]
    cases cs with
    | nil => rfl
    | cons d cs => exact ih hd.tail (List.cons_ne_nil d cs) hn

theorem readFrom?_fraction (hd : Digits cs) (hroom : scale + cs.length ≤ maxScale)
    (hn : Nat.ofDigitChars 10 cs n < coefficientBound) :
    readFrom? negative true true n scale cs =
      ofMagnitude? negative (Nat.ofDigitChars 10 cs n) (scale + cs.length) := by
  induction cs generalizing n scale with
  | nil => rfl
  | cons c cs ih =>
    rw [Nat.ofDigitChars_cons] at hn ⊢
    rw [List.length_cons] at hroom ⊢
    have hc := Nat.lt_of_le_of_lt (le_ofDigitChars cs _) hn
    rw [readFrom?_digit hd.head (fun _ => by omega) hc, if_pos rfl,
      ih hd.tail (by omega) hn, Nat.add_assoc, Nat.add_comm 1]

/-- The digits are cut before the last `scale` of them. -/
theorem digitsText_cases (n scale : Nat) :
    scale = 0 ∧ digitsText n scale = Nat.toDigits 10 n ∨
      ∃ whole fraction, digitsText n scale = whole ++ '.' :: fraction ∧ whole ≠ [] ∧
        Digits whole ∧ Digits fraction ∧ fraction.length = scale ∧
        Nat.ofDigitChars 10 fraction (Nat.ofDigitChars 10 whole 0) = n := by
  by_cases hzero : scale = 0
  · exact Or.inl ⟨hzero, if_pos hzero⟩
  · let padded := Instant.padded (scale + 1) n
    let whole := padded.length - scale
    have hdigits : Digits padded := Instant.digits_padded (scale + 1) n
    have hlen : scale + 1 ≤ padded.length := Instant.le_length_padded _ n
    refine Or.inr ⟨padded.take whole, padded.drop whole, if_neg hzero, ?_,
      fun c hc => hdigits c (List.mem_of_mem_take hc),
      fun c hc => hdigits c (List.mem_of_mem_drop hc), ?_, ?_⟩
    · intro he
      have hnone := congrArg List.length he
      rw [List.length_take, List.length_nil] at hnone
      omega
    · rw [List.length_drop]
      omega
    · rw [← Nat.ofDigitChars_append, List.take_append_drop]
      exact Instant.ofDigitChars_padded (scale + 1) n

/-- A coefficient without a sign, written with its point. -/
theorem readFrom?_digitsText (hn : n < coefficientBound) (hs : scale ≤ maxScale) :
    readFrom? negative false false 0 0 (digitsText n scale) = ofMagnitude? negative n scale := by
  rcases digitsText_cases n scale with ⟨rfl, htext⟩ | ⟨whole, fraction, htext, hne, hw, hf, hlen, hv⟩
  · rw [htext, ← List.append_nil (Nat.toDigits 10 n),
      readFrom?_whole (digits_toDigits n) Nat.toDigits_ne_nil
        (by rwa [Nat.ofDigitChars_ten_toDigits]), Nat.ofDigitChars_ten_toDigits]
    rfl
  · have hvalue := hv.symm ▸ hn
    have hless := Nat.lt_of_le_of_lt (le_ofDigitChars fraction _) hvalue
    have hpoint : ∀ m, readFrom? negative false true m 0 ('.' :: fraction) =
        readFrom? negative true true m 0 fraction := by
      intro m
      simp [readFrom?]
    rw [htext, readFrom?_whole hw hne hless, hpoint, readFrom?_fraction hf (by omega) hvalue, hv,
      hlen, Nat.zero_add]

theorem digitsText_head (n scale : Nat) :
    ∃ c cs, digitsText n scale = c :: cs ∧ c.isDigit = true := by
  have hhead : ∀ cs, cs ≠ [] → Digits cs → ∀ rest, ∃ c cs', cs ++ rest = c :: cs' ∧
      c.isDigit = true := by
    intro cs hne hd rest
    cases cs with
    | nil => exact absurd rfl hne
    | cons c cs => exact ⟨c, cs ++ rest, rfl, hd.head⟩
  rcases digitsText_cases n scale with ⟨_, htext⟩ | ⟨whole, fraction, htext, hne, hw, _⟩
  · rw [htext, ← List.append_nil (Nat.toDigits 10 n)]
    exact hhead _ Nat.toDigits_ne_nil (digits_toDigits n) []
  · rw [htext]
    exact hhead whole hne hw _

theorem readPlain?_of_isDigit (hc : c.isDigit = true) :
    readPlain? (c :: cs) = readFrom? false false false 0 0 (c :: cs) := by
  have hminus : c ≠ '-' := ne_of_isDigit hc rfl
  have hplus : c ≠ '+' := ne_of_isDigit hc rfl
  unfold readPlain?
  split
  · rename_i he
    exact absurd (List.cons.inj he).1 hminus
  · rename_i he
    exact absurd (List.cons.inj he).1 hplus
  · rfl

theorem readPlain?_toText (d : Decimal) : readPlain? d.toText.toList = some d := by
  have hread : ∀ negative, readFrom? negative false false 0 0
      (digitsText d.mantissa.natAbs d.scale) = ofMagnitude? negative d.mantissa.natAbs d.scale :=
    fun negative => readFrom?_digitsText d.mantissa_lt d.scale_le
  rw [toText, String.toList_ofList]
  cases hneg : d.isNegative with
  | true =>
    have hm : -(d.mantissa.natAbs : Int) = d.mantissa := by
      have := of_decide_eq_true hneg
      omega
    rw [if_pos rfl]
    exact (hread true).trans (by rw [ofMagnitude?, if_pos rfl, hm, ofParts?_eq_some])
  | false =>
    have hm : (d.mantissa.natAbs : Int) = d.mantissa := by
      have := of_decide_eq_false hneg
      omega
    obtain ⟨c, cs, htext, hc⟩ := digitsText_head d.mantissa.natAbs d.scale
    rw [if_neg Bool.false_ne_true, htext, readPlain?_of_isDigit hc, ← htext, hread,
      ofMagnitude?, if_neg Bool.false_ne_true, hm, ofParts?_eq_some]

/-- Sign, coefficient and scale are all in the text. -/
theorem ofText?_toText (d : Decimal) : ofText? d.toText = some d := by
  rw [ofText?, readPlain?_toText]
  rfl

end SwapDesk.Decimal
