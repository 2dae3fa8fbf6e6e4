import SwapDesk.Proofs.Text.Digits

/-! Whole numbers and their numerals in JSON. -/
namespace SwapDesk.Number

variable {n : Int} {cs : List Char} {k : Nat}

/-- Numbers that are read as whole ones. -/
def InRange (n : Int) : Prop := -(pow2 63 : Int) ≤ n ∧ n < pow2 64

theorem gatherWhole_of_digits (hd : Digits cs) (hk : Nat.ofDigitChars 10 cs k < wordBound) :
    gatherWhole ⟨k, 0⟩ cs = ⟨Nat.ofDigitChars 10 cs k, 0⟩ := by
  induction cs generalizing k with
  | nil => rfl
  | cons c cs ih =>
    rw [Nat.ofDigitChars_cons] at hk ⊢
    have hnext := Nat.lt_of_le_of_lt (le_ofDigitChars cs _) hk
    simp only [gatherWhole, digitValue?_of_isDigit hd.head, Option.getD_some]
    rw [if_pos ⟨trivial, hnext⟩]
    exact ih hd.tail hk

/-- A numeral without fraction and exponent. -/
theorem ofLexeme_digits (hd : Digits cs) (hne : cs ≠ []) :
    Parts.ofLexeme cs = ⟨false, cs, [], none⟩ ∧
      Parts.ofLexeme ('-' :: cs) = ⟨true, cs, [], none⟩ := by
  have hnone : Stops [] := fun _ h => by cases h
  have htake := takeWhile_digits hd hnone
  have hdrop := dropWhile_digits hd hnone
  rw [List.append_nil] at htake hdrop
  constructor
  · cases cs with
    | nil => exact absurd rfl hne
    | cons c cs =>
      have hminus : c ≠ '-' := ne_of_isDigit hd.head rfl
      unfold Parts.ofLexeme
      split
      rename_i h
      split at h
      · rename_i he
        exact absurd (List.cons.inj he).1 hminus
      · cases h
        simp only [htake, hdrop]
  · simp only [Parts.ofLexeme, htake, hdrop]

/-- The digits of a number, behind a minus sign if it is negative. -/
theorem toList_toString (n : Int) :
    (toString n).toList =
      if n < 0 then '-' :: Nat.toDigits 10 n.natAbs else Nat.toDigits 10 n.natAbs := by
  cases n with
  | ofNat m =>
    rw [if_neg (by simp)]
    exact Nat.toList_repr
  | negSucc m =>
    rw [if_pos (Int.negSucc_lt_zero m)]
    have htext : toString (Int.negSucc m) = "-" ++ Nat.repr (m + 1) := rfl
    rw [htext, String.toList_append, Nat.toList_repr]
    rfl

theorem ofLexeme?_toString (h : InRange n) : ofLexeme? (toString n).toList = some (.whole n) := by
  obtain ⟨hlow, hhigh⟩ := h
  have hbound : n.natAbs < wordBound := by
    have hle : pow2 63 ≤ pow2 64 := by decide
    have hhigh' : n < wordBound := hhigh
    have hle' : pow2 63 < wordBound := by decide
    omega
  have hgather : gatherWhole ⟨0, 0⟩ (Nat.toDigits 10 n.natAbs) = ⟨n.natAbs, 0⟩ := by
    rw [gatherWhole_of_digits (digits_toDigits _) (by rwa [Nat.ofDigitChars_ten_toDigits]),
      Nat.ofDigitChars_ten_toDigits]
  obtain ⟨hpos, hneg⟩ := ofLexeme_digits (digits_toDigits n.natAbs) Nat.toDigits_ne_nil
  rw [ofLexeme?, toList_toString]
  by_cases hn : n < 0
  · have hword : 0 < n.natAbs ∧ n.natAbs ≤ pow2 63 := by omega
    have hvalue : -(n.natAbs : Int) = n := by omega
    rw [if_pos hn, hneg, Parts.value?, hgather, hvalue]
    exact if_pos ⟨rfl, rfl, rfl, .inr hword⟩
  · have hvalue : (n.natAbs : Int) = n := by omega
    rw [if_neg hn, hpos, Parts.value?, hgather, hvalue]
    exact if_pos ⟨rfl, rfl, rfl, .inl rfl⟩

end SwapDesk.Number
