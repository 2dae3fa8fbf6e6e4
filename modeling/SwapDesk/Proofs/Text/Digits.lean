import SwapDesk.Instant
import SwapDesk.Json.Numeral
import Std.Data.String.ToNat

/-! Runs of decimal digits, and what the readers of numbers make of them. -/
namespace SwapDesk

variable {c : Char} {cs rest : List Char} {n width : Nat}

/-- The text of a number. -/
def Digits (cs : List Char) : Prop := ∀ c ∈ cs, c.isDigit = true

theorem digits_toDigits (n : Nat) : Digits (Nat.toDigits 10 n) := fun _ hc =>
  Nat.isDigit_of_mem_toDigits (by decide) (by decide) hc

theorem Digits.tail (h : Digits (c :: cs)) : Digits cs := fun d hd =>
  h d (List.mem_cons_of_mem c hd)

theorem Digits.head (h : Digits (c :: cs)) : c.isDigit = true := h c List.mem_cons_self

theorem Digits.append (h : Digits cs) (h' : Digits rest) : Digits (cs ++ rest) := by
  intro c hc
  exact (List.mem_append.mp hc).elim (h c) (h' c)

theorem isDigit_iff (c : Char) : c.isDigit = true ↔ '0' ≤ c ∧ c ≤ '9' := by
  rw [Char.isDigit, Bool.and_eq_true, decide_eq_true_iff, decide_eq_true_iff]
  rfl

theorem digitValue?_of_isDigit (h : c.isDigit = true) :
    digitValue? c = some (c.toNat - '0'.toNat) := if_pos ((isDigit_iff c).mp h)

theorem isSome_digitValue? (c : Char) : (digitValue? c).isSome = c.isDigit := by
  unfold digitValue?
  by_cases h : c.isDigit = true
  · rw [if_pos ((isDigit_iff c).mp h), h]
    rfl
  · rw [if_neg fun hc => h ((isDigit_iff c).mpr hc), Bool.eq_false_iff.mpr h]
    rfl

theorem ne_of_isDigit {d : Char} (h : c.isDigit = true) (hd : d.isDigit = false) : c ≠ d := by
  rintro rfl
  rw [h] at hd
  cases hd

/-- A run of digits stops before this text. -/
def Stops (cs : List Char) : Prop := ∀ c ∈ cs.head?, c.isDigit = false

theorem stops_cons (h : c.isDigit = false) : Stops (c :: cs) := by
  intro d hd
  cases hd
  exact h

theorem Stops.not_digit (h : Stops (c :: cs)) : ¬(digitValue? c).isSome = true := by
  rw [isSome_digitValue?, h c rfl]
  decide

theorem takeWhile_of_stops (h : Stops cs) :
    cs.takeWhile (fun c => (digitValue? c).isSome) = [] := by
  cases cs with
  | nil => rfl
  | cons c cs => exact List.takeWhile_cons_of_neg h.not_digit

theorem dropWhile_of_stops (h : Stops cs) :
    cs.dropWhile (fun c => (digitValue? c).isSome) = cs := by
  cases cs with
  | nil => rfl
  | cons c cs => exact List.dropWhile_cons_of_neg h.not_digit

theorem takeWhile_digits (hd : Digits cs) (hr : Stops rest) :
    (cs ++ rest).takeWhile (fun c => (digitValue? c).isSome) = cs := by
  rw [List.takeWhile_append_of_pos fun c hc => (isSome_digitValue? c).trans (hd c hc),
    takeWhile_of_stops hr, List.append_nil]

theorem dropWhile_digits (hd : Digits cs) (hr : Stops rest) :
    (cs ++ rest).dropWhile (fun c => (digitValue? c).isSome) = rest := by
  rw [List.dropWhile_append_of_pos fun c hc => (isSome_digitValue? c).trans (hd c hc),
    dropWhile_of_stops hr]

/-- More digits make no smaller number. -/
theorem le_ofDigitChars (cs : List Char) (n : Nat) : n ≤ Nat.ofDigitChars 10 cs n := by
  induction cs generalizing n with
  | nil => exact Nat.le_refl n
  | cons c cs ih =>
    rw [Nat.ofDigitChars_cons]
    exact Nat.le_trans (by omega) (ih _)

theorem naturalOf?_of_digits (h : Digits cs) (hne : cs ≠ []) :
    naturalOf? cs = some (Nat.ofDigitChars 10 cs 0) := by
  have hfold : ∀ (cs : List Char) (n : Nat), Digits cs →
      cs.foldl (fun acc c => do return 10 * (← acc) + (← digitValue? c)) (some n) =
        some (Nat.ofDigitChars 10 cs n) := by
    intro cs
    induction cs with
    | nil => exact fun n _ => rfl
    | cons c cs ih =>
      intro n h
      rw [List.foldl_cons, digitValue?_of_isDigit h.head, Nat.ofDigitChars_cons]
      exact ih _ h.tail
  rw [naturalOf?, if_neg (by simpa using hne)]
  exact hfold cs 0 h

/-- The first digit is a zero for the number zero only. -/
theorem toDigits_cases (n : Nat) :
    n = 0 ∧ Nat.toDigits 10 n = ['0'] ∨
      ∃ c cs, 0 < n ∧ Nat.toDigits 10 n = c :: cs ∧ c ≠ '0' := by
  induction n using Nat.strongRecOn with
  | ind n ih =>
    by_cases hsmall : n < 10
    · rw [Nat.toDigits_of_lt_base hsmall]
      rcases Nat.eq_zero_or_pos n with rfl | hpos
      · exact Or.inl ⟨rfl, rfl⟩
      · refine Or.inr ⟨n.digitChar, [], hpos, rfl, ?_⟩
        intro he
        exact Nat.ne_of_gt hpos (Nat.digitChar_eq_zero.mp he)
    · rw [Nat.toDigits_of_base_le (by decide) (Nat.le_of_not_lt hsmall)]
      rcases ih (n / 10) (by omega) with ⟨hzero, _⟩ | ⟨c, cs, _, hcs, hc⟩
      · omega
      · refine Or.inr ⟨c, cs ++ [(n % 10).digitChar], by omega, ?_, hc⟩
        rw [hcs]
        rfl

namespace Instant

theorem digits_padded (width n : Nat) : Digits (padded width n) := by
  refine Digits.append ?_ (digits_toDigits n)
  intro c hc
  rw [(List.mem_replicate.mp hc).2]
  rfl

@[simp] theorem ofDigitChars_padded (width n : Nat) :
    Nat.ofDigitChars 10 (padded width n) 0 = n := by
  rw [padded, Nat.ofDigitChars_append, Nat.ofDigitChars_replicate_zero, Nat.mul_zero,
    Nat.ofDigitChars_ten_toDigits]

theorem le_length_padded (width n : Nat) : width ≤ (padded width n).length := by
  simp only [padded, List.length_append, List.length_replicate]
  omega

theorem length_padded (hw : 0 < width) (hn : n < pow10 width) :
    (padded width n).length = width := by
  have hle := (Nat.length_toDigits_le_iff (b := 10) (by decide) hw).mpr hn
  simp only [padded, List.length_append, List.length_replicate]
  omega

theorem padded_ne_nil (width n : Nat) : padded width n ≠ [] := by
  simp [padded, Nat.toDigits_ne_nil]

end Instant
end SwapDesk
