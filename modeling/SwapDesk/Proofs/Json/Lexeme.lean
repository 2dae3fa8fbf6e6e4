import SwapDesk.Json.Reading
import SwapDesk.Proofs.Json.Numeral

/-! Every number, whole or binary64, is written as a numeral that JSON knows: the parts of its text
follow one another as a reader expects them, and the last part may end it. -/
namespace SwapDesk

/-! ### The digits of a binary64 number -/

namespace Binary64

variable {f : Binary64} {b : Bounds} {tie : Tie} {n : Nat}

theorem admits_of_nearest? (h : b.nearest? tie = some n) : b.admits n = true := by
  unfold Bounds.nearest? at h
  dsimp only at h
  split at h
  · cases h
  · rename_i hbelow _
    cases h
    exact hbelow
  · rename_i _ habove
    cases h
    exact habove
  · rename_i hbelow habove
    have hneighbour : n = b.value / b.scale ∨ n = b.value / b.scale + 1 := by
      repeat' split at h
      all_goals cases h
      · exact .inl rfl
      · exact .inr rfl
      · exact .inl rfl
      · exact .inr rfl
      · exact .inr rfl
    rcases hneighbour with rfl | rfl
    · exact hbelow
    · exact habove

theorem ne_zero_of_admits (hb : 0 < b.low) (h : b.admits n = true) : n ≠ 0 := by
  rintro rfl
  have hnot : b.admits 0 = false := by
    rw [Bounds.admits, Nat.zero_mul, decide_eq_false (Nat.not_le_of_lt hb),
      decide_eq_false (Nat.not_lt_zero _)]
    exact ite_self _
  rw [hnot] at h
  cases h

theorem low_pos (h : f.isZero = false) (k : Int) : 0 < (f.bounds.inPowers k).low := by
  have hm : f.significand ≠ 0 := by simpa [isZero] using h
  have hfactor : 0 < pow10 (-k).toNat := pow10_pos _
  have hunit : 0 < pow2 f.exponent.toNat := pow2_pos _
  refine Nat.mul_pos (Nat.mul_pos ?_ hunit) hfactor
  split <;> omega

theorem digits_stripDigits (hn : n ≠ 0) (fuel : Nat) (k : Int) : (stripDigits fuel n k).digits ≠ 0 := by
  induction fuel generalizing n k with
  | zero => exact hn
  | succ fuel ih =>
    rw [stripDigits]
    split
    · exact ih (by omega) (k + 1)
    · exact hn

/-- Only the zero is written with nothing but zeros. -/
theorem digits_shortest (h : f.isZero = false) (tie : Tie) : (f.shortest tie).digits ≠ 0 := by
  rw [shortest, if_neg (Bool.eq_false_iff.mp h)]
  dsimp only
  split
  · rename_i n k hfound
    obtain ⟨i, _, hi⟩ := List.exists_of_findSome?_eq_some hfound
    obtain ⟨m, hm, he⟩ := Option.map_eq_some_iff.mp hi
    cases he
    exact digits_stripDigits (ne_zero_of_admits (low_pos h _) (admits_of_nearest? hm)) 20 _
  · simpa [isZero] using h

end Binary64

namespace Reading.NumeralPart

/-- These characters lead from one part of a numeral to another. -/
inductive Leads : NumeralPart → List Char → NumeralPart → Prop
  | refl (p : NumeralPart) : Leads p [] p
  | step {p q r : NumeralPart} {c : Char} {cs : List Char} (h : p.next? c = some q)
      (hrest : Leads q cs r) : Leads p (c :: cs) r

variable {p q r : NumeralPart} {c : Char} {cs cs' : List Char} {s : Shortest}

theorem Leads.append (h : Leads p cs q) (h' : Leads q cs' r) : Leads p (cs ++ cs') r := by
  induction h with
  | refl => exact h'
  | step h _ ih => exact .step h (ih h')

/-- Parts in which there may be any number of digits. -/
def Runs (p : NumeralPart) : Prop := p = .whole ∨ p = .fraction ∨ p = .exponent

theorem leads_digits (hp : p.Runs) (hd : Digits cs) : Leads p cs p := by
  induction cs with
  | nil => exact .refl p
  | cons c cs ih =>
    refine .step ?_ (ih hd.tail)
    rcases hp with rfl | rfl | rfl <;> simp [next?, isSome_digitValue?, hd.head]

theorem leads_whole (hd : Digits (c :: cs)) (hc : c ≠ '0') : Leads .minus (c :: cs) .whole := by
  refine .step ?_ (leads_digits (.inl rfl) hd.tail)
  simp [next?, isSome_digitValue?, hd.head, hc]

theorem leads_toDigits (n : Nat) :
    Leads .minus (Nat.toDigits 10 n) (if n = 0 then .zero else .whole) := by
  rcases toDigits_cases n with ⟨rfl, h⟩ | ⟨c, cs, hn, h, hc⟩
  · rw [h]
    exact .step rfl (.refl _)
  · rw [if_neg (Nat.ne_of_gt hn), h]
    exact leads_whole (h ▸ digits_toDigits n) hc

theorem leads_fraction (hp : p = .zero ∨ p = .whole) (hd : Digits cs) (hne : cs ≠ []) :
    Leads p ('.' :: cs) .fraction := by
  have hpoint : p.next? '.' = some .point := by rcases hp with rfl | rfl <;> rfl
  cases cs with
  | nil => exact absurd rfl hne
  | cons c cs =>
    refine .step hpoint (.step ?_ (leads_digits (.inr (.inl rfl)) hd.tail))
    simp [next?, isSome_digitValue?, hd.head]

theorem leads_exponent (hp : p = .zero ∨ p = .whole ∨ p = .fraction) (hc : c = '+' ∨ c = '-')
    (hd : Digits cs) (hne : cs ≠ []) : Leads p ('e' :: c :: cs) .exponent := by
  have hmark : p.next? 'e' = some .mark := by rcases hp with rfl | rfl | rfl <;> rfl
  have hsign : mark.next? c = some .markSign := by rcases hc with rfl | rfl <;> rfl
  cases cs with
  | nil => exact absurd rfl hne
  | cons c cs =>
    refine .step hmark (.step hsign (.step ?_ (leads_digits (.inr (.inr rfl)) hd.tail)))
    simp [next?, isSome_digitValue?, hd.head]

theorem digits_zeros (k : Nat) : Digits (List.replicate k '0') := by
  intro c hc
  rw [List.eq_of_mem_replicate hc]
  rfl

/-- No zeros are added to a zero. -/
theorem leads_positional (hs : s.digits = 0 → s.exponent ≤ 0) :
    Leads .minus (Binary64.positional s ['.', '0']) .fraction := by
  have hdigits := digits_toDigits s.digits
  unfold Binary64.positional
  dsimp only
  split
  · rename_i hwhole
    refine .append (q := if s.digits = 0 then .zero else .whole) ?_
      (leads_fraction (by split <;> simp) (digits_zeros 1) (List.cons_ne_nil _ _))
    refine (leads_toDigits _).append ?_
    by_cases hzero : s.digits = 0
    · have hnone : s.exponent.toNat = 0 := by
        have := hs hzero
        omega
      rw [hnone]
      exact .refl _
    · rw [if_neg hzero]
      exact leads_digits (.inl rfl) (digits_zeros _)
  · split
    · rename_i hbroken hpoint
      rcases toDigits_cases s.digits with ⟨_, h⟩ | ⟨c, cs, _, h, hc⟩
      · rw [h, List.length_singleton] at hpoint
        omega
      · rw [h] at hdigits hpoint ⊢
        obtain ⟨k, hk⟩ : ∃ k, ((c :: cs).length + s.exponent).toNat = k + 1 :=
          ⟨((c :: cs).length + s.exponent).toNat - 1, by omega⟩
        have hleft : (c :: cs).drop (k + 1) ≠ [] := by
          rw [ne_eq, List.drop_eq_nil_iff, ← hk]
          omega
        rw [hk]
        refine .append (q := .whole) ?_ (leads_fraction (.inr rfl) ?_ hleft)
        · rw [List.take_succ_cons]
          refine leads_whole ?_ hc
          exact fun d hd => hdigits d (List.mem_cons.mpr
            ((List.mem_cons.mp hd).imp id fun hm => List.mem_of_mem_take hm))
        · exact fun d hd => hdigits d (List.mem_of_mem_drop hd)
    · refine .step rfl (leads_fraction (.inl rfl) ((digits_zeros _).append hdigits) ?_)
      simp [Nat.toDigits_ne_nil]

theorem leads_exponential (s : Shortest) : Leads .minus (Binary64.exponential s) .exponent := by
  have hdigits := digits_toDigits s.digits
  have htail : ∀ p n, p = .zero ∨ p = .whole ∨ p = .fraction →
      Leads p ('e' :: (if (0 : Int) ≤ n then '+' else '-') :: Nat.toDigits 10 n.natAbs)
        .exponent := by
    intro p n hp
    exact leads_exponent hp (by split <;> simp) (digits_toDigits _) Nat.toDigits_ne_nil
  unfold Binary64.exponential
  dsimp only
  rcases toDigits_cases s.digits with ⟨_, h⟩ | ⟨c, cs, _, h, hc⟩
  · rw [h]
    exact .step rfl (htail .zero _ (.inl rfl))
  · rw [h] at hdigits ⊢
    cases cs with
    | nil => exact (leads_whole hdigits hc).append (htail _ _ (.inr (.inl rfl)))
    | cons d cs =>
      have hfirst : Leads .minus [c] .whole := leads_whole (fun x hx => hdigits x (by simp_all)) hc
      have hmore := leads_fraction (.inr rfl) hdigits.tail (List.cons_ne_nil d cs)
      exact (hfirst.append hmore).append (htail _ _ (.inr (.inr rfl)))

end Reading.NumeralPart

open Reading NumeralPart

/-- The text of a number is a numeral, with a sign before it or not. -/
theorem Number.leads_toText (n : Number) : ∃ cs p, Leads .minus cs p ∧ p.endsBefore none = true ∧
    (n.toText.toList = cs ∨ n.toText.toList = '-' :: cs) := by
  cases n with
  | whole k =>
    refine ⟨_, _, leads_toDigits k.natAbs, by split <;> rfl, ?_⟩
    change (toString k).toList = _ ∨ (toString k).toList = _
    rw [toList_toString]
    split <;> simp
  | float f =>
    have hzero : (f.shortest .even).digits = 0 → (f.shortest .even).exponent ≤ 0 := by
      intro hz
      cases hf : f.isZero with
      | false => exact absurd hz (Binary64.digits_shortest hf .even)
      | true =>
        rw [Binary64.shortest, hf]
        exact Int.le_refl 0
    have hsigned : ∀ cs, f.signed cs = cs ∨ f.signed cs = '-' :: cs := by
      intro cs
      unfold Binary64.signed
      split <;> simp
    change ∃ cs p, _ ∧ _ ∧ (f.toText.toList = cs ∨ f.toText.toList = '-' :: cs)
    unfold Binary64.toText
    dsimp only
    rw [String.toList_ofList]
    split
    · exact ⟨_, _, leads_positional hzero, rfl, hsigned _⟩
    · exact ⟨_, _, leads_exponential _, rfl, hsigned _⟩

end SwapDesk
