/-! Rounding of quotients of natural numbers. -/
namespace SwapDesk

/-- The natural number nearest to `n / d`; halfway goes to the even neighbour. -/
def roundHalfEven (n d : Nat) : Nat :=
  let q := n / d
  let r := n % d
  if d < 2 * r ∨ (2 * r = d ∧ q % 2 = 1) then q + 1 else q

theorem roundHalfEven_of_dvd {n d : Nat} (hd : 0 < d) (h : d ∣ n) :
    roundHalfEven n d = n / d := by
  have : n % d = 0 := Nat.mod_eq_zero_of_dvd h
  simp only [roundHalfEven, this]
  rw [if_neg]
  omega

theorem le_roundHalfEven (n d : Nat) : n / d ≤ roundHalfEven n d := by
  simp only [roundHalfEven]
  split <;> omega

theorem roundHalfEven_le (n d : Nat) : roundHalfEven n d ≤ n / d + 1 := by
  simp only [roundHalfEven]
  split <;> omega

end SwapDesk
