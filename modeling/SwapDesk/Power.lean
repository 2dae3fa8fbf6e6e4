/-! Powers of two and of ten, by the number of bits and of digits. -/
namespace SwapDesk

def pow2 (k : Nat) : Nat := Nat.pow 2 k

def pow10 (k : Nat) : Nat := Nat.pow 10 k

theorem pow2_pos (k : Nat) : 0 < pow2 k := Nat.pow_pos (by decide)

theorem pow10_pos (k : Nat) : 0 < pow10 k := Nat.pow_pos (by decide)

theorem pow10_succ (k : Nat) : pow10 (k + 1) = pow10 k * 10 := rfl

theorem pow10_add (j k : Nat) : pow10 (j + k) = pow10 j * pow10 k := by
  induction k with
  | zero => exact (Nat.mul_one _).symm
  | succ k ih => rw [← Nat.add_assoc, pow10_succ, ih, pow10_succ, Nat.mul_assoc]

end SwapDesk
