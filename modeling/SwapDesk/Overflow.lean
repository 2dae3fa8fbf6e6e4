/-! Results that lie outside the range of their type. -/
namespace SwapDesk

inductive Overflow
  | multiplication
  | addition
  | subtraction
  | division
  | time
  | count
deriving DecidableEq

namespace Overflow

def message : Overflow → String
  | multiplication => "Multiplication overflowed"
  | addition => "Addition overflowed"
  | subtraction => "Subtraction overflowed"
  | division => "Division overflowed"
  | time => "`DateTime - TimeDelta` overflowed"
  | count => "attempt to add with overflow"

variable {α : Type}

/-- A result, or the overflow that took its place. -/
def check (cause : Overflow) : Option α → Except Overflow α
  | some x => .ok x
  | none => .error cause

theorem check_eq_ok {cause : Overflow} {r : Option α} {x : α} :
    check cause r = .ok x ↔ r = some x := by
  cases r <;> simp [check]

theorem check_eq_error {cause fault : Overflow} {r : Option α} :
    check cause r = .error fault ↔ r = none ∧ cause = fault := by
  cases r <;> simp [check]

end Overflow

/-- The count after `n`, unless `n` is the greatest one: counts are 32-bit words. -/
def nextCount? (n : UInt32) : Option UInt32 :=
  if n.toNat + 1 < UInt32.size then some (n + 1) else none

/-- Steps one after the other have a result if each has one. -/
theorem bind_eq_ok {ε α β : Type} {x : Except ε α} {f : α → Except ε β} {y : β} :
    x >>= f = .ok y ↔ ∃ a, x = .ok a ∧ f a = .ok y := by
  cases x <;> simp [bind, Except.bind]

end SwapDesk
