import SwapDesk.Order.Event

/-! Walks through the lifecycle, and the events that tell of them. -/
namespace SwapDesk

namespace OrderState

/-- Steps to one other state after the other: from the first state, through the listed ones, to the
last. -/
inductive Walk : OrderState → List OrderState → OrderState → Prop
  | stay (s : OrderState) : Walk s [] s
  | step {s t u : OrderState} {path : List OrderState} (hne : s ≠ t) (hs : s.canStep t = true)
      (h : Walk t path u) : Walk s (t :: path) u

/-- How many steps are still possible. -/
def stepsLeft : OrderState → Nat
  | pendingApproval | pendingCreate => 3
  | opened => 2
  | pendingCancel => 1
  | filled | failed | canceled => 0

variable {s t u : OrderState} {path : List OrderState}

theorem stepsLeft_of_canStep (hs : s.canStep t = true) (hne : s ≠ t) :
    t.stepsLeft < s.stepsLeft := by
  cases s <;> cases t <;> simp_all [canStep, stepsLeft, isTerminal]

theorem Walk.length_le (h : Walk s path t) : path.length ≤ 3 := by
  have hleft : path.length + t.stepsLeft ≤ s.stepsLeft := by
    induction h with
    | stay s => simp
    | step hne hs _ ih =>
      have hlt := stepsLeft_of_canStep hs hne
      rw [List.length_cons]
      omega
  have hmost : s.stepsLeft ≤ 3 := by cases s <;> decide
  omega

theorem Walk.snoc (h : Walk s path t) (hne : t ≠ u) (hs : t.canStep u = true) :
    Walk s (path ++ [u]) u := by
  induction h with
  | stay s => exact .step hne hs (.stay u)
  | step hne' hs' _ ih => exact .step hne' hs' (ih hne hs)

/-- Only the last state of a walk can be terminal. -/
theorem Walk.active (h : Walk s path t) (ht : t.isTerminal = false) :
    ∀ u ∈ path, u.isTerminal = false := by
  induction h with
  | stay s =>
    intro u hu
    cases hu
  | step hne hs h ih =>
    intro u hu
    rcases List.mem_cons.mp hu with rfl | hu
    · cases h with
      | stay s => exact ht
      | step _ hs' _ => exact isTerminal_of_canStep hs'
    · exact ih ht u hu

end OrderState

namespace Order

/-- What is published about an order besides its step into a state: that it was executed, or that it
failed, with the data of the order. -/
def settlement (o : Order) : OrderState → List Event
  | .filled => if o.kind = .approval then [.approved o.id o.pair.base o.fee] else [.filled o.fill]
  | .failed => [.failed o.id o.failure]
  | _ => []

/-- The events of steps from a state through the listed ones: each step, and right after it what else
is to be said of the new state. -/
def tale (o : Order) : OrderState → List OrderState → List Event
  | _, [] => []
  | s, t :: path => .moved o.id s t :: (o.settlement t ++ o.tale t path)

variable {o p : Order} {s t : OrderState} {path : List OrderState}

theorem transition_eq_tale (o : Order) (s : OrderState) :
    o.transition s = if s = o.state then [] else o.tale s [o.state] := by
  unfold transition
  split
  · rfl
  · simp only [tale, List.append_nil]
    cases o.state with
    | filled => cases hk : o.kind <;> simp [settlement, hk]
    | _ => rfl

theorem tale_snoc (h : s.Walk path t) (u : OrderState) :
    o.tale s (path ++ [u]) = o.tale s path ++ o.tale t [u] := by
  induction h with
  | stay s => rfl
  | step _ _ _ ih => simp only [List.cons_append, tale, ih, List.append_assoc]

/-- As long as an order is active nothing was said about its data. -/
theorem tale_eq_of_active (hid : p.id = o.id) (hp : ∀ u ∈ path, u.isTerminal = false) :
    p.tale s path = o.tale s path := by
  induction path generalizing s with
  | nil => rfl
  | cons t path ih =>
    have ht := hp t List.mem_cons_self
    have hnone : ∀ o : Order, o.settlement t = [] := by
      intro o
      cases t with
      | filled | failed => cases ht
      | _ => rfl
    simp only [tale, hid, hnone, ih fun u hu => hp u (List.mem_cons_of_mem t hu)]

end Order
end SwapDesk
