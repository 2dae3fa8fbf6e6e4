import SwapDesk.Order.Instruction
import SwapDesk.Proofs.Book.Operations

/-! What an order looks like that only submissions and polling passes have worked on. Such an order is
never cancelled, and its data go together with its state. -/
namespace SwapDesk.Order

/-- State, hash, reason and fee go together. -/
structure Regular (o : Order) : Prop where
  approval : o.kind = .approval → o.state ∈ [.pendingApproval, .filled, .failed]
  other : o.kind ≠ .approval → o.state ∈ [.pendingCreate, .opened, .failed, .filled]
  unsubmitted : o.state = .pendingCreate → o.txHash = none
  submitted : o.state = .opened ∨ o.state = .filled → ∃ hash, o.txHash = some hash
  failure : o.failure.isSome = true ↔ o.state = .failed
  fee : o.state ≠ .filled → o.fee = .zero

variable {o : Order} {now : Instant} {u : Update} {id : String}

theorem regular_order (t : Terms) (now : Instant) (id : String) : (t.order now id).Regular := by
  obtain ⟨kind, side, pair, amount, price⟩ := t
  cases kind <;> constructor <;> simp [Terms.order, fresh, OrderKind.initialState]

theorem Regular.missed (h : o.Regular) : o.missed.Regular :=
  ⟨h.approval, h.other, h.unsubmitted, h.submitted, h.failure, h.fee⟩

theorem Regular.stalled (h : o.Regular) : o.stalled.Regular :=
  ⟨h.approval, h.other, h.unsubmitted, h.submitted, h.failure, h.fee⟩

theorem Regular.sighted (h : o.Regular) : o.sighted.Regular :=
  ⟨h.approval, h.other, h.unsubmitted, h.submitted, h.failure, h.fee⟩

theorem Regular.fee_of_active (h : o.Regular) (ha : o.state.isTerminal = false) :
    o.fee = .zero := by
  apply h.fee
  intro he
  rw [he] at ha
  cases ha

theorem Regular.failure_of_active (h : o.Regular) (ha : o.state.isTerminal = false) :
    o.failure = none := by
  rw [← Option.not_isSome_iff_eq_none, h.failure]
  intro he
  rw [he] at ha
  cases ha

/-- An active order fails with a reason. -/
theorem Regular.fail (h : o.Regular) (ha : o.state.isTerminal = false) (hs : u.state = .failed)
    (hr : u.failure.isSome = true) (hf : u.fee = none) : (o.amend now u).Regular where
  approval _ := by simp [amend, hs]
  other _ := by simp [amend, hs]
  unsubmitted he := by simp [amend, hs] at he
  submitted he := by simp [amend, hs] at he
  failure := by simp [amend, hs, hr]
  fee _ := by simp [amend, hf, h.fee_of_active ha]

theorem Regular.lapse (h : o.Regular) (ha : o.state.isTerminal = false) (now : Instant)
    (reason : String) : (o.lapse now reason).Regular :=
  h.fail ha rfl rfl rfl

/-- An active order is filled under a hash. -/
theorem Regular.fill (h : o.Regular) (ha : o.state.isTerminal = false) (hs : u.state = .filled)
    (hh : u.txHash.isSome = true) (hr : u.failure = none) : (o.amend now u).Regular where
  approval _ := by simp [amend, hs]
  other _ := by simp [amend, hs]
  unsubmitted he := by simp [amend, hs] at he
  submitted _ := by
    obtain ⟨hash, hh⟩ := Option.isSome_iff_exists.mp hh
    exact ⟨hash, by simp [amend, hh]⟩
  failure := by simp [amend, hs, hr, h.failure_of_active ha]
  fee he := by simp [amend, hs] at he

/-- An active order can be accepted, also for a second time. -/
theorem Regular.canStep_accepted (h : o.Regular) (ha : o.state.isTerminal = false) :
    o.state.canStep o.kind.acceptedState = true := by
  by_cases hk : o.kind = .approval
  · have hstate := h.approval hk
    cases hs : o.state <;> simp_all [OrderState.canStep, OrderState.isTerminal,
      OrderKind.acceptedState]
  · have hstate := h.other hk
    cases hkind : o.kind <;> cases hs : o.state <;> simp_all [OrderState.canStep,
      OrderState.isTerminal, OrderKind.acceptedState]

/-- The gateway accepts the transaction of an order. -/
theorem Regular.accept (h : o.Regular) {a : Accepted}
    (hs : o.state.canStep o.kind.acceptedState = true) :
    (o.amend now (submissionReport id o.kind (.ok a))).Regular := by
  have ha : o.state.isTerminal = false := OrderState.isTerminal_of_canStep hs
  have hr : o.failure = none := h.failure_of_active ha
  have hf : o.fee = .zero := h.fee_of_active ha
  by_cases hk : o.kind = .approval
  · constructor <;>
      simp [amend, submissionReport, Update.toState, OrderKind.acceptedState, hk, hr, hf]
  · have hstate : o.kind.acceptedState = .opened := by
      cases hkind : o.kind <;> simp_all [OrderKind.acceptedState]
    constructor <;> simp [amend, submissionReport, Update.toState, hstate, hk, hr, hf]

/-- The submission of an order fails. -/
theorem Regular.refuse (h : o.Regular) (ha : o.state.isTerminal = false) (f : Failure) :
    (o.amend now (submissionReport id o.kind (.error f))).Regular :=
  h.fail ha rfl rfl rfl

end SwapDesk.Order
