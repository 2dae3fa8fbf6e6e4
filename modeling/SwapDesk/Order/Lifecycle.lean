/-! The states of an order and the steps between them. -/
namespace SwapDesk

inductive Side
  | buy
  | sell
deriving DecidableEq, Inhabited

namespace Side

def all : List Side := [buy, sell]

def name : Side → String
  | buy => "BUY"
  | sell => "SELL"

end Side

/-- What an order does on the chain. -/
inductive OrderKind
  | trade
  | approval
  | addLiquidity
  | removeLiquidity
deriving DecidableEq, Inhabited

inductive OrderState
  | pendingApproval
  | pendingCreate
  | opened
  | pendingCancel
  | filled
  | failed
  | canceled
deriving DecidableEq, Inhabited

namespace OrderState

def all : List OrderState :=
  [pendingApproval, pendingCreate, opened, pendingCancel, filled, failed, canceled]

def name : OrderState → String
  | pendingApproval => "PENDING_APPROVAL"
  | pendingCreate => "PENDING_CREATE"
  | opened => "OPEN"
  | pendingCancel => "PENDING_CANCEL"
  | filled => "FILLED"
  | failed => "FAILED"
  | canceled => "CANCELED"

/-- No step leads out of a terminal state. -/
def isTerminal : OrderState → Bool
  | filled | failed | canceled => true
  | _ => false

def isActive (s : OrderState) : Bool := !s.isTerminal

/-- The steps of the lifecycle. A step to the same state only refreshes the order's data. -/
def canStep (source target : OrderState) : Bool :=
  if source.isTerminal then false
  else if source = target then true
  else match source, target with
    | _, failed => true
    | pendingApproval, opened | pendingApproval, filled => true
    | pendingCreate, opened | pendingCreate, filled => true
    | opened, filled | opened, pendingCancel => true
    | pendingCancel, canceled | pendingCancel, filled => true
    | _, _ => false

variable {s t : OrderState}

theorem isActive_iff : s.isActive = true ↔ s.isTerminal = false := by
  cases s <;> simp [isActive, isTerminal]

theorem isTerminal_of_canStep (h : s.canStep t = true) : s.isTerminal = false := by
  cases s <;> simp_all [canStep, isTerminal]

theorem canStep_self (h : s.isTerminal = false) : s.canStep s = true := by
  simp [canStep, h]

theorem canStep_failed (h : s.isTerminal = false) : s.canStep .failed = true := by
  cases s <;> simp_all [canStep, isTerminal]

end OrderState

namespace OrderKind

def all : List OrderKind := [trade, approval, addLiquidity, removeLiquidity]

def name : OrderKind → String
  | trade => "trade"
  | approval => "approval"
  | addLiquidity => "add_liquidity"
  | removeLiquidity => "remove_liquidity"

/-- The state in which a new order is tracked. -/
def initialState : OrderKind → OrderState
  | approval => .pendingApproval
  | _ => .pendingCreate

end OrderKind

end SwapDesk
