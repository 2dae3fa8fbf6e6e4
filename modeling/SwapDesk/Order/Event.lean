import SwapDesk.Order.Record

/-! What is published about orders. -/
namespace SwapDesk

/-- The terms on which an order was executed. -/
structure Fill where
  id : String
  txHash : Option String
  pair : Pair
  kind : OrderKind
  side : Side
  price : Decimal
  amount : Decimal
  fee : Decimal
  feeAsset : Option String
  time : Instant
deriving DecidableEq

inductive Event
  | created (id : String) (kind : OrderKind) (state : OrderState)
  | moved (id : String) (source target : OrderState)
  | filled (fill : Fill)
  | approved (id : String) (token : String) (fee : Decimal)
  | failed (id : String) (reason : Option String)
deriving DecidableEq

namespace Event

/-- The order that an event is about. -/
def order : Event → String
  | created id _ _ => id
  | moved id _ _ => id
  | filled fill => fill.id
  | approved id _ _ => id
  | failed id _ => id

end Event

namespace Order

def fill (o : Order) : Fill :=
  { o with time := o.updatedAt }

/-- The event of an order's tracking. -/
def creation (o : Order) : Event := .created o.id o.kind o.state

/-- The events of a step from `source` to the state that `o` is in now. -/
def transition (source : OrderState) (o : Order) : List Event :=
  if source = o.state then []
  else .moved o.id source o.state :: match o.state with
    | .filled =>
      match o.kind with
      | .approval => [.approved o.id o.pair.base o.fee]
      | _ => [.filled o.fill]
    | .failed => [.failed o.id o.failure]
    | _ => []

theorem order_of_mem_transition {s : OrderState} {o : Order} {e : Event}
    (h : e ∈ o.transition s) : e.order = o.id := by
  unfold transition at h
  split at h
  · cases h
  · rcases List.mem_cons.mp h with rfl | h
    · rfl
    · split at h
      · split at h
        · cases List.mem_singleton.mp h
          rfl
        · cases List.mem_singleton.mp h
          rfl
      · cases List.mem_singleton.mp h
        rfl
      · cases h

end Order

end SwapDesk
