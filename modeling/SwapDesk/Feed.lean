import SwapDesk.Order.Event
import SwapDesk.Power

/-! The feed that events are published on. It keeps the last few events; a subscriber that falls
further behind is told how many it missed. -/
namespace SwapDesk

/-- `sent` counts all events ever published, and `recent` ends with the last of them. A subscriber
is the number of the event that it gets next. -/
structure Feed where
  window : Nat
  sent : Nat
  recent : List Event
  subscribers : Dict Nat

/-- What a subscriber gets. -/
inductive Delivery
  | missed (count : Nat)
  | event (e : Event)

namespace Feed

/-- The least power of two that is at least `n`. -/
def powerOfTwo (n : Nat) : Nat := if n ≤ 1 then 1 else pow2 ((n - 1).log2 + 1)

/-- A feed for `capacity` events, raised to one and then to a power of two. -/
def ofCapacity (capacity : Nat) : Feed := ⟨powerOfTwo (max capacity 1), 0, [], .empty⟩

def defaultCapacity : Nat := 256

def publish (f : Feed) (e : Event) : Feed :=
  let recent := f.recent ++ [e]
  { f with sent := f.sent + 1, recent := recent.drop (recent.length - f.window) }

def publishAll (f : Feed) (es : List Event) : Feed := es.foldl publish f

/-- A subscriber sees what is published from now on. -/
def subscribe (f : Feed) (name : String) : Feed :=
  { f with subscribers := f.subscribers.insert name f.sent }

/-- The feed without a subscriber, and whether it was there. -/
def unsubscribe (f : Feed) (name : String) : Feed × Bool :=
  ({ f with subscribers := f.subscribers.erase name }, f.subscribers.contains name)

/-- All that waits for a subscriber; `none` if it is not there. -/
def drain (f : Feed) (name : String) : Option (List Delivery × Feed) := do
  let next ← f.subscribers.find? name
  let waiting := f.sent - next
  let kept := f.recent.drop (f.recent.length - waiting)
  let gap := if f.window < waiting then [.missed (waiting - f.window)] else []
  return (gap ++ kept.map .event, { f with subscribers := f.subscribers.insert name f.sent })

end Feed

end SwapDesk
