import SwapDesk.Gateway.Reply

/-! Balances by token. A map is only ever made from one reply of the gateway. -/
namespace SwapDesk

structure Balance where
  total : Decimal
  available : Decimal
deriving DecidableEq

/-- The scale of the amounts does not count. -/
def Balance.same (a b : Balance) : Bool :=
  a.total.sameValue b.total && a.available.sameValue b.available

abbrev BalanceMap := Dict Balance

/-- Tokens that came, went and changed. -/
structure BalanceDiff where
  added : List String
  removed : List String
  changed : List String
deriving DecidableEq

namespace BalanceMap

/-- The usable balances of a reply. -/
def ofReply (r : BalancesReply) : BalanceMap :=
  (r.balances.filter fun _ e => e.usable?.isSome).map fun _ e =>
    let amount := e.usable?.getD .zero
    ⟨amount, amount⟩

def total (m : BalanceMap) (token : String) : Decimal :=
  ((m.find? token).map (·.total)).getD .zero

def available (m : BalanceMap) (token : String) : Decimal :=
  ((m.find? token).map (·.available)).getD .zero

/-- What is different in `next`. -/
def diff (m next : BalanceMap) : BalanceDiff :=
  { added := next.keys.filter fun t => !m.contains t
    removed := m.keys.filter fun t => !next.contains t
    changed := (next.entries.filter fun e => (m.find? e.1).any fun old => !old.same e.2).map
      Prod.fst }

end BalanceMap

end SwapDesk
