import SwapDesk.Order.Lifecycle
import SwapDesk.Order.Pair

/-! Order ids: `<activity>-<BASE>-<QUOTE>-<number><nonce>`. The number is new for each id and the
nonce for each issuer. -/
namespace SwapDesk

/-- Hands out ids. The number is a 64-bit word. -/
structure Issuer where
  nonce : String
  next : UInt64

namespace Issuer

def fresh (nonce : String) : Issuer := ⟨nonce, 0⟩

def activity : OrderKind → Side → String
  | .trade, .buy => "buy"
  | .trade, .sell => "sell"
  | .approval, _ => "approve"
  | .addLiquidity, _ => "addlp"
  | .removeLiquidity, _ => "rmlp"

def idText (nonce : String) (kind : OrderKind) (side : Side) (pair : Pair) (n : Nat) : String :=
  activity kind side ++ "-" ++ pair.base ++ "-" ++ pair.quote ++ "-" ++ toString n ++ nonce

/-- The next id, and the issuer after it. -/
def issue (s : Issuer) (kind : OrderKind) (side : Side) (pair : Pair) : String × Issuer :=
  (idText s.nonce kind side pair s.next.toNat, { s with next := s.next + 1 })

end Issuer

end SwapDesk
