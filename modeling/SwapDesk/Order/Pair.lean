import SwapDesk.Text.Blank
import SwapDesk.Text.Upper

/-! Trading pairs, written `BASE-QUOTE`. -/
namespace SwapDesk

structure Pair where
  base : String
  quote : String
deriving DecidableEq, Inhabited

namespace Pair

def toText (p : Pair) : String := p.base ++ "-" ++ p.quote

/-- Blanks around the text do not count. It needs exactly one dash with something on either side,
and both tokens are taken in upper case. -/
def ofText? (raw : String) : Option Pair :=
  let cs := trimChars raw.toList
  let base := cs.takeWhile (· != '-')
  match cs.dropWhile (· != '-') with
  | [] => none
  | _ :: quote =>
    if base = [] ∨ quote = [] ∨ '-' ∈ quote then none
    else some ⟨upper (String.ofList base), upper (String.ofList quote)⟩

/-- Pairs are ordered by base and then by quote. -/
def cmp (p q : Pair) : Ordering := (compare p.base q.base).then (compare p.quote q.quote)

end Pair

end SwapDesk
