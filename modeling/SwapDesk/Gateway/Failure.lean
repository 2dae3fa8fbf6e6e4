/-! How a call to the gateway can fail. -/
namespace SwapDesk

/-- `transport`: no complete answer arrived. `application`: the gateway answered with another status
than success. `malformed`: it answered with something else than the call's reply. -/
inductive Failure
  | transport (text : String)
  | application (status : Nat) (text : String)
  | malformed (text : String)
deriving DecidableEq

namespace Failure

def message : Failure → String
  | transport text => "transport error: " ++ text
  | application status text => "gateway rejected request (" ++ toString status ++ "): " ++ text
  | malformed text => "malformed gateway response: " ++ text

def isTransport : Failure → Bool
  | transport _ => true
  | _ => false

/-- The gateway answered, if only with something unusable. -/
def isApplication (f : Failure) : Bool := !f.isTransport

end Failure

end SwapDesk
