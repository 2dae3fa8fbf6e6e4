import SwapDesk.Gateway.Exchange

/-! A gateway that answers by a script: for each call, and for each transaction that is asked about, a
list of replies. Each call takes the first of its list, and the last one stays. -/
namespace SwapDesk

/-- A reply and the milliseconds that it takes. -/
structure ScriptedReply where
  delay : Nat
  content : Except Failure Json

structure Script where
  byCall : Dict (List ScriptedReply)
  byHash : Dict (List ScriptedReply)

namespace Script

def empty : Script := ⟨.empty, .empty⟩

/-- The reply where no script tells one. -/
def unscripted : ScriptedReply := ⟨0, .error (.transport "unscripted")⟩

/-- The next reply of a list, and the list after it. -/
def next : List ScriptedReply → ScriptedReply × List ScriptedReply
  | [] => (unscripted, [])
  | [r] => (r, [r])
  | r :: rest => (r, rest)

def setCall (s : Script) (call : Call) (replies : List ScriptedReply) : Script :=
  { s with byCall := s.byCall.insert call.name replies }

def setHash (s : Script) (hash : String) (replies : List ScriptedReply) : Script :=
  { s with byHash := s.byHash.insert hash replies }

/-- The reply to a request, and the script after it. -/
def take (s : Script) (r : Request) : ScriptedReply × Script :=
  match r with
  | .transaction t =>
    let (reply, rest) := next ((s.byHash.find? t.txHash).getD [])
    (reply, s.setHash t.txHash rest)
  | _ =>
    let (reply, rest) := next ((s.byCall.find? r.call.name).getD [])
    (reply, s.setCall r.call rest)

/-- The value that a reply stands for; a ping is answered by a truth value. -/
def decode : (c : Call) → Json → Except Fault c.Reply
  | .ping, j =>
    match j with
    | .bool up => .ok up
    | _ => .error .illFormed
  | c, j => Decoder.ofJson c.decoder j

def reply (c : Call) (r : ScriptedReply) : Except Failure c.Reply := do
  let j ← r.content
  (decode c j).mapError fun f => .malformed f.message

end Script

end SwapDesk
