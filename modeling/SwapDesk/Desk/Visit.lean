import SwapDesk.Desk.Basic

/-! Work with the reconciler: wait for the lock, learn the chain's own currency if it is unknown, then
fetch the balances. -/
namespace SwapDesk.Desk

/-- Gives up the reconciler with a result. -/
def leave (d : Desk) (who : Party) (v : Visit) (result : Option Reconciled) : Desk × Visit :=
  ({ d with lock := d.lock.leave who }, { v with stage := .ended result })

def fetch (d : Desk) (who : Party) (v : Visit) (a : Arrival BalancesReply) : Desk × Visit :=
  if d.isPast a.alarm then
    match a.reply with
    | .error f => d.leave who v (some (.failed f))
    | .ok reply =>
      let (reconciler, diff) := d.reconciler.accept d.clock reply
      { d with reconciler }.leave who v (some (.applied diff))
  else (d, { v with stage := .fetching a })

/-- Goes on with the chain's own currency known. -/
def withNative (d : Desk) (who : Party) (v : Visit) : Desk × Visit :=
  match v.purpose with
  | .pass _ =>
    let (d, a) := d.ask (.balances d.reconciler.balancesRequest)
    d.fetch who v a
  | _ => d.leave who v none

def hear (d : Desk) (who : Party) (v : Visit) (a : Arrival NetworkReply) : Desk × Visit :=
  if d.isPast a.alarm then
    match a.reply with
    | .error _ => d.leave who v (some .deferred)
    | .ok reply => { d with reconciler := d.reconciler.learn reply.nativeCurrency }.withNative who v
  else (d, { v with stage := .asked a })

def findNative (d : Desk) (who : Party) (v : Visit) : Desk × Visit :=
  match d.reconciler.native with
  | some _ => d.withNative who v
  | none =>
    let (d, a) := d.ask (.network d.reconciler.networkRequest)
    d.hear who v a

/-- Begins to work with the reconciler, with the lock in hand. -/
def enter (d : Desk) (who : Party) (v : Visit) : Desk × Visit :=
  match v.purpose with
  | .look => d.leave who v none
  | .native => d.findNative who v
  | .pass force =>
    if !force && !d.reconciler.isDue d.clock then d.leave who v (some .skipped)
    else d.findNative who v

/-- Goes on as far as possible. -/
def pollVisit (d : Desk) (who : Party) (v : Visit) : Desk × Visit :=
  match v.stage with
  | .waiting =>
    let d := { d with lock := d.lock.request who }
    if d.lock.holder = some who then d.enter who v else (d, v)
  | .asked a => d.hear who v a
  | .fetching a => d.fetch who v a
  | .ended _ => (d, v)

/-- Whether a visit can go on. -/
def canVisit (d : Desk) (who : Party) (v : Visit) : Bool :=
  match v.stage with
  | .waiting => d.lock.isFree || d.lock.holder == some who || !d.lock.queue.contains who
  | .asked a => d.isPast a.alarm
  | .fetching a => d.isPast a.alarm
  | .ended _ => false

/-- Breaks a visit off. -/
def dropVisit (d : Desk) (who : Party) (v : Visit) : Desk :=
  if v.isOver then d else { d with lock := d.lock.leave who }

end SwapDesk.Desk
