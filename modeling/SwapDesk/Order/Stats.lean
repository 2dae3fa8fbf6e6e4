import SwapDesk.Order.Book

/-! How many orders of a book are in which state. -/
namespace SwapDesk

structure Stats where
  total : Nat
  pendingApproval : Nat
  pendingCreate : Nat
  opened : Nat
  pendingCancel : Nat
  filled : Nat
  failed : Nat
  canceled : Nat
deriving DecidableEq

namespace Stats

def ofBook (b : Book) : Stats :=
  let inState (s : OrderState) : Nat := b.orders.values.countP fun o => o.state == s
  { total := b.orders.size
    pendingApproval := inState .pendingApproval
    pendingCreate := inState .pendingCreate
    opened := inState .opened
    pendingCancel := inState .pendingCancel
    filled := inState .filled
    failed := inState .failed
    canceled := inState .canceled }

def active (s : Stats) : Nat := s.pendingApproval + s.pendingCreate + s.opened + s.pendingCancel

/-- The line that reports the counts. -/
def line (s : Stats) : String :=
  let pending := s.pendingApproval + s.pendingCreate + s.pendingCancel
  "[ORDER STATS] total: " ++ toString s.total ++ " | pending: " ++ toString pending ++
    " | open: " ++ toString s.opened ++ " | filled: " ++ toString s.filled ++
    " | failed: " ++ toString s.failed ++ " | canceled: " ++ toString s.canceled

end Stats

end SwapDesk
