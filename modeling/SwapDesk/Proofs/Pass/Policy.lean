import SwapDesk.Proofs.Pass.Isolation
import SwapDesk.Proofs.Pass.Sighting

/-! The policy of polling: what each reply about a transaction does to its order. -/
namespace SwapDesk

namespace TransactionReply

/-- The transaction is confirmed with this receipt. -/
def Confirms (reply : TransactionReply) (r : Receipt) : Prop :=
  reply.status = .confirmed ∧ reply.receipt = some r

end TransactionReply

/-- The gas used times its price: the receipt's, else the one that the order was quoted, else zero. -/
def Order.fee? (o : Order) (r : Receipt) : Option Decimal :=
  r.gasUsed.mul? ((r.effectiveGasPrice <|> o.extraDecimal? "gasPrice").getD .zero)

/-- The order when its transaction is done. -/
def Order.complete (o : Order) (now : Instant) (native : Option String) (fee : Decimal) : Order :=
  { o with
    state := .filled
    fee
    feeAsset := native <|> o.extraText? "gasPriceToken" <|> o.feeAsset
    updatedAt := now }

/-- The order when it was reported once too often. -/
def Order.fail (o : Order) (now : Instant) (reason : String) : Order :=
  { o with state := .failed, failure := some reason, updatedAt := now }

/-- A reply to the question is for this order. -/
def Book.Resolves (b : Book) (q : Inquiry) (o : Order) : Prop :=
  b.findByHash? q.hash = some o ∧ o.id = q.order

variable {b : Book} {now : Instant} {native : Option String} {q : Inquiry} {o : Order}
  {reply : TransactionReply} {r : Receipt} {res : Resolution} {fee : Decimal} {t : Tally}
  {outcome : Outcome}

/-! ### What a reply resolves to -/

theorem resolution_of_success (hr : reply.Confirms r) (hok : r.status = 1)
    (hfee : o.fee? r = some fee) :
    reply.resolution (o.extraDecimal? "gasPrice") = .ok (.filled fee) := by
  obtain ⟨hstatus, hreceipt⟩ := hr
  have hsucceeded : r.succeeded = true := beq_iff_eq.mpr hok
  rw [Order.fee?] at hfee
  simp only [TransactionReply.resolution, hstatus, hreceipt, hsucceeded, if_true, Decimal.mul, hfee]
  rfl

namespace Book

theorem amend_fillReport (hh : o.txHash = some q.hash) :
    o.amend now (fillReport native q o fee) = o.complete now native fee := by
  simp [Order.amend, Order.complete, fillReport, Update.toState, hh, Option.or_assoc]

theorem resolve_filled (ho : b.find? q.order = some o) (hh : o.txHash = some q.hash)
    (ha : o.state.isTerminal = false) :
    b.resolve now native q o (.filled fee) =
      some ⟨b.put q.order (o.complete now native fee), .applied o.state .filled,
        (o.complete now native fee).transition o.state, false⟩ := by
  have hu : b.update now (fillReport native q o fee) = _ :=
    update_of_no_hash ho (canStep_filled ha) (bringsHash_fillReport hh o)
  rw [amend_fillReport hh] at hu
  exact congrArg some hu

end Book

namespace Tally

/-- Only the question is counted. -/
def asked (t : Tally) : Tally :=
  { t with report := { t.report with polled := t.report.polled + 1 } }

theorem take_keep (t : Tally) (h : outcome.isApplied = false) :
    t.take (t.book.keep outcome) = t := by
  have hcount : t.report.count outcome = t.report := by
    cases outcome <;> first | rfl | cases h
  simp [take, Book.keep, hcount]

theorem goOn_of_through {c : Change} (h : c.outcome.overflow? = none) : t.goOn c = .ok (t.take c) := by
  unfold goOn
  cases ho : c.outcome with
  | overflow cause =>
    rw [ho] at h
    cases h
  | _ => rfl

theorem through_of_goOn {t' : Tally} {c : Change} (h : t.goOn c = .ok t') :
    c.outcome.overflow? = none ∧ t' = t.take c := by
  obtain ⟨hreached, hbroken⟩ := t.goOn_cases c
  rw [h] at hreached hbroken
  exact ⟨hbroken.symm, hreached⟩

theorem answer_of_dropped (hd : ∀ o, ¬t.book.Resolves q o) :
    t.answer now native q (.ok reply) = .ok t.asked := by
  simp only [answer, Book.settle_of_dropped fun o ho hid => hd o ⟨ho, hid⟩]
  rfl

theorem answer_of_resolves (hq : t.book.Resolves q o)
    (hr : reply.resolution (o.extraDecimal? "gasPrice") = .ok res) :
    t.answer now native q (.ok reply) =
      ((t.book.resolve now native q o res).map t.asked.goOn).getD (.ok t.asked) := by
  simp only [answer, Book.settle_of_found hq.1 hq.2, hr, Except.map]
  cases t.book.resolve now native q o res <;> rfl

end Tally
end SwapDesk
