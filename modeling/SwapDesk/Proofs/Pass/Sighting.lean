import SwapDesk.Proofs.Book.Finality
import SwapDesk.Proofs.Pass.Polled

/-! What polling hears of the transaction of an order: a sighting of one of four sorts. An active order
responds to it in one way or two, and to nothing else that polling does. -/
namespace SwapDesk

/-- What is heard of a transaction. -/
inductive Sighting
  /-- It is not found or was reverted, or there is still no hash to ask about. -/
  | missing
  | underWay
  /-- It is confirmed, but without a receipt yet. -/
  | unreceipted
  | done
deriving DecidableEq

def TransactionReply.sighting (r : TransactionReply) : Sighting :=
  match r.status with
  | .notFound => .missing
  | .pending | .likelySuccess | .likelyFailure => .underWay
  | .confirmed =>
    match r.receipt with
    | none => .unreceipted
    | some receipt => if receipt.succeeded then .done else .missing

def Doubt.sighting : Doubt → Sighting
  | miss => .missing
  | stall => .underWay

def Resolution.sighting : Resolution → Sighting
  | .filled _ => .done
  | .ambiguous => .underWay
  | .notFound => .missing
  | .awaitingReceipt => .unreceipted

theorem sighting_of_resolution {reply : TransactionReply} {quoted : Option Decimal} {r : Resolution}
    (h : reply.resolution quoted = .ok r) : reply.sighting = r.sighting := by
  unfold TransactionReply.resolution at h
  unfold TransactionReply.sighting
  cases hs : reply.status with
  | confirmed =>
    simp only [hs] at h
    cases hr : reply.receipt with
    | none =>
      simp only [hr] at h
      cases h
      rfl
    | some receipt =>
      simp only [hr] at h
      split at h
      · rename_i hok
        cases hfee : receipt.gasUsed.mul ((receipt.effectiveGasPrice <|> quoted).getD .zero) with
        | error cause =>
          rw [hfee] at h
          cases h
        | ok fee =>
          rw [hfee] at h
          cases h
          exact if_pos hok
      · rename_i hbad
        cases h
        exact if_neg hbad
  | notFound | pending | likelySuccess | likelyFailure =>
    simp only [hs] at h
    cases h
    rfl

theorem sighting_of_overflow {reply : TransactionReply} {quoted : Option Decimal} {cause : Overflow}
    (h : reply.resolution quoted = .error cause) : reply.sighting = .done := by
  unfold TransactionReply.resolution at h
  unfold TransactionReply.sighting
  cases hs : reply.status with
  | confirmed =>
    simp only [hs] at h
    cases hr : reply.receipt with
    | none =>
      simp only [hr] at h
      cases h
    | some receipt =>
      simp only [hr] at h
      split at h
      · rename_i hok
        exact if_pos hok
      · cases h
  | notFound | pending | likelySuccess | likelyFailure =>
    simp only [hs] at h
    cases h

namespace Book

variable {b b' : Book} {id : String} {now : Instant} {native : Option String} {o p : Order} {piece : Piece}
  {q : Inquiry} {heard : List Sighting} {s : Option Sighting}

/-- What a piece of work tells about an order. A failed question tells nothing, and neither does a reply
about a hash that the index does not give to the order. -/
def sighting? (b : Book) (id : String) : Piece → Option Sighting
  | .charge other => if other = id then some .missing else none
  | .answer _ (.error _) => none
  | .answer q (.ok reply) =>
    if q.order = id ∧ (b.findByHash? q.hash).any (·.id = id) then some reply.sighting else none

theorem sighting?_of_found {reply : TransactionReply} (hf : b.findByHash? q.hash = some o)
    (hid : o.id = q.order) : b.sighting? q.order (.answer q (.ok reply)) = some reply.sighting :=
  if_pos ⟨rfl, by simp [hf, hid]⟩

theorem sighting?_of_dropped {reply : TransactionReply}
    (hd : ∀ o, b.findByHash? q.hash = some o → o.id ≠ q.order) :
    b.sighting? q.order (.answer q (.ok reply)) = none := by
  refine if_neg fun h => ?_
  obtain ⟨o, ho, hid⟩ := (Option.any_eq_true _ _).mp h.2
  exact hd o ho (of_decide_eq_true hid)

theorem sighting?_of_other (h : piece.order ≠ id) : b.sighting? id piece = none := by
  cases piece with
  | charge other => exact if_neg h
  | answer q reply =>
    cases reply with
    | error f => rfl
    | ok reply => exact if_neg fun hq => h hq.1

/-- What becomes of an active order that this is heard of. -/
inductive Responds (limits : Limits) (now : Instant) (o : Order) : Option Sighting → Order → Prop
  | nothing : Responds limits now o none o
  | unreceipted : Responds limits now o (some .unreceipted) o
  | missed (hroom : o.notFound.toNat + 1 < UInt32.size) (h : ¬limits.notFound ≤ o.missed.notFound) :
      Responds limits now o (some .missing) o.missed
  | lost (h : limits.notFound ≤ o.missed.notFound) :
      Responds limits now o (some .missing) (o.missed.lapse now lostReason)
  | stalled : Responds limits now o (some .underWay) o.stalled
  | unresolved : Responds limits now o (some .underWay) (o.stalled.lapse now unresolvedReason)
  | filled (u : Update) (h : u.state = .filled) : Responds limits now o (some .done) (o.amend now u)
  | overflow : Responds limits now o (some .done) o
  /-- The count of misses has no room for one more. -/
  | unmissed (hfull : ¬o.notFound.toNat + 1 < UInt32.size) : Responds limits now o (some .missing) o
  | unstalled : Responds limits now o (some .underWay) o.sighted

theorem responds_doubt (ho : b.find? id = some o) (ha : o.state.isTerminal = false) (d : Doubt) :
    ∃ p, (b.doubt now id d).book.find? id = some p ∧ Responds b.limits now o (some d.sighting) p := by
  by_cases hroom : (d.count o).toNat + 1 < UInt32.size
  · rw [doubt_of_room ho ha now d hroom]
    split
    · rename_i hl
      refine ⟨_, find?_put_self, ?_⟩
      cases d with
      | miss => exact .lost (of_decide_eq_true hl)
      | stall => exact .unresolved
    · rename_i hl
      refine ⟨_, find?_put_self, ?_⟩
      cases d with
      | miss => exact .missed hroom fun hle => hl (decide_eq_true hle)
      | stall => exact .stalled
  · rw [doubt_of_full ho ha now d hroom]
    refine ⟨_, find?_put_self, ?_⟩
    cases d with
    | miss => exact .unmissed hroom
    | stall => exact .unstalled

theorem canStep_filled {s : OrderState} (ha : s.isTerminal = false) : s.canStep .filled = true := by
  cases s <;> first | rfl | cases ha

/-- What was known of the order when the reply was read does not matter. -/
theorem responds_resolve {r : Resolution} (ho : b.find? q.order = some o)
    (ha : o.state.isTerminal = false) (known : Order) :
    ∃ p, ((b.resolve now native q known r).getD (b.keep .unknown)).book.find? q.order = some p ∧
      Responds b.limits now o (some r.sighting) p := by
  cases r with
  | filled fee =>
    let u := fillReport native q known fee
    have hfound : (b.update now u).book.find? u.order = some (o.amend now u) := by
      rw [update_of_canStep ho (canStep_filled ha)]
      exact Dict.find?_insert_self ..
    exact ⟨_, hfound, .filled u rfl⟩
  | ambiguous => exact responds_doubt ho ha .stall
  | notFound => exact responds_doubt ho ha .miss
  | awaitingReceipt => exact ⟨o, ho, .unreceipted⟩

/-- An active order responds to what a piece of work tells about it, and to nothing else. -/
theorem responds_change (hs : IndexSound b) (ho : b.find? id = some o)
    (ha : o.state.isTerminal = false) (native : Option String) (now : Instant) (piece : Piece) :
    ∃ p, (b.change native (now, piece)).book.find? id = some p ∧
      Responds b.limits now o (b.sighting? id piece) p := by
  by_cases hother : piece.order = id
  · cases piece with
    | charge other =>
      obtain rfl : other = id := hother
      rw [show b.sighting? other (.charge other) = some .missing from if_pos rfl]
      exact responds_doubt ho ha .miss
    | answer q reply =>
      obtain rfl : q.order = id := hother
      cases reply with
      | error f => exact ⟨o, ho, .nothing⟩
      | ok reply =>
        rcases settle_cases hs q with ⟨p, hp, _, hf, hid⟩ | hd
        · cases ho.symm.trans hp
          rw [change_of_found hf hid, sighting?_of_found hf hid]
          cases hr : reply.resolution (o.extraDecimal? "gasPrice") with
          | error cause =>
            rw [sighting_of_overflow hr]
            exact ⟨o, ho, .overflow⟩
          | ok r =>
            rw [sighting_of_resolution hr]
            exact responds_resolve ho ha o
        · rw [change_of_dropped hd, sighting?_of_dropped hd]
          exact ⟨o, ho, .nothing⟩
  · rw [sighting?_of_other hother]
    have hkept := (concerns_change hs native (now, piece)).touches.find?_ne (Ne.symm hother)
    exact ⟨o, hkept.trans ho, .nothing⟩

/-! ### What happens to a book -/

theorem keeps_change (hs : IndexSound b) (native : Option String) (now : Instant) (piece : Piece) :
    Keeps b (b.change native (now, piece)).book := by
  rcases change_cases hs native now piece with ⟨outcome, _, hc⟩ | ⟨d, hc⟩ | ⟨q, o, fee, _, _, _, hc⟩
  · exact hc ▸ .refl b
  · exact hc ▸ keeps_doubt b now piece.order d
  · exact hc ▸ keeps_update b now _

/-- One thing that polling does to a book, and what it has heard of one order. -/
inductive Hears (id : String) (b : Book) : Option Sighting → Book → Prop
  /-- A piece of work, also one at which the pass breaks off. -/
  | piece (native : Option String) (w : Instant × Piece) :
      Hears id b (b.sighting? id w.2) (b.change native w).book
  /-- A reply that was read before comes into the book, whatever has happened in between. -/
  | late (now : Instant) (native : Option String) (q : Inquiry) (known : Order) (r : Resolution) :
      Hears id b (if q.order = id then some r.sighting else none)
        ((b.resolve now native q known r).getD (b.keep .unknown)).book

variable {known : Order} {r : Resolution}

theorem indexSound_resolve (hs : IndexSound b) :
    IndexSound ((b.resolve now native q known r).getD (b.keep .unknown)).book := by
  cases r with
  | filled fee => exact indexSound_update hs now _
  | ambiguous => exact indexSound_touches hs (touches_doubt b now q.order .stall)
  | notFound => exact indexSound_touches hs (touches_doubt b now q.order .miss)
  | awaitingReceipt => exact hs

theorem limits_resolve :
    ((b.resolve now native q known r).getD (b.keep .unknown)).book.limits = b.limits := by
  cases r with
  | filled fee => exact limits_update b now _
  | ambiguous => exact (touches_doubt b now q.order .stall).limits
  | notFound => exact (touches_doubt b now q.order .miss).limits
  | awaitingReceipt => rfl

theorem keeps_resolve : Keeps b ((b.resolve now native q known r).getD (b.keep .unknown)).book := by
  cases r with
  | filled fee => exact keeps_update b now _
  | ambiguous => exact keeps_doubt b now q.order .stall
  | notFound => exact keeps_doubt b now q.order .miss
  | awaitingReceipt => exact .refl b

theorem find?_resolve_ne (h : id ≠ q.order) :
    ((b.resolve now native q known r).getD (b.keep .unknown)).book.find? id = b.find? id := by
  cases r with
  | filled fee =>
    let u := fillReport native q known fee
    change (b.update now u).book.find? id = b.find? id
    rcases admitted_cases b u with ⟨o, ho, hs⟩ | hr
    · rw [update_of_canStep ho hs]
      exact Dict.find?_insert_ne _ h _
    · obtain ⟨outcome, hk, _⟩ := update_of_refused now hr
      rw [hk]
      rfl
  | ambiguous => exact (touches_doubt b now q.order .stall).find?_ne h
  | notFound => exact (touches_doubt b now q.order .miss).find?_ne h
  | awaitingReceipt => rfl

theorem Hears.indexSound (h : Hears id b s b') (hs : IndexSound b) : IndexSound b' := by
  cases h with
  | piece native w => exact indexSound_change hs native w
  | late => exact indexSound_resolve hs

theorem Hears.limits (h : Hears id b s b') (hs : IndexSound b) : b'.limits = b.limits := by
  cases h with
  | piece native w => exact (concerns_change hs native w).touches.limits
  | late => exact limits_resolve

theorem Hears.keeps (h : Hears id b s b') (hs : IndexSound b) : Keeps b b' := by
  cases h with
  | piece native w => exact keeps_change hs native w.1 w.2
  | late => exact keeps_resolve

theorem Hears.responds (h : Hears id b s b') (hs : IndexSound b) (ho : b.find? id = some o)
    (ha : o.state.isTerminal = false) :
    ∃ now p, b'.find? id = some p ∧ Responds b.limits now o s p := by
  cases h with
  | piece native w => exact ⟨w.1, responds_change hs ho ha native w.1 w.2⟩
  | late now native q known r =>
    by_cases hq : q.order = id
    · subst hq
      rw [if_pos rfl]
      exact ⟨now, responds_resolve ho ha known⟩
    · rw [if_neg hq]
      exact ⟨now, o, (find?_resolve_ne (Ne.symm hq)).trans ho, .nothing⟩

/-- Polling brings no order into the book. -/
theorem Hears.tracked (h : Hears id b s b') (hs : IndexSound b) (hp : b'.find? id = some p) :
    ∃ o, b.find? id = some o := by
  let P (other : String) (_ : Order) := ∃ o, b.find? other = some o
  have hlasting : Lasting P :=
    ⟨⟨fun h _ => h, fun h _ => h, fun h _ => h, fun _ _ h _ => h⟩, fun _ _ _ h _ _ => h⟩
  have hb : Everywhere P b := fun other o ho => ⟨o, ho⟩
  cases h with
  | piece native w => exact hlasting.change hs hb native w id p hp
  | late now native q known r => exact hlasting.resolve hb now r (fun _ p ho _ => ⟨p, ho⟩) id p hp

/-- An order that is active afterwards was active before. -/
theorem Hears.active (h : Hears id b s b') (hs : IndexSound b) (hp : b'.find? id = some p)
    (ha : p.state.isTerminal = false) : ∃ o, b.find? id = some o ∧ o.state.isTerminal = false := by
  obtain ⟨o, ho⟩ := h.tracked hs hp
  refine ⟨o, ho, ?_⟩
  cases ht : o.state.isTerminal with
  | false => rfl
  | true =>
    rw [(h.keeps hs id o ho).1 ht] at hp
    cases hp
    exact ht.symm.trans ha

end Book
end SwapDesk
