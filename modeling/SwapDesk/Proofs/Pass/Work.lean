import SwapDesk.Order.Poll
import SwapDesk.Proofs.Book.Index

/-! The work of a polling pass, piece by piece: an order is charged for a hash that did not come, or an
answer about its transaction is taken. A piece touches no other order, and at some of them the pass breaks
off. -/
namespace SwapDesk

/-- A piece of work. -/
inductive Piece
  | charge (id : String)
  | answer (q : Inquiry) (reply : Except Failure TransactionReply)

/-- The order that a piece is about. -/
def Piece.order : Piece → String
  | charge id => id
  | answer q _ => q.order

/-- Does a piece of work at a time. -/
def Tally.work (native : Option String) (t : Tally) : Instant × Piece → Except Break Tally
  | (now, .charge id) => t.charge now id
  | (now, .answer q reply) => t.answer now native q reply

/-- Why whoever was to make a change breaks off. -/
def Outcome.overflow? : Outcome → Option Overflow
  | overflow cause => some cause
  | _ => none

/-- The order with no word of when it was last changed. -/
def Order.undated (o : Order) : Order := { o with updatedAt := .epoch }

def Event.undated : Event → Event
  | .filled f => .filled { f with time := .epoch }
  | e => e

theorem Order.transition_amend_undated (o : Order) (u : Update) (s : OrderState)
    (now now' : Instant) :
    ((o.amend now u).transition s).map Event.undated =
      ((o.amend now' u).transition s).map Event.undated := by
  unfold transition
  by_cases hs : s = u.state
  · simp [amend, hs]
  · simp only [amend, hs, if_false]
    cases u.state with
    | filled => cases o.kind <;> rfl
    | _ => rfl

namespace Book
variable {b b' : Book} {now : Instant} {native : Option String} {q : Inquiry}
  {reply : TransactionReply} {id : String} {o : Order} {fee : Decimal}

/-- The report of a transaction that is done. -/
def fillReport (native : Option String) (q : Inquiry) (o : Order) (fee : Decimal) : Update :=
  { Update.toState q.order .filled with
    txHash := some q.hash
    fee := some fee
    feeAsset := native <|> o.extraText? "gasPriceToken" }

/-- The change that a resolution makes; `o` is what was known of the order when the reply was
read. -/
def resolve (b : Book) (now : Instant) (native : Option String) (q : Inquiry) (o : Order) :
    Resolution → Option Change
  | .filled fee => some (b.update now (fillReport native q o fee))
  | .ambiguous => some (b.markAmbiguous now q.order)
  | .notFound => some (b.markNotFound now q.order)
  | .awaitingReceipt => none

theorem settle_of_found (h : b.findByHash? q.hash = some o) (hid : o.id = q.order) :
    b.settle now native q reply =
      (reply.resolution (o.extraDecimal? "gasPrice")).map (b.resolve now native q o) := by
  simp only [settle, h, hid, ne_eq, not_true_eq_false, if_false]
  cases reply.resolution (o.extraDecimal? "gasPrice") with
  | error cause => rfl
  | ok r => cases r <;> rfl

theorem settle_of_dropped (h : ∀ o, b.findByHash? q.hash = some o → o.id ≠ q.order) :
    b.settle now native q reply = .ok none := by
  unfold settle
  cases hf : b.findByHash? q.hash with
  | none => rfl
  | some o => simp [h o hf]

/-- A reply is heard by the order only if the index leads from its hash to it. -/
theorem settle_cases (h : IndexSound b) (q : Inquiry) :
    (∃ o, b.find? q.order = some o ∧ o.txHash = some q.hash ∧
      b.findByHash? q.hash = some o ∧ o.id = q.order) ∨
      ∀ o, b.findByHash? q.hash = some o → o.id ≠ q.order := by
  by_cases hf : ∃ o, b.findByHash? q.hash = some o ∧ o.id = q.order
  · obtain ⟨o, hf, hid⟩ := hf
    obtain ⟨hh, ho⟩ := txHash_of_findByHash? h hf
    exact Or.inl ⟨o, hid ▸ ho, hh, hf, hid⟩
  · refine Or.inr ?_
    intro o ho hid
    exact hf ⟨o, ho, hid⟩

theorem bringsHash_fillReport (h : o.txHash = some q.hash) (p : Order) :
    bringsHash o (fillReport native q p fee) = false := by
  simp [bringsHash, fillReport, h]

/-- The books say the same of one order and have the same index and limits. -/
structure SameFor (id : String) (b b' : Book) : Prop where
  order : b.find? id = b'.find? id
  byHash : b.byHash = b'.byHash
  limits : b.limits = b'.limits

theorem SameFor.refl (id : String) (b : Book) : SameFor id b b := ⟨rfl, rfl, rfl⟩

theorem Touches.sameFor {other : String} (h : Touches id b b') (hne : other ≠ id) :
    SameFor other b' b :=
  ⟨h.find?_ne hne, h.byHash, h.limits⟩

/-- A change of one order, told by events of its own. -/
structure Concerns (id : String) (b : Book) (c : Change) : Prop where
  touches : Touches id b c.book
  events : ∀ e ∈ c.events, e.order = id

theorem concerns_keep (id : String) (b : Book) (outcome : Outcome) :
    Concerns id b (b.keep outcome) where
  touches := Or.inl rfl
  events := by
    intro e he
    cases he

theorem concerns_doubt (h : IndexSound b) (now : Instant) (id : String) (d : Doubt) :
    Concerns id b (b.doubt now id d) where
  touches := touches_doubt b now id d
  events := by
    intro e he
    have hd := doubts b now id d
    generalize b.doubt now id d = c at hd he
    cases hd with
    | lapses ho =>
      exact (Order.order_of_mem_transition he).trans ((d.id_raise _).trans (h.keyed ho))
    | counts | sticks | late => cases he

theorem concerns_update {u : Update} (h : IndexSound b) (now : Instant)
    (hb : ∀ o, b.find? u.order = some o → bringsHash o u = false) :
    Concerns u.order b (b.update now u) := by
  rcases admitted_cases b u with ⟨o, ho, hs⟩ | hr
  · have hid : o.id = u.order := h.keyed ho
    refine ⟨touches_update ho hs (hb o ho), ?_⟩
    intro e he
    rw [update_of_no_hash ho hs (hb o ho)] at he
    exact (Order.order_of_mem_transition he).trans hid
  · obtain ⟨outcome, hu, _⟩ := update_of_refused now hr
    rw [hu]
    exact concerns_keep u.order b outcome

theorem overflow?_update (b : Book) (now : Instant) (u : Update) :
    (b.update now u).outcome.overflow? = none := by
  unfold update
  split
  · rfl
  · split
    · rfl
    · split <;> rfl

theorem Late.overflow? {outcome : Outcome} (h : Late b id outcome) : outcome.overflow? = none := by
  cases h <;> rfl

theorem Late.isApplied {outcome : Outcome} (h : Late b id outcome) : outcome.isApplied = false := by
  cases h <;> rfl

/-- Two changes do the same to one order, and both break off or none; they may differ in the time that the
order is stamped with. -/
structure Agree (id : String) (now now' : Instant) (c c' : Change) : Prop where
  order : (c.book.find? id).map Order.undated = (c'.book.find? id).map Order.undated
  events : c.events.map Event.undated = c'.events.map Event.undated
  same : now = now' → c.book.find? id = c'.book.find? id ∧ c.events = c'.events
  overflow : c.outcome.overflow? = c'.outcome.overflow?

theorem agree_keep (h : SameFor id b b') (now now' : Instant) {outcome outcome' : Outcome}
    (ho : outcome.overflow? = outcome'.overflow?) :
    Agree id now now' (b.keep outcome) (b'.keep outcome') where
  order := congrArg (Option.map Order.undated) h.order
  events := rfl
  same _ := ⟨h.order, rfl⟩
  overflow := ho

theorem agree_amend (b b' : Book) (now now' : Instant) (p : Order) (u : Update)
    (source : OrderState) (outcome : Outcome) :
    Agree id now now'
      ⟨b.put id (p.amend now u), outcome, (p.amend now u).transition source, false⟩
      ⟨b'.put id (p.amend now' u), outcome, (p.amend now' u).transition source, false⟩ where
  order := by
    rw [find?_put_self, find?_put_self]
    rfl
  events := p.transition_amend_undated u source now now'
  same := by
    rintro rfl
    rw [find?_put_self, find?_put_self]
    exact ⟨rfl, rfl⟩
  overflow := rfl

theorem agree_put (b b' : Book) (now now' : Instant) (p : Order) (outcome : Outcome) :
    Agree id now now' ((b.put id p).keep outcome) ((b'.put id p).keep outcome) where
  order := congrArg _ (find?_put_self.trans find?_put_self.symm)
  events := rfl
  same _ := ⟨find?_put_self.trans find?_put_self.symm, rfl⟩
  overflow := rfl

/-- A report that brings no hash is admitted in both books or in neither. -/
theorem agree_update {u : Update} (h : SameFor u.order b b') (now now' : Instant)
    (hb : ∀ o, b.find? u.order = some o → bringsHash o u = false) :
    Agree u.order now now' (b.update now u) (b'.update now' u) := by
  rcases admitted_cases b u with ⟨o, ho, hs⟩ | hr
  · have ho' : b'.find? u.order = some o := h.order ▸ ho
    rw [update_of_no_hash ho hs (hb o ho), update_of_no_hash ho' hs (hb o ho)]
    exact agree_amend b b' now now' o u o.state _
  · obtain ⟨outcome, hu, _⟩ := update_of_refused now hr
    obtain ⟨outcome', hu', _⟩ := update_of_refused now' (h.order ▸ hr)
    have ho := overflow?_update b now u
    have ho' := overflow?_update b' now' u
    rw [hu] at ho ⊢
    rw [hu'] at ho' ⊢
    exact agree_keep h now now' (ho.trans ho'.symm)

theorem agree_doubt (h : SameFor id b b') (now now' : Instant) (d : Doubt) :
    Agree id now now' (b.doubt now id d) (b'.doubt now' id d) := by
  rcases active_cases b id with ⟨o, ho, ha⟩ | hi
  · have ho' : b'.find? id = some o := h.order ▸ ho
    by_cases hroom : (d.count o).toNat + 1 < UInt32.size
    · rw [doubt_of_room ho ha now d hroom, doubt_of_room ho' ha now' d hroom, h.limits]
      split
      · exact agree_amend b b' now now' (d.raise o) _ o.state _
      · exact agree_put b b' now now' (d.raise o) _
    · rw [doubt_of_full ho ha now d hroom, doubt_of_full ho' ha now' d hroom]
      exact agree_put b b' now now' (d.stick o) _
  · obtain ⟨outcome, hl, hd⟩ := late_doubt now d hi
    obtain ⟨outcome', hl', hd'⟩ := late_doubt now' d (h.order ▸ hi)
    rw [hd, hd']
    exact agree_keep h now now' (hl.overflow?.trans hl'.overflow?.symm)

/-- The change of a piece of work. An answer that does not count makes none, and neither does one with a
fee that cannot be represented. -/
def change (b : Book) (native : Option String) : Instant × Piece → Change
  | (now, .charge id) => b.markNotFound now id
  | (_, .answer _ (.error _)) => b.keep .unknown
  | (now, .answer q (.ok reply)) =>
    match b.settle now native q reply with
    | .error cause => b.keep (.overflow cause)
    | .ok c => c.getD (b.keep .unknown)

theorem findByHash?_sameFor {hash : String} (hs : SameFor id b b')
    (hf : b.findByHash? hash = some o) (h : IndexSound b) (hid : o.id = id) :
    b'.findByHash? hash = some o := by
  obtain ⟨k, hi, ho⟩ := findByHash?_eq_some.mp hf
  have hk : k = id := (h.keyed ho).symm.trans hid
  subst hk
  exact findByHash?_eq_some.mpr ⟨k, hs.byHash ▸ hi, hs.order ▸ ho⟩

theorem SameFor.symm (h : SameFor id b b') : SameFor id b' b :=
  ⟨h.order.symm, h.byHash.symm, h.limits.symm⟩

theorem bringsHash_of_found (ho : b.find? q.order = some o) (hh : o.txHash = some q.hash)
    (fee : Decimal) :
    ∀ p, b.find? (fillReport native q o fee).order = some p →
      bringsHash p (fillReport native q o fee) = false := by
  intro p hp
  rw [show b.find? q.order = some p from hp] at ho
  cases ho
  exact bringsHash_fillReport hh o

theorem agree_resolve (hs : SameFor q.order b b') (now now' : Instant) (r : Resolution)
    (ho : b.find? q.order = some o) (hh : o.txHash = some q.hash) :
    Agree q.order now now' ((b.resolve now native q o r).getD (b.keep .unknown))
      ((b'.resolve now' native q o r).getD (b'.keep .unknown)) := by
  cases r with
  | filled fee =>
    exact agree_update (u := fillReport native q o fee) hs now now' (bringsHash_of_found ho hh fee)
  | ambiguous => exact agree_doubt hs now now' .stall
  | notFound => exact agree_doubt hs now now' .miss
  | awaitingReceipt => exact agree_keep hs now now' rfl

theorem change_of_found (hf : b.findByHash? q.hash = some o) (hid : o.id = q.order) :
    b.change native (now, .answer q (.ok reply)) =
      match reply.resolution (o.extraDecimal? "gasPrice") with
      | .error cause => b.keep (.overflow cause)
      | .ok r => (b.resolve now native q o r).getD (b.keep .unknown) := by
  simp only [change, settle_of_found hf hid]
  cases reply.resolution (o.extraDecimal? "gasPrice") with
  | error cause => rfl
  | ok r => rfl

theorem change_of_dropped (hd : ∀ o, b.findByHash? q.hash = some o → o.id ≠ q.order) :
    b.change native (now, .answer q (.ok reply)) = b.keep .unknown := by
  simp only [change, settle_of_dropped hd]
  rfl

/-- All that a piece of work can do: nothing, count a report, or fill its order under the order's own
hash. -/
theorem change_cases (h : IndexSound b) (native : Option String) (now : Instant) (p : Piece) :
    (∃ outcome, outcome.isApplied = false ∧ b.change native (now, p) = b.keep outcome) ∨
      (∃ d, b.change native (now, p) = b.doubt now p.order d) ∨
      ∃ q o fee, q.order = p.order ∧ b.find? q.order = some o ∧ o.txHash = some q.hash ∧
        b.change native (now, p) = b.update now (fillReport native q o fee) := by
  cases p with
  | charge id => exact .inr (.inl ⟨.miss, rfl⟩)
  | answer q reply =>
    cases reply with
    | error f => exact .inl ⟨_, rfl, rfl⟩
    | ok reply =>
      rcases settle_cases h q with ⟨o, ho, hh, hf, hid⟩ | hd
      · rw [change_of_found hf hid]
        cases reply.resolution (o.extraDecimal? "gasPrice") with
        | error cause => exact .inl ⟨_, rfl, rfl⟩
        | ok r =>
          cases r with
          | filled fee => exact .inr (.inr ⟨q, o, fee, rfl, ho, hh, rfl⟩)
          | ambiguous => exact .inr (.inl ⟨.stall, rfl⟩)
          | notFound => exact .inr (.inl ⟨.miss, rfl⟩)
          | awaitingReceipt => exact .inl ⟨_, rfl, rfl⟩
      · rw [change_of_dropped hd]
        exact .inl ⟨_, rfl, rfl⟩

/-- A piece of work changes only its own order. -/
theorem concerns_change (h : IndexSound b) (native : Option String) (w : Instant × Piece) :
    Concerns w.2.order b (b.change native w) := by
  obtain ⟨now, p⟩ := w
  rcases change_cases h native now p with ⟨outcome, _, hc⟩ | ⟨d, hc⟩ | ⟨q, o, fee, hq, ho, hh, hc⟩
  · exact hc ▸ concerns_keep p.order b outcome
  · exact hc ▸ concerns_doubt h now p.order d
  · have hfill := concerns_update (u := fillReport native q o fee) h now (bringsHash_of_found ho hh fee)
    exact hc ▸ hq ▸ hfill

theorem indexSound_change (h : IndexSound b) (native : Option String) (w : Instant × Piece) :
    IndexSound (b.change native w).book :=
  indexSound_touches h (concerns_change h native w).touches

/-- What a piece of work makes of its order depends on that order and on the index. -/
theorem agree_change {p : Piece} (h : IndexSound b) (h' : IndexSound b')
    (hs : SameFor p.order b b') (native : Option String) (now now' : Instant) :
    Agree p.order now now' (b.change native (now, p)) (b'.change native (now', p)) := by
  cases p with
  | charge id => exact agree_doubt hs now now' .miss
  | answer q reply =>
    cases reply with
    | error f => exact agree_keep hs now now' rfl
    | ok reply =>
      rcases settle_cases h q with ⟨o, ho, hh, hf, hid⟩ | hd
      · rw [change_of_found hf hid, change_of_found (findByHash?_sameFor hs hf h hid) hid]
        cases reply.resolution (o.extraDecimal? "gasPrice") with
        | error cause => exact agree_keep hs now now' rfl
        | ok r => exact agree_resolve hs now now' r ho hh
      · rw [change_of_dropped hd, change_of_dropped]
        · exact agree_keep hs now now' rfl
        · intro o hf hid
          exact hd o (findByHash?_sameFor hs.symm hf h' hid) hid

end Book

namespace Tally
variable {t t' : Tally} {native : Option String} {w : Instant × Piece} {cause : Overflow}

/-- The tally that a pass has come to, be it broken off there or not. -/
def reached : Except Break Tally → Tally
  | .ok t => t
  | .error x => x.tally

/-- Why it is broken off, if it is. -/
def broken? : Except Break Tally → Option Overflow
  | .ok _ => none
  | .error x => some x.cause

theorem broken?_eq_none {out : Except Break Tally} : broken? out = none ↔ ∃ t, out = .ok t := by
  cases out with
  | ok t => exact iff_of_true rfl ⟨t, rfl⟩
  | error x => exact iff_of_false nofun nofun

/-- The tally keeps the change. -/
structure Enters (t : Tally) (c : Change) (t' : Tally) : Prop where
  book : t'.book = c.book
  events : t'.events = t.events ++ c.events

theorem enters_take (t : Tally) (c : Change) : Enters t c (t.take c) := ⟨rfl, rfl⟩

theorem enters_keep (t : Tally) (r : PollReport) (outcome : Outcome) :
    Enters t (t.book.keep outcome) { t with report := r } :=
  ⟨rfl, (List.append_nil _).symm⟩

theorem goOn_cases (t : Tally) (c : Change) :
    reached (t.goOn c) = t.take c ∧ broken? (t.goOn c) = c.outcome.overflow? := by
  unfold goOn
  cases c.outcome <;> exact ⟨rfl, rfl⟩

/-- A piece of work is its change, entered in the tally, and the work breaks off if the change does. -/
theorem work_change (t : Tally) (native : Option String) (w : Instant × Piece) :
    Enters t (t.book.change native w) (reached (t.work native w)) ∧
      broken? (t.work native w) = (t.book.change native w).outcome.overflow? := by
  obtain ⟨now, p⟩ := w
  cases p with
  | charge id =>
    obtain ⟨hreached, hbroken⟩ := t.goOn_cases (t.book.markNotFound now id)
    exact ⟨hreached ▸ t.enters_take _, hbroken⟩
  | answer q reply =>
    cases reply with
    | error f => exact ⟨t.enters_keep _ _, rfl⟩
    | ok reply =>
      simp only [work, answer, Book.change]
      cases t.book.settle now native q reply with
      | error cause => exact ⟨t.enters_keep _ _, rfl⟩
      | ok found =>
        cases found with
        | none => exact ⟨t.enters_keep _ _, rfl⟩
        | some c =>
          obtain ⟨hreached, hbroken⟩ := goOn_cases { t with
            report := { t.report with polled := t.report.polled + 1 } } c
          exact ⟨hreached ▸ ⟨rfl, rfl⟩, hbroken⟩

theorem work_of_through (h : (t.book.change native w).outcome.overflow? = none) :
    ∃ t', t.work native w = .ok t' ∧ Enters t (t.book.change native w) t' := by
  obtain ⟨henters, hbroken⟩ := t.work_change native w
  cases hw : t.work native w with
  | ok t' =>
    rw [hw] at henters
    exact ⟨t', rfl, henters⟩
  | error x =>
    rw [hw, h] at hbroken
    cases hbroken

theorem work_of_broken (h : (t.book.change native w).outcome.overflow? = some cause) :
    ∃ t', t.work native w = .error ⟨t', cause⟩ ∧ Enters t (t.book.change native w) t' := by
  obtain ⟨henters, hbroken⟩ := t.work_change native w
  cases hw : t.work native w with
  | ok t' =>
    rw [hw, h] at hbroken
    cases hbroken
  | error x =>
    rw [hw] at henters
    rw [hw, h] at hbroken
    cases hbroken
    exact ⟨x.tally, rfl, henters⟩

theorem through_of_work (h : t.work native w = .ok t') :
    (t.book.change native w).outcome.overflow? = none ∧ Enters t (t.book.change native w) t' := by
  obtain ⟨henters, hbroken⟩ := t.work_change native w
  rw [h] at henters hbroken
  exact ⟨hbroken.symm, henters⟩

theorem broken_of_work {x : Break} (h : t.work native w = .error x) :
    (t.book.change native w).outcome.overflow? = some x.cause ∧
      Enters t (t.book.change native w) x.tally := by
  obtain ⟨henters, hbroken⟩ := t.work_change native w
  rw [h] at henters hbroken
  exact ⟨hbroken.symm, henters⟩

end Tally
end SwapDesk
