import SwapDesk.Proofs.Pass.Work
import Mathlib.Data.List.Perm.Basic

/-! Orders do not get in each other's way in a polling pass. Whatever the answers are, in whatever order
they come and wherever the pass breaks off, each order ends as if its own piece of work were the only
one. -/
namespace SwapDesk

open Book

/-- How a report is counted that does no more than that. -/
def Resolution.doubt? : Resolution → Option Doubt
  | notFound => some .miss
  | ambiguous => some .stall
  | _ => none

/-- One more report of this kind can be counted, if it is counted at all. -/
def Order.HasRoom (o : Order) (d : Doubt) : Prop :=
  o.state.isTerminal = false → (d.count o).toNat + 1 < UInt32.size

/-- The fee of an answer can be represented, if the answer is heard at all. -/
def Piece.FeeFits (b : Book) : Piece → Prop
  | .answer q (.ok reply) => ∀ o, b.findByHash? q.hash = some o → o.id = q.order →
      ∃ r, reply.resolution (o.extraDecimal? "gasPrice") = .ok r
  | _ => True

/-- The count that a charge or an answer raises has room. -/
def Piece.CountFits (b : Book) : Piece → Prop
  | .charge id => ∀ o, b.find? id = some o → o.HasRoom .miss
  | .answer q (.ok reply) => ∀ o r d, b.findByHash? q.hash = some o → o.id = q.order →
      reply.resolution (o.extraDecimal? "gasPrice") = .ok r → r.doubt? = some d → o.HasRoom d
  | .answer _ (.error _) => True

/-- A pass does not break off at the piece. -/
structure Piece.Fits (b : Book) (p : Piece) : Prop where
  fee : p.FeeFits b
  count : p.CountFits b

/-- The orders that work is about. -/
def ordersOf (work : List (Instant × Piece)) : List String := (work.map Prod.snd).map Piece.order

/-- What a pass on the book `b` has done so far: charges for missing hashes and answers to its
questions, in any order and each for another order. -/
structure PassWork (b : Book) (work : List (Instant × Piece)) : Prop where
  charges : ∀ now id, (now, .charge id) ∈ work → id ∈ (inquiries b.active).2
  answers : ∀ now q reply, (now, .answer q reply) ∈ work → q ∈ (inquiries b.active).1
  once : (ordersOf work).Nodup

namespace Tally

/-- What a tally says about one order: its data and the events about it. -/
def view (t : Tally) (id : String) : Option Order × List Event :=
  (t.book.find? id, t.events.filter (·.order = id))

/-- The same without times. -/
def undatedView (t : Tally) (id : String) : Option Order × List Event :=
  ((t.view id).1.map Order.undated, (t.view id).2.map Event.undated)

end Tally

/-- Work that comes from one tally to another: it goes through, or it breaks off at its last piece for
this cause. -/
inductive ComesTo (native : Option String) :
    Tally → List (Instant × Piece) → Option Overflow → Tally → Prop
  | nil (t : Tally) : ComesTo native t [] none t
  | cons {t t₁ t' : Tally} {w : Instant × Piece} {work : List (Instant × Piece)} {r : Option Overflow}
      (hw : t.work native w = .ok t₁) (h : ComesTo native t₁ work r t') :
      ComesTo native t (w :: work) r t'
  | last {t : Tally} {w : Instant × Piece} {x : Break} (hw : t.work native w = .error x) :
      ComesTo native t [w] (some x.cause) x.tally

variable {b : Book} {native : Option String} {now : Instant} {p : Piece} {id : String}
  {work : List (Instant × Piece)} {t t' : Tally} {c : Change} {r : Option Overflow} {w : Instant × Piece}

theorem mem_ordersOf : id ∈ ordersOf work ↔ ∃ w ∈ work, w.2.order = id := by
  simp [ordersOf]

theorem PassWork.perm {work' : List (Instant × Piece)} (h : PassWork b work)
    (hperm : (work'.map Prod.snd).Perm (work.map Prod.snd)) : PassWork b work' where
  charges := by
    intro now id hm
    have hp : .charge id ∈ work.map Prod.snd := hperm.mem_iff.mp (List.mem_map_of_mem hm)
    obtain ⟨⟨now', piece⟩, hm', rfl⟩ := List.mem_map.mp hp
    exact h.charges now' id hm'
  answers := by
    intro now q reply hm
    have hp : .answer q reply ∈ work.map Prod.snd := hperm.mem_iff.mp (List.mem_map_of_mem hm)
    obtain ⟨⟨now', piece⟩, hm', rfl⟩ := List.mem_map.mp hp
    exact h.answers now' q reply hm'
  once := (hperm.map Piece.order).nodup_iff.mpr h.once

/-! ### Where work breaks off -/

theorem overflow?_doubt (b : Book) (now : Instant) (id : String) (d : Doubt) :
    (b.doubt now id d).outcome.overflow? = none ↔ ∀ o, b.find? id = some o → o.HasRoom d := by
  have hd := doubts b now id d
  generalize b.doubt now id d = c at hd
  cases hd with
  | lapses ho _ hroom | counts ho _ hroom =>
    refine iff_of_true rfl ?_
    intro p hp _
    cases ho.symm.trans hp
    exact hroom
  | sticks ho ha hfull => exact iff_of_false nofun fun h => hfull (h _ ho ha)
  | late hl =>
    refine iff_of_true hl.overflow? ?_
    intro o ho ha
    cases hl with
    | unknown hn => cases hn.symm.trans ho
    | terminal ho' ht =>
      cases ho'.symm.trans ho
      cases ht.symm.trans ha

theorem overflow?_resolve {q : Inquiry} {o : Order} (ho : b.find? q.order = some o) (known : Order)
    (r : Resolution) :
    ((b.resolve now native q known r).getD (b.keep .unknown)).outcome.overflow? = none ↔
      ∀ d, r.doubt? = some d → o.HasRoom d := by
  have hcounts : ∀ d, (b.doubt now q.order d).outcome.overflow? = none ↔ o.HasRoom d := by
    intro d
    rw [overflow?_doubt]
    exact ⟨fun h => h o ho, fun h p hp => Option.some.inj (ho.symm.trans hp) ▸ h⟩
  cases r with
  | filled fee => exact iff_of_true (overflow?_update b now _) nofun
  | awaitingReceipt => exact iff_of_true rfl nofun
  | notFound =>
    refine (hcounts .miss).trans ⟨fun h d hd => ?_, fun h => h .miss rfl⟩
    cases hd
    exact h
  | ambiguous =>
    refine (hcounts .stall).trans ⟨fun h d hd => ?_, fun h => h .stall rfl⟩
    cases hd
    exact h

theorem fits_iff (h : IndexSound b) (native : Option String) (now : Instant) (p : Piece) :
    (b.change native (now, p)).outcome.overflow? = none ↔ p.Fits b := by
  cases p with
  | charge id =>
    exact (overflow?_doubt b now id .miss).trans ⟨fun hc => ⟨trivial, hc⟩, fun hf => hf.count⟩
  | answer q reply =>
    cases reply with
    | error f => exact iff_of_true rfl ⟨trivial, trivial⟩
    | ok reply =>
      rcases settle_cases h q with ⟨o, ho, _, hf, hid⟩ | hd
      · have hsame : ∀ p, b.findByHash? q.hash = some p → p = o := fun p hp =>
          Option.some.inj (hp.symm.trans hf)
        rw [change_of_found hf hid]
        cases hr : reply.resolution (o.extraDecimal? "gasPrice") with
        | error cause =>
          refine iff_of_false nofun fun hfits => ?_
          obtain ⟨r, hok⟩ := hfits.fee o hf hid
          cases hok.symm.trans hr
        | ok r =>
          refine (overflow?_resolve ho o r).trans ⟨fun hroom => ⟨?_, ?_⟩, ?_⟩
          · intro p hp _
            exact ⟨r, hsame p hp ▸ hr⟩
          · intro p r' d hp _ hr' hd
            cases hsame p hp
            cases hr.symm.trans hr'
            exact hroom d hd
          · intro hfits d
            exact hfits.count o r d hf hid hr
      · rw [change_of_dropped hd]
        refine iff_of_true rfl ⟨?_, ?_⟩
        · exact fun o ho hid => (hd o ho hid).elim
        · exact fun o _ _ ho hid => (hd o ho hid).elim

/-- Work goes as far as it can. -/
theorem exists_comesTo (native : Option String) (work : List (Instant × Piece)) (t : Tally) :
    ∃ done r t', done <+: work ∧ ComesTo native t done r t' ∧ (r = none → done = work) := by
  induction work generalizing t with
  | nil => exact ⟨[], none, t, List.prefix_rfl, .nil t, fun _ => rfl⟩
  | cons w rest ih =>
    cases hw : t.work native w with
    | error x => exact ⟨[w], _, _, List.prefix_append [w] rest, .last hw, nofun⟩
    | ok t₁ =>
      obtain ⟨done, r, t', hbegins, hcomes, hall⟩ := ih t₁
      exact ⟨w :: done, r, t', (List.prefix_cons_inj w).mpr hbegins, .cons hw hcomes,
        fun hr => congrArg (w :: ·) (hall hr)⟩

/-- Work that goes through is a run over all its pieces. -/
theorem comesTo_none_iff :
    ComesTo native t work none t' ↔ work.foldlM (Tally.work native) t = .ok t' := by
  induction work generalizing t with
  | nil =>
    constructor
    · intro h
      cases h
      rfl
    · intro h
      cases h
      exact .nil _
  | cons w rest ih =>
    rw [List.foldlM_cons]
    cases hw : t.work native w with
    | error x =>
      refine iff_of_false ?_ nofun
      intro h
      cases h with
      | cons hw' _ => cases hw.symm.trans hw'
    | ok t₁ =>
      refine ⟨?_, fun h => .cons hw (ih.mpr h)⟩
      intro h
      cases h with
      | cons hw' h =>
        cases hw.symm.trans hw'
        exact ih.mp h

/-- A piece comes to the same whether other orders have had their pieces before it or not. -/
theorem agree_after (hs : IndexSound t.book) (henters : Tally.Enters t (t.book.change native w) t')
    {v : Instant × Piece} (hne : v.2.order ≠ w.2.order) :
    Agree v.2.order v.1 v.1 (t'.book.change native v) (t.book.change native v) := by
  have hconcerns := concerns_change hs native w
  have hs' : IndexSound t'.book := henters.book ▸ indexSound_touches hs hconcerns.touches
  have hsame : SameFor v.2.order t'.book t.book := henters.book ▸ hconcerns.touches.sameFor hne
  exact agree_change hs' hs hsame native v.1 v.1

/-- Work on different orders goes through if none of its pieces breaks off at the beginning. -/
theorem ComesTo.through_iff (h : ComesTo native t work r t') (hs : IndexSound t.book)
    (honce : (ordersOf work).Nodup) :
    r = none ↔ ∀ w ∈ work, (t.book.change native w).outcome.overflow? = none := by
  induction h with
  | nil => simp
  | @cons t t₁ t' w work r hw _ ih =>
    obtain ⟨hout, hrest⟩ := List.nodup_cons.mp honce
    obtain ⟨hthrough, henters⟩ := Tally.through_of_work hw
    have hs₁ : IndexSound t₁.book := henters.book ▸ indexSound_change hs native w
    rw [ih hs₁ hrest, List.forall_mem_cons, and_iff_right hthrough]
    refine forall₂_congr fun v hv => ?_
    have hne : v.2.order ≠ w.2.order := fun he => hout (mem_ordersOf.mpr ⟨v, hv, he⟩)
    rw [(agree_after hs henters hne).overflow]
  | last hw =>
    have hbroken := (Tally.broken_of_work hw).1
    simp [hbroken]

theorem exists_foldlM_iff (hs : IndexSound b) (honce : (ordersOf work).Nodup) :
    (∃ t, work.foldlM (Tally.work native) (.start b .empty) = .ok t) ↔ ∀ w ∈ work, w.2.Fits b := by
  have hfits : (∀ w ∈ work, (b.change native w).outcome.overflow? = none) ↔ ∀ w ∈ work, w.2.Fits b :=
    forall₂_congr fun w _ => fits_iff hs native w.1 w.2
  rw [← hfits]
  constructor
  · rintro ⟨t, hfold⟩
    exact ((comesTo_none_iff.mpr hfold).through_iff hs honce).mp rfl
  · intro hthrough
    obtain ⟨done, r, t, hbegins, hcomes, hall⟩ := exists_comesTo native work (.start b .empty)
    have hdone : (ordersOf done).Nodup := honce.sublist ((hbegins.sublist.map _).map _)
    obtain rfl : r = none :=
      (hcomes.through_iff hs hdone).mpr fun w hw => hthrough w (hbegins.subset hw)
    obtain rfl := hall rfl
    exact ⟨t, comesTo_none_iff.mp hcomes⟩

/-! ### What becomes of the orders -/

theorem Book.Concerns.filter_events_self (h : Concerns id b c) :
    c.events.filter (·.order = id) = c.events := by
  rw [List.filter_eq_self]
  intro e he
  simp [h.events e he]

theorem Book.Concerns.filter_events_ne {other : String} (h : Concerns id b c) (hne : other ≠ id) :
    c.events.filter (·.order = other) = [] := by
  rw [List.filter_eq_nil_iff]
  intro e he
  simp [h.events e he, hne.symm]

/-- After the work every order of a piece is as that piece alone makes it, and every other order is as
it was. -/
structure Isolated (native : Option String) (work : List (Instant × Piece)) (t t' : Tally) :
    Prop where
  own : ∀ w ∈ work, t'.view w.2.order =
    ((t.book.change native w).book.find? w.2.order,
      (t.view w.2.order).2 ++ (t.book.change native w).events)
  others : ∀ id, id ∉ ordersOf work → t'.view id = t.view id

theorem view_of_enters (hc : Concerns w.2.order t.book c) (h : Tally.Enters t c t') :
    t'.view w.2.order = (c.book.find? w.2.order, (t.view w.2.order).2 ++ c.events) ∧
      ∀ id, id ≠ w.2.order → t'.view id = t.view id := by
  constructor
  · simp only [Tally.view, h.book, h.events, List.filter_append, hc.filter_events_self]
  · intro id hne
    simp only [Tally.view, h.book, h.events, List.filter_append, hc.filter_events_ne hne,
      List.append_nil, hc.touches.find?_ne hne]

theorem Isolated.nil (t : Tally) : Isolated native [] t t := ⟨by simp, fun _ _ => rfl⟩

theorem Isolated.cons {t₁ : Tally} (h : Isolated native work t₁ t') (hs : IndexSound t.book)
    (hout : w.2.order ∉ ordersOf work) (henters : Tally.Enters t (t.book.change native w) t₁) :
    Isolated native (w :: work) t t' := by
  obtain ⟨hviewOwn, hviewOther⟩ := view_of_enters (concerns_change hs native w) henters
  refine ⟨?_, ?_⟩
  · intro v hv
    rcases List.mem_cons.mp hv with rfl | hv
    · exact (h.others _ hout).trans hviewOwn
    · have hne : v.2.order ≠ w.2.order := fun he => hout (mem_ordersOf.mpr ⟨v, hv, he⟩)
      obtain ⟨hfind, hev⟩ := (agree_after hs henters hne).same rfl
      rw [h.own v hv, hviewOther _ hne, hfind, hev]
  · intro id hid
    obtain ⟨hself, hrest⟩ := not_or.mp (List.mem_cons.not.mp hid)
    exact (h.others id hrest).trans (hviewOther id hself)

/-- Work on other orders, before or after, makes no difference to an order. -/
theorem ComesTo.isolated (h : ComesTo native t work r t') (hs : IndexSound t.book)
    (honce : (ordersOf work).Nodup) : Isolated native work t t' := by
  induction h with
  | nil t => exact .nil t
  | @cons t t₁ t' w work r hw _ ih =>
    obtain ⟨hout, hrest⟩ := List.nodup_cons.mp honce
    have henters := (Tally.through_of_work hw).2
    have hs₁ : IndexSound t₁.book := henters.book ▸ indexSound_change hs native w
    exact (ih hs₁ hrest).cons hs hout henters
  | last hw => exact (Isolated.nil _).cons hs (by simp [ordersOf]) (Tally.broken_of_work hw).2

/-- The tally of one piece on a book. -/
def Tally.alone (b : Book) (native : Option String) (w : Instant × Piece) : Tally :=
  Tally.reached ((Tally.start b .empty).work native w)

theorem view_alone (hs : IndexSound b) (native : Option String) (w : Instant × Piece) :
    (Tally.alone b native w).view w.2.order =
      ((b.change native w).book.find? w.2.order, (b.change native w).events) := by
  have henters := ((Tally.start b .empty).work_change native w).1
  exact (view_of_enters (concerns_change hs native w) henters).1

/-- What an isolated piece makes of its order is the same at any time. -/
theorem Isolated.undatedView_alone (h : Isolated native work (.start b .empty) t) (hs : IndexSound b)
    (hp : (now, p) ∈ work) (now' : Instant) :
    t.undatedView p.order = (Tally.alone b native (now', p)).undatedView p.order := by
  have hagree := agree_change hs hs (.refl p.order b) native now now'
  have hown := h.own _ hp
  have halone := view_alone hs native (now', p)
  refine Prod.ext ?_ ?_
  · simp only [Tally.undatedView, hown, halone]
    exact hagree.order
  · simp only [Tally.undatedView, hown, halone]
    exact hagree.events

theorem Isolated.undatedView_eq {work' : List (Instant × Piece)} {t t' : Tally}
    (h : Isolated native work (.start b .empty) t) (h' : Isolated native work' (.start b .empty) t')
    (hs : IndexSound b) (hperm : (work'.map Prod.snd).Perm (work.map Prod.snd)) (id : String) :
    t'.undatedView id = t.undatedView id := by
  have horders : id ∈ ordersOf work' ↔ id ∈ ordersOf work := (hperm.map Piece.order).mem_iff
  by_cases hid : id ∈ ordersOf work
  · obtain ⟨⟨now, p⟩, hp, rfl⟩ := mem_ordersOf.mp hid
    have hp' : p ∈ work'.map Prod.snd := hperm.mem_iff.mpr (List.mem_map_of_mem hp)
    obtain ⟨⟨now', q⟩, hq, rfl⟩ := List.mem_map.mp hp'
    exact (h'.undatedView_alone hs hq now).trans (h.undatedView_alone hs hp now).symm
  · have hv := h.others id hid
    have hv' := h'.others id (fun hn => hid (horders.mp hn))
    simp only [Tally.undatedView, hv, hv']

/-- The tally is as if the pieces had nothing to do with each other: an order with a piece of its own
has the data and the events that this piece alone gives it on the book at the beginning, and every other
order is as it was, as is one whose question failed. -/
structure Separate (b : Book) (native : Option String) (work : List (Instant × Piece))
    (t : Tally) : Prop where
  alone : ∀ now p, (now, p) ∈ work → ∀ now',
    t.undatedView p.order = (Tally.alone b native (now', p)).undatedView p.order ∧
      (now' = now → t.view p.order = (Tally.alone b native (now', p)).view p.order)
  others : ∀ id, id ∉ ordersOf work → t.view id = (b.find? id, [])
  failed : ∀ now q f, (now, .answer q (.error f)) ∈ work → t.view q.order = (b.find? q.order, [])

theorem Isolated.separate (h : Isolated native work (.start b .empty) t) (hs : IndexSound b) :
    Separate b native work t where
  alone := by
    intro now p hp now'
    refine ⟨h.undatedView_alone hs hp now', ?_⟩
    rintro rfl
    exact (h.own _ hp).trans (view_alone hs native _).symm
  others := h.others
  failed := fun _ _ _ hq => h.own _ hq

end SwapDesk
