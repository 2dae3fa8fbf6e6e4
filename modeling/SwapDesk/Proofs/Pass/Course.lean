import SwapDesk.Proofs.Desk.Passing
import SwapDesk.Proofs.Pass.Isolation

/-! The course of a polling pass on a desk where nobody else writes to the book. It does what was said of
its work: each order once, and all of them if it comes to its end. -/
namespace SwapDesk

open Book

/-- A pass that began on the book `b`. It goes on at its turns; in between anything may happen that
leaves the book, the events and the chain's own currency alone. -/
inductive Course (b : Book) (native : Option String) (feed : Feed) : Desk → Pass → Prop
  | begin {d : Desk} (hb : d.book = b) (hn : d.reconciler.native = native) (hf : d.feed = feed) :
      Course b native feed d .fresh
  | turn {d : Desk} {p : Pass} (h : Course b native feed d p) :
      Course b native feed (d.pollPass p).1 (d.pollPass p).2
  | meanwhile {d d' : Desk} {p : Pass} (h : Course b native feed d p) (hb : d'.book = d.book)
      (hn : d'.reconciler.native = d.reconciler.native) (hf : d'.feed = d.feed) :
      Course b native feed d' p

variable {b : Book} {native : Option String} {feed : Feed} {d : Desk} {p : Pass} {id : String}
  {work : List (Instant × Piece)}

/-- The tally of the work keeps the book and the events. -/
theorem Book.Worked.comesTo {b' : Book} {events : List Event} {r : Option Overflow}
    (h : Worked native b work events r b') (t : Tally) (ht : t.book = b) :
    ∃ t', ComesTo native t work r t' ∧ t'.book = b' ∧ t'.events = t.events ++ events := by
  induction h generalizing t with
  | nil => exact ⟨t, .nil t, ht, (List.append_nil _).symm⟩
  | @cons b b' w work events r ho _ ih =>
    obtain rfl := ht
    obtain ⟨t₁, hw, henters⟩ := Tally.work_of_through ho
    obtain ⟨t', hcomes, hb, he⟩ := ih t₁ henters.book
    refine ⟨t', .cons hw hcomes, hb, ?_⟩
    rw [he, henters.events, List.append_assoc]
  | last ho =>
    obtain rfl := ht
    obtain ⟨t', hw, henters⟩ := Tally.work_of_broken ho
    exact ⟨t', .last hw, henters.book, henters.events⟩

/-- A pass that was broken off stays as it is. -/
theorem pollPass_of_overflow {cause : Overflow} (d : Desk) (h : p.overflow? = some cause) :
    d.pollPass p = (d, p) := by
  cases p with
  | ended result => rfl
  | _ => cases h

theorem Course.worked (hs : IndexSound b) (h : Course b native feed d p) :
    ∃ work events, Worked native b work events p.overflow? d.book ∧
      d.feed = feed.publishAll events ∧ d.reconciler.native = native ∧ Stage b work p := by
  induction h with
  | begin hb hn hf => exact ⟨[], [], hb ▸ .nil _, hf, hn, Or.inl ⟨rfl, rfl⟩⟩
  | @turn d p _ ih =>
    cases ho : p.overflow? with
    | some cause =>
      rw [pollPass_of_overflow d ho]
      exact ih
    | none =>
      obtain ⟨work, events, hw, hf, hn, hstage⟩ := ih
      rw [ho] at hw
      have hbook : work = [] → d.book = b := by
        rintro rfl
        cases hw
        rfl
      obtain ⟨more, hd, hstage', _⟩ := Desk.stage_pollPass hs hstage ho hbook
      obtain ⟨later, hw', hf'⟩ := hd.worked
      rw [hn] at hw'
      refine ⟨_, _, hw.append hw', ?_, ?_, hstage'⟩
      · rw [hf', hf, Feed.publishAll, Feed.publishAll, Feed.publishAll, List.foldl_append]
      · rw [hd.reconciler, hn]
  | meanwhile _ hb hn hf ih =>
    obtain ⟨work, events, hw, hf₁, hn₁, hstage⟩ := ih
    exact ⟨work, events, hb ▸ hw, hf.trans hf₁, hn.trans hn₁, hstage⟩

/-- Each order is asked about or lacks a hash, and not both. -/
theorem inquiries_perm (orders : List Order) :
    ((inquiries orders).2 ++ (inquiries orders).1.map (·.order)).Perm (orders.map (·.id)) := by
  induction orders with
  | nil => exact .refl _
  | cons o rest ih =>
    cases hh : o.txHash with
    | none => simpa [inquiries, hh] using ih.cons o.id
    | some hash =>
      have hmiddle : ((inquiries rest).2 ++ o.id :: (inquiries rest).1.map (·.order)).Perm
          (o.id :: rest.map (·.id)) := List.perm_middle.trans (ih.cons o.id)
      simpa [inquiries, hh] using hmiddle

theorem nodup_active (hs : IndexSound b) : (b.active.map (·.id)).Nodup := by
  have hkeys : b.orders.values.map (·.id) = b.orders.keys := by
    rw [Dict.values, Dict.keys, List.map_map]
    apply List.map_congr_left
    rintro ⟨k, o⟩ he
    exact hs.keyed (b.orders.mem_entries_iff.mp he)
  have hnodup : (b.orders.values.map (·.id)).Nodup := hkeys ▸ b.orders.nodup_keys
  exact hnodup.sublist (List.filter_sublist.map _)

theorem ordersOf_perm (work : List (Instant × Piece)) :
    (ordersOf work).Perm (charged work ++ (asked work).map (·.order)) := by
  induction work with
  | nil => exact .refl _
  | cons w rest ih =>
    obtain ⟨now, piece⟩ := w
    cases piece with
    | charge id => exact ih.cons id
    | answer q reply => exact (ih.cons q.order).trans List.perm_middle.symm

theorem Takes.passWork (hs : IndexSound b)
    (h : Takes (inquiries b.active).2 (inquiries b.active).1 work p) : PassWork b work where
  charges := by
    intro now id hm
    have hc : id ∈ charged work := List.mem_filterMap.mpr ⟨_, hm, rfl⟩
    exact h.charges.subset hc
  answers := by
    intro now q reply hm
    have ha : q ∈ asked work := List.mem_filterMap.mpr ⟨_, hm, rfl⟩
    exact h.answers.subset (List.mem_append_left _ ha)
  once := by
    rw [(ordersOf_perm work).nodup_iff]
    have hall : ((inquiries b.active).2 ++ (inquiries b.active).1.map (·.order)).Nodup :=
      (inquiries_perm b.active).nodup_iff.mpr (nodup_active hs)
    have hasked : (asked work).Subperm (inquiries b.active).1 :=
      (List.sublist_append_left _ _).subperm.trans h.answers
    obtain ⟨answered, hperm, hsub⟩ := hasked
    rw [← ((hperm.map (·.order)).append_left (charged work)).nodup_iff]
    exact hall.sublist (h.charges.append (hsub.map _))

theorem Stage.passWork (hs : IndexSound b) (h : Stage b work p) : PassWork b work := by
  rcases h with ⟨_, rfl⟩ | ⟨_, _, _, rfl⟩ | ht
  · exact ⟨by simp, by simp, by simp [ordersOf]⟩
  · exact ⟨by simp, by simp, by simp [ordersOf]⟩
  · exact ht.passWork hs

/-- A pass that came to its end has not left any active order out. -/
theorem Stage.complete {report : PollReport} (h : Stage b work (.ended (.ok report)))
    {o : Order} (ho : o ∈ b.active) : o.id ∈ ordersOf work := by
  rcases h with ⟨hp, _⟩ | ⟨_, _, hp, _⟩ | ht
  · cases hp
  · cases hp
  · obtain ⟨hcharged, hall⟩ := ht.all rfl
    have hasked : (asked work).Perm (inquiries b.active).1 := by
      change (asked work ++ []).Perm _ at hall
      rw [List.append_nil] at hall
      exact hall
    have hperm : (ordersOf work).Perm (b.active.map (·.id)) := by
      refine (ordersOf_perm work).trans (List.Perm.trans ?_ (inquiries_perm b.active))
      rw [hcharged]
      exact (hasked.map _).append_left _
    exact hperm.mem_iff.mpr (List.mem_map_of_mem ho)

/-- The work of a pass, taken in any order and abandoned anywhere, goes through exactly if each of its
pieces fits the book at the beginning, and otherwise it goes up to the first that does not. Each order that
was worked on ends with the data and the events that its own piece of work alone gives it, also the one at
which the work breaks off, and every other order is as it was, as is one whose question failed. Another order
of arrival changes nothing but the times. And this is what a desk does whose pass is under way: its book
and its events are those of such work, and the work of a pass that came to its end is about each active
order. -/
theorem pass_isolates_orders (hb : Reachable b) (native : Option String) :
    (∀ work, PassWork b work →
      ((∃ t, work.foldlM (Tally.work native) (.start b .empty) = .ok t) ↔
        ∀ w ∈ work, w.2.Fits b) ∧
      ∃ done r t, done <+: work ∧ ComesTo native (.start b .empty) done r t ∧
        (r = none → done = work)) ∧
    (∀ work r t, PassWork b work → ComesTo native (.start b .empty) work r t →
      Separate b native work t) ∧
    (∀ work t work', PassWork b work →
      work.foldlM (Tally.work native) (.start b .empty) = .ok t →
      (work'.map Prod.snd).Perm (work.map Prod.snd) →
      PassWork b work' ∧ ∃ t', work'.foldlM (Tally.work native) (.start b .empty) = .ok t' ∧
        ∀ id, t'.undatedView id = t.undatedView id) ∧
    ∀ feed d p, Course b native feed d p →
      ∃ work t, PassWork b work ∧ ComesTo native (.start b .empty) work p.overflow? t ∧
        d.book = t.book ∧ d.feed = feed.publishAll t.events ∧
        ∀ report, p = .ended (.ok report) → ∀ o ∈ b.active, o.id ∈ ordersOf work := by
  have hs : IndexSound b := hb.indexSound
  have hgoes : ∀ work, PassWork b work →
      ((∃ t, work.foldlM (Tally.work native) (.start b .empty) = .ok t) ↔
        ∀ w ∈ work, w.2.Fits b) :=
    fun work hw => exists_foldlM_iff hs hw.once
  refine ⟨?_, ?_, ?_, ?_⟩
  · intro work hw
    exact ⟨hgoes work hw, exists_comesTo native work (.start b .empty)⟩
  · intro work r t hw hcomes
    exact (hcomes.isolated hs hw.once).separate hs
  · intro work t work' hw hfold hperm
    have hw' : PassWork b work' := hw.perm hperm
    have hfits := (hgoes work hw).mp ⟨t, hfold⟩
    obtain ⟨t', hfold'⟩ := (hgoes work' hw').mpr (by
      intro w hin
      obtain ⟨v, hv, he⟩ := List.mem_map.mp (hperm.mem_iff.mp (List.mem_map_of_mem hin))
      exact he ▸ hfits v hv)
    have hiso := (comesTo_none_iff.mpr hfold).isolated hs hw.once
    have hiso' := (comesTo_none_iff.mpr hfold').isolated hs hw'.once
    exact ⟨hw', t', hfold', hiso.undatedView_eq hiso' hs hperm⟩
  · intro feed d p hcourse
    obtain ⟨work, events, hworked, hf, _, hstage⟩ := hcourse.worked hs
    obtain ⟨t, hcomes, hbook, hevents⟩ := hworked.comesTo (.start b .empty) rfl
    refine ⟨work, t, hstage.passWork hs, hcomes, hbook.symm, ?_, ?_⟩
    · rw [hf, hevents]
      rfl
    · rintro report rfl o ho
      exact hstage.complete ho

/-- An order that still waits for its hash is charged, and then the word about the other one comes. -/
theorem pass_isolates_submitted_from_waiting :
    let b := ((fresh .default).performAll [(.epoch, .track (.sample "a")),
      (.epoch, .track (.sample "b")),
      (.epoch, .update { Update.toState "a" .opened with txHash := some "x" })]).1
    let word : Piece := .answer ⟨"a", "x"⟩ (.ok ⟨"x", .pending, none, none⟩)
    ∃ t t', [(.epoch, .charge "b"), (.epoch, word)].foldlM (Tally.work none) (.start b .empty) =
        .ok t ∧
      [(.epoch, word), (.epoch, .charge "b")].foldlM (Tally.work none) (.start b .empty) =
        .ok t' ∧
      ∀ id, t'.undatedView id = t.undatedView id := by
  intro b word
  have hb : Reachable b := ⟨.default, _, rfl⟩
  have hs : IndexSound b := hb.indexSound
  have hasked : inquiries b.active = ([⟨"a", "x"⟩], ["b"]) := by decide
  have hw : PassWork b [(.epoch, .charge "b"), (.epoch, word)] := by
    refine ⟨?_, ?_, by decide⟩
    · intro now id hp
      simp only [word, List.mem_cons, Prod.mk.injEq, Piece.charge.injEq, reduceCtorEq, and_false,
        List.not_mem_nil, or_false] at hp
      simp [hasked, hp.2]
    · intro now q reply hp
      simp only [word, List.mem_cons, Prod.mk.injEq, Piece.answer.injEq, reduceCtorEq, and_false,
        List.not_mem_nil, or_false, false_or] at hp
      simp [hasked, hp.2.1]
  have hfits : ∀ w ∈ [(Instant.epoch, Piece.charge "b"), (.epoch, word)], w.2.Fits b := by
    intro w hwork
    rcases List.mem_cons.mp hwork with rfl | hwork
    · exact (fits_iff hs none .epoch _).mp (by decide +kernel)
    · cases List.mem_singleton.mp hwork
      exact (fits_iff hs none .epoch _).mp (by decide +kernel)
  obtain ⟨hgo, _, hsame, _⟩ := pass_isolates_orders hb none
  obtain ⟨t, ht⟩ := (hgo _ hw).1.mpr hfits
  have hswap : [(Instant.epoch, word), (.epoch, .charge "b")].map Prod.snd |>.Perm
      ([(Instant.epoch, Piece.charge "b"), (.epoch, word)].map Prod.snd) := .swap _ _ []
  obtain ⟨_, t', ht', heq⟩ := hsame _ t _ hw ht hswap
  exact ⟨t, t', ht, ht', heq⟩

end SwapDesk
