import SwapDesk.Proofs.Pass.Survey

/-! Every polling pass of a desk is a survey, so that its report tells what became of the orders if nobody
else writes to the book, and the number of orders that it calls pending never runs below zero whoever
does. -/
namespace SwapDesk
open Book Survey

variable {others : Book → Book → Prop} {now : Instant} {native : Option String} {b : Book}
  {xs : List Piece} {q : Inquiry} {reply : Except Failure TransactionReply} {answers : List (Instant × Answer)}
  {d d' : Desk} {p : Pass} {s : Survey} {ready : List Inquiry} {missing : List String}

def Answer.piece (a : Answer) : Piece := .answer a.inquiry a.reply

def Piece.answer? : Piece → Option Answer
  | .charge _ => none
  | .answer q reply => some ⟨q, reply⟩

/-- The answers among pieces of work. -/
def answersOf (xs : List Piece) : List Answer := xs.filterMap Piece.answer?

namespace Tally

variable {t t' : Tally}

/-- Takes an answer at the time at which it arrives. -/
def hear (native : Option String) (t : Tally) (a : Instant × Answer) : Except Break Tally :=
  t.answer a.1 native a.2.inquiry a.2.reply

/-- Charges the orders that lack a hash, and then takes the answers about the others as they arrive. -/
def chargeAndHear (native : Option String) (b : Book) (now : Instant) (missing : List String)
    (answers : List (Instant × Answer)) : Except Break Tally := do
  let t ← (start b .empty).chargeAll now missing
  answers.foldlM (hear native) t

def asking (t : Tally) (unanswered : List Inquiry) : Survey := ⟨t.book, t.report, .asking unanswered⟩

theorem survey_answer (h : t.answer now native q reply = .ok t') (before after : List Inquiry) :
    Run others (t.asking (before ++ q :: after)) [⟨q, reply⟩] (t'.asking (before ++ after)) := by
  cases reply with
  | error f =>
    obtain rfl := Except.ok.inj h
    exact (Step.fail f).run
  | ok reply =>
    by_cases hq : ∃ o, t.book.Resolves q o
    · obtain ⟨o, hq⟩ := hq
      cases hw : reply.resolution (o.extraDecimal? "gasPrice") with
      | error cause =>
        simp only [answer, settle_of_found hq.1 hq.2, hw] at h
        cases h
      | ok word =>
        rw [answer_of_resolves hq hw] at h
        have hread : Step (t.asking (before ++ q :: after)) [⟨q, .ok reply⟩]
            ⟨t.book, t.asked.report, .settling q o word (before ++ after)⟩ := .read hq hw
        have hsettle : ∀ hgo, Run others _ _ _ := fun hgo => hread.run.snoc (.settle now native hgo)
        cases hr : t.book.resolve now native q o word with
        | none =>
          rw [hr] at h hsettle
          obtain rfl := Except.ok.inj h
          exact hsettle rfl
        | some c =>
          rw [hr] at h hsettle
          obtain ⟨hgo, rfl⟩ := through_of_goOn h
          exact hsettle hgo
    · rw [answer_of_dropped fun o ho => hq ⟨o, ho⟩] at h
      obtain rfl := Except.ok.inj h
      exact (Step.drop fun o ho => hq ⟨o, ho⟩).run

/-- Answers may arrive in any order. -/
theorem survey_hearAll {unanswered : List Inquiry}
    (hperm : (answers.map (·.2.inquiry)).Perm unanswered)
    (h : answers.foldlM (hear native) t = .ok t') :
    Run others (t.asking unanswered) (answers.map (·.2)) (t'.asking []) := by
  induction answers generalizing t unanswered with
  | nil =>
    obtain rfl := Except.ok.inj h
    obtain rfl := List.nil_perm.mp hperm
    exact .refl _
  | cons a rest ih =>
    rw [List.foldlM_cons] at h
    obtain ⟨t₁, ha, hlater⟩ := bind_eq_ok.mp h
    obtain ⟨before, after, rfl⟩ := List.append_of_mem (hperm.subset List.mem_cons_self)
    have hrest : (rest.map (·.2.inquiry)).Perm (before ++ after) :=
      (hperm.trans List.perm_middle).cons_inv
    exact (survey_answer ha before after).trans (ih hrest hlater)

/-- The pieces of work of such a pass. -/
def piecesOf (now : Instant) (missing : List String) (answers : List (Instant × Answer)) :
    List (Instant × Piece) :=
  (missing.map fun id => (now, .charge id)) ++ answers.map fun a => (a.1, a.2.piece)

theorem worked_chargeAndHear (native : Option String) (b : Book) (now : Instant)
    (missing : List String) (answers : List (Instant × Answer)) :
    let out := chargeAndHear native b now missing answers
    ∃ done events, Worked native b done events (broken? out) (reached out).book ∧
      Upto (broken? out) done (piecesOf now missing answers) := by
  obtain ⟨charges, events, hw, _, hupto⟩ := worked_chargeAll native (start b .empty) now missing
  unfold chargeAndHear piecesOf
  cases hc : (start b .empty).chargeAll now missing with
  | error x =>
    rw [hc] at hw hupto
    exact ⟨charges, events, hw, hupto.1.trans (List.prefix_append _ _), nofun⟩
  | ok t =>
    rw [hc] at hw hupto
    obtain rfl := hupto.2 rfl
    obtain ⟨done, later, hw', _, hupto'⟩ :=
      worked_foldlM native (answers.map fun a => (a.1, a.2.piece)) t
    rw [List.foldlM_map] at hw' hupto'
    exact ⟨_, _, hw.append hw', hupto'.append _⟩

theorem nodup_piecesOf (hs : IndexSound b)
    (hperm : (answers.map (·.2.inquiry)).Perm (inquiries b.active).1) (now : Instant) :
    (ordersOf (piecesOf now (inquiries b.active).2 answers)).Nodup := by
  have horders : ordersOf (piecesOf now (inquiries b.active).2 answers) =
      (inquiries b.active).2 ++ (answers.map (·.2.inquiry)).map (·.order) := by
    simp only [ordersOf, piecesOf, List.map_append, List.map_map]
    congr 1
    exact List.map_id _
  rw [horders, ((hperm.map (·.order)).append_left _).nodup_iff]
  exact (inquiries_perm b.active).nodup_iff.mpr (nodup_active hs)

/-- There is a report exactly if the book has room for every charge and every answer. -/
theorem exists_chargeAndHear_iff (hs : IndexSound b)
    (hperm : (answers.map (·.2.inquiry)).Perm (inquiries b.active).1) (native : Option String)
    (now : Instant) :
    (∃ t, chargeAndHear native b now (inquiries b.active).2 answers = .ok t) ↔
      (∀ id ∈ (inquiries b.active).2, (Piece.charge id).Fits b) ∧
        ∀ a ∈ answers, a.2.piece.Fits b := by
  have hall : (∀ w ∈ piecesOf now (inquiries b.active).2 answers, w.2.Fits b) ↔
      (∀ id ∈ (inquiries b.active).2, (Piece.charge id).Fits b) ∧
        ∀ a ∈ answers, a.2.piece.Fits b := by
    simp only [piecesOf, List.forall_mem_append, List.forall_mem_map]
  obtain ⟨done, events, hworked, hbegins, hdone⟩ :=
    worked_chargeAndHear native b now (inquiries b.active).2 answers
  obtain ⟨t', hcomes, _⟩ := hworked.comesTo (.start b .empty) rfl
  have honce : (ordersOf done).Nodup :=
    (nodup_piecesOf hs hperm now).sublist ((hbegins.sublist.map _).map _)
  have hthrough := hcomes.through_iff hs honce
  rw [← broken?_eq_none, ← hall]
  constructor
  · intro hnone w hw
    rw [← hdone hnone] at hw
    exact (fits_iff hs native w.1 w.2).mp (hthrough.mp hnone w hw)
  · intro hfits
    exact hthrough.mpr fun w hw => (fits_iff hs native w.1 w.2).mpr (hfits w (hbegins.subset hw))

theorem count_with_awaiting (r : PollReport) (n : Nat) (outcome : Outcome) :
    PollReport.count { r with awaiting := n } outcome = { r.count outcome with awaiting := n } := by
  cases outcome with
  | applied source target => cases target <;> rfl
  | _ => rfl

theorem survey_charges (h : missing.foldlM (charge now) t = .ok t') (ready : List Inquiry) (n : Nat) :
    Run others ⟨t.book, { t.report with awaiting := n }, .charging missing ready⟩ []
      ⟨t'.book, { t'.report with awaiting := n }, .charging [] ready⟩ := by
  induction missing generalizing t with
  | nil =>
    obtain rfl := Except.ok.inj h
    exact .refl _
  | cons id rest ih =>
    rw [List.foldlM_cons] at h
    obtain ⟨t₁, hc, hlater⟩ := bind_eq_ok.mp h
    obtain ⟨hgo, rfl⟩ := through_of_goOn hc
    let c : Change := t.book.markNotFound now id
    have hcharge : Step ⟨t.book, { t.report with awaiting := n }, .charging (id :: rest) ready⟩ []
        ⟨(t.take c).book, { (t.take c).report with awaiting := n }, .charging rest ready⟩ :=
      count_with_awaiting t.report n c.outcome ▸ .charge now hgo
    exact hcharge.run.trans (ih hlater)

theorem survey_chargeAll (h : (start b .empty).chargeAll now missing = .ok t) (ready : List Inquiry) :
    Run others (.begin b missing ready) [] (t.asking ready) := by
  obtain ⟨t₁, hc, hlast⟩ := bind_eq_ok.mp h
  obtain rfl := Except.ok.inj hlast
  exact (survey_charges hc ready missing.length).snoc .ask

theorem survey_chargeAndHear (h : chargeAndHear native b now missing answers = .ok t)
    (hperm : (answers.map (·.2.inquiry)).Perm ready) :
    Run others (.begin b missing ready) (answers.map (·.2)) (t.asking []) := by
  obtain ⟨t₁, hc, hlater⟩ := bind_eq_ok.mp h
  exact (survey_chargeAll hc ready).trans (survey_hearAll hperm hlater)

end Tally

namespace Desk

/-- What a pass has come to when its wait for hashes is over, unless it was broken off. -/
def survey? (d : Desk) : Pass → Option Survey
  | .querying queries report => some ⟨d.book, report, .asking (queries.map (·.inquiry))⟩
  | .ended (.ok report) => some ⟨d.book, report, .closed⟩
  | _ => none

theorem survey_closePass (d : Desk) (kept : List Query) (report : PollReport)
    (h : d.survey? (closePass kept report) = some s) :
    Run others ⟨d.book, report, .asking (kept.map (·.inquiry))⟩ [] s := by
  cases kept with
  | nil =>
    obtain rfl := Option.some.inj h
    exact Step.close.run
  | cons q rest =>
    obtain rfl := Option.some.inj h
    exact .refl _

theorem survey_collect (d : Desk) (report : PollReport) (kept queries : List Query)
    (h : (d.collect report kept queries).1.survey? (d.collect report kept queries).2 = some s) :
    Run others ⟨d.book, report, .asking (kept.map (·.inquiry) ++ queries.map (·.inquiry))⟩
      (answersOf (d.arrived queries)) s := by
  induction queries generalizing d report kept with
  | nil =>
    rw [List.map_nil, List.append_nil]
    exact survey_closePass d kept report h
  | cons q rest ih =>
    unfold collect at h
    split at h
    · rename_i hpast
      rw [arrived_cons_of_past hpast]
      cases ha : d.answer report q.inquiry q.arrival.reply with
      | error cause =>
        rw [ha] at h
        cases h
      | ok next =>
        obtain ⟨t, ht, rfl⟩ := answered_of_answer ha
        rw [ha] at h
        have hrest := ih (d.takeTally t) t.report kept h
        rw [book_takeTally, arrived_takeTally] at hrest
        exact (Tally.survey_answer ht _ _).trans hrest
    · rename_i hopen
      rw [arrived_cons_of_open hopen]
      have hrest := ih d report (kept ++ [q]) h
      rw [List.map_append, List.append_assoc] at hrest
      exact hrest

theorem survey_askAll (d : Desk) (report : PollReport) (kept : List Query) (questions : List Inquiry)
    (h : (d.askAll report kept questions).1.survey? (d.askAll report kept questions).2 = some s) :
    Run others ⟨d.book, report, .asking (kept.map (·.inquiry) ++ questions)⟩
      (answersOf (d.arrived (d.askEach questions))) s := by
  induction questions generalizing d report kept with
  | nil =>
    rw [List.append_nil]
    exact survey_closePass d kept report h
  | cons q rest ih =>
    let r : Request := .transaction ⟨d.settings.chain, d.settings.network, q.hash⟩
    have heach : d.askEach (q :: rest) = ⟨q, (d.ask r).2⟩ :: (d.ask r).1.askEach rest := rfl
    have hclock : ∀ queries, d.arrived queries = (d.ask r).1.arrived queries := arrived_congr rfl
    rw [heach, hclock]
    unfold askAll at h
    dsimp only at h
    split at h
    · rename_i hpast
      rw [arrived_cons_of_past hpast]
      cases ha : (d.ask r).1.answer report q (d.ask r).2.reply with
      | error cause =>
        rw [ha] at h
        cases h
      | ok next =>
        obtain ⟨t, ht, rfl⟩ := answered_of_answer ha
        rw [ha] at h
        have hrest := ih ((d.ask r).1.takeTally t) t.report kept h
        rw [book_takeTally, askEach_takeTally, arrived_takeTally] at hrest
        exact (Tally.survey_answer ht _ _).trans hrest
    · rename_i hopen
      rw [arrived_cons_of_open hopen]
      have hrest := ih (d.ask r).1 report (kept ++ [⟨q, (d.ask r).2⟩]) h
      rw [List.map_append, List.append_assoc] at hrest
      exact hrest

theorem answersOf_opened (d : Desk) (ready : List Inquiry) (missing : List String) :
    answersOf (d.opened (some (ready, missing))) = answersOf (d.arrived (d.askEach ready)) := by
  simp [opened, answersOf, List.filterMap_append, List.filterMap_map, Piece.answer?]

theorem survey_chargeAndAsk (d : Desk) (ready : List Inquiry) (missing : List String)
    (h : (d.chargeAndAsk ready missing).1.survey? (d.chargeAndAsk ready missing).2 = some s) :
    Run others (.begin d.book missing ready) (answersOf (d.opened (some (ready, missing)))) s := by
  unfold chargeAndAsk at h
  cases hc : (Tally.start d.book .empty).chargeAll d.now missing with
  | error x =>
    rw [hc] at h
    cases h
  | ok t =>
    rw [hc] at h
    have hask : Run others _ _ s := survey_askAll _ _ [] ready h
    rw [book_takeTally, askEach_takeTally, arrived_takeTally, ← answersOf_opened d ready missing] at hask
    exact (Tally.survey_chargeAll hc ready).trans hask

theorem takesUp_of_hasAsked (d : Desk) (h : p.hasAsked = false) :
    d.takesUp p = d.opened (d.opens? p) := by
  cases p with
  | querying queries report => cases h
  | _ => rfl

theorem survey_awaitHashes {due : Nat}
    (h : (d.awaitHashes ready missing due).1.survey? (d.awaitHashes ready missing due).2 = some s) :
    ∃ missing' ready', d.waited? ready missing due = some (ready', missing') ∧
      Run others (.begin d.book missing' ready')
        (answersOf (d.opened (some (ready', missing')))) s := by
  rcases d.awaitHashes_cases ready missing due with ⟨ready', missing', hw, _, _, ha⟩ | ⟨_, _, ha⟩
  · rw [ha] at h
    exact ⟨missing', ready', hw, survey_chargeAndAsk d ready' missing' h⟩
  · rw [ha] at h
    cases h

/-- A pass is a survey from the turn at which its wait for hashes ends. -/
theorem survey_opens (ho : p.hasAsked = false)
    (h : (d.pollPass p).1.survey? (d.pollPass p).2 = some s) :
    ∃ missing ready, Run others (.begin d.book missing ready) (answersOf (d.takesUp p)) s ∧
      (d.opens? p = some (ready, missing) ∨
        p = .fresh ∧ d.book.active = [] ∧ ready = [] ∧ missing = []) := by
  have hopened : ∀ missing ready, d.opens? p = some (ready, missing) →
      Run others (.begin d.book missing ready) (answersOf (d.opened (some (ready, missing)))) s →
      Run others (.begin d.book missing ready) (answersOf (d.takesUp p)) s := by
    intro missing ready hopens hrun
    rw [d.takesUp_of_hasAsked ho, hopens]
    exact hrun
  cases p with
  | fresh =>
    simp only [pollPass, beginPass] at h
    split at h
    · rename_i hempty
      obtain rfl := Option.some.inj h
      have hend : Run others (.begin d.book [] []) [] ⟨d.book, PollReport.empty.close, .closed⟩ :=
        (Step.ask.run).snoc .close
      have hopens : d.opens? .fresh = none := if_pos hempty
      refine ⟨[], [], ?_, .inr ⟨rfl, List.isEmpty_iff.mp hempty, rfl, rfl⟩⟩
      rw [d.takesUp_of_hasAsked ho, hopens]
      exact hend
    · rename_i hsome
      obtain ⟨missing, ready, hw, hrun⟩ := survey_awaitHashes h
      have hopens : d.opens? .fresh = some (ready, missing) := by
        simpa only [opens?, if_neg hsome] using hw
      exact ⟨missing, ready, hopened missing ready hopens hrun, .inl hopens⟩
  | awaiting ready missing deadline rung =>
    simp only [pollPass] at h
    cases rung with
    | true =>
      obtain ⟨missing', ready', hw, hrun⟩ := survey_awaitHashes h
      exact ⟨missing', ready', hopened missing' ready' hw hrun, .inl hw⟩
    | false =>
      by_cases hpast : d.isPast deadline = true
      · simp only [Bool.false_eq_true, if_false, hpast, if_true] at h
        have hopens : d.opens? (.awaiting ready missing deadline false) = some (ready, missing) := by
          simp [opens?, hpast]
        exact ⟨missing, ready,
          hopened missing ready hopens (survey_chargeAndAsk d ready missing h), .inl hopens⟩
      · simp only [Bool.false_eq_true, if_false, hpast] at h
        cases h
  | _ => cases ho

theorem waited?_of_same (hs : IndexSound d.book) {due : Nat}
    (h : d.waited? (inquiries d.book.active).1 (inquiries d.book.active).2 due =
      some (ready, missing)) : inquiries d.book.active = (ready, missing) := by
  simp only [waited?, recheck_inquiries hs, List.append_nil] at h
  split at h
  · exact Option.some.inj h
  · cases h

/-- If the book is as it was at the beginning, the pass asks about the orders that had a hash then. -/
theorem opens?_of_same (hs : IndexSound d.book)
    (hp : p = .fresh ∨ ∃ deadline rung,
      p = .awaiting (inquiries d.book.active).1 (inquiries d.book.active).2 deadline rung)
    (h : d.opens? p = some (ready, missing)) : inquiries d.book.active = (ready, missing) := by
  rcases hp with rfl | ⟨deadline, rung, rfl⟩
  · simp only [opens?] at h
    split at h
    · cases h
    · exact waited?_of_same hs h
  · simp only [opens?] at h
    split at h
    · exact waited?_of_same hs h
    · split at h
      · exact Option.some.inj h
      · cases h

/-- And it goes on as one. -/
theorem survey_pollPass (ho : p.hasAsked = true)
    (h : (d.pollPass p).1.survey? (d.pollPass p).2 = some s) :
    ∃ e, d.survey? p = some e ∧ Run others e (answersOf (d.takesUp p)) s := by
  cases p with
  | querying queries report => exact ⟨_, rfl, survey_collect d report [] queries h⟩
  | ended result => exact ⟨s, h, .refl s⟩
  | _ => cases ho

end Desk

/-- A pass under way on a desk where anything may happen between its turns. -/
inductive Interrupted : Desk → Pass → Prop
  | begin {d : Desk} : Interrupted d .fresh
  | turn {d : Desk} {p : Pass} (h : Interrupted d p) : Interrupted (d.pollPass p).1 (d.pollPass p).2
  | meanwhile {d d' : Desk} {p : Pass} (h : Interrupted d p) : Interrupted d' p

theorem Interrupted.survey (h : Interrupted d p) (hs : d.survey? p = some s) :
    ∃ first missing ready heard, Run anything (.begin first missing ready) heard s := by
  induction h generalizing s with
  | begin => cases hs
  | @turn d p _ ih =>
    cases ho : p.hasAsked with
    | false =>
      obtain ⟨missing, ready, hrun, _⟩ := Desk.survey_opens ho hs
      exact ⟨d.book, missing, ready, _, hrun⟩
    | true =>
      obtain ⟨e, he, hmore⟩ := Desk.survey_pollPass ho hs
      obtain ⟨first, missing, ready, heard, hrun⟩ := ih he
      exact ⟨first, missing, ready, _, hrun.trans hmore⟩
  | @meanwhile d d' p _ ih =>
    have hother : ∃ e, d.survey? p = some e ∧ s = { e with book := d'.book } := by
      cases p with
      | querying queries report =>
        obtain rfl := Option.some.inj hs
        exact ⟨_, rfl, rfl⟩
      | ended result =>
        cases result with
        | error cause => cases hs
        | ok report =>
          obtain rfl := Option.some.inj hs
          exact ⟨_, rfl, rfl⟩
      | _ => cases hs
    obtain ⟨e, he, rfl⟩ := hother
    obtain ⟨first, missing, ready, heard, hrun⟩ := ih he
    exact ⟨first, missing, ready, heard, hrun.other trivial⟩

theorem Desk.hasAsked_pollPass (d : Desk) (h : p.hasAsked = true) :
    (d.pollPass p).2.hasAsked = true := by
  cases p with
  | querying queries report =>
    obtain ⟨work, h⟩ := d.carries_collect report [] queries
    exact h.takes.hasAsked
  | ended result => exact h
  | _ => cases h

theorem Desk.takesUp_of_unasked (h : (d.pollPass p).2.hasAsked = false) : d.takesUp p = [] := by
  have hawait : ∀ ready missing due, (d.awaitHashes ready missing due).2.hasAsked = false →
      d.waited? ready missing due = none := by
    intro ready missing due h
    rcases d.awaitHashes_cases ready missing due with ⟨ready', missing', _, _, _, ha⟩ | ⟨hw, _⟩
    · obtain ⟨work, hc⟩ := d.carries_chargeAndAsk ready' missing'
      simp [ha, hc.takes.hasAsked] at h
    · exact hw
  cases p with
  | fresh =>
    simp only [pollPass, beginPass] at h
    simp only [takesUp, opens?]
    split
    · rfl
    · rename_i hsome
      rw [if_neg hsome] at h
      rw [hawait _ _ _ h]
      rfl
  | awaiting ready missing deadline rung =>
    simp only [pollPass] at h
    simp only [takesUp, opens?]
    split
    · rename_i hrung
      rw [if_pos hrung] at h
      rw [hawait _ _ _ h]
      rfl
    · rename_i hrung
      rw [if_neg hrung] at h
      split
      · rename_i hpast
        rw [if_pos hpast] at h
        obtain ⟨work, hc⟩ := d.carries_chargeAndAsk ready missing
        simp [hc.takes.hasAsked] at h
      · rfl
  | querying queries report => simp [d.hasAsked_pollPass (p := .querying queries report) rfl] at h
  | ended result => rfl

theorem Book.Worked.eq_of_nil {b' : Book} {events : List Event} {r : Option Overflow}
    (h : Worked native b [] events r b') : b' = b := by
  cases h
  rfl

/-- Until its wait for hashes is over, a pass that nobody disturbs is as it was when it began. -/
theorem Offered.unasked (h : Offered b xs d p) (hs : IndexSound b) (ho : p.hasAsked = false) :
    xs = [] ∧ d.book = b ∧ (p = .fresh ∨ ∃ deadline rung,
      p = .awaiting (inquiries b.active).1 (inquiries b.active).2 deadline rung) := by
  induction h with
  | begin hb => exact ⟨rfl, hb, .inl rfl⟩
  | @turn xs d p _ ih =>
    have hbefore : p.hasAsked = false := by
      rw [← Bool.not_eq_true]
      intro ha
      simp [d.hasAsked_pollPass ha] at ho
    obtain ⟨rfl, rfl, hp⟩ := ih hbefore
    have hstage : Stage d.book [] p := by
      rcases hp with rfl | ⟨deadline, rung, rfl⟩
      · exact .inl ⟨rfl, rfl⟩
      · exact .inr (.inl ⟨deadline, rung, rfl, rfl⟩)
    have hgo : p.overflow? = none := by
      rcases hp with rfl | ⟨deadline, rung, rfl⟩ <;> rfl
    obtain ⟨more, hdoes, hnext, _⟩ := Desk.stage_pollPass hs hstage hgo fun _ => rfl
    obtain ⟨events, hworked, _⟩ := hdoes.worked
    rw [List.nil_append] at hnext
    refine ⟨d.takesUp_of_unasked ho, ?_⟩
    rcases hnext with ⟨hfresh, rfl⟩ | ⟨deadline, rung, hawaiting, rfl⟩ | ht
    · exact ⟨hworked.eq_of_nil, .inl hfresh⟩
    · exact ⟨hworked.eq_of_nil, .inr ⟨deadline, rung, hawaiting⟩⟩
    · simp [ht.hasAsked] at ho
  | meanwhile _ hb ih =>
    obtain ⟨hxs, hbook, hp⟩ := ih ho
    exact ⟨hxs, hb.trans hbook, hp⟩

/-- A pass at which nobody else writes to the book is a survey of the orders that were active when it
began, and it hears the answers that it has taken up. -/
theorem Offered.survey (h : Offered b xs d p) (hs : IndexSound b) (he : d.survey? p = some s) :
    Run nothing (.begin b (inquiries b.active).2 (inquiries b.active).1) (answersOf xs) s := by
  induction h generalizing s with
  | begin => cases he
  | @turn xs d p h ih =>
    cases ho : p.hasAsked with
    | false =>
      obtain ⟨rfl, rfl, hp⟩ := h.unasked hs ho
      obtain ⟨missing, ready, hrun, hopens⟩ := Desk.survey_opens ho he
      have hsame : inquiries d.book.active = (ready, missing) := by
        rcases hopens with hopens | ⟨_, hnone, rfl, rfl⟩
        · exact Desk.opens?_of_same hs hp hopens
        · rw [hnone]
          rfl
      rw [hsame]
      exact hrun
    | true =>
      obtain ⟨e, hbefore, hmore⟩ := Desk.survey_pollPass ho he
      rw [answersOf, List.filterMap_append]
      exact (ih hbefore).trans hmore
  | @meanwhile xs d d' p _ hb ih =>
    refine ih ?_
    rw [← he]
    cases p <;> simp only [Desk.survey?, hb]

/-- The report of a polling pass to which nobody else contributes. There is one exactly if the book has room
for every charge and every answer: fees that can be represented, and counts that can be raised. Then all
answers to its questions are taken, in whatever order they arrive. The orders that it has asked about or
charged are those that were active before. The report tells how many of them were filled and how many
failed, how many questions failed, and how many orders are active now. So does the report of every pass of
a desk at which nobody else writes to the book. And whatever others write to it, and whenever, no more orders
are counted as settled than were asked about or charged. -/
theorem report_tells_pass (hb : Reachable b) (native : Option String) :
    let ready := (inquiries b.active).1
    let missing := (inquiries b.active).2
    (∀ now (answers : List (Instant × Answer)), (answers.map (·.2.inquiry)).Perm ready →
      ((∃ t, Tally.chargeAndHear native b now missing answers = .ok t) ↔
        (∀ id ∈ missing, (Piece.charge id).Fits b) ∧ ∀ a ∈ answers, a.2.piece.Fits b) ∧
      ∀ t, Tally.chargeAndHear native b now missing answers = .ok t →
        t.report.close.Tells b t.book (answers.map (·.2))) ∧
    (∀ heard s, Run nothing (.begin b missing ready) heard s → s.stage = .closed →
      (heard.map (·.inquiry)).Perm ready ∧ s.report.Tells b s.book heard) ∧
    (∀ xs d report, Offered b xs d (.ended (.ok report)) →
      ((answersOf xs).map (·.inquiry)).Perm ready ∧ report.Tells b d.book (answersOf xs)) ∧
    (∀ first missing ready heard s, Run anything (.begin first missing ready) heard s →
      s.report.filled + s.report.failed ≤ s.report.polled + s.report.awaiting ∧
      (s.stage = .closed →
        s.report.pending + s.report.filled + s.report.failed = s.report.polled + s.report.awaiting)) ∧
    ∀ d report, Interrupted d (.ended (.ok report)) →
      report.pending + report.filled + report.failed = report.polled + report.awaiting := by
  have hs : IndexSound b := hb.indexSound
  intro ready missing
  have hclosed : ∀ {heard s}, Run nothing (.begin b missing ready) heard s → s.stage = .closed →
      (heard.map (·.inquiry)).Perm ready ∧ s.report.Tells b s.book heard := by
    intro heard s hrun hc
    have hanswers := hrun.counts.answers
    simp only [unanswered, hc, List.append_nil] at hanswers
    exact ⟨hanswers, hrun.tells rfl hs hc⟩
  refine ⟨?_, fun heard s => hclosed, ?_, ?_, ?_⟩
  · intro now answers hperm
    refine ⟨Tally.exists_chargeAndHear_iff hs hperm native now, fun t ht => ?_⟩
    have hsurvey : Run nothing _ _ _ := Tally.survey_chargeAndHear ht hperm
    have hrun := hsurvey.snoc .close
    rw [List.append_nil] at hrun
    exact (hclosed hrun rfl).2
  · intro xs d report hoffered
    exact hclosed (hoffered.survey hs rfl) rfl
  · intro first missing ready heard s hrun
    have hcounts := hrun.counts
    exact ⟨Nat.le_trans (Nat.le_add_right _ _) hcounts.settled, hcounts.pending⟩
  · intro d report h
    obtain ⟨first, missing, ready, heard, hrun⟩ := h.survey rfl
    exact hrun.counts.pending rfl

/-- One order is lost because its hash did not come, the question about another one fails, and the
transaction of the third is on its way. -/
theorem report_tells_lost_order :
    let b := ((fresh ⟨1, none⟩).performAll [(.epoch, .track (.sample "a")),
      (.epoch, .track (.sample "b")), (.epoch, .track (.sample "c")),
      (.epoch, .update { Update.toState "a" .opened with txHash := some "x" }),
      (.epoch, .update { Update.toState "b" .opened with txHash := some "y" })]).1
    let answers : List (Instant × Answer) :=
      [(.epoch, ⟨⟨"b", "y"⟩, .error (.transport "")⟩),
        (.epoch, ⟨⟨"a", "x"⟩, .ok ⟨"x", .pending, none, none⟩⟩)]
    ∃ t, Tally.chargeAndHear none b .epoch ["c"] answers = .ok t ∧
      t.report.close.Tells b t.book (answers.map (·.2)) ∧
      t.report.close = ⟨2, 0, 1, 2, 1, 1⟩ := by
  intro b answers
  have hasked : inquiries b.active = ([⟨"a", "x"⟩, ⟨"b", "y"⟩], ["c"]) := by decide
  have hb : Reachable b := ⟨⟨1, none⟩, _, rfl⟩
  have hs : IndexSound b := hb.indexSound
  have hcharge : ∀ id ∈ ["c"], (Piece.charge id).Fits b := by
    intro id hid
    cases List.mem_singleton.mp hid
    exact (fits_iff hs none .epoch _).mp (by decide +kernel)
  have hanswers : ∀ a ∈ answers, a.2.piece.Fits b := by
    intro a ha
    rcases List.mem_cons.mp ha with rfl | ha
    · exact ⟨trivial, trivial⟩
    · cases List.mem_singleton.mp ha
      exact (fits_iff hs none .epoch _).mp (by decide +kernel)
  obtain ⟨hgo, _⟩ := report_tells_pass hb none
  rw [hasked] at hgo
  obtain ⟨hexists, htells⟩ := hgo .epoch answers (.swap _ _ [])
  obtain ⟨t, ht⟩ := hexists.mpr ⟨hcharge, hanswers⟩
  have hreport : (Tally.chargeAndHear none b .epoch ["c"] answers).map (·.report.close) =
      .ok ⟨2, 0, 1, 2, 1, 1⟩ := by rfl
  rw [ht] at hreport
  exact ⟨t, ht, htells t ht, Except.ok.inj hreport⟩

/-- An order was restored with the greatest count of misses. When the only question of a pass is answered
with the word that its transaction is not found, there is no report. -/
theorem full_count_leaves_no_report :
    let kept : Order :=
      { Order.sample "a" with state := .opened, txHash := some "x", notFound := 4294967295 }
    let b := ((fresh .default).perform .epoch (.restore (.ofList [("a", kept)]))).book
    let answers : List (Instant × Answer) :=
      [(.epoch, ⟨⟨"a", "x"⟩, .ok ⟨"x", .notFound, none, none⟩⟩)]
    Reachable b ∧ inquiries b.active = (answers.map (·.2.inquiry), []) ∧
      (∀ a ∈ answers, a.2.piece.FeeFits b) ∧
      ¬∃ t, Tally.chargeAndHear none b .epoch [] answers = .ok t := by
  intro kept b answers
  refine ⟨⟨.default, [(.epoch, .restore (.ofList [("a", kept)]))], rfl⟩, by decide, ?_, ?_⟩
  · intro a ha
    cases List.mem_singleton.mp ha
    exact fun o _ _ => ⟨.notFound, rfl⟩
  · rw [← Tally.broken?_eq_none]
    decide +kernel

end SwapDesk
