import SwapDesk.Proofs.Desk.Business
import Mathlib.Data.List.Perm.Subperm

/-! The work that a desk does when a polling pass goes on. It carries out all that there is to do then, up
to a piece at which the pass breaks off. Each question of the pass is answered at most once, and none is
forgotten unless the pass breaks off. -/
namespace SwapDesk

def Piece.inquiry? : Piece → Option Inquiry
  | charge _ => none
  | answer q _ => some q

def Piece.charged? : Piece → Option String
  | charge id => some id
  | answer _ _ => none

/-- The questions that work has answered. -/
def asked (work : List (Instant × Piece)) : List Inquiry := work.filterMap (·.2.inquiry?)

/-- The orders that work has charged for a missing hash. -/
def charged (work : List (Instant × Piece)) : List String := work.filterMap (·.2.charged?)

namespace Pass

/-- The questions that a pass still waits for. -/
def unanswered : Pass → List Inquiry
  | querying queries _ => queries.map (·.inquiry)
  | _ => []

/-- The wait for hashes is over. -/
def hasAsked : Pass → Bool
  | querying .. | ended _ => true
  | _ => false

def overflows : Pass → Bool
  | ended (.error _) => true
  | _ => false

/-- Why the pass was broken off. -/
def overflow? : Pass → Option Overflow
  | ended (.error cause) => some cause
  | _ => none

theorem overflow?_eq_none {p : Pass} : p.overflow? = none ↔ p.overflows = false := by
  cases p with
  | ended result => cases result <;> simp [overflow?, overflows]
  | _ => exact iff_of_true rfl rfl

end Pass

/-- The work has charged these orders; of these questions it has answered some, and the pass waits for
the others. -/
structure Takes (missing : List String) (questions : List Inquiry) (work : List (Instant × Piece))
    (p : Pass) : Prop where
  hasAsked : p.hasAsked = true
  charges : (charged work).Sublist missing
  answers : (asked work ++ p.unanswered).Subperm questions
  all : p.overflow? = none →
    charged work = missing ∧ (asked work ++ p.unanswered).Perm questions

variable {missing : List String} {questions questions' : List Inquiry}
  {work more : List (Instant × Piece)} {p p' : Pass} {q : Inquiry} {b : Book} {d : Desk}

/-- The pass waits for these hashes and has done nothing yet, or the wait is over. -/
def Opens (missing : List String) (ready : List Inquiry) (work : List (Instant × Piece))
    (p : Pass) : Prop :=
  (∃ deadline rung, p = .awaiting ready missing deadline rung ∧ work = []) ∨
    Takes missing ready work p

/-- How far a pass is that began on the book. -/
def Stage (b : Book) (work : List (Instant × Piece)) (p : Pass) : Prop :=
  p = .fresh ∧ work = [] ∨ Opens (inquiries b.active).2 (inquiries b.active).1 work p

theorem Takes.perm (h : Takes missing questions work p) (hq : questions.Perm questions') :
    Takes missing questions' work p :=
  ⟨h.hasAsked, h.charges, h.answers.trans hq.subperm,
    fun ho => ⟨(h.all ho).1, (h.all ho).2.trans hq⟩⟩

theorem Takes.append (h : Takes missing questions work p) (ho : p.overflow? = none)
    (h' : Takes [] p.unanswered more p') : Takes missing questions (work ++ more) p' := by
  have hasked : asked (work ++ more) ++ p'.unanswered =
      asked work ++ (asked more ++ p'.unanswered) := by
    simp [asked]
  have hcharged : charged (work ++ more) = missing := by
    rw [charged, List.filterMap_append]
    change charged work ++ charged more = missing
    rw [(h.all ho).1, List.eq_nil_of_sublist_nil h'.charges, List.append_nil]
  refine ⟨h'.hasAsked, by rw [hcharged], ?_, fun ho' => ⟨hcharged, ?_⟩⟩
  · rw [hasked]
    exact ((List.subperm_append_left _).mpr h'.answers).trans (h.all ho).2.subperm
  · rw [hasked]
    exact ((h'.all ho').2.append_left _).trans (h.all ho).2

theorem Takes.answer (h : Takes [] questions work p) (now : Instant) (q : Inquiry)
    (reply : Except Failure TransactionReply) :
    Takes [] (q :: questions) ((now, .answer q reply) :: work) p :=
  ⟨h.hasAsked, h.charges, (List.subperm_cons q).mpr h.answers,
    fun ho => ⟨(h.all ho).1, (h.all ho).2.cons q⟩⟩

theorem charged_charges (now : Instant) (missing : List String) :
    charged (missing.map fun id => (now, .charge id)) = missing := by
  simp [charged, List.filterMap_map, Piece.charged?]

theorem asked_charges (now : Instant) (missing : List String) :
    asked (missing.map fun id => (now, .charge id)) = [] := by
  simp [asked, List.filterMap_map, Piece.inquiry?]

theorem Takes.charge (h : Takes [] questions work p) (now : Instant) (missing : List String) :
    Takes missing questions ((missing.map fun id => (now, .charge id)) ++ work) p := by
  have hasked : asked ((missing.map fun id => (now, .charge id)) ++ work) = asked work := by
    rw [asked, List.filterMap_append]
    change asked (missing.map fun id => (now, .charge id)) ++ asked work = _
    rw [asked_charges, List.nil_append]
  have hcharged : charged ((missing.map fun id => (now, .charge id)) ++ work) = missing := by
    rw [charged, List.filterMap_append]
    change charged (missing.map fun id => (now, .charge id)) ++ charged work = missing
    rw [charged_charges, List.eq_nil_of_sublist_nil h.charges, List.append_nil]
  refine ⟨h.hasAsked, by rw [hcharged], hasked ▸ h.answers, fun ho => ⟨hcharged, ?_⟩⟩
  rw [hasked]
  exact (h.all ho).2

/-- A pass that an answer broke off. -/
theorem takes_broken_answer (now : Instant) (q : Inquiry) (reply : Except Failure TransactionReply)
    (cause : Overflow) (h : q ∈ questions) :
    Takes [] questions [(now, .answer q reply)] (.ended (.error cause)) :=
  ⟨rfl, .refl [], List.singleton_subperm_iff.mpr h, nofun⟩

/-- A pass that a charge broke off. -/
theorem takes_broken_charge {now : Instant} {done : List (Instant × Piece)}
    (h : done <+: missing.map fun id => (now, .charge id)) (questions : List Inquiry)
    (cause : Overflow) : Takes missing questions done (.ended (.error cause)) := by
  have hcharged : (charged done).Sublist missing := by
    rw [← charged_charges now missing]
    exact h.sublist.filterMap _
  have hasked : asked done = [] := by
    apply List.eq_nil_of_sublist_nil
    rw [← asked_charges now missing]
    exact h.sublist.filterMap _
  exact ⟨rfl, hcharged, hasked ▸ List.nil_subperm, nofun⟩

/-- A second look finds nothing new as long as the book is the same. -/
theorem recheck_inquiries (h : b.IndexSound) :
    b.recheck (inquiries b.active).2 = ([], (inquiries b.active).2) := by
  have hlacks : ∀ id ∈ (inquiries b.active).2,
      b.inquiry? id = none ∧ b.lacksHash id = true := by
    intro id hid
    obtain ⟨o, ho, rfl⟩ := List.mem_map.mp hid
    obtain ⟨hactive, hnone⟩ := List.mem_filter.mp ho
    obtain ⟨⟨k, hk⟩, ha⟩ := Book.mem_active.mp hactive
    have hf : b.find? o.id = some o := (h.keyed hk).symm ▸ hk
    rw [Option.isNone_iff_eq_none] at hnone
    constructor
    · simp [Book.inquiry?, hf, ha, hnone]
    · simp [Book.lacksHash, hf, hnone, OrderState.isActive_iff, ha]
  refine Prod.ext ?_ ?_
  · exact List.filterMap_eq_nil_iff.mpr fun id hid => (hlacks id hid).1
  · exact List.filter_eq_self.mpr fun id hid => (hlacks id hid).2

namespace Desk

/-- The answers to queries that have arrived. -/
def arrived (d : Desk) (queries : List Query) : List Piece :=
  (queries.filter fun q => d.isPast q.arrival.alarm).map fun q =>
    .answer q.inquiry q.arrival.reply

/-- The questions as they are asked one after the other. -/
def askEach (d : Desk) : List Inquiry → List Query
  | [] => []
  | q :: rest =>
    let (d, arrival) := d.ask (.transaction ⟨d.settings.chain, d.settings.network, q.hash⟩)
    ⟨q, arrival⟩ :: d.askEach rest

/-- The questions and the charges after the wait for hashes, if it is over. -/
def waited? (d : Desk) (ready : List Inquiry) (missing : List String) (due : Nat) :
    Option (List Inquiry × List String) :=
  let (got, missing) := d.book.recheck missing
  if missing.isEmpty || due ≤ d.clock then some (ready ++ got, missing) else none

/-- The questions and the charges of a pass that ends its wait for hashes now. -/
def opens? (d : Desk) : Pass → Option (List Inquiry × List String)
  | .fresh =>
    if d.book.active.isEmpty then none
    else
      let (ready, missing) := inquiries d.book.active
      d.waited? ready missing (d.clock + d.settings.hashWait)
  | .awaiting ready missing deadline rung =>
    if rung then d.waited? ready missing deadline.due
    else if d.isPast deadline then some (ready, missing)
    else none
  | _ => none

/-- The charges and the answers that come at once. -/
def opened (d : Desk) : Option (List Inquiry × List String) → List Piece
  | some (ready, missing) => missing.map .charge ++ d.arrived (d.askEach ready)
  | none => []

/-- What a pass has to do when it goes on now. -/
def takesUp (d : Desk) : Pass → List Piece
  | .querying queries _ => d.arrived queries
  | p => d.opened (d.opens? p)

variable {d' : Desk} {r : Query} {queries : List Query} {ready : List Inquiry} {t : Tally}
  {report : PollReport}

theorem arrived_cons_of_past (h : d.isPast r.arrival.alarm = true) :
    d.arrived (r :: queries) = .answer r.inquiry r.arrival.reply :: d.arrived queries := by
  simp [arrived, h]

theorem arrived_cons_of_open (h : ¬ d.isPast r.arrival.alarm = true) :
    d.arrived (r :: queries) = d.arrived queries := by
  simp [arrived, h]

/-- What arrives depends on the clock only. -/
theorem arrived_congr (h : d'.clock = d.clock) (queries : List Query) :
    d'.arrived queries = d.arrived queries := by
  simp only [arrived, isPast, h]

/-- What is asked, and when it is answered, does not depend on the book. -/
theorem askEach_congr (hscript : d'.script = d.script) (hsettings : d'.settings = d.settings)
    (hclock : d'.clock = d.clock) (hturns : d'.turns = d.turns) (questions : List Inquiry) :
    d'.askEach questions = d.askEach questions := by
  induction questions generalizing d d' with
  | nil => rfl
  | cons q rest ih =>
    cases d
    cases d'
    cases hscript
    cases hsettings
    cases hclock
    cases hturns
    exact congrArg (List.cons _) (ih rfl rfl rfl rfl)

theorem book_takeTally (d : Desk) (t : Tally) : (d.takeTally t).book = t.book :=
  book_commit ..

theorem exists_takeTally (d : Desk) (t : Tally) : ∃ feed loop errand,
    d.takeTally t = { d with book := t.book, feed, loop, errand } := by
  unfold takeTally commit
  dsimp only
  split
  · exact ⟨_, _, _, rfl⟩
  · exact ⟨_, _, _, rfl⟩

theorem arrived_takeTally (d : Desk) (t : Tally) (queries : List Query) :
    (d.takeTally t).arrived queries = d.arrived queries := by
  obtain ⟨feed, loop, errand, ht⟩ := d.exists_takeTally t
  rw [ht]
  exact arrived_congr (d := d) rfl queries

theorem askEach_takeTally (d : Desk) (t : Tally) (questions : List Inquiry) :
    (d.takeTally t).askEach questions = d.askEach questions := by
  obtain ⟨feed, loop, errand, ht⟩ := d.exists_takeTally t
  rw [ht]
  apply askEach_congr
  all_goals rfl

theorem overflow?_closePass (kept : List Query) (report : PollReport) :
    (closePass kept report).overflow? = none := by
  cases kept <;> rfl

theorem takes_closePass (kept : List Query) (report : PollReport) :
    Takes [] (kept.map (·.inquiry)) [] (closePass kept report) := by
  have hopen : (closePass kept report).unanswered = kept.map (·.inquiry) := by
    cases kept <;> rfl
  have hasked : (closePass kept report).hasAsked = true := by
    cases kept <;> rfl
  refine ⟨hasked, .refl [], ?_, fun _ => ⟨rfl, ?_⟩⟩
  · rw [hopen]
    exact .refl _
  · rw [hopen]
    exact .refl _

/-- On its way from one desk to another the pass has done this work out of the pieces that it took up. -/
structure Carries (xs : List Piece) (missing : List String) (questions : List Inquiry) (d : Desk)
    (out : Desk × Pass) (work : List (Instant × Piece)) : Prop where
  does : Does work out.2.overflow? d out.1
  takes : Takes missing questions work out.2
  upto : Book.Upto out.2.overflow? (work.map Prod.snd) xs

theorem carries_closePass (d : Desk) (kept : List Query) (report : PollReport) :
    Carries [] [] (kept.map (·.inquiry)) d (d, closePass kept report) [] := by
  have hnone := overflow?_closePass kept report
  refine ⟨?_, takes_closePass kept report, .refl _ []⟩
  rw [hnone]
  exact .refl d

theorem Carries.answer {xs : List Piece} {reply : Except Failure TransactionReply}
    {out : Desk × Pass} (h : Carries xs [] questions d' out work)
    (hd : Does [(d.now, .answer q reply)] none d d') :
    Carries (.answer q reply :: xs) [] (q :: questions) d out ((d.now, .answer q reply) :: work) :=
  ⟨hd.trans h.does, h.takes.answer d.now q reply, h.upto.append [_]⟩

theorem carries_broken_answer {xs : List Piece} {reply : Except Failure TransactionReply}
    {cause : Overflow} (ha : d.answer report q reply = .error (d', cause)) (h : q ∈ questions) :
    Carries (.answer q reply :: xs) [] questions d (d', .ended (.error cause))
      [(d.now, .answer q reply)] :=
  ⟨does_broken_answer ha, takes_broken_answer _ _ _ _ h, List.prefix_append [_] xs, nofun⟩

theorem Carries.perm {xs : List Piece} {out : Desk × Pass} (h : Carries xs missing questions d out work)
    (hq : questions.Perm questions') : Carries xs missing questions' d out work :=
  ⟨h.does, h.takes.perm hq, h.upto⟩

theorem carries_collect (d : Desk) (report : PollReport) (kept queries : List Query) :
    ∃ work, Carries (d.arrived queries) [] ((kept ++ queries).map (·.inquiry)) d
      (d.collect report kept queries) work := by
  induction queries generalizing d report kept with
  | nil =>
    rw [List.append_nil]
    exact ⟨[], carries_closePass d kept report⟩
  | cons q rest ih =>
    have hfront : ((q :: (kept ++ rest)).map (·.inquiry)).Perm
        ((kept ++ q :: rest).map (·.inquiry)) := List.perm_middle.symm.map _
    unfold collect
    split
    · rename_i hpast
      rw [arrived_cons_of_past hpast]
      split
      · rename_i d' cause ha
        exact ⟨_, carries_broken_answer ha (hfront.mem_iff.mp List.mem_cons_self)⟩
      · rename_i d' report' ha
        obtain ⟨work, hrest⟩ := ih d' report' kept
        obtain ⟨t, _, ht⟩ := answered_of_answer ha
        obtain rfl : d' = d.takeTally t := congrArg Prod.fst ht
        rw [arrived_takeTally] at hrest
        exact ⟨_, (hrest.answer (does_answer ha)).perm hfront⟩
    · rename_i hopen
      rw [arrived_cons_of_open hopen]
      have hlater := ih d report (kept ++ [q])
      rw [List.append_assoc] at hlater
      exact hlater

theorem carries_askAll (d : Desk) (report : PollReport) (kept : List Query)
    (questions : List Inquiry) :
    ∃ work, Carries (d.arrived (d.askEach questions)) [] (kept.map (·.inquiry) ++ questions) d
      (d.askAll report kept questions) work := by
  induction questions generalizing d report kept with
  | nil =>
    rw [List.append_nil]
    exact ⟨[], carries_closePass d kept report⟩
  | cons q rest ih =>
    let s : Request := .transaction ⟨d.settings.chain, d.settings.network, q.hash⟩
    have hask : Does [] none d (d.ask s).1 := does_ask d rfl rfl
    have hsent : ∀ {xs questions out work}, Carries xs [] questions (d.ask s).1 out work →
        Carries xs [] questions d out work :=
      fun h => ⟨hask.trans h.does, h.takes, h.upto⟩
    have heach : d.askEach (q :: rest) = ⟨q, (d.ask s).2⟩ :: (d.ask s).1.askEach rest := rfl
    have hclock : ∀ queries, d.arrived queries = (d.ask s).1.arrived queries := arrived_congr rfl
    have hfront : (q :: (kept.map (·.inquiry) ++ rest)).Perm (kept.map (·.inquiry) ++ q :: rest) :=
      List.perm_middle.symm
    rw [heach, hclock]
    unfold askAll
    dsimp only
    split
    · rename_i hpast
      rw [arrived_cons_of_past hpast]
      split
      · rename_i d' cause ha
        exact ⟨_, hsent (carries_broken_answer ha (hfront.mem_iff.mp List.mem_cons_self))⟩
      · rename_i d' report' ha
        obtain ⟨work, hrest⟩ := ih d' report' kept
        obtain ⟨t, _, ht⟩ := answered_of_answer ha
        obtain rfl : d' = (d.ask s).1.takeTally t := congrArg Prod.fst ht
        rw [askEach_takeTally, arrived_takeTally] at hrest
        exact ⟨_, hsent ((hrest.answer (does_answer ha)).perm hfront)⟩
    · rename_i hopen
      rw [arrived_cons_of_open hopen]
      obtain ⟨work, hrest⟩ := ih (d.ask s).1 report (kept ++ [⟨q, (d.ask s).2⟩])
      rw [List.map_append, List.append_assoc] at hrest
      exact ⟨work, hsent hrest⟩

theorem carries_chargeAndAsk (d : Desk) (ready : List Inquiry) (missing : List String) :
    ∃ work, Carries (d.opened (some (ready, missing))) missing ready d
      (d.chargeAndAsk ready missing) work := by
  obtain ⟨done, events, hw, he, hupto⟩ :=
    Book.worked_chargeAll d.reconciler.native (.start d.book .empty) d.now missing
  have hpieces : ((missing.map fun id => (d.now, Piece.charge id)).map Prod.snd) =
      missing.map .charge := by
    rw [List.map_map]
    rfl
  unfold chargeAndAsk
  cases hc : (Tally.start d.book .empty).chargeAll d.now missing with
  | error x =>
    rw [hc] at hw he hupto
    refine ⟨done, does_takeTally hw he, takes_broken_charge hupto.1 _ _, ?_, nofun⟩
    have hbegins := (hupto.map Prod.snd).1
    rw [hpieces] at hbegins
    exact hbegins.trans (List.prefix_append _ _)
  | ok t =>
    rw [hc] at hw he hupto
    obtain rfl := hupto.2 rfl
    obtain ⟨work, hrest⟩ := carries_askAll (d.takeTally t) t.report [] ready
    rw [askEach_takeTally, arrived_takeTally] at hrest
    refine ⟨_, (does_takeTally hw he).trans hrest.does, hrest.takes.charge d.now missing, ?_⟩
    rw [List.map_append, hpieces]
    exact hrest.upto.append _

theorem awaitHashes_cases (d : Desk) (ready : List Inquiry) (missing : List String) (due : Nat) :
    (∃ ready' missing', d.waited? ready missing due = some (ready', missing') ∧
      ready' = ready ++ (d.book.recheck missing).1 ∧ missing' = (d.book.recheck missing).2 ∧
      d.awaitHashes ready missing due = d.chargeAndAsk ready' missing') ∨
    d.waited? ready missing due = none ∧ d.clock < due ∧
      d.awaitHashes ready missing due =
        ((d.setAlarm due).1, .awaiting (ready ++ (d.book.recheck missing).1)
          (d.book.recheck missing).2 (d.setAlarm due).2 false) := by
  unfold waited? awaitHashes
  dsimp only
  split
  · exact Or.inl ⟨_, _, rfl, rfl, rfl, rfl⟩
  · rename_i h
    simp only [Bool.or_eq_true, decide_eq_true_eq, not_or, Nat.not_le] at h
    exact Or.inr ⟨rfl, h.2, rfl⟩

/-- The same of a pass that may still wait for hashes. -/
structure Moves (xs : List Piece) (missing : List String) (ready : List Inquiry) (d : Desk)
    (out : Desk × Pass) (work : List (Instant × Piece)) : Prop where
  does : Does work out.2.overflow? d out.1
  opens : Opens missing ready work out.2
  upto : Book.Upto out.2.overflow? (work.map Prod.snd) xs

theorem Carries.moves {xs : List Piece} {out : Desk × Pass}
    (h : Carries xs missing questions d out work) : Moves xs missing questions d out work :=
  ⟨h.does, .inr h.takes, h.upto⟩

theorem moves_awaitHashes (d : Desk) (ready : List Inquiry) (missing : List String) (due : Nat) :
    ∃ work, Moves (d.opened (d.waited? ready missing due)) (d.book.recheck missing).2
      (ready ++ (d.book.recheck missing).1) d (d.awaitHashes ready missing due) work := by
  rcases d.awaitHashes_cases ready missing due with ⟨_, _, hw, rfl, rfl, ha⟩ | ⟨hw, _, ha⟩
  · obtain ⟨work, hrest⟩ := carries_chargeAndAsk d (ready ++ (d.book.recheck missing).1)
      (d.book.recheck missing).2
    rw [hw, ha]
    exact ⟨work, hrest.moves⟩
  · rw [hw, ha]
    exact ⟨[], does_setAlarm d due, .inl ⟨_, _, rfl, rfl⟩, .refl _ []⟩

theorem does_pollPass (d : Desk) (p : Pass) : ∃ work stop, Does work stop d (d.pollPass p).1 := by
  cases p with
  | fresh =>
    simp only [pollPass, beginPass]
    split
    · exact ⟨[], none, .refl d⟩
    · obtain ⟨work, h⟩ := moves_awaitHashes d (inquiries d.book.active).1
        (inquiries d.book.active).2 (d.clock + d.settings.hashWait)
      exact ⟨work, _, h.does⟩
  | awaiting ready missing deadline rung =>
    simp only [pollPass]
    split
    · obtain ⟨work, h⟩ := moves_awaitHashes d ready missing deadline.due
      exact ⟨work, _, h.does⟩
    · split
      · obtain ⟨work, h⟩ := carries_chargeAndAsk d ready missing
        exact ⟨work, _, h.does⟩
      · exact ⟨[], none, .refl d⟩
  | querying queries report =>
    obtain ⟨work, h⟩ := carries_collect d report [] queries
    exact ⟨work, _, h.does⟩
  | ended result => exact ⟨[], none, .refl d⟩

/-- A pass that looks for missing hashes on the book on which it began finds none. -/
theorem moves_awaitHashes_of_same (hs : d.book.IndexSound) (due : Nat) :
    let ready := (inquiries d.book.active).1
    let missing := (inquiries d.book.active).2
    ∃ work, Moves (d.opened (d.waited? ready missing due)) missing ready d
      (d.awaitHashes ready missing due) work := by
  have h := moves_awaitHashes d (inquiries d.book.active).1 (inquiries d.book.active).2 due
  rw [recheck_inquiries hs, List.append_nil] at h
  exact h

/-- A pass goes on from stage to stage. It is only at its beginning that it needs the book. -/
theorem stage_pollPass (hs : b.IndexSound) (h : Stage b work p) (ho : p.overflow? = none)
    (hb : work = [] → d.book = b) :
    ∃ more, Does more (d.pollPass p).2.overflow? d (d.pollPass p).1 ∧
      Stage b (work ++ more) (d.pollPass p).2 ∧
      Book.Upto (d.pollPass p).2.overflow? (more.map Prod.snd) (d.takesUp p) := by
  rcases h with ⟨rfl, rfl⟩ | ⟨deadline, rung, rfl, rfl⟩ | ht
  · obtain rfl := hb rfl
    simp only [pollPass, beginPass, takesUp, opens?]
    split
    · rename_i he
      have hnone : d.book.active = [] := List.isEmpty_iff.mp he
      refine ⟨[], .refl d, Or.inr (Or.inr ?_), .refl _ []⟩
      rw [hnone]
      exact ⟨rfl, .refl [], .refl _, fun _ => ⟨rfl, .refl _⟩⟩
    · obtain ⟨more, h⟩ := moves_awaitHashes_of_same hs (d.clock + d.settings.hashWait)
      exact ⟨more, h.does, Or.inr h.opens, h.upto⟩
  · obtain rfl := hb rfl
    simp only [pollPass, takesUp, opens?]
    split
    · obtain ⟨more, h⟩ := moves_awaitHashes_of_same hs deadline.due
      exact ⟨more, h.does, Or.inr h.opens, h.upto⟩
    · split
      · obtain ⟨more, h⟩ := carries_chargeAndAsk d (inquiries d.book.active).1
          (inquiries d.book.active).2
        exact ⟨more, h.does, Or.inr (Or.inr h.takes), h.upto⟩
      · exact ⟨[], .refl d, Or.inr (Or.inl ⟨_, _, rfl, rfl⟩), .refl _ []⟩
  · cases p with
    | querying queries report =>
      obtain ⟨more, h⟩ := carries_collect d report [] queries
      exact ⟨more, h.does, Or.inr (Or.inr (ht.append rfl h.takes)), h.upto⟩
    | ended result =>
      refine ⟨[], ?_, Or.inr (Or.inr ?_), .refl _ []⟩
      · change Does [] (Pass.ended result).overflow? d d
        rw [ho]
        exact .refl d
      · rw [List.append_nil]
        exact ht
    | _ => cases ht.hasAsked

end Desk
end SwapDesk
