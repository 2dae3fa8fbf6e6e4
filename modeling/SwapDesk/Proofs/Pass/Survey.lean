import SwapDesk.Proofs.Book.Standing
import SwapDesk.Proofs.Pass.Overflow
import SwapDesk.Proofs.Pass.Policy

/-! The report of a polling pass. The pass is followed here from one point at which it waits to the next,
as others may write to the book at every such point. Whatever they write, the pass does not count more
orders as settled than it has asked about or charged. -/
namespace SwapDesk

structure Answer where
  inquiry : Inquiry
  reply : Except Failure TransactionReply

def Answer.fails (a : Answer) : Bool :=
  match a.reply with
  | .error _ => true
  | .ok _ => false

/-- How far a pass is when its wait for hashes is over. -/
inductive SurveyStage
  | charging (left : List String) (ready : List Inquiry)
  | asking (unanswered : List Inquiry)
  /-- An answer was read, and its order is still to be changed. -/
  | settling (q : Inquiry) (read : Order) (word : Resolution) (unanswered : List Inquiry)
  | closed

structure Survey where
  book : Book
  report : PollReport
  stage : SurveyStage

namespace Survey

def begin (b : Book) (missing : List String) (ready : List Inquiry) : Survey :=
  ⟨b, { PollReport.empty with awaiting := missing.length }, .charging missing ready⟩

def enter (r : PollReport) (c : Change) (stage : SurveyStage) : Survey :=
  ⟨c.book, r.count c.outcome, stage⟩

/-- One step, and the answer that arrives at it. Answers arrive in any order. There is no step where the
pass breaks off. -/
inductive Step : Survey → List Answer → Survey → Prop
  | charge {b : Book} {r : PollReport} {id : String} {left : List String} {ready : List Inquiry}
      (now : Instant) (ho : (b.markNotFound now id).outcome.overflow? = none) :
      Step ⟨b, r, .charging (id :: left) ready⟩ [] (enter r (b.markNotFound now id) (.charging left ready))
  | ask {b : Book} {r : PollReport} {ready : List Inquiry} :
      Step ⟨b, r, .charging [] ready⟩ [] ⟨b, r, .asking ready⟩
  | fail {b : Book} {r : PollReport} {q : Inquiry} {before after : List Inquiry} (f : Failure) :
      Step ⟨b, r, .asking (before ++ q :: after)⟩ [⟨q, .error f⟩]
        ⟨b, { r with polled := r.polled + 1, errors := r.errors + 1 }, .asking (before ++ after)⟩
  | drop {b : Book} {r : PollReport} {q : Inquiry} {before after : List Inquiry}
      {reply : TransactionReply} (hd : ∀ o, ¬b.Resolves q o) :
      Step ⟨b, r, .asking (before ++ q :: after)⟩ [⟨q, .ok reply⟩]
        ⟨b, { r with polled := r.polled + 1 }, .asking (before ++ after)⟩
  | read {b : Book} {r : PollReport} {q : Inquiry} {before after : List Inquiry}
      {reply : TransactionReply} {o : Order} {word : Resolution} (hq : b.Resolves q o)
      (hw : reply.resolution (o.extraDecimal? "gasPrice") = .ok word) :
      Step ⟨b, r, .asking (before ++ q :: after)⟩ [⟨q, .ok reply⟩]
        ⟨b, { r with polled := r.polled + 1 }, .settling q o word (before ++ after)⟩
  | settle {b : Book} {r : PollReport} {q : Inquiry} {o : Order} {word : Resolution}
      {rest : List Inquiry} (now : Instant) (native : Option String)
      (ho : ((b.resolve now native q o word).getD (b.keep .unknown)).outcome.overflow? = none) :
      Step ⟨b, r, .settling q o word rest⟩ []
        (enter r ((b.resolve now native q o word).getD (b.keep .unknown)) (.asking rest))
  | close {b : Book} {r : PollReport} : Step ⟨b, r, .asking []⟩ [] ⟨b, r.close, .closed⟩

/-- Steps one after the other with all answers that arrive, while others write to the book as they may. -/
inductive Run (others : Book → Book → Prop) : Survey → List Answer → Survey → Prop
  | refl (s : Survey) : Run others s [] s
  | snoc {s e f : Survey} {heard more : List Answer} (h : Run others s heard e)
      (hstep : Step e more f) : Run others s (heard ++ more) f
  | other {s e : Survey} {heard : List Answer} {b : Book} (h : Run others s heard e)
      (ho : others e.book b) : Run others s heard { e with book := b }

/-- The others may write anything. -/
def anything (_ _ : Book) : Prop := True

/-- There are no others. -/
def nothing (_ _ : Book) : Prop := False

variable {others : Book → Book → Prop} {s e f : Survey} {heard more : List Answer} {b : Book}
  {missing : List String} {ready : List Inquiry} {r : PollReport}

theorem Run.trans (h : Run others s heard e) (h' : Run others e more f) :
    Run others s (heard ++ more) f := by
  induction h' with
  | refl => exact (List.append_nil heard).symm ▸ h
  | snoc _ hstep ih =>
    rw [← List.append_assoc]
    exact .snoc ih hstep
  | other _ ho ih => exact .other ih ho

theorem Step.run (h : Step s more e) : Run others s more e := .snoc (.refl s) h

/-! ### What is counted -/

theorem count_cases (r : PollReport) (outcome : Outcome) :
    r.count outcome = { r with filled := r.filled + 1 } ∨
      r.count outcome = { r with failed := r.failed + 1 } ∨ r.count outcome = r := by
  cases outcome with
  | applied source target => cases target <;> simp [PollReport.count]
  | _ => exact .inr (.inr rfl)

/-- An outcome settles one order at most, and nothing else is counted with it. -/
theorem settled_count (r : PollReport) (outcome : Outcome) :
    (r.count outcome).filled + (r.count outcome).failed ≤ r.filled + r.failed + 1 ∧
      (r.count outcome).polled = r.polled ∧ (r.count outcome).errors = r.errors ∧
      (r.count outcome).awaiting = r.awaiting := by
  rcases count_cases r outcome with hc | hc | hc
  · simp [hc, Nat.add_right_comm]
  · simp [hc, Nat.add_assoc]
  · simp [hc]

/-- The questions that are not answered yet. -/
def unanswered (s : Survey) : List Inquiry :=
  match s.stage with
  | .charging _ ready => ready
  | .asking rest => rest
  | .settling _ _ _ rest => rest
  | .closed => []

/-- How many orders are charged or asked about already, and not settled yet. -/
def owed (s : Survey) : Nat :=
  match s.stage with
  | .charging left _ => left.length
  | .settling .. => 1
  | _ => 0

/-- What the report says whatever others write to the book. -/
structure Counts (missing : List String) (ready : List Inquiry) (heard : List Answer) (s : Survey) :
    Prop where
  answers : (heard.map (·.inquiry) ++ s.unanswered).Perm ready
  polled : s.report.polled = heard.length
  errors : s.report.errors = heard.countP Answer.fails
  awaiting : s.report.awaiting = missing.length
  settled : s.report.filled + s.report.failed + s.owed ≤ s.report.polled + s.report.awaiting
  pending : s.stage = .closed →
    s.report.pending + s.report.filled + s.report.failed = s.report.polled + s.report.awaiting

/-- An answer arrives. -/
theorem Counts.hear {before after : List Inquiry} {a : Answer}
    (h : Counts missing ready heard ⟨b, r, .asking (before ++ a.inquiry :: after)⟩)
    (hstage : e.unanswered = before ++ after ∧ e.owed ≤ 1 ∧ e.stage ≠ .closed)
    (hr : e.report = { r with polled := r.polled + 1, errors := r.errors + a.fails.toNat }) :
    Counts missing ready (heard ++ [a]) e := by
  obtain ⟨hanswers, hpolled, herrors, hawaiting, hsettled, _⟩ := h
  obtain ⟨hrest, howed, hopen⟩ := hstage
  refine ⟨?_, ?_, ?_, hr ▸ hawaiting, ?_, fun hc => absurd hc hopen⟩
  · rw [hrest, List.map_append, List.append_assoc]
    have hmiddle : (a.inquiry :: (before ++ after)).Perm (before ++ a.inquiry :: after) :=
      List.perm_middle.symm
    exact (hmiddle.append_left (heard.map (·.inquiry))).trans hanswers
  · rw [hr, List.length_append]
    exact congrArg (· + 1) hpolled
  · rw [hr, List.countP_append]
    cases hf : a.fails with
    | false => simpa [hf] using herrors
    | true => simpa [hf] using herrors
  · simp only [owed] at hsettled
    simp only [hr]
    omega

theorem Counts.step (h : Counts missing ready heard s) (hstep : Step s more e) :
    Counts missing ready (heard ++ more) e := by
  have ⟨hanswers, hpolled, herrors, hawaiting, hsettled, _⟩ := h
  cases hstep with
  | @charge b r id left _ now _ =>
    obtain ⟨hone, hp, he, hw⟩ := settled_count r (b.markNotFound now id).outcome
    rw [List.append_nil]
    refine ⟨hanswers, hp.trans hpolled, he.trans herrors, hw.trans hawaiting, ?_, nofun⟩
    simp only [enter, owed, List.length_cons] at hsettled ⊢
    omega
  | ask =>
    rw [List.append_nil]
    exact ⟨hanswers, hpolled, herrors, hawaiting, hsettled, nofun⟩
  | fail g => exact h.hear ⟨rfl, Nat.zero_le 1, nofun⟩ rfl
  | drop hd => exact h.hear ⟨rfl, Nat.zero_le 1, nofun⟩ rfl
  | read hq hw => exact h.hear ⟨rfl, Nat.le_refl 1, nofun⟩ rfl
  | @settle b r q o word _ now native _ =>
    obtain ⟨hone, hp, he, hw⟩ :=
      settled_count r ((b.resolve now native q o word).getD (b.keep .unknown)).outcome
    rw [List.append_nil]
    refine ⟨hanswers, hp.trans hpolled, he.trans herrors, hw.trans hawaiting, ?_, nofun⟩
    simp only [enter, owed] at hsettled ⊢
    omega
  | close =>
    rw [List.append_nil]
    refine ⟨hanswers, hpolled, herrors, hawaiting, hsettled, fun _ => ?_⟩
    simp only [PollReport.close, owed] at hsettled ⊢
    omega

theorem Run.counts (h : Run others (.begin b missing ready) heard s) :
    Counts missing ready heard s := by
  induction h with
  | refl => exact ⟨.refl ready, rfl, rfl, rfl, by simp [begin, owed, PollReport.empty], nofun⟩
  | snoc _ hstep ih => exact ih.step hstep
  | other _ _ ih => exact ⟨ih.answers, ih.polled, ih.errors, ih.awaiting, ih.settled, ih.pending⟩

end Survey

/-! ### What becomes of the orders -/

namespace Book

variable {b : Book} {id : String} {o p : Order} {now : Instant} {native : Option String} {q : Inquiry}
  {c : Change}

theorem mem_activeIds (hs : IndexSound b) :
    id ∈ b.active.map (·.id) ↔ b.isActive id = true := by
  simp only [List.mem_map, mem_active, isActive_iff]
  constructor
  · rintro ⟨o, ⟨⟨k, hk⟩, ha⟩, rfl⟩
    obtain rfl : o.id = k := hs.keyed hk
    exact ⟨o, hk, ha⟩
  · rintro ⟨o, ho, ha⟩
    exact ⟨o, ⟨⟨id, ho⟩, ha⟩, hs.keyed ho⟩

/-- What becomes of an order that was active. -/
inductive Ending
  | filled
  | failed
  | active
deriving DecidableEq

namespace Ending

def shows (b : Book) (id : String) : Ending → Bool
  | filled => b.standsAt id .filled
  | failed => b.standsAt id .failed
  | active => b.isActive id

def count (r : PollReport) : Ending → PollReport
  | filled => { r with filled := r.filled + 1 }
  | failed => { r with failed := r.failed + 1 }
  | active => r

/-- An order is found at one ending only. -/
theorem shows_iff {x y : Ending} (h : x.shows b id = true) : y.shows b id = true ↔ x = y := by
  refine ⟨fun h' => ?_, fun he => he ▸ h⟩
  cases hf : b.find? id with
  | none => cases x <;> simp [shows, standsAt, isActive, hf] at h
  | some o => cases x <;> cases y <;> simp_all [shows, standsAt, isActive, OrderState.isActive,
      OrderState.isTerminal]

end Ending

/-- The change of the book brings its one order to this ending, and the report counts it. -/
structure Brings (b : Book) (id : String) (c : Change) (x : Ending) : Prop where
  touches : Touches id b c.book
  shows : x.shows c.book id = true
  counted : ∀ r : PollReport, r.count c.outcome = x.count r

theorem brings_keep (ha : b.isActive id = true) : Brings b id (b.keep .unknown) .active :=
  ⟨.inl rfl, ha, fun _ => rfl⟩

/-- A report is counted, and the order lapses at the limit. -/
theorem brings_doubt {d : Doubt} (ha : b.isActive id = true)
    (hgo : (b.doubt now id d).outcome.overflow? = none) : ∃ x, Brings b id (b.doubt now id d) x := by
  obtain ⟨p, hp, hopen⟩ := isActive_iff.mp ha
  have hd := doubts b now id d
  have htouches := touches_doubt b now id d
  generalize b.doubt now id d = c at hd hgo htouches
  cases hd with
  | lapses => exact ⟨.failed, htouches, standsAt_iff.mpr ⟨_, find?_put_self, rfl⟩, fun _ => rfl⟩
  | @counts o _ ha' =>
    have hstill : (d.raise o).state.isTerminal = false := by
      cases d <;> exact ha'
    exact ⟨.active, htouches, isActive_iff.mpr ⟨_, find?_put_self, hstill⟩, fun _ => rfl⟩
  | sticks => cases hgo
  | late hl =>
    cases hl with
    | unknown hn => cases hn.symm.trans hp
    | terminal ho ht =>
      cases ho.symm.trans hp
      cases ht.symm.trans hopen

/-- The word about its transaction settles an active order or keeps it. Nobody has written to it since it
was read. -/
theorem brings_resolve {word : Resolution} (ho : b.find? q.order = some o) (hh : o.txHash = some q.hash)
    (ha : b.isActive q.order = true)
    (hgo : ((b.resolve now native q o word).getD (b.keep .unknown)).outcome.overflow? = none) :
    ∃ x, Brings b q.order ((b.resolve now native q o word).getD (b.keep .unknown)) x := by
  cases word with
  | filled fee =>
    obtain ⟨p, hp, hopen⟩ := isActive_iff.mp ha
    obtain rfl : p = o := Option.some.inj (hp.symm.trans ho)
    rw [resolve_filled ho hh hopen]
    exact ⟨.filled, .inr ⟨p, _, ho, rfl, rfl, rfl⟩, standsAt_iff.mpr ⟨_, find?_put_self, rfl⟩,
      fun _ => rfl⟩
  | ambiguous => exact brings_doubt (d := .stall) ha hgo
  | notFound => exact brings_doubt (d := .miss) ha hgo
  | awaitingReceipt => exact ⟨.active, brings_keep ha⟩

end Book

namespace Survey
open Book

variable {s e : Survey} {heard more : List Answer} {b b' : Book} {ready : List Inquiry}
  {r : PollReport} {c : Change} {ends : List (String × Ending)} {id : String}

/-- The orders whose turn is still to come. -/
def unsettled (s : Survey) : List String :=
  match s.stage with
  | .charging left ready => left ++ ready.map (·.order)
  | .asking rest => rest.map (·.order)
  | .settling q _ _ rest => q.order :: rest.map (·.order)
  | .closed => []

/-- What was read of an order still holds. -/
def Holds (s : Survey) : Prop :=
  match s.stage with
  | .settling q o _ _ => s.book.find? q.order = some o ∧ o.txHash = some q.hash
  | _ => True

/-- The orders that were active in the book `b` are those that had their turn, with what became of each,
and those whose turn is still to come. No other order has changed. -/
structure Sorts (b : Book) (s : Survey) (ends : List (String × Ending)) : Prop where
  sound : IndexSound s.book
  all : (ends.map (·.1) ++ s.unsettled).Perm (b.active.map (·.id))
  shows : ∀ x ∈ ends, x.2.shows s.book x.1 = true
  filled : s.report.filled = ends.countP (·.2 = .filled)
  failed : s.report.failed = ends.countP (·.2 = .failed)
  same : ∀ id, id ∉ ends.map (·.1) → s.book.find? id = b.find? id
  holds : s.Holds

theorem Sorts.notMem (h : Sorts b s ends) (hs : IndexSound b) (hid : id ∈ s.unsettled) :
    id ∉ ends.map (·.1) := by
  have hall : (ends.map (·.1) ++ s.unsettled).Nodup := h.all.nodup_iff.mpr (nodup_active hs)
  intro hin
  exact (List.nodup_append.mp hall).2.2 id hin id hid rfl

theorem Sorts.isActive (h : Sorts b s ends) (hs : IndexSound b) (hid : id ∈ s.unsettled) :
    s.book.isActive id = true := by
  have hfirst : b.isActive id = true :=
    (mem_activeIds hs).mp (h.all.mem_iff.mp (List.mem_append_right _ hid))
  rw [Book.isActive, h.same id (h.notMem hs hid)]
  exact hfirst

theorem shows_congr {b b' : Book} {x : Ending} (h : b'.find? id = b.find? id) :
    x.shows b' id = x.shows b id := by
  cases x <;> simp only [Ending.shows, standsAt, Book.isActive, h]

/-- An order has its turn. -/
theorem Sorts.settle {x : Ending} (h : Sorts b s ends) (hs : IndexSound b)
    (hid : s.unsettled.Perm (id :: e.unsettled)) (hx : Brings s.book id c x)
    (hb : e.book = c.book) (hfilled : e.report.filled = (s.report.count c.outcome).filled)
    (hfailed : e.report.failed = (s.report.count c.outcome).failed) (hh : e.Holds) :
    Sorts b e ((id, x) :: ends) := by
  have hall : (((id, x) :: ends).map (·.1) ++ e.unsettled).Perm (ends.map (·.1) ++ s.unsettled) :=
    List.perm_middle.symm.trans (hid.symm.append_left _)
  have hout : id ∉ ends.map (·.1) := h.notMem hs (hid.mem_iff.mpr List.mem_cons_self)
  have hother : ∀ other, other ≠ id → e.book.find? other = s.book.find? other := by
    intro other hne
    rw [hb]
    exact hx.touches.find?_ne hne
  refine ⟨hb ▸ indexSound_touches h.sound hx.touches, hall.trans h.all, ?_, ?_, ?_, ?_, hh⟩
  · intro y hy
    rcases List.mem_cons.mp hy with rfl | hy
    · rw [hb]
      exact hx.shows
    · have hne : y.1 ≠ id := fun he => hout (he ▸ List.mem_map_of_mem hy)
      rw [shows_congr (hother y.1 hne)]
      exact h.shows y hy
  · rw [hfilled, hx.counted, List.countP_cons, ← h.filled]
    cases x <;> rfl
  · rw [hfailed, hx.counted, List.countP_cons, ← h.failed]
    cases x <;> rfl
  · intro other hnot
    obtain ⟨hne, hrest⟩ := not_or.mp (List.mem_cons.not.mp hnot)
    exact (hother other hne).trans (h.same other hrest)

theorem perm_orders (before after : List Inquiry) (q : Inquiry) :
    ((before ++ q :: after).map (·.order)).Perm (q.order :: (before ++ after).map (·.order)) :=
  List.Perm.map Inquiry.order List.perm_middle

/-- The order of an answer that comes to nothing has had its turn. -/
theorem Sorts.pass {before after : List Inquiry} {q : Inquiry} {r' : PollReport}
    (h : Sorts b ⟨b', r, .asking (before ++ q :: after)⟩ ends) (hs : IndexSound b)
    (hfilled : r'.filled = r.filled) (hfailed : r'.failed = r.failed) :
    Sorts b ⟨b', r', .asking (before ++ after)⟩ ((q.order, .active) :: ends) := by
  have hid := perm_orders before after q
  have ha : b'.isActive q.order = true := h.isActive hs (hid.mem_iff.mpr List.mem_cons_self)
  exact h.settle (c := b'.keep .unknown) hs hid (brings_keep ha) rfl hfilled hfailed trivial

/-- A step at which nobody else writes to the book. -/
theorem Sorts.step (h : Sorts b s ends) (hs : IndexSound b) (hstep : Step s more e) :
    ∃ ends', Sorts b e ends' := by
  cases hstep with
  | @charge b' r id left ready now ho =>
    obtain ⟨x, hx⟩ := brings_doubt (d := .miss) (h.isActive hs List.mem_cons_self) ho
    exact ⟨_, h.settle hs (.refl _) hx rfl rfl rfl trivial⟩
  | ask => exact ⟨ends, h.sound, h.all, h.shows, h.filled, h.failed, h.same, trivial⟩
  | fail g => exact ⟨_, h.pass hs rfl rfl⟩
  | drop hd => exact ⟨_, h.pass hs rfl rfl⟩
  | @read b' r q before after reply o word hq hw =>
    obtain ⟨hh, ho⟩ := txHash_of_findByHash? h.sound hq.1
    rw [hq.2] at ho
    have hid := perm_orders before after q
    exact ⟨ends, h.sound, (hid.symm.append_left _).trans h.all, h.shows, h.filled, h.failed, h.same,
      ho, hh⟩
  | @settle b' r q o word rest now native hgo =>
    have ⟨ho, hh⟩ := h.holds
    have ha : b'.isActive q.order = true := h.isActive hs List.mem_cons_self
    obtain ⟨x, hx⟩ := brings_resolve ho hh ha hgo
    exact ⟨_, h.settle hs (.refl _) hx rfl rfl rfl trivial⟩
  | close => exact ⟨ends, h.sound, h.all, h.shows, h.filled, h.failed, h.same, trivial⟩

theorem Run.sorts (h : Run nothing (.begin b (inquiries b.active).2 (inquiries b.active).1) heard s)
    (hs : IndexSound b) : ∃ ends, Sorts b s ends := by
  induction h with
  | refl =>
    exact ⟨[], hs, inquiries_perm b.active, nofun, rfl, rfl, fun _ _ => rfl, trivial⟩
  | snoc _ hstep ih =>
    obtain ⟨ends, hsorts⟩ := ih
    exact hsorts.step hs hstep
  | other _ ho _ => exact ho.elim

end Survey

/-! ### The report -/

/-- The report tells what became of the orders from the book `b`, on which the pass began, to the book
`b'`. -/
structure PollReport.Tells (b b' : Book) (heard : List Answer) (r : PollReport) : Prop where
  asked : r.polled + r.awaiting = b.active.length
  filled : r.filled = b.active.countP fun o => b'.standsAt o.id .filled
  failed : r.failed = b.active.countP fun o => b'.standsAt o.id .failed
  errors : r.errors = heard.countP Answer.fails
  pending : r.pending = b'.active.length

namespace Survey
open Book

variable {s : Survey} {heard : List Answer} {b : Book} {ends : List (String × Ending)}

/-- As many orders are found at an ending as were brought to it. -/
theorem Sorts.countP_shows (h : Sorts b s ends) (hs : s.stage = .closed) (x : Ending) :
    b.active.countP (fun o => x.shows s.book o.id) = ends.countP (·.2 = x) := by
  have hall : (ends.map (·.1)).Perm (b.active.map (·.id)) := by
    have hall := h.all
    simp only [unsettled, hs, List.append_nil] at hall
    exact hall
  have hactive := hall.countP_eq (x.shows s.book)
  rw [List.countP_map, List.countP_map] at hactive
  refine hactive.symm.trans (List.countP_congr fun y hy => ?_)
  simp [Ending.shows_iff (h.shows y hy)]

/-- Nobody becomes active during the pass. -/
theorem Sorts.countP_active (h : Sorts b s ends) (hs : IndexSound b) :
    b.active.countP (fun o => s.book.isActive o.id) = s.book.active.length := by
  have hperm : ((b.active.map (·.id)).filter s.book.isActive).Perm (s.book.active.map (·.id)) := by
    rw [List.perm_ext_iff_of_nodup ((nodup_active hs).filter _) (nodup_active h.sound)]
    intro id
    rw [List.mem_filter, mem_activeIds h.sound, and_iff_right_iff_imp]
    intro ha
    by_cases hin : id ∈ ends.map (·.1)
    · exact h.all.mem_iff.mp (List.mem_append_left _ hin)
    · rw [Book.isActive, h.same id hin] at ha
      exact (mem_activeIds hs).mpr ha
  have hlength := hperm.length_eq
  rw [List.length_map, ← List.countP_eq_length_filter, List.countP_map] at hlength
  exact hlength

theorem length_ends (ends : List (String × Ending)) :
    ends.countP (·.2 = .filled) + ends.countP (·.2 = .failed) + ends.countP (·.2 = .active) =
      ends.length := by
  induction ends with
  | nil => rfl
  | cons x rest ih =>
    obtain ⟨id, x⟩ := x
    cases x <;> simp <;> omega

/-- If nobody else writes to the book, the report of a pass tells what became of the orders. -/
theorem Run.tells {missing : List String} {ready : List Inquiry}
    (hstart : inquiries b.active = (ready, missing)) (hs : IndexSound b)
    (h : Run nothing (.begin b missing ready) heard s) (hc : s.stage = .closed) :
    s.report.Tells b s.book heard := by
  obtain ⟨rfl, rfl⟩ : (inquiries b.active).1 = ready ∧ (inquiries b.active).2 = missing := by
    simp [hstart]
  obtain ⟨ends, hsorts⟩ := h.sorts hs
  have hcounts := h.counts
  have hshows := hsorts.countP_shows hc
  have hactive := (hsorts.countP_active hs).symm.trans (hshows .active)
  have hall := (inquiries_perm b.active).length_eq
  have hanswers := hcounts.answers.length_eq
  have hends := hsorts.all.length_eq
  have hpending := hcounts.pending hc
  have hpolled := hcounts.polled
  have hawaiting := hcounts.awaiting
  have hfilled := hsorts.filled
  have hfailed := hsorts.failed
  have hlength := length_ends ends
  simp only [unanswered, unsettled, hc, List.append_nil, List.length_append, List.length_map]
    at hall hanswers hends
  refine ⟨by omega, hfilled.trans (hshows .filled).symm, hfailed.trans (hshows .failed).symm,
    hcounts.errors, by omega⟩

end Survey
end SwapDesk
