import SwapDesk.Proofs.Desk.Frame
import SwapDesk.Proofs.Pass.Course

/-! Pieces of work at which a pass breaks off: an answer with a fee that cannot be represented, and a charge
or an answer that cannot be counted any more. Such a piece breaks off the pass in which it is taken, with all
that was still to come in it, and the loop ends with the pass. As long as there is none, all that arrives is
taken and the loop goes on. -/
namespace SwapDesk

variable {b b' b'' : Book} {x : Piece} {xs ys : List Piece} {d : Desk} {p : Pass}
  {report : PollReport} {native : Option String} {now : Instant} {work more : List (Instant × Piece)}
  {events : List Event} {r : Option Overflow} {cause : Overflow}

namespace Book

/-- The pieces are carried out one after the other, each at its own time, and none of them breaks off. -/
inductive Carried : Book → List Piece → Book → Prop
  | nil (b : Book) : Carried b [] b
  | cons {b b' : Book} {native : Option String} {now : Instant} {x : Piece} {xs : List Piece}
      (ho : (b.change native (now, x)).outcome.overflow? = none)
      (h : Carried (b.change native (now, x)).book xs b') : Carried b (x :: xs) b'

theorem Carried.append (h : Carried b xs b') (h' : Carried b' ys b'') :
    Carried b (xs ++ ys) b'' := by
  induction h with
  | nil => exact h'
  | cons ho _ ih => exact .cons ho (ih h')

theorem Carried.indexSound (h : Carried b xs b') (hs : IndexSound b) : IndexSound b' := by
  induction h with
  | nil => exact hs
  | cons _ _ ih => exact ih (indexSound_change hs _ _)

/-- Whether a pass breaks off at a piece depends on the order that it is about. -/
theorem fits_congr (hs : IndexSound b) (hs' : IndexSound b') (h : SameFor x.order b b') :
    x.Fits b ↔ x.Fits b' := by
  have hagree := agree_change hs hs' h none .epoch .epoch
  rw [← fits_iff hs none .epoch, ← fits_iff hs' none .epoch, hagree.overflow]

theorem fits_change_iff (hs : IndexSound b) (w : Instant × Piece) (hne : x.order ≠ w.2.order) :
    x.Fits (b.change native w).book ↔ x.Fits b :=
  fits_congr (indexSound_change hs native w) hs ((concerns_change hs native w).touches.sameFor hne)

/-- Pieces that are about different orders are carried out only if the book had room for each of them at
the beginning. -/
theorem Carried.fits (h : Carried b xs b') (hs : IndexSound b) (honce : (xs.map Piece.order).Nodup) :
    ∀ x ∈ xs, x.Fits b := by
  induction h with
  | nil => simp
  | @cons b b' native now x xs ho _ ih =>
    obtain ⟨hout, hrest⟩ := List.nodup_cons.mp honce
    have hlater := ih (indexSound_change hs native (now, x)) hrest
    refine List.forall_mem_cons.mpr ⟨(fits_iff hs native now x).mp ho, fun y hy => ?_⟩
    have hne : y.order ≠ x.order := fun he => hout (he ▸ List.mem_map_of_mem hy)
    exact (fits_change_iff hs (now, x) hne).mp (hlater y hy)

/-- Pieces about other orders do not help one that breaks off. -/
theorem Carried.fits_of_fits (h : Carried b ys b') (hs : IndexSound b)
    (hout : x.order ∉ ys.map Piece.order) (hf : x.Fits b) : x.Fits b' := by
  induction h with
  | nil => exact hf
  | @cons b b' native now y ys _ _ ih =>
    obtain ⟨hne, hrest⟩ := not_or.mp (List.mem_cons.not.mp hout)
    exact ih (indexSound_change hs native (now, y)) hrest ((fits_change_iff hs (now, y) hne).mpr hf)

theorem Worked.carried (h : Worked native b work events none b') :
    Carried b (work.map Prod.snd) b' := by
  generalize hr : (none : Option Overflow) = r at h
  induction h with
  | nil => exact .nil _
  | cons ho _ ih => exact .cons ho (ih hr)
  | last => cases hr

/-- Work that is broken off is carried out up to its last piece. -/
theorem Worked.broken (h : Worked native b work events (some cause) b') (hs : IndexSound b) :
    ∃ ys x b₁, work.map Prod.snd = ys ++ [x] ∧ Carried b ys b₁ ∧ ¬ x.Fits b₁ := by
  generalize hr : some cause = r at h
  induction h with
  | nil => cases hr
  | @cons b b' w work events r ho _ ih =>
    obtain ⟨ys, x, b₁, hwork, hcarried, hf⟩ := ih (indexSound_change hs native w) hr
    exact ⟨w.2 :: ys, x, b₁, congrArg (w.2 :: ·) hwork, .cons ho hcarried, hf⟩
  | @last b w cause' ho =>
    refine ⟨[], w.2, b, rfl, .nil b, ?_⟩
    rw [← fits_iff hs native w.1, ho]
    exact Option.some_ne_none cause'

end Book

open Book

/-- The pieces on the book came to this: all of them were carried out, or only those before one that has no
room, and there the pass is broken off. -/
inductive Settles (b : Book) (xs done : List Piece) (b' : Book) (p : Pass) : Prop
  | carried (hall : done = xs) (h : Carried b xs b') (ho : p.overflow? = none)
  | broken {ys : List Piece} {x : Piece} {b₁ : Book} (hdone : done = ys ++ [x]) (hx : x ∈ xs)
      (h : Carried b ys b₁) (hf : ¬ x.Fits b₁) (ho : p.overflows = true)

theorem Settles.overflows_iff {done : List Piece} (h : Settles b xs done b' p) (hs : IndexSound b)
    (honce : (done.map Piece.order).Nodup) :
    p.overflows = true ↔ ∃ x ∈ xs, ¬ x.Fits b := by
  cases h with
  | carried hall hc ho =>
    have hfit := hc.fits hs (hall ▸ honce)
    simp only [Pass.overflow?_eq_none.mp ho, Bool.false_eq_true, false_iff, not_exists, not_and,
      not_not]
    exact hfit
  | @broken ys x b₁ hdone hx hc hf ho =>
    rw [hdone, List.map_append, List.nodup_append] at honce
    have hout : x.order ∉ ys.map Piece.order := fun hmem =>
      honce.2.2 _ hmem _ (List.mem_singleton_self x.order) rfl
    exact ⟨fun _ => ⟨x, hx, fun hfit => hf (hc.fits_of_fits hs hout hfit)⟩, fun _ => ho⟩

namespace Desk

theorem clock_answer {q : Inquiry} {reply : Except Failure TransactionReply}
    {next : Desk × PollReport} (h : d.answer report q reply = .ok next) :
    next.1.clock = d.clock := by
  obtain ⟨t, _, rfl⟩ := answered_of_answer h
  obtain ⟨feed, loop, errand, ht⟩ := d.exists_takeTally t
  rw [ht]

/-- A turn of a pass carries out all that there is to do, or is broken off in it. -/
theorem settles_pollPass (hs : IndexSound b) (hc : Carried b xs d.book) (hstage : Stage b work p)
    (hall : work.map Prod.snd = xs) (ho : p.overflow? = none) :
    ∃ more, Stage b (work ++ more) (d.pollPass p).2 ∧
      Settles b (xs ++ d.takesUp p) ((work ++ more).map Prod.snd) (d.pollPass p).1.book
        (d.pollPass p).2 := by
  have hbook : work = [] → d.book = b := by
    rintro rfl
    obtain rfl : [] = xs := hall
    cases hc
    rfl
  obtain ⟨more, hdoes, hstage', hupto⟩ := stage_pollPass hs hstage ho hbook
  obtain ⟨events, hworked, _⟩ := hdoes.worked
  refine ⟨more, hstage', ?_⟩
  generalize hr : (d.pollPass p).2.overflow? = r at hworked hupto
  rw [List.map_append, hall]
  cases r with
  | none =>
    rw [← hupto.2 rfl]
    exact .carried rfl (hc.append hworked.carried) hr
  | some cause =>
    obtain ⟨ys, x, b₁, hmore, hcarried, hf⟩ := hworked.broken (hc.indexSound hs)
    have hx : x ∈ more.map Prod.snd := by
      rw [hmore]
      exact List.mem_append_right ys (List.mem_singleton_self x)
    have hdone : xs ++ more.map Prod.snd = (xs ++ ys) ++ [x] := by
      rw [hmore, List.append_assoc]
    refine .broken hdone (List.mem_append_right xs (hupto.1.subset hx)) (hc.append hcarried) hf ?_
    cases hp : (d.pollPass p).2.overflows with
    | true => rfl
    | false => cases hr.symm.trans (Pass.overflow?_eq_none.mpr hp)

end Desk

/-- A pass that began on the book and has taken up these pieces. It goes on at its turns; in between
anything may happen that leaves the book alone. -/
inductive Offered (b : Book) : List Piece → Desk → Pass → Prop
  | begin {d : Desk} (hb : d.book = b) : Offered b [] d .fresh
  | turn {xs : List Piece} {d : Desk} {p : Pass} (h : Offered b xs d p) :
      Offered b (xs ++ d.takesUp p) (d.pollPass p).1 (d.pollPass p).2
  | meanwhile {xs : List Piece} {d d' : Desk} {p : Pass} (h : Offered b xs d p)
      (hb : d'.book = d.book) : Offered b xs d' p

theorem takesUp_of_overflows (d : Desk) (h : p.overflows = true) :
    d.takesUp p = [] ∧ d.pollPass p = (d, p) := by
  cases p with
  | ended result => exact ⟨rfl, rfl⟩
  | _ => cases h

theorem Offered.settles (h : Offered b xs d p) (hs : IndexSound b) :
    ∃ work, Stage b work p ∧ Settles b xs (work.map Prod.snd) d.book p := by
  induction h with
  | begin hb => exact ⟨[], .inl ⟨rfl, rfl⟩, .carried rfl (hb ▸ .nil _) rfl⟩
  | @turn xs d p _ ih =>
    obtain ⟨work, hstage, hsettles⟩ := ih
    cases hsettles with
    | carried hall hc ho =>
      obtain ⟨more, hstage', hsettles⟩ := Desk.settles_pollPass hs hc hstage hall ho
      exact ⟨work ++ more, hstage', hsettles⟩
    | broken hdone hx hc hf ho =>
      obtain ⟨hnone, hstay⟩ := takesUp_of_overflows d ho
      rw [hnone, List.append_nil, hstay]
      exact ⟨work, hstage, .broken hdone hx hc hf ho⟩
  | meanwhile _ hb ih =>
    obtain ⟨work, hstage, hsettles⟩ := ih
    exact ⟨work, hstage, hb ▸ hsettles⟩

theorem Offered.overflows_iff (h : Offered b xs d p) (hs : IndexSound b) :
    p.overflows = true ↔ ∃ x ∈ xs, ¬ x.Fits b := by
  obtain ⟨work, hstage, hsettles⟩ := h.settles hs
  exact hsettles.overflows_iff hs (hstage.passWork hs).once

theorem Offered.carried (h : Offered b xs d p) (hs : IndexSound b) (ho : p.overflows = false) :
    Carried b xs d.book := by
  obtain ⟨work, _, hsettles⟩ := h.settles hs
  cases hsettles with
  | carried _ hc _ => exact hc
  | broken _ _ _ _ ho' => simp [ho] at ho'

/-- How far a pass is. -/
def Pass.phase : Pass → Nat
  | fresh => 0
  | awaiting .. => 1
  | querying .. => 2
  | ended _ => 3

theorem Pass.two_le_phase (h : p.hasAsked = true) : 2 ≤ p.phase := by
  cases p with
  | querying queries report => exact Nat.le_refl 2
  | ended result => exact Nat.le_succ 2
  | _ => cases h

namespace Desk

theorem two_le_phase_chargeAndAsk (d : Desk) (ready : List Inquiry) (missing : List String) :
    2 ≤ (d.chargeAndAsk ready missing).2.phase := by
  obtain ⟨work, h⟩ := carries_chargeAndAsk d ready missing
  exact Pass.two_le_phase h.takes.hasAsked

theorem phase_awaitHashes (d : Desk) (ready : List Inquiry) (missing : List String) (due : Nat) :
    1 ≤ (d.awaitHashes ready missing due).2.phase ∧
      (due ≤ d.clock → 2 ≤ (d.awaitHashes ready missing due).2.phase) := by
  rcases d.awaitHashes_cases ready missing due with ⟨ready', missing', _, _, _, ha⟩ | ⟨_, hlt, ha⟩
  · have h := d.two_le_phase_chargeAndAsk ready' missing'
    rw [ha]
    exact ⟨Nat.le_of_succ_le h, fun _ => h⟩
  · rw [ha]
    exact ⟨Nat.le_refl 1, fun hle => (Nat.not_le_of_lt hlt hle).elim⟩

theorem isOver_collect (report : PollReport) {queries : List Query}
    (h : ∀ q ∈ queries, d.isPast q.arrival.alarm = true) :
    (d.collect report [] queries).2.isOver = true := by
  induction queries generalizing d report with
  | nil => rfl
  | cons q rest ih =>
    have hpast := h q List.mem_cons_self
    unfold collect
    rw [if_pos hpast]
    cases ha : d.answer report q.inquiry q.arrival.reply with
    | error cause => rfl
    | ok next =>
      have hclock := clock_answer ha
      apply ih
      intro r hr
      simpa only [isPast, hclock] using h r (List.mem_cons_of_mem q hr)

/-- A turn at which everything that a pass waits for has come gets the pass on. -/
theorem phase_lt_pollPass (h : p.isOver = false)
    (ha : ∀ a ∈ passAlarms p, d.isPast a = true) : p.phase < (d.pollPass p).2.phase := by
  cases p with
  | fresh =>
    simp only [pollPass, beginPass]
    split
    · exact Nat.zero_lt_succ 2
    · exact (d.phase_awaitHashes _ _ _).1
  | awaiting ready missing deadline rung =>
    have hpast : d.isPast deadline = true := ha deadline (List.mem_singleton_self deadline)
    simp only [pollPass, hpast, if_true]
    split
    · exact (d.phase_awaitHashes ready missing deadline.due).2 (of_decide_eq_true hpast)
    · exact d.two_le_phase_chargeAndAsk ready missing
  | querying queries report =>
    have hover : (d.collect report [] queries).2.isOver = true := by
      apply isOver_collect
      intro q hq
      exact ha q.arrival.alarm (List.mem_map_of_mem hq)
    change 2 < (d.collect report [] queries).2.phase
    cases hp : (d.collect report [] queries).2 with
    | ended result => exact Nat.lt_succ_self 2
    | _ => simp [hp, Pass.isOver] at hover
  | ended result => cases h

/-- The pass of a cycle decides on the loop: the loop ends with a pass that is broken off, and after any
other turn the cycle is not over yet, or the loop waits for the next one. -/
theorem pollCycle_cases (t : Tick) (v : Visit) (p : Pass) (hg : d.shutdown.isGiven = false) :
    let turn := (d.pollVisit .loop v).1.pollPass p
    (turn.2.overflows = true ∧ (d.pollCycle t v p).loop = some .ended) ∨
    turn.2.overflows = false ∧ (d.pollCycle t v p).book = turn.1.book ∧
      ((∃ v', (d.pollCycle t v p).loop = some (.cycle t v' turn.2)) ∨
        (d.pollCycle t v p).loop = some (.idle t .closed)) := by
  intro turn
  have hturn : (d.pollVisit .loop v).1.pollPass p = turn := rfl
  simp only [pollCycle, hg, Bool.false_eq_true, if_false, hturn]
  clear_value turn
  obtain ⟨d', p'⟩ := turn
  cases p' with
  | ended result =>
    cases result with
    | error cause => exact Or.inl ⟨rfl, rfl⟩
    | ok report =>
      refine Or.inr ⟨rfl, ?_⟩
      dsimp only
      split
      · exact ⟨rfl, Or.inr rfl⟩
      · exact ⟨rfl, Or.inl ⟨_, rfl⟩⟩
  | _ => exact Or.inr ⟨rfl, rfl, Or.inl ⟨_, rfl⟩⟩

theorem pollIdle_of_due {t : Tick} (ear : Ear) (hg : d.shutdown.isGiven = false)
    (hdue : t.due ≤ d.clock) :
    (d.pollIdle t ear).book = d.book ∧
      ∃ t', (d.pollIdle t ear).loop = some (.cycle t' (.start (.pass false)) .fresh) := by
  unfold pollIdle
  simp only [hg, Bool.false_eq_true, if_false]
  split
  · exact ⟨rfl, t, rfl⟩
  · split
    · exact ⟨rfl, t, rfl⟩
    · exact ⟨rfl, d.nextTick t, rfl⟩

end Desk

/-- A polling pass is broken off exactly if the book had no room for one of the pieces that it has taken up:
an answer with a fee that cannot be represented, or a report on an order that cannot be counted any more.
Otherwise all that it has taken up was carried out, and a turn at which everything that it waits for has come
gets it on. The loop ends with a pass that is broken off; else it goes on with
the cycle or waits for the next one, which it begins when the tick is due. -/
theorem pass_breaks_off_iff (hb : Reachable b) (h : Offered b xs d p) :
    (p.overflows = true ↔ ∃ x ∈ xs, ¬ x.Fits b) ∧
    (p.overflows = false → Carried b xs d.book) ∧
    (p.isOver = false → (∀ a ∈ Desk.passAlarms p, d.isPast a = true) →
      p.phase < (d.pollPass p).2.phase) ∧
    (∀ t v, d.loop = some (.cycle t v p) → d.shutdown.isGiven = false →
      let taken := xs ++ (d.pollVisit .loop v).1.takesUp p
      ((∃ x ∈ taken, ¬ x.Fits b) → d.pollLoop.loop = some .ended) ∧
      ((∀ x ∈ taken, x.Fits b) → Carried b taken d.pollLoop.book ∧
        ((∃ v' p', d.pollLoop.loop = some (.cycle t v' p') ∧ Offered b taken d.pollLoop p') ∨
          d.pollLoop.loop = some (.idle t .closed)))) ∧
    ∀ t ear, d.loop = some (.idle t ear) → d.shutdown.isGiven = false → t.due ≤ d.clock →
      ∃ t', d.pollLoop.loop = some (.cycle t' (.start (.pass false)) .fresh) ∧
        Offered d.book [] d.pollLoop .fresh := by
  have hs : IndexSound b := hb.indexSound
  refine ⟨h.overflows_iff hs, h.carried hs, Desk.phase_lt_pollPass, ?_, ?_⟩
  · intro t v hloop hg taken
    have hvisited : Offered b xs (d.pollVisit .loop v).1 p :=
      h.meanwhile (Desk.consults_pollVisit d .loop v).book
    have hturn : Offered b taken ((d.pollVisit .loop v).1.pollPass p).1
        ((d.pollVisit .loop v).1.pollPass p).2 := hvisited.turn
    have hiff := hturn.overflows_iff hs
    have hpoll : d.pollLoop = d.pollCycle t v p := by
      simp only [Desk.pollLoop, hloop]
    rw [hpoll]
    rcases d.pollCycle_cases t v p hg with ⟨ho, hended⟩ | ⟨ho, hbook, hnext⟩
    · refine ⟨fun _ => hended, ?_⟩
      intro hfit
      obtain ⟨x, hx, hf⟩ := hiff.mp ho
      exact (hf (hfit x hx)).elim
    · constructor
      · intro hbad
        rw [hiff.mpr hbad] at ho
        cases ho
      · intro _
        refine ⟨hbook ▸ hturn.carried hs ho, ?_⟩
        rcases hnext with ⟨v', hcycle⟩ | hidle
        · exact Or.inl ⟨v', _, hcycle, hturn.meanwhile hbook⟩
        · exact Or.inr hidle
  · intro t ear hloop hg hdue
    have hpoll : d.pollLoop = d.pollIdle t ear := by
      simp only [Desk.pollLoop, hloop]
    obtain ⟨hbook, t', hcycle⟩ := Desk.pollIdle_of_due ear hg hdue
    rw [hpoll]
    exact ⟨t', hcycle, .begin hbook⟩

/-- One word about a transaction, with a gas price that the fee has room for and with one that it has
not. -/
theorem great_gas_price_breaks_off :
    let b := ((fresh .default).performAll [(.epoch, .track (.sample "a")),
      (.epoch, .update { Update.toState "a" .opened with txHash := some "x" })]).1
    let word (price : String) : ScriptedReply := ⟨0, .ok (.record [("txHash", .text "x"),
      ("txStatus", .int 1), ("txReceipt", .record [("status", .int 1),
        ("gasUsed", .text "79228162514264337593543950335"), ("effectiveGasPrice", .text price)])])⟩
    let opening : Desk := .opening (.named "c" "n" "x" "w") [] .epoch ""
    let d (price : String) : Desk :=
      { opening with book := b, script := Script.empty.setHash "x" [word price] }
    ((d "0.5").takesUp .fresh).length = 1 ∧
      Carried b ((d "0.5").takesUp .fresh) ((d "0.5").pollPass .fresh).1.book ∧
      ∃ x ∈ (d "2").takesUp .fresh, ¬ x.Fits b := by
  intro b word opening d
  have hb : Reachable b := ⟨.default, _, rfl⟩
  obtain ⟨_, hcarried, _⟩ := pass_breaks_off_iff hb (Offered.begin (d := d "0.5") rfl).turn
  obtain ⟨hbroken, _⟩ := pass_breaks_off_iff hb (Offered.begin (d := d "2") rfl).turn
  exact ⟨by decide +kernel, hcarried (by decide +kernel), hbroken.mp (by decide +kernel)⟩

/-- Two swaps wait for the word about their transactions. The fee of one cannot be represented, and so
the loop ends and the other one is not filled, as it would be if its word were the only one. -/
theorem overflowing_fee_ends_loop :
    let b := ((fresh .default).performAll [(.epoch, .track (.sample "a")),
      (.epoch, .track (.sample "b")),
      (.epoch, .update { Update.toState "a" .opened with txHash := some "x" }),
      (.epoch, .update { Update.toState "b" .opened with txHash := some "y" })]).1
    let word (hash gasUsed price : String) : ScriptedReply := ⟨0, .ok (.record [
      ("txHash", .text hash), ("txStatus", .int 1), ("txReceipt", .record [("status", .int 1),
        ("gasUsed", .text gasUsed), ("effectiveGasPrice", .text price)])])⟩
    let opening : Desk := .opening (.named "c" "n" "x" "w") [] .epoch ""
    let d (script : Script) : Desk := { opening with
      book := b, script, loop := some (.cycle ⟨0, none⟩ ⟨.pass false, .ended none⟩ .fresh) }
    let alone := Script.empty.setHash "y" [word "y" "1" "1"]
    let both := alone.setHash "x" [word "x" "79228162514264337593543950335" "2"]
    ((d alone).pollLoop.book.find? "b").map (·.state) = some .filled ∧
      ((d both).pollLoop.book.find? "b").map (·.state) = some .opened ∧
      (d both).pollLoop.loop.all Loop.isOver = true := by
  decide +kernel

end SwapDesk
