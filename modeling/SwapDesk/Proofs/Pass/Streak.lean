import Mathlib.Data.List.Induction
import SwapDesk.Proofs.Desk.Steps
import SwapDesk.Proofs.Pass.Sighting

/-! The history of an order under polling. Its count of misses is the streak of them that its history
ends with, so that it is lost only after as many misses as the limit says. -/
namespace SwapDesk

namespace Book

variable {b b' b'' before : Book} {id : String} {now : Instant} {o p first : Order}
  {heard more : List Sighting} {s : Option Sighting} {limit : UInt32}

/-! ### Histories -/

/-- Apart from polling nobody counts reports about the order, restores it or tracks it anew. -/
def Leaves (id : String) (b : Book) : Command → Prop
  | .track o => o.id = id → (b.find? id).isSome = true
  | .markNotFound other | .markAmbiguous other => other ≠ id
  | .restore kept => id ∉ kept.keys
  | _ => True

/-- Polling passes on a book, with other commands at any time, and what they have heard of one order. -/
inductive Heard (id : String) (b : Book) : List Sighting → Book → Prop
  | nil : Heard id b [] b
  | step {heard : List Sighting} {b' b'' : Book} {s : Option Sighting} (h : Heard id b heard b')
      (hs : Hears id b' s b'') : Heard id b (heard ++ s.toList) b''
  | command {heard : List Sighting} {b' : Book} {k : Command} (h : Heard id b heard b') (now : Instant)
      (hk : Leaves id b' k) : Heard id b heard (b'.perform now k).book

theorem Heard.polled (h : Heard id b heard b') (hp : Polled b' b'') :
    ∃ more, Heard id b (heard ++ more) b'' := by
  induction hp generalizing heard with
  | refl => exact ⟨[], (List.append_nil heard).symm ▸ h⟩
  | @step b _ native w _ ih =>
    obtain ⟨more, hmore⟩ := ih (h.step (.piece native w))
    exact ⟨_, List.append_assoc .. ▸ hmore⟩

/-- There was the same count before, and an order that is active now was active. -/
def CountedIn (b : Book) (id : String) (p : Order) : Prop :=
  ∃ o, b.find? id = some o ∧ p.notFound = o.notFound ∧
    (p.state.isTerminal = false → o.state.isTerminal = false)

theorem countedIn_perform {k : Command} (hk : Leaves id b k)
    (hp : (b.perform now k).book.find? id = some p) : CountedIn b id p := by
  have hsame : Everywhere (fun other q => other = id → CountedIn b id q) b := by
    rintro _ o ho rfl
    exact ⟨o, ho, rfl, fun ha => ha⟩
  cases k with
  | track o =>
    refine hsame.track now ?_ id p hp rfl
    rintro hnone rfl
    rw [Leaves, hnone] at hk
    cases hk rfl
  | update u =>
    refine hsame.update now ?_ id p hp rfl
    rintro o ho hs rfl
    exact ⟨o, ho, rfl, fun _ => OrderState.isTerminal_of_canStep hs⟩
  | markNotFound other =>
    have hkept := (touches_doubt b now other .miss).find?_ne (Ne.symm hk)
    exact hsame id p (hkept.symm.trans hp) rfl
  | markAmbiguous other =>
    have hkept := (touches_doubt b now other .stall).find?_ne (Ne.symm hk)
    exact hsame id p (hkept.symm.trans hp) rfl
  | restore kept =>
    refine hsame.restoreFrom ?_ id p hp rfl
    rintro other o hm rfl
    exact (hk (List.mem_map_of_mem hm)).elim
  | purge age => exact hsame.purge now age id p hp rfl

/-! ### Streaks -/

/-- The misses since the transaction was last seen under way. -/
def streak (heard : List Sighting) : Nat :=
  heard.foldl (fun n s => match s with
    | .missing => n + 1
    | .underWay => 0
    | _ => n) 0

theorem streak_append (s : Sighting) :
    streak (heard ++ [s]) = match s with
      | .missing => streak heard + 1
      | .underWay => 0
      | _ => streak heard := by
  rw [streak, List.foldl_append]
  rfl

/-- The stretch of the misses: it begins with one of them, and nothing in it has shown the transaction
under way. -/
theorem stretch_of_streak (h : 0 < streak heard) :
    ∃ early recent, heard = early ++ recent ∧ recent.head? = some .missing ∧
      .underWay ∉ recent ∧ recent.count .missing = streak heard := by
  induction heard using List.reverseRecOn with
  | nil => cases h
  | append_singleton heard s ih =>
    rw [streak_append] at h ⊢
    cases s with
    | underWay => cases h
    | missing =>
      rcases Nat.eq_zero_or_pos (streak heard) with hzero | hpos
      · exact ⟨heard, [.missing], rfl, rfl, by decide, by rw [hzero]; rfl⟩
      · obtain ⟨early, recent, rfl, hhead, hunder, hcount⟩ := ih hpos
        refine ⟨early, recent ++ [.missing], List.append_assoc .., ?_, by simpa using hunder, ?_⟩
        · rw [List.head?_append, hhead]
          rfl
        · rw [List.count_append, hcount]
          rfl
    | unreceipted | done =>
      obtain ⟨early, recent, rfl, hhead, hunder, hcount⟩ := ih h
      refine ⟨early, recent ++ [_], List.append_assoc .., ?_, by simpa using hunder, ?_⟩
      · rw [List.head?_append, hhead]
        rfl
      · rw [List.count_append, hcount]
        rfl

/-- A stretch ends with its misses in a row exactly if there is nothing else in it. -/
theorem replicate_suffix_iff {early recent : List Sighting} (hhead : recent.head? = some .missing) :
    List.replicate (recent.count .missing) .missing <:+ early ++ recent ↔
      ∀ s ∈ recent, s = .missing := by
  constructor
  · intro h
    have hlength : (List.replicate (recent.count .missing) Sighting.missing).length ≤ recent.length := by
      rw [List.length_replicate]
      exact List.count_le_length
    obtain ⟨before, hbefore⟩ := List.suffix_of_suffix_length_le h (List.suffix_append early recent) hlength
    cases before with
    | nil =>
      intro s hs
      rw [← hbefore, List.nil_append] at hs
      exact List.eq_of_mem_replicate hs
    | cons s before =>
      have hs : s = .missing := by
        rw [← hbefore] at hhead
        exact Option.some.inj hhead
      have hcount := congrArg (List.count .missing) hbefore
      rw [List.count_append, List.count_replicate_self, hs, List.count_cons_self] at hcount
      omega
  · intro h
    have hall : recent = List.replicate (recent.count .missing) .missing :=
      List.eq_replicate_iff.mpr ⟨(List.count_eq_length.mpr fun s hs => (h s hs).symm).symm, h⟩
    exact hall ▸ List.suffix_append early _

/-- An active order has counted the misses since its transaction was last seen under way, and there is
room for one more. -/
structure Streaks (id : String) (limit : UInt32) (heard : List Sighting) (b : Book) : Prop where
  index : IndexSound b
  limits : b.limits.notFound = limit
  count : ∀ o, b.find? id = some o → o.state.isTerminal = false →
    o.notFound.toNat = streak heard ∧ o.notFound < limit

theorem streaks_track (hs : IndexSound before) (hnew : before.find? first.id = none)
    (hzero : first.notFound = 0) (hlimit : 0 < before.limits.notFound) (now : Instant) :
    Streaks first.id before.limits.notFound [] (before.perform now (.track first)).book where
  index := indexSound_perform hs now (.track first)
  limits := by rw [limits_perform]
  count := by
    intro o ho _
    rw [perform_track_of_new hnew, find?_file_self] at ho
    cases ho
    rw [hzero]
    exact ⟨rfl, hlimit⟩

theorem Streaks.command {k : Command} (h : Streaks id limit heard b) (now : Instant)
    (hk : Leaves id b k) : Streaks id limit heard (b.perform now k).book where
  index := indexSound_perform h.index now k
  limits := by rw [limits_perform, h.limits]
  count := by
    intro p hp ha
    obtain ⟨o, ho, hsame, hactive⟩ := countedIn_perform hk hp
    rw [hsame]
    exact h.count o ho (hactive ha)

/-- The answer that settles an order as lost comes on top of the streak; any other keeps the count. -/
theorem Responds.count (h : Responds b.limits now o s p) (ha : p.state.isTerminal = false)
    (hcount : o.notFound.toNat = streak heard) (hroom : o.notFound < b.limits.notFound) :
    p.notFound.toNat = streak (heard ++ s.toList) ∧ p.notFound < b.limits.notFound := by
  cases h with
  | nothing =>
    rw [Option.toList_none, List.append_nil]
    exact ⟨hcount, hroom⟩
  | unreceipted =>
    rw [Option.toList_some, streak_append]
    exact ⟨hcount, hroom⟩
  | missed _ hl =>
    rw [Option.toList_some, streak_append, toNat_missed hroom, hcount]
    exact ⟨rfl, UInt32.not_le.mp hl⟩
  | lost => cases ha
  | stalled | unstalled =>
    rw [Option.toList_some, streak_append]
    refine ⟨rfl, UInt32.lt_iff_toNat_lt.mpr ?_⟩
    exact Nat.zero_lt_of_lt (UInt32.lt_iff_toNat_lt.mp hroom)
  | unresolved => cases ha
  | filled u hu =>
    rw [Order.amend, hu] at ha
    cases ha
  | overflow =>
    rw [Option.toList_some, streak_append]
    exact ⟨hcount, hroom⟩
  | unmissed hfull =>
    -- below the limit there is always room
    have hlt := UInt32.lt_iff_toNat_lt.mp hroom
    exact (hfull (Nat.lt_of_le_of_lt hlt b.limits.notFound.toNat_lt)).elim

theorem Streaks.hears (h : Streaks id limit heard b) (hb : Hears id b s b') :
    Streaks id limit (heard ++ s.toList) b' where
  index := hb.indexSound h.index
  limits := by rw [hb.limits h.index, h.limits]
  count := by
    intro p hp ha
    obtain ⟨o, ho, hactive⟩ := hb.active h.index hp ha
    obtain ⟨now, q, hq, hresponds⟩ := hb.responds h.index ho hactive
    cases hp.symm.trans hq
    obtain ⟨hcount, hroom⟩ := h.count o ho hactive
    rw [← h.limits] at hroom ⊢
    exact hresponds.count ha hcount hroom

theorem Heard.streaks (h : Heard id b heard b') (hb : Streaks id limit [] b) :
    Streaks id limit heard b' := by
  induction h with
  | nil => exact hb
  | step _ hs ih => exact ih.hears hs
  | command _ now hk ih => exact ih.command now hk

/-- An active order fails as lost only at the limit of its misses. -/
theorem Responds.lost_inv (h : Responds b.limits now o s p) (ha : o.state.isTerminal = false)
    (hp : p.state = .failed) (hlost : p.failure = some lostReason) :
    s = some .missing ∧ b.limits.notFound ≤ o.missed.notFound := by
  have hopen : o.state ≠ .failed := by
    intro he
    rw [he] at ha
    cases ha
  cases h with
  | nothing | unreceipted | missed | stalled | overflow | unmissed | unstalled => exact (hopen hp).elim
  | lost hl => exact ⟨rfl, hl⟩
  | unresolved =>
    have hsame : unresolvedReason = lostReason := Option.some.inj hlost
    exact absurd hsame (by decide)
  | filled u hu =>
    rw [Order.amend, hu] at hp
    cases hp

/-- When polling fails an order as lost that was tracked with a count of zero, then as many misses were
heard of it as the limit says, and since the first of these nothing has shown its transaction under way.
They were the last answers about the order, one after the other, exactly if in this stretch there was no
word of a transaction that is confirmed: without a receipt, or with a fee that cannot be represented. -/
theorem lost_after_misses (hb : Reachable before) (hnew : before.find? first.id = none)
    (hzero : first.notFound = 0) (hlimit : 0 < before.limits.notFound) (start : Instant)
    (h : Heard first.id (before.perform start (.track first)).book heard b)
    (ho : b.find? first.id = some o) (ha : o.state.isTerminal = false)
    (hstep : Hears first.id b s b') (hp : b'.find? first.id = some p) (hfailed : p.state = .failed)
    (hlost : p.failure = some lostReason) :
    ∃ early recent, heard ++ s.toList = early ++ recent ∧
      recent.head? = some .missing ∧ recent.getLast? = some .missing ∧ .underWay ∉ recent ∧
      recent.count .missing = before.limits.notFound.toNat ∧
      (List.replicate before.limits.notFound.toNat .missing <:+ early ++ recent ↔
        .unreceipted ∉ recent ∧ .done ∉ recent) := by
  have hstreaks := h.streaks (streaks_track hb.indexSound hnew hzero hlimit start)
  obtain ⟨now, q, hq, hresponds⟩ := hstep.responds hstreaks.index ho ha
  cases hp.symm.trans hq
  obtain ⟨hmissing, hreached⟩ := hresponds.lost_inv ha hfailed hlost
  obtain ⟨hcount, hroom⟩ := hstreaks.count o ho ha
  have hlast : streak (heard ++ [.missing]) = before.limits.notFound.toNat := by
    have hsucc : streak (heard ++ [.missing]) = streak heard + 1 := streak_append .missing
    have hle := UInt32.le_iff_toNat_le.mp hreached
    have hlt := UInt32.lt_iff_toNat_lt.mp hroom
    rw [hstreaks.limits, toNat_missed hroom] at hle
    omega
  have hpos : 0 < streak (heard ++ [.missing]) := by
    rw [hlast]
    exact UInt32.lt_iff_toNat_lt.mp hlimit
  obtain ⟨early, recent, hall, hhead, hunder, hmisses⟩ := stretch_of_streak hpos
  rw [hlast] at hmisses
  rw [hmissing, Option.toList_some]
  refine ⟨early, recent, hall, hhead, ?_, hunder, hmisses, ?_⟩
  · have hend := congrArg List.getLast? hall
    rw [List.getLast?_concat, List.getLast?_append] at hend
    cases hr : recent.getLast? with
    | none =>
      rw [List.getLast?_eq_none_iff.mp hr] at hhead
      cases hhead
    | some s =>
      rw [hr] at hend
      exact hend.symm
  · rw [← hmisses, replicate_suffix_iff hhead]
    constructor
    · intro hsame
      exact ⟨fun hm => (nomatch hsame .unreceipted hm), fun hm => (nomatch hsame .done hm)⟩
    · rintro ⟨hreceipt, hdone⟩ s hs
      cases s with
      | missing => rfl
      | underWay => exact (hunder hs).elim
      | unreceipted => exact (hreceipt hs).elim
      | done => exact (hdone hs).elim

/-! ### Two short histories -/

/-- An open order whose transaction has the hash `x`, for examples. -/
def openSample : Order := { Order.sample "a" with txHash := some "x", state := .opened }

/-- A book that gives up at the second miss and has just taken the order. -/
def openBook : Book := ((fresh ⟨2, none⟩).perform .epoch (.track openSample)).book

def wordOfX (s : TxStatus) : Piece := .answer ⟨"a", "x"⟩ (.ok ⟨"x", s, none, none⟩)

/-- The book after the first miss. -/
def missedBook : Book := (openBook.markNotFound .epoch "a").book

/-- The book after a word that the transaction is under way. -/
def stalledBook : Book := (missedBook.markAmbiguous .epoch "a").book

/-- A piece of work tells this much, and changes the book so. -/
theorem hears_piece {piece : Piece} (hb : (b.change none (.epoch, piece)).book = b')
    (hs : b.sighting? id piece = s) : Hears id b s b' := by
  subst hb hs
  exact .piece none (.epoch, piece)

theorem heard_missedBook : Heard "a" openBook [.missing] missedBook := by
  have hmiss : (openBook.change none (.epoch, wordOfX .notFound)).book = missedBook := rfl
  exact .step .nil (hears_piece hmiss rfl)

/-- A first miss does not count any more once the transaction has been under way. -/
theorem lost_after_two_misses :
    ∃ b b' p, Heard "a" openBook [.missing, .underWay, .missing] b ∧
      Hears "a" b (some .missing) b' ∧ b'.find? "a" = some p ∧ p.failure = some lostReason ∧
      ∃ early recent, [Sighting.missing, .underWay, .missing, .missing] = early ++ recent ∧
        recent.count .missing = 2 ∧
        (List.replicate 2 .missing <:+ early ++ recent ↔ .unreceipted ∉ recent ∧ .done ∉ recent) := by
  have hsight : (missedBook.change none (.epoch, wordOfX .pending)).book = stalledBook := rfl
  have hseen : Heard "a" openBook [.missing, .underWay] stalledBook :=
    .step heard_missedBook (hears_piece hsight rfl)
  let again : Book := (stalledBook.markNotFound .epoch "a").book
  have hmiss : (stalledBook.change none (.epoch, wordOfX .notFound)).book = again := rfl
  have hmissed : Heard "a" openBook [.missing, .underWay, .missing] again :=
    .step hseen (hears_piece hmiss rfl)
  have hnew : (fresh ⟨2, none⟩).find? openSample.id = none := rfl
  have hlast : Hears "a" again (some .missing) (again.change none (.epoch, wordOfX .notFound)).book :=
    hears_piece rfl rfl
  obtain ⟨p, hp, hfailed, hreason⟩ : ∃ p,
      (again.change none (.epoch, wordOfX .notFound)).book.find? "a" = some p ∧
      p.state = .failed ∧ p.failure = some lostReason :=
    ⟨_, rfl, rfl, rfl⟩
  obtain ⟨early, recent, hall, _, _, _, hcount, hrow⟩ :=
    lost_after_misses ⟨⟨2, none⟩, [], rfl⟩ hnew rfl (by decide) .epoch hmissed rfl rfl hlast hp hfailed
      hreason
  exact ⟨_, _, p, hmissed, hlast, hp, hreason, early, recent, hall, hcount, hrow⟩

/-- The word that a transaction is confirmed, but without a receipt yet, does not start the count again:
the order is lost although between its two misses its transaction was there. -/
theorem confirmed_word_keeps_count :
    ∃ b b' p, Heard "a" openBook [.missing, .unreceipted] b ∧
      Hears "a" b (some .missing) b' ∧ b'.find? "a" = some p ∧
      p.state = .failed ∧ p.failure = some lostReason ∧
      ¬List.replicate 2 .missing <:+ [Sighting.missing, .unreceipted, .missing] := by
  have hwait : (missedBook.change none (.epoch, wordOfX .confirmed)).book = missedBook := rfl
  have hheard : Heard "a" openBook [.missing, .unreceipted] missedBook :=
    .step heard_missedBook (hears_piece hwait rfl)
  have hlost : (missedBook.change none (.epoch, wordOfX .notFound)).book =
      (missedBook.markNotFound .epoch "a").book := rfl
  have hlast : Hears "a" missedBook (some .missing) (missedBook.markNotFound .epoch "a").book :=
    hears_piece hlost rfl
  exact ⟨missedBook, _, _, hheard, hlast, rfl, rfl, rfl, by decide⟩

end Book

namespace Floor

variable {nonce id : String} {f g : Floor} {notes more : List Note} {b b' : Book} {told : List Sighting}

/-- Nobody is about to track an order under the id. -/
def Unnamed (id : String) (f : Floor) : Prop := ∀ i o, .named i o ∈ f.placings → o.id ≠ id

theorem Writes.heard (hw : Writes f notes b') (hu : Unnamed id f)
    (h : Book.Heard id b told f.desk.book) : ∃ more, Book.Heard id b (told ++ more) b' := by
  have hsame : told = told ++ [] := (List.append_nil told).symm
  cases hw with
  | polled hp => exact h.polled hp
  | purged now age => exact ⟨[], hsame ▸ .command h now trivial⟩
  | tracked now hm => exact ⟨[], hsame ▸ .command h now fun he => (hu _ _ hm he).elim⟩
  | reported now _ _ =>
    exact ⟨[], hsame ▸ .command (k := .update _) h now trivial⟩
  | @settled q reply o now native r _ => exact ⟨_, h.step (.late now native q o r)⟩

theorem Step.unnamed (h : Step f more g) (hu : Unnamed id f) (hn : .issued id ∉ more) :
    Unnamed id g := by
  cases h with
  | takeOn _ =>
    intro i o hm
    rcases List.mem_append.mp hm with hm | hm
    · exact hu i o hm
    · cases List.mem_singleton.mp hm
  | @name d before after findings j t =>
    intro i o hm
    rcases List.mem_append.mp hm with hm | hm
    · exact hu i o (List.mem_append_left _ hm)
    · rcases List.mem_cons.mp hm with he | hm
      · cases he
        rintro rfl
        exact hn (List.mem_singleton_self _)
      · exact hu i o (List.mem_append_right _ (List.mem_cons_of_mem _ hm))
  | @track d before after findings j p _ =>
    intro i o hm
    rcases List.mem_append.mp hm with hm | hm
    · exact hu i o (List.mem_append_left _ hm)
    · rcases List.mem_cons.mp hm with he | hm
      · cases he
      · exact hu i o (List.mem_append_right _ (List.mem_cons_of_mem _ hm))
  | refuse j p _ | submit j kind other =>
    intro i o hm
    rcases List.mem_append.mp hm with hm | hm
    · exact hu i o (List.mem_append_left _ hm)
    · exact hu i o (List.mem_append_right _ (List.mem_cons_of_mem _ hm))
  | _ => exact hu

/-- What happens on a floor is a history of each order that has its id for itself. -/
theorem Run.heard {prior : List Note} (h : Run f notes g)
    (hl : Ledger nonce f.desk.business f.placings prior) (hu : Unnamed id f) (hn : .issued id ∉ notes)
    (hb : Book.Heard id b told f.desk.book) :
    ∃ more, Book.Heard id b (told ++ more) g.desk.book := by
  have hall : ∃ later more, Ledger nonce g.desk.business g.placings later ∧ Unnamed id g ∧
      Book.Heard id b (told ++ more) g.desk.book := by
    induction h with
    | refl => exact ⟨prior, [], hl, hu, (List.append_nil told).symm ▸ hb⟩
    | snoc _ hstep ih =>
      rw [List.mem_append, not_or] at hn
      obtain ⟨later, more, hl', hu', hb'⟩ := ih hn.1
      obtain ⟨next, hnext⟩ := (hstep.writes hl'.undelayed).heard hu' hb'
      exact ⟨_, _, hstep.ledger hl', hstep.unnamed hu' hn.2, List.append_assoc .. ▸ hnext⟩
  obtain ⟨_, more, _, _, hmore⟩ := hall
  exact ⟨more, hmore⟩

end Floor
end SwapDesk
