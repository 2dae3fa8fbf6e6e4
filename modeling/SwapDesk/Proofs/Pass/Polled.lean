import SwapDesk.Proofs.Book.Everywhere
import SwapDesk.Proofs.Pass.Work

/-! What polling makes of a book over time: one poller piece by piece, or whoever polls and however
often. -/
namespace SwapDesk.Book

variable {P : String → Order → Prop} {b b' b'' : Book} {now : Instant} {native : Option String}
  {w : Instant × Piece} {q : Inquiry} {o : Order} {r : Option Overflow}
  {work more : List (Instant × Piece)} {events later : List Event}

/-- Pieces of work, one after the other, lead from one book to another and publish these events. They go
through, or the last of them breaks off for this cause. -/
inductive Worked (native : Option String) :
    Book → List (Instant × Piece) → List Event → Option Overflow → Book → Prop
  | nil (b : Book) : Worked native b [] [] none b
  | cons {b b' : Book} {w : Instant × Piece} {work : List (Instant × Piece)} {events : List Event}
      {r : Option Overflow} (ho : (b.change native w).outcome.overflow? = none)
      (h : Worked native (b.change native w).book work events r b') :
      Worked native b (w :: work) ((b.change native w).events ++ events) r b'
  | last {b : Book} {w : Instant × Piece} {cause : Overflow}
      (ho : (b.change native w).outcome.overflow? = some cause) :
      Worked native b [w] (b.change native w).events (some cause) (b.change native w).book

/-- All is done, or for some cause only a part of it. -/
def Upto {α : Type} (r : Option Overflow) (done all : List α) : Prop :=
  done <+: all ∧ (r = none → done = all)

theorem Upto.refl {α : Type} (r : Option Overflow) (all : List α) : Upto r all all :=
  ⟨List.prefix_rfl, fun _ => rfl⟩

theorem Upto.append {α : Type} {done all : List α} (xs : List α) (h : Upto r done all) :
    Upto r (xs ++ done) (xs ++ all) :=
  ⟨(List.prefix_append_right_inj xs).mpr h.1, fun hr => congrArg (xs ++ ·) (h.2 hr)⟩

theorem Upto.map {α β : Type} {done all : List α} (f : α → β) (h : Upto r done all) :
    Upto r (done.map f) (all.map f) :=
  ⟨h.1.map f, fun hr => congrArg (List.map f) (h.2 hr)⟩

theorem Worked.append (h : Worked native b work events none b')
    (h' : Worked native b' more later r b'') :
    Worked native b (work ++ more) (events ++ later) r b'' := by
  generalize hn : (none : Option Overflow) = r₀ at h
  induction h with
  | nil => exact h'
  | cons ho _ ih =>
    rw [List.append_assoc]
    exact .cons ho (ih h' hn)
  | last => cases hn

/-- The tally of work keeps the book and the events. -/
theorem worked_foldlM (native : Option String) (work : List (Instant × Piece)) (t : Tally) :
    let out := work.foldlM (Tally.work native) t
    ∃ done events, Worked native t.book done events (Tally.broken? out) (Tally.reached out).book ∧
      (Tally.reached out).events = t.events ++ events ∧ Upto (Tally.broken? out) done work := by
  induction work generalizing t with
  | nil => exact ⟨[], [], .nil t.book, (List.append_nil _).symm, .refl _ _⟩
  | cons w rest ih =>
    rw [List.foldlM_cons]
    cases hw : t.work native w with
    | error x =>
      obtain ⟨hbroken, henters⟩ := Tally.broken_of_work hw
      exact ⟨[w], _, henters.book ▸ .last hbroken, henters.events, List.prefix_append [w] rest, nofun⟩
    | ok t₁ =>
      obtain ⟨hthrough, henters⟩ := Tally.through_of_work hw
      obtain ⟨done, events, hworked, hevents, hupto⟩ := ih t₁
      rw [henters.book] at hworked
      rw [henters.events, List.append_assoc] at hevents
      exact ⟨w :: done, _, .cons hthrough hworked, hevents, hupto.append [w]⟩

theorem worked_work (t : Tally) (native : Option String) (w : Instant × Piece) :
    let out := t.work native w
    ∃ events, Worked native t.book [w] events (Tally.broken? out) (Tally.reached out).book ∧
      (Tally.reached out).events = t.events ++ events := by
  cases hw : t.work native w with
  | error x =>
    obtain ⟨hbroken, henters⟩ := Tally.broken_of_work hw
    exact ⟨_, henters.book ▸ .last hbroken, henters.events⟩
  | ok t₁ =>
    obtain ⟨hthrough, henters⟩ := Tally.through_of_work hw
    have hworked : Worked native t.book [w] _ none _ := .cons hthrough (.nil _)
    rw [List.append_nil, ← henters.book] at hworked
    exact ⟨_, hworked, henters.events⟩

/-- The orders are charged one after the other. -/
theorem chargeAll_eq (native : Option String) (t : Tally) (now : Instant) (missing : List String) :
    t.chargeAll now missing =
      ((missing.map fun id => (now, .charge id)).foldlM (Tally.work native) t).map fun t =>
        { t with report := { t.report with awaiting := missing.length } } := by
  rw [List.foldlM_map]
  rfl

theorem worked_chargeAll (native : Option String) (t : Tally) (now : Instant)
    (missing : List String) :
    let out := t.chargeAll now missing
    ∃ done events, Worked native t.book done events (Tally.broken? out) (Tally.reached out).book ∧
      (Tally.reached out).events = t.events ++ events ∧
      Upto (Tally.broken? out) done (missing.map fun id => (now, .charge id)) := by
  have h := worked_foldlM native (missing.map fun id => (now, .charge id)) t
  rw [chargeAll_eq native]
  generalize (missing.map fun id => (now, Piece.charge id)).foldlM (Tally.work native) t = out at h ⊢
  cases out <;> exact h

/-- Piece by piece, polling leads from one book to another. -/
inductive Polled : Book → Book → Prop
  | refl (b : Book) : Polled b b
  | step {b b' : Book} {native : Option String} {w : Instant × Piece}
      (h : Polled (b.change native w).book b') : Polled b b'

theorem Polled.trans (h : Polled b b') (h' : Polled b' b'') : Polled b b'' := by
  induction h with
  | refl b => exact h'
  | step _ ih => exact .step (ih h')

theorem Worked.polled (h : Worked native b work events r b') : Polled b b' := by
  induction h with
  | nil b => exact .refl b
  | cons _ _ ih => exact .step ih
  | last _ => exact .step (.refl _)

theorem polled_markNotFound (b : Book) (now : Instant) (id : String) :
    Polled b (b.markNotFound now id).book := by
  have hend : Polled (b.change none (now, .charge id)).book (b.markNotFound now id).book := .refl _
  exact .step hend

/-- A property of orders that survives the counting of reports and a failure. -/
structure Durable (P : String → Order → Prop) : Prop where
  missed : ∀ {id o}, P id o → o.state.isTerminal = false → P id o.missed
  stalled : ∀ {id o}, P id o → o.state.isTerminal = false → P id o.stalled
  sighted : ∀ {id o}, P id o → o.state.isTerminal = false → P id o.sighted
  lapse : ∀ {id o} now reason, P id o → o.state.isTerminal = false → P id (o.lapse now reason)

/-- It survives being filled under the order's own hash, too. -/
structure Lasting (P : String → Order → Prop) : Prop extends Durable P where
  fill : ∀ {q o p} now native fee, P q.order o → o.state.isTerminal = false →
    o.txHash = some q.hash → P q.order (o.amend now (fillReport native q p fee))

theorem Durable.doubt (hd : Durable P) (h : Everywhere P b) (now : Instant) (id : String)
    (d : Doubt) : Everywhere P (b.doubt now id d).book := by
  apply h.doubt
  intro o ho ha
  have hp := h id o ho
  cases d with
  | miss =>
    have hm := hd.missed hp ha
    exact ⟨hm, hd.lapse now _ hm ha, hp⟩
  | stall =>
    have hm := hd.stalled hp ha
    exact ⟨hm, hd.lapse now _ hm ha, hd.sighted hp ha⟩

/-- What comes in with a command has the property, or keeps it. -/
def Respects (P : String → Order → Prop) : Command → Prop
  | .track o => P o.id o
  | .update u => ∀ o now, P u.order o → o.state.canStep u.state = true → P u.order (o.amend now u)
  | .restore kept => ∀ id o, (id, o) ∈ kept.entries → P id { o with id }
  | _ => True

theorem respects_of_forall (h : ∀ id o, P id o) (k : Command) : Respects P k := by
  cases k with
  | track o => exact h o.id o
  | update u => exact fun _ _ _ _ => h _ _
  | restore kept => exact fun _ _ _ => h _ _
  | _ => trivial

theorem Durable.perform {k : Command} (hd : Durable P) (h : Everywhere P b) (now : Instant)
    (hk : Respects P k) : Everywhere P (b.perform now k).book := by
  cases k with
  | track o => exact h.track now fun _ => hk
  | update u => exact h.update now fun o ho hs => hk o now (h u.order o ho) hs
  | markNotFound id => exact hd.doubt h now id .miss
  | markAmbiguous id => exact hd.doubt h now id .stall
  | restore kept => exact h.restoreFrom hk
  | purge age => exact h.purge now age

/-- The order may have changed since the reply was read; only the fill has to be seen to. -/
theorem Durable.resolve (hd : Durable P) (h : Everywhere P b) (now : Instant) (r : Resolution)
    (hfill : ∀ fee p, b.find? q.order = some p → p.state.isTerminal = false →
      P q.order (p.amend now (fillReport native q o fee))) :
    Everywhere P ((b.resolve now native q o r).getD (b.keep .unknown)).book := by
  cases r with
  | filled fee =>
    apply h.update (u := fillReport native q o fee)
    intro p hp hs
    exact hfill fee p hp (OrderState.isTerminal_of_canStep hs)
  | ambiguous => exact hd.doubt h now q.order .stall
  | notFound => exact hd.doubt h now q.order .miss
  | awaitingReceipt => exact h

theorem Lasting.change (hl : Lasting P) (hs : IndexSound b) (h : Everywhere P b)
    (native : Option String) (w : Instant × Piece) : Everywhere P (b.change native w).book := by
  obtain ⟨now, p⟩ := w
  rcases change_cases hs native now p with ⟨outcome, _, hc⟩ | ⟨d, hc⟩ | ⟨q, o, fee, _, ho, hh, hc⟩
  · exact hc ▸ h
  · exact hc ▸ hl.doubt h now p.order d
  · rw [hc]
    apply h.update (u := fillReport native q o fee)
    intro p hp hs
    cases ho.symm.trans hp
    exact hl.fill now native fee (h q.order o ho) (OrderState.isTerminal_of_canStep hs) hh

theorem Polled.indexSound (h : Polled b b') (hs : IndexSound b) : IndexSound b' := by
  induction h with
  | refl b => exact hs
  | @step b b' native w _ ih => exact ih (indexSound_change hs native w)

theorem Lasting.polled (hl : Lasting P) (h : Polled b b') (hs : IndexSound b)
    (hb : Everywhere P b) : Everywhere P b' := by
  induction h with
  | refl b => exact hb
  | @step b b' native w _ ih => exact ih (indexSound_change hs native w) (hl.change hs hb native w)

end SwapDesk.Book
