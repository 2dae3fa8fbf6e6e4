import SwapDesk.Proofs.Book.Finality
import SwapDesk.Proofs.Book.Merging
import SwapDesk.Proofs.Order.Kept
import SwapDesk.Proofs.Pass.Polled

/-! What comes of a book over many runs. Between commands its orders are written down, read again and taken
back, by the same book or by one of a later run. An order that is not purged stays tracked, and keeps the
texts among its extras as long as no command brings it other extras. -/
namespace SwapDesk

/-- The command brings no extras for the order, and drops no orders. -/
def Command.LeavesExtras (id : String) : Command → Prop
  | .update u => u.order = id → u.extras = none
  | .restore kept => id ∉ kept.keys
  | .purge _ => False
  | _ => True

namespace Book

/-- What comes of a book while commands leave the extras of an order alone, and what was kept of it is
taken back. -/
inductive Descends (id : String) (origin : Book) : Book → Prop
  | refl : Descends id origin origin
  | command {b : Book} {c : Command} (h : Descends id origin b) (now : Instant)
      (hc : c.LeavesExtras id) : Descends id origin (b.perform now c).book
  /-- The order is not among those that are dropped. -/
  | purge {b : Book} (h : Descends id origin b) (now : Instant) (age : Int)
      (hp : (b.perform now (.purge age)).book.find? id ≠ none) :
      Descends id origin (b.perform now (.purge age)).book
  /-- The book itself, before or after other changes, takes back what was kept. -/
  | restored {b b' : Book} {kept : Orders} (h : Descends id origin b)
      (hk : Orders.ofText b.orders.toText = .ok kept) (h' : Descends id origin b') :
      Descends id origin (b'.restore kept).1
  /-- A book that does not have the order, such as that of a later run, takes back what was kept. -/
  | restarted {b e : Book} {kept : Orders} (h : Descends id origin b)
      (hk : Orders.ofText b.orders.toText = .ok kept) (he : Reachable e)
      (hnone : e.find? id = none) : Descends id origin (e.restore kept).1

variable {id key t : String} {b e origin : Book} {kept : Orders} {c : Command}

theorem Reachable.perform (h : Reachable b) (now : Instant) (c : Command) :
    Reachable (b.perform now c).book := by
  obtain ⟨limits, run, rfl⟩ := h
  refine ⟨limits, run ++ [(now, c)], ?_⟩
  rw [performAll_append]
  rfl

theorem Reachable.restore (h : Reachable b) (kept : Orders) : Reachable (b.restore kept).1 :=
  h.perform .epoch (.restore kept)

theorem Descends.reachable (h : Descends id origin b) (ho : Reachable origin) : Reachable b := by
  induction h with
  | refl => exact ho
  | command _ now _ ih => exact ih.perform now _
  | purge _ now age _ ih => exact ih.perform now _
  | restored _ _ _ _ ih => exact ih.restore _
  | restarted _ _ he _ _ => exact he.restore _

/-- The order is tracked with this text among its extras. -/
def HoldsText (id key t : String) (b : Book) : Prop :=
  ∃ o, b.find? id = some o ∧ o.extras.find? key = some (.text t)

theorem HoldsText.perform (h : HoldsText id key t b) (now : Instant) (hc : c.LeavesExtras id) :
    HoldsText id key t (b.perform now c).book := by
  obtain ⟨o, ho, htext⟩ := h
  let P : String → Order → Prop := fun k o => k = id → o.extras.find? key = some (.text t)
  have hdurable : Durable P := ⟨fun h _ => h, fun h _ => h, fun h _ => h, fun _ _ h _ => h⟩
  have hb : Everywhere P b := by
    rintro k p hp rfl
    cases ho.symm.trans hp
    exact htext
  have hstays : (∀ age, c ≠ .purge age) → Respects P c →
      HoldsText id key t (b.perform now c).book := by
    intro hpurge hrespects
    obtain ⟨p, hp⟩ := (keeps_perform hpurge id o ho).2
    exact ⟨p, hp, hdurable.perform hb now hrespects id p hp rfl⟩
  cases c with
  | track p =>
    by_cases hid : p.id = id
    · rw [perform_track_of_tracked (hid ▸ ho)]
      exact ⟨o, ho, htext⟩
    · exact hstays (fun _ he => by cases he) fun he => (hid he).elim
  | update u =>
    refine hstays (fun _ he => by cases he) fun p now hp _ he => ?_
    have hsame : (p.amend now u).extras = p.extras := by rw [Order.amend, hc he, Option.getD_none]
    exact hsame ▸ hp he
  | restore kept =>
    refine hstays (fun _ he => by cases he) ?_
    rintro k p hm rfl
    exact (hc (List.mem_map_of_mem hm)).elim
  | markNotFound _ => exact hstays (fun _ he => by cases he) trivial
  | markAmbiguous _ => exact hstays (fun _ he => by cases he) trivial
  | purge _ => exact hc.elim

theorem HoldsText.purge (h : HoldsText id key t b) {now : Instant} {age : Int}
    (hp : (b.perform now (.purge age)).book.find? id ≠ none) :
    HoldsText id key t (b.perform now (.purge age)).book := by
  obtain ⟨o, ho, htext⟩ := h
  rcases find?_perform_purge now age ho with hsame | ⟨_, hnone⟩
  · exact ⟨o, hsame, htext⟩
  · exact (hp hnone).elim

/-- An order that is merged comes from what was kept, unless the book has it with the text and the order is
terminal. -/
theorem HoldsText.restore (hb : HoldsText id key t b)
    (hk : Orders.ofText b.orders.toText = .ok kept)
    (he : ∀ o, e.find? id = some o → o.extras.find? key = some (.text t)) :
    HoldsText id key t (e.restore kept).1 := by
  obtain ⟨o, ho, htext⟩ := hb
  obtain ⟨p, hp, htexts⟩ := Orders.text_extra_of_ofText hk ho
  rcases terminal_cases e id with ⟨q, hq, ht⟩ | hopen
  · exact ⟨q, (find?_restore e kept id).trans (merged_of_terminal hq ht), he q hq⟩
  · refine ⟨{ p with id }, ?_, htexts key t htext⟩
    rw [find?_restore, merged_of_admits hopen, hp]
    rfl

theorem Descends.holdsText (h : Descends id origin b) (ho : HoldsText id key t origin) :
    HoldsText id key t b := by
  induction h with
  | refl => exact ho
  | command _ now hc ih => exact ih.perform now hc
  | purge _ now age hp ih => exact ih.purge hp
  | restored _ hk _ ih ih' =>
    refine ih.restore hk fun q hq => ?_
    obtain ⟨p, hp, htext⟩ := ih'
    cases hp.symm.trans hq
    exact htext
  | restarted _ hk _ hnone ih =>
    refine ih.restore hk fun q hq => ?_
    rw [hnone] at hq
    cases hq

end Book
end SwapDesk
