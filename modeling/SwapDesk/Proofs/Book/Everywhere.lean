import SwapDesk.Proofs.Book.Operations

/-! What holds of every order of a book holds of every order after an operation, if it survives what
the operation does to one order. -/
namespace SwapDesk.Book

/-- It holds of every order and its id. -/
def Everywhere (P : String → Order → Prop) (b : Book) : Prop := ∀ id o, b.find? id = some o → P id o

variable {P : String → Order → Prop} {b b' : Book} {u : Update} {id : String} {o p : Order}

theorem everywhere_fresh (limits : Limits) : Everywhere P (fresh limits) := by
  intro id o h
  cases h

theorem Everywhere.insert (h : Everywhere P b) (hb : b'.orders = b.orders.insert id p)
    (hp : P id p) : Everywhere P b' := by
  intro other q hq
  by_cases hk : other = id
  · subst hk
    rw [find?, hb, Dict.find?_insert_self] at hq
    cases hq
    exact hp
  · rw [find?, hb, Dict.find?_insert_ne _ hk] at hq
    exact h other q hq

theorem Everywhere.update (h : Everywhere P b) (now : Instant)
    (hu : ∀ o, b.find? u.order = some o → o.state.canStep u.state = true →
      P u.order (o.amend now u)) : Everywhere P (b.update now u).book := by
  rcases admitted_cases b u with ⟨o, ho, hs⟩ | hr
  · rw [update_of_canStep ho hs]
    exact h.insert rfl (hu o ho hs)
  · obtain ⟨outcome, hk, _⟩ := update_of_refused now hr
    rw [hk]
    exact h

theorem Everywhere.doubt {d : Doubt} (h : Everywhere P b) (now : Instant)
    (hd : ∀ o, b.find? id = some o → o.state.isTerminal = false →
      P id (d.raise o) ∧ P id ((d.raise o).lapse now d.reason) ∧ P id (d.stick o)) :
    Everywhere P (b.doubt now id d).book := by
  have hchange := doubts b now id d
  generalize b.doubt now id d = c at hchange
  cases hchange with
  | lapses ho ha => exact h.insert rfl (hd _ ho ha).2.1
  | counts ho ha => exact h.insert rfl (hd _ ho ha).1
  | sticks ho ha => exact h.insert rfl (hd _ ho ha).2.2
  | late hl => exact h

theorem Everywhere.track (h : Everywhere P b) (now : Instant)
    (hn : b.find? o.id = none → P o.id o) : Everywhere P (b.perform now (.track o)).book := by
  cases hf : b.find? o.id with
  | some p =>
    rw [perform_track_of_tracked hf]
    exact h
  | none =>
    rw [perform_track_of_new hf]
    exact h.insert rfl (hn hf)

theorem Everywhere.restoreOne (h : Everywhere P b) (hp : P id { o with id }) :
    Everywhere P (b.restoreOne id o).1 := by
  rcases terminal_cases b id with ⟨p, hp, ht⟩ | hopen
  · rw [restoreOne_of_terminal hp ht]
    exact h
  · rw [restoreOne_of_open hopen]
    exact h.insert rfl hp

theorem Everywhere.restoreFrom {kept : List (String × Order)} (h : Everywhere P b)
    (hp : ∀ id o, (id, o) ∈ kept → P id { o with id }) :
    Everywhere P (b.restoreFrom kept).1 := by
  induction kept generalizing b with
  | nil => exact h
  | cons e rest ih =>
    apply ih (h.restoreOne (hp e.1 e.2 List.mem_cons_self))
    exact fun id o hm => hp id o (List.mem_cons_of_mem e hm)

theorem Everywhere.purge (h : Everywhere P b) (now : Instant) (age : Int) :
    Everywhere P (b.perform now (.purge age)).book := by
  rcases perform_purge_cases b now age with ⟨cause, hp⟩ | ⟨cutoff, hp⟩
  · rw [hp]
    exact h
  · rw [hp]
    intro id o ho
    rw [find?_purgeBefore, Option.filter_eq_some_iff] at ho
    exact h id o ho.1

end SwapDesk.Book
