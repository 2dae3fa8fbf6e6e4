import SwapDesk.Proofs.Book.Operations

/-! Terminal orders do not change and no active order gets lost, in any run of commands. Only a purge
takes an order out of the book, and only a terminal one. -/
namespace SwapDesk.Book

variable {b b' b'' : Book} {now : Instant} {c : Command} {id : String} {o p : Order}
  {run : List (Instant × Command)}

/-- Terminal orders stay as they are and tracked ones stay tracked. -/
def Keeps (b b' : Book) : Prop :=
  ∀ id o, b.find? id = some o →
    (o.state.isTerminal = true → b'.find? id = some o) ∧ ∃ p, b'.find? id = some p

theorem Keeps.refl (b : Book) : Keeps b b := by
  intro id o h
  exact ⟨fun _ => h, o, h⟩

theorem Keeps.trans (h₁ : Keeps b b') (h₂ : Keeps b' b'') : Keeps b b'' := by
  intro id o h
  obtain ⟨hsame, p, hp⟩ := h₁ id o h
  refine ⟨fun ht => (h₂ id o (hsame ht)).1 ht, ?_⟩
  exact (h₂ id p hp).2

/-- One order that is not terminal gets other data, or a new one comes in. -/
theorem keeps_insert {k : String} {x : Order} (hb : b'.orders = b.orders.insert k x)
    (hk : ∀ p, b.find? k = some p → p.state.isTerminal = false) : Keeps b b' := by
  intro id o h
  have hfind : b'.find? id = if id = k then some x else b.find? id := by
    rw [find?, hb, Dict.find?_insert, find?]
  rw [hfind]
  by_cases hid : id = k
  · subst hid
    refine ⟨fun ht => ?_, x, if_pos rfl⟩
    rw [hk o h] at ht
    cases ht
  · rw [if_neg hid]
    exact ⟨fun _ => h, o, h⟩

theorem keeps_update (b : Book) (now : Instant) (u : Update) : Keeps b (b.update now u).book := by
  rcases admitted_cases b u with ⟨o, ho, hs⟩ | hr
  · rw [update_of_canStep ho hs]
    apply keeps_insert rfl
    intro p hp
    rw [ho] at hp
    cases hp
    exact OrderState.isTerminal_of_canStep hs
  · obtain ⟨outcome, hu, _⟩ := update_of_refused now hr
    rw [hu]
    exact .refl b

theorem keeps_put (h : b.find? id = some o) (ha : o.state.isTerminal = false) :
    Keeps b (b.put id p) := by
  apply keeps_insert rfl
  intro q hq
  rw [h] at hq
  cases hq
  exact ha

theorem keeps_doubt (b : Book) (now : Instant) (id : String) (d : Doubt) :
    Keeps b (b.doubt now id d).book := by
  have hchange := doubts b now id d
  generalize b.doubt now id d = c at hchange
  cases hchange with
  | lapses ho ha | counts ho ha | sticks ho ha => exact keeps_put ho ha
  | late hl => exact .refl b

theorem keeps_restoreOne (b : Book) (id : String) (o : Order) : Keeps b (b.restoreOne id o).1 := by
  rcases terminal_cases b id with ⟨p, hp, ht⟩ | hopen
  · rw [restoreOne_of_terminal hp ht]
    exact .refl b
  · rw [restoreOne_of_open hopen]
    exact keeps_insert rfl hopen

theorem keeps_restoreFrom (b : Book) (kept : List (String × Order)) :
    Keeps b (b.restoreFrom kept).1 := by
  induction kept generalizing b with
  | nil => exact .refl b
  | cons e rest ih => exact (keeps_restoreOne b e.1 e.2).trans (ih (b.restoreOne e.1 e.2).1)

theorem keeps_perform (hc : ∀ age, c ≠ .purge age) : Keeps b (b.perform now c).book := by
  cases c with
  | track o =>
    cases h : b.find? o.id with
    | some p =>
      rw [perform_track_of_tracked h]
      exact .refl b
    | none =>
      rw [perform_track_of_new h]
      apply keeps_insert rfl
      intro p hp
      rw [h] at hp
      cases hp
  | update u => exact keeps_update b now u
  | markNotFound id => exact keeps_doubt b now id .miss
  | markAmbiguous id => exact keeps_doubt b now id .stall
  | restore kept => exact keeps_restoreFrom b kept.entries
  | purge age => exact (hc age rfl).elim

/-- A purge keeps an order as it is, or drops one that is terminal. -/
theorem find?_perform_purge (now : Instant) (age : Int) (h : b.find? id = some o) :
    (b.perform now (.purge age)).book.find? id = some o ∨
      o.state.isTerminal = true ∧ (b.perform now (.purge age)).book.find? id = none := by
  rcases perform_purge_cases b now age with ⟨cause, hp⟩ | ⟨cutoff, hp⟩
  · rw [hp]
    exact Or.inl h
  · rw [hp, find?_purgeBefore, h]
    cases hs : isStale cutoff o with
    | false => exact Or.inl (by simp [hs])
    | true =>
      have ht : o.state.isTerminal = true := (Bool.and_eq_true_iff.mp hs).1
      exact Or.inr ⟨ht, by simp [hs]⟩

/-- A purge of the run took the order out of the book, and it was terminal then. -/
def PurgedIn (b : Book) (run : List (Instant × Command)) (id : String) : Prop :=
  ∃ pre now age post o, run = pre ++ (now, .purge age) :: post ∧
    (b.performAll pre).1.find? id = some o ∧ o.state.isTerminal = true ∧
    (b.performAll (pre ++ [(now, .purge age)])).1.find? id = none

theorem PurgedIn.cons (h : PurgedIn (b.perform now c).book run id) :
    PurgedIn b ((now, c) :: run) id := by
  obtain ⟨pre, time, age, post, o, rfl, ho, ht, hn⟩ := h
  exact ⟨(now, c) :: pre, time, age, post, o, rfl, ho, ht, hn⟩

/-- One command keeps the order, or it is a purge that drops it. -/
theorem perform_keeps_or_purges (now : Instant) (c : Command) (run : List (Instant × Command))
    (h : b.find? id = some o) :
    ((o.state.isTerminal = true → (b.perform now c).book.find? id = some o) ∧
      ∃ p, (b.perform now c).book.find? id = some p) ∨ PurgedIn b ((now, c) :: run) id := by
  by_cases hc : ∃ age, c = .purge age
  · obtain ⟨age, rfl⟩ := hc
    rcases find?_perform_purge now age h with hk | ⟨ht, hn⟩
    · exact Or.inl ⟨fun _ => hk, o, hk⟩
    · exact Or.inr ⟨[], now, age, run, o, rfl, h, ht, hn⟩
  · exact Or.inl (keeps_perform (fun age he => hc ⟨age, he⟩) id o h)

theorem terminal_kept_or_purged (run : List (Instant × Command)) (h : b.find? id = some o)
    (ht : o.state.isTerminal = true) :
    (b.performAll run).1.find? id = some o ∨ PurgedIn b run id := by
  induction run generalizing b with
  | nil => exact Or.inl h
  | cons e rest ih =>
    obtain ⟨now, c⟩ := e
    rcases perform_keeps_or_purges now c rest h with ⟨hk, _⟩ | hp
    · exact (ih (hk ht)).imp_right PurgedIn.cons
    · exact Or.inr hp

theorem tracked_kept_or_purged (run : List (Instant × Command)) (h : b.find? id = some o) :
    (∃ p, (b.performAll run).1.find? id = some p) ∨ PurgedIn b run id := by
  induction run generalizing b o with
  | nil => exact Or.inl ⟨o, h⟩
  | cons e rest ih =>
    obtain ⟨now, c⟩ := e
    rcases perform_keeps_or_purges now c rest h with ⟨_, p, hp⟩ | hp
    · exact (ih hp).imp_right PurgedIn.cons
    · exact Or.inr hp

/-- At any later point of a run an order that was terminal is the same in all its data, and one that
was tracked is there, unless a purge in between dropped it while it was terminal. -/
theorem terminal_fixed_and_tracked_kept (start : Book) (past future : List (Instant × Command))
    (id : String) (o : Order) (h : (start.performAll past).1.find? id = some o) :
    (o.state.isTerminal = true →
      (start.performAll (past ++ future)).1.find? id = some o ∨
        PurgedIn (start.performAll past).1 future id) ∧
    ((start.performAll (past ++ future)).1.find? id = none →
      PurgedIn (start.performAll past).1 future id) := by
  rw [performAll_append]
  refine ⟨terminal_kept_or_purged future h, ?_⟩
  intro hn
  rcases tracked_kept_or_purged future h with ⟨p, hp⟩ | hp
  · rw [hn] at hp
    cases hp
  · exact hp

/-- A lost order withstands late reports and the return of an older copy. -/
theorem lost_order_fixed :
    let lost := (Order.sample "a").lapse .epoch lostReason
    let b := (fresh .default).put "a" lost
    b.find? "a" = some lost ∧ lost.state.isTerminal = true ∧
      (b.performAll [(.epoch, .update (.toState "a" .opened)), (.epoch, .markNotFound "a"),
        (.epoch, .restore (.ofList [("a", .sample "a")]))]).1.find? "a" = some lost := by
  intro lost b
  have h : (b.performAll []).1.find? "a" = some lost := find?_put_self
  refine ⟨h, rfl, ?_⟩
  rcases (terminal_fixed_and_tracked_kept b [] _ "a" lost h).1 rfl with hk | hp
  · exact hk
  · obtain ⟨pre, now, age, post, p, he, _⟩ := hp
    have hm : (now, Command.purge age) ∈ pre ++ (now, .purge age) :: post := by simp
    rw [← he] at hm
    simp at hm

end SwapDesk.Book
