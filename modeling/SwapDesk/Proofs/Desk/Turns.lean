import SwapDesk.Desk.Run

/-! The desk's own order of turns, while the caller waits for something. Whatever each turn keeps is kept
until then. -/
namespace SwapDesk.Desk

/-- Turns of activities and of the caller keep the property, and it does not matter who is in line and
that time goes by. -/
structure Turning (P : Desk → Prop) : Prop where
  poll : ∀ {d : Desk} (a : Activity), P d → P (d.poll a)
  errand : ∀ {d : Desk}, P d → P d.pollErrand
  elapse : ∀ {d : Desk} (clock : Nat) (ready : List Activity), d.clock ≤ clock → P d →
    P { d with clock, ready }

variable {P : Desk → Prop} {d : Desk} {due : Nat}

theorem lt_of_nextDue? (h : d.nextDue? = some due) : d.clock < due := by
  unfold nextDue? at h
  obtain ⟨a, _, ha⟩ := List.mem_filterMap.mp (List.min?_mem h)
  split at ha
  · rename_i hlt
    cases ha
    exact hlt
  · cases ha

theorem Turning.enqueue (h : Turning P) (hd : P d) : P d.enqueue :=
  h.elapse d.clock _ (Nat.le_refl _) hd

theorem Turning.jump (h : Turning P) (hd : P d) (hdue : d.nextDue? = some due) : P (d.jump due) :=
  h.elapse due _ (Nat.le_of_lt (lt_of_nextDue? hdue)) hd

theorem Turning.serve (h : Turning P) (hd : P d) (a : Activity) (rest : List Activity) :
    P (d.serve a rest) :=
  h.enqueue (h.elapse (d.poll a).clock _ (Nat.le_refl _) (h.poll a hd))

theorem Turning.attend (h : Turning P) (hd : P d) : P d.pollErrand.enqueue := h.enqueue (h.errand hd)

theorem Turning.run (h : Turning P) (n : Nat) (hd : P d) : P (d.run n) := by
  induction n generalizing d with
  | zero => exact hd
  | succ n ih =>
    unfold Desk.run
    split
    · exact ih (h.serve hd _ _)
    · have hattended := h.attend hd
      dsimp only
      split
      · exact hattended
      · split
        · rename_i hdue
          have hj := h.attend (h.jump hattended hdue)
          split
          · exact hj
          · exact ih hj
        · exact hattended
        · exact ih hattended

theorem Turning.await (h : Turning P) {e : Errand} (hd : P { d with errand := e }) :
    P (d.await e) := by
  unfold Desk.await
  dsimp only
  split
  · exact h.attend hd
  · exact h.run turnBound (h.attend hd)

end SwapDesk.Desk
