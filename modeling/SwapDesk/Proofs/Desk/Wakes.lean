import SwapDesk.Proofs.Desk.Rounds
import SwapDesk.Proofs.Desk.Traffic

/-! Who wakes the loop and who tells it to shut down: the ticker, submissions that were accepted, and
callers. Everything else that happens at a desk goes on beside the loop. -/
namespace SwapDesk.Rounds

/-- Every run that has come to the first desk goes on to the second. -/
def Leads (d d' : Desk) : Prop := ∀ beats, Run beats d → ∃ more, Run (beats ++ more) d'

variable {d d' d'' : Desk} {beats : List Beat} {allowed : Command → Prop} {f g : Floor}
  {notes : List Note}

theorem Leads.refl (d : Desk) : Leads d d := fun beats h => ⟨[], (List.append_nil beats).symm ▸ h⟩

theorem Leads.trans (h : Leads d d') (h' : Leads d' d'') : Leads d d'' := by
  intro beats hrun
  obtain ⟨more, hmore⟩ := h beats hrun
  obtain ⟨rest, hrest⟩ := h' _ hmore
  exact ⟨more ++ rest, List.append_assoc .. ▸ hrest⟩

theorem Step.leads {more : List Beat} (h : Step d more d') : Leads d d' :=
  fun _ hrun => ⟨more, hrun.snoc h⟩

theorem leads_beside (h : d.Beside d') : Leads d d' := (Step.beside h).leads

theorem leads_apart (h : d.Apart d') : Leads d d' := leads_beside h.toBeside

theorem leads_wake (d : Desk) : Leads d d.wake := Step.wake.leads

theorem leads_perform (d : Desk) (c : Command) : Leads d (d.perform c).1 :=
  leads_apart (Desk.apart_perform d c)

/-! ### The activities -/

theorem leads_pollTicker (d : Desk) : Leads d d.pollTicker := by
  have hended : Leads d { d with ticker := some .ended } := leads_beside (.of_eq rfl rfl rfl)
  have htick : ∀ due, Leads d (d.tick due) := by
    intro due
    have hwake : Leads d (if d.book.hasActive then d.wake else d) := by
      split
      · exact leads_wake d
      · exact .refl d
    exact hwake.trans (leads_beside (.of_eq rfl rfl rfl))
  unfold Desk.pollTicker
  split
  · split
    · exact hended
    · exact htick d.clock
  · split
    · exact hended
    · split
      · exact htick _
      · exact .refl d
  · exact .refl d

theorem leads_stirs (h : d.Stirs d') : Leads d d' := by
  obtain ⟨e, he, rfl | rfl⟩ := h
  · exact leads_apart he
  · exact (leads_apart he).trans (leads_wake e)

theorem leads_poll (d : Desk) (a : Activity) : Leads d (d.poll a) := by
  cases a with
  | loop => exact Step.turn.leads
  | ticker => exact leads_pollTicker d
  | sending n =>
    simp only [Desk.poll]
    split
    · exact leads_stirs (Desk.stirs_pollSending d _)
    · exact .refl d
  | delayed n =>
    simp only [Desk.poll]
    split
    · exact leads_apart (Desk.apart_pollDelayed d _)
    · exact .refl d

theorem leads_pollErrand (d : Desk) : Leads d d.pollErrand := leads_apart (Desk.apart_pollErrand d)

/-- So the desk's own order of turns is part of a run. -/
theorem turning_leads (d : Desk) : Desk.Turning (Leads d) where
  poll a h := h.trans (leads_poll _ a)
  errand h := h.trans (leads_pollErrand _)
  elapse _ _ _ h := h.trans (leads_beside (.of_eq rfl rfl rfl))

/-- While a caller waits for something, the loop goes on with its run. -/
theorem exists_run_of_await (hrun : Run beats d) (e : Errand) : ∃ beats, Run beats (d.await e) := by
  have hleads : Leads d (d.await e) := (turning_leads d).await (leads_beside (.of_eq rfl rfl rfl))
  obtain ⟨more, hmore⟩ := hleads beats hrun
  exact ⟨_, hmore⟩

/-! ### The callers -/

/-- A step on the floor goes on beside the loop or is a step of its run, unless it starts the loop. -/
theorem leads_step (h : Floor.Step f notes g) : Leads f.desk g.desk ∨ g.desk = f.desk.begin := by
  cases h with
  | turn a => exact Or.inl (leads_poll f.desk a)
  | errand => exact Or.inl (leads_pollErrand f.desk)
  | start _ => exact Or.inr rfl
  | stop _ =>
    have htold : Leads f.desk { f.desk with shutdown := ⟨true, false⟩ } := (Step.tell rfl).leads
    exact Or.inl (htold.trans (leads_beside (.of_eq rfl rfl rfl)))
  | track i o _ => exact Or.inl (leads_perform _ (.track o))
  | refuse i o _ => exact Or.inl (leads_perform _ (.track o))
  | purge age => exact Or.inl (leads_perform f.desk (.purge age))
  | wake => exact Or.inl (leads_wake f.desk)
  | ask _ => exact Or.inl (leads_apart (Desk.apart_ask f.desk _))
  | charge id => exact Or.inl (leads_apart (Desk.apart_commit f.desk _ _ _))
  | settle native _ _ => exact Or.inl (leads_apart (Desk.apart_commit _ _ _ _))
  | _ => exact Or.inl (leads_beside (.of_eq rfl rfl rfl))

/-- Once the loop was started, it is on a run whatever callers, submissions and pollers do; each new start
begins a new one. -/
theorem exists_run_of_traffic (h : Floor.Traffic allowed f notes g) (hrun : Run beats f.desk) :
    ∃ beats, Run beats g.desk := by
  induction h with
  | refl => exact ⟨beats, hrun⟩
  | step _ hstep ih =>
    obtain ⟨earlier, hearlier⟩ := ih
    rcases leads_step hstep with hleads | hbegin
    · obtain ⟨more, hmore⟩ := hleads earlier hearlier
      exact ⟨_, hmore⟩
    · refine ⟨_, .start ?_⟩
      rw [hbegin]
      rfl
  | @command g notes c _ _ ih =>
    obtain ⟨earlier, hearlier⟩ := ih
    obtain ⟨more, hmore⟩ := leads_perform g.desk c earlier hearlier
    exact ⟨_, hmore⟩

end SwapDesk.Rounds
