import SwapDesk.Proofs.Desk.Frame

/-! What the other activities and the caller leave alone besides the book and the business: the loop and
the ticker, and whatever these two go by. A submission may raise the wake signal in the end. -/
namespace SwapDesk.Desk

/-- The loop, its permit and the request to shut down were left alone; but a pass of the loop that waits
for hashes may have heard that one came. -/
structure Beside (d d' : Desk) : Prop where
  permit : d'.permit = d.permit
  shutdown : d'.shutdown = d.shutdown
  loop : d'.loop = d.loop ∨ d'.loop = d.loop.map Loop.ring

/-- So was the ticker, and the desk is running or not as it was. -/
structure Apart (d d' : Desk) : Prop extends Beside d d' where
  ticker : d'.ticker = d.ticker
  running : d'.running = d.running

/-- Somebody was at work apart from the loop and may have woken it in the end. -/
def Stirs (d d' : Desk) : Prop := ∃ e, Apart d e ∧ (d' = e ∨ d' = e.wake)

variable {d d' d'' : Desk} {p : Pass} {report : PollReport} {q : Inquiry}
  {reply : Except Failure TransactionReply}

theorem ring_ring (l : Loop) : l.ring.ring = l.ring := by
  cases l with
  | cycle t v p => cases p <;> rfl
  | _ => rfl

theorem Beside.of_eq (hp : d'.permit = d.permit) (hs : d'.shutdown = d.shutdown)
    (hl : d'.loop = d.loop) : Beside d d' := ⟨hp, hs, Or.inl hl⟩

theorem Beside.trans (h : Beside d d') (h' : Beside d' d'') : Beside d d'' where
  permit := h'.permit.trans h.permit
  shutdown := h'.shutdown.trans h.shutdown
  loop := by
    rcases h.loop with he | he
    · rw [← he]
      exact h'.loop
    · refine Or.inr ?_
      rcases h'.loop with he' | he'
      · exact he'.trans he
      · rw [he', he]
        cases d.loop with
        | none => rfl
        | some l => exact congrArg some (ring_ring l)

theorem Apart.of_eq (hp : d'.permit = d.permit) (hs : d'.shutdown = d.shutdown)
    (hl : d'.loop = d.loop) (ht : d'.ticker = d.ticker) (hr : d'.running = d.running) :
    Apart d d' := ⟨.of_eq hp hs hl, ht, hr⟩

theorem Apart.refl (d : Desk) : Apart d d := .of_eq rfl rfl rfl rfl rfl

theorem Apart.trans (h : Apart d d') (h' : Apart d' d'') : Apart d d'' :=
  ⟨h.toBeside.trans h'.toBeside, h'.ticker.trans h.ticker, h'.running.trans h.running⟩

theorem apart_setAlarm (d : Desk) (due : Nat) : Apart d (d.setAlarm due).1 :=
  .of_eq rfl rfl rfl rfl rfl

theorem apart_ask (d : Desk) (r : Request) : Apart d (d.ask r).1 := .of_eq rfl rfl rfl rfl rfl

theorem apart_commit (d : Desk) (b : Book) (events : List Event) (gotHash : Bool) :
    Apart d (d.commit b events gotHash) := by
  cases gotHash with
  | false => exact .of_eq rfl rfl rfl rfl rfl
  | true => exact ⟨⟨rfl, rfl, Or.inr rfl⟩, rfl, rfl⟩

theorem Consults.apart (h : Consults d d') : Apart d d' := by
  obtain ⟨_, _, _, _, _, rfl⟩ := h
  exact .of_eq rfl rfl rfl rfl rfl

theorem apart_takeTally (d : Desk) (t : Tally) : Apart d (d.takeTally t) :=
  apart_commit d t.book t.events t.gotHash

theorem apart_answer {after : Desk × PollReport} (h : d.answer report q reply = .ok after) :
    Apart d after.1 := by
  obtain ⟨t, _, rfl⟩ := answered_of_answer h
  exact apart_takeTally d t

theorem apart_broken_answer {cause : Overflow} (h : d.answer report q reply = .error (d', cause)) :
    Apart d d' := by
  obtain ⟨t, _, rfl⟩ := answered_of_broken_answer h
  exact apart_takeTally d t

theorem apart_collect (d : Desk) (report : PollReport) (kept queries : List Query) :
    Apart d (d.collect report kept queries).1 := by
  induction queries generalizing d report kept with
  | nil => exact .refl d
  | cons q rest ih =>
    unfold collect
    split
    · split
      · rename_i ha
        exact apart_broken_answer ha
      · rename_i ha
        exact (apart_answer ha).trans (ih _ _ kept)
    · exact ih d report _

theorem apart_askAll (d : Desk) (report : PollReport) (kept : List Query)
    (questions : List Inquiry) : Apart d (d.askAll report kept questions).1 := by
  induction questions generalizing d report kept with
  | nil => exact .refl d
  | cons q rest ih =>
    have hask := apart_ask d (.transaction ⟨d.settings.chain, d.settings.network, q.hash⟩)
    unfold askAll
    dsimp only
    split
    · split
      · rename_i ha
        exact hask.trans (apart_broken_answer ha)
      · rename_i ha
        exact (hask.trans (apart_answer ha)).trans (ih _ _ kept)
    · exact hask.trans (ih _ report _)

theorem apart_chargeAndAsk (d : Desk) (ready : List Inquiry) (missing : List String) :
    Apart d (d.chargeAndAsk ready missing).1 := by
  unfold chargeAndAsk
  split
  · exact apart_takeTally d _
  · exact (apart_takeTally d _).trans (apart_askAll _ _ [] ready)

theorem apart_awaitHashes (d : Desk) (ready : List Inquiry) (missing : List String) (due : Nat) :
    Apart d (d.awaitHashes ready missing due).1 := by
  unfold awaitHashes
  dsimp only
  split
  · exact apart_chargeAndAsk d _ _
  · exact apart_setAlarm d due

theorem apart_pollPass (d : Desk) (p : Pass) : Apart d (d.pollPass p).1 := by
  cases p with
  | fresh =>
    simp only [pollPass, beginPass]
    split
    · exact .refl d
    · exact apart_awaitHashes d _ _ _
  | awaiting ready missing deadline rung =>
    simp only [pollPass]
    split
    · exact apart_awaitHashes d _ _ _
    · split
      · exact apart_chargeAndAsk d _ _
      · exact .refl d
  | querying queries report => exact apart_collect d report [] queries
  | ended result => exact .refl d

theorem apart_pollSubmissions (d : Desk) (deadline : Alarm) : Apart d (d.pollSubmissions deadline) := by
  unfold pollSubmissions
  split
  · exact .of_eq rfl rfl rfl rfl rfl
  · split
    · exact .of_eq rfl rfl rfl rfl rfl
    · exact .of_eq rfl rfl rfl rfl rfl

/-- The caller polls, and works with the reconciler, by himself. -/
theorem apart_pollErrand (d : Desk) : Apart d d.pollErrand := by
  unfold pollErrand
  split
  · exact (consults_pollVisit d .caller _).apart.trans (.of_eq rfl rfl rfl rfl rfl)
  · exact (apart_pollPass d _).trans (.of_eq rfl rfl rfl rfl rfl)
  · split
    · exact (apart_setAlarm d (d.clock + d.settings.requestTimeout)).trans (apart_pollSubmissions _ _)
    · exact .refl d
  · exact apart_pollSubmissions d _
  · exact .refl d

/-! ### Submissions and delayed commands -/

theorem Apart.stirs (h : Apart d d') : Stirs d d' := ⟨d', h, Or.inl rfl⟩

theorem Apart.trans_stirs (h : Apart d d') (h' : Stirs d' d'') : Stirs d d'' := by
  obtain ⟨e, he, hend⟩ := h'
  exact ⟨e, h.trans he, hend⟩

theorem stirs_finishSending (d : Desk) (s : Sending) (reply : Except Failure Accepted) :
    Stirs d (d.finishSending s reply) := by
  let change := d.book.update d.now (submissionReport s.order s.kind reply)
  let dropped : Desk := { d with sendings := d.sendings.filter (·.serial ≠ s.serial) }
  have hdropped : Apart d dropped := .of_eq rfl rfl rfl rfl rfl
  have hcommit := hdropped.trans (apart_commit dropped change.book change.events change.gotHash)
  cases reply with
  | ok a => exact ⟨_, hcommit, Or.inr rfl⟩
  | error cause => exact hcommit.stirs

theorem stirs_pollSending (d : Desk) (s : Sending) : Stirs d (d.pollSending s) := by
  have hsend : Apart d (d.send s).1 := apart_ask d _
  unfold pollSending
  cases s.reply with
  | none =>
    dsimp only
    split
    · exact hsend.trans_stirs (stirs_finishSending _ s _)
    · exact hsend.trans_stirs (Apart.stirs (.of_eq rfl rfl rfl rfl rfl))
  | some a =>
    dsimp only
    split
    · exact stirs_finishSending d s a.reply
    · exact Apart.stirs (.of_eq rfl rfl rfl rfl rfl)

theorem apart_perform (d : Desk) (c : Command) : Apart d (d.perform c).1 := apart_commit d _ _ _

theorem apart_pollDelayed (d : Desk) (s : Delayed) : Apart d (d.pollDelayed s) := by
  have halarm := apart_setAlarm d (d.clock + s.wait)
  have hover : ∀ d : Desk,
      Apart d ({ d with delays := d.delays.filter (·.serial ≠ s.serial) }.perform s.command).1 := by
    intro d
    have hdropped : Apart d { d with delays := d.delays.filter (·.serial ≠ s.serial) } :=
      .of_eq rfl rfl rfl rfl rfl
    exact hdropped.trans (apart_perform _ s.command)
  unfold pollDelayed
  cases s.alarm with
  | none =>
    dsimp only
    split
    · exact halarm.trans (hover _)
    · exact halarm.trans (.of_eq rfl rfl rfl rfl rfl)
  | some alarm =>
    dsimp only
    split
    · exact hover d
    · exact .of_eq rfl rfl rfl rfl rfl

end SwapDesk.Desk
