import SwapDesk.Proofs.Desk.Ledger

/-! What one step on the floor does to the account of submissions, and who writes to the book in it. -/
namespace SwapDesk

namespace Desk

variable {a : Activity}

/-- The account after the request of a submission was sent. -/
def postedBusiness (d : Desk) (s : Sending) : Business :=
  { d.business with submitted := d.submitted ++ [s.instruction.request d.settings] }

@[simp] theorem business_send (d : Desk) (s : Sending) : (d.send s).1.business = d.postedBusiness s := by
  have hsub : (d.send s).1.submitted = d.submitted ++ [s.instruction.request d.settings] := by
    simp [send, ask, setAlarm, submitted, Instruction.isSubmission_request]
  exact congrArg (Business.mk d.settings d.issuer d.serials d.sendings d.delays) hsub

theorem business_finishSending (d : Desk) (s : Sending) (reply : Except Failure Accepted) :
    (d.finishSending s reply).business =
      { d.business with sendings := d.sendings.filter (·.serial ≠ s.serial) } := by
  cases reply with
  | error f =>
    simp only [finishSending, business_commit]
    rfl
  | ok a =>
    simp only [finishSending, business_wake, business_commit]
    rfl

theorem book_finishSending (d : Desk) (s : Sending) (reply : Except Failure Accepted) :
    (d.finishSending s reply).book =
      (d.book.update d.now (submissionReport s.order s.kind reply)).book := by
  cases reply with
  | error f => simp only [finishSending, book_commit]
  | ok a => simp only [finishSending, book_wake, book_commit]

/-- A submission that goes on sends its request if it has not done so, and ends when the answer is
there. -/
theorem book_pollSending (d : Desk) (s : Sending) :
    (d.pollSending s).book = d.book ∨
      (d.pollSending s).book =
        (d.book.update d.now (submissionReport s.order s.kind (d.replyTo s))).book := by
  cases hr : s.reply with
  | none =>
    simp only [pollSending, hr, replyTo]
    split
    · exact Or.inr (book_finishSending (d.send s).1 s _)
    · exact Or.inl rfl
  | some a =>
    simp only [pollSending, hr, replyTo]
    split
    · exact Or.inr (book_finishSending d s a.reply)
    · exact Or.inl rfl

end Desk

namespace Ledger

variable {nonce : String} {d : Desk} {placings : List Placing} {notes : List Note} {s : Sending}

theorem answer_of_answered {sendings : List Sending} {a : Arrival Accepted}
    (hn : (sendings.map (·.serial)).Nodup) (hs : s ∈ sendings) (ha : s.reply = some a) :
    answer sendings s.serial a = sendings := by
  obtain ⟨l, l', rfl, hdiff⟩ := exists_split hn hs
  rw [answer_split hdiff]
  simp [Sending.answered, ← ha]

theorem filter_answer (sendings : List Sending) (n : Nat) (a : Arrival Accepted) :
    (answer sendings n a).filter (·.serial ≠ n) = sendings.filter (·.serial ≠ n) := by
  induction sendings with
  | nil => rfl
  | cons t rest ih =>
    unfold answer at ih ⊢
    by_cases ht : t.serial = n
    · simp [ht, Sending.answered] at ih ⊢
      exact ih
    · simp [ht] at ih ⊢
      exact ih

theorem pollSending (h : Ledger nonce d.business placings notes) (hs : s ∈ d.sendings) :
    Ledger nonce (d.pollSending s).business placings
      (notes ++ if s.reply.isNone then [.sent s.order s.instruction (d.replyTo s)] else []) := by
  cases hr : s.reply with
  | none =>
    have hpost := h.post hs hr (d.send s).2
    simp only [Desk.pollSending, Desk.replyTo, hr]
    split
    · have hend := hpost.withdraw (·.serial ≠ s.serial)
      rw [filter_answer] at hend
      rw [Desk.business_finishSending, Desk.business_send]
      exact hend
    · change Ledger nonce { (d.send s).1.business with
        sendings := answer d.sendings s.serial (d.send s).2 } placings _
      rw [Desk.business_send]
      exact hpost
  | some a =>
    have hnotes : (if (some a).isNone = true
        then [Note.sent s.order s.instruction (d.replyTo s)] else []) = [] := rfl
    rw [hnotes, List.append_nil]
    simp only [Desk.pollSending, hr]
    split
    · rw [Desk.business_finishSending]
      exact h.withdraw _
    · have hsame : answer d.sendings s.serial a = d.sendings := answer_of_answered h.serials hs hr
      change Ledger nonce { d.business with sendings := answer d.sendings s.serial a } placings notes
      rw [hsame]
      exact h

end Ledger
namespace Desk

variable {d : Desk} {s : Sending} {n : Nat} {a : Activity}

/-- The caller polls, or breaks off all submissions. -/
theorem pollErrand_cases (d : Desk) :
    Polls d d.pollErrand ∨
      d.pollErrand.book = d.book ∧ d.pollErrand.business = { d.business with sendings := [] } := by
  have hsubmissions : ∀ d' deadline, Polls d d' → d'.book = d.book →
      Polls d (d'.pollSubmissions deadline) ∨ (d'.pollSubmissions deadline).book = d.book ∧
        (d'.pollSubmissions deadline).business = { d.business with sendings := [] } := by
    intro d' deadline hp hb
    unfold pollSubmissions
    split
    · exact Or.inl (hp.trans (.of_eq rfl rfl))
    · split
      · refine Or.inr ⟨hb, ?_⟩
        rw [← hp.business]
        rfl
      · exact Or.inl (hp.trans (.of_eq rfl rfl))
  unfold pollErrand
  split
  · exact Or.inl ((polls_pollVisit d .caller _).trans (.of_eq rfl rfl))
  · exact Or.inl ((polls_pollPass d _).trans (.of_eq rfl rfl))
  · split
    · exact hsubmissions _ _ (polls_setAlarm d (d.clock + d.settings.requestTimeout)) rfl
    · exact Or.inl (.refl d)
  · exact hsubmissions d _ (.refl d) rfl
  · exact Or.inl (.refl d)

/-- A turn of the desk is one of a poller, or one of a submission. -/
theorem poll_cases (hd : d.delays = []) (a : Activity) :
    Polls d (d.poll a) ∧ d.notes a = [] ∨
      ∃ s ∈ d.sendings, d.poll a = d.pollSending s ∧
        d.notes a = if s.reply.isNone then [.sent s.order s.instruction (d.replyTo s)] else [] := by
  cases a with
  | loop => exact Or.inl ⟨polls_pollLoop d, rfl⟩
  | ticker => exact Or.inl ⟨polls_pollTicker d, rfl⟩
  | sending n =>
    cases hf : d.sendings.find? (·.serial = n) with
    | none => exact Or.inl ⟨by simpa [poll, hf] using Polls.refl d, by simp [notes, hf]⟩
    | some s =>
      exact Or.inr ⟨s, List.mem_of_find?_eq_some hf, by simp [poll, hf], by simp [notes, hf]⟩
  | delayed n => exact Or.inl ⟨by simpa [poll, hd] using Polls.refl d, rfl⟩

end Desk

namespace Floor

/-- The books that somebody can make of the floor's book in one step, with what is noted at it. -/
inductive Writes (f : Floor) (notes : List Note) : Book → Prop
  | polled {b : Book} (h : Book.Polled f.desk.book b) : Writes f notes b
  | purged (now : Instant) (age : Int) :
      Writes f notes (f.desk.book.perform now (.purge age)).book
  | tracked {i : Instruction} {o : Order} (now : Instant) (h : .named i o ∈ f.placings) :
      Writes f notes (f.desk.book.perform now (.track o)).book
  | reported {s : Sending} (now : Instant) (h : s ∈ f.desk.sendings)
      (hn : s.reply = none → .sent s.order s.instruction (f.desk.replyTo s) ∈ notes) :
      Writes f notes (f.desk.book.update now
        (submissionReport s.order s.kind (f.desk.replyTo s))).book
  | settled {q : Inquiry} {reply : TransactionReply} {o : Order} (now : Instant)
      (native : Option String) (r : Resolution) (h : ⟨q, reply, o⟩ ∈ f.findings) :
      Writes f notes
        ((f.desk.book.resolve now native q o r).getD (f.desk.book.keep .unknown)).book

variable {nonce : String} {f g : Floor} {notes more : List Note}

theorem Writes.of_eq {b : Book} (h : b = f.desk.book) : Writes f notes b :=
  .polled (h ▸ .refl f.desk.book)

theorem Step.writes (h : Step f notes g) (hd : f.desk.delays = []) :
    Writes f notes g.desk.book := by
  cases h with
  | turn a =>
    rcases Desk.poll_cases hd a with ⟨hp, _⟩ | ⟨s, hs, hp, hn⟩
    · exact .polled hp.book
    · rcases Desk.book_pollSending f.desk s with hb | hb
      · exact .of_eq (hp ▸ hb)
      · have hw : Writes f (f.desk.notes a) (f.desk.pollSending s).book := by
          rw [hb]
          refine .reported f.desk.now hs ?_
          intro hr
          simp [hn, hr]
        exact hp ▸ hw
  | errand =>
    rcases Desk.pollErrand_cases f.desk with hp | ⟨hb, _⟩
    · exact .polled hp.book
    · exact .of_eq hb
  | name i t => exact .of_eq rfl
  | @track d before after findings i o hv =>
    have hm : .named i o ∈ before ++ .named i o :: after := by simp
    exact (Desk.book_commit ..).symm ▸ .tracked d.now hm
  | @refuse d before after findings i o hv =>
    have hm : .named i o ∈ before ++ .named i o :: after := by simp
    exact (Desk.book_commit ..).symm ▸ .tracked d.now hm
  | purge age => exact (Desk.book_commit ..).symm ▸ .purged f.desk.now age
  | wake => exact .of_eq f.desk.book_wake
  | charge id => exact (Desk.book_commit ..).symm ▸ .polled (Book.polled_markNotFound _ _ id)
  | @settle d placings before after q reply o r c native hr hc =>
    have hm : ⟨q, reply, o⟩ ∈ before ++ ⟨q, reply, o⟩ :: after := by simp
    have hw : Writes ⟨d, placings, _⟩ [] ((d.book.resolve d.now native q o r).getD _).book :=
      .settled d.now native r hm
    rw [hc] at hw
    exact (Desk.book_commit ..).symm ▸ hw
  | _ => exact .of_eq rfl

/-- Nothing is noted at the step. -/
theorem unnoted {b b' : Business} {placings : List Placing} (h : Ledger nonce b placings notes)
    (hb : b' = b) : Ledger nonce b' placings (notes ++ []) := by
  rw [List.append_nil, hb]
  exact h

/-- The account stays in order. -/
theorem Step.ledger (h : Step f more g) (hl : Ledger nonce f.desk.business f.placings notes) :
    Ledger nonce g.desk.business g.placings (notes ++ more) := by
  cases h with
  | turn a =>
    rcases Desk.poll_cases hl.undelayed a with ⟨hp, hn⟩ | ⟨s, hs, hp, hn⟩
    · rw [hn]
      exact unnoted hl hp.business
    · rw [hn]
      exact hp.symm ▸ hl.pollSending hs
  | errand =>
    rcases Desk.pollErrand_cases f.desk with hp | ⟨_, hb⟩
    · exact unnoted hl hp.business
    · have hw := hl.withdraw fun _ => false
      rw [List.filter_false] at hw
      exact unnoted hw hb
  | takeOn ht => exact unnoted (hl.takeOn _ _) rfl
  | name i t => exact hl.name _
  | track i o hv => exact unnoted hl.track (Desk.business_commit ..)
  | refuse i o hv => exact unnoted hl.drop (Desk.business_commit ..)
  | submit i kind id => exact unnoted hl.submit rfl
  | abort n => exact unnoted (hl.withdraw _) rfl
  | purge age => exact unnoted hl (Desk.business_commit ..)
  | wake => exact unnoted hl f.desk.business_wake
  | ask hr => exact unnoted hl (f.desk.business_ask hr)
  | charge id => exact unnoted hl (Desk.business_commit ..)
  | settle native hr hc => exact unnoted hl (Desk.business_commit ..)
  | _ => exact unnoted hl rfl

end Floor
end SwapDesk
