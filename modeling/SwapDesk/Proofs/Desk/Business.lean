import SwapDesk.Desk.Run
import SwapDesk.Proofs.Pass.Polled

/-! What submissions depend on besides the book, and what the reconciler depends on. Whoever polls the book
leaves both alone. -/
namespace SwapDesk

/-- A request that has something done on the chain. -/
def Request.isSubmission : Request → Bool
  | trade _ | approve _ | addLiquidity _ | removeLiquidity _ => true
  | _ => false

/-- Requests of the reconciler. -/
def Request.isReconciling : Request → Bool
  | balances _ | network _ => true
  | _ => false

structure Business where
  settings : Settings
  issuer : Issuer
  serials : Nat
  sendings : List Sending
  delays : List Delayed
  /-- The submissions that the gateway has received. -/
  submitted : List Request

/-- Time may have passed and the gateway may answer otherwise from now on, but the reconciler is as it
was, and so are its lock and its requests. -/
structure Aside (d d' : Desk) : Prop where
  reconciler : d'.reconciler = d.reconciler
  lock : d'.lock = d.lock
  clock : d.clock ≤ d'.clock
  asked : (d'.asked.map (·.request)).filter Request.isReconciling =
    (d.asked.map (·.request)).filter Request.isReconciling

/-- A visit that is not over. -/
def Visit.ongoing? (v : Visit) : Option Visit := if v.isOver then none else some v

def Loop.visit? : Loop → Option Visit
  | startup v => v.ongoing?
  | cycle _ v _ => v.ongoing?
  | _ => none

def Errand.visit? : Errand → Option Visit
  | visit v => v.ongoing?
  | _ => none

@[simp] theorem Loop.visit?_ring (l : Loop) : l.ring.visit? = l.visit? := by
  cases l <;> rfl

@[simp] theorem Errand.visit?_ring (e : Errand) : e.ring.visit? = e.visit? := by
  cases e <;> rfl

namespace Desk

/-- The visit to the reconciler that a party is at. -/
def visitOf (d : Desk) : Party → Option Visit
  | .loop => d.loop.bind Loop.visit?
  | .caller => d.errand.visit?

/-- The reconciler was left alone, and the visits to it go on. -/
structure Elsewhere (d d' : Desk) : Prop extends Aside d d' where
  visits : d'.visitOf = d.visitOf

def submitted (d : Desk) : List Request := (d.asked.map (·.request)).filter Request.isSubmission

def business (d : Desk) : Business :=
  ⟨d.settings, d.issuer, d.serials, d.sendings, d.delays, d.submitted⟩

variable {d d' d'' : Desk} {r : Request} {work more : List (Instant × Piece)}
  {report : PollReport} {stop : Option Overflow}

theorem business_ask (d : Desk) (h : r.isSubmission = false) :
    (d.ask r).1.business = d.business := by
  have hs : (d.ask r).1.submitted = d.submitted := by
    simp [submitted, ask, setAlarm, h]
  exact congrArg (Business.mk d.settings d.issuer d.serials d.sendings d.delays) hs

@[simp] theorem book_commit (d : Desk) (b : Book) (events : List Event) (gotHash : Bool) :
    (d.commit b events gotHash).book = b := by
  cases gotHash <;> rfl

@[simp] theorem feed_commit (d : Desk) (b : Book) (events : List Event) (gotHash : Bool) :
    (d.commit b events gotHash).feed = d.feed.publishAll events := by
  cases gotHash <;> rfl

@[simp] theorem business_commit (d : Desk) (b : Book) (events : List Event) (gotHash : Bool) :
    (d.commit b events gotHash).business = d.business := by
  cases gotHash <;> rfl

@[simp] theorem book_wake (d : Desk) : d.wake.book = d.book := by
  unfold wake
  split
  · rfl
  · rfl

@[simp] theorem business_wake (d : Desk) : d.wake.business = d.business := by
  unfold wake
  split
  · rfl
  · rfl

theorem Elsewhere.of_eq (hr : d'.reconciler = d.reconciler) (hl : d'.lock = d.lock)
    (hc : d'.clock = d.clock) (ha : d'.asked = d.asked) (hv : d'.visitOf = d.visitOf) :
    Elsewhere d d' :=
  ⟨⟨hr, hl, Nat.le_of_eq hc.symm, by rw [ha]⟩, hv⟩

theorem Elsewhere.refl (d : Desk) : Elsewhere d d := .of_eq rfl rfl rfl rfl rfl

theorem Elsewhere.trans (h : Elsewhere d d') (h' : Elsewhere d' d'') : Elsewhere d d'' where
  reconciler := h'.reconciler.trans h.reconciler
  lock := h'.lock.trans h.lock
  clock := Nat.le_trans h.clock h'.clock
  asked := h'.asked.trans h.asked
  visits := h'.visits.trans h.visits

theorem elsewhere_setAlarm (d : Desk) (due : Nat) : Elsewhere d (d.setAlarm due).1 :=
  .of_eq rfl rfl rfl rfl rfl

theorem elsewhere_ask (d : Desk) (h : r.isReconciling = false) : Elsewhere d (d.ask r).1 :=
  ⟨⟨rfl, rfl, Nat.le_refl _, by simp [ask, setAlarm, h]⟩, rfl⟩

theorem elsewhere_commit (d : Desk) (b : Book) (events : List Event) (gotHash : Bool) :
    Elsewhere d (d.commit b events gotHash) := by
  cases gotHash with
  | false => exact .of_eq rfl rfl rfl rfl rfl
  | true =>
    refine .of_eq rfl rfl rfl rfl (funext fun who => ?_)
    cases who with
    | loop => cases hl : d.loop <;> simp [visitOf, commit, ringHashes, hl]
    | caller => exact Errand.visit?_ring d.errand

/-- The second desk is the first one after these pieces of work and nothing else of interest. The work
breaks off at its last piece if there is a cause. -/
structure Does (work : List (Instant × Piece)) (stop : Option Overflow) (d d' : Desk) : Prop where
  worked : ∃ events, Book.Worked d.reconciler.native d.book work events stop d'.book ∧
    d'.feed = d.feed.publishAll events
  elsewhere : Elsewhere d d'
  business : d'.business = d.business

theorem Does.reconciler (h : Does work stop d d') : d'.reconciler = d.reconciler :=
  h.elsewhere.reconciler

theorem Does.of_eq (hb : d'.book = d.book) (hf : d'.feed = d.feed) (he : Elsewhere d d')
    (hs : d'.business = d.business) : Does [] none d d' where
  worked := by
    refine ⟨[], ?_, hf⟩
    rw [hb]
    exact .nil d.book
  elsewhere := he
  business := hs

theorem Does.refl (d : Desk) : Does [] none d d := .of_eq rfl rfl (.refl d) rfl

theorem Does.trans (h : Does work none d d') (h' : Does more stop d' d'') :
    Does (work ++ more) stop d d'' := by
  obtain ⟨events, hw, hf⟩ := h.worked
  obtain ⟨later, hw', hf'⟩ := h'.worked
  rw [h.reconciler] at hw'
  refine ⟨⟨events ++ later, hw.append hw', ?_⟩, h.elsewhere.trans h'.elsewhere,
    h'.business.trans h.business⟩
  rw [hf', hf, Feed.publishAll, Feed.publishAll, Feed.publishAll, List.foldl_append]

theorem does_ask (d : Desk) (h : r.isSubmission = false) (hr : r.isReconciling = false) :
    Does [] none d (d.ask r).1 :=
  .of_eq rfl rfl (elsewhere_ask d hr) (d.business_ask h)

theorem does_setAlarm (d : Desk) (due : Nat) : Does [] none d (d.setAlarm due).1 :=
  .of_eq rfl rfl (elsewhere_setAlarm d due) rfl

theorem does_takeTally {t : Tally} {events : List Event}
    (hw : Book.Worked d.reconciler.native d.book work events stop t.book) (he : t.events = events) :
    Does work stop d (d.takeTally t) where
  worked := ⟨events, by simpa [takeTally] using hw, by simp [takeTally, he]⟩
  elsewhere := elsewhere_commit d t.book t.events t.gotHash
  business := by simp [takeTally]

section Answers
variable {q : Inquiry} {reply : Except Failure TransactionReply}

/-- The tally of an answer on a desk. -/
def answered (d : Desk) (report : PollReport) (q : Inquiry) (reply : Except Failure TransactionReply) :
    Except Break Tally :=
  (Tally.start d.book report).answer d.now d.reconciler.native q reply

theorem answered_of_answer {next : Desk × PollReport} (h : d.answer report q reply = .ok next) :
    ∃ t, d.answered report q reply = .ok t ∧ next = (d.takeTally t, t.report) := by
  unfold answer at h
  split at h
  · cases h
  · rename_i t ht
    exact ⟨t, ht, (Except.ok.inj h).symm⟩

/-- Where the pass breaks off, the desk keeps what was done. -/
theorem answered_of_broken_answer {cause : Overflow}
    (h : d.answer report q reply = .error (d', cause)) :
    ∃ t, d.answered report q reply = .error ⟨t, cause⟩ ∧ d' = d.takeTally t := by
  unfold answer at h
  split at h
  · rename_i x hx
    cases h
    exact ⟨x.tally, hx, rfl⟩
  · cases h

theorem does_answered (d : Desk) (report : PollReport) (q : Inquiry)
    (reply : Except Failure TransactionReply) :
    let out := d.answered report q reply
    Does [(d.now, .answer q reply)] (Tally.broken? out) d (d.takeTally (Tally.reached out)) := by
  obtain ⟨events, hw, he⟩ := Book.worked_work (.start d.book report) d.reconciler.native
    (d.now, .answer q reply)
  exact does_takeTally hw he

theorem does_answer {report' : PollReport} (h : d.answer report q reply = .ok (d', report')) :
    Does [(d.now, .answer q reply)] none d d' := by
  have hdoes := d.does_answered report q reply
  obtain ⟨t, ht, hnext⟩ := answered_of_answer h
  cases hnext
  rw [ht] at hdoes
  exact hdoes

theorem does_broken_answer {cause : Overflow} (h : d.answer report q reply = .error (d', cause)) :
    Does [(d.now, .answer q reply)] (some cause) d d' := by
  have hdoes := d.does_answered report q reply
  obtain ⟨t, ht, rfl⟩ := answered_of_broken_answer h
  rw [ht] at hdoes
  exact hdoes

end Answers
end Desk
end SwapDesk
