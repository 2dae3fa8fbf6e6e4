import SwapDesk.Proofs.Desk.Frame
import SwapDesk.Proofs.Desk.Turns

/-! A desk whose gateway cannot be reached, with no submission under way. All that its pollers ever do to
the book is to charge orders that have no hash. -/
namespace SwapDesk

/-! ### The gateway -/

def ScriptedReply.Fails (r : ScriptedReply) : Prop := ∃ f, r.content = .error f

/-- Every reply that is still to come is a failure. -/
structure Script.Silent (s : Script) : Prop where
  byCall : ∀ call replies, s.byCall.find? call = some replies → ∀ r ∈ replies, r.Fails
  byHash : ∀ hash replies, s.byHash.find? hash = some replies → ∀ r ∈ replies, r.Fails

namespace Script

variable {s : Script} {r : Request} {replies : List ScriptedReply}

theorem silent_empty : Silent .empty := ⟨by rintro _ _ ⟨⟩, by rintro _ _ ⟨⟩⟩

theorem fails_next (h : ∀ r ∈ replies, r.Fails) :
    (next replies).1.Fails ∧ ∀ r ∈ (next replies).2, r.Fails := by
  match replies with
  | [] => exact ⟨⟨_, rfl⟩, h⟩
  | [r] => exact ⟨h r (List.mem_singleton_self r), h⟩
  | r :: r' :: rest => exact ⟨h r List.mem_cons_self, fun q hq => h q (List.mem_cons_of_mem r hq)⟩

theorem fails_getD {found : Option (List ScriptedReply)}
    (h : ∀ replies, found = some replies → ∀ r ∈ replies, r.Fails) : ∀ r ∈ found.getD [], r.Fails := by
  cases found with
  | none => simp
  | some replies => exact h replies rfl

theorem fails_insert {d : Dict (List ScriptedReply)} {key : String}
    (h : ∀ k rs, d.find? k = some rs → ∀ r ∈ rs, r.Fails) (hr : ∀ r ∈ replies, r.Fails) :
    ∀ k rs, (d.insert key replies).find? k = some rs → ∀ r ∈ rs, r.Fails := by
  intro k rs hk
  rw [Dict.find?_insert] at hk
  split at hk
  · cases hk
    exact hr
  · exact h k rs hk

theorem fails_take (h : s.Silent) (r : Request) : (s.take r).1.Fails ∧ (s.take r).2.Silent := by
  have hcall := fails_next (fails_getD (h.byCall r.call.name))
  cases r with
  | transaction t =>
    obtain ⟨hreply, hrest⟩ := fails_next (fails_getD (h.byHash t.txHash))
    exact ⟨hreply, h.byCall, fails_insert h.byHash hrest⟩
  | _ => exact ⟨hcall.1, fails_insert h.byCall hcall.2, h.byHash⟩

theorem silent_foldl_take (h : s.Silent) (requests : List Request) :
    (requests.foldl (fun s r => (s.take r).2) s).Silent := by
  induction requests generalizing s with
  | nil => exact h
  | cons r rest ih => exact ih (fails_take h r).2

theorem reply_of_fails (c : Call) {r : ScriptedReply} (h : r.Fails) : ∃ f, reply c r = .error f := by
  obtain ⟨f, hf⟩ := h
  exact ⟨f, by rw [reply, hf]; rfl⟩

end Script

theorem Desk.fails_ask {d : Desk} (h : d.script.Silent) (r : Request) :
    ∃ f, (d.ask r).2.reply = .error f :=
  Script.reply_of_fails r.call (Script.fails_take h r).1

/-! ### The book -/

namespace Book

variable {bare : String → Prop} {b b' b'' : Book} {P : String → Order → Prop}

/-- Orders among those with the given ids have been charged for a missing hash. -/
inductive Charged (bare : String → Prop) (b : Book) : Book → Prop
  | refl : Charged bare b b
  | charge {b' : Book} {id : String} (h : Charged bare b b') (now : Instant) (hid : bare id) :
      Charged bare b (b'.markNotFound now id).book

theorem Charged.trans (h : Charged bare b b') (h' : Charged bare b' b'') : Charged bare b b'' := by
  induction h' with
  | refl => exact h
  | charge _ now hid ih => exact .charge ih now hid

theorem charged_of_worked {native : Option String} {work : List (Instant × Piece)} {events : List Event}
    {r : Option Overflow} (h : Worked native b work events r b')
    (hw : ∀ w ∈ work, ∃ id, bare id ∧ w.2 = .charge id) : Charged bare b b' := by
  have hfirst : ∀ {b : Book} {w : Instant × Piece}, (∃ id, bare id ∧ w.2 = .charge id) →
      Charged bare b (b.change native w).book := by
    rintro b ⟨now, p⟩ ⟨id, hid, rfl⟩
    exact .charge .refl now hid
  induction h with
  | nil => exact .refl
  | cons _ _ ih =>
    obtain ⟨hone, hrest⟩ := List.forall_mem_cons.mp hw
    exact (hfirst hone).trans (ih hrest)
  | last _ => exact hfirst (hw _ List.mem_cons_self)

theorem charged_chargeAll (t : Tally) (now : Instant) {missing : List String}
    (h : ∀ id ∈ missing, bare id) :
    Charged bare t.book (Tally.reached (t.chargeAll now missing)).book := by
  obtain ⟨done, events, hworked, _, hupto⟩ := worked_chargeAll none t now missing
  refine charged_of_worked hworked fun w hw => ?_
  obtain ⟨id, hid, rfl⟩ := List.mem_map.mp (hupto.1.subset hw)
  exact ⟨id, h id hid, rfl⟩

theorem Durable.charged (hd : Durable P) (h : Charged bare b b') (hb : Everywhere P b) :
    Everywhere P b' := by
  induction h with
  | refl => exact hb
  | @charge b' id _ now _ ih => exact hd.doubt ih now id .miss

/-- Each order knows its id, and those without a hash are among the given ones. -/
def Bare (bare : String → Prop) (id : String) (o : Order) : Prop :=
  o.id = id ∧ (o.txHash = none → bare id)

theorem durable_bare (bare : String → Prop) : Durable (Bare bare) where
  missed h _ := h
  stalled h _ := h
  sighted h _ := h
  lapse _ _ h _ := h

end Book

/-! ### The desk -/

/-- A pass waits for hashes of the given orders only, and for no answer that is not a failure. -/
def Pass.Silent (bare : String → Prop) : Pass → Prop
  | awaiting _ missing _ _ => ∀ id ∈ missing, bare id
  | querying queries _ => ∀ q ∈ queries, ∃ f, q.arrival.reply = .error f
  | _ => True

theorem Pass.silent_ring {bare : String → Prop} {p : Pass} (h : p.Silent bare) : p.ring.Silent bare := by
  cases p with
  | awaiting ready missing deadline rung => exact h
  | _ => exact h

namespace Desk

open Book

/-- Nothing can be heard of the gateway, and nothing is under way that could tell of it. -/
structure Silent (bare : String → Prop) (d : Desk) : Prop where
  script : d.script.Silent
  sendings : d.sendings = []
  delays : d.delays = []
  loop : ∀ t v p, d.loop = some (.cycle t v p) → p.Silent bare
  errand : ∀ p, d.errand = .pass p → p.Silent bare
  orders : Everywhere (Bare bare) d.book

/-- The desk stays silent, and orders were charged. -/
structure Idles (bare : String → Prop) (d d' : Desk) : Prop where
  silent : d'.Silent bare
  charged : Charged bare d.book d'.book

variable {bare : String → Prop} {d d' d'' : Desk} {p : Pass} {queries : List Query}

theorem Idles.trans (h : Idles bare d d') (h' : Idles bare d' d'') : Idles bare d d'' :=
  ⟨h'.silent, h.charged.trans h'.charged⟩

theorem Silent.idles (h : d.Silent bare) : Idles bare d d := ⟨h, .refl⟩

/-- Another loop, another errand or other data that silence does not depend on. -/
theorem Silent.of_eq (h : d.Silent bare) (hs : d'.script = d.script) (hn : d'.sendings = d.sendings)
    (hd : d'.delays = d.delays) (hb : d'.book = d.book)
    (hl : ∀ t v p, d'.loop = some (.cycle t v p) → p.Silent bare)
    (he : ∀ p, d'.errand = .pass p → p.Silent bare) : Idles bare d d' where
  silent := ⟨hs ▸ h.script, hn.trans h.sendings, hd.trans h.delays, hl, he, hb ▸ h.orders⟩
  charged := hb ▸ .refl

theorem Silent.consults (h : d.Silent bare) (hc : Consults d d') : Idles bare d d' := by
  obtain ⟨requests, _, _, _, _, rfl⟩ := hc
  exact ⟨⟨Script.silent_foldl_take h.script requests, h.sendings, h.delays, h.loop, h.errand, h.orders⟩,
    .refl⟩

theorem Silent.ask (h : d.Silent bare) {r : Request} (hr : r.isSubmission = false) :
    Idles bare d (d.ask r).1 :=
  h.consults (consults_ask d hr)

theorem Silent.commit (h : d.Silent bare) {b : Book} (hb : Everywhere (Bare bare) b)
    (events : List Event) (gotHash : Bool) : (d.commit b events gotHash).Silent bare := by
  cases gotHash with
  | false => exact ⟨h.script, h.sendings, h.delays, h.loop, h.errand, hb⟩
  | true =>
    refine ⟨h.script, h.sendings, h.delays, ?_, ?_, hb⟩
    · intro t v p hp
      obtain ⟨l, hl, hring⟩ := Option.map_eq_some_iff.mp hp
      cases l with
      | cycle t' v' p' =>
        cases hring
        exact Pass.silent_ring (h.loop t v p' hl)
      | _ => cases hring
    · intro p hp
      change d.errand.ring = .pass p at hp
      cases he : d.errand with
      | pass p' =>
        rw [he] at hp
        cases hp
        exact Pass.silent_ring (h.errand p' he)
      | _ =>
        rw [he] at hp
        cases hp

theorem Silent.takeTally (h : d.Silent bare) {t : Tally} (ht : Charged bare d.book t.book) :
    Idles bare d (d.takeTally t) where
  silent := h.commit ((durable_bare bare).charged ht h.orders) t.events t.gotHash
  charged := (book_commit d t.book t.events t.gotHash).symm ▸ ht

theorem Silent.setLoop (h : d.Silent bare) {l : Loop}
    (hl : ∀ t v p, l = .cycle t v p → p.Silent bare) : Idles bare d (d.setLoop l) :=
  h.of_eq rfl rfl rfl rfl (fun t v p he => hl t v p (Option.some.inj he)) h.errand

/-! ### A pass -/

theorem fails_inquiry (h : d.script.Silent) (r : TransactionRequest) :
    ∃ f, (d.ask (.transaction r)).2.reply = (.error f : Except Failure TransactionReply) :=
  fails_ask h (.transaction r)

/-- A failure is only counted. -/
theorem answer_of_failure (d : Desk) (report : PollReport) (q : Inquiry) (f : Failure) :
    d.answer report q (.error f) =
      .ok (d, { report with polled := report.polled + 1, errors := report.errors + 1 }) := rfl

theorem silent_closePass (h : ∀ q ∈ queries, ∃ f, q.arrival.reply = .error f) (report : PollReport) :
    (closePass queries report).Silent bare := by
  unfold closePass
  split
  · trivial
  · exact h

theorem silent_collect (report : PollReport) (kept : List Query)
    (hk : ∀ q ∈ kept, ∃ f, q.arrival.reply = .error f)
    (hq : ∀ q ∈ queries, ∃ f, q.arrival.reply = .error f) :
    (d.collect report kept queries).1 = d ∧ (d.collect report kept queries).2.Silent bare := by
  induction queries generalizing report kept with
  | nil => exact ⟨rfl, silent_closePass hk report⟩
  | cons q rest ih =>
    have hrest : ∀ q ∈ rest, ∃ f, q.arrival.reply = .error f := fun x hx =>
      hq x (List.mem_cons_of_mem q hx)
    obtain ⟨f, hf⟩ := hq q List.mem_cons_self
    unfold collect
    split
    · rw [hf, answer_of_failure]
      exact ih _ kept hk hrest
    · refine ih report (kept ++ [q]) ?_ hrest
      intro x hx
      rcases List.mem_append.mp hx with hx | hx
      · exact hk x hx
      · exact List.mem_singleton.mp hx ▸ ⟨f, hf⟩

theorem Silent.askAll (h : d.Silent bare) (report : PollReport) (kept : List Query)
    (hk : ∀ q ∈ kept, ∃ f, q.arrival.reply = .error f) (questions : List Inquiry) :
    Idles bare d (d.askAll report kept questions).1 ∧
      (d.askAll report kept questions).2.Silent bare := by
  induction questions generalizing d report kept with
  | nil => exact ⟨h.idles, silent_closePass hk report⟩
  | cons q rest ih =>
    have hask : Idles bare d
        (d.ask (.transaction ⟨d.settings.chain, d.settings.network, q.hash⟩)).1 := h.ask rfl
    obtain ⟨f, hf⟩ := fails_inquiry h.script ⟨d.settings.chain, d.settings.network, q.hash⟩
    unfold Desk.askAll
    dsimp only
    split
    · rw [hf, answer_of_failure]
      obtain ⟨hidles, hp⟩ := ih hask.silent _ kept hk
      exact ⟨hask.trans hidles, hp⟩
    · obtain ⟨hidles, hp⟩ := ih hask.silent report (kept ++ [⟨q, _⟩]) (by
        intro x hx
        rcases List.mem_append.mp hx with hx | hx
        · exact hk x hx
        · exact List.mem_singleton.mp hx ▸ ⟨f, hf⟩)
      exact ⟨hask.trans hidles, hp⟩

theorem Silent.chargeAndAsk (h : d.Silent bare) (ready : List Inquiry) {missing : List String}
    (hm : ∀ id ∈ missing, bare id) :
    Idles bare d (d.chargeAndAsk ready missing).1 ∧ (d.chargeAndAsk ready missing).2.Silent bare := by
  have hcharged := charged_chargeAll (.start d.book .empty) d.now hm
  unfold Desk.chargeAndAsk
  cases hc : (Tally.start d.book .empty).chargeAll d.now missing with
  | error x =>
    rw [hc] at hcharged
    exact ⟨h.takeTally hcharged, trivial⟩
  | ok t =>
    rw [hc] at hcharged
    have hcharge : Idles bare d (d.takeTally t) := h.takeTally hcharged
    obtain ⟨hidles, hp⟩ := hcharge.silent.askAll t.report [] (by simp) ready
    exact ⟨hcharge.trans hidles, hp⟩

theorem Silent.awaitHashes (h : d.Silent bare) (ready : List Inquiry) {missing : List String}
    (hm : ∀ id ∈ missing, bare id) (due : Nat) :
    Idles bare d (d.awaitHashes ready missing due).1 ∧
      (d.awaitHashes ready missing due).2.Silent bare := by
  have hstill : ∀ id ∈ (d.book.recheck missing).2, bare id := fun id hid =>
    hm id (List.mem_of_mem_filter hid)
  unfold Desk.awaitHashes
  dsimp only
  split
  · exact h.chargeAndAsk _ hstill
  · exact ⟨h.of_eq rfl rfl rfl rfl h.loop h.errand, hstill⟩

/-- The orders that a pass finds without a hash are among the given ones. -/
theorem Silent.missing (h : d.Silent bare) : ∀ id ∈ (inquiries d.book.active).2, bare id := by
  intro id hid
  obtain ⟨o, ho, rfl⟩ := List.mem_map.mp hid
  obtain ⟨hactive, hnone⟩ := List.mem_filter.mp ho
  obtain ⟨⟨k, hk⟩, _⟩ := mem_active.mp hactive
  obtain ⟨hid, hbare⟩ := h.orders k o hk
  exact hid ▸ hbare (Option.isNone_iff_eq_none.mp hnone)

theorem Silent.pollPass (h : d.Silent bare) (hp : p.Silent bare) :
    Idles bare d (d.pollPass p).1 ∧ (d.pollPass p).2.Silent bare := by
  cases p with
  | fresh =>
    simp only [Desk.pollPass, beginPass]
    split
    · exact ⟨h.idles, trivial⟩
    · exact h.awaitHashes _ h.missing _
  | awaiting ready missing deadline rung =>
    simp only [Desk.pollPass]
    split
    · exact h.awaitHashes ready hp deadline.due
    · split
      · exact h.chargeAndAsk ready hp
      · exact ⟨h.idles, hp⟩
  | querying queries report =>
    have hcollect : (d.collect report [] queries).1 = d ∧ (d.collect report [] queries).2.Silent bare :=
      silent_collect report [] (by simp) hp
    refine ⟨?_, hcollect.2⟩
    rw [Desk.pollPass, hcollect.1]
    exact h.idles
  | ended result => exact ⟨h.idles, trivial⟩

/-! ### The activities -/

theorem Silent.pollVisit (h : d.Silent bare) (who : Party) (v : Visit) :
    Idles bare d (d.pollVisit who v).1 :=
  h.consults (consults_pollVisit d who v)

theorem Silent.dropVisit (h : d.Silent bare) (who : Party) (v : Visit) :
    Idles bare d (d.dropVisit who v) :=
  h.consults (consults_dropVisit d who v)

theorem Silent.endLoop (h : d.Silent bare) (v : Visit) :
    Idles bare d ((d.dropVisit .loop v).setLoop .ended) :=
  (h.dropVisit .loop v).trans ((h.dropVisit .loop v).silent.setLoop (by rintro _ _ _ ⟨⟩))

theorem Silent.pollStartup (h : d.Silent bare) (v : Visit) : Idles bare d (d.pollStartup v) := by
  unfold Desk.pollStartup
  split
  · exact h.endLoop v
  · have hvisit := h.pollVisit .loop v
    dsimp only
    split
    · exact hvisit.trans (hvisit.silent.setLoop (by rintro _ _ _ ⟨⟩))
    · split
      · exact hvisit.trans (hvisit.silent.setLoop (by rintro _ _ _ ⟨⟩))
      · exact hvisit.trans (hvisit.silent.setLoop (by rintro _ _ _ ⟨⟩))

theorem Silent.beginCycle (h : d.Silent bare) (t : Tick) : Idles bare d (d.beginCycle t) :=
  h.setLoop fun _ _ _ he => by cases he; trivial

theorem Silent.pollIdle (h : d.Silent bare) (t : Tick) (ear : Ear) : Idles bare d (d.pollIdle t ear) := by
  unfold Desk.pollIdle
  split
  · have hended : Idles bare d (d.setLoop .ended) := h.setLoop (by rintro _ _ _ ⟨⟩)
    unfold endIdle
    dsimp only
    split
    · exact hended.trans (hended.silent.of_eq rfl rfl rfl rfl hended.silent.loop h.errand)
    · exact hended
  · split
    · exact h.beginCycle t
    · split
      · have hheard : Idles bare d { d with permit := false } := h.of_eq rfl rfl rfl rfl h.loop h.errand
        exact hheard.trans (hheard.silent.beginCycle t)
      · split
        · exact h.beginCycle _
        · unfold listen
          split
          · exact h.setLoop (by rintro _ _ _ ⟨⟩)
          · have halarm : Idles bare d (d.setAlarm t.due).1 := h.of_eq rfl rfl rfl rfl h.loop h.errand
            exact halarm.trans (halarm.silent.setLoop (by rintro _ _ _ ⟨⟩))

theorem Silent.pollCycle (h : d.Silent bare) (t : Tick) (v : Visit) (hp : p.Silent bare) :
    Idles bare d (d.pollCycle t v p) := by
  unfold Desk.pollCycle
  split
  · exact h.endLoop v
  · have hvisit := h.pollVisit .loop v
    obtain ⟨hpass, hp'⟩ := hvisit.silent.pollPass hp
    have hboth := hvisit.trans hpass
    dsimp only
    split
    · exact hboth.trans (hboth.silent.endLoop _)
    · split
      · exact hboth.trans (hboth.silent.setLoop (by rintro _ _ _ ⟨⟩))
      · exact hboth.trans (hboth.silent.setLoop fun _ _ _ hl => by cases hl; exact hp')
    · exact hboth.trans (hboth.silent.setLoop fun _ _ _ hl => by cases hl; exact hp')

theorem Silent.pollLoop (h : d.Silent bare) : Idles bare d d.pollLoop := by
  unfold Desk.pollLoop
  split
  · exact h.pollStartup _
  · exact h.pollIdle _ _
  · rename_i hl
    exact h.pollCycle _ _ (h.loop _ _ _ hl)
  · exact h.idles

theorem Silent.wake (h : d.Silent bare) : Idles bare d d.wake := by
  unfold Desk.wake
  split
  · exact h.of_eq rfl rfl rfl rfl (by rintro _ _ _ ⟨⟩) h.errand
  · exact h.of_eq rfl rfl rfl rfl h.loop h.errand

theorem Silent.tick (h : d.Silent bare) (due : Nat) : Idles bare d (d.tick due) := by
  have hwake : Idles bare d (if d.book.hasActive then d.wake else d) := by
    split
    · exact h.wake
    · exact h.idles
  exact hwake.trans (hwake.silent.of_eq rfl rfl rfl rfl hwake.silent.loop hwake.silent.errand)

theorem Silent.pollTicker (h : d.Silent bare) : Idles bare d d.pollTicker := by
  unfold Desk.pollTicker
  split
  · split
    · exact h.of_eq rfl rfl rfl rfl h.loop h.errand
    · exact h.tick d.clock
  · split
    · exact h.of_eq rfl rfl rfl rfl h.loop h.errand
    · split
      · exact h.tick _
      · exact h.idles
  · exact h.idles

theorem Silent.poll (h : d.Silent bare) (a : Activity) : Idles bare d (d.poll a) := by
  cases a with
  | loop => exact h.pollLoop
  | ticker => exact h.pollTicker
  | sending n => simpa [Desk.poll, h.sendings] using h.idles
  | delayed n => simpa [Desk.poll, h.delays] using h.idles

/-! ### The caller -/

theorem Silent.setErrand (h : d.Silent bare) {e : Errand} (he : ∀ p, e = .pass p → p.Silent bare) :
    Idles bare d { d with errand := e } :=
  h.of_eq rfl rfl rfl rfl h.loop he

/-- No submission is left to wait for. -/
theorem Silent.pollSubmissions (h : d.Silent bare) (deadline : Alarm) :
    Idles bare d (d.pollSubmissions deadline) := by
  have hover : Idles bare d { d with errand := .over } := h.setErrand (by rintro _ ⟨⟩)
  unfold Desk.pollSubmissions
  rw [if_pos (by rw [h.sendings]; rfl)]
  exact hover

theorem Silent.pollErrand (h : d.Silent bare) : Idles bare d d.pollErrand := by
  unfold Desk.pollErrand
  split
  · rename_i v _
    have hvisit := h.pollVisit .caller v
    exact hvisit.trans (hvisit.silent.setErrand (by rintro _ ⟨⟩))
  · rename_i he
    obtain ⟨hpass, hp⟩ := h.pollPass (h.errand _ he)
    exact hpass.trans (hpass.silent.setErrand fun _ he => by cases he; exact hp)
  · split
    · have halarm : Idles bare d (d.setAlarm (d.clock + d.settings.requestTimeout)).1 :=
        h.of_eq rfl rfl rfl rfl h.loop h.errand
      exact halarm.trans (halarm.silent.pollSubmissions _)
    · exact h.idles
  · exact h.pollSubmissions _
  · exact h.idles

theorem Silent.elapse (h : d.Silent bare) (clock : Nat) (now : Instant) (ready : List Activity) :
    Idles bare d { d with clock, now, ready } :=
  h.of_eq rfl rfl rfl rfl h.loop h.errand

theorem Silent.enqueue (h : d.Silent bare) : Idles bare d d.enqueue := h.elapse d.clock d.now _

theorem turning_idles (d : Desk) : Turning (Idles bare d) where
  poll a h := h.trans (h.silent.poll a)
  errand h := h.trans h.silent.pollErrand
  elapse clock ready _ h := h.trans (h.silent.elapse clock _ ready)

theorem Silent.await (h : d.Silent bare) {e : Errand} (he : ∀ p, e = .pass p → p.Silent bare) :
    Idles bare d (d.await e) :=
  (turning_idles d).await (h.setErrand he)

end Desk
end SwapDesk
