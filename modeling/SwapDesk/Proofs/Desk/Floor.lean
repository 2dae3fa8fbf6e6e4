import SwapDesk.Desk.Caller
import SwapDesk.Proofs.Desk.Frame
import SwapDesk.Proofs.Desk.Turns

/-! A desk among its callers and pollers. The activities of the desk take turns in any order. Besides,
everything that has to wait on its way is cut into its steps here: callers who have an order placed, and
pollers who have read a reply and still have to act on it. Nothing is taken back from kept records. -/
namespace SwapDesk

/-- What is written down about ids and submissions. -/
inductive Note
  /-- An id was handed out. -/
  | issued (id : String)
  /-- The request for an order was sent, and the gateway answered it so. -/
  | sent (id : String) (i : Instruction) (reply : Except Failure Accepted)

/-- How far a caller is who has an order placed. -/
inductive Placing
  | admitted (i : Instruction) (terms : Terms)
  | named (i : Instruction) (order : Order)
  | tracked (i : Instruction) (kind : OrderKind) (id : String)

/-- A reply that a poller has read, and what it knew of the order then. -/
structure Finding where
  inquiry : Inquiry
  reply : TransactionReply
  order : Order

/-- The desk, the callers on their way, and the replies that nobody has acted on yet. -/
structure Floor where
  desk : Desk
  placings : List Placing
  findings : List Finding

namespace Desk

/-- The answer to a submission, if it is sent now or was sent before. -/
def replyTo (d : Desk) (s : Sending) : Except Failure Accepted :=
  match s.reply with
  | some a => a.reply
  | none => (d.send s).2.reply

/-- What there is to note when an activity goes on. -/
def notes (d : Desk) : Activity → List Note
  | .sending n =>
    match d.sendings.find? (·.serial = n) with
    | some s => if s.reply.isNone then [.sent s.order s.instruction (d.replyTo s)] else []
    | none => []
  | _ => []

/-- Takes over a change of the book. -/
def takeOver (d : Desk) (c : Change) : Desk := d.commit c.book c.events c.gotHash

/-- Tells the loop and the ticker to end, and has the caller wait for it. -/
def halt (d : Desk) : Desk :=
  { d with running := false, shutdown := ⟨true, false⟩, errand := .workers }

end Desk

namespace Floor

/-- A floor at the beginning. -/
def opening (s : Settings) (pairs : List Pair) (now : Instant) (nonce : String) : Floor :=
  ⟨.opening s pairs now nonce, [], []⟩

/-- One step, and what is noted at it. A cancellation does nothing and is no step. -/
inductive Step : Floor → List Note → Floor → Prop
  | turn {f : Floor} (a : Activity) : Step f (f.desk.notes a) { f with desk := f.desk.poll a }
  | errand {f : Floor} : Step f [] { f with desk := f.desk.pollErrand }
  | start {f : Floor} (h : f.desk.running = false) : Step f [] { f with desk := f.desk.begin }
  | stop {f : Floor} (h : f.desk.running = true) : Step f [] { f with desk := f.desk.halt }
  /-- An instruction comes in while the desk is running. -/
  | takeOn {f : Floor} {i : Instruction} {terms : Terms} (h : f.desk.termsFor i = .ok terms) :
      Step f [] { f with placings := f.placings ++ [.admitted i terms] }
  | name {d : Desk} {before after : List Placing} {findings : List Finding} (i : Instruction)
      (t : Terms) :
      Step ⟨d, before ++ .admitted i t :: after, findings⟩
        [.issued (d.issuer.issue t.kind t.side t.pair).1]
        ⟨{ d with issuer := (d.issuer.issue t.kind t.side t.pair).2 },
          before ++ .named i (t.order d.now (d.issuer.issue t.kind t.side t.pair).1) :: after,
          findings⟩
  | track {d : Desk} {before after : List Placing} {findings : List Finding} (i : Instruction)
      (o : Order) (h : (d.perform (.track o)).2.verdict = .tracked) :
      Step ⟨d, before ++ .named i o :: after, findings⟩ []
        ⟨(d.perform (.track o)).1, before ++ .tracked i o.kind o.id :: after, findings⟩
  /-- The id is in use, and the caller is told so. -/
  | refuse {d : Desk} {before after : List Placing} {findings : List Finding} (i : Instruction)
      (o : Order) (h : (d.perform (.track o)).2.verdict ≠ .tracked) :
      Step ⟨d, before ++ .named i o :: after, findings⟩ []
        ⟨(d.perform (.track o)).1, before ++ after, findings⟩
  | submit {d : Desk} {before after : List Placing} {findings : List Finding} (i : Instruction)
      (kind : OrderKind) (id : String) :
      Step ⟨d, before ++ .tracked i kind id :: after, findings⟩ []
        ⟨d.submit i kind id, before ++ after, findings⟩
  /-- A submission is broken off. -/
  | abort {f : Floor} (n : Nat) :
      Step f [] { f with
        desk := { f.desk with sendings := f.desk.sendings.filter (·.serial ≠ n) } }
  | purge {f : Floor} (age : Int) : Step f [] { f with desk := (f.desk.perform (.purge age)).1 }
  | wake {f : Floor} : Step f [] { f with desk := f.desk.wake }
  /-- The caller waits for something else. -/
  | await {f : Floor} (e : Errand) : Step f [] { f with desk := { f.desk with errand := e } }
  | ask {f : Floor} {r : Request} (h : r.isSubmission = false) :
      Step f [] { f with desk := (f.desk.ask r).1 }
  /-- Time passes; the gateway may answer differently from now on. -/
  | elapse {f : Floor} (clock turns : Nat) (now : Instant) (script : Script)
      (ready : List Activity) :
      Step f [] { f with desk := { f.desk with clock, turns, now, script, ready } }
  /-- A poller charges an order for a missing hash. -/
  | charge {f : Floor} (id : String) :
      Step f [] { f with desk := f.desk.takeOver (f.desk.book.markNotFound f.desk.now id) }
  /-- A poller reads a reply and looks up the order. -/
  | read {f : Floor} {q : Inquiry} {o : Order} (reply : TransactionReply)
      (h : f.desk.book.findByHash? q.hash = some o) (hid : o.id = q.order) :
      Step f [] { f with findings := f.findings ++ [⟨q, reply, o⟩] }
  /-- The poller acts on it. -/
  | settle {d : Desk} {placings : List Placing} {before after : List Finding} {q : Inquiry}
      {reply : TransactionReply} {o : Order} {r : Resolution} {c : Change}
      (native : Option String) (hr : reply.resolution (o.extraDecimal? "gasPrice") = .ok r)
      (hc : d.book.resolve d.now native q o r = some c) :
      Step ⟨d, placings, before ++ ⟨q, reply, o⟩ :: after⟩ []
        ⟨d.takeOver c, placings, before ++ after⟩

/-- Steps one after the other, and all that is noted at them. -/
inductive Run : Floor → List Note → Floor → Prop
  | refl (f : Floor) : Run f [] f
  | snoc {f g h : Floor} {notes more : List Note} (hrun : Run f notes g) (hstep : Step g more h) :
      Run f (notes ++ more) h

variable {f g k : Floor} {notes more : List Note} {d d' d'' : Desk}

theorem Run.single (h : Step f notes g) : Run f notes g := .snoc (.refl f) h

theorem Run.trans (h : Run f notes g) (h' : Run g more k) : Run f (notes ++ more) k := by
  induction h' with
  | refl => exact (List.append_nil notes).symm ▸ h
  | snoc _ hstep ih =>
    rw [← List.append_assoc]
    exact .snoc ih hstep

/-- Whoever else is under way, steps lead from one state of the desk to the other. -/
def Leads (d d' : Desk) : Prop :=
  ∀ placings findings, ∃ notes, Run ⟨d, placings, findings⟩ notes ⟨d', placings, findings⟩

theorem Leads.refl (d : Desk) : Leads d d := fun _ _ => ⟨[], .refl _⟩

theorem Leads.trans (h : Leads d d') (h' : Leads d' d'') : Leads d d'' := by
  intro placings findings
  obtain ⟨notes, hrun⟩ := h placings findings
  obtain ⟨more, hrun'⟩ := h' placings findings
  exact ⟨notes ++ more, hrun.trans hrun'⟩

theorem leads_poll (d : Desk) (a : Activity) : Leads d (d.poll a) := by
  intro placings findings
  exact ⟨_, .single (.turn a)⟩

theorem leads_pollErrand (d : Desk) : Leads d d.pollErrand := by
  intro placings findings
  exact ⟨_, .single .errand⟩

theorem leads_elapse (d : Desk) (clock turns : Nat) (ready : List Activity) :
    Leads d { d with clock, turns, ready } := by
  intro placings findings
  exact ⟨_, .single (.elapse clock turns d.now d.script ready)⟩

theorem leads_enqueue (d : Desk) : Leads d d.enqueue := leads_elapse d d.clock d.turns _

theorem leads_setAlarm (d : Desk) (due : Nat) : Leads d (d.setAlarm due).1 :=
  leads_elapse d d.clock (d.turns + 1) d.ready

/-- The order of turns of a single worker is one of those that are possible. -/
theorem turning_leads (d : Desk) : Desk.Turning (Leads d) where
  poll a h := h.trans (leads_poll _ a)
  errand h := h.trans (leads_pollErrand _)
  elapse clock ready _ h := h.trans (leads_elapse _ clock _ ready)

theorem leads_await (d : Desk) (e : Errand) : Leads d (d.await e) := by
  refine (turning_leads d).await ?_
  intro placings findings
  exact ⟨_, .single (.await e)⟩

theorem leads_ask (d : Desk) {r : Request} (hr : r.isSubmission = false) :
    Leads d (d.ask r).1 := by
  intro placings findings
  exact ⟨_, .single (.ask hr)⟩

theorem leads_sleep (d : Desk) (wait : Nat) : Leads d (d.sleep wait) :=
  (leads_setAlarm d (d.clock + wait)).trans (leads_await _ _)

theorem leads_pollOnce (d : Desk) : Leads d d.pollOnce.1 := by
  unfold Desk.pollOnce
  dsimp only
  split
  · exact leads_await d _
  · exact leads_await d _

theorem leads_consult (d : Desk) (purpose : Purpose) : Leads d (d.consult purpose).1 := by
  unfold Desk.consult
  dsimp only
  split
  · exact leads_await d _
  · exact leads_await d _

theorem leads_checkNetwork (d : Desk) : Leads d d.checkNetwork.1 :=
  (leads_ask d (r := .ping) rfl).trans (leads_await _ _)

theorem leads_quote (d : Desk) (pair : Pair) (side : Side) (amount : Decimal) :
    Leads d (d.quote pair side amount).1 := by
  have hask := leads_ask d (r := .price ⟨d.settings.chain, d.settings.network,
    d.settings.connector, pair.base, pair.quote, amount, side⟩) rfl
  exact hask.trans (leads_await _ _)

theorem leads_start (h : d.start = .ok d') : Leads d d' := by
  unfold Desk.start at h
  split at h
  · cases h
  · rename_i hr
    cases h
    intro placings findings
    exact ⟨_, .single (.start (Bool.not_eq_true _ ▸ hr))⟩

theorem leads_stop (h : d.stop = .ok d') : Leads d d' := by
  unfold Desk.stop at h
  split at h
  · rename_i hr
    cases h
    have hhalt : Leads d { d with running := false, shutdown := ⟨true, false⟩ } := by
      intro placings findings
      have hstop : Run ⟨d, placings, findings⟩ [] ⟨d.halt, placings, findings⟩ := .single (.stop hr)
      exact ⟨_, hstop.trans (.single (.await d.errand))⟩
    exact (hhalt.trans (leads_enqueue _)).trans (leads_await _ .workers)
  · cases h

theorem leads_command_purge (d : Desk) (age : Int) : Leads d (d.command (.purge age)).1 := by
  have hpurge : Leads d (d.perform (.purge age)).1 := by
    intro placings findings
    exact ⟨_, .single (.purge age)⟩
  exact hpurge.trans (leads_enqueue _)

/-- What the caller's step of tracking does is a command to track the named order. -/
theorem enroll_cases (d : Desk) (t : Terms) :
    let named := d.issuer.issue t.kind t.side t.pair
    let d' : Desk := { d with issuer := named.2 }
    let o := t.order d.now named.1
    (∃ r, d.enroll t = ((d'.perform (.track o)).1, .error r) ∧
      (d'.perform (.track o)).2.verdict ≠ .tracked) ∨
    d.enroll t = ((d'.perform (.track o)).1, .ok named.1) ∧
      (d'.perform (.track o)).2.verdict = .tracked := by
  intro named d' o
  cases hf : d.book.find? o.id with
  | some p =>
    refine Or.inl ⟨.rejected (.duplicate o.id), ?_, ?_⟩
    · simp only [Desk.enroll, Desk.perform, d', Book.perform_track_of_tracked hf,
        Book.track_of_tracked hf, o, named]
      rfl
    · simp only [Desk.perform, d', Book.perform_track_of_tracked hf]
      intro he
      cases he
  | none =>
    refine Or.inr ⟨?_, ?_⟩
    · simp only [Desk.enroll, Desk.perform, d', Book.perform_track_of_new hf,
        Book.track_of_new hf, o, named]
    · simp only [Desk.perform, d', Book.perform_track_of_new hf]

/-- An instruction takes its steps at once if nobody comes in between. -/
theorem leads_instruct (d : Desk) (i : Instruction) : Leads d (d.instruct i).1 := by
  intro placings findings
  unfold Desk.instruct
  cases ht : d.termsFor i with
  | error r => exact ⟨[], .refl _⟩
  | ok t =>
    have htaken : Run ⟨d, placings, findings⟩ [] ⟨d, placings ++ [.admitted i t], findings⟩ :=
      .single (.takeOn ht)
    have hname := htaken.snoc (.name i t)
    rcases enroll_cases d t with ⟨r, he, hv⟩ | ⟨he, hv⟩
    · have hrefuse := hname.snoc (.refuse i _ hv)
      rw [List.append_nil placings] at hrefuse
      simp only [he]
      exact ⟨_, hrefuse⟩
    · have hsubmit := (hname.snoc (.track i _ hv)).snoc (.submit i t.kind _)
      rw [List.append_nil placings] at hsubmit
      simp only [he]
      exact ⟨_, hsubmit⟩

/-- What a caller can do with a desk, except for taking back kept orders. -/
inductive Deed
  | start
  | stop
  | instruct (i : Instruction)
  | purge (age : Int)
  | sleep (wait : Nat)
  | pollOnce
  | consult (purpose : Purpose)
  | checkNetwork
  | quote (pair : Pair) (side : Side) (amount : Decimal)

/-- The desk after a deed; one that is refused leaves it as it was. -/
def afterDeed (d : Desk) : Deed → Desk
  | .start => d.start.toOption.getD d
  | .stop => d.stop.toOption.getD d
  | .instruct i => (d.instruct i).1
  | .purge age => (d.command (.purge age)).1
  | .sleep wait => d.sleep wait
  | .pollOnce => d.pollOnce.1
  | .consult purpose => (d.consult purpose).1
  | .checkNetwork => d.checkNetwork.1
  | .quote pair side amount => (d.quote pair side amount).1

theorem leads_after (d : Desk) (deed : Deed) : Leads d (afterDeed d deed) := by
  cases deed with
  | start =>
    cases h : d.start with
    | error r => simpa [afterDeed, h, Except.toOption] using Leads.refl d
    | ok d' => simpa [afterDeed, h, Except.toOption] using leads_start h
  | stop =>
    cases h : d.stop with
    | error r => simpa [afterDeed, h, Except.toOption] using Leads.refl d
    | ok d' => simpa [afterDeed, h, Except.toOption] using leads_stop h
  | instruct i => exact leads_instruct d i
  | purge age => exact leads_command_purge d age
  | sleep wait => exact leads_sleep d wait
  | pollOnce => exact leads_pollOnce d
  | consult purpose => exact leads_consult d purpose
  | checkNetwork => exact leads_checkNetwork d
  | quote pair side amount => exact leads_quote d pair side amount

/-- A caller's deeds, with the desk's own order of turns in between, are steps on the floor. -/
theorem leads_deeds (deeds : List Deed) (d : Desk) : Leads d (deeds.foldl afterDeed d) := by
  induction deeds generalizing d with
  | nil => exact .refl d
  | cons deed rest ih => exact (leads_after d deed).trans (ih (afterDeed d deed))

end Floor
end SwapDesk
