import SwapDesk.Proofs.Balance.Lobby
import SwapDesk.Proofs.Shift.Ending

/-! The loop and the caller are the parties that visit a desk's reconciler. Whatever happens at the desk is
a run of its lobby, so what holds of all those runs holds of every shift. -/
namespace SwapDesk

theorem Visit.ongoing?_of_over {v : Visit} (h : v.isOver = true) : v.ongoing? = none := if_pos h

theorem Visit.ongoing?_of_not_over {v : Visit} (h : v.isOver = false) : v.ongoing? = some v :=
  if_neg (by simp [h])

/-- The desk with the visits that its loop and its caller are at. -/
def Desk.lobby (d : Desk) : Lobby := ⟨d, d.visitOf⟩

namespace Lobby

/-- Some run leads from one to the other. -/
def Reaches (c e : Lobby) : Prop := ∃ marks, Run c marks e

variable {c e f : Lobby} {marks : List Mark} {d d' : Desk} {who : Party} {v : Visit} {l : Loop}

theorem Reaches.refl (c : Lobby) : Reaches c c := ⟨[], .refl c⟩

theorem Reaches.trans (h : Reaches c e) (h' : Reaches e f) : Reaches c f := by
  obtain ⟨marks, hrun⟩ := h
  obtain ⟨more, hrun'⟩ := h'
  exact ⟨marks ++ more, hrun.trans hrun'⟩

theorem Step.reaches (h : Step c marks e) : Reaches c e := ⟨_, .snoc (.refl c) h⟩

theorem place_self (h : c.visits who = v.ongoing?) : c.place who c.desk v.ongoing? = c := by
  have hvisits : (fun p => if p = who then v.ongoing? else c.visits p) = c.visits := by
    funext p
    split
    · rename_i hp
      exact hp ▸ h.symm
    · rfl
  exact congrArg (Lobby.mk c.desk) hvisits

theorem place_place (c : Lobby) (who : Party) (d d' : Desk) (v v' : Option Visit) :
    (c.place who d v).place who d' v' = c.place who d' v' := by
  refine congrArg (Lobby.mk d') (funext fun p => ?_)
  by_cases hp : p = who
  · simp only [hp, if_true]
  · simp only [hp, if_false, place]

/-- The party's visit goes on, if it is not over yet; when it is over, the party goes. -/
theorem reaches_turn (h : c.visits who = v.ongoing?) :
    Reaches c (c.place who (c.desk.pollVisit who v).1 (c.desk.pollVisit who v).2.ongoing?) := by
  cases ho : v.isOver with
  | true =>
    have hsame : c.desk.pollVisit who v = (c.desk, v) := by
      obtain ⟨purpose, stage⟩ := v
      cases stage with
      | ended result => rfl
      | _ => cases ho
    rw [hsame, place_self h]
    exact .refl c
  | false =>
    have hv : c.visits who = some v := h.trans (Visit.ongoing?_of_not_over ho)
    have hturn := (Step.turn hv ho).reaches
    cases hover : (c.desk.pollVisit who v).2.isOver with
    | false =>
      rw [Visit.ongoing?_of_not_over hover]
      exact hturn
    | true =>
      let turned := c.place who (c.desk.pollVisit who v).1 (some (c.desk.pollVisit who v).2)
      have hgo := (Step.go (visits_place_self c who (c.desk.pollVisit who v).1
        (some (c.desk.pollVisit who v).2))).reaches
      have hstay : turned.desk.dropVisit who (c.desk.pollVisit who v).2 = turned.desk := if_pos hover
      rw [place_place, hstay] at hgo
      rw [Visit.ongoing?_of_over hover]
      exact hturn.trans hgo

theorem reaches_drop (h : c.visits who = v.ongoing?) :
    Reaches c (c.place who (c.desk.dropVisit who v) none) := by
  cases ho : v.isOver with
  | true =>
    have hstay : c.desk.dropVisit who v = c.desk := if_pos ho
    have hself := place_self h
    rw [Visit.ongoing?_of_over ho] at hself
    rw [hstay, hself]
    exact .refl c
  | false => exact (Step.go (h.trans (Visit.ongoing?_of_not_over ho))).reaches

/-- The desk is as its lobby has it. -/
theorem reaches_desk (ha : Aside c.desk d) (hv : d.visitOf = c.visits) : Reaches c d.lobby := by
  have haside := (Step.aside ha).reaches
  rw [← hv] at haside
  exact haside

theorem reaches_elsewhere (h : Desk.Elsewhere d d') : Reaches d.lobby d'.lobby :=
  reaches_desk h.toAside h.visits

/-! ### The loop -/

/-- The loop has gone on, and its visit with it. -/
theorem reaches_setLoop (he : d'.errand.visit? = d.errand.visit?) (l : Loop) :
    Reaches (d.lobby.place .loop d' l.visit?) (d'.setLoop l).lobby := by
  refine reaches_desk ⟨rfl, rfl, Nat.le_refl _, rfl⟩ (funext fun p => ?_)
  cases p with
  | loop => rfl
  | caller => exact he

theorem errand_of_consults (h : Desk.Consults d d') : d'.errand = d.errand := by
  obtain ⟨_, _, _, _, _, rfl⟩ := h
  rfl

theorem loop_of_consults (h : Desk.Consults d d') : d'.loop = d.loop := by
  obtain ⟨_, _, _, _, _, rfl⟩ := h
  rfl

theorem reaches_endLoop (h : d.visitOf .loop = v.ongoing?) :
    Reaches d.lobby ((d.dropVisit .loop v).setLoop .ended).lobby := by
  have herrand := congrArg Errand.visit? (errand_of_consults (Desk.consults_dropVisit d .loop v))
  exact (reaches_drop h).trans (reaches_setLoop herrand .ended)

theorem reaches_pollStartup (h : d.loop = some (.startup v)) :
    Reaches d.lobby (d.pollStartup v).lobby := by
  have hv : d.visitOf .loop = v.ongoing? := congrArg (Option.bind · Loop.visit?) h
  have herrand := congrArg Errand.visit? (errand_of_consults (Desk.consults_pollVisit d .loop v))
  have hturn : Reaches d.lobby
      (d.lobby.place .loop (d.pollVisit .loop v).1 (d.pollVisit .loop v).2.ongoing?) :=
    reaches_turn hv
  unfold Desk.pollStartup
  split
  · exact reaches_endLoop hv
  · dsimp only
    split
    · exact hturn.trans (reaches_setLoop herrand (.startup _))
    · rename_i hover
      rw [Bool.not_eq_true', Bool.not_eq_false] at hover
      rw [Visit.ongoing?_of_over hover] at hturn
      split
      · exact hturn.trans (reaches_setLoop herrand .ended)
      · exact hturn.trans (reaches_setLoop herrand (.idle _ .closed))

theorem reaches_beginCycle (h : d.visitOf .loop = none) (t : Tick) :
    Reaches d.lobby (d.beginCycle t).lobby :=
  (Step.come .loop (.pass false) h).reaches.trans
    (reaches_setLoop rfl (.cycle t (.start (.pass false)) .fresh))

theorem reaches_idle (h : d.visitOf .loop = none) (hl : l.visit? = none) :
    Reaches d.lobby (d.setLoop l).lobby := by
  refine reaches_desk ⟨rfl, rfl, Nat.le_refl _, rfl⟩ (funext fun p => ?_)
  cases p with
  | loop => exact hl.trans h.symm
  | caller => rfl

theorem reaches_pollIdle {t : Tick} {ear : Ear} (h : d.loop = some (.idle t ear)) :
    Reaches d.lobby (d.pollIdle t ear).lobby := by
  have hv : d.visitOf .loop = none := congrArg (Option.bind · Loop.visit?) h
  unfold Desk.pollIdle
  split
  · have hended : Reaches d.lobby (d.setLoop .ended).lobby := reaches_idle hv rfl
    unfold Desk.endIdle
    dsimp only
    split
    · exact hended.trans (reaches_elsewhere (.of_eq rfl rfl rfl rfl rfl))
    · exact hended
  · split
    · exact reaches_beginCycle hv t
    · split
      · have hheard : Reaches d.lobby { d with permit := false }.lobby :=
          reaches_elsewhere (.of_eq rfl rfl rfl rfl rfl)
        exact hheard.trans (reaches_beginCycle (d := { d with permit := false }) hv t)
      · split
        · exact reaches_beginCycle hv _
        · unfold Desk.listen
          split
          · exact reaches_idle hv rfl
          · exact (reaches_elsewhere (Desk.elsewhere_setAlarm d t.due)).trans (reaches_idle hv rfl)

theorem reaches_pollCycle {t : Tick} {p : Pass} (h : d.loop = some (.cycle t v p)) :
    Reaches d.lobby (d.pollCycle t v p).lobby := by
  have hv : d.visitOf .loop = v.ongoing? := congrArg (Option.bind · Loop.visit?) h
  unfold Desk.pollCycle
  split
  · exact reaches_endLoop hv
  · let visited := d.pollVisit .loop v
    let passed := visited.1.pollPass p
    obtain ⟨work, stop, hd⟩ := Desk.does_pollPass visited.1 p
    have herrand : passed.1.errand.visit? = d.errand.visit? :=
      (congrFun hd.elsewhere.visits .caller).trans
        (congrArg Errand.visit? (errand_of_consults (Desk.consults_pollVisit d .loop v)))
    have hpassed : Reaches d.lobby (d.lobby.place .loop passed.1 visited.2.ongoing?) :=
      (reaches_turn hv).trans (Step.aside hd.elsewhere.toAside).reaches
    dsimp only
    split
    · have hdrop := reaches_drop
        (visits_place_self d.lobby .loop passed.1 visited.2.ongoing?)
      rw [place_place] at hdrop
      have hleft := congrArg Errand.visit?
        (errand_of_consults (Desk.consults_dropVisit passed.1 .loop visited.2))
      exact (hpassed.trans hdrop).trans (reaches_setLoop (hleft.trans herrand) .ended)
    · split
      · rename_i hover
        rw [Visit.ongoing?_of_over hover] at hpassed
        exact hpassed.trans (reaches_setLoop herrand (.idle t .closed))
      · exact hpassed.trans (reaches_setLoop herrand (.cycle t visited.2 passed.2))
    · exact hpassed.trans (reaches_setLoop herrand (.cycle t visited.2 passed.2))

theorem reaches_pollLoop (d : Desk) : Reaches d.lobby d.pollLoop.lobby := by
  unfold Desk.pollLoop
  split
  · rename_i hl
    exact reaches_pollStartup hl
  · rename_i hl
    exact reaches_pollIdle hl
  · rename_i hl
    exact reaches_pollCycle hl
  · exact .refl d.lobby

/-! ### The other activities and the caller -/

theorem elsewhere_wake (d : Desk) : Desk.Elsewhere d d.wake := by
  unfold Desk.wake
  split
  · rename_i hl
    refine .of_eq rfl rfl rfl rfl (funext fun p => ?_)
    cases p with
    | loop => exact (congrArg (Option.bind · Loop.visit?) hl).symm
    | caller => rfl
  · exact .of_eq rfl rfl rfl rfl rfl

theorem elsewhere_pollTicker (d : Desk) : Desk.Elsewhere d d.pollTicker := by
  have htick : ∀ due, Desk.Elsewhere d (d.tick due) := by
    intro due
    have hwake : Desk.Elsewhere d (if d.book.hasActive then d.wake else d) := by
      split
      · exact elsewhere_wake d
      · exact .refl d
    exact hwake.trans (.of_eq rfl rfl rfl rfl rfl)
  unfold Desk.pollTicker
  split
  · split
    · exact .of_eq rfl rfl rfl rfl rfl
    · exact htick d.clock
  · split
    · exact .of_eq rfl rfl rfl rfl rfl
    · split
      · exact htick _
      · exact .refl d
  · exact .refl d

theorem isReconciling_request (i : Instruction) (s : Settings) :
    (i.request s).isReconciling = false := by
  cases i <;> rfl

theorem elsewhere_pollSending (d : Desk) (s : Sending) : Desk.Elsewhere d (d.pollSending s) := by
  have hfinish : ∀ (d : Desk) reply, Desk.Elsewhere d (d.finishSending s reply) := by
    intro d reply
    let change := d.book.update d.now (submissionReport s.order s.kind reply)
    let dropped : Desk := { d with sendings := d.sendings.filter (·.serial ≠ s.serial) }
    have hdropped : Desk.Elsewhere d dropped := .of_eq rfl rfl rfl rfl rfl
    have hcommit := hdropped.trans
      (Desk.elsewhere_commit dropped change.book change.events change.gotHash)
    cases reply with
    | ok a => exact hcommit.trans (elsewhere_wake _)
    | error f => exact hcommit
  have hsend : Desk.Elsewhere d (d.send s).1 :=
    Desk.elsewhere_ask d (isReconciling_request s.instruction d.settings)
  unfold Desk.pollSending
  cases s.reply with
  | none =>
    dsimp only
    split
    · exact hsend.trans (hfinish _ _)
    · exact hsend.trans (.of_eq rfl rfl rfl rfl rfl)
  | some a =>
    dsimp only
    split
    · exact hfinish d a.reply
    · exact .of_eq rfl rfl rfl rfl rfl

theorem elsewhere_perform (d : Desk) (k : Command) : Desk.Elsewhere d (d.perform k).1 :=
  Desk.elsewhere_commit d _ _ _

theorem elsewhere_pollDelayed (d : Desk) (s : Delayed) : Desk.Elsewhere d (d.pollDelayed s) := by
  have halarm := Desk.elsewhere_setAlarm d (d.clock + s.wait)
  have hover : ∀ d : Desk,
      Desk.Elsewhere d ({ d with delays := d.delays.filter (·.serial ≠ s.serial) }.perform s.command).1 := by
    intro d
    have hdropped : Desk.Elsewhere d { d with delays := d.delays.filter (·.serial ≠ s.serial) } :=
      .of_eq rfl rfl rfl rfl rfl
    exact hdropped.trans (elsewhere_perform _ s.command)
  unfold Desk.pollDelayed
  cases s.alarm with
  | none =>
    dsimp only
    split
    · exact halarm.trans (hover _)
    · exact halarm.trans (.of_eq rfl rfl rfl rfl rfl)
  | some alarm =>
    dsimp only
    split
    · exact hover d
    · exact .of_eq rfl rfl rfl rfl rfl

theorem reaches_poll (d : Desk) (a : Activity) : Reaches d.lobby (d.poll a).lobby := by
  cases a with
  | loop => exact reaches_pollLoop d
  | ticker => exact reaches_elsewhere (elsewhere_pollTicker d)
  | sending n =>
    simp only [Desk.poll]
    split
    · exact reaches_elsewhere (elsewhere_pollSending d _)
    · exact .refl d.lobby
  | delayed n =>
    simp only [Desk.poll]
    split
    · exact reaches_elsewhere (elsewhere_pollDelayed d _)
    · exact .refl d.lobby

theorem reaches_pollErrand (d : Desk) : Reaches d.lobby d.pollErrand.lobby := by
  -- Only a visit of the caller concerns the lobby; no other errand becomes one.
  have hother : ∀ {d' : Desk} {e : Errand}, Desk.Elsewhere d d' → d.errand.visit? = none →
      e.visit? = none → Reaches d.lobby { d' with errand := e }.lobby := by
    intro d' e h hnone he
    refine (reaches_elsewhere h).trans (reaches_desk ⟨rfl, rfl, Nat.le_refl _, rfl⟩ (funext fun p => ?_))
    cases p with
    | loop => rfl
    | caller => exact (he.trans hnone.symm).trans (congrFun h.visits .caller).symm
  have hsubmissions : ∀ {d' : Desk} (deadline : Alarm), Desk.Elsewhere d d' →
      d.errand.visit? = none → Reaches d.lobby (d'.pollSubmissions deadline).lobby := by
    intro d' deadline h hnone
    unfold Desk.pollSubmissions
    split
    · exact hother h hnone rfl
    · split
      · have hnobody : Desk.Elsewhere d { d' with sendings := [] } :=
          h.trans (.of_eq rfl rfl rfl rfl rfl)
        exact hother hnobody hnone rfl
      · exact hother h hnone rfl
  unfold Desk.pollErrand
  split
  · rename_i v he
    have hv : d.visitOf .caller = v.ongoing? := congrArg Errand.visit? he
    have hturn : Reaches d.lobby
        (d.lobby.place .caller (d.pollVisit .caller v).1 (d.pollVisit .caller v).2.ongoing?) :=
      reaches_turn hv
    refine hturn.trans (reaches_desk ⟨rfl, rfl, Nat.le_refl _, rfl⟩ (funext fun p => ?_))
    cases p with
    | loop =>
      have hloop := loop_of_consults (Desk.consults_pollVisit d .caller v)
      exact congrArg (Option.bind · Loop.visit?) hloop
    | caller => rfl
  · rename_i p he
    obtain ⟨work, stop, hd⟩ := Desk.does_pollPass d p
    exact hother hd.elsewhere (by rw [he]; rfl) rfl
  · rename_i he
    split
    · have halarm := Desk.elsewhere_setAlarm d (d.clock + d.settings.requestTimeout)
      exact hsubmissions _ halarm (by rw [he]; rfl)
    · exact .refl d.lobby
  · rename_i deadline he
    exact hsubmissions deadline (.refl d) (by rw [he]; rfl)
  · exact .refl d.lobby

theorem reaches_elapse (d : Desk) {clock : Nat} (now : Instant) (ready : List Activity)
    (h : d.clock ≤ clock) : Reaches d.lobby { d with clock, now, ready }.lobby :=
  reaches_elsewhere ⟨⟨rfl, rfl, h, rfl⟩, rfl⟩

/-- While the caller waits, parties come and go as they may. -/
theorem turning_reaches (c : Lobby) : Desk.Turning fun d => Reaches c d.lobby where
  poll a h := h.trans (reaches_poll _ a)
  errand h := h.trans (reaches_pollErrand _)
  elapse _ ready hle h := h.trans (reaches_elapse _ _ ready hle)

/-- A caller who works with the reconciler comes to the lobby, and its run goes on until the work is done. -/
theorem exists_run_of_consult (hrun : Run c marks d.lobby) (h : d.errand.visit? = none)
    (purpose : Purpose) : ∃ marks, Run c marks (d.consult purpose).1.lobby := by
  have hcome := (Step.come (c := d.lobby) .caller purpose h).reaches
  have hawait : Reaches d.lobby (d.await (.visit (.start purpose))).lobby := by
    refine (turning_reaches d.lobby).await (hcome.trans ?_)
    refine reaches_desk ⟨rfl, rfl, Nat.le_refl _, rfl⟩ (funext fun p => ?_)
    cases p <;> rfl
  have hconsult : Reaches d.lobby (d.consult purpose).1.lobby := by
    unfold Desk.consult
    dsimp only
    split
    · exact hawait
    · exact hawait
  exact Reaches.trans ⟨marks, hrun⟩ hconsult

/-! ### The shift -/

theorem reaches_step (s : Shift) (m : Move) : Reaches s.desk.lobby (s.step m).desk.lobby := by
  cases m with
  | turn a =>
    unfold Shift.step
    dsimp only
    split
    · have hread : ∀ s : Shift, Reaches s.desk.lobby s.readFeed.desk.lobby := by
        intro s
        unfold Shift.readFeed
        split
        · exact reaches_elsewhere (.of_eq rfl rfl rfl rfl rfl)
        · exact .refl s.desk.lobby
      exact (reaches_poll s.desk a).trans (hread { s with desk := s.desk.poll a })
    · exact .refl s.desk.lobby
  | pass wait now => exact reaches_elapse s.desk now s.desk.ready (Nat.le_add_right _ wait)
  | round =>
    have hkeep : ∀ s : Shift, s.keep.desk = s.desk := by
      intro s
      unfold Shift.keep
      split <;> rfl
    have hdesk : s.round.desk = (s.desk.command (.purge Shift.retention)).1 := hkeep _
    have hpurge := elsewhere_perform s.desk (.purge Shift.retention)
    change Reaches s.desk.lobby s.round.desk.lobby
    rw [hdesk]
    exact reaches_elsewhere (hpurge.trans (.of_eq rfl rfl rfl rfl rfl))

theorem reaches_run (s : Shift) (moves : List Move) :
    Reaches s.desk.lobby (s.run moves).desk.lobby := by
  induction moves generalizing s with
  | nil => exact .refl s.desk.lobby
  | cons m moves ih => exact (reaches_step s m).trans (ih (s.step m))

/-- Nobody is at work at the desk while the caller waits for the gateway's sign of life. -/
theorem await_ping (hl : d.loop = none) (ht : d.ticker = none) (hs : d.sendings = [])
    (hd : d.delays = []) (a : Arrival Bool) : ∃ clock ready, d.clock ≤ clock ∧
      d.await (.ping a) = { d with errand := .ping a, clock, ready } := by
  have hturning : Desk.Turning fun d' => ∃ clock ready, d.clock ≤ clock ∧
      d' = { d with errand := .ping a, clock, ready } := by
    constructor
    · rintro _ act ⟨clock, ready, hle, rfl⟩
      refine ⟨clock, ready, hle, ?_⟩
      cases act <;> simp [Desk.poll, Desk.pollLoop, Desk.pollTicker, hl, ht, hs, hd]
    · rintro _ ⟨clock, ready, hle, rfl⟩
      exact ⟨clock, ready, hle, rfl⟩
    · rintro _ clock ready hle ⟨_, _, hle', rfl⟩
      exact ⟨clock, ready, Nat.le_trans hle' hle, rfl⟩
  exact hturning.await ⟨d.clock, d.ready, Nat.le_refl _, rfl⟩

theorem elsewhere_openedDesk (settings : Settings) (pairs : List Pair) (now : Instant)
    (nonce : String) :
    Desk.Elsewhere (.opening settings pairs now nonce) (Shift.openedDesk settings pairs now nonce) := by
  let d : Desk := .opening settings pairs now nonce
  let read : Desk := { d with feed := d.feed.subscribe Shift.reader }
  let asked := read.ask .ping
  have hread : Desk.Elsewhere d read := .of_eq rfl rfl rfl rfl rfl
  have hasked : Desk.Elsewhere d asked.1 := hread.trans (Desk.elsewhere_ask read (r := .ping) rfl)
  obtain ⟨clock, ready, hle, hawait⟩ := await_ping (d := asked.1) rfl rfl rfl rfl asked.2
  have hopened : Shift.openedDesk settings pairs now nonce =
      { asked.1 with errand := .ping asked.2, clock, ready } := hawait
  rw [hopened]
  refine hasked.trans ⟨⟨rfl, rfl, hle, rfl⟩, funext fun p => ?_⟩
  cases p <;> rfl

theorem elsewhere_restore (d : Desk) (kept : Orders) : Desk.Elsewhere d (d.restore kept).1 := by
  have hcommit := Desk.elsewhere_commit d (d.book.restore kept).1 [] (0 < (d.book.restore kept).2)
  unfold Desk.restore
  dsimp only
  split
  · exact (hcommit.trans (elsewhere_wake _)).trans (.of_eq rfl rfl rfl rfl rfl)
  · exact hcommit.trans (.of_eq rfl rfl rfl rfl rfl)

theorem reaches_begin (h : d.visitOf .loop = none) : Reaches d.lobby d.begin.lobby := by
  have hcome := (Step.come (c := d.lobby) .loop (.pass true) h).reaches
  refine hcome.trans (reaches_desk ⟨rfl, rfl, Nat.le_refl _, rfl⟩ (funext fun p => ?_))
  cases p <;> rfl

/-- A shift opens with the loop's first visit. -/
theorem reaches_start {u : Setup} {s : Shift} {now : Instant} {nonce : String}
    (h : Shift.start u now nonce = .ok s) :
    ∃ settings pairs, Reaches (opening settings pairs now nonce) s.desk.lobby := by
  obtain ⟨kept, haccepted⟩ := Shift.accepted_of_start h
  obtain ⟨settings, pairs, hstart⟩ := Shift.start_of_accepted haccepted now nonce
  rw [hstart] at h
  cases h
  have hrestored := (elsewhere_openedDesk settings pairs now nonce).trans (elsewhere_restore _ kept)
  have hopening : Reaches (opening settings pairs now nonce)
      (Desk.opening settings pairs now nonce).lobby :=
    reaches_desk ⟨rfl, rfl, Nat.le_refl _, rfl⟩ (funext fun p => by cases p <;> rfl)
  exact ⟨settings, pairs, (hopening.trans (reaches_elsewhere hrestored)).trans
    (reaches_begin (congrFun hrestored.visits .loop))⟩

/-- Whatever the gateway replies, each shift is a run of a lobby. -/
theorem exists_run_of_shift {u : Setup} {s : Shift} {now : Instant} {nonce : String}
    (h : Shift.start u now nonce = .ok s) (script : Script) (moves : List Move) :
    ∃ settings pairs marks, Run (opening settings pairs now nonce) marks
      ((s.facing script).run moves).desk.lobby := by
  obtain ⟨settings, pairs, hstart⟩ := reaches_start h
  have hfacing : Reaches s.desk.lobby (s.facing script).desk.lobby :=
    reaches_elsewhere (.of_eq rfl rfl rfl rfl rfl)
  exact ⟨settings, pairs, (hstart.trans hfacing).trans (reaches_run (s.facing script) moves)⟩

end Lobby
end SwapDesk
