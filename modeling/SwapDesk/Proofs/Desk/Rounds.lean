import SwapDesk.Desk.Caller
import SwapDesk.Proofs.Desk.Beats

/-! The rounds of the scheduling loop. Anybody may raise the wake signal at any time, and tell the loop to
shut down; nobody but the loop hears the signal. Whether a wake is still to be heeded is a matter of the
loop's phase, of the permit and of what was noted since. -/
namespace SwapDesk.Rounds

/-- One step, and what is noted at it. -/
inductive Step : Desk → List Beat → Desk → Prop
  | turn {d : Desk} : Step d d.beats d.pollLoop
  | wake {d : Desk} : Step d [.woken] d.wake
  | tell {d : Desk} {s : Shutdown} (h : s.isGiven = true) : Step d [.told] { d with shutdown := s }
  | withdraw {d : Desk} {s : Shutdown} (h : s.isGiven = false) :
      Step d [.recalled] { d with shutdown := s }
  /-- Whatever else happens: time passes, orders change, others visit the reconciler, replies arrive. -/
  | beside {d d' : Desk} (h : d.Beside d') : Step d [] d'

/-- What there is to note of the time before the loop: a permit that is left, and that it need not even
begin. -/
def prior (d : Desk) : List Beat :=
  (if d.permit then [.woken] else []) ++ if d.shutdown.isGiven then [.told] else []

/-- A run of a loop that has just begun, and all that was noted. -/
inductive Run : List Beat → Desk → Prop
  | start {d : Desk} (h : d.loop = some (.startup (.start (.pass true)))) : Run (prior d) d
  | snoc {d d' : Desk} {beats more : List Beat} (h : Run beats d) (hstep : Step d more d') :
      Run (beats ++ more) d'

variable {d d' : Desk} {beats more before after : List Beat} {l : Loop} {t : Tick} {ear : Ear}
  {v : Visit} {p : Pass}

/-! ### The phases of the loop -/

/-- One more beginning than ends is noted of each half of the cycle, unless the half is over or the cycle is
still to begin. -/
structure Underway (beats : List Beat) (v : Visit) (p : Pass) : Prop where
  reconciling : beats.countP Beat.isBegan + p.isFresh.toNat =
    beats.countP Beat.isReconciled + (!v.isOver).toNat
  polling : beats.countP Beat.isBegan + p.isFresh.toNat =
    beats.countP Beat.isPolled + (!p.isOver).toNat
  fresh : p.isFresh = true → v.isOver = false

/-- What the notes tell of the loop's phase. -/
def Phase (beats : List Beat) : Loop → Prop
  | .startup v => v.purpose = .pass true ∧ v.isOver = false ∧ ∀ x ∈ beats, x.isOfCycle = false
  | .idle _ _ => Opened beats ∧ Settled beats
  | .cycle _ v p => Opened beats ∧ v.purpose = .pass false ∧ Underway beats v p
  | .ended => True

theorem Phase.append_quiet (h : Phase beats l) (hq : ∀ x ∈ more, x.isOfCycle = false) :
    Phase (beats ++ more) l := by
  cases l with
  | startup v =>
    obtain ⟨hpurpose, hover, hbeats⟩ := h
    refine ⟨hpurpose, hover, fun x hx => ?_⟩
    rcases List.mem_append.mp hx with hx | hx
    · exact hbeats x hx
    · exact hq x hx
  | idle t ear => exact ⟨h.1.append more, h.2.append_quiet hq⟩
  | cycle t v p =>
    obtain ⟨hopened, hpurpose, hunder⟩ := h
    obtain ⟨hbegan, hreconciled, hpolled⟩ := countP_quiet hq
    refine ⟨hopened.append more, hpurpose, ?_, ?_, hunder.fresh⟩
    · simpa only [List.countP_append, hbegan, hreconciled, Nat.add_zero] using hunder.reconciling
    · simpa only [List.countP_append, hbegan, hpolled, Nat.add_zero] using hunder.polling
  | ended => trivial

theorem Phase.ring (h : Phase beats l) : Phase beats l.ring := by
  cases l with
  | cycle t v p =>
    obtain ⟨hopened, hpurpose, hreconciling, hpolling, hfresh⟩ := h
    cases p with
    | awaiting => exact ⟨hopened, hpurpose, hreconciling, hpolling, hfresh⟩
    | _ => exact ⟨hopened, hpurpose, hreconciling, hpolling, hfresh⟩
  | _ => exact h

theorem phase_pollStartup (h : Phase beats (.startup v)) (hl : d.loop = some (.startup v)) :
    ∀ l, (d.pollStartup v).loop = some l → Phase (beats ++ d.beats) l := by
  obtain ⟨hpurpose, hover, hbeats⟩ := h
  intro l
  unfold Desk.pollStartup
  split
  · rintro ⟨⟩
    trivial
  · rename_i hg
    have hnotes : d.beats =
        (newResult v.result? (d.pollVisit .loop v).2.result?).map (.opened v.purpose) := by
      simp only [Desk.beats, hg, hl]
      rfl
    have hvisit := Desk.purpose_pollVisit d .loop v
    have hquiet : ∀ x ∈ beats ++ d.beats, x.isOfCycle = false := by
      intro x hx
      rcases List.mem_append.mp hx with hx | hx
      · exact hbeats x hx
      · rw [hnotes] at hx
        obtain ⟨r, _, rfl⟩ := List.mem_map.mp hx
        rfl
    dsimp only
    split
    · rename_i hongoing
      rintro ⟨⟩
      exact ⟨hvisit.trans hpurpose, by simpa using hongoing, hquiet⟩
    · rename_i hended
      have hsettled : Settled ([] ++ (beats ++ d.beats)) := settled_nil.append_quiet hquiet
      have hopened : Opened (beats ++ d.beats) := by
        have hresult : (d.pollVisit .loop v).2.result?.isSome = true := by simpa using hended
        obtain ⟨r, hr⟩ := Option.isSome_iff_exists.mp hresult
        have hnone : v.result? = none :=
          Option.not_isSome_iff_eq_none.mp (by simp [hover])
        refine ⟨r, List.mem_append_right beats ?_⟩
        simp [hnotes, newResult, hnone, hr, hpurpose]
      split
      · rintro ⟨⟩
        trivial
      · rintro ⟨⟩
        exact ⟨hopened, hsettled⟩

theorem phase_pollIdle (h : Phase beats (.idle t ear)) (hl : d.loop = some (.idle t ear)) :
    ∀ l, (d.pollIdle t ear).loop = some l → Phase (beats ++ d.beats) l := by
  obtain ⟨hopened, hsettled⟩ := h
  have hnotes : d.beats = [] := by simp [Desk.beats, hl]
  have hfresh : ∀ t, Phase beats (.cycle t (.start (.pass false)) .fresh) := by
    intro t
    refine ⟨hopened, rfl, ?_, ?_, fun _ => rfl⟩
    · exact congrArg (· + 1) hsettled.1.symm
    · exact congrArg (· + 1) hsettled.2.symm
  intro l
  rw [hnotes, List.append_nil]
  unfold Desk.pollIdle
  split
  · unfold Desk.endIdle
    dsimp only
    split <;> rintro ⟨⟩ <;> trivial
  · split
    · rintro ⟨⟩
      exact hfresh t
    · split
      · rintro ⟨⟩
        exact hfresh t
      · split
        · rintro ⟨⟩
          exact hfresh _
        · unfold Desk.listen
          split <;> rintro ⟨⟩ <;> exact ⟨hopened, hsettled⟩

theorem underway_pollCycle (h : Underway beats v p) (hl : d.loop = some (.cycle t v p))
    (hg : d.shutdown.isGiven = false) :
    Underway (beats ++ d.beats) (d.pollVisit .loop v).2 ((d.pollVisit .loop v).1.pollPass p).2 := by
  let visited := d.pollVisit .loop v
  let passed := visited.1.pollPass p
  obtain ⟨hbegan, hreconciled, hpolled⟩ := countP_cycle p.isFresh v.purpose
    (newResult v.result? visited.2.result?) (newResult p.result? passed.2.result?)
  rw [← beats_cycle hl hg] at hbegan hreconciled hpolled
  have hstarted : passed.2.isFresh = false := Desk.isFresh_pollPass visited.1 p
  have hvisit : v.result?.isSome = true → visited.2.result?.isSome = true := by
    rw [Visit.isSome_result?]
    intro hover
    simp only [visited, Desk.pollVisit_of_over hover, Visit.isSome_result?, hover]
  have hpass : p.result?.isSome = true → passed.2.result?.isSome = true := by
    rw [Pass.isSome_result?]
    intro hover
    simp only [passed, Desk.pollPass_of_over hover, Pass.isSome_result?, hover]
  -- A half that is over stays over, so its end is noted once.
  have hresult := length_newResult hvisit
  have hreport := length_newResult hpass
  simp only [Visit.isSome_result?, Pass.isSome_result?] at hresult hreport
  have hreconciling := h.reconciling
  have hpolling := h.polling
  refine ⟨?_, ?_, fun hfresh => ?_⟩
  · rw [List.countP_append, List.countP_append, hbegan, hreconciled]
    change _ + passed.2.isFresh.toNat = _ + (!visited.2.isOver).toNat
    rw [hstarted, Bool.toNat_false]
    omega
  · rw [List.countP_append, List.countP_append, hbegan, hpolled]
    change _ + passed.2.isFresh.toNat = _ + (!passed.2.isOver).toNat
    rw [hstarted, Bool.toNat_false]
    omega
  · exact absurd (hstarted.symm.trans hfresh) (by decide)

theorem phase_pollCycle (h : Phase beats (.cycle t v p)) (hl : d.loop = some (.cycle t v p)) :
    ∀ l, (d.pollCycle t v p).loop = some l → Phase (beats ++ d.beats) l := by
  obtain ⟨hopened, hpurpose, hunder⟩ := h
  intro l
  unfold Desk.pollCycle
  split
  · rintro ⟨⟩
    trivial
  · rename_i hg
    have hunder' := underway_pollCycle hunder hl (Bool.not_eq_true _ ▸ hg)
    have hpurpose' := (Desk.purpose_pollVisit d .loop v).trans hpurpose
    have hopened' := hopened.append d.beats
    dsimp only at hunder' ⊢
    split
    · rintro ⟨⟩
      trivial
    · rename_i hended
      split
      · rename_i hover
        rintro ⟨⟩
        obtain ⟨hreconciling, hpolling, _⟩ := hunder'
        simp only [hended, hover, Pass.isFresh, Pass.isOver, Bool.not_true, Bool.toNat_false,
          Nat.add_zero] at hreconciling hpolling
        exact ⟨hopened', hreconciling.symm, hpolling.symm⟩
      · rintro ⟨⟩
        exact ⟨hopened', hpurpose', hunder'⟩
    · rintro ⟨⟩
      exact ⟨hopened', hpurpose', hunder'⟩

theorem phase_pollLoop (h : ∀ l, d.loop = some l → Phase beats l) :
    ∀ l, d.pollLoop.loop = some l → Phase (beats ++ d.beats) l := by
  intro l
  unfold Desk.pollLoop
  split
  · rename_i hl
    exact phase_pollStartup (h _ hl) hl l
  · rename_i hl
    exact phase_pollIdle (h _ hl) hl l
  · rename_i hl
    exact phase_pollCycle (h _ hl) hl l
  · rename_i hstartup hidle hcycle
    intro hl
    cases l with
    | startup v => exact (hstartup v hl).elim
    | idle t ear => exact (hidle t ear hl).elim
    | cycle t v p => exact (hcycle t v p hl).elim
    | ended => trivial

/-! ### Wakes that were not heeded yet -/

/-- The loop is about to begin a cycle, or will never begin one again. -/
def Heeding : Loop → Prop
  | .startup _ => False
  | .idle _ ear => ear = .rung
  | .cycle _ _ p => p.isFresh = true
  | .ended => True

/-- A wake is kept, or the loop has heard it. -/
def Pending (d : Desk) : Prop := d.permit = true ∨ ∀ l, d.loop = some l → Heeding l

theorem Heeding.ring (h : Heeding l) : Heeding l.ring := by
  cases l with
  | cycle t v p =>
    cases p with
    | fresh => rfl
    | _ => cases h
  | _ => exact h

theorem pending_wake (d : Desk) : Pending d.wake := by
  unfold Desk.wake
  split
  · refine Or.inr ?_
    rintro l ⟨⟩
    rfl
  · exact Or.inl rfl

theorem Pending.heard (h : Pending d) (hl : d.loop = some (.idle t ear)) :
    ear = .rung ∨ d.permit = true := by
  rcases h with hp | hh
  · exact Or.inr hp
  · exact Or.inl (hh _ hl)

/-- An idle loop that has a wake to heed begins a cycle, or ends. -/
theorem pending_pollIdle (h : Pending d) (hl : d.loop = some (.idle t ear)) :
    Pending (d.pollIdle t ear) := by
  refine Or.inr fun l => ?_
  unfold Desk.pollIdle
  split
  · unfold Desk.endIdle
    dsimp only
    split <;> rintro ⟨⟩ <;> trivial
  · split
    · rintro ⟨⟩
      rfl
    · rename_i hear
      rw [if_pos ((h.heard hl).resolve_left hear)]
      rintro ⟨⟩
      rfl

/-- With its next two turns an idle loop heeds the wake. -/
theorem began_of_pending (h : Pending d) (hl : d.loop = some (.idle t ear))
    (hg : d.shutdown.isGiven = false) : .began (.pass false) ∈ d.pollLoop.beats := by
  have hfresh : d.pollLoop.loop = some (.cycle t (.start (.pass false)) .fresh) := by
    simp only [Desk.pollLoop, hl, Desk.pollIdle, hg, Bool.false_eq_true, if_false]
    split
    · rfl
    · rename_i hear
      rw [if_pos ((h.heard hl).resolve_left hear)]
      rfl
  have hgoes : d.pollLoop.shutdown.isGiven = false := by rw [shutdown_pollLoop, hg]
  rw [beats_cycle hfresh hgoes]
  simp [Pass.isFresh, Visit.start]

/-- A wake is to be heeded until a cycle begins. -/
theorem pending_pollLoop (h : Pending d) (hn : ∀ x ∈ d.beats, x.isBegan = false) :
    Pending d.pollLoop := by
  unfold Desk.pollLoop
  split
  · rename_i v hl
    have hpermit : d.permit = true := h.resolve_right fun hh => hh _ hl
    exact Or.inl ((signals_pollStartup d v).1.trans hpermit)
  · rename_i hl
    exact pending_pollIdle h hl
  · rename_i t v p hl
    cases hg : d.shutdown.isGiven with
    | true =>
      refine Or.inr fun l he => ?_
      rw [loop_pollCycle_of_given hg] at he
      cases he
      trivial
    | false =>
      have hstarted : p.isFresh = false := by
        rw [beats_cycle hl hg] at hn
        cases hp : p.isFresh with
        | false => rfl
        | true =>
          have hfirst : (Beat.began v.purpose).isBegan = false := hn _ (by simp [hp])
          cases hfirst
      have hpermit : d.permit = true := by
        refine h.resolve_right fun hh => ?_
        exact absurd (hstarted.symm.trans (hh _ hl)) (by decide)
      exact Or.inl ((signals_pollCycle d t v p).1.trans hpermit)
  · exact h

/-! ### Every step -/

/-- What the notes tell of the loop. -/
structure Sound (beats : List Beat) (d : Desk) : Prop where
  phase : ∀ l, d.loop = some l → Phase beats l
  told : Since .told Beat.isRecalled beats → d.shutdown.isGiven = true
  woken : Since .woken Beat.isBegan beats → Pending d
  began : ∀ before purpose after, beats = before ++ .began purpose :: after →
    purpose = .pass false ∧ Opened before ∧ Settled before ∧ ¬Since .told Beat.isRecalled before

/-- Only the loop's own turns have cycles begin. -/
theorem Sound.quiet (h : Sound beats d) (hq : ∀ x ∈ more, x.isOfCycle = false)
    (hp : ∀ l, d'.loop = some l → Phase beats l)
    (ht : Since .told Beat.isRecalled (beats ++ more) → d'.shutdown.isGiven = true)
    (hw : Since .woken Beat.isBegan (beats ++ more) → Pending d') : Sound (beats ++ more) d' where
  phase l hl := (hp l hl).append_quiet hq
  told := ht
  woken := hw
  began := by
    intro before purpose after he
    rcases split_append he with ⟨rest, _, hmore⟩ | ⟨rest, hbeats, _⟩
    · have hbegan := hq (.began purpose) (hmore ▸ List.mem_append_right rest List.mem_cons_self)
      cases hbegan
    · exact h.began before purpose rest hbeats

theorem Sound.turn (h : Sound beats d) : Sound (beats ++ d.beats) d.pollLoop where
  phase := phase_pollLoop h.phase
  told := by
    intro hs
    rw [shutdown_pollLoop]
    rcases since_append hs with hs | ⟨hs, _⟩
    · exact (not_since_of_notMem (signals_notMem_beats d).2 hs).elim
    · exact h.told hs
  woken := by
    intro hs
    rcases since_append hs with hs | ⟨hs, hn⟩
    · exact (not_since_of_notMem (signals_notMem_beats d).1 hs).elim
    · exact pending_pollLoop (h.woken hs) hn
  began := by
    intro before purpose after he
    rcases split_append he with ⟨rest, rfl, hturn⟩ | ⟨rest, hbeats, _⟩
    · -- The pass has had no turn yet, so all that is noted comes from earlier cycles.
      obtain ⟨rfl, hg, t, v, hl, rfl⟩ := began_split hturn
      obtain ⟨hopened, hpurpose, hreconciling, hpolling, hfresh⟩ := h.phase _ hl
      rw [hfresh rfl] at hreconciling
      have hsettled : Settled beats :=
        ⟨(Nat.add_right_cancel hreconciling).symm, (Nat.add_right_cancel hpolling).symm⟩
      rw [List.append_nil]
      refine ⟨hpurpose, hopened, hsettled, fun hs => ?_⟩
      rw [h.told hs] at hg
      cases hg
    · exact h.began before purpose rest hbeats

theorem quiet_singleton {x : Beat} (h : x.isOfCycle = false) : ∀ y ∈ [x], y.isOfCycle = false := by
  rintro y hy
  rw [List.mem_singleton.mp hy]
  exact h

theorem Pending.beside (h : Pending d) (hb : d.Beside d') : Pending d' := by
  rcases h with hp | hh
  · exact Or.inl (hb.permit.trans hp)
  · refine Or.inr fun l hl => ?_
    rcases hb.loop with he | he
    · exact hh l (he ▸ hl)
    · rw [he] at hl
      obtain ⟨l', hl', rfl⟩ := Option.map_eq_some_iff.mp hl
      exact (hh l' hl').ring

theorem Sound.step (h : Sound beats d) (hstep : Step d more d') : Sound (beats ++ more) d' := by
  cases hstep with
  | turn => exact h.turn
  | wake =>
    refine h.quiet (quiet_singleton rfl) (fun l hl => ?_) (fun hs => ?_) fun _ => pending_wake d
    · unfold Desk.wake at hl
      split at hl
      · rename_i hidle
        cases hl
        have hphase : Phase beats (.idle _ .listening) := h.phase _ hidle
        exact hphase
      · exact h.phase l hl
    · have hgiven := h.told (since_snoc hs nofun).1
      unfold Desk.wake
      split
      · exact hgiven
      · exact hgiven
  | tell hg =>
    exact h.quiet (quiet_singleton rfl) h.phase (fun _ => hg) fun hs => h.woken (since_snoc hs nofun).1
  | withdraw hg =>
    refine h.quiet (quiet_singleton rfl) h.phase (fun hs => ?_) fun hs => h.woken (since_snoc hs nofun).1
    obtain ⟨_, hoff⟩ := since_snoc hs nofun
    cases hoff
  | beside hb =>
    have hnone : ∀ x ∈ ([] : List Beat), x.isOfCycle = false := fun x hx => nomatch hx
    refine h.quiet hnone (fun l hl => ?_) (fun hs => ?_) fun hs => ?_
    · rcases hb.loop with he | he
      · exact h.phase l (he ▸ hl)
      · rw [he] at hl
        obtain ⟨l', hl', rfl⟩ := Option.map_eq_some_iff.mp hl
        exact (h.phase l' hl').ring
    · rw [List.append_nil] at hs
      rw [hb.shutdown]
      exact h.told hs
    · rw [List.append_nil] at hs
      exact (h.woken hs).beside hb

theorem sound_prior (h : d.loop = some (.startup (.start (.pass true)))) : Sound (prior d) d where
  phase := by
    intro l hl
    rw [h] at hl
    cases hl
    refine ⟨rfl, rfl, fun x hx => ?_⟩
    rcases List.mem_append.mp hx with hx | hx
    · split at hx
      · exact quiet_singleton rfl x hx
      · cases hx
    · split at hx
      · exact quiet_singleton rfl x hx
      · cases hx
  told := by
    intro hs
    cases hg : d.shutdown.isGiven with
    | true => rfl
    | false =>
      refine (not_since_of_notMem ?_ hs).elim
      simp [prior, hg]
  woken := by
    intro hs
    cases hp : d.permit with
    | true => exact Or.inl hp
    | false =>
      refine (not_since_of_notMem ?_ hs).elim
      simp [prior, hp]
  began := by
    intro before purpose after he
    have hmem : .began purpose ∈ prior d := he ▸ List.mem_append_right before List.mem_cons_self
    simp [prior] at hmem

theorem Run.sound (h : Run beats d) : Sound beats d := by
  induction h with
  | start hl => exact sound_prior hl
  | snoc _ hstep ih => exact ih.step hstep

theorem recalled_of_not_since {earlier later : List Beat}
    (h : ¬Since .told Beat.isRecalled (earlier ++ .told :: later)) : .recalled ∈ later := by
  by_contra hnone
  refine h ⟨earlier, later, rfl, fun x hx => ?_⟩
  cases x with
  | recalled => exact (hnone hx).elim
  | _ => rfl

theorem began_of_not_since (h : ¬Since .woken Beat.isBegan (before ++ .woken :: after)) :
    ∃ purpose, .began purpose ∈ after := by
  by_contra hnone
  refine h ⟨before, after, rfl, fun x hx => ?_⟩
  cases x with
  | began purpose => exact (hnone ⟨purpose, hx⟩).elim
  | _ => rfl

theorem not_pending_of_idle (hl : d.loop = some (.idle t ear)) (he : ear ≠ .rung)
    (hp : d.permit = false) : ¬Pending d := by
  rintro (hpermit | hh)
  · rw [hp] at hpermit
    cases hpermit
  · exact he (hh _ hl)

/-- However wakes, replies, ticks and requests to shut down fall together: a cycle begins only after the
forced reconciliation at the beginning is over, only when the reconciliation and the polling pass of every
earlier cycle are over, and never once the loop was told to shut down. As long as no cycle has begun after a
wake, the wake is kept or the loop is about to begin one, and a loop that waits begins one with its next two
turns, unless it is to shut down. So whenever the loop waits, with no permit left and no wake on its way to
it, a cycle has begun after every wake, and all cycles are over. -/
theorem rounds_in_order (h : Run beats d) :
    (∀ before purpose after, beats = before ++ .began purpose :: after →
      purpose = .pass false ∧ (∃ result, .opened (.pass true) result ∈ before) ∧ Settled before ∧
      ∀ earlier later, before = earlier ++ .told :: later → .recalled ∈ later) ∧
    (Since .woken Beat.isBegan beats → Pending d) ∧
    (∀ t ear, d.loop = some (.idle t ear) → Pending d → d.shutdown.isGiven = false →
      .began (.pass false) ∈ d.pollLoop.beats) ∧
    ∀ t ear, d.loop = some (.idle t ear) → ear ≠ .rung → d.permit = false →
      Settled beats ∧
      ∀ before after, beats = before ++ .woken :: after → .began (.pass false) ∈ after := by
  have hs := h.sound
  refine ⟨?_, hs.woken, fun _ _ hl hp hg => began_of_pending hp hl hg, ?_⟩
  · intro before purpose after he
    obtain ⟨hpurpose, hopened, hsettled, hnot⟩ := hs.began before purpose after he
    refine ⟨hpurpose, hopened, hsettled, ?_⟩
    rintro earlier later rfl
    exact recalled_of_not_since hnot
  · intro t ear hl hear hp
    obtain ⟨_, hsettled⟩ := hs.phase _ hl
    refine ⟨hsettled, ?_⟩
    rintro before after rfl
    obtain ⟨purpose, hmem⟩ := began_of_not_since fun hs' =>
      not_pending_of_idle hl hear hp (hs.woken hs')
    obtain ⟨l, m, rfl⟩ := List.append_of_mem hmem
    obtain ⟨rfl, _⟩ := hs.began (before ++ .woken :: l) purpose m (by simp)
    exact hmem

/-- A new desk whose loop has just begun. -/
def begunDesk : Desk := (Desk.opening (.named "c" "n" "x" "w") [] .epoch "").begin

/-- The wake comes before the first reconciliation is over, and a cycle begins after both. -/
theorem wake_at_startup_is_heeded :
    ∃ after d t, Run (.woken :: after) d ∧ d.loop = some (.idle t .closed) ∧ d.permit = false ∧
      Settled (.woken :: after) ∧ .began (.pass false) ∈ after := by
  let woken := begunDesk.wake
  let opened := woken.pollLoop
  let begun := opened.pollLoop
  have hprior : prior begunDesk = [] := rfl
  have hwoken : Run [.woken] woken := hprior ▸ (Run.start (d := begunDesk) rfl).snoc .wake
  have hrun : Run (.woken :: (woken.beats ++ opened.beats ++ begun.beats)) begun.pollLoop :=
    ((hwoken.snoc .turn).snoc .turn).snoc .turn
  have hwaits : ∃ t, begunDesk.wake.pollLoop.pollLoop.pollLoop.loop = some (.idle t .closed) :=
    ⟨⟨10000, none⟩, by rfl⟩
  obtain ⟨t, hl⟩ := hwaits
  have hp : begun.pollLoop.permit = false := by decide +kernel
  obtain ⟨_, _, _, hidle⟩ := rounds_in_order hrun
  obtain ⟨hsettled, hheeded⟩ := hidle _ .closed hl (by decide) hp
  exact ⟨_, _, _, hrun, hl, hp, hsettled, hheeded [] _ (List.nil_append _).symm⟩

end SwapDesk.Rounds
