import SwapDesk.Proofs.Desk.Apart
import SwapDesk.Proofs.Desk.Dealings

/-! Stopping a desk. The caller waits for the loop and the ticker, and then for the submissions that are
under way. After that nothing happens by itself, unless somebody is still on his way who was admitted
before: he does not look again whether the desk is running. -/
namespace SwapDesk

namespace Desk

/-- The loop and the ticker are over, if there are any. -/
structure Unmanned (d : Desk) : Prop where
  loop : d.loop.all Loop.isOver = true
  ticker : d.ticker.all Ticker.isOver = true

variable {d d' : Desk} {n : Nat}

theorem isOver_ring (l : Loop) : l.ring.isOver = l.isOver := by
  cases l <;> rfl

theorem Unmanned.apart (h : d.Unmanned) (ha : d.Apart d') : d'.Unmanned where
  loop := by
    rcases ha.loop with he | he
    · exact he ▸ h.loop
    · rw [he, Option.all_map]
      exact (congrArg (d.loop.all ·) (funext isOver_ring)).trans h.loop
  ticker := ha.ticker ▸ h.ticker

theorem Unmanned.wake (h : d.Unmanned) : d.wake.Unmanned := by
  have hwake : d.wake = { d with permit := true } := by
    unfold Desk.wake
    split
    · rename_i hl
      have hloop := h.loop
      rw [hl] at hloop
      cases hloop
    · rfl
  rw [hwake]
  exact ⟨h.loop, h.ticker⟩

theorem Unmanned.pollLoop (h : d.Unmanned) : d.pollLoop = d := by
  have hloop := h.loop
  unfold Desk.pollLoop
  split
  · rename_i hl
    rw [hl] at hloop
    cases hloop
  · rename_i hl
    rw [hl] at hloop
    cases hloop
  · rename_i hl
    rw [hl] at hloop
    cases hloop
  · rfl

theorem Unmanned.pollTicker (h : d.Unmanned) : d.pollTicker = d := by
  have hticker := h.ticker
  unfold Desk.pollTicker
  split
  · rename_i ht
    rw [ht] at hticker
    cases hticker
  · rename_i ht
    rw [ht] at hticker
    cases hticker
  · rfl

theorem Unmanned.stirs (h : d.Unmanned) (hs : d.Stirs d') : d'.Unmanned := by
  obtain ⟨e, he, rfl | rfl⟩ := hs
  · exact h.apart he
  · exact (h.apart he).wake

theorem Unmanned.poll (h : d.Unmanned) (a : Activity) : (d.poll a).Unmanned := by
  cases a with
  | loop => simpa only [Desk.poll, h.pollLoop] using h
  | ticker => simpa only [Desk.poll, h.pollTicker] using h
  | sending n =>
    simp only [Desk.poll]
    split
    · exact h.stirs (stirs_pollSending d _)
    · exact h
  | delayed n =>
    simp only [Desk.poll]
    split
    · exact h.apart (apart_pollDelayed d _)
    · exact h

/-- Without submissions nothing happens at the desk by itself. -/
theorem Unmanned.poll_eq (h : d.Unmanned) (hs : d.sendings = []) (hd : d.delays = []) (a : Activity) :
    d.poll a = d := by
  cases a with
  | loop => exact h.pollLoop
  | ticker => exact h.pollTicker
  | sending n => simp [Desk.poll, hs]
  | delayed n => simp [Desk.poll, hd]

end Desk

namespace Floor

/-- Steps one after the other, each of which is of this kind. -/
inductive Guarded (R : Floor → Floor → Prop) : Floor → List Note → Floor → Prop
  | refl (f : Floor) : Guarded R f [] f
  | snoc {f g k : Floor} {notes more : List Note} (h : Guarded R f notes g) (hstep : Step g more k)
      (hR : R g k) : Guarded R f (notes ++ more) k

/-- The desk is not started. -/
def Paused (_ g : Floor) : Prop := g.desk.running = false

/-- The desk is not started, and whoever waits for it to stop goes on waiting. -/
def Waits (f g : Floor) : Prop :=
  g.desk.running = false ∧ (g.desk.errand = f.desk.errand ∨ g.desk = f.desk.pollErrand)

/-- Nobody is at work at the desk, and no caller is on his way to it. -/
structure Resting (f : Floor) : Prop extends Desk.Unmanned f.desk where
  running : f.desk.running = false
  sendings : f.desk.sendings = []
  placings : f.placings = []

/-- How far the stop of a desk is. -/
structure Stopping (d : Desk) : Prop where
  awaited : d.errand = .workers ∨ d.Unmanned
  errand : d.errand = .workers ∨ (∃ deadline, d.errand = .submissions deadline) ∨
    d.errand = .over ∧ d.sendings = []

variable {R : Floor → Floor → Prop} {f g k : Floor} {notes more later : List Note} {d : Desk}
  {s : Settings} {pairs : List Pair} {now : Instant} {nonce : String}

theorem Guarded.run (h : Guarded R f notes g) : Run f notes g := by
  induction h with
  | refl => exact .refl _
  | snoc _ hstep _ ih => exact .snoc ih hstep

theorem running_of_termsFor {i : Instruction} {terms : Terms} (h : d.termsFor i = .ok terms) :
    d.running = true := by
  unfold Desk.termsFor at h
  cases hr : d.running with
  | true => rfl
  | false =>
    rw [hr] at h
    cases ht : i.terms with
    | error o => simp [ht] at h; cases h
    | ok t => simp [ht] at h; cases h

/-- What a step does while the desk is not running and nobody is on his way. -/
theorem Step.shut (h : Step f more g) (hf : f.desk.running = false) (hg : g.desk.running = false)
    (hp : f.placings = []) (hd : f.desk.delays = []) :
    g.placings = [] ∧ (f.desk.Unmanned → g.desk.Unmanned) ∧
      (f.desk.sendings = [] → more = [] ∧ g.desk.business = f.desk.business) := by
  cases h with
  | turn a =>
    refine ⟨hp, fun hu => hu.poll a, fun hs => ?_⟩
    rcases Desk.poll_cases hd a with ⟨hpolls, hn⟩ | ⟨s, hmem, _⟩
    · exact ⟨hn, hpolls.business⟩
    · rw [hs] at hmem
      cases hmem
  | errand =>
    refine ⟨hp, fun hu => hu.apart (Desk.apart_pollErrand f.desk), fun hs => ⟨rfl, ?_⟩⟩
    rcases Desk.pollErrand_cases f.desk with hpolls | ⟨_, hb⟩
    · exact hpolls.business
    · rw [hb, ← hs]
      rfl
  | start _ => cases hg
  | stop hr =>
    rw [hf] at hr
    cases hr
  | takeOn ht =>
    rw [running_of_termsFor ht] at hf
    cases hf
  | name i t => simp at hp
  | track i o _ => simp at hp
  | refuse i o _ => simp at hp
  | submit i kind id => simp at hp
  | abort n =>
    refine ⟨hp, fun hu => hu.apart (.of_eq rfl rfl rfl rfl rfl), fun hs => ⟨rfl, ?_⟩⟩
    simp only [Desk.business, Desk.submitted, hs, List.filter_nil]
  | purge age =>
    exact ⟨hp, fun hu => hu.apart (Desk.apart_commit _ _ _ _),
      fun _ => ⟨rfl, Desk.business_commit ..⟩⟩
  | wake => exact ⟨hp, fun hu => hu.wake, fun _ => ⟨rfl, f.desk.business_wake⟩⟩
  | ask hr =>
    exact ⟨hp, fun hu => hu.apart (Desk.apart_ask _ _), fun _ => ⟨rfl, f.desk.business_ask hr⟩⟩
  | charge id =>
    exact ⟨hp, fun hu => hu.apart (Desk.apart_commit _ _ _ _),
      fun _ => ⟨rfl, Desk.business_commit ..⟩⟩
  | settle native hr hc =>
    exact ⟨hp, fun hu => hu.apart (Desk.apart_commit _ _ _ _),
      fun _ => ⟨rfl, Desk.business_commit ..⟩⟩
  | _ => exact ⟨hp, fun hu => hu.apart (.of_eq rfl rfl rfl rfl rfl), fun _ => ⟨rfl, rfl⟩⟩

/-- Nothing that depends on the callers' business is left to be done. -/
theorem Resting.step (h : Resting f) (hd : f.desk.delays = []) (hstep : Step f more g)
    (hg : g.desk.running = false) :
    Resting g ∧ more = [] ∧ g.desk.business = f.desk.business := by
  obtain ⟨hp, hu, hb⟩ := hstep.shut h.running hg h.placings hd
  obtain ⟨hmore, hsame⟩ := hb h.sendings
  exact ⟨⟨hu h.toUnmanned, hg, (congrArg Business.sendings hsame).trans h.sendings, hp⟩, hmore, hsame⟩

theorem stopping_pollSubmissions (hu : d.Unmanned) (deadline : Alarm) :
    Stopping (d.pollSubmissions deadline) := by
  have hafter := Or.inr (a := (d.pollSubmissions deadline).errand = .workers)
    (hu.apart (Desk.apart_pollSubmissions d deadline))
  refine ⟨hafter, Or.inr ?_⟩
  unfold Desk.pollSubmissions
  split
  · rename_i hnone
    exact Or.inr ⟨rfl, List.isEmpty_iff.mp hnone⟩
  · split
    · exact Or.inr ⟨rfl, rfl⟩
    · exact Or.inl ⟨deadline, rfl⟩

theorem Stopping.pollErrand (h : Stopping d) : Stopping d.pollErrand := by
  rcases h.errand with he | ⟨deadline, he⟩ | ⟨he, hs⟩
  · unfold Desk.pollErrand
    rw [he]
    dsimp only
    split
    · rename_i hover
      obtain ⟨hl, ht⟩ := Bool.and_eq_true_iff.mp hover
      have hu : d.Unmanned := ⟨hl, ht⟩
      exact stopping_pollSubmissions (hu.apart (Desk.apart_setAlarm d _)) _
    · exact h
  · have hu : d.Unmanned := h.awaited.resolve_left (by simp [he])
    unfold Desk.pollErrand
    rw [he]
    exact stopping_pollSubmissions hu deadline
  · unfold Desk.pollErrand
    rw [he]
    exact h

theorem Stopping.step (h : Stopping f.desk) (hf : f.desk.running = false) (hp : f.placings = [])
    (hd : f.desk.delays = []) (hstep : Step f more g) (hw : Waits f g) :
    Stopping g.desk ∧ g.placings = [] := by
  obtain ⟨hg, herrand⟩ := hw
  obtain ⟨hplacings, hu, hb⟩ := hstep.shut hf hg hp hd
  refine ⟨?_, hplacings⟩
  rcases herrand with he | he
  · refine ⟨he ▸ h.awaited.imp_right hu, he ▸ h.errand.imp_right (Or.imp_right ?_)⟩
    rintro ⟨hover, hs⟩
    exact ⟨hover, (congrArg Business.sendings (hb hs).2).trans hs⟩
  · exact he ▸ h.pollErrand

theorem delays_of_run (h : Run (opening s pairs now nonce) notes f) : f.desk.delays = [] :=
  (h.sound (sound_opening (fun _ => True) s pairs now nonce)).ledger.undelayed

/-- The desk is told to stop. -/
def halted (f : Floor) : Floor := { f with desk := f.desk.halt }

/-- Once the stop has come to its end, nobody is at work. -/
theorem resting_of_over (h : Run (opening s pairs now nonce) notes f) (hr : f.desk.running = true)
    (hp : f.placings = []) (hw : Guarded Waits f.halted more g) (ho : g.desk.errand = .over) :
    Resting g := by
  have hhalted : Run (opening s pairs now nonce) (notes ++ []) f.halted := h.snoc (.stop hr)
  have hstopping : Stopping g.desk ∧ g.placings = [] ∧ g.desk.running = false := by
    clear ho
    induction hw with
    | refl => exact ⟨⟨Or.inl rfl, Or.inl rfl⟩, hp, rfl⟩
    | snoc hearlier hstep hwaits ih =>
      obtain ⟨hs, hplacings, hrunning⟩ := ih
      have hd := delays_of_run (hhalted.trans hearlier.run)
      obtain ⟨hs', hp'⟩ := hs.step hrunning hplacings hd hstep hwaits
      exact ⟨hs', hp', hwaits.1⟩
  obtain ⟨hs, hplacings, hrunning⟩ := hstopping
  have hu := hs.awaited.resolve_left (by simp [ho])
  have hsendings : g.desk.sendings = [] := by
    rcases hs.errand with he | ⟨deadline, he⟩ | ⟨_, hnone⟩
    · rw [ho] at he
      cases he
    · rw [ho] at he
      cases he
    · exact hnone
  exact ⟨hu, hrunning, hsendings, hplacings⟩

theorem lasting_tracked (b : Book) : Book.Lasting fun id _ => ∃ p, b.find? id = some p where
  missed h _ := h
  stalled h _ := h
  sighted h _ := h
  lapse _ _ h _ := h
  fill _ _ _ h _ _ := h

/-- A desk at rest takes no new orders. -/
theorem Resting.tracked (h : Resting f) (hrun : Run (opening s pairs now nonce) notes f)
    (hstep : Step f more g) {id : String} {o : Order} (ho : g.desk.book.find? id = some o) :
    ∃ p, f.desk.book.find? id = some p := by
  have hs := hrun.sound (sound_opening (fun _ => True) s pairs now nonce)
  have hkept : Kept (fun id _ => ∃ p, f.desk.book.find? id = some p) f more := {
    toLasting := lasting_tracked f.desk.book
    tracked := by
      intro i o hm
      rw [h.placings] at hm
      cases hm
    reported := by
      intro s o now hm
      rw [h.sendings] at hm
      cases hm
    settled := fun _ _ _ _ hp _ => hp }
  have hall := (hstep.writes hs.ledger.undelayed).everywhere hkept hs.index fun id o hf => ⟨o, hf⟩
  exact hall id o ho

/-- Once a stop has come to its end, and nobody was on his way when it began, the desk is at rest until it is
started again: nothing happens at it by itself, no id is handed out and no submission sent, and no order is
new. Orders change only by the polls of others and by purges. -/
theorem stop_is_final (h : Run (opening s pairs now nonce) notes f) (hr : f.desk.running = true)
    (hp : f.placings = []) (hw : Guarded Waits f.halted more g) (ho : g.desk.errand = .over)
    (hl : Guarded Paused g later k) :
    Resting k ∧ (∀ a, k.desk.poll a = k.desk) ∧ later = [] ∧ k.desk.submitted = g.desk.submitted ∧
      ∀ id o, k.desk.book.find? id = some o → ∃ p, g.desk.book.find? id = some p := by
  have hrun : Run (opening s pairs now nonce) (notes ++ [] ++ more) g :=
    (h.snoc (.stop hr)).trans hw.run
  have hrest : Resting k ∧ later = [] ∧ k.desk.business = g.desk.business ∧
      ∀ id o, k.desk.book.find? id = some o → ∃ p, g.desk.book.find? id = some p := by
    induction hl with
    | refl => exact ⟨resting_of_over h hr hp hw ho, rfl, rfl, fun id o hf => ⟨o, hf⟩⟩
    | snoc hearlier hstep hpaused ih =>
      obtain ⟨hresting, rfl, hb, hbook⟩ := ih
      have hrun' := hrun.trans hearlier.run
      obtain ⟨hresting', rfl, hb'⟩ := hresting.step (delays_of_run hrun') hstep hpaused
      refine ⟨hresting', rfl, hb'.trans hb, fun id o hf => ?_⟩
      obtain ⟨p, hp⟩ := hresting.tracked hrun' hstep hf
      exact hbook id p hp
  obtain ⟨hresting, hlater, hb, hbook⟩ := hrest
  have hd := delays_of_run (hrun.trans hl.run)
  exact ⟨hresting, hresting.poll_eq hresting.sendings hd, hlater, congrArg Business.submitted hb,
    hbook⟩

/-- A caller who was admitted before the stop looks at nothing but the book on his way. His order is tracked
and sent after the stop has come to its end. -/
theorem admitted_order_outlives_stop :
    let s : Settings := .named "c" "n" "x" "w"
    let i : Instruction := .swap .buy ⟨"A", "B"⟩ .one .one
    ∃ notes f more g later k, Run (opening s [] .epoch "") notes f ∧ f.desk.running = true ∧
      Guarded Waits f.halted more g ∧ g.desk.errand = .over ∧ g.desk.submitted = [] ∧
      g.desk.book.find? "buy-A-B-0" = none ∧ Guarded Paused g later k ∧
      k.desk.submitted = [i.request s] ∧ (k.desk.book.find? "buy-A-B-0").isSome = true := by
  intro s i
  let terms : Terms := ⟨.trade, .buy, ⟨"A", "B"⟩, .one, .one⟩
  let d := (Desk.opening s [] .epoch "").begin
  let ended := ((d.halt.poll .loop).poll .ticker).pollErrand
  have hstart : Run (opening s [] .epoch "") [] ⟨d, [], []⟩ := .single (.start rfl)
  have htaken : Run (opening s [] .epoch "") _ ⟨d, [] ++ [.admitted i terms], []⟩ :=
    hstart.snoc (.takeOn rfl)
  have hended : Guarded Waits ⟨d.halt, [.admitted i terms], []⟩ _ ⟨ended, [.admitted i terms], []⟩ :=
    (((Guarded.refl _).snoc (.turn .loop) ⟨rfl, Or.inl rfl⟩).snoc (.turn .ticker)
      ⟨rfl, Or.inl rfl⟩).snoc .errand ⟨rfl, Or.inr rfl⟩
  have hnamed : Guarded Paused ⟨ended, [.admitted i terms], []⟩ _ _ :=
    .snoc (.refl ⟨ended, [] ++ [.admitted i terms], []⟩) (.name i terms) (by exact rfl)
  have htracked := hnamed.snoc (.track i _ rfl) (by exact rfl)
  have hsent := (htracked.snoc (.submit i _ _) (by exact rfl)).snoc (.turn (.sending 0))
    (by unfold Paused; decide +kernel)
  exact ⟨_, _, _, _, _, _, htaken, rfl, hended, rfl, rfl, by decide +kernel, hsent, by decide +kernel,
    by decide +kernel⟩

end Floor
end SwapDesk
