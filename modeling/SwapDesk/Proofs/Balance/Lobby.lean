import SwapDesk.Proofs.Balance.Visits

/-! Two parties visit the reconciler of a desk, one at a time, and may break off at any point. Whatever
else the desk does leaves the reconciler alone. -/
namespace SwapDesk

/-- A desk, and the visits to its reconciler that are under way. -/
structure Lobby where
  desk : Desk
  visits : Party → Option Visit

namespace Lobby

def opening (s : Settings) (pairs : List Pair) (now : Instant) (nonce : String) : Lobby :=
  ⟨.opening s pairs now nonce, fun _ => none⟩

/-- What has become of the desk and of one party's visit. -/
def place (c : Lobby) (who : Party) (d : Desk) (v : Option Visit) : Lobby :=
  ⟨d, fun p => if p = who then v else c.visits p⟩

/-- One step, and what is noted at it. -/
inductive Step : Lobby → List Mark → Lobby → Prop
  | come {c : Lobby} (who : Party) (purpose : Purpose) (h : c.visits who = none) :
      Step c [] (c.place who c.desk (some (.start purpose)))
  | turn {c : Lobby} {who : Party} {v : Visit} (h : c.visits who = some v) (ho : v.isOver = false) :
      Step c (c.desk.visitMarks who v)
        (c.place who (c.desk.pollVisit who v).1 (some (c.desk.pollVisit who v).2))
  /-- The party goes, whether its work is over or not. -/
  | go {c : Lobby} {who : Party} {v : Visit} (h : c.visits who = some v) :
      Step c [] (c.place who (c.desk.dropVisit who v) none)
  | aside {c : Lobby} {d : Desk} (h : Aside c.desk d) : Step c [] { c with desk := d }

/-- Steps one after the other, and all that is noted at them. -/
inductive Run : Lobby → List Mark → Lobby → Prop
  | refl (c : Lobby) : Run c [] c
  | snoc {c e f : Lobby} {marks more : List Mark} (h : Run c marks e) (hstep : Step e more f) :
      Run c (marks ++ more) f

variable {s : Settings} {pairs : List Pair} {now : Instant} {nonce : String} {marks more : List Mark}
  {c e f : Lobby} {who p : Party} {v : Visit} {d : Desk} {l : Lock}

theorem Run.trans (h : Run c marks e) (h' : Run e more f) : Run c (marks ++ more) f := by
  induction h' with
  | refl => exact (List.append_nil marks).symm ▸ h
  | snoc _ hstep ih =>
    rw [← List.append_assoc]
    exact .snoc ih hstep

/-! ### One at a time -/

theorem holder_request (h : l.holder = some p) : (l.request who).holder = some p := by
  unfold Lock.request
  rw [if_neg (by simp [h])]
  split
  · exact h
  · exact h

theorem holder_leave (h : l.holder = some p) (hne : p ≠ who) : (l.leave who).holder = some p := by
  unfold Lock.leave
  rw [if_neg (by simpa [h] using hne)]
  exact h

/-- A party that is not in turn only stands in line. -/
theorem turn_of_held (hl : d.lock.holder = some p) (hne : p ≠ who) (hv : Stands s marks d who v)
    (ho : v.isOver = false) :
    d.visitMarks who v = [] ∧ (d.pollVisit who v).1.lock.holder = some p := by
  have hother : some p ≠ some who := fun he => hne (Option.some.inj he)
  cases hv with
  | waiting =>
    have hheld : (d.lock.request who).holder = some p := holder_request hl
    have hnot : (d.lock.request who).holder ≠ some who := hheld ▸ hother
    simp only [Desk.visitMarks, Desk.pollVisit, if_neg hnot]
    exact ⟨trivial, hheld⟩
  | asked hl' _ _ => exact absurd (hl.symm.trans hl') hother
  | fetching hl' _ => exact absurd (hl.symm.trans hl') hother
  | ended => cases ho

theorem holder_dropVisit (hl : d.lock.holder = some p) (hne : p ≠ who) :
    (d.dropVisit who v).lock.holder = some p := by
  unfold Desk.dropVisit
  split
  · exact hl
  · exact holder_leave hl hne

/-- The notes tell the reconciler, and where each visit stands. -/
structure Sound (s : Settings) (pairs : List Pair) (marks : List Mark) (c : Lobby) : Prop where
  told : Told s pairs marks c.desk
  stands : ∀ p v, c.visits p = some v → Stands s marks c.desk p v

theorem sound_opening : Sound s pairs [] (opening s pairs now nonce) where
  told := {
    reconciler := by
      simp only [opening, Desk.opening, Reconciler.ofSettings, reconcilerAfter, lastReply?, nativeAfter,
        List.filterMap_nil, List.getLast?_nil, Option.map_none, List.findSome?_nil]
      cases s.native <;> rfl
    asked := rfl
    past := by rintro last ⟨⟩
    due := by
      intro before m after he
      simp at he }
  stands := by rintro p v ⟨⟩

/-- The turn of one party leaves the other where it stood. -/
theorem Sound.stands_turn (h : Sound s pairs marks c) (hv : c.visits who = some v)
    (ho : v.isOver = false) {u : Visit} (hu : c.visits p = some u) (hne : p ≠ who) :
    Stands s (marks ++ c.desk.visitMarks who v) (c.desk.pollVisit who v).1 p u := by
  have hheld := fun hl : c.desk.lock.holder = some p =>
    turn_of_held hl hne (h.stands who v hv) ho
  cases h.stands p u hu with
  | waiting => exact .waiting
  | asked hl hw hn =>
    obtain ⟨hmarks, hlock⟩ := hheld hl
    rw [hmarks, List.append_nil]
    exact .asked hlock hw hn
  | fetching hl hw =>
    obtain ⟨hmarks, hlock⟩ := hheld hl
    rw [hmarks, List.append_nil]
    exact .fetching hlock hw
  | ended => exact .ended

theorem visits_place_self (c : Lobby) (who : Party) (d : Desk) (v : Option Visit) :
    (c.place who d v).visits who = v := if_pos rfl

theorem visits_place {v : Option Visit} {u : Visit} (h : (c.place who d v).visits p = some u) :
    p = who ∧ v = some u ∨ p ≠ who ∧ c.visits p = some u := by
  by_cases hp : p = who
  · exact Or.inl ⟨hp, (if_pos hp).symm.trans h⟩
  · exact Or.inr ⟨hp, (if_neg hp).symm.trans h⟩

theorem Sound.step (h : Sound s pairs marks c) (hstep : Step c more e) :
    Sound s pairs (marks ++ more) e := by
  cases hstep with
  | come who purpose hnone =>
    rw [List.append_nil]
    refine ⟨h.told, fun p v hv => ?_⟩
    rcases visits_place hv with ⟨_, he⟩ | ⟨_, hv⟩
    · cases he
      exact .waiting
    · exact h.stands p v hv
  | @turn who v hv ho =>
    have hserves := serves_pollVisit h.told (h.stands who v hv) ho
    refine ⟨hserves.told, fun p u hu => ?_⟩
    rcases visits_place hu with ⟨rfl, he⟩ | ⟨hne, hu⟩
    · cases he
      exact hserves.stands
    · exact h.stands_turn hv ho hu hne
  | @go who v hv =>
    rw [List.append_nil]
    have hdesk : Told s pairs marks (c.desk.dropVisit who v) := by
      unfold Desk.dropVisit
      split
      · exact h.told
      · exact h.told.of_eq rfl rfl (Nat.le_refl _)
    refine ⟨hdesk, fun p u hu => ?_⟩
    rcases visits_place hu with ⟨_, he⟩ | ⟨hne, hu⟩
    · cases he
    · exact (h.stands p u hu).of_held fun hl => holder_dropVisit hl hne
  | aside ha =>
    rw [List.append_nil]
    refine ⟨h.told.of_eq ha.reconciler ha.asked ha.clock, fun p u hu => ?_⟩
    exact (h.stands p u hu).of_held fun hl => ha.lock ▸ hl

theorem Sound.run (h : Sound s pairs marks c) (hrun : Run c more e) :
    Sound s pairs (marks ++ more) e := by
  induction hrun with
  | refl => exact (List.append_nil marks).symm ▸ h
  | snoc _ hstep ih =>
    rw [← List.append_assoc]
    exact ih.step hstep

/-! ### The balances -/

theorem find?_ofReply {reply : BalancesReply} {token : String} {x : Balance} :
    (BalanceMap.ofReply reply).find? token = some x ↔
      ∃ amount, reply.balances.find? token = some (.amount amount) ∧ amount.isNegative = false ∧
        x = ⟨amount, amount⟩ := by
  rw [BalanceMap.ofReply, Dict.find?_map, Dict.find?_filter]
  cases reply.balances.find? token with
  | none => simp
  | some entry =>
    cases entry with
    | invalid j => simp [Option.filter, BalanceEntry.usable?]
    | amount d =>
      cases hd : d.isNegative with
      | true => simp [Option.filter, BalanceEntry.usable?, hd]
      | false => simpa [Option.filter, BalanceEntry.usable?, hd] using eq_comm

/-- Nothing is asked or told of the chain's own currency once it is known. -/
theorem native_settled {native : String} (hdue : AllDue s pairs (marks ++ more))
    (hn : nativeAfter s marks = some native) :
    (∀ q, .sent (.network q) ∉ more) ∧ ∀ told, .learned told ∉ more := by
  have hknown : ∀ before after m, more = before ++ m :: after →
      Due s pairs (marks ++ before) m ∧ nativeAfter s (marks ++ before) = some native := by
    rintro before after m rfl
    exact ⟨hdue (marks ++ before) m after (List.append_assoc ..).symm, nativeAfter_append hn⟩
  constructor
  · intro q hq
    obtain ⟨before, after, he⟩ := List.append_of_mem hq
    obtain ⟨hm, hsome⟩ := hknown before after _ he
    cases hm with
    | network _ hnone =>
      rw [hnone] at hsome
      cases hsome
  · intro told ht
    obtain ⟨before, after, he⟩ := List.append_of_mem ht
    obtain ⟨hm, hsome⟩ := hknown before after _ he
    cases hm with
    | learned _ hnone =>
      rw [hnone] at hsome
      cases hsome

/-- However two parties work with the reconciler of a new desk, its balances are exactly those of the last
successful reply that are not negative, and none before the first. All that is noted was due: a pass is skipped
if it is not forced and less than the interval is over since the last success, and begins if not; the
chain's own currency is asked for and told only while it is unknown, and each request for balances comes
when it is known and covers it. A turn that ends a visit has its result noted last; and as long as no
pass is applied, the balances and the time of the last success stay. Once the currency is known, it stays,
and nobody asks for it or is told another one. -/
theorem balances_follow_replies (h : Run (opening s pairs now nonce) marks c) :
    let r := c.desk.reconciler
    (r.balances.isSome = (lastReply? marks).isSome ∧
      ∀ token x, r.current.find? token = some x ↔ ∃ last ∈ lastReply? marks, ∃ amount,
        last.2.balances.find? token = some (.amount amount) ∧ amount.isNegative = false ∧
        x = ⟨amount, amount⟩) ∧
    r.lastSync = (lastReply? marks).map (·.1) ∧
    r.native = nativeAfter s marks ∧
    (c.desk.asked.map (·.request)).filter Request.isReconciling = marks.filterMap Mark.sent? ∧
    AllDue s pairs marks ∧
    (∀ who v result, c.visits who = some v → v.isOver = false →
      (c.desk.pollVisit who v).2.stage = .ended result →
      ∃ m, (c.desk.visitMarks who v).getLast? = some m ∧ m.Tells who v.purpose result) ∧
    ∀ more e, Run c more e →
      ((∀ m ∈ more, m.applied? = none) →
        e.desk.reconciler.balances = r.balances ∧ e.desk.reconciler.lastSync = r.lastSync) ∧
      ∀ native, r.native = some native → e.desk.reconciler.native = some native ∧
        (∀ q, .sent (.network q) ∉ more) ∧ ∀ told, .learned told ∉ more := by
  intro r
  have hs : Sound s pairs marks c := sound_opening.run h
  have hr : r = reconcilerAfter s pairs marks := hs.told.reconciler
  have hnative : r.native = nativeAfter s marks := hs.told.native_eq
  refine ⟨⟨?_, ?_⟩, ?_, hnative, hs.told.asked, hs.told.due, ?_, ?_⟩
  · rw [hr, reconcilerAfter, Option.isSome_map]
  · intro token x
    rw [hr, Reconciler.current, reconcilerAfter]
    cases lastReply? marks with
    | none => simp
    | some last => simpa using find?_ofReply
  · rw [hr, reconcilerAfter]
  · intro who v result hv ho hresult
    exact (serves_pollVisit hs.told (hs.stands who v hv) ho).ends result hresult
  · intro more e hmore
    have hs' := hs.run hmore
    refine ⟨?_, ?_⟩
    · intro hquiet
      have hsame : lastReply? (marks ++ more) = lastReply? marks := lastReply?_append_quiet hquiet
      rw [hs'.told.reconciler, hr, reconcilerAfter, reconcilerAfter, hsame]
      exact ⟨rfl, rfl⟩
    · intro native hn
      rw [hnative] at hn
      rw [hs'.told.native_eq]
      exact ⟨nativeAfter_append hn, native_settled hs'.told.due hn⟩

/-- A new desk whose gateway tells the chain's own currency and two balances, one of them negative. -/
def answeredDesk : Desk :=
  let balances : Json := .record [("ADA", .text "1"), ("B", .text "-1")]
  let status : Json :=
    .record [("chain", .text "c"), ("network", .text "n"), ("nativeCurrency", .text "ADA")]
  { Desk.opening (.named "c" "n" "x" "w") [] .epoch "" with
    script := (Script.empty.setCall .network [⟨0, .ok status⟩]).setCall .balances
      [⟨0, .ok (.record [("balances", balances)])⟩] }

/-- A forced pass brings the balances. -/
theorem forced_pass_brings_balances :
    ∃ marks c, Run (opening (.named "c" "n" "x" "w") [] .epoch "") marks c ∧
      c.desk.reconciler.native = some "ADA" ∧ c.desk.reconciler.lastSync = some 0 ∧
      c.desk.reconciler.current.find? "ADA" = some ⟨.one, .one⟩ ∧
      c.desk.reconciler.current.find? "B" = none := by
  have hset : Run (opening (.named "c" "n" "x" "w") [] .epoch "") [] ⟨answeredDesk, fun _ => none⟩ :=
    .snoc (.refl _) (.aside ⟨rfl, rfl, Nat.le_refl _, rfl⟩)
  let visited := place ⟨answeredDesk, fun _ => none⟩ .loop answeredDesk (some (.start (.pass true)))
  have hcome : Run (opening (.named "c" "n" "x" "w") [] .epoch "") [] visited :=
    hset.snoc (.come .loop (.pass true) rfl)
  have hvisit : visited.visits .loop = some (.start (.pass true)) := rfl
  have hturn := hcome.snoc (.turn hvisit rfl)
  obtain ⟨_, hlast, hnative, _⟩ := balances_follow_replies hturn
  refine ⟨_, _, hturn, hnative.trans ?_, hlast.trans ?_, ?_, ?_⟩
  · decide +kernel
  · decide +kernel
  · decide +kernel
  · decide +kernel

end Lobby
end SwapDesk
