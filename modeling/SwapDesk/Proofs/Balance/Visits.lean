import SwapDesk.Desk.Visit
import SwapDesk.Proofs.Balance.Marks

/-! What is noted in each turn of a visit, and that it is due. -/
namespace SwapDesk

namespace Desk

variable (d : Desk) (who : Party) (v : Visit)

def fetchMarks (a : Arrival BalancesReply) : List Mark :=
  if d.isPast a.alarm then
    match a.reply with
    | .error f => [.ended who (some (.failed f))]
    | .ok reply => [.applied who d.clock reply]
  else []

def withNativeMarks : List Mark :=
  match v.purpose with
  | .pass _ =>
    let asking := d.ask (.balances d.reconciler.balancesRequest)
    .sent (.balances d.reconciler.balancesRequest) :: asking.1.fetchMarks who asking.2
  | _ => [.ended who none]

def hearMarks (a : Arrival NetworkReply) : List Mark :=
  if d.isPast a.alarm then
    match a.reply with
    | .error _ => [.ended who (some .deferred)]
    | .ok reply =>
      let known : Desk := { d with reconciler := d.reconciler.learn reply.nativeCurrency }
      .learned reply.nativeCurrency :: known.withNativeMarks who v
  else []

def findNativeMarks : List Mark :=
  match d.reconciler.native with
  | some _ => d.withNativeMarks who v
  | none =>
    let asking := d.ask (.network d.reconciler.networkRequest)
    .sent (.network d.reconciler.networkRequest) :: asking.1.hearMarks who v asking.2

def enterMarks : List Mark :=
  match v.purpose with
  | .look => [.begun who .look d.clock, .ended who none]
  | .native => .begun who .native d.clock :: d.findNativeMarks who v
  | .pass force =>
    if !force && !d.reconciler.isDue d.clock then [.skipped who d.clock]
    else .begun who (.pass force) d.clock :: d.findNativeMarks who v

/-- What there is to note in a turn of a visit. -/
def visitMarks : List Mark :=
  match v.stage with
  | .waiting =>
    let d : Desk := { d with lock := d.lock.request who }
    if d.lock.holder = some who then d.enterMarks who v else []
  | .asked a => d.hearMarks who v a
  | .fetching a => d.fetchMarks who a
  | .ended _ => []

end Desk

variable {s : Settings} {pairs : List Pair} {marks : List Mark} {m : Mark} {native : String}
  {who : Party} {force : Bool} {v : Visit} {purpose : Purpose} {d d' : Desk} {r : Request}
  {result : Option Reconciled}

/-- The notes tell the reconciler and what it has asked, and each was due. -/
structure Told (s : Settings) (pairs : List Pair) (marks : List Mark) (d : Desk) : Prop where
  reconciler : d.reconciler = reconcilerAfter s pairs marks
  asked : (d.asked.map (·.request)).filter Request.isReconciling = marks.filterMap Mark.sent?
  past : ∀ last ∈ lastReply? marks, last.1 ≤ d.clock
  due : AllDue s pairs marks

/-- Where a visit stands by the notes. One that waits for a reply has the lock. -/
inductive Stands (s : Settings) (marks : List Mark) (d : Desk) (who : Party) : Visit → Prop
  | waiting {purpose : Purpose} : Stands s marks d who ⟨purpose, .waiting⟩
  | asked {purpose : Purpose} {a : Arrival NetworkReply} (hl : d.lock.holder = some who)
      (hw : Working marks who purpose) (hn : nativeAfter s marks = none) :
      Stands s marks d who ⟨purpose, .asked a⟩
  | fetching {force : Bool} {a : Arrival BalancesReply} (hl : d.lock.holder = some who)
      (hw : Working marks who (.pass force)) : Stands s marks d who ⟨.pass force, .fetching a⟩
  | ended {purpose : Purpose} {result : Option Reconciled} : Stands s marks d who ⟨purpose, .ended result⟩

/-- A visit that waits for a reply stands where it stood as long as it keeps the lock. -/
theorem Stands.of_held (h : Stands s marks d who v)
    (hl : d.lock.holder = some who → d'.lock.holder = some who) : Stands s marks d' who v := by
  cases h with
  | waiting => exact .waiting
  | asked hheld hw hn => exact .asked (hl hheld) hw hn
  | fetching hheld hw => exact .fetching (hl hheld) hw
  | ended => exact .ended

/-- A turn of a visit that adds these notes. If the work is over, the last of them tells its result. -/
structure Serves (s : Settings) (pairs : List Pair) (marks more : List Mark) (who : Party)
    (purpose : Purpose) (after : Desk × Visit) : Prop where
  told : Told s pairs (marks ++ more) after.1
  stands : Stands s (marks ++ more) after.1 who after.2
  ends : ∀ result, after.2.stage = .ended result →
    ∃ m, more.getLast? = some m ∧ m.Tells who purpose result

theorem Serves.cons {more : List Mark} {after : Desk × Visit}
    (h : Serves s pairs (marks ++ [m]) more who purpose after) :
    Serves s pairs marks (m :: more) who purpose after where
  told := List.append_cons .. ▸ h.told
  stands := List.append_cons .. ▸ h.stands
  ends := by
    intro result hr
    obtain ⟨k, hk, htells⟩ := h.ends result hr
    refine ⟨k, ?_, htells⟩
    rw [List.getLast?_cons, hk]
    rfl

/-! ### The notes and the desk -/

theorem Told.of_eq (h : Told s pairs marks d) (hr : d'.reconciler = d.reconciler)
    (ha : (d'.asked.map (·.request)).filter Request.isReconciling =
      (d.asked.map (·.request)).filter Request.isReconciling) (hc : d.clock ≤ d'.clock) :
    Told s pairs marks d' where
  reconciler := hr.trans h.reconciler
  asked := ha.trans h.asked
  past := fun last hl => Nat.le_trans (h.past last hl) hc
  due := h.due

theorem Told.native_eq (h : Told s pairs marks d) : d.reconciler.native = nativeAfter s marks := by
  rw [h.reconciler, reconcilerAfter]

theorem Told.isDue_eq_false (h : Told s pairs marks d) :
    d.reconciler.isDue d.clock = false ↔ Recent s marks d.clock := by
  unfold Reconciler.isDue Recent
  rw [h.reconciler, reconcilerAfter]
  dsimp only [Reconciler.ofSettings]
  cases hl : lastReply? marks with
  | none => simp
  | some last =>
    have hpast := h.past last hl
    simp only [Option.map_some, Option.mem_def, Option.some.injEq, exists_eq_left']
    exact decide_eq_false_iff_not.trans (by omega)

/-- A note that does not change the reconciler and is no request. -/
theorem Told.note (h : Told s pairs marks d) (hm : Due s pairs marks m) (ha : m.applied? = none)
    (hl : m.learned? = none) (hs : m.sent? = none) : Told s pairs (marks ++ [m]) d where
  reconciler := by rw [reconcilerAfter_quiet ha hl, h.reconciler]
  asked := by rw [List.filterMap_append, List.filterMap_cons_none hs, List.filterMap_nil,
    List.append_nil, h.asked]
  past := by
    rw [lastReply?_quiet ha]
    exact h.past
  due := h.due.snoc hm

theorem Told.ask (h : Told s pairs marks d) (hm : Due s pairs marks (.sent r))
    (hr : r.isReconciling = true) : Told s pairs (marks ++ [.sent r]) (d.ask r).1 where
  reconciler := by
    rw [reconcilerAfter_quiet rfl rfl]
    exact h.reconciler
  asked := by
    have hasked : ((d.ask r).1.asked.map (·.request)).filter Request.isReconciling =
        (d.asked.map (·.request)).filter Request.isReconciling ++ [r] := by
      simp [Desk.ask, Desk.setAlarm, hr]
    rw [hasked, h.asked, List.filterMap_append]
    rfl
  past := by
    rw [lastReply?_quiet rfl]
    exact h.past
  due := h.due.snoc hm

theorem Told.learn (h : Told s pairs marks d) (hw : Working marks who purpose)
    (hn : nativeAfter s marks = none) :
    Told s pairs (marks ++ [.learned native]) { d with reconciler := d.reconciler.learn native } where
  reconciler := by rw [reconcilerAfter_learned hn, h.reconciler]
  asked := by
    rw [List.filterMap_append]
    exact h.asked.trans (List.append_nil _).symm
  past := by
    rw [lastReply?_quiet rfl]
    exact h.past
  due := h.due.snoc (.learned hw hn)

theorem Told.accept {reply : BalancesReply} (h : Told s pairs marks d)
    (hw : Working marks who (.pass force)) :
    Told s pairs (marks ++ [.applied who d.clock reply])
      { d with reconciler := (d.reconciler.accept d.clock reply).1 } where
  reconciler := by rw [reconcilerAfter_applied, h.reconciler]
  asked := by
    rw [List.filterMap_append]
    exact h.asked.trans (List.append_nil _).symm
  past := by
    rw [lastReply?_applied]
    rintro last hl
    cases hl
    exact Nat.le_refl d.clock
  due := h.due.snoc (.applied hw)

/-- The work is over with this note, and the lock is given up. -/
theorem Told.leave (h : Told s pairs (marks ++ [m]) d) (hm : m.Tells who v.purpose result) :
    Serves s pairs marks [m] who v.purpose (d.leave who v result) where
  told := h.of_eq rfl rfl (Nat.le_refl _)
  stands := .ended
  ends := by
    rintro _ ⟨⟩
    exact ⟨m, rfl, hm⟩

theorem Told.finish (h : Told s pairs marks d) (hw : Working marks who purpose)
    (hs : result ≠ some .skipped) (ha : ∀ diff, result ≠ some (.applied diff)) (v : Visit) :
    Serves s pairs marks [.ended who result] who v.purpose (d.leave who v result) :=
  (h.note (.ended hw hs ha) rfl rfl rfl).leave ⟨rfl, rfl⟩

/-! ### Each turn -/

theorem mem_keys_ofList {α : Type} (l : List (String × α)) (t : String) :
    t ∈ (Dict.ofList l).keys ↔ t ∈ l.map Prod.fst := by
  have hfold : ∀ d : Dict α, (l.foldl (fun d e => d.insert e.1 e.2) d).contains t = true ↔
      d.contains t = true ∨ t ∈ l.map Prod.fst := by
    induction l with
    | nil => simp
    | cons e rest ih =>
      intro d
      rw [List.foldl_cons, ih]
      by_cases he : t = e.1
      · simp [Dict.contains, he]
      · simp [Dict.contains, Dict.find?_insert, he]
  rw [Dict.mem_keys_iff, Dict.ofList, hfold]
  simp [Dict.contains]

theorem Told.covers (h : Told s pairs marks d) (hn : nativeAfter s marks = some native) :
    d.reconciler.balancesRequest.Covers s pairs native := by
  have hinterest : d.reconciler.interest =
      ((Reconciler.ofSettings s pairs).tokens.insert native ()).keys := by
    rw [Reconciler.interest, h.native_eq, hn, h.reconciler]
    rfl
  refine ⟨?_, ?_, ?_, ?_, ?_⟩
  · rw [h.reconciler]
    rfl
  · rw [h.reconciler]
    rfl
  · rw [h.reconciler]
    rfl
  · change d.reconciler.interest.Pairwise (· < ·)
    rw [hinterest]
    exact Dict.sorted_keys _
  · intro t
    change t ∈ d.reconciler.interest ↔ _
    rw [hinterest, Dict.mem_keys_iff, Dict.contains, Dict.find?_insert]
    by_cases ht : t = native
    · simp [ht]
    · rw [if_neg ht, ← Dict.contains, ← Dict.mem_keys_iff, Reconciler.ofSettings, mem_keys_ofList]
      simp [ht]

theorem serves_fetch (h : Told s pairs marks d) (hl : d.lock.holder = some who)
    (hw : Working marks who (.pass force)) (hp : v.purpose = .pass force) (a : Arrival BalancesReply) :
    Serves s pairs marks (d.fetchMarks who a) who v.purpose (d.fetch who v a) := by
  unfold Desk.fetchMarks Desk.fetch
  split
  · cases a.reply with
    | error f => exact h.finish hw (by simp) (by simp) v
    | ok reply => exact (h.accept hw).leave ⟨rfl, ⟨force, hp⟩, _, rfl⟩
  · refine ⟨(List.append_nil marks).symm ▸ h, ?_, by simp⟩
    obtain ⟨purpose, stage⟩ := v
    cases hp
    exact .fetching hl ((List.append_nil marks).symm ▸ hw)

/-- The currency is known, and so the balances can be asked for. -/
theorem serves_withNative (h : Told s pairs marks d) (hl : d.lock.holder = some who)
    (hw : Working marks who v.purpose) (hn : nativeAfter s marks = some native) :
    Serves s pairs marks (d.withNativeMarks who v) who v.purpose (d.withNative who v) := by
  obtain ⟨purpose, stage⟩ := v
  unfold Desk.withNativeMarks Desk.withNative
  cases purpose with
  | pass force =>
    have hask := h.ask (.balances hw hn (h.covers hn)) rfl
    exact (serves_fetch hask hl (hw.snoc rfl) rfl _).cons
  | native | look => exact h.finish hw (by simp) (by simp) _

theorem serves_hear (h : Told s pairs marks d) (hl : d.lock.holder = some who)
    (hw : Working marks who v.purpose) (hn : nativeAfter s marks = none) (a : Arrival NetworkReply) :
    Serves s pairs marks (d.hearMarks who v a) who v.purpose (d.hear who v a) := by
  unfold Desk.hearMarks Desk.hear
  split
  · cases a.reply with
    | error f => exact h.finish hw (by simp) (by simp) v
    | ok reply =>
      have hlearn : Told s pairs (marks ++ [.learned reply.nativeCurrency]) _ := h.learn hw hn
      exact (serves_withNative hlearn hl (hw.snoc rfl) (nativeAfter_learned hn)).cons
  · rw [← List.append_nil marks] at h hw hn
    exact ⟨h, .asked hl hw hn, by simp⟩

theorem serves_findNative (h : Told s pairs marks d) (hl : d.lock.holder = some who)
    (hw : Working marks who v.purpose) :
    Serves s pairs marks (d.findNativeMarks who v) who v.purpose (d.findNative who v) := by
  unfold Desk.findNativeMarks Desk.findNative
  cases hn : d.reconciler.native with
  | some native => exact serves_withNative h hl hw (h.native_eq ▸ hn)
  | none =>
    have hnone : nativeAfter s marks = none := h.native_eq ▸ hn
    have hrequest : d.reconciler.networkRequest = ⟨s.chain, s.network⟩ := by
      rw [h.reconciler]
      rfl
    have hdue : Due s pairs marks (.sent (.network d.reconciler.networkRequest)) :=
      hrequest ▸ .network hw hnone
    have hstill : nativeAfter s (marks ++ [.sent (.network d.reconciler.networkRequest)]) = none :=
      (nativeAfter_quiet rfl).trans hnone
    exact (serves_hear (h.ask hdue rfl) hl (hw.snoc rfl) hstill _).cons

theorem serves_enter (h : Told s pairs marks d) (hl : d.lock.holder = some who) :
    Serves s pairs marks (d.enterMarks who v) who v.purpose (d.enter who v) := by
  obtain ⟨purpose, stage⟩ := v
  have hbegin : (purpose = .pass false → ¬Recent s marks d.clock) →
      Serves s pairs marks (.begun who purpose d.clock :: d.findNativeMarks who ⟨purpose, stage⟩) who
        purpose (d.findNative who ⟨purpose, stage⟩) := by
    intro hfresh
    have hbegun : Told s pairs (marks ++ [.begun who purpose d.clock]) d :=
      h.note (.begun hfresh) rfl rfl rfl
    exact (serves_findNative (v := ⟨purpose, stage⟩) hbegun hl working_begun).cons
  unfold Desk.enterMarks Desk.enter
  cases purpose with
  | look =>
    have hbegun : Told s pairs (marks ++ [.begun who .look d.clock]) d :=
      h.note (.begun (by simp)) rfl rfl rfl
    exact (hbegun.finish working_begun (by simp) (by simp) _).cons
  | native => exact hbegin (by simp)
  | pass force =>
    cases force with
    | true => exact hbegin (by simp)
    | false =>
      cases hd : d.reconciler.isDue d.clock with
      | true =>
        refine hbegin fun _ hr => ?_
        rw [h.isDue_eq_false.mpr hr] at hd
        cases hd
      | false =>
        have hskipped : Told s pairs (marks ++ [.skipped who d.clock]) d :=
          h.note (.skipped (h.isDue_eq_false.mp hd)) rfl rfl rfl
        exact hskipped.leave ⟨rfl, rfl, rfl⟩

/-- What a turn notes is due. -/
theorem serves_pollVisit (h : Told s pairs marks d) (hv : Stands s marks d who v)
    (ho : v.isOver = false) :
    Serves s pairs marks (d.visitMarks who v) who v.purpose (d.pollVisit who v) := by
  cases hv with
  | @waiting purpose =>
    have hline : Told s pairs marks { d with lock := d.lock.request who } :=
      h.of_eq rfl rfl (Nat.le_refl _)
    simp only [Desk.visitMarks, Desk.pollVisit]
    split
    · rename_i hl
      exact serves_enter hline hl
    · exact ⟨(List.append_nil marks).symm ▸ hline, .waiting, by simp⟩
  | asked hl hw hn => exact serves_hear h hl hw hn _
  | fetching hl hw => exact serves_fetch h hl hw rfl _
  | ended => cases ho

end SwapDesk
