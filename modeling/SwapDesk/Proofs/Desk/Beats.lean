import SwapDesk.Proofs.Desk.Apart

/-! What is noted about the scheduling loop: the signals that it is given, and what it does at each of its
turns. -/
namespace SwapDesk

/-- What is noted about the loop. -/
inductive Beat
  | woken
  /-- The loop was told to shut down, or nobody is left who could tell it. -/
  | told
  /-- It was told to go on after all. -/
  | recalled
  /-- The reconciliation before the first cycle is over. -/
  | opened (purpose : Purpose) (result : Option Reconciled)
  /-- A cycle began: a reconciliation for this purpose, and a polling pass beside it. -/
  | began (purpose : Purpose)
  | reconciled (result : Option Reconciled)
  | polled (result : Except Overflow PollReport)

namespace Beat

def isBegan : Beat → Bool
  | began _ => true
  | _ => false

def isReconciled : Beat → Bool
  | reconciled _ => true
  | _ => false

def isPolled : Beat → Bool
  | polled _ => true
  | _ => false

def isRecalled : Beat → Bool
  | recalled => true
  | _ => false

/-- Something about a cycle. -/
def isOfCycle (x : Beat) : Bool := x.isBegan || x.isReconciled || x.isPolled

end Beat

def Visit.result? (v : Visit) : Option (Option Reconciled) :=
  match v.stage with
  | .ended result => some result
  | _ => none

namespace Pass

def isFresh : Pass → Bool
  | fresh => true
  | _ => false

def result? : Pass → Option (Except Overflow PollReport)
  | ended result => some result
  | _ => none

end Pass

/-- A result that was not there before. -/
def newResult {α : Type} (before after : Option α) : List α :=
  if before.isSome then [] else after.toList

@[simp] theorem Visit.isSome_result? (v : Visit) : v.result?.isSome = v.isOver := by
  obtain ⟨purpose, stage⟩ := v
  cases stage <;> rfl

@[simp] theorem Pass.isSome_result? (p : Pass) : p.result?.isSome = p.isOver := by
  cases p <;> rfl

/-- Once there is a result, it stays. -/
theorem length_newResult {α : Type} {before after : Option α}
    (h : before.isSome = true → after.isSome = true) :
    (newResult before after).length + (!after.isSome).toNat = (!before.isSome).toNat := by
  cases before with
  | none => cases after <;> rfl
  | some x =>
    have hafter : after.isSome = true := h rfl
    simp [newResult, hafter]

/-- What there is to note when the loop goes on. -/
def Desk.beats (d : Desk) : List Beat :=
  if d.shutdown.isGiven then []
  else match d.loop with
    | some (.startup v) =>
      (newResult v.result? (d.pollVisit .loop v).2.result?).map (.opened v.purpose)
    | some (.cycle _ v p) =>
      let (d', v') := d.pollVisit .loop v
      (if p.isFresh then [.began v.purpose] else []) ++
        (newResult v.result? v'.result?).map .reconciled ++
        (newResult p.result? (d'.pollPass p).2.result?).map .polled
    | _ => []

namespace Desk

variable {d : Desk} {p : Pass} {who : Party} {v : Visit}

/-! ### The loop's visit and its pass -/

theorem purpose_fetch (d : Desk) (who : Party) (v : Visit) (a : Arrival BalancesReply) :
    (d.fetch who v a).2.purpose = v.purpose := by
  unfold fetch
  split
  · split <;> rfl
  · rfl

theorem purpose_withNative (d : Desk) (who : Party) (v : Visit) :
    (d.withNative who v).2.purpose = v.purpose := by
  unfold withNative
  split
  · exact purpose_fetch _ who v _
  · rfl

theorem purpose_hear (d : Desk) (who : Party) (v : Visit) (a : Arrival NetworkReply) :
    (d.hear who v a).2.purpose = v.purpose := by
  unfold hear
  split
  · split
    · rfl
    · exact purpose_withNative _ who v
  · rfl

theorem purpose_findNative (d : Desk) (who : Party) (v : Visit) :
    (d.findNative who v).2.purpose = v.purpose := by
  unfold findNative
  split
  · exact purpose_withNative d who v
  · exact purpose_hear _ who v _

theorem purpose_enter (d : Desk) (who : Party) (v : Visit) :
    (d.enter who v).2.purpose = v.purpose := by
  unfold enter
  split
  · rfl
  · exact purpose_findNative d who v
  · split
    · rfl
    · exact purpose_findNative d who v

theorem purpose_pollVisit (d : Desk) (who : Party) (v : Visit) :
    (d.pollVisit who v).2.purpose = v.purpose := by
  unfold pollVisit
  split
  · dsimp only
    split
    · exact purpose_enter _ who v
    · rfl
  · exact purpose_hear d who v _
  · exact purpose_fetch d who v _
  · rfl

theorem pollVisit_of_over (h : v.isOver = true) : d.pollVisit who v = (d, v) := by
  unfold Visit.isOver at h
  unfold pollVisit
  split at h
  · rename_i hstage
    rw [hstage]
  · cases h

theorem pollPass_of_over (h : p.isOver = true) : d.pollPass p = (d, p) := by
  cases p with
  | ended result => rfl
  | _ => cases h

theorem isFresh_of_hasAsked (h : p.hasAsked = true) : p.isFresh = false := by
  cases p with
  | fresh => cases h
  | _ => rfl

theorem isFresh_of_opens {missing : List String} {ready : List Inquiry}
    {work : List (Instant × Piece)} (h : Opens missing ready work p) : p.isFresh = false := by
  rcases h with ⟨deadline, rung, rfl, _⟩ | h
  · rfl
  · exact isFresh_of_hasAsked h.hasAsked

/-- A pass has begun once it had a turn. -/
theorem isFresh_pollPass (d : Desk) (p : Pass) : (d.pollPass p).2.isFresh = false := by
  cases p with
  | fresh =>
    simp only [pollPass, beginPass]
    split
    · rfl
    · obtain ⟨work, h⟩ := moves_awaitHashes d (inquiries d.book.active).1
        (inquiries d.book.active).2 (d.clock + d.settings.hashWait)
      exact isFresh_of_opens h.opens
  | awaiting ready missing deadline rung =>
    simp only [pollPass]
    split
    · obtain ⟨work, h⟩ := moves_awaitHashes d ready missing deadline.due
      exact isFresh_of_opens h.opens
    · split
      · obtain ⟨work, h⟩ := carries_chargeAndAsk d ready missing
        exact isFresh_of_hasAsked h.takes.hasAsked
      · rfl
  | querying queries report =>
    obtain ⟨work, h⟩ := carries_collect d report [] queries
    exact isFresh_of_hasAsked h.takes.hasAsked
  | ended result => rfl

end Desk

namespace Rounds

/-- This was noted, and after it nothing that calls it off. -/
def Since (m : Beat) (off : Beat → Bool) (beats : List Beat) : Prop :=
  ∃ before after, beats = before ++ m :: after ∧ ∀ x ∈ after, off x = false

/-- Every cycle that began is over, its reconciliation as well as its polling pass. -/
def Settled (beats : List Beat) : Prop :=
  beats.countP Beat.isReconciled = beats.countP Beat.isBegan ∧
    beats.countP Beat.isPolled = beats.countP Beat.isBegan

/-- The forced reconciliation before the first cycle is over. -/
def Opened (beats : List Beat) : Prop := ∃ result, .opened (.pass true) result ∈ beats

variable {d : Desk} {beats more before after : List Beat} {m : Beat} {off : Beat → Bool}
  {t : Tick} {v : Visit} {p : Pass} {purpose : Purpose}

/-! ### What was noted -/

/-- What was noted was noted earlier or later. -/
theorem split_append (h : beats ++ more = before ++ m :: after) :
    (∃ rest, before = beats ++ rest ∧ more = rest ++ m :: after) ∨
      ∃ rest, beats = before ++ m :: rest ∧ after = rest ++ more := by
  rcases List.append_eq_append_iff.mp h with ⟨rest, hbefore, hmore⟩ | ⟨rest, hbeats, hrest⟩
  · exact Or.inl ⟨rest, hbefore, hmore⟩
  · cases rest with
    | nil => exact Or.inl ⟨[], by simpa using hbeats.symm, hrest.symm⟩
    | cons x rest =>
      obtain ⟨rfl, rfl⟩ := List.cons.inj hrest
      exact Or.inr ⟨rest, hbeats, rfl⟩

theorem since_append (h : Since m off (beats ++ more)) :
    Since m off more ∨ Since m off beats ∧ ∀ x ∈ more, off x = false := by
  obtain ⟨before, after, he, hoff⟩ := h
  rcases split_append he with ⟨rest, _, hmore⟩ | ⟨rest, hbeats, rfl⟩
  · exact Or.inl ⟨rest, after, hmore, hoff⟩
  · refine Or.inr ⟨⟨before, rest, hbeats, fun x hx => ?_⟩, fun x hx => ?_⟩
    · exact hoff x (List.mem_append_left more hx)
    · exact hoff x (List.mem_append_right rest hx)

theorem since_snoc {x : Beat} (h : Since m off (beats ++ [x])) (hne : m ≠ x) :
    Since m off beats ∧ off x = false := by
  rcases since_append h with ⟨before, after, he, _⟩ | ⟨hs, hx⟩
  · have hm : m ∈ [x] := he ▸ List.mem_append_right before List.mem_cons_self
    exact (hne (List.mem_singleton.mp hm)).elim
  · exact ⟨hs, hx x List.mem_cons_self⟩

theorem not_since_of_notMem (h : m ∉ beats) : ¬Since m off beats := by
  rintro ⟨before, after, rfl, _⟩
  exact h (List.mem_append_right before List.mem_cons_self)

theorem countP_quiet (hq : ∀ x ∈ more, x.isOfCycle = false) :
    more.countP Beat.isBegan = 0 ∧ more.countP Beat.isReconciled = 0 ∧
      more.countP Beat.isPolled = 0 := by
  simp only [List.countP_eq_zero]
  refine ⟨fun x hx => ?_, fun x hx => ?_, fun x hx => ?_⟩
  all_goals
    have hquiet := hq x hx
    simp only [Beat.isOfCycle, Bool.or_eq_false_iff] at hquiet
    simp [hquiet]

theorem Opened.append (h : Opened beats) (more : List Beat) : Opened (beats ++ more) := by
  obtain ⟨result, hmem⟩ := h
  exact ⟨result, List.mem_append_left more hmem⟩

theorem settled_nil : Settled [] := ⟨rfl, rfl⟩

theorem Settled.append_quiet (h : Settled beats) (hq : ∀ x ∈ more, x.isOfCycle = false) :
    Settled (beats ++ more) := by
  obtain ⟨hbegan, hreconciled, hpolled⟩ := countP_quiet hq
  unfold Settled
  simp only [List.countP_append, hbegan, hreconciled, hpolled, Nat.add_zero]
  exact h

/-! ### The loop's turns -/

theorem countP_cycle (begins : Bool) (purpose : Purpose) (results : List (Option Reconciled))
    (reports : List (Except Overflow PollReport)) :
    let xs := (if begins then [.began purpose] else []) ++ results.map .reconciled ++
      reports.map .polled
    xs.countP Beat.isBegan = begins.toNat ∧ xs.countP Beat.isReconciled = results.length ∧
      xs.countP Beat.isPolled = reports.length := by
  cases begins <;>
    simp [List.countP_cons, List.countP_map, Function.comp_def, Beat.isBegan, Beat.isReconciled,
      Beat.isPolled]

theorem beats_cycle (hl : d.loop = some (.cycle t v p)) (hg : d.shutdown.isGiven = false) :
    d.beats = (if p.isFresh then [.began v.purpose] else []) ++
      (newResult v.result? (d.pollVisit .loop v).2.result?).map .reconciled ++
      (newResult p.result? ((d.pollVisit .loop v).1.pollPass p).2.result?).map .polled := by
  simp only [Desk.beats, hg, hl]
  rfl

/-- A cycle begins with the first turn of its pass, and nothing else comes first in that turn. -/
theorem began_split (h : d.beats = before ++ .began purpose :: after) :
    before = [] ∧ d.shutdown.isGiven = false ∧
      ∃ t v, d.loop = some (.cycle t v .fresh) ∧ v.purpose = purpose := by
  have hmem : .began purpose ∈ d.beats := h ▸ List.mem_append_right before List.mem_cons_self
  cases hg : d.shutdown.isGiven with
  | true => simp [Desk.beats, hg] at hmem
  | false =>
    cases hl : d.loop with
    | none => simp [Desk.beats, hg, hl] at hmem
    | some l =>
      cases l with
      | startup v => simp [Desk.beats, hg, hl] at hmem
      | idle t ear => simp [Desk.beats, hg, hl] at hmem
      | ended => simp [Desk.beats, hg, hl] at hmem
      | cycle t v p =>
        rw [beats_cycle hl hg] at h hmem
        cases p with
        | fresh =>
          cases before with
          | nil =>
            obtain ⟨hfirst, _⟩ := List.cons.inj h
            exact ⟨rfl, rfl, t, v, rfl, Beat.began.inj hfirst⟩
          | cons x before =>
            have hrest : (newResult v.result? (d.pollVisit .loop v).2.result?).map .reconciled ++
                (newResult Pass.fresh.result?
                  ((d.pollVisit .loop v).1.pollPass .fresh).2.result?).map .polled =
                before ++ Beat.began purpose :: after := (List.cons.inj h).2
            have hlater : Beat.began purpose ∈ before ++ .began purpose :: after :=
              List.mem_append_right before List.mem_cons_self
            rw [← hrest] at hlater
            simp at hlater
        | _ => simp [Pass.isFresh] at hmem

theorem signals_notMem_beats (d : Desk) : .woken ∉ d.beats ∧ .told ∉ d.beats := by
  unfold Desk.beats
  split
  · simp
  · split
    · simp
    · dsimp only
      split <;> simp
    · simp

theorem signals_pollStartup (d : Desk) (v : Visit) :
    (d.pollStartup v).permit = d.permit ∧ (d.pollStartup v).shutdown = d.shutdown := by
  have hdrop := (Desk.consults_dropVisit d .loop v).apart
  have hvisit := (Desk.consults_pollVisit d .loop v).apart
  unfold Desk.pollStartup
  split
  · exact ⟨hdrop.permit, hdrop.shutdown⟩
  · dsimp only
    split
    · exact ⟨hvisit.permit, hvisit.shutdown⟩
    · split
      · exact ⟨hvisit.permit, hvisit.shutdown⟩
      · exact ⟨hvisit.permit, hvisit.shutdown⟩

theorem signals_pollCycle (d : Desk) (t : Tick) (v : Visit) (p : Pass) :
    (d.pollCycle t v p).permit = d.permit ∧ (d.pollCycle t v p).shutdown = d.shutdown := by
  have hdrop := (Desk.consults_dropVisit d .loop v).apart
  have hboth := (Desk.consults_pollVisit d .loop v).apart.trans
    (Desk.apart_pollPass (d.pollVisit .loop v).1 p)
  unfold Desk.pollCycle
  split
  · exact ⟨hdrop.permit, hdrop.shutdown⟩
  · dsimp only
    split
    · have hleft := hboth.trans (Desk.consults_dropVisit _ .loop (d.pollVisit .loop v).2).apart
      exact ⟨hleft.permit, hleft.shutdown⟩
    · split
      · exact ⟨hboth.permit, hboth.shutdown⟩
      · exact ⟨hboth.permit, hboth.shutdown⟩
    · exact ⟨hboth.permit, hboth.shutdown⟩

theorem shutdown_pollIdle (d : Desk) (t : Tick) (ear : Ear) :
    (d.pollIdle t ear).shutdown = d.shutdown := by
  unfold Desk.pollIdle Desk.endIdle Desk.listen
  dsimp only
  repeat' split
  all_goals rfl

theorem shutdown_pollLoop (d : Desk) : d.pollLoop.shutdown = d.shutdown := by
  unfold Desk.pollLoop
  split
  · exact (signals_pollStartup d _).2
  · exact shutdown_pollIdle d _ _
  · exact (signals_pollCycle d _ _ _).2
  · rfl

theorem loop_pollCycle_of_given (h : d.shutdown.isGiven = true) :
    (d.pollCycle t v p).loop = some .ended := by
  unfold Desk.pollCycle
  rw [if_pos h]
  rfl

end Rounds
end SwapDesk
