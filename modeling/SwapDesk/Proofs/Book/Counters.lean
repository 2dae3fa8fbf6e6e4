import Mathlib.Data.List.DropRight
import SwapDesk.Proofs.Book.Chronicle

/-! The counters of an active order tell which reports were counted about it since it was tracked, whatever
else has happened to it and to other orders. So the limits are reached at exactly their last report. -/
namespace SwapDesk

/-- Counts a report that the order's transaction is not found. -/
def Command.isMiss (id : String) : Command → Bool
  | markNotFound other => other = id
  | _ => false

/-- Counts a report that the order's transaction is still under way. -/
def Command.isStall (id : String) : Command → Bool
  | markAmbiguous other => other = id
  | _ => false

/-- The command that counts a report of this kind about an order. -/
def Doubt.command (id : String) : Doubt → Command
  | miss => .markNotFound id
  | stall => .markAmbiguous id

/-- The reports that an order is not found since the last one that it is under way. -/
def missCount (id : String) (run : List (Instant × Command)) : Nat :=
  (run.rtakeWhile fun e => !e.2.isStall id).countP fun e => e.2.isMiss id

/-- The reports that an order is under way. -/
def stallCount (id : String) (run : List (Instant × Command)) : Nat :=
  run.countP fun e => e.2.isStall id

/-- The change fails the order, for this reason. -/
def Change.Fails (c : Change) (id reason : String) : Prop :=
  (∃ s, c.outcome = .applied s .failed) ∧
    ∃ p, c.book.find? id = some p ∧ p.state = .failed ∧ p.failure = some reason

/-- The change counts the order's report as the `n`-th one and leaves the order active. -/
def Change.Retains (c : Change) (id : String) (n : Nat) : Prop :=
  c.outcome = .counted (.ofNat n) ∧ ∃ p, c.book.find? id = some p ∧ p.state.isTerminal = false

variable {id : String} {run : List (Instant × Command)} {now : Instant} {c : Command}

theorem missCount_snoc :
    missCount id (run ++ [(now, c)]) =
      if c.isStall id then 0 else missCount id run + if c.isMiss id then 1 else 0 := by
  unfold missCount
  rw [List.rtakeWhile_concat]
  cases hs : c.isStall id with
  | true => simp
  | false => simp [List.countP_append, List.countP_singleton]

theorem stallCount_snoc :
    stallCount id (run ++ [(now, c)]) = stallCount id run + if c.isStall id then 1 else 0 := by
  rw [stallCount, List.countP_append, List.countP_singleton]
  rfl

namespace Book

variable {b start : Book} {limits : Limits} {o p first : Order} {limit : UInt32}
  {past future : List (Instant × Command)} {time : Instant}

/-! ### One command -/

/-- What a command makes of the counters of an order that it leaves active. -/
inductive Reckons (limits : Limits) (id : String) : Command → Order → Order → Prop
  | counts (d : Doubt) {o : Order} (hroom : (d.count o).toNat + 1 < UInt32.size)
      (hl : d.isLast limits o = false) : Reckons limits id (d.command id) o (d.raise o)
  | sticks (d : Doubt) {o : Order} (hfull : ¬(d.count o).toNat + 1 < UInt32.size) :
      Reckons limits id (d.command id) o (d.stick o)
  | other {c : Command} {o p : Order} (hm : c.isMiss id = false) (hs : c.isStall id = false)
      (hn : p.notFound = o.notFound) (ha : p.ambiguous = o.ambiguous) : Reckons limits id c o p

/-- The command takes no order into the book under the id. -/
def TracksNot (b : Book) (id : String) (c : Command) : Prop :=
  ∀ o, c = .track o → o.id = id → b.find? id ≠ none

/-- A report that leaves its order active was counted, or its count could not be raised. -/
theorem exists_doubted (now : Instant) (d : Doubt)
    (hp : (b.doubt now id d).book.find? id = some p) (ha : p.state.isTerminal = false) :
    ∃ o, b.find? id = some o ∧ o.state.isTerminal = false ∧
      Reckons b.limits id (d.command id) o p := by
  have hd := doubts b now id d
  generalize b.doubt now id d = c at hd hp
  cases hd with
  | lapses ho =>
    rw [find?_put_self] at hp
    cases hp
    cases ha
  | counts ho hactive hroom hl =>
    obtain rfl := Option.some.inj (find?_put_self.symm.trans hp)
    exact ⟨_, ho, hactive, .counts d hroom hl⟩
  | sticks ho hactive hfull =>
    obtain rfl := Option.some.inj (find?_put_self.symm.trans hp)
    exact ⟨_, ho, hactive, .sticks d hfull⟩
  | late hl =>
    cases hl with
    | unknown hn => cases hn.symm.trans hp
    | terminal ho ht =>
      cases ho.symm.trans hp
      cases ht.symm.trans ha

/-- An order that a command leaves active was active before, and the command has made this of its
counters. -/
theorem exists_reckons (hc : c.isRestore = false) (hn : TracksNot b id c)
    (hp : (b.perform now c).book.find? id = some p) (ha : p.state.isTerminal = false) :
    ∃ o, b.find? id = some o ∧ o.state.isTerminal = false ∧ Reckons b.limits id c o p := by
  cases c with
  | track q =>
    cases hq : b.find? q.id with
    | some r =>
      rw [perform_track_of_tracked hq] at hp
      exact ⟨p, hp, ha, .other rfl rfl rfl rfl⟩
    | none =>
      have hne : id ≠ q.id := fun he => hn q rfl he.symm (he ▸ hq)
      rw [perform_track_of_new hq] at hp
      change (b.file q.id q).find? id = some p at hp
      rw [find?_file_ne hne] at hp
      exact ⟨p, hp, ha, .other rfl rfl rfl rfl⟩
  | update u =>
    change (b.update now u).book.find? id = some p at hp
    rcases admitted_cases b u with ⟨o, ho, hs⟩ | hr
    · rw [update_of_canStep ho hs] at hp
      by_cases hk : id = u.order
      · subst hk
        obtain rfl : o.amend now u = p :=
          Option.some.inj ((Dict.find?_insert_self ..).symm.trans hp)
        exact ⟨o, ho, OrderState.isTerminal_of_canStep hs, .other rfl rfl rfl rfl⟩
      · have hkept : b.find? id = some p := (Dict.find?_insert_ne _ hk _).symm.trans hp
        exact ⟨p, hkept, ha, .other rfl rfl rfl rfl⟩
    · obtain ⟨outcome, hk, _⟩ := update_of_refused now hr
      rw [hk] at hp
      exact ⟨p, hp, ha, .other rfl rfl rfl rfl⟩
  | markNotFound other =>
    by_cases hk : other = id
    · subst hk
      exact exists_doubted now .miss hp ha
    · refine ⟨p, ?_, ha, .other (decide_eq_false hk) rfl rfl rfl⟩
      exact ((touches_doubt b now other .miss).find?_ne (Ne.symm hk)).symm.trans hp
  | markAmbiguous other =>
    by_cases hk : other = id
    · subst hk
      exact exists_doubted now .stall hp ha
    · refine ⟨p, ?_, ha, .other rfl (decide_eq_false hk) rfl rfl⟩
      exact ((touches_doubt b now other .stall).find?_ne (Ne.symm hk)).symm.trans hp
  | restore kept => cases hc
  | purge age =>
    rcases perform_purge_cases b now age with ⟨cause, hpurge⟩ | ⟨cutoff, hpurge⟩
    · rw [hpurge] at hp
      exact ⟨p, hp, ha, .other rfl rfl rfl rfl⟩
    · rw [hpurge] at hp
      change (b.purgeBefore cutoff).1.find? id = some p at hp
      rw [find?_purgeBefore, Option.filter_eq_some_iff] at hp
      exact ⟨p, hp.1, ha, .other rfl rfl rfl rfl⟩

/-! ### Runs -/

theorem limits_performAll (b : Book) (run : List (Instant × Command)) :
    (b.performAll run).1.limits = b.limits := by
  induction run generalizing b with
  | nil => rfl
  | cons e rest ih => exact (ih (b.perform e.1 e.2).book).trans (limits_perform b e.1 e.2)

theorem tracksIn_snoc (h : ¬TracksIn b (run ++ [(now, c)]) id) :
    ¬TracksIn b run id ∧ TracksNot (b.performAll run).1 id c := by
  constructor
  · rintro ⟨pre, time, o, post, rfl, hid, hn⟩
    exact h ⟨pre, time, o, post ++ [(now, c)], by simp, hid, hn⟩
  · rintro o rfl hid hn
    exact h ⟨run, now, o, [], rfl, hid, hn⟩

/-- The counters of an order tell the reports of a run, and no limit is reached. -/
structure Counted (limits : Limits) (id : String) (run : List (Instant × Command)) (o : Order) :
    Prop where
  misses : o.notFound.toNat = missCount id run
  room : o.notFound < limits.notFound
  stalls : o.ambiguous.toNat = stallCount id run
  patience : ∀ a, limits.ambiguous = some a → o.ambiguous < a

/-- Neither counter runs over: below a limit there is room, and without one the reports are few
enough. -/
theorem Counted.step (h : Counted limits id run o) (hr : Reckons limits id c o p)
    (hfew : limits.ambiguous = none → stallCount id (run ++ [(now, c)]) < UInt32.size) :
    Counted limits id (run ++ [(now, c)]) p := by
  -- The counts that a report can raise have room, so that none of them sticks.
  have hstall : stallCount id (run ++ [(now, .markAmbiguous id)]) = o.ambiguous.toNat + 1 := by
    rw [stallCount_snoc, h.stalls]
    simp [Command.isStall]
  have hsize (hc : c = .markAmbiguous id) : o.ambiguous.toNat + 1 < UInt32.size := by
    cases hlimit : limits.ambiguous with
    | none => exact hstall ▸ hc ▸ hfew hlimit
    | some a => exact succ_lt_size (h.patience a hlimit)
  cases hr with
  | counts d hroom hl =>
    cases d with
    | miss =>
      refine ⟨?_, UInt32.not_le.mp (of_decide_eq_false hl), ?_, h.patience⟩
      · change o.missed.notFound.toNat = _
        rw [toNat_missed h.room, h.misses, missCount_snoc]
        simp [Doubt.command, Command.isStall, Command.isMiss]
      · rw [stallCount_snoc]
        exact h.stalls
    | stall =>
      refine ⟨?_, ?_, (toNat_succ hroom).trans hstall.symm, ?_⟩
      · rw [missCount_snoc]
        simp [Doubt.command, Doubt.raise, Command.isStall, Order.stalled]
      · exact UInt32.lt_iff_toNat_lt.mpr (Nat.zero_lt_of_lt (UInt32.lt_iff_toNat_lt.mp h.room))
      · intro a hlimit
        simpa [Doubt.isLast, Doubt.raise, hlimit] using hl
  | sticks d hfull =>
    cases d with
    | miss => exact (hfull (succ_lt_size h.room)).elim
    | stall => exact (hfull (hsize rfl)).elim
  | other hm hs hn ha =>
    refine ⟨?_, hn ▸ h.room, ?_, ha ▸ h.patience⟩
    · rw [hn, h.misses, missCount_snoc]
      simp [hm, hs]
    · rw [ha, h.stalls, stallCount_snoc]
      simp [hs]

/-- By induction on the run from its end, since the last report decides which reports count. -/
theorem counted_performAll (hstart : ∀ o, start.find? id = some o → Counted start.limits id [] o)
    (hrun : ∀ e ∈ run, e.2.isRestore = false) (hn : ¬TracksIn start run id)
    (hfew : start.limits.ambiguous = none → stallCount id run < UInt32.size)
    (ho : (start.performAll run).1.find? id = some o) (ha : o.state.isTerminal = false) :
    Counted start.limits id run o := by
  induction run using List.reverseRecOn generalizing o with
  | nil => exact hstart o ho
  | append_singleton run e ih =>
    obtain ⟨now, c⟩ := e
    obtain ⟨hbefore, hlast⟩ := tracksIn_snoc hn
    rw [performAll_append] at ho
    obtain ⟨q, hq, hactive, hr⟩ := exists_reckons
      (hrun (now, c) (List.mem_append_right _ List.mem_cons_self)) hlast ho ha
    rw [limits_performAll] at hr
    have hq' : Counted start.limits id run q := by
      refine ih (fun e he => hrun e (List.mem_append_left _ he)) hbefore ?_ hq hactive
      intro hnone
      have hless := hfew hnone
      rw [stallCount_snoc] at hless
      exact Nat.lt_of_le_of_lt (Nat.le_add_right _ _) hless
    exact hq'.step hr hfew

/-! ### The limits -/

theorem doubt_retains (ho : b.find? id = some o) (ha : o.state.isTerminal = false) (now : Instant)
    (d : Doubt) (hroom : (d.count o).toNat + 1 < UInt32.size) (hl : d.isLast b.limits o = false) :
    (b.doubt now id d).Retains id (d.count (d.raise o)).toNat := by
  rw [doubt_of_room ho ha now d hroom, hl]
  refine ⟨?_, d.raise o, find?_put_self, (congrArg OrderState.isTerminal (d.state_raise o)).trans ha⟩
  rw [UInt32.ofNat_toNat]
  rfl

theorem doubt_fails (ho : b.find? id = some o) (ha : o.state.isTerminal = false) (now : Instant)
    (d : Doubt) (hroom : (d.count o).toNat + 1 < UInt32.size) (hl : d.isLast b.limits o = true) :
    (b.doubt now id d).Fails id d.reason := by
  rw [doubt_of_room ho ha now d hroom, hl]
  exact ⟨⟨_, rfl⟩, _, find?_put_self, rfl, rfl⟩

/-- The next report that the order is not found. -/
theorem Counted.next_miss (h : Counted b.limits id run o) (ho : b.find? id = some o)
    (ha : o.state.isTerminal = false) (now : Instant) :
    let next := missCount id run + 1
    next ≤ b.limits.notFound.toNat ∧
      (next < b.limits.notFound.toNat → (b.markNotFound now id).Retains id next) ∧
      (next = b.limits.notFound.toNat → (b.markNotFound now id).Fails id lostReason) := by
  intro next
  have hnext : o.missed.notFound.toNat = next := by rw [toNat_missed h.room, h.misses]
  refine ⟨?_, ?_, ?_⟩
  · rw [← hnext, toNat_missed h.room]
    exact UInt32.lt_iff_toNat_lt.mp h.room
  · intro hlt
    rw [← hnext] at hlt ⊢
    exact doubt_retains ho ha now .miss (succ_lt_size h.room)
      (decide_eq_false (UInt32.not_le.mpr (UInt32.lt_iff_toNat_lt.mpr hlt)))
  · intro heq
    rw [← hnext] at heq
    exact doubt_fails ho ha now .miss (succ_lt_size h.room)
      (decide_eq_true (UInt32.le_iff_toNat_le.mpr heq.ge))

/-- The next report that the order is under way. -/
theorem Counted.next_stall (h : Counted b.limits id run o) (ho : b.find? id = some o)
    (ha : o.state.isTerminal = false) (hlimit : b.limits.ambiguous = some limit) (now : Instant) :
    let next := stallCount id run + 1
    next ≤ limit.toNat ∧
      (next < limit.toNat → (b.markAmbiguous now id).Retains id next) ∧
      (next = limit.toNat → (b.markAmbiguous now id).Fails id unresolvedReason) := by
  intro next
  have hroom := h.patience limit hlimit
  have hnext : o.stalled.ambiguous.toNat = next :=
    (toNat_succ (succ_lt_size hroom)).trans (congrArg (· + 1) h.stalls)
  refine ⟨?_, ?_, ?_⟩
  · change stallCount id run < limit.toNat
    rw [← h.stalls]
    exact UInt32.lt_iff_toNat_lt.mp hroom
  · intro hlt
    rw [← hnext] at hlt ⊢
    refine doubt_retains ho ha now .stall (succ_lt_size hroom) ?_
    rw [Doubt.isLast, hlimit]
    exact decide_eq_false (UInt32.not_le.mpr (UInt32.lt_iff_toNat_lt.mpr hlt))
  · intro heq
    rw [← hnext] at heq
    refine doubt_fails ho ha now .stall (succ_lt_size hroom) ?_
    rw [Doubt.isLast, hlimit]
    exact decide_eq_true (UInt32.le_iff_toNat_le.mpr heq.ge)

theorem LastTracks.counted (h : LastTracks (fresh limits) run past time first future)
    (hrun : ∀ e ∈ run, e.2.isRestore = false) (hmisses : 0 < limits.notFound)
    (hstalls : ∀ a, limits.ambiguous = some a → 0 < a) (hzero : first.notFound = 0)
    (hzero' : first.ambiguous = 0)
    (hfew : limits.ambiguous = none → stallCount first.id future < UInt32.size)
    (ho : ((fresh limits).performAll run).1.find? first.id = some o)
    (ha : o.state.isTerminal = false) : Counted limits first.id future o := by
  let start := ((fresh limits).performAll (past ++ [(time, .track first)])).1
  have hlimits : start.limits = limits := limits_performAll ..
  have hstart : ∀ q, start.find? first.id = some q → Counted start.limits first.id [] q := by
    intro q hq
    have hbook : start = (((fresh limits).performAll past).1.perform time (.track first)).book :=
      congrArg Prod.fst (performAll_append ..)
    rw [hbook, perform_track_of_new h.new] at hq
    change (((fresh limits).performAll past).1.file first.id first).find? first.id = some q at hq
    rw [find?_file_self] at hq
    cases hq
    rw [hlimits]
    refine ⟨by rw [hzero]; rfl, hzero ▸ hmisses, by rw [hzero']; rfl, ?_⟩
    intro a hlimit
    rw [hzero']
    exact hstalls a hlimit
  have hsplit : run = (past ++ [(time, .track first)]) ++ future := by
    rw [h.split, List.append_assoc]
    rfl
  have hfuture : ∀ e ∈ future, e.2.isRestore = false := fun e he =>
    hrun e (hsplit ▸ List.mem_append_right _ he)
  rw [hsplit, performAll_append] at ho
  rw [← hlimits] at hfew ⊢
  exact counted_performAll hstart hfuture h.last hfew ho ha

/-- In a run without a restore, under limits that are positive, the count of misses of an active order
that was tracked with counts of zero is the number of reports since then that it is not found, or since
the last one that it is under way, and it is below its limit. Its other count is the number of all reports
since then that it is under way, below its limit if there is one; without a limit these reports must be
fewer than the counter can tell. Whatever else the run does is of no account. So the next report of either
kind is counted as the next one as long as it does not reach the limit, and fails the order if it does. -/
theorem counters_tell_reports (limits : Limits) (hmisses : 0 < limits.notFound)
    (hstalls : ∀ a, limits.ambiguous = some a → 0 < a) (run : List (Instant × Command))
    (hrun : ∀ e ∈ run, e.2.isRestore = false) (id : String) (o : Order) :
    let b := ((fresh limits).performAll run).1
    b.find? id = some o → o.state.isTerminal = false →
      (∃ past time first future,
        LastTracks (fresh limits) run past time first future ∧ first.id = id) ∧
      ∀ past time first future, LastTracks (fresh limits) run past time first future →
        first.id = id → first.notFound = 0 → first.ambiguous = 0 →
        (limits.ambiguous = none → stallCount id future < UInt32.size) →
          Counted limits id future o ∧
          (∀ now, let next := missCount id future + 1
            next ≤ limits.notFound.toNat ∧
            (next < limits.notFound.toNat → (b.markNotFound now id).Retains id next) ∧
            (next = limits.notFound.toNat → (b.markNotFound now id).Fails id lostReason)) ∧
          ∀ now limit, limits.ambiguous = some limit → let next := stallCount id future + 1
            next ≤ limit.toNat ∧
            (next < limit.toNat → (b.markAmbiguous now id).Retains id next) ∧
            (next = limit.toNat → (b.markAmbiguous now id).Fails id unresolvedReason) := by
  intro b ho ha
  have hlimits : b.limits = limits := limits_performAll ..
  constructor
  · rcases tracked_cases (indexSound_fresh limits) hrun ho with ⟨⟨p, hp⟩, _⟩ | hlast
    · cases hp
    · exact hlast
  · rintro past time first future hlast rfl hzero hzero' hfew
    have hcounted : Counted limits first.id future o :=
      hlast.counted hrun hmisses hstalls hzero hzero' hfew ho ha
    have hcounted' : Counted b.limits first.id future o := hlimits.symm ▸ hcounted
    refine ⟨hcounted, ?_, ?_⟩
    · rw [← hlimits]
      exact hcounted'.next_miss ho ha
    · rw [← hlimits]
      exact fun now limit hlimit => hcounted'.next_stall ho ha hlimit now

/-- One miss before the transaction is under way and one after it: the next report of either kind is one
too many. -/
theorem second_report_fails_order :
    let future : List (Instant × Command) := [(.epoch, .markNotFound "a"),
      (.epoch, .markNotFound "b"), (.epoch, .markAmbiguous "a"),
      (.epoch, .update (.toState "a" .opened)), (.epoch, .markNotFound "a")]
    let run := (.epoch, .track (.sample "b")) :: (.epoch, .track (.sample "a")) :: future
    let b := ((fresh ⟨2, some 2⟩).performAll run).1
    (∀ e ∈ run, e.2.isRestore = false) ∧
      LastTracks (fresh ⟨2, some 2⟩) run [(.epoch, .track (.sample "b"))] .epoch (.sample "a") future ∧
      (∃ o, b.find? "a" = some o ∧ o.notFound = 1 ∧ o.ambiguous = 1) ∧
      (b.markNotFound .epoch "a").Fails "a" lostReason ∧
      (b.markAmbiguous .epoch "a").Fails "a" unresolvedReason := by
  intro future run b
  have hrun : ∀ e ∈ run, e.2.isRestore = false := by
    intro e he
    simp only [run, future, List.mem_cons, List.not_mem_nil, or_false] at he
    rcases he with rfl | rfl | rfl | rfl | rfl | rfl | rfl <;> rfl
  have hlast : LastTracks (fresh ⟨2, some 2⟩) run [(.epoch, .track (.sample "b"))] .epoch
      (.sample "a") future := by
    refine ⟨rfl, rfl, ?_⟩
    rintro ⟨pre, now, o, post, he, _⟩
    have hm : (now, Command.track o) ∈ future := by rw [he]; simp
    simp [future] at hm
  have hstate : (b.find? "a").map (·.state) = some .opened := by decide +kernel
  obtain ⟨o, ho, hopen⟩ := Option.map_eq_some_iff.mp hstate
  have ha : o.state.isTerminal = false := by rw [hopen]; rfl
  obtain ⟨hcounted, hmiss, hstall⟩ := (counters_tell_reports ⟨2, some 2⟩ (by decide)
    (by rintro a ⟨⟩; decide) run hrun "a" o ho ha).2 _ _ _ _ hlast rfl rfl rfl nofun
  refine ⟨hrun, hlast, ⟨o, ho, ?_, ?_⟩, (hmiss .epoch).2.2 (by decide),
    (hstall .epoch 2 rfl).2.2 (by decide)⟩
  · exact UInt32.toNat_inj.mp hcounted.misses
  · exact UInt32.toNat_inj.mp hcounted.stalls

end Book
end SwapDesk
