import SwapDesk.Proofs.Book.Counters

/-! How many misses an active order survives, whatever its count says. A book may be restored with any
count, and the greatest one cannot be raised: there each miss breaks off, and none is ever the last. -/
namespace SwapDesk
namespace Book

/-- How many misses in a row lose an active order that has counted so many. At the greatest count no
number of them does. -/
def missesLeft (limit count : UInt32) : Option Nat :=
  if count.toNat + 1 < UInt32.size then some (max 1 (limit.toNat - count.toNat)) else none

/-- The miss leaves the order active, with a count that is greater by one and below the limit. -/
def Survives (b : Book) (now : Instant) (id : String) (o : Order) : Prop :=
  ∃ p, (b.markNotFound now id).book.find? id = some p ∧ p.state.isTerminal = false ∧
    p.notFound.toNat = o.notFound.toNat + 1 ∧ p.notFound < b.limits.notFound

/-- A miss of the order at each of the times. -/
def missesAt (id : String) (times : List Instant) : List (Instant × Command) :=
  times.map fun now => (now, .markNotFound id)

variable {b : Book} {now : Instant} {id : String} {o p : Order} {limit count other : UInt32}
  {run : List (Instant × Command)}

/-! ### The counter -/

theorem missesLeft_of_full (h : ¬count.toNat + 1 < UInt32.size) : missesLeft limit count = none :=
  if_neg h

theorem missesLeft_of_le (hroom : count.toNat + 1 < UInt32.size) (h : limit ≤ count + 1) :
    missesLeft limit count = some 1 := by
  have hle := UInt32.le_iff_toNat_le.mp h
  rw [toNat_succ hroom] at hle
  rw [missesLeft, if_pos hroom]
  exact congrArg some (by omega)

theorem missesLeft_of_lt (hroom : count.toNat + 1 < UInt32.size) (h : count + 1 < limit) :
    missesLeft limit count = (missesLeft limit (count + 1)).map (1 + ·) := by
  have hlt := UInt32.lt_iff_toNat_lt.mp h
  rw [missesLeft, missesLeft, if_pos hroom, if_pos (succ_lt_size h)]
  rw [toNat_succ hroom] at hlt ⊢
  have hless : max 1 (limit.toNat - count.toNat) =
      1 + max 1 (limit.toNat - (count.toNat + 1)) := by omega
  rw [hless]
  rfl

theorem pos_of_missesLeft {n : Nat} (h : missesLeft limit count = some n) : 0 < n := by
  unfold missesLeft at h
  split at h
  · cases h
    exact Nat.lt_of_lt_of_le Nat.zero_lt_one (Nat.le_max_left ..)
  · cases h

/-- The limit bounds the misses unless the count cannot be raised or even the first miss is one too
many. -/
theorem missesLeft_le_iff :
    (∃ n, missesLeft limit count = some n ∧ n ≤ limit.toNat) ↔
      0 < limit ∧ count.toNat + 1 < UInt32.size := by
  rw [UInt32.lt_iff_toNat_lt, UInt32.toNat_zero]
  unfold missesLeft
  split
  · rename_i hroom
    constructor
    · rintro ⟨n, hn, hle⟩
      cases hn
      exact ⟨by omega, hroom⟩
    · rintro ⟨hpos, _⟩
      exact ⟨_, rfl, by omega⟩
  · rename_i hfull
    constructor
    · rintro ⟨n, hn, _⟩
      cases hn
    · rintro ⟨_, hroom⟩
      exact (hfull hroom).elim

theorem full_of_missesLeft (h : missesLeft limit count = none) :
    count.toNat + 1 = UInt32.size := by
  unfold missesLeft at h
  split at h
  · cases h
  · rename_i hfull
    exact Nat.le_antisymm count.toNat_lt_size (Nat.not_lt.mp hfull)

theorem eq_of_missesLeft (h : missesLeft limit count = none) (h' : missesLeft limit other = none) :
    count = other := by
  apply UInt32.toNat_inj.mp
  have hc := full_of_missesLeft h
  have ho := full_of_missesLeft h'
  omega

/-! ### One miss -/

theorem fails_or_survives_iff (ho : b.find? id = some o) (ha : o.state.isTerminal = false) :
    (b.markNotFound now id).Fails id lostReason ∨ b.Survives now id o ↔
      o.notFound.toNat + 1 < UInt32.size := by
  by_cases hroom : o.notFound.toNat + 1 < UInt32.size
  · refine iff_of_true ?_ hroom
    cases hl : Doubt.miss.isLast b.limits o with
    | true => exact .inl (doubt_fails ho ha now .miss hroom hl)
    | false =>
      have hlt := UInt32.not_le.mp (of_decide_eq_false hl)
      have hbook : (b.markNotFound now id).book = b.put id o.missed := by
        rw [markNotFound_of_room ho ha hroom, if_neg (UInt32.not_le.mpr hlt)]
        rfl
      exact .inr ⟨o.missed, hbook ▸ find?_put_self, ha, toNat_succ hroom, hlt⟩
  · refine iff_of_false ?_ hroom
    unfold Survives
    rw [markNotFound_of_full ho ha hroom]
    rintro (⟨⟨s, hs⟩, _⟩ | ⟨p, hp, _, hcount, _⟩)
    · cases hs
    · cases ho.symm.trans hp
      omega

/-! ### Runs -/

/-- By induction on the run from its end: each miss that is counted uses up one. -/
theorem missCount_add_missesLeft (ho : b.find? id = some o)
    (hrun : ∀ e ∈ run, e.2.isRestore = false) (hstalls : stallCount id run = 0)
    (hn : ¬TracksIn b run id) (hp : (b.performAll run).1.find? id = some p)
    (ha : p.state.isTerminal = false) :
    (missesLeft b.limits.notFound p.notFound).map (missCount id run + ·) =
      missesLeft b.limits.notFound o.notFound := by
  induction run using List.reverseRecOn generalizing p with
  | nil =>
    cases ho.symm.trans hp
    simp [missCount]
  | append_singleton run e ih =>
    obtain ⟨now, c⟩ := e
    obtain ⟨hbefore, hlast⟩ := tracksIn_snoc hn
    rw [stallCount_snoc] at hstalls
    rw [performAll_append] at hp
    obtain ⟨q, hq, hactive, hr⟩ := exists_reckons
      (hrun (now, c) (List.mem_append_right _ List.mem_cons_self)) hlast hp ha
    rw [limits_performAll] at hr
    have hq' := ih (fun e he => hrun e (List.mem_append_left _ he)) (by omega) hbefore hq hactive
    cases hr with
    | counts d hroom hl =>
      cases d with
      | stall => simp [Command.isStall] at hstalls
      | miss =>
        have hlt := UInt32.not_le.mp (of_decide_eq_false hl)
        have hcount : missCount id (run ++ [(now, .markNotFound id)]) = missCount id run + 1 := by
          rw [missCount_snoc]
          simp [Command.isStall, Command.isMiss]
        change (missesLeft _ (q.notFound + 1)).map
          (missCount id (run ++ [(now, .markNotFound id)]) + ·) = _
        have hleft : missesLeft b.limits.notFound q.notFound =
            (missesLeft b.limits.notFound (q.notFound + 1)).map (1 + ·) := missesLeft_of_lt hroom hlt
        rw [← hq', hleft, hcount, Option.map_map]
        congr 1
        funext n
        exact Nat.add_assoc ..
    | sticks d hfull =>
      cases d with
      | stall => simp [Command.isStall] at hstalls
      | miss =>
        have hnone : missesLeft b.limits.notFound q.notFound = none := missesLeft_of_full hfull
        rw [hnone] at hq'
        change (missesLeft _ q.notFound).map _ = _
        rw [hnone, ← hq']
        rfl
    | other hm hs hnf =>
      rw [missCount_snoc, hnf, ← hq']
      simp [hm, hs]

theorem performAll_missesAt_of_terminal (ho : b.find? id = some o) (ht : o.state.isTerminal = true)
    (times : List Instant) : (b.performAll (missesAt id times)).1 = b := by
  have hi : ∀ p, b.find? id = some p → p.state.isTerminal = true := by
    intro p hp
    cases ho.symm.trans hp
    exact ht
  induction times with
  | nil => rfl
  | cons now times ih =>
    obtain ⟨outcome, _, hm⟩ := late_doubt now .miss hi
    change ((b.doubt now id .miss).book.performAll (missesAt id times)).1 = b
    rw [hm]
    exact ih

/-- Misses that cannot be counted change nothing. -/
theorem performAll_missesAt_of_full (ho : b.find? id = some o) (ha : o.state.isTerminal = false)
    (hfull : ¬o.notFound.toNat + 1 < UInt32.size) (times : List Instant) :
    (b.performAll (missesAt id times)).1 = b := by
  induction times with
  | nil => rfl
  | cons now times ih =>
    change ((b.markNotFound now id).book.performAll (missesAt id times)).1 = b
    rw [markNotFound_of_full ho ha hfull]
    exact ih

/-- A row of misses leaves the order as it is until they are used up, and then it is lost. -/
theorem find?_performAll_missesAt (ho : b.find? id = some o) (ha : o.state.isTerminal = false)
    (times : List Instant) :
    ∃ p, (b.performAll (missesAt id times)).1.find? id = some p ∧
      if (missesLeft b.limits.notFound o.notFound).any (· ≤ times.length) then
        p.state = .failed ∧ p.failure = some lostReason
      else p.state = o.state := by
  by_cases hroom : o.notFound.toNat + 1 < UInt32.size
  swap
  · refine ⟨o, by rw [performAll_missesAt_of_full ho ha hroom]; exact ho, ?_⟩
    rw [missesLeft_of_full hroom]
    rfl
  induction times generalizing b o with
  | nil =>
    refine ⟨o, ho, ?_⟩
    rw [missesLeft, if_pos hroom]
    simp
  | cons now times ih =>
    change ∃ p, ((b.markNotFound now id).book.performAll (missesAt id times)).1.find? id = some p ∧ _
    rw [markNotFound_of_room ho ha hroom, List.length_cons]
    split
    · rename_i hlast
      refine ⟨o.missed.lapse now lostReason, ?_, ?_⟩
      · rw [performAll_missesAt_of_terminal find?_put_self rfl]
        exact find?_put_self
      · have hleft : missesLeft b.limits.notFound o.notFound = some 1 := missesLeft_of_le hroom hlast
        rw [hleft, if_pos (by simp)]
        exact ⟨rfl, rfl⟩
    · rename_i hlast
      have hlt := UInt32.not_le.mp hlast
      have hleft : missesLeft b.limits.notFound o.notFound =
          (missesLeft b.limits.notFound o.missed.notFound).map (1 + ·) := missesLeft_of_lt hroom hlt
      obtain ⟨p, hp, hstate⟩ := ih (b := b.put id o.missed) find?_put_self ha (succ_lt_size hlt)
      refine ⟨p, hp, ?_⟩
      rw [hleft, Option.any_map, Nat.add_comm times.length 1]
      simp only [Nat.add_le_add_iff_left]
      exact hstate

/-- One miss of an active order fails it as lost or counts one more below the limit, unless its count is
at its greatest value: then it breaks off and changes nothing. So a limit bounds the misses in a row
that the order survives exactly if it is above zero and the count below its greatest value. The order is
lost by the last of the misses that its count has left, and whatever else happens to it meanwhile, it
does not stay active through as many; with the greatest count it stays as it is through any number. -/
theorem misses_use_up_limit (b : Book) (id : String) (o : Order) (ho : b.find? id = some o)
    (ha : o.state.isTerminal = false) :
    let left := missesLeft b.limits.notFound o.notFound
    ((∃ n, left = some n ∧ n ≤ b.limits.notFound.toNat) ↔
      0 < b.limits.notFound ∧ o.notFound.toNat + 1 < UInt32.size) ∧
    (∀ now, (b.markNotFound now id).Fails id lostReason ∨ b.Survives now id o ↔
      o.notFound.toNat + 1 < UInt32.size) ∧
    (∀ now, left = none → b.markNotFound now id = b.keep (.overflow .count)) ∧
    (∀ times, ∃ p, (b.performAll (missesAt id times)).1.find? id = some p ∧
      if left.any (· ≤ times.length) then p.state = .failed ∧ p.failure = some lostReason
      else p.state = o.state) ∧
    ∀ run p, (∀ e ∈ run, e.2.isRestore = false) → stallCount id run = 0 → ¬TracksIn b run id →
      (b.performAll run).1.find? id = some p → p.state.isTerminal = false →
        (∀ n, left = some n → missCount id run < n) ∧ (left = none → p.notFound = o.notFound) := by
  refine ⟨missesLeft_le_iff, fun now => fails_or_survives_iff ho ha, ?_,
    find?_performAll_missesAt ho ha, ?_⟩
  · intro now hnone
    have hfull := full_of_missesLeft hnone
    exact markNotFound_of_full ho ha (by omega)
  · intro run p hrun hstalls hn hp hactive
    have hleft := missCount_add_missesLeft ho hrun hstalls hn hp hactive
    constructor
    · intro n hsome
      obtain ⟨m, hm, rfl⟩ := Option.map_eq_some_iff.mp (hleft.trans hsome)
      exact Nat.lt_add_of_pos_right (pos_of_missesLeft hm)
    · intro hnone
      exact eq_of_missesLeft (Option.map_eq_none_iff.mp (hleft.trans hnone)) hnone

/-- A count above the limit. -/
theorem restored_order_lost_at_once :
    let kept : Order := { Order.sample "a" with notFound := 12 }
    let b := ((fresh .default).perform .epoch (.restore (.ofList [("a", kept)]))).book
    b.find? "a" = some kept ∧
      ∃ p, (b.markNotFound .epoch "a").book.find? "a" = some p ∧ p.state = .failed ∧
        p.failure = some lostReason := by
  intro kept b
  have hkept : b.find? "a" = some kept := find?_file_self (b := fresh .default)
  obtain ⟨p, hp, hlost⟩ := (misses_use_up_limit b "a" kept hkept rfl).2.2.2.1 [.epoch]
  rw [if_pos (by decide)] at hlost
  exact ⟨hkept, p, hp, hlost⟩

/-- The greatest count cannot be raised, and then no number of misses in a row loses the order. -/
theorem greatest_count_escapes_limit :
    let kept : Order := { Order.sample "a" with notFound := 4294967295 }
    let b := ((fresh .default).perform .epoch (.restore (.ofList [("a", kept)]))).book
    b.limits.notFound = 10 ∧ b.find? "a" = some kept ∧ kept.state.isTerminal = false ∧
      b.markNotFound .epoch "a" = b.keep (.overflow .count) ∧
      ¬((b.markNotFound .epoch "a").Fails "a" lostReason ∨ b.Survives .epoch "a" kept) ∧
      ∀ times, (b.performAll (missesAt "a" times)).1.find? "a" = some kept := by
  intro kept b
  have hkept : b.find? "a" = some kept := find?_file_self (b := fresh .default)
  have hfull : ¬kept.notFound.toNat + 1 < UInt32.size := by decide
  refine ⟨rfl, hkept, rfl, markNotFound_of_full hkept rfl hfull, ?_, ?_⟩
  · rw [fails_or_survives_iff hkept rfl]
    exact hfull
  · intro times
    rw [performAll_missesAt_of_full hkept rfl hfull]
    exact hkept

end Book
end SwapDesk
