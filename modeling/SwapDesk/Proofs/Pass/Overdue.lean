import SwapDesk.Proofs.Pass.Waiting

/-! The orders whose hash did not come in time. They are those that were missing it when the pass looked
last. Nothing tells the pass of one that became terminal since, and so it is awaited and counted as pending
like the others. -/
namespace SwapDesk

namespace Tally

variable {t t' : Tally} {now : Instant} {id other : String} {missing : List String}

theorem through_of_charge (h : t.charge now id = .ok t') :
    (t.book.markNotFound now id).outcome.overflow? = none ∧
      t' = t.take (t.book.markNotFound now id) :=
  through_of_goOn h

theorem find?_charge_ne (h : t.charge now id = .ok t') (hne : other ≠ id) :
    t'.book.find? other = t.book.find? other := by
  rw [(through_of_charge h).2]
  exact (Book.touches_doubt t.book now id .miss).find?_ne hne

theorem foldlM_charge_cons {rest : List String} (h : (id :: rest).foldlM (charge now) t = .ok t') :
    ∃ t₁, t.charge now id = .ok t₁ ∧ rest.foldlM (charge now) t₁ = .ok t' := by
  rw [List.foldlM_cons] at h
  exact bind_eq_ok.mp h

theorem lacksHash_charges (h : missing.foldlM (charge now) t = .ok t') (hid : id ∉ missing) :
    t'.book.lacksHash id = t.book.lacksHash id := by
  induction missing generalizing t with
  | nil =>
    cases h
    rfl
  | cons key rest ih =>
    obtain ⟨hne, hrest⟩ := not_or.mp (List.mem_cons.not.mp hid)
    obtain ⟨t₁, hc, hlater⟩ := foldlM_charge_cons h
    rw [ih hlater hrest, Book.lacksHash, find?_charge_ne hc hne, Book.lacksHash]

/-- An order that is charged fails, or it lacks its hash still. -/
theorem charge_of_lacksHash (hl : t.book.lacksHash id = true) (h : t.charge now id = .ok t') :
    t'.report.failed + (t'.book.lacksHash id).toNat = t.report.failed + 1 := by
  obtain ⟨o, ho, ha, hh⟩ := Book.lacksHash_iff.mp hl
  obtain ⟨hgo, rfl⟩ := through_of_charge h
  have hd := Book.doubts t.book now id .miss
  change Book.Doubts t.book now id .miss (t.book.markNotFound now id) at hd
  generalize t.book.markNotFound now id = c at hd hgo
  cases hd with
  | @lapses p =>
    have hfailed : (t.book.put id ((Doubt.miss.raise p).lapse now Doubt.miss.reason)).lacksHash id =
        false := by
      rw [Book.lacksHash, Book.find?_put_self]
      rfl
    simp only [take, hfailed, PollReport.count, Bool.toNat_false]
  | @counts p hp =>
    cases ho.symm.trans hp
    have hkept : (t.book.put id (Doubt.miss.raise o)).lacksHash id = true :=
      Book.lacksHash_iff.mpr ⟨_, Book.find?_put_self, ha, hh⟩
    simp only [take, Book.keep, hkept, PollReport.count, Bool.toNat_true]
  | sticks => cases hgo
  | late hlate =>
    cases hlate with
    | unknown hn => cases hn.symm.trans ho
    | terminal hp ht =>
      cases ho.symm.trans hp
      cases ha.symm.trans ht

/-- Charging an order that has ended comes to nothing. -/
theorem charge_of_ended (h : t.book.isActive id = false) (now : Instant) : t.charge now id = .ok t := by
  have hi : ∀ o, t.book.find? id = some o → o.state.isTerminal = true := by
    intro o ho
    rw [← Bool.not_eq_false]
    intro hopen
    simp [Book.isActive_iff.mpr ⟨o, ho, hopen⟩] at h
  obtain ⟨outcome, hl, hm⟩ := Book.late_doubt now .miss hi
  have hkept : t.charge now id = .ok (t.take (t.book.keep outcome)) := by
    rw [charge, show t.book.markNotFound now id = _ from hm]
    exact goOn_of_through hl.overflow?
  rw [hkept, take_keep t hl.isApplied]

/-- An order can be charged if its count has room. -/
theorem exists_charge_iff (t : Tally) (now : Instant) (id : String) :
    (∃ t', t.charge now id = .ok t') ↔ (Piece.charge id).Fits t.book := by
  have hgo := (t.goOn_cases (t.book.markNotFound now id)).2
  have hroom := overflow?_doubt t.book now id .miss
  rw [← broken?_eq_none, charge, hgo]
  exact hroom.trans ⟨fun h => ⟨trivial, h⟩, fun h => h.count⟩

theorem fits_charge_congr {b b' : Book} (h : b'.find? id = b.find? id) :
    (Piece.charge id).Fits b' ↔ (Piece.charge id).Fits b := by
  have hcount : (Piece.charge id).CountFits b' ↔ (Piece.charge id).CountFits b := by
    simp only [Piece.CountFits, h]
  exact ⟨fun hf => ⟨trivial, hcount.mp hf.count⟩, fun hf => ⟨trivial, hcount.mpr hf.count⟩⟩

theorem exists_charges_iff (t : Tally) (now : Instant) (hn : missing.Nodup) :
    (∃ t', missing.foldlM (charge now) t = .ok t') ↔
      ∀ id ∈ missing, (Piece.charge id).Fits t.book := by
  induction missing generalizing t with
  | nil => exact iff_of_true ⟨t, rfl⟩ nofun
  | cons id rest ih =>
    obtain ⟨hid, hrest⟩ := List.nodup_cons.mp hn
    have hlater : ∀ t₁, t.charge now id = .ok t₁ →
        ((∃ t', rest.foldlM (charge now) t₁ = .ok t') ↔
          ∀ other ∈ rest, (Piece.charge other).Fits t.book) := by
      intro t₁ hc
      rw [ih t₁ hrest]
      refine forall₂_congr fun other ho => fits_charge_congr (find?_charge_ne hc ?_)
      exact fun he => hid (he ▸ ho)
    rw [List.forall_mem_cons, ← exists_charge_iff t now id]
    constructor
    · rintro ⟨t', h⟩
      obtain ⟨t₁, hc, hgo⟩ := foldlM_charge_cons h
      exact ⟨⟨t₁, hc⟩, (hlater t₁ hc).mp ⟨t', hgo⟩⟩
    · rintro ⟨⟨t₁, hc⟩, hfits⟩
      obtain ⟨t', hgo⟩ := (hlater t₁ hc).mpr hfits
      refine ⟨t', ?_⟩
      rw [List.foldlM_cons, hc]
      exact hgo

/-- Nothing but failures is counted with charges. -/
theorem report_charges (h : missing.foldlM (charge now) t = .ok t') :
    t'.report = { t.report with failed := t'.report.failed } := by
  induction missing generalizing t with
  | nil =>
    cases h
    rfl
  | cons id rest ih =>
    obtain ⟨t₁, hc, hlater⟩ := foldlM_charge_cons h
    have hone : t₁.report = { t.report with failed := t₁.report.failed } := by
      have hd := Book.doubts t.book now id .miss
      change Book.Doubts t.book now id .miss (t.book.markNotFound now id) at hd
      rw [(through_of_charge hc).2]
      generalize t.book.markNotFound now id = c at hd
      cases hd with
      | late hl => rw [take_keep t hl.isApplied]
      | lapses | counts | sticks => rfl
    rw [ih hlater, hone]

/-- Of the orders that are charged some fail, some lack their hash still, and the others had ended before
that. -/
theorem failed_charges (h : missing.foldlM (charge now) t = .ok t') (hn : missing.Nodup)
    (hm : ∀ id ∈ missing, t.book.isActive id = true → t.book.lacksHash id = true) :
    t'.report.failed + missing.countP t'.book.lacksHash + missing.countP (!t.book.lacksHash ·) =
      t.report.failed + missing.length := by
  induction missing generalizing t with
  | nil =>
    cases h
    simp
  | cons id rest ih =>
    obtain ⟨hid, hrest⟩ := List.nodup_cons.mp hn
    obtain ⟨t₁, hc, hgo⟩ := foldlM_charge_cons h
    have hsame : ∀ other ∈ rest, t₁.book.find? other = t.book.find? other := by
      intro other ho
      exact find?_charge_ne hc fun he => hid (he ▸ ho)
    have hlacks : ∀ other ∈ rest, t₁.book.lacksHash other = t.book.lacksHash other := by
      intro other ho
      rw [Book.lacksHash, hsame other ho, Book.lacksHash]
    have hlater := ih hgo hrest (by
      intro other ho ha
      rw [Book.isActive, hsame other ho] at ha
      rw [hlacks other ho]
      exact hm other (List.mem_cons_of_mem id ho) ha)
    have hbefore : rest.countP (!t₁.book.lacksHash ·) = rest.countP (!t.book.lacksHash ·) :=
      List.countP_congr fun other ho => by rw [hlacks other ho]
    rw [hbefore] at hlater
    rw [List.countP_cons, List.countP_cons, lacksHash_charges hgo hid]
    cases hl : t.book.lacksHash id with
    | true =>
      have hone := charge_of_lacksHash hl hc
      cases hk : t₁.book.lacksHash id <;> simp [hk] at hone ⊢ <;> omega
    | false =>
      have hended : t.book.isActive id = false := by
        rw [← Bool.not_eq_true]
        intro ha
        simp [hm id List.mem_cons_self ha] at hl
      rw [charge_of_ended hended] at hc
      cases hc
      simp [hl]
      omega

theorem chargeAll_eq_ok : t.chargeAll now missing = .ok t' ↔
    ∃ charged, missing.foldlM (charge now) t = .ok charged ∧
      { charged with report := { charged.report with awaiting := missing.length } } = t' := by
  rw [chargeAll, bind_eq_ok]
  exact exists_congr fun _ => and_congr_right fun _ => ⟨Except.ok.inj, congrArg Except.ok⟩

theorem exists_chargeAll_iff (t : Tally) (now : Instant) (hn : missing.Nodup) :
    (∃ t', t.chargeAll now missing = .ok t') ↔ ∀ id ∈ missing, (Piece.charge id).Fits t.book := by
  rw [← exists_charges_iff t now hn]
  constructor
  · rintro ⟨_, h⟩
    obtain ⟨charged, hc, _⟩ := chargeAll_eq_ok.mp h
    exact ⟨charged, hc⟩
  · rintro ⟨charged, hc⟩
    exact ⟨_, chargeAll_eq_ok.mpr ⟨charged, hc, rfl⟩⟩

/-- After its charges, and before any answer is counted, a pass takes for pending those that lack their hash
still and those that had ended before. -/
theorem counts_chargeAll {b : Book} (h : (start b .empty).chargeAll now missing = .ok t)
    (hn : missing.Nodup) (hm : ∀ id ∈ missing, b.isActive id = true → b.lacksHash id = true) :
    t.report.awaiting = missing.length ∧
      t.report.close.pending =
        missing.countP t.book.lacksHash + missing.countP (!b.lacksHash ·) := by
  obtain ⟨charged, hc, rfl⟩ := chargeAll_eq_ok.mp h
  have hall : charged.report.failed + missing.countP charged.book.lacksHash +
      missing.countP (!b.lacksHash ·) = 0 + missing.length := failed_charges hc hn hm
  have hpending : (PollReport.close { charged.report with awaiting := missing.length }).pending =
      missing.length - charged.report.failed := by
    rw [report_charges hc]
    simp [PollReport.close, start, PollReport.empty]
  refine ⟨rfl, hpending.trans ?_⟩
  change _ = missing.countP charged.book.lacksHash + _
  omega

end Tally
namespace Vigil

/-- Of the orders that are missing their hash at the end of a wait, those are active and without it that were
active in all the books since the pass looked last. They are charged unless a count has no room. Whatever they
are, all of them are awaited. Before any answer is counted, the pass takes for pending those that are left
without a hash when all were charged, and those that had ended without its notice. -/
structure Overdue (diary : Diary) (b : Book) (missing : List String) : Prop where
  lacksHash_iff : ∀ id ∈ missing,
    b.lacksHash id = true ↔ ∀ b' ∈ diary.since, b'.isActive id = true
  exists_tally_iff : ∀ now, (∃ t, (Tally.start b .empty).chargeAll now missing = .ok t) ↔
    ∀ id ∈ missing, (Piece.charge id).Fits b
  counts : ∀ now t, (Tally.start b .empty).chargeAll now missing = .ok t →
    t.report.awaiting = missing.length ∧
      t.report.close.pending =
        missing.countP t.book.lacksHash + missing.countP (!b.lacksHash ·)

variable {first b : Book} {orders : List Order} {diary : Diary} {v : Vigil}

theorem Run.overdue (h : Run (noneAnew orders) first orders diary b v)
    (hfirst : ∀ o ∈ orders, first.find? o.id = some o) (hn : (orders.map (·.id)).Nodup)
    (hended : v.watch = .ended) : Overdue diary b v.missing := by
  have hsince : ∀ id ∈ v.missing, b.isActive id = true → ∀ b' ∈ diary.since, b'.isActive id = true :=
    fun id hid => h.active_since hfirst (.inr hended) hid
  have hlacks : ∀ id ∈ v.missing, b.isActive id = true → b.lacksHash id = true :=
    fun id hid ha => h.lacksHash (.inr hended) hid (hsince id hid ha)
  have hnodup : v.missing.Nodup :=
    (List.nodup_append.mp (h.parts hfirst hn hended).once).2.1
  refine ⟨fun id hid => ⟨fun hl => ?_, h.lacksHash (.inr hended) hid⟩, fun now => ?_, ?_⟩
  · exact hsince id hid (Book.isActive_of_lacksHash hl)
  · exact Tally.exists_chargeAll_iff (.start b .empty) now hnodup
  · intro now t ht
    exact Tally.counts_chargeAll ht hnodup hlacks

/-- When a wait for hashes is over, the orders that are still missing theirs are overdue in this sense, and
so are those of a pass of a desk that ends its wait: An order that ended since the pass looked last is
awaited and taken for pending like the others. -/
theorem overdue_order_lacks_hash_iff (first : Book) (orders : List Order)
    (hfirst : ∀ o ∈ orders, first.find? o.id = some o) (hn : (orders.map (·.id)).Nodup) :
    (∀ diary b v, Run (noneAnew orders) first orders diary b v → v.watch = .ended →
      Overdue diary b v.missing) ∧
    ∀ diary d p ready missing, Book.Reachable first → Waits (noneAnew first.active) first diary d p →
      d.opens? p = some (ready, missing) → Overdue (diary.turn d.book p) d.book missing := by
  refine ⟨fun _ _ _ hrun => hrun.overdue hfirst hn, ?_⟩
  intro diary d p ready missing hb hwaits hopens
  obtain ⟨v, hrun, hended, _, rfl⟩ := exists_run_of_opens? hwaits hopens
  have hs : first.IndexSound := hb.indexSound
  exact hrun.overdue (find?_of_mem_active hs) (nodup_active hs) hended

/-- Of two orders one fails during the wait. Both are overdue and both count as pending. -/
theorem order_without_hash_is_overdue :
    let first := ((Book.fresh .default).performAll
      [(.epoch, .track (.sample "a")), (.epoch, .track (.sample "b"))]).1
    let failed := (first.perform .epoch (.update (.failing "b" "rejected"))).book
    ∃ diary v, Run (noneAnew first.active) first first.active diary failed v ∧ v.watch = .ended ∧
      v.missing = ["a", "b"] ∧ failed.lacksHash "a" = true ∧ failed.lacksHash "b" = false ∧
      ∃ t, (Tally.start failed .empty).chargeAll .epoch v.missing = .ok t ∧
        t.report.close.pending = 2 := by
  intro first failed
  have hactive : first.active = [.sample "a", .sample "b"] := rfl
  have hfirst : ∀ o ∈ first.active, first.find? o.id = some o := by
    intro o ho
    rw [hactive] at ho
    rcases List.mem_pair.mp ho with rfl | rfl <;> rfl
  have hlooked : Run (noneAnew first.active) first first.active _ first
      ⟨.waiting, false, [], ["a", "b"]⟩ := (Run.begin.turn false).turn false
  have hnew : noneAnew first.active first (.update (.failing "b" "rejected")) := by
    intro o hc
    cases hc
  have hrun := (hlooked.command .epoch hnew nofun).turn true
  obtain ⟨hoverdue, _⟩ := overdue_order_lacks_hash_iff first first.active hfirst (by decide)
  obtain ⟨hiff, hexists, hcounts⟩ := hoverdue _ _ _ hrun (by decide)
  have hb : failed.lacksHash "b" = false := by
    rw [← Bool.not_eq_true, hiff "b" (by decide)]
    decide
  have hfits : ∀ id ∈ ["a", "b"], (Piece.charge id).Fits failed := by
    intro id hid
    apply (Tally.exists_charge_iff (.start failed .empty) .epoch id).mp
    rcases List.mem_pair.mp hid with rfl | rfl <;> exact ⟨_, rfl⟩
  obtain ⟨t, ht⟩ := (hexists .epoch).mpr hfits
  obtain ⟨_, hpending⟩ := hcounts .epoch t ht
  have hlast : (Tally.start failed .empty).chargeAll .epoch ["a", "b"] = .ok _ := rfl
  refine ⟨_, _, hrun, by decide, by decide, (hiff "a" (by decide)).mpr (by decide), hb, t, ht, ?_⟩
  cases hlast.symm.trans ht
  exact hpending.trans (by decide)

/-- An order fails while a pass waits for its hash. The pass is not told, and at the end of the wait it takes
the order for one that waits for its hash and is pending. -/
theorem failed_order_is_awaited :
    let opening : Desk := .opening (.named "c" "n" "x" "w") [] .epoch ""
    let d : Desk := { opening with
      book := ((Book.fresh .default).performAll [(.epoch, .track (.sample "a"))]).1 }
    let pass := (d.pollPass .fresh).2
    let failed := (d.pollPass .fresh).1.perform (.update (.failing "a" "rejected"))
    let late : Desk := { failed.1 with clock := 2000 }
    failed.2.gotHash = false ∧ late.book.standsAt "a" .failed = true ∧
      late.opens? pass = some ([], ["a"]) ∧ late.book.lacksHash "a" = false ∧
      (late.pollPass pass).2 = .ended (.ok ⟨0, 0, 0, 1, 0, 1⟩) ∧
      (late.pollPass pass).1.book.active.isEmpty = true := by
  refine ⟨?_, ?_, ?_, ?_, rfl, ?_⟩
  all_goals decide +kernel

end Vigil
end SwapDesk
