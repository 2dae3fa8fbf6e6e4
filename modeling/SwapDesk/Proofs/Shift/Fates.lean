import SwapDesk.Proofs.Desk.Silence
import SwapDesk.Shift

/-! What becomes of kept orders while the gateway cannot be reached: one that has no hash may be charged
and lost in the end, and terminal ones are removed when they are old. -/
namespace SwapDesk

/-- The instant lies before a time by the retention time or more. -/
def Instant.IsOutdated (i now : Instant) : Prop :=
  ∃ cutoff, now.before? Shift.retention = some cutoff ∧ i.isAfter cutoff = false

/-- The order as it was; or, if it was active and without a hash, as it is after reports that its
transaction is missing, and lost after the last of them. -/
inductive Order.Persists (o : Order) : Order → Prop
  | same : Persists o o
  | counted (ha : o.state.isTerminal = false) (hh : o.txHash = none) (n : UInt32) :
      Persists o { o with notFound := n }
  | lost (ha : o.state.isTerminal = false) (hh : o.txHash = none) (n : UInt32) (now : Instant) :
      Persists o { o with
        notFound := n, state := .failed, failure := some lostReason, updatedAt := now }

/-- What there is of an order that was kept. One that is not there any more was terminal when it was
removed. -/
inductive Fate (purged : Order → Prop) (o : Order) : Option Order → Prop
  | present {p : Order} (h : o.Persists p) : Fate purged o (some p)
  | removed {p : Order} (h : o.Persists p) (ht : p.state.isTerminal = true) (hp : purged p) :
      Fate purged o none

/-- Each order of a book is one of the kept ones, and has one of these fates. -/
structure Book.Holds (kept : Orders) (purged : Order → Prop) (b : Book) : Prop where
  absent : ∀ id, kept.find? id = none → b.find? id = none
  fate : ∀ id o, kept.find? id = some o → Fate purged { o with id } (b.find? id)

variable {kept : Orders} {purged : Order → Prop} {b b' : Book} {o p : Order} {now : Instant}

theorem Order.Persists.missed (h : o.Persists p) (hp : p.state.isTerminal = false)
    (hh : o.txHash = none) (now : Instant) :
    o.Persists p.missed ∧ o.Persists (p.missed.lapse now lostReason) := by
  cases h with
  | same => exact ⟨.counted hp hh _, .lost hp hh _ now⟩
  | counted ha _ n => exact ⟨.counted ha hh _, .lost ha hh _ now⟩
  | lost => cases hp

/-- Nothing becomes of a terminal order, nor of one that has a hash. -/
theorem Order.Persists.eq_of_settled (h : o.Persists p)
    (hs : o.state.isTerminal = true ∨ o.txHash.isSome = true) : p = o := by
  have hnot : ¬(o.state.isTerminal = false ∧ o.txHash = none) := by
    rintro ⟨ha, hh⟩
    rcases hs with hs | hs
    · rw [ha] at hs
      cases hs
    · rw [hh] at hs
      cases hs
  cases h with
  | same => rfl
  | counted ha hh => exact (hnot ⟨ha, hh⟩).elim
  | lost ha hh => exact (hnot ⟨ha, hh⟩).elim

theorem Fate.persists {q : Option Order} (h : Fate purged o q) :
    ∃ p, o.Persists p ∧ (q = some p ∨ q = none ∧ p.state.isTerminal = true ∧ purged p) := by
  cases h with
  | present hp => exact ⟨_, hp, .inl rfl⟩
  | removed hp ht hpurged => exact ⟨_, hp, .inr ⟨rfl, ht, hpurged⟩⟩

/-- What an order keeps whatever becomes of it. -/
theorem Order.Persists.same_pair (h : o.Persists p) : p.pair = o.pair ∧ p.extras = o.extras := by
  cases h <;> exact ⟨rfl, rfl⟩

namespace Book

theorem Holds.markNotFound {id : String} (h : b.Holds kept purged)
    (hid : ∃ o, kept.find? id = some o ∧ o.txHash = none) (now : Instant) :
    (b.markNotFound now id).book.Holds kept purged := by
  obtain ⟨o, ho, hh⟩ := hid
  have htouches := touches_doubt b now id .miss
  have hd := doubts b now id .miss
  change Touches id b (b.markNotFound now id).book at htouches
  change Doubts b now id .miss (b.markNotFound now id) at hd
  generalize b.markNotFound now id = c at hd htouches
  have hpersists : ∀ p, b.find? id = some p → ({ o with id } : Order).Persists p := by
    intro p hp
    have hbefore := h.fate id o ho
    rw [hp] at hbefore
    cases hbefore with
    | present hpersists => exact hpersists
  have hfate : Fate purged { o with id } (c.book.find? id) := by
    cases hd with
    | lapses hp ha => exact find?_put_self.symm ▸ .present ((hpersists _ hp).missed ha hh now).2
    | counts hp ha => exact find?_put_self.symm ▸ .present ((hpersists _ hp).missed ha hh now).1
    | sticks hp => exact find?_put_self.symm ▸ .present (hpersists _ hp)
    | late hl => exact h.fate id o ho
  constructor
  · intro other hnone
    have hne : other ≠ id := by
      rintro rfl
      rw [hnone] at ho
      cases ho
    rw [htouches.find?_ne hne]
    exact h.absent other hnone
  · intro other q hq
    by_cases hne : other = id
    · subst hne
      cases hq.symm.trans ho
      exact hfate
    · rw [htouches.find?_ne hne]
      exact h.fate other q hq

/-- Orders without a hash are charged as often as the pollers like. -/
theorem Holds.charged (h : b.Holds kept purged)
    (hc : Charged (fun id => ∃ o, kept.find? id = some o ∧ o.txHash = none) b b') :
    b'.Holds kept purged := by
  induction hc with
  | refl => exact h
  | charge _ now hid ih => exact ih.markNotFound hid now

theorem find?_purge (b : Book) (now : Instant) (age : Int) (id : String) :
    (b.perform now (.purge age)).book.find? id = (b.find? id).filter fun o =>
      (now.before? age).all fun cutoff => !isStale cutoff o := by
  simp only [perform, purge]
  cases now.before? age with
  | none => cases hf : b.find? id <;> exact hf
  | some cutoff => exact find?_purgeBefore

theorem Holds.purge (h : b.Holds kept purged)
    (hp : ∀ id p, b.find? id = some p → p.updatedAt.IsOutdated now → purged p) :
    (b.perform now (.purge Shift.retention)).book.Holds kept purged where
  absent := by
    intro id hnone
    rw [find?_purge, h.absent id hnone, Option.filter_none]
  fate := by
    intro id o ho
    have hbefore := h.fate id o ho
    rw [find?_purge]
    cases hf : b.find? id with
    | none =>
      rw [hf] at hbefore
      exact hbefore
    | some p =>
      rw [hf] at hbefore
      cases hbefore with
      | present hpersists =>
        cases hcut : now.before? Shift.retention with
        | none => exact .present hpersists
        | some cutoff =>
          cases hs : isStale cutoff p with
          | false => simpa [Option.filter, hs] using Fate.present hpersists
          | true =>
            obtain ⟨ht, hold⟩ := Bool.and_eq_true_iff.mp hs
            have hgone : Fate purged { o with id } none :=
              .removed hpersists ht (hp id p hf ⟨cutoff, hcut, by simpa using hold⟩)
            simpa [Option.filter, hs] using hgone

/-- The kept orders after they were taken back into a new book. -/
theorem find?_restoreFrom {entries : List (String × Order)} (ha : Ascending entries)
    (hb : ∀ e ∈ entries, b.find? e.1 = none) (id : String) :
    (b.restoreFrom entries).1.find? id =
      ((lookup id entries).map fun o => { o with id }).or (b.find? id) := by
  induction entries generalizing b with
  | nil => rfl
  | cons e rest ih =>
    obtain ⟨key, o⟩ := e
    obtain ⟨hfirst, hrest⟩ := List.pairwise_cons.mp ha
    have hnone : b.find? key = none := hb (key, o) List.mem_cons_self
    have hone : b.restoreOne key o = (b.file key { o with id := key }, 1) :=
      restoreOne_of_open fun p hp => by rw [hnone] at hp; cases hp
    have hlater : ∀ x ∈ rest, x.1 ≠ key := fun x hx he =>
      String.lt_irrefl key (he ▸ hfirst x hx)
    have hstill : ∀ x ∈ rest, (b.file key { o with id := key }).find? x.1 = none := fun x hx => by
      rw [find?_file_ne (hlater x hx)]
      exact hb x (List.mem_cons_of_mem _ hx)
    have hrun := ih (b := b.file key { o with id := key }) hrest hstill
    unfold restoreFrom
    simp only [hone]
    rw [hrun]
    by_cases hid : id = key
    · subst hid
      have hlookup : lookup id rest = none := lookup_eq_none_of_lt hfirst
      simp [lookup, hlookup]
    · rw [find?_file_ne hid, lookup, if_neg hid]

theorem holds_restore (limits : Limits) (kept : Orders) :
    ((fresh limits).restore kept).1.Holds kept purged := by
  have hfind : ∀ id, ((fresh limits).restore kept).1.find? id =
      (kept.find? id).map fun o => { o with id } := by
    intro id
    rw [restore, find?_restoreFrom kept.ascending fun _ _ => rfl]
    exact Option.or_none
  constructor
  · intro id hnone
    rw [hfind, hnone, Option.map_none]
  · intro id o ho
    rw [hfind, ho]
    exact .present .same

end Book
end SwapDesk
