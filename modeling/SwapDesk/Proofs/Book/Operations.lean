import SwapDesk.Order.Command

/-! What each operation of a book does to its orders and to its index. Later proofs cite these
statements and do not open the operations. -/
namespace SwapDesk

namespace Order

/-- One more report that the transaction is not found. -/
def missed (o : Order) : Order := { o with notFound := o.notFound + 1 }

/-- One more report that the transaction is still under way. -/
def stalled (o : Order) : Order := { o with notFound := 0, ambiguous := o.ambiguous + 1 }

/-- The transaction is there, so the count of misses begins anew. -/
def sighted (o : Order) : Order := { o with notFound := 0 }

/-- The order after it failed. -/
def lapse (o : Order) (now : Instant) (reason : String) : Order :=
  o.amend now (.failing o.id reason)

end Order

/-- The two kinds of report that only count. -/
inductive Doubt
  /-- The transaction is not found. -/
  | miss
  /-- The transaction is still under way. -/
  | stall

namespace Doubt

/-- Why an order fails that was reported so too often. -/
def reason : Doubt → String
  | miss => lostReason
  | stall => unresolvedReason

def count (o : Order) : Doubt → UInt32
  | miss => o.notFound
  | stall => o.ambiguous

/-- The order with one more report. -/
def raise (o : Order) : Doubt → Order
  | miss => o.missed
  | stall => o.stalled

/-- The order with a report that could not be counted. -/
def stick (o : Order) : Doubt → Order
  | miss => o
  | stall => o.sighted

/-- The order does not survive one more report. -/
def isLast (limits : Limits) (o : Order) : Doubt → Bool
  | miss => limits.notFound ≤ o.missed.notFound
  | stall => limits.ambiguous.any (· ≤ o.stalled.ambiguous)

variable (d : Doubt) (o : Order)

@[simp] theorem id_raise : (d.raise o).id = o.id := by cases d <;> rfl

@[simp] theorem state_raise : (d.raise o).state = o.state := by cases d <;> rfl

@[simp] theorem txHash_raise : (d.raise o).txHash = o.txHash := by cases d <;> rfl

@[simp] theorem id_stick : (d.stick o).id = o.id := by cases d <;> rfl

@[simp] theorem state_stick : (d.stick o).state = o.state := by cases d <;> rfl

@[simp] theorem txHash_stick : (d.stick o).txHash = o.txHash := by cases d <;> rfl

end Doubt

namespace Book

/-- The change that a report of this kind makes. -/
def doubt (b : Book) (now : Instant) (id : String) : Doubt → Change
  | .miss => b.markNotFound now id
  | .stall => b.markAmbiguous now id

/-- The book with an order in the place of the one under its id, and its hash in the index in the
place of the other's. -/
def file (b : Book) (id : String) (o : Order) : Book :=
  { b with
    orders := b.orders.insert id o
    byHash := reindex b.byHash id ((b.find? id).bind (·.txHash)) o.txHash }

/-- The books differ at most in the data of the order `id`, and not in its hash. -/
def Touches (id : String) (b b' : Book) : Prop :=
  b' = b ∨ ∃ o p, b.find? id = some o ∧ b' = b.put id p ∧ p.id = o.id ∧ p.txHash = o.txHash

variable {b b' : Book} {now : Instant} {u : Update} {id other hash reason : String}
  {o p : Order} {age : Int} {cutoff : Instant.Mark}

@[simp] theorem find?_put_self : (b.put id o).find? id = some o := Dict.find?_insert_self ..

theorem find?_put_ne (h : other ≠ id) : (b.put id o).find? other = b.find? other :=
  Dict.find?_insert_ne _ h _

@[simp] theorem find?_file_self : (b.file id o).find? id = some o := Dict.find?_insert_self ..

theorem find?_file_ne (h : other ≠ id) : (b.file id o).find? other = b.find? other :=
  Dict.find?_insert_ne _ h _

theorem put_put : (b.put id o).put id p = b.put id p := by
  simp only [put, Dict.insert_insert]

theorem findByHash?_eq_some :
    b.findByHash? hash = some o ↔ ∃ id, b.byHash.find? hash = some id ∧ b.find? id = some o :=
  Option.bind_eq_some_iff

theorem mem_active : o ∈ b.active ↔ (∃ id, b.find? id = some o) ∧ o.state.isTerminal = false := by
  simp only [active, List.mem_filter, Dict.mem_values_iff, OrderState.isActive_iff]
  rfl

theorem active_cases (b : Book) (id : String) :
    (∃ o, b.find? id = some o ∧ o.state.isTerminal = false) ∨
      ∀ o, b.find? id = some o → o.state.isTerminal = true := by
  by_cases h : ∃ o, b.find? id = some o ∧ o.state.isTerminal = false
  · exact Or.inl h
  · refine Or.inr ?_
    intro o ho
    rw [← Bool.not_eq_false]
    exact fun ha => h ⟨o, ho, ha⟩

theorem find?_reindex (index : Dict String) (old new : Option String) :
    (reindex index id old new).find? hash =
      if new = some hash then some id else if old = some hash then none else index.find? hash := by
  cases old <;> cases new <;>
    simp only [reindex, Dict.find?_insert, Dict.find?_erase, reduceCtorEq, if_false,
      Option.some.injEq, eq_comm]

theorem track_of_tracked (h : b.find? o.id = some p) : b.track o = .error (.duplicate o.id) := by
  have hc : b.orders.contains o.id = true := by
    show (b.find? o.id).isSome = true
    simp [h]
  simp [track, hc]

theorem track_of_new (h : b.find? o.id = none) : b.track o = .ok (b.file o.id o, [o.creation]) := by
  have hc : b.orders.contains o.id = false := (Dict.contains_eq_false_iff _).mpr h
  simp [track, file, hc, h]

/-- An admitted report. -/
theorem update_of_canStep (h : b.find? u.order = some o) (hs : o.state.canStep u.state = true) :
    b.update now u =
      { book :=
          { b with
            orders := b.orders.insert u.order (o.amend now u)
            byHash := if bringsHash o u then reindex b.byHash o.id o.txHash u.txHash
              else b.byHash }
        outcome := .applied o.state u.state
        events := (o.amend now u).transition o.state
        gotHash := bringsHash o u } := by
  simp [update, h, hs, OrderState.isTerminal_of_canStep hs]

/-- Any other report changes nothing. -/
theorem update_of_refused (now : Instant)
    (h : ∀ o, b.find? u.order = some o → o.state.canStep u.state = false) :
    ∃ outcome, b.update now u = b.keep outcome ∧ outcome.isApplied = false := by
  unfold update
  split
  · exact ⟨_, rfl, rfl⟩
  · rename_i o ho
    rw [h o ho]
    split
    · exact ⟨_, rfl, rfl⟩
    · exact ⟨_, rfl, rfl⟩

theorem admitted_cases (b : Book) (u : Update) :
    (∃ o, b.find? u.order = some o ∧ o.state.canStep u.state = true) ∨
      ∀ o, b.find? u.order = some o → o.state.canStep u.state = false := by
  by_cases h : ∃ o, b.find? u.order = some o ∧ o.state.canStep u.state = true
  · exact Or.inl h
  · refine Or.inr ?_
    intro o ho
    rw [← Bool.not_eq_true]
    exact fun hs => h ⟨o, ho, hs⟩

theorem txHash_amend_of_hash (hb : bringsHash o u = true) : (o.amend now u).txHash = u.txHash := by
  cases hu : u.txHash with
  | none => simp [bringsHash, hu] at hb
  | some hash => simp [Order.amend, hu]

theorem txHash_amend_of_no_hash (hb : bringsHash o u = false) :
    (o.amend now u).txHash = o.txHash := by
  cases hu : u.txHash with
  | none => simp [Order.amend, hu]
  | some hash =>
    have he : u.txHash = o.txHash := by simpa [bringsHash, hu] using hb
    simp [Order.amend, he]

theorem update_of_hash (h : b.find? u.order = some o) (hs : o.state.canStep u.state = true)
    (hid : o.id = u.order) (hb : bringsHash o u = true) :
    b.update now u =
      ⟨b.file u.order (o.amend now u), .applied o.state u.state,
        (o.amend now u).transition o.state, true⟩ := by
  rw [update_of_canStep h hs]
  simp [hb, file, h, hid, txHash_amend_of_hash hb]

/-- An admitted report that brings no hash leaves the index alone. -/
theorem update_of_no_hash (h : b.find? u.order = some o) (hs : o.state.canStep u.state = true)
    (hb : bringsHash o u = false) :
    b.update now u =
      ⟨b.put u.order (o.amend now u), .applied o.state u.state,
        (o.amend now u).transition o.state, false⟩ := by
  rw [update_of_canStep h hs]
  simp [hb, put]

theorem update_failing (h : b.find? id = some o) (ha : o.state.isTerminal = false) :
    b.update now (.failing id reason) =
      ⟨b.put id (o.lapse now reason), .applied o.state .failed,
        (o.lapse now reason).transition o.state, false⟩ :=
  update_of_no_hash (u := .failing id reason) h (OrderState.canStep_failed ha) rfl

/-- The order fails from the data that was put in its place. -/
theorem update_put_failing (ha : p.state.isTerminal = false) :
    (b.put id p).update now (.failing id reason) =
      ⟨b.put id (p.lapse now reason), .applied p.state .failed,
        (p.lapse now reason).transition p.state, false⟩ := by
  rw [update_failing find?_put_self ha, put_put]

/-- A counter below its greatest value does not run over. -/
theorem toNat_succ {n : UInt32} (h : n.toNat + 1 < UInt32.size) : (n + 1).toNat = n.toNat + 1 := by
  rw [UInt32.toNat_add, UInt32.toNat_one, Nat.mod_eq_of_lt h]

theorem succ_lt_size {n limit : UInt32} (h : n < limit) : n.toNat + 1 < UInt32.size :=
  Nat.lt_of_le_of_lt (UInt32.lt_iff_toNat_lt.mp h) limit.toNat_lt_size

theorem toNat_missed {limit : UInt32} (h : o.notFound < limit) :
    o.missed.notFound.toNat = o.notFound.toNat + 1 :=
  toNat_succ (succ_lt_size h)

theorem nextCount?_of_room {n : UInt32} (h : n.toNat + 1 < UInt32.size) :
    nextCount? n = some (n + 1) :=
  if_pos h

theorem nextCount?_of_full {n : UInt32} (h : ¬n.toNat + 1 < UInt32.size) : nextCount? n = none :=
  if_neg h

theorem put_self (h : b.find? id = some o) : b.put id o = b := by
  have horders : b.orders.insert id o = b.orders := by
    apply Dict.ext_find?
    intro k
    rw [Dict.find?_insert]
    split
    · rename_i hk
      exact (hk ▸ h).symm
    · rfl
  rw [put, horders]

theorem markNotFound_of_room (h : b.find? id = some o) (ha : o.state.isTerminal = false)
    (hroom : o.notFound.toNat + 1 < UInt32.size) :
    b.markNotFound now id =
      if b.limits.notFound ≤ o.missed.notFound then
        ⟨b.put id (o.missed.lapse now lostReason), .applied o.state .failed,
          (o.missed.lapse now lostReason).transition o.state, false⟩
      else (b.put id o.missed).keep (.counted o.missed.notFound) := by
  have hf : (b.put id o.missed).update now (.failing id lostReason) = _ := update_put_failing ha
  simp only [markNotFound, h, ha, nextCount?_of_room hroom, Bool.false_eq_true, if_false]
  change (if b.limits.notFound ≤ o.missed.notFound then
    (b.put id o.missed).update now (.failing id lostReason) else _) = _
  rw [hf]
  rfl

theorem markNotFound_of_full (h : b.find? id = some o) (ha : o.state.isTerminal = false)
    (hfull : ¬o.notFound.toNat + 1 < UInt32.size) :
    b.markNotFound now id = b.keep (.overflow .count) := by
  simp [markNotFound, h, ha, nextCount?_of_full hfull]

theorem markAmbiguous_of_room (h : b.find? id = some o) (ha : o.state.isTerminal = false)
    (hroom : o.ambiguous.toNat + 1 < UInt32.size) :
    b.markAmbiguous now id =
      if b.limits.ambiguous.any (· ≤ o.stalled.ambiguous) then
        ⟨b.put id (o.stalled.lapse now unresolvedReason), .applied o.state .failed,
          (o.stalled.lapse now unresolvedReason).transition o.state, false⟩
      else (b.put id o.stalled).keep (.counted o.stalled.ambiguous) := by
  have hf : (b.put id o.stalled).update now (.failing id unresolvedReason) = _ :=
    update_put_failing ha
  have hl : (b.put id o.stalled).limits.ambiguous = b.limits.ambiguous := rfl
  rw [markAmbiguous, h]
  simp only [ha, nextCount?_of_room hroom, Bool.false_eq_true, if_false]
  rw [Order.stalled] at hf hl ⊢
  rw [hl]
  cases b.limits.ambiguous with
  | none => rfl
  | some limit =>
    dsimp only [Option.any_some]
    rw [hf]
    simp only [decide_eq_true_eq]

theorem markAmbiguous_of_full (h : b.find? id = some o) (ha : o.state.isTerminal = false)
    (hfull : ¬o.ambiguous.toNat + 1 < UInt32.size) :
    b.markAmbiguous now id = (b.put id o.sighted).keep (.overflow .count) := by
  simp [markAmbiguous, h, ha, nextCount?_of_full hfull, Order.sighted]

/-- The answer to a report that comes too early or too late: its order is not tracked, or terminal. -/
inductive Late (b : Book) (id : String) : Outcome → Prop
  | unknown (h : b.find? id = none) : Late b id .unknown
  | terminal {o : Order} (h : b.find? id = some o) (ht : o.state.isTerminal = true) :
      Late b id (.terminal o.state)

theorem late_doubt (now : Instant) (d : Doubt)
    (h : ∀ o, b.find? id = some o → o.state.isTerminal = true) :
    ∃ outcome, Late b id outcome ∧ b.doubt now id d = b.keep outcome := by
  cases ho : b.find? id with
  | none => exact ⟨_, .unknown ho, by cases d <;> simp [doubt, markNotFound, markAmbiguous, ho]⟩
  | some o =>
    exact ⟨_, .terminal ho (h o ho), by
      cases d <;> simp [doubt, markNotFound, markAmbiguous, ho, h o ho]⟩

/-- All that a report can do which only counts: the order fails, one more is counted, the count cannot be
raised, or the report comes too early or too late. -/
inductive Doubts (b : Book) (now : Instant) (id : String) (d : Doubt) : Change → Prop
  | lapses {o : Order} (ho : b.find? id = some o) (ha : o.state.isTerminal = false)
      (hroom : (d.count o).toNat + 1 < UInt32.size) (hl : d.isLast b.limits o = true) :
      Doubts b now id d ⟨b.put id ((d.raise o).lapse now d.reason), .applied o.state .failed,
        ((d.raise o).lapse now d.reason).transition o.state, false⟩
  | counts {o : Order} (ho : b.find? id = some o) (ha : o.state.isTerminal = false)
      (hroom : (d.count o).toNat + 1 < UInt32.size) (hl : d.isLast b.limits o = false) :
      Doubts b now id d ((b.put id (d.raise o)).keep (.counted (d.count (d.raise o))))
  | sticks {o : Order} (ho : b.find? id = some o) (ha : o.state.isTerminal = false)
      (hfull : ¬(d.count o).toNat + 1 < UInt32.size) :
      Doubts b now id d ((b.put id (d.stick o)).keep (.overflow .count))
  | late {outcome : Outcome} (hl : Late b id outcome) : Doubts b now id d (b.keep outcome)

theorem doubt_of_room (ho : b.find? id = some o) (ha : o.state.isTerminal = false) (now : Instant)
    (d : Doubt) (hroom : (d.count o).toNat + 1 < UInt32.size) :
    b.doubt now id d =
      if d.isLast b.limits o then
        ⟨b.put id ((d.raise o).lapse now d.reason), .applied o.state .failed,
          ((d.raise o).lapse now d.reason).transition o.state, false⟩
      else (b.put id (d.raise o)).keep (.counted (d.count (d.raise o))) := by
  cases d with
  | miss =>
    simp only [Doubt.isLast, decide_eq_true_eq]
    exact markNotFound_of_room ho ha hroom
  | stall => exact markAmbiguous_of_room ho ha hroom

theorem doubt_of_full (ho : b.find? id = some o) (ha : o.state.isTerminal = false) (now : Instant)
    (d : Doubt) (hfull : ¬(d.count o).toNat + 1 < UInt32.size) :
    b.doubt now id d = (b.put id (d.stick o)).keep (.overflow .count) := by
  cases d with
  | miss =>
    rw [Doubt.stick, put_self ho]
    exact markNotFound_of_full ho ha hfull
  | stall => exact markAmbiguous_of_full ho ha hfull

theorem doubts (b : Book) (now : Instant) (id : String) (d : Doubt) :
    Doubts b now id d (b.doubt now id d) := by
  rcases active_cases b id with ⟨o, ho, ha⟩ | hi
  · by_cases hroom : (d.count o).toNat + 1 < UInt32.size
    · rw [doubt_of_room ho ha now d hroom]
      split
      · rename_i hl
        exact .lapses ho ha hroom hl
      · rename_i hl
        exact .counts ho ha hroom (eq_false_of_ne_true hl)
    · rw [doubt_of_full ho ha now d hroom]
      exact .sticks ho ha hroom
  · obtain ⟨outcome, hl, hd⟩ := late_doubt now d hi
    rw [hd]
    exact .late hl

theorem Touches.find?_ne (h : Touches id b b') (hne : other ≠ id) :
    b'.find? other = b.find? other := by
  rcases h with rfl | ⟨o, p, _, rfl, _⟩
  · rfl
  · exact find?_put_ne hne

theorem Touches.byHash (h : Touches id b b') : b'.byHash = b.byHash := by
  rcases h with rfl | ⟨o, p, _, rfl, _⟩
  · rfl
  · rfl

theorem Touches.limits (h : Touches id b b') : b'.limits = b.limits := by
  rcases h with rfl | ⟨o, p, _, rfl, _⟩
  · rfl
  · rfl

theorem touches_doubt (b : Book) (now : Instant) (id : String) (d : Doubt) :
    Touches id b (b.doubt now id d).book := by
  have hd := doubts b now id d
  generalize b.doubt now id d = c at hd
  cases hd with
  | lapses ho | counts ho => exact .inr ⟨_, _, ho, rfl, d.id_raise _, d.txHash_raise _⟩
  | sticks ho => exact .inr ⟨_, _, ho, rfl, d.id_stick _, d.txHash_stick _⟩
  | late hl => exact .inl rfl

theorem touches_update (h : b.find? u.order = some o) (hs : o.state.canStep u.state = true)
    (hb : bringsHash o u = false) : Touches u.order b (b.update now u).book := by
  rw [update_of_no_hash h hs hb]
  exact Or.inr ⟨o, _, h, rfl, rfl, txHash_amend_of_no_hash hb⟩

theorem restoreOne_of_terminal (h : b.find? id = some p) (ht : p.state.isTerminal = true) :
    b.restoreOne id o = (b, 0) := by
  simp [restoreOne, h, ht]

theorem restoreOne_of_open (h : ∀ p, b.find? id = some p → p.state.isTerminal = false) :
    b.restoreOne id o = (b.file id { o with id }, 1) := by
  have ha : (b.find? id).any (·.state.isTerminal) = false := by
    cases hp : b.find? id with
    | none => rfl
    | some p => exact h p hp
  simp [restoreOne, file, ha]

theorem terminal_cases (b : Book) (id : String) :
    (∃ o, b.find? id = some o ∧ o.state.isTerminal = true) ∨
      ∀ o, b.find? id = some o → o.state.isTerminal = false := by
  by_cases h : ∃ o, b.find? id = some o ∧ o.state.isTerminal = true
  · exact Or.inl h
  · refine Or.inr ?_
    intro o ho
    rw [← Bool.not_eq_true]
    exact fun ht => h ⟨o, ho, ht⟩

theorem find?_purgeBefore :
    (b.purgeBefore cutoff).1.find? id = (b.find? id).filter (!isStale cutoff ·) :=
  Dict.find?_filter ..

theorem byHash_purgeBefore :
    (b.purgeBefore cutoff).1.byHash.find? hash = some id ↔
      b.byHash.find? hash = some id ∧
        ∀ other o, b.find? other = some o → isStale cutoff o = true → o.txHash ≠ some hash := by
  have hmem : hash ∈ (b.orders.filter fun _ o => isStale cutoff o).values.filterMap (·.txHash) ↔
      ∃ other o, b.find? other = some o ∧ isStale cutoff o = true ∧ o.txHash = some hash := by
    simp only [List.mem_filterMap, Dict.mem_values_iff, Dict.find?_filter, Option.filter_eq_some_iff]
    constructor
    · rintro ⟨o, ⟨other, ho, hs⟩, hh⟩
      exact ⟨other, o, ho, hs, hh⟩
    · rintro ⟨other, o, ho, hs, hh⟩
      exact ⟨o, ⟨other, ho, hs⟩, hh⟩
  simp only [purgeBefore, Dict.find?_filter, Option.filter_eq_some_iff, Bool.not_eq_true',
    List.contains_eq_mem, decide_eq_false_iff_not, hmem]
  constructor
  · rintro ⟨hi, hn⟩
    exact ⟨hi, fun other o ho hs hh => hn ⟨other, o, ho, hs, hh⟩⟩
  · rintro ⟨hi, hn⟩
    refine ⟨hi, ?_⟩
    rintro ⟨other, o, ho, hs, hh⟩
    exact hn other o ho hs hh

theorem perform_track_of_tracked (h : b.find? o.id = some p) :
    b.perform now (.track o) = ⟨b, .outcome (.rejected (.duplicate o.id)), [], false⟩ := by
  simp only [perform, track_of_tracked h, Effect.ofTrack]

theorem perform_track_of_new (h : b.find? o.id = none) :
    b.perform now (.track o) = ⟨b.file o.id o, .tracked, [o.creation], false⟩ := by
  simp only [perform, track_of_new h, Effect.ofTrack]

/-- A purge whose cutoff leaves the calendar changes nothing. -/
theorem perform_purge_cases (b : Book) (now : Instant) (age : Int) :
    (∃ cause, b.perform now (.purge age) = ⟨b, .overflow cause, [], false⟩) ∨
      ∃ cutoff, b.perform now (.purge age) =
        ⟨(b.purgeBefore cutoff).1, .count (b.purgeBefore cutoff).2, [], false⟩ := by
  simp only [perform, purge]
  cases now.before? age with
  | none => exact Or.inl ⟨_, rfl⟩
  | some cutoff => exact Or.inr ⟨cutoff, rfl⟩

theorem limits_restoreFrom (b : Book) (kept : List (String × Order)) :
    (b.restoreFrom kept).1.limits = b.limits := by
  induction kept generalizing b with
  | nil => rfl
  | cons e rest ih =>
    refine (ih (b.restoreOne e.1 e.2).1).trans ?_
    unfold restoreOne
    dsimp only
    split <;> rfl

theorem limits_update (b : Book) (now : Instant) (u : Update) :
    (b.update now u).book.limits = b.limits := by
  rcases admitted_cases b u with ⟨o, ho, hs⟩ | hr
  · rw [update_of_canStep ho hs]
  · obtain ⟨outcome, hk, _⟩ := update_of_refused now hr
    rw [hk]
    rfl

theorem limits_perform (b : Book) (now : Instant) (k : Command) :
    (b.perform now k).book.limits = b.limits := by
  cases k with
  | track o =>
    cases hf : b.find? o.id with
    | some p => rw [perform_track_of_tracked hf]
    | none =>
      rw [perform_track_of_new hf]
      rfl
  | update u => exact limits_update b now u
  | markNotFound id => exact (touches_doubt b now id .miss).limits
  | markAmbiguous id => exact (touches_doubt b now id .stall).limits
  | restore kept => exact limits_restoreFrom b kept.entries
  | purge age =>
    rcases perform_purge_cases b now age with ⟨cause, hp⟩ | ⟨cutoff, hp⟩
    · rw [hp]
    · rw [hp]
      rfl

theorem performAll_append (b : Book) (xs ys : List (Instant × Command)) :
    b.performAll (xs ++ ys) =
      (((b.performAll xs).1.performAll ys).1,
        (b.performAll xs).2 ++ ((b.performAll xs).1.performAll ys).2) := by
  induction xs generalizing b with
  | nil => simp [performAll]
  | cons e rest ih =>
    obtain ⟨now, c⟩ := e
    simp [performAll, ih, List.append_assoc]

end Book

/-- A point of time and an order for examples. -/
def Instant.epoch : Instant := ⟨1970, 1, 1, 0, 0, 0, 0, by decide⟩

def Order.sample (id : String) : Order :=
  .fresh .epoch id .trade .buy ⟨"A", "B"⟩ .one .one

end SwapDesk
