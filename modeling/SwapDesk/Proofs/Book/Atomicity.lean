import SwapDesk.Proofs.Book.Operations

/-! A report is applied as a whole or not at all. What is refused leaves no trace, neither in the book nor
in the events. -/
namespace SwapDesk

/-- The order before and after a report that was applied: it is in the report's state and has what else
the report brings, and the rest of its data is as it was. -/
structure Order.Follows (now : Instant) (u : Update) (o p : Order) : Prop where
  state : p.state = u.state
  txHash : p.txHash = u.txHash.or o.txHash
  extras : p.extras = u.extras.getD o.extras
  failure : p.failure = u.failure.or o.failure
  fee : p.fee = u.fee.getD o.fee
  /-- An asset without a fee does not count. -/
  feeAsset : p.feeAsset = if u.fee.isSome then u.feeAsset.or o.feeAsset else o.feeAsset
  notFound : p.notFound = o.notFound
  ambiguous : p.ambiguous = o.ambiguous
  id : p.id = o.id
  pair : p.pair = o.pair
  side : p.side = o.side
  kind : p.kind = o.kind
  price : p.price = o.price
  amount : p.amount = o.amount
  createdAt : p.createdAt = o.createdAt
  updatedAt : p.updatedAt = now

theorem Order.follows_amend (o : Order) (now : Instant) (u : Update) :
    o.Follows now u (o.amend now u) where
  state := rfl
  txHash := by cases h : u.txHash <;> simp [amend, h]
  extras := rfl
  failure := by cases h : u.failure <;> simp [amend, h]
  fee := rfl
  feeAsset := by cases h : u.feeAsset <;> simp [amend, h]
  notFound := rfl
  ambiguous := rfl
  id := rfl
  pair := rfl
  side := rfl
  kind := rfl
  price := rfl
  amount := rfl
  createdAt := rfl
  updatedAt := rfl

namespace Book

variable {b : Book} {now : Instant} {u : Update} {id other : String} {o p : Order}
  {r : Rejection} {s t : OrderState}

/-- The answer to a report that asks for a step that an active order may not take. -/
def Astray (b : Book) (u : Update) (outcome : Outcome) : Prop :=
  ∃ o, b.find? u.order = some o ∧ o.state.isTerminal = false ∧ o.state.canStep u.state = false ∧
    outcome = .rejected (.step o.state u.state)

theorem refusal_of_refused (now : Instant)
    (h : ∀ o, b.find? u.order = some o → o.state.canStep u.state = false) :
    ∃ outcome, (Late b u.order outcome ∨ Astray b u outcome) ∧ b.update now u = b.keep outcome := by
  cases ho : b.find? u.order with
  | none => exact ⟨_, .inl (.unknown ho), by simp [update, ho]⟩
  | some o =>
    have hs := h o ho
    cases ht : o.state.isTerminal with
    | true => exact ⟨_, .inl (.terminal ho ht), by simp [update, ho, ht]⟩
    | false => exact ⟨_, .inr ⟨o, ho, ht, hs, rfl⟩, by simp [update, ho, ht, hs]⟩

theorem Late.not_rejected {outcome : Outcome} (h : Late b id outcome) : outcome ≠ .rejected r := by
  cases h <;> exact nofun

theorem not_applied_of_refusal {outcome : Outcome}
    (h : Late b u.order outcome ∨ Astray b u outcome) : outcome ≠ .applied s t := by
  rcases h with hl | ⟨o, _, _, _, rfl⟩
  · cases hl <;> exact nofun
  · exact nofun

theorem update_applied_iff :
    (∃ s t, (b.update now u).outcome = .applied s t) ↔
      ∃ o, b.find? u.order = some o ∧ o.state.isTerminal = false ∧ o.state.canStep u.state = true := by
  constructor
  · rintro ⟨s, t, h⟩
    rcases admitted_cases b u with ⟨o, ho, hs⟩ | hr
    · exact ⟨o, ho, OrderState.isTerminal_of_canStep hs, hs⟩
    · obtain ⟨outcome, hrefusal, hu⟩ := refusal_of_refused now hr
      rw [hu] at h
      exact (not_applied_of_refusal hrefusal h).elim
  · rintro ⟨o, ho, _, hs⟩
    rw [update_of_canStep ho hs]
    exact ⟨_, _, rfl⟩

theorem follows_of_applied (h : (b.update now u).outcome = .applied s t) :
    ∃ o p, b.find? u.order = some o ∧ s = o.state ∧ t = u.state ∧
      (b.update now u).book.find? u.order = some p ∧ o.Follows now u p ∧
      ∀ other, other ≠ u.order → (b.update now u).book.find? other = b.find? other := by
  obtain ⟨o, ho, _, hs⟩ := update_applied_iff.mp ⟨s, t, h⟩
  rw [update_of_canStep ho hs] at h ⊢
  cases h
  refine ⟨o, o.amend now u, ho, rfl, rfl, Dict.find?_insert_self .., o.follows_amend now u, ?_⟩
  intro other hne
  exact Dict.find?_insert_ne _ hne _

theorem refusal_of_not_applied (h : ∀ s t, (b.update now u).outcome ≠ .applied s t) :
    (Late b u.order (b.update now u).outcome ∨ Astray b u (b.update now u).outcome) ∧
      b.update now u = b.keep (b.update now u).outcome := by
  rcases admitted_cases b u with ⟨o, ho, hs⟩ | hr
  · rw [update_of_canStep ho hs] at h
    exact (h _ _ rfl).elim
  · obtain ⟨outcome, hrefusal, hu⟩ := refusal_of_refused now hr
    rw [hu]
    exact ⟨hrefusal, rfl⟩

theorem track_eq_error_iff : b.track o = .error r ↔ r = .duplicate o.id ∧ ∃ p, b.find? o.id = some p := by
  cases h : b.find? o.id with
  | none => simp [track_of_new h]
  | some p => simp [track_of_tracked h, eq_comm]

/-- An active order may always fail, so a count that is full is no obstacle. -/
theorem doubt_not_rejected {d : Doubt} : (b.doubt now id d).outcome ≠ .rejected r := by
  have hd := doubts b now id d
  generalize b.doubt now id d = c at hd
  cases hd with
  | lapses | counts | sticks => exact nofun
  | late hl => exact hl.not_rejected

/-- A report is applied exactly if its order is tracked, active and may take the step. Then the order
follows the report, and no other order changes. Any other report changes nothing and publishes nothing;
its answer says whether it came too early, too late or asked for a wrong step. The same goes for an order
that is to be tracked under an id that is taken, and for counting a report about an order that is unknown
or terminal. A count is never refused for the step that it leads to. -/
theorem reports_apply_wholly_or_not (b : Book) (now : Instant) :
    (∀ u,
      ((∃ s t, (b.update now u).outcome = .applied s t) ↔
        ∃ o, b.find? u.order = some o ∧ o.state.isTerminal = false ∧
          o.state.canStep u.state = true) ∧
      (∀ s t, (b.update now u).outcome = .applied s t →
        ∃ o p, b.find? u.order = some o ∧ s = o.state ∧ t = u.state ∧
          (b.update now u).book.find? u.order = some p ∧ o.Follows now u p ∧
          ∀ other, other ≠ u.order → (b.update now u).book.find? other = b.find? other) ∧
      ((∀ s t, (b.update now u).outcome ≠ .applied s t) →
        (Late b u.order (b.update now u).outcome ∨ Astray b u (b.update now u).outcome) ∧
          b.update now u = b.keep (b.update now u).outcome)) ∧
    (∀ o r, b.track o = .error r ↔ r = .duplicate o.id ∧ ∃ p, b.find? o.id = some p) ∧
    (∀ o r, b.track o = .error r →
      b.perform now (.track o) = ⟨b, .outcome (.rejected r), [], false⟩) ∧
    (∀ id, (∀ o, b.find? id = some o → o.state.isTerminal = true) →
      (∃ outcome, Late b id outcome ∧ b.markNotFound now id = b.keep outcome) ∧
      ∃ outcome, Late b id outcome ∧ b.markAmbiguous now id = b.keep outcome) ∧
    ∀ id r, (b.markNotFound now id).outcome ≠ .rejected r ∧
      (b.markAmbiguous now id).outcome ≠ .rejected r := by
  refine ⟨fun u => ⟨update_applied_iff, fun s t => follows_of_applied, refusal_of_not_applied⟩,
    fun o r => track_eq_error_iff, ?_,
    fun id hi => ⟨late_doubt now .miss hi, late_doubt now .stall hi⟩, fun id r => ⟨?_, ?_⟩⟩
  rotate_left
  · exact doubt_not_rejected (d := .miss)
  · exact doubt_not_rejected (d := .stall)
  intro o r h
  obtain ⟨rfl, p, hp⟩ := track_eq_error_iff.mp h
  exact perform_track_of_tracked hp

/-- A swap is accepted under a hash and pays a fee; the gateway names the asset, but no fee, later on. Then
somebody takes it for a new one. -/
theorem accepted_swap_follows_reports :
    let tracked := ((fresh .default).performAll
      [(.epoch, .track (.sample "a")), (.epoch, .track (.sample "b"))]).1
    let accepted : Update :=
      { Update.toState "a" .opened with txHash := some "x", fee := some .one, feeAsset := some "A" }
    let afterwards : Update := { Update.toState "a" .opened with feeAsset := some "B" }
    let b := ((tracked.update .epoch accepted).book.update .epoch afterwards).book
    (∃ p, b.find? "a" = some p ∧ p.state = .opened ∧ p.txHash = some "x" ∧ p.fee = .one ∧
      p.feeAsset = some "A" ∧ p.amount = .one) ∧
    b.find? "b" = some (.sample "b") ∧
    b.update .epoch (.toState "a" .pendingCreate) =
      b.keep (.rejected (.step .opened .pendingCreate)) := by
  intro tracked accepted afterwards b
  obtain ⟨hfirst, _⟩ := reports_apply_wholly_or_not tracked .epoch
  obtain ⟨hsecond, _⟩ := reports_apply_wholly_or_not (tracked.update .epoch accepted).book .epoch
  obtain ⟨hthird, _⟩ := reports_apply_wholly_or_not b .epoch
  obtain ⟨o, p, ho, _, _, hp, hop, hothers⟩ := (hfirst accepted).2.1 .pendingCreate .opened (by decide)
  obtain ⟨p', q, hp', _, _, hq, hpq, hlater⟩ := (hsecond afterwards).2.1 .opened .opened (by decide)
  obtain rfl : p' = p := Option.some.inj (hp'.symm.trans hp)
  obtain rfl : o = .sample "a" := Option.some.inj (ho.symm.trans rfl)
  refine ⟨⟨q, hq, hpq.state, ?_, ?_, ?_, ?_⟩, ?_, ?_⟩
  · rw [hpq.txHash, hop.txHash]
    rfl
  · rw [hpq.fee, hop.fee]
    rfl
  · rw [hpq.feeAsset, hop.feeAsset]
    rfl
  · rw [hpq.amount, hop.amount]
    rfl
  · exact ((hlater "b" (by decide)).trans (hothers "b" (by decide))).trans rfl
  · have houtcome : (b.update .epoch (.toState "a" .pendingCreate)).outcome =
        .rejected (.step .opened .pendingCreate) := by decide
    have hkept := ((hthird (.toState "a" .pendingCreate)).2.2 (by rw [houtcome]; exact nofun)).2
    rw [houtcome] at hkept
    exact hkept

end Book
end SwapDesk
