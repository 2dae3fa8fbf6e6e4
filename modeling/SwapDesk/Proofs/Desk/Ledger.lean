import SwapDesk.Proofs.Desk.Floor
import SwapDesk.Proofs.Order.Naming
import SwapDesk.Proofs.Order.Regular
import Mathlib.Data.List.Nodup

/-! The account of ids and submissions. Each id that was handed out stands for at most one request: it is
with a caller, in a submission that is not sent yet, or in a request that was sent. -/
namespace SwapDesk

namespace Note

def issued? : Note → Option String
  | issued id => some id
  | sent .. => none

/-- The order that a request was sent for. -/
def sentFor? : Note → Option String
  | issued _ => none
  | sent id .. => some id

def request? (s : Settings) : Note → Option Request
  | issued _ => none
  | sent _ i _ => some (i.request s)

end Note

def issuedIds (notes : List Note) : List String := notes.filterMap Note.issued?

def sentIds (notes : List Note) : List String := notes.filterMap Note.sentFor?

/-- A submission of the order was answered with the hash. -/
def Answered (notes : List Note) (id hash : String) : Prop :=
  ∃ i a, Note.sent id i (.ok a) ∈ notes ∧ a.hash = hash

/-- The order is as it should be, it stands under an id that was handed out for its kind, and its hash
comes from a submission of its own. -/
structure Vouched (nonce : String) (notes : List Note) (id : String) (o : Order) : Prop where
  regular : o.Regular
  named : Issuer.Names nonce o.kind id
  issued : id ∈ issuedIds notes
  answered : ∀ hash, o.txHash = some hash → Answered notes id hash

namespace Placing

/-- The id that the caller has got. -/
def id? : Placing → Option String
  | admitted .. => none
  | named _ o => some o.id
  | tracked _ _ id => some id

def Proper (nonce : String) (notes : List Note) : Placing → Prop
  | admitted .. => True
  | named _ o => Vouched nonce notes o.id o
  | tracked _ kind id => Issuer.Names nonce kind id

end Placing

/-- The id of a submission that is not sent yet. -/
def Sending.unsent? (s : Sending) : Option String := if s.reply.isNone then some s.order else none

/-- The ids that are not in a request yet. -/
def unspent (placings : List Placing) (sendings : List Sending) : List String :=
  placings.filterMap Placing.id? ++ sendings.filterMap Sending.unsent?

/-- The account is in order. -/
structure Ledger (nonce : String) (b : Business) (placings : List Placing) (notes : List Note) :
    Prop where
  issuer : Issuer.Issued nonce (issuedIds notes) b.issuer
  proper : ∀ p ∈ placings, p.Proper nonce notes
  kinds : ∀ s ∈ b.sendings, Issuer.Names nonce s.kind s.order
  replies : ∀ s ∈ b.sendings, ∀ a, s.reply = some a →
    Note.sent s.order s.instruction a.reply ∈ notes
  serials : (b.sendings.map (·.serial)).Nodup
  bound : ∀ s ∈ b.sendings, s.serial < b.serials
  undelayed : b.delays = []
  submitted : b.submitted = notes.filterMap (Note.request? b.settings)
  once : ∀ id, (unspent placings b.sendings).count id + (sentIds notes).count id ≤
    (issuedIds notes).count id

variable {nonce id hash : String} {notes more : List Note} {o : Order} {b : Business} {t : Terms}
  {before after placings : List Placing} {s : Sending} {a : Arrival Accepted} {i : Instruction}
  {p : Placing}

@[simp] theorem issuedIds_append : issuedIds (notes ++ more) = issuedIds notes ++ issuedIds more :=
  List.filterMap_append

@[simp] theorem sentIds_append : sentIds (notes ++ more) = sentIds notes ++ sentIds more :=
  List.filterMap_append

theorem count_unspent_placing (id : String) (sendings : List Sending) :
    (unspent (before ++ p :: after) sendings).count id =
      (unspent (before ++ after) sendings).count id + p.id?.toList.count id := by
  cases hp : p.id? with
  | none => simp [unspent, hp]
  | some k =>
    simp [unspent, hp, List.count_cons]
    omega

theorem count_unspent_sending (id : String) (placings : List Placing) (l l' : List Sending) :
    (unspent placings (l ++ s :: l')).count id =
      (unspent placings (l ++ l')).count id + s.unsent?.toList.count id := by
  cases hs : s.unsent? with
  | none => simp [unspent, hs]
  | some k =>
    simp [unspent, hs, List.count_cons]
    omega

theorem Answered.mono (h : Answered notes id hash) (more : List Note) :
    Answered (notes ++ more) id hash := by
  obtain ⟨i, a, hm, ha⟩ := h
  exact ⟨i, a, List.mem_append_left more hm, ha⟩

theorem Vouched.mono (h : Vouched nonce notes id o) (more : List Note) :
    Vouched nonce (notes ++ more) id o where
  regular := h.regular
  named := h.named
  issued := by
    rw [issuedIds_append]
    exact List.mem_append_left _ h.issued
  answered hash hh := (h.answered hash hh).mono more

theorem Placing.Proper.mono (h : p.Proper nonce notes) (more : List Note) :
    p.Proper nonce (notes ++ more) := by
  cases p with
  | admitted => trivial
  | named => exact Vouched.mono h more
  | tracked => exact h

theorem Instruction.isSubmission_request (i : Instruction) (s : Settings) :
    (i.request s).isSubmission = true := by
  cases i <;> rfl

namespace Ledger

theorem opening (s : Settings) (pairs : List Pair) (now : Instant) (nonce : String) :
    Ledger nonce (Desk.opening s pairs now nonce).business [] [] where
  issuer := Issuer.issued_fresh nonce
  proper := by simp
  kinds := by simp [Desk.business, Desk.opening]
  replies := by simp [Desk.business, Desk.opening]
  serials := by simp [Desk.business, Desk.opening]
  bound := by simp [Desk.business, Desk.opening]
  undelayed := rfl
  submitted := rfl
  once _ := Nat.le_refl _

/-- A caller gets on by a step that needs no new id. -/
theorem place {placed : List Placing} (h : Ledger nonce b placings notes)
    (hp : ∀ p ∈ placed, p.Proper nonce notes)
    (hc : ∀ id, (unspent placed b.sendings).count id ≤ (unspent placings b.sendings).count id) :
    Ledger nonce b placed notes where
  issuer := h.issuer
  proper := hp
  kinds := h.kinds
  replies := h.replies
  serials := h.serials
  bound := h.bound
  undelayed := h.undelayed
  submitted := h.submitted
  once id := Nat.le_trans (Nat.add_le_add_right (hc id) _) (h.once id)

theorem takeOn (h : Ledger nonce b placings notes) (i : Instruction) (t : Terms) :
    Ledger nonce b (placings ++ [.admitted i t]) notes := by
  apply h.place
  · intro p hp
    rcases List.mem_append.mp hp with hp | hp
    · exact h.proper p hp
    · cases List.mem_singleton.mp hp
      trivial
  · intro id
    rw [count_unspent_placing, List.append_nil]
    exact Nat.le_refl _

theorem proper_rest (h : Ledger nonce b (before ++ p :: after) notes) :
    p.Proper nonce notes ∧ ∀ q ∈ before ++ after, q.Proper nonce notes := by
  refine ⟨h.proper p (List.mem_append_right _ List.mem_cons_self), ?_⟩
  intro q hq
  apply h.proper q
  rcases List.mem_append.mp hq with hq | hq
  · exact List.mem_append_left _ hq
  · exact List.mem_append_right _ (List.mem_cons_of_mem p hq)

/-- A caller gives up, or hands its id on. -/
theorem drop (h : Ledger nonce b (before ++ p :: after) notes) :
    Ledger nonce b (before ++ after) notes := by
  apply h.place h.proper_rest.2
  intro id
  rw [count_unspent_placing]
  exact Nat.le_add_right _ _

theorem track (h : Ledger nonce b (before ++ .named i o :: after) notes) :
    Ledger nonce b (before ++ .tracked i o.kind o.id :: after) notes := by
  obtain ⟨hp, hrest⟩ := h.proper_rest
  apply h.place
  · intro q hq
    rcases List.mem_append.mp hq with hq | hq
    · exact hrest q (List.mem_append_left _ hq)
    · rcases List.mem_cons.mp hq with rfl | hq
      · exact hp.named
      · exact hrest q (List.mem_append_right _ hq)
  · intro id
    rw [count_unspent_placing, count_unspent_placing]
    exact Nat.le_refl _

theorem name (h : Ledger nonce b (before ++ .admitted i t :: after) notes) (now : Instant) :
    let named := b.issuer.issue t.kind t.side t.pair
    Ledger nonce { b with issuer := named.2 } (before ++ .named i (t.order now named.1) :: after)
      (notes ++ [.issued named.1]) := by
  intro named
  have hissued : issuedIds [Note.issued named.1] = [named.1] := rfl
  have hsent : sentIds [Note.issued named.1] = [] := rfl
  refine ⟨?_, ?_, h.kinds, ?_, h.serials, h.bound, h.undelayed, ?_, ?_⟩
  · rw [issuedIds_append]
    exact h.issuer.issue t.kind t.side t.pair
  · intro p hp
    rcases List.mem_append.mp hp with hp | hp
    · exact (h.proper_rest.2 p (List.mem_append_left _ hp)).mono _
    · rcases List.mem_cons.mp hp with rfl | hp
      · refine ⟨Order.regular_order t now named.1, h.issuer.names _ _ _, ?_, ?_⟩
        · simp [hissued, Terms.order, Order.fresh]
        · intro hash hh
          cases hh
      · exact (h.proper_rest.2 p (List.mem_append_right _ hp)).mono _
  · intro s hs a ha
    exact List.mem_append_left _ (h.replies s hs a ha)
  · simp [h.submitted, Note.request?]
  · intro id
    have ho := h.once id
    have hid : (Placing.named i (t.order now named.1)).id? = some named.1 := rfl
    have hno : (Placing.admitted i t).id? = none := rfl
    rw [count_unspent_placing, hno] at ho
    rw [count_unspent_placing, hid, issuedIds_append, sentIds_append, hissued, hsent,
      List.append_nil, List.count_append]
    simp only [Option.toList_none, List.count_nil, Option.toList_some] at ho ⊢
    omega

/-- Submissions come to their end, or are broken off. -/
theorem withdraw (h : Ledger nonce b placings notes) (keep : Sending → Bool) :
    Ledger nonce { b with sendings := b.sendings.filter keep } placings notes where
  issuer := h.issuer
  proper := h.proper
  kinds s hs := h.kinds s (List.mem_filter.mp hs).1
  replies s hs := h.replies s (List.mem_filter.mp hs).1
  serials := h.serials.sublist (List.filter_sublist.map _)
  bound s hs := h.bound s (List.mem_filter.mp hs).1
  undelayed := h.undelayed
  submitted := h.submitted
  once := by
    intro id
    have hsub : (unspent placings (b.sendings.filter keep)).Sublist (unspent placings b.sendings) :=
      (List.Sublist.refl _).append (List.filter_sublist.filterMap _)
    exact Nat.le_trans (Nat.add_le_add_right (hsub.count_le id) _) (h.once id)

theorem submit (h : Ledger nonce b (before ++ .tracked i kind id :: after) notes) :
    Ledger nonce { b with
      serials := b.serials + 1
      sendings := b.sendings ++ [⟨b.serials, id, kind, i, none⟩] } (before ++ after) notes := by
  refine ⟨h.issuer, h.proper_rest.2, ?_, ?_, ?_, ?_, h.undelayed, h.submitted, ?_⟩
  · intro s hs
    rcases List.mem_append.mp hs with hs | hs
    · exact h.kinds s hs
    · cases List.mem_singleton.mp hs
      exact h.proper_rest.1
  · intro s hs a ha
    rcases List.mem_append.mp hs with hs | hs
    · exact h.replies s hs a ha
    · cases List.mem_singleton.mp hs
      cases ha
  · rw [List.map_append, List.nodup_append]
    refine ⟨h.serials, List.nodup_singleton _, ?_⟩
    intro n hn m hm he
    obtain ⟨s, hs, rfl⟩ := List.mem_map.mp hn
    cases List.mem_singleton.mp hm
    exact Nat.ne_of_lt (h.bound s hs) he
  · intro s hs
    rcases List.mem_append.mp hs with hs | hs
    · exact Nat.lt_succ_of_lt (h.bound s hs)
    · cases List.mem_singleton.mp hs
      exact Nat.lt_succ_self _
  · intro k
    have ho := h.once k
    have hid : (Placing.tracked i kind id).id? = some id := rfl
    have hs : (Sending.mk b.serials id kind i none).unsent? = some id := rfl
    rw [count_unspent_placing, hid] at ho
    rw [count_unspent_sending, hs, List.append_nil]
    exact ho

end Ledger

/-- The submission as it is after its request was sent. -/
def Sending.answered (s : Sending) (a : Arrival Accepted) : Sending := { s with reply := some a }

/-- The submissions with one of them answered. -/
def answer (sendings : List Sending) (n : Nat) (a : Arrival Accepted) : List Sending :=
  sendings.map fun t => if t.serial = n then t.answered a else t

/-- Serials tell submissions apart. -/
theorem exists_split {sendings : List Sending} (hn : (sendings.map (·.serial)).Nodup)
    (hs : s ∈ sendings) :
    ∃ l l', sendings = l ++ s :: l' ∧ (∀ t ∈ l ++ l', t.serial ≠ s.serial) := by
  obtain ⟨l, l', rfl⟩ := List.append_of_mem hs
  refine ⟨l, l', rfl, ?_⟩
  intro t ht he
  have hperm : (l ++ s :: l').Perm (s :: (l ++ l')) := List.perm_middle
  have hcons := (hperm.map (·.serial)).nodup_iff.mp hn
  exact (List.nodup_cons.mp hcons).1 (List.mem_map.mpr ⟨t, ht, he⟩)

theorem answer_split {l l' : List Sending} (h : ∀ t ∈ l ++ l', t.serial ≠ s.serial)
    (a : Arrival Accepted) : answer (l ++ s :: l') s.serial a = l ++ s.answered a :: l' := by
  have hkeep : ∀ m : List Sending, (∀ t ∈ m, t.serial ≠ s.serial) →
      answer m s.serial a = m := by
    intro m hm
    unfold answer
    rw [List.map_congr_left (g := id)]
    · exact List.map_id m
    · intro t ht
      simp [hm t ht]
  have hl := hkeep l fun t ht => h t (List.mem_append_left _ ht)
  have hl' := hkeep l' fun t ht => h t (List.mem_append_right _ ht)
  unfold answer at hl hl' ⊢
  rw [List.map_append, List.map_cons, hl, hl', if_pos rfl]

namespace Ledger

/-- The request of a submission is sent. -/
theorem post (h : Ledger nonce b placings notes) (hs : s ∈ b.sendings) (hr : s.reply = none)
    (a : Arrival Accepted) :
    Ledger nonce { b with
      sendings := answer b.sendings s.serial a
      submitted := b.submitted ++ [s.instruction.request b.settings] } placings
      (notes ++ [.sent s.order s.instruction a.reply]) := by
  obtain ⟨l, l', hsplit, hdiff⟩ := exists_split h.serials hs
  have hperm : b.sendings.Perm (s :: (l ++ l')) := hsplit ▸ List.perm_middle
  have hmem : ∀ t, t ∈ answer b.sendings s.serial a → t = s.answered a ∨ t ∈ b.sendings := by
    intro t ht
    rw [hsplit, answer_split hdiff] at ht
    rw [hsplit]
    rcases List.mem_append.mp ht with ht | ht
    · exact Or.inr (List.mem_append_left _ ht)
    · rcases List.mem_cons.mp ht with rfl | ht
      · exact Or.inl rfl
      · exact Or.inr (List.mem_append_right _ (List.mem_cons_of_mem s ht))
  have hserials : (answer b.sendings s.serial a).map (·.serial) = b.sendings.map (·.serial) := by
    rw [hsplit, answer_split hdiff]
    simp [Sending.answered]
  have hissued : issuedIds [Note.sent s.order s.instruction a.reply] = [] := rfl
  have hsent : sentIds [Note.sent s.order s.instruction a.reply] = [s.order] := rfl
  refine ⟨?_, ?_, ?_, ?_, hserials ▸ h.serials, ?_, h.undelayed, ?_, ?_⟩
  · rw [issuedIds_append, hissued, List.append_nil]
    exact h.issuer
  · intro p hp
    exact (h.proper p hp).mono _
  · intro t ht
    rcases hmem t ht with rfl | ht
    · exact h.kinds s hs
    · exact h.kinds t ht
  · intro t ht a' ha'
    rcases hmem t ht with rfl | ht
    · cases ha'
      simp [Sending.answered]
    · exact List.mem_append_left _ (h.replies t ht a' ha')
  · intro t ht
    rcases hmem t ht with rfl | ht
    · exact h.bound s hs
    · exact h.bound t ht
  · simp [h.submitted, Note.request?]
  · intro id
    have ho := h.once id
    have hunsent : s.unsent? = some s.order := by simp [Sending.unsent?, hr]
    have hdone : (s.answered a).unsent? = none := rfl
    rw [hsplit, count_unspent_sending, hunsent] at ho
    simp only [hsplit, answer_split hdiff, count_unspent_sending, hdone, issuedIds_append,
      sentIds_append, hissued, hsent, List.append_nil, List.count_append, Option.toList_none,
      Option.toList_some, List.count_nil] at ho ⊢
    omega

end Ledger
end SwapDesk
