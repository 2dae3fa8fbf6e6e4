import SwapDesk.Order.Issuer
import SwapDesk.Proofs.Order.Pairing
import Mathlib.Algebra.Group.Nat.Defs
import Std.Data.String.ToNat

/-! What an id tells: the kind of its order, and the number that it was made from. Tokens may contain
dashes too, so an id is read from both of its ends. -/
namespace SwapDesk.Issuer

variable {nonce : String} {kind kind' : OrderKind} {side side' : Side} {pair pair' : Pair}
  {n m : Nat} {id : String}

theorem dash_notMem_activity (kind : OrderKind) (side : Side) :
    '-' ∉ (activity kind side).toList := by
  cases kind <;> cases side <;> decide

theorem dash_notMem_toString (n : Nat) : '-' ∉ (toString n).toList := by
  intro h
  have hn : (toString n).toList = Nat.toDigits 10 n := Nat.toList_repr
  rw [hn] at h
  have hd := Nat.isDigit_of_mem_toDigits (by decide) (by decide) h
  exact absurd hd (by decide)

theorem kind_of_activity (h : activity kind side = activity kind' side') : kind = kind' := by
  revert h
  cases kind <;> cases side <;> cases kind' <;> cases side' <;> decide

/-- The text before the first dash is the activity. -/
theorem takeWhile_idText (nonce : String) (kind : OrderKind) (side : Side) (pair : Pair) (n : Nat) :
    (idText nonce kind side pair n).toList.takeWhile (· != '-') = (activity kind side).toList := by
  have hid : (idText nonce kind side pair n).toList =
      (activity kind side).toList ++ '-' :: (pair.base ++ "-" ++ pair.quote ++ "-" ++ toString n ++
        nonce).toList := by
    simp [idText, String.toList_append]
  rw [hid]
  exact (Pair.split_dash (dash_notMem_activity kind side) _).1

/-- Once the nonce is taken off, the text after the last dash is the number. -/
theorem takeWhile_reverse_idText (nonce : String) (kind : OrderKind) (side : Side) (pair : Pair)
    (n : Nat) :
    ∃ text, (idText nonce kind side pair n).toList = text ++ nonce.toList ∧
      text.reverse.takeWhile (· != '-') = (toString n).toList.reverse := by
  refine ⟨(activity kind side ++ "-" ++ pair.base ++ "-" ++ pair.quote ++ "-" ++ toString n).toList,
    by simp [idText, String.toList_append], ?_⟩
  have htext : (activity kind side ++ "-" ++ pair.base ++ "-" ++ pair.quote ++ "-" ++
      toString n).toList.reverse = (toString n).toList.reverse ++ '-' ::
        (activity kind side ++ "-" ++ pair.base ++ "-" ++ pair.quote).toList.reverse := by
    simp [String.toList_append]
  have hdash : '-' ∉ (toString n).toList.reverse := by
    rw [List.mem_reverse]
    exact dash_notMem_toString n
  rw [htext]
  exact (Pair.split_dash hdash _).1

theorem kind_of_idText
    (h : idText nonce kind side pair n = idText nonce kind' side' pair' m) : kind = kind' := by
  have ha := takeWhile_idText nonce kind side pair n
  rw [h, takeWhile_idText] at ha
  exact (kind_of_activity (String.toList_inj.mp ha)).symm

theorem number_of_idText
    (h : idText nonce kind side pair n = idText nonce kind' side' pair' m) : n = m := by
  obtain ⟨text, ht, hn⟩ := takeWhile_reverse_idText nonce kind side pair n
  obtain ⟨text', ht', hm⟩ := takeWhile_reverse_idText nonce kind' side' pair' m
  rw [h, ht'] at ht
  have he : text' = text := List.append_cancel_right ht
  rw [he, hn] at hm
  exact Nat.repr_inj.mp (String.toList_inj.mp (List.reverse_inj.mp hm))

/-- The id is one for orders of this kind. -/
def Names (nonce : String) (kind : OrderKind) (id : String) : Prop :=
  ∃ side pair n, id = idText nonce kind side pair n

theorem Names.kind_eq (h : Names nonce kind id) (h' : Names nonce kind' id) : kind = kind' := by
  obtain ⟨side, pair, n, rfl⟩ := h
  obtain ⟨side', pair', m, he⟩ := h'
  exact kind_of_idText he

/-- The state of an issuer that has handed out these ids. -/
structure Issued (nonce : String) (ids : List String) (s : Issuer) : Prop where
  suffix : s.nonce = nonce
  next : s.next = UInt64.ofNat ids.length
  texts : ∀ i (h : i < ids.length), ∃ kind side pair,
    ids[i] = idText nonce kind side pair (UInt64.ofNat i).toNat

variable {ids : List String} {s : Issuer}

theorem issued_fresh (nonce : String) : Issued nonce [] (fresh nonce) where
  suffix := rfl
  next := rfl
  texts := by
    intro i hi
    cases hi

theorem Issued.names (h : Issued nonce ids s) (kind : OrderKind) (side : Side) (pair : Pair) :
    Names nonce kind (s.issue kind side pair).1 :=
  ⟨side, pair, s.next.toNat, by simp [issue, h.suffix]⟩

theorem Issued.issue (h : Issued nonce ids s) (kind : OrderKind) (side : Side) (pair : Pair) :
    Issued nonce (ids ++ [(s.issue kind side pair).1]) (s.issue kind side pair).2 where
  suffix := h.suffix
  next := by
    simp only [Issuer.issue, h.next, List.length_append, List.length_singleton]
    exact (UInt64.ofNat_add _ _).symm
  texts := by
    intro i hi
    by_cases hlt : i < ids.length
    · rw [List.getElem_append_left hlt]
      exact h.texts i hlt
    · have he : i = ids.length := by
        simp only [List.length_append, List.length_singleton] at hi
        omega
      subst he
      refine ⟨kind, side, pair, ?_⟩
      rw [List.getElem_concat_length rfl]
      simp only [Issuer.issue, h.suffix, h.next]

/-- No id is handed out twice until the number, a 64-bit word, begins again. -/
theorem Issued.nodup (h : Issued nonce ids s) (hlen : ids.length ≤ 2 ^ 64) : ids.Nodup := by
  rw [List.Nodup, List.pairwise_iff_getElem]
  intro i j hi hj hij he
  obtain ⟨kind, side, pair, hti⟩ := h.texts i hi
  obtain ⟨kind', side', pair', htj⟩ := h.texts j hj
  rw [hti, htj] at he
  have hn := number_of_idText he
  simp only [UInt64.toNat_ofNat'] at hn
  omega

/-! ### Several ids, and several issuers -/

variable {calls : List (OrderKind × Side × Pair)} {nonce' : String}

/-- The ids for these orders, one after the other, and the issuer after them. -/
def issueAll (s : Issuer) : List (OrderKind × Side × Pair) → List String × Issuer
  | [] => ([], s)
  | (kind, side, pair) :: calls =>
    let first := s.issue kind side pair
    let rest := first.2.issueAll calls
    (first.1 :: rest.1, rest.2)

theorem length_issueAll (s : Issuer) (calls : List (OrderKind × Side × Pair)) :
    (s.issueAll calls).1.length = calls.length := by
  induction calls generalizing s with
  | nil => rfl
  | cons call calls ih => exact congrArg (· + 1) (ih _)

theorem Issued.issueAll (h : Issued nonce ids s) (calls : List (OrderKind × Side × Pair)) :
    Issued nonce (ids ++ (s.issueAll calls).1) (s.issueAll calls).2 := by
  induction calls generalizing ids s with
  | nil =>
    rw [Issuer.issueAll, List.append_nil]
    exact h
  | cons call calls ih =>
    obtain ⟨kind, side, pair⟩ := call
    have hrest := ih (h.issue kind side pair)
    rwa [List.append_assoc] at hrest

theorem issued_issueAll (nonce : String) (calls : List (OrderKind × Side × Pair)) :
    Issued nonce ((fresh nonce).issueAll calls).1 ((fresh nonce).issueAll calls).2 :=
  (issued_fresh nonce).issueAll calls

/-- An id ends with the nonce of its issuer. The number before it does not matter, because all nonces
are of one length. -/
theorem nonce_of_idText (hlen : nonce.length = nonce'.length)
    (h : idText nonce kind side pair n = idText nonce' kind' side' pair' m) : nonce = nonce' := by
  obtain ⟨text, ht, _⟩ := takeWhile_reverse_idText nonce kind side pair n
  obtain ⟨text', ht', _⟩ := takeWhile_reverse_idText nonce' kind' side' pair' m
  rw [h, ht'] at ht
  have hlists : nonce.toList.length = nonce'.toList.length := by
    rw [String.length_toList, String.length_toList, hlen]
  exact String.toList_inj.mp (List.append_inj_right' ht.symm hlists)

theorem Issued.exists_idText (h : Issued nonce ids s) {id : String} (hid : id ∈ ids) :
    ∃ kind side pair n, id = idText nonce kind side pair n := by
  obtain ⟨i, hi, rfl⟩ := List.mem_iff_getElem.mp hid
  obtain ⟨kind, side, pair, ht⟩ := h.texts i hi
  exact ⟨kind, side, pair, _, ht⟩

/-- Whatever the orders and the tokens of their pairs, an issuer gives no id twice among its first
`2 ^ 64`, and issuers with different nonces of eight characters never give the same id. -/
theorem issued_ids_distinct (nonce nonce' : String) (calls calls' : List (OrderKind × Side × Pair)) :
    (calls.length ≤ 2 ^ 64 → ((fresh nonce).issueAll calls).1.Nodup) ∧
    (nonce.length = 8 → nonce'.length = 8 → nonce ≠ nonce' →
      ∀ id ∈ ((fresh nonce).issueAll calls).1, id ∉ ((fresh nonce').issueAll calls').1) := by
  refine ⟨fun hmany => ?_, fun hlen hlen' hne id hid hid' => ?_⟩
  · exact (issued_issueAll nonce calls).nodup ((length_issueAll _ calls).symm ▸ hmany)
  · obtain ⟨kind, side, pair, n, rfl⟩ := (issued_issueAll nonce calls).exists_idText hid
    obtain ⟨kind', side', pair', m, he⟩ := (issued_issueAll nonce' calls').exists_idText hid'
    exact hne (nonce_of_idText (hlen.trans hlen'.symm) he)

/-- Pairs that are written alike, and nonces of digits. -/
theorem ids_of_dashed_tokens_distinct :
    ((fresh "10000000").issueAll [(.trade, .buy, ⟨"A-B", "C"⟩), (.trade, .buy, ⟨"A", "B-C"⟩)]).1 =
        ["buy-A-B-C-010000000", "buy-A-B-C-110000000"] ∧
      ["buy-A-B-C-010000000", "buy-A-B-C-110000000"].Nodup ∧
      "buy-A-B-C-010000000" ∉ ((fresh "00000001").issueAll [(.trade, .buy, ⟨"A-B", "C"⟩)]).1 := by
  obtain ⟨honce, hapart⟩ := issued_ids_distinct "10000000" "00000001"
    [(.trade, .buy, ⟨"A-B", "C"⟩), (.trade, .buy, ⟨"A", "B-C"⟩)] [(.trade, .buy, ⟨"A-B", "C"⟩)]
  exact ⟨rfl, honce (by decide), hapart rfl rfl (by decide) _ List.mem_cons_self⟩

end SwapDesk.Issuer
