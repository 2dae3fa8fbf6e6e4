import SwapDesk.Order.Pair
import SwapDesk.Proofs.Text.Uppercase
import Mathlib.Data.List.TakeWhile

/-! Trading pairs and their texts. A pair is read from its own text exactly if its tokens are such as
reading gives them. -/
namespace SwapDesk.Pair

variable {cs base quote : List Char} {p : Pair}

/-- Both tokens are there, without a dash and in upper case, and there are no blanks at the ends. -/
structure Canonical (p : Pair) : Prop where
  base_ne : p.base ≠ ""
  quote_ne : p.quote ≠ ""
  base_dash : '-' ∉ p.base.toList
  quote_dash : '-' ∉ p.quote.toList
  base_upper : upper p.base = p.base
  quote_upper : upper p.quote = p.quote
  front : Fronted p.base.toList
  back : Fronted p.quote.toList.reverse

theorem toList_toText (p : Pair) : p.toText.toList = p.base.toList ++ '-' :: p.quote.toList := by
  simp [toText, String.toList_append]

/-- Blanks are dropped up to the dash at most. -/
theorem dropBlanks_dash (cs rest : List Char) :
    dropBlanks (cs ++ '-' :: rest) = dropBlanks cs ++ '-' :: rest := by
  induction cs with
  | nil => rfl
  | cons c cs ih =>
    cases hc : isBlank c with
    | true =>
      rw [List.cons_append, dropBlanks, List.dropWhile_cons_of_pos hc, dropBlanks,
        List.dropWhile_cons_of_pos hc]
      exact ih
    | false =>
      rw [List.cons_append, dropBlanks_cons hc, dropBlanks_cons hc]
      rfl

theorem trimChars_dash (base quote : List Char) :
    trimChars (base ++ '-' :: quote) =
      dropBlanks base ++ '-' :: (dropBlanks quote.reverse).reverse := by
  have hback : (dropBlanks base ++ '-' :: quote).reverse =
      quote.reverse ++ '-' :: (dropBlanks base).reverse := by simp
  rw [trimChars, dropBlanks_dash, hback, dropBlanks_dash]
  simp

/-- The parts before and after the first dash. -/
theorem split_dash (h : '-' ∉ base) (quote : List Char) :
    (base ++ '-' :: quote).takeWhile (· != '-') = base ∧
      (base ++ '-' :: quote).dropWhile (· != '-') = '-' :: quote := by
  have hall : ∀ c ∈ base, (c != '-') = true := by
    intro c hc
    exact bne_iff_ne.mpr fun he => h (he ▸ hc)
  constructor
  · rw [List.takeWhile_append_of_pos hall]
    simp
  · rw [List.dropWhile_append_of_pos hall]
    simp

theorem ofText?_of_trimmed {raw : String} (ht : trimChars raw.toList = base ++ '-' :: quote)
    (hb : '-' ∉ base) :
    ofText? raw = if base = [] ∨ quote = [] ∨ '-' ∈ quote then none
      else some ⟨upper (String.ofList base), upper (String.ofList quote)⟩ := by
  obtain ⟨htake, hdrop⟩ := split_dash hb quote
  simp only [ofText?, ht, htake, hdrop]

/-- Two tokens around a dash, both there and none of them with a dash of its own. -/
structure Tokens (base quote : List Char) : Prop where
  base_ne : base ≠ []
  quote_ne : quote ≠ []
  base_dash : '-' ∉ base
  quote_dash : '-' ∉ quote

theorem Tokens.ofText?_eq {raw : String} (h : Tokens base quote)
    (ht : trimChars raw.toList = base ++ '-' :: quote) :
    ofText? raw = some ⟨upper (String.ofList base), upper (String.ofList quote)⟩ := by
  rw [ofText?_of_trimmed ht h.base_dash, if_neg]
  rintro (hb | hq | hd)
  · exact h.base_ne hb
  · exact h.quote_ne hq
  · exact h.quote_dash hd

theorem Canonical.tokens (h : p.Canonical) : Tokens p.base.toList p.quote.toList where
  base_ne he := h.base_ne (String.toList_eq_nil_iff.mp he)
  quote_ne he := h.quote_ne (String.toList_eq_nil_iff.mp he)
  base_dash := h.base_dash
  quote_dash := h.quote_dash

theorem Canonical.ofText?_toText (h : p.Canonical) : ofText? p.toText = some p := by
  have ht : trimChars p.toText.toList = p.base.toList ++ '-' :: p.quote.toList := by
    rw [toList_toText, trimChars_dash, dropBlanks_of_fronted h.front, dropBlanks_of_fronted h.back,
      List.reverse_reverse]
  rw [h.tokens.ofText?_eq ht, String.ofList_toList, String.ofList_toList, h.base_upper,
    h.quote_upper]

/-- A pair that is read comes from a text with one dash in it. -/
theorem tokens_of_ofText? {raw : String} (ht : trimChars raw.toList = base ++ '-' :: quote)
    (h : ofText? raw = some p) :
    Tokens base quote ∧ p = ⟨upper (String.ofList base), upper (String.ofList quote)⟩ := by
  by_cases hb : '-' ∈ base
  · obtain ⟨first, rest, rfl, hfirst⟩ := List.eq_append_cons_of_mem hb
    rw [List.append_assoc, List.cons_append] at ht
    rw [ofText?_of_trimmed ht hfirst, if_pos (by simp)] at h
    cases h
  · rw [ofText?_of_trimmed ht hb] at h
    split at h
    · cases h
    · rename_i hparts
      rw [not_or, not_or] at hparts
      cases h
      exact ⟨⟨hparts.1, hparts.2.1, hb, hparts.2.2⟩, rfl⟩

theorem dash_mem_of_ofText? {raw : String} (h : ofText? raw = some p) : '-' ∈ raw.toList := by
  apply Decidable.byContradiction
  intro hd
  have htrim : ∀ c ∈ trimChars raw.toList, (c != '-') = true := by
    intro c hc
    have hback := (List.dropWhile_sublist isBlank).subset (List.mem_reverse.mp hc)
    have hraw := (List.dropWhile_sublist isBlank).subset (List.mem_reverse.mp hback)
    exact bne_iff_ne.mpr fun he => hd (he ▸ hraw)
  have hnone : (trimChars raw.toList).dropWhile (· != '-') = [] := List.dropWhile_eq_nil_iff.mpr htrim
  rw [ofText?] at h
  simp only [hnone] at h
  cases h

/-- What is read has two tokens, without blanks at the outer ends. -/
theorem exists_tokens {raw : String} (h : ofText? raw = some p) :
    ∃ base quote, trimChars raw.toList = base ++ '-' :: quote ∧ Tokens base quote ∧
      Fronted base ∧ Fronted quote.reverse ∧
      p = ⟨upper (String.ofList base), upper (String.ofList quote)⟩ := by
  obtain ⟨first, last, hraw⟩ := List.append_of_mem (dash_mem_of_ofText? h)
  have ht : trimChars raw.toList = dropBlanks first ++ '-' :: (dropBlanks last.reverse).reverse := by
    rw [hraw, trimChars_dash]
  obtain ⟨htokens, hp⟩ := tokens_of_ofText? ht h
  refine ⟨_, _, ht, htokens, fronted_dropBlanks first, ?_, hp⟩
  rw [List.reverse_reverse]
  exact fronted_dropBlanks last.reverse

/-- Reading gives canonical pairs only: blanks at the ends are gone, and upper case neither brings them
back nor changes upper case. -/
theorem canonical_of_ofText? {raw : String} (h : ofText? raw = some p) : p.Canonical := by
  obtain ⟨base, quote, _, htokens, hfront, hback, rfl⟩ := exists_tokens h
  exact {
    base_ne := upper_ne_empty htokens.base_ne
    quote_ne := upper_ne_empty htokens.quote_ne
    base_dash := dash_notMem_upper htokens.base_dash
    quote_dash := dash_notMem_upper htokens.quote_dash
    base_upper := upper_upper _
    quote_upper := upper_upper _
    front := toList_upper _ ▸ hfront.upper
    back := toList_upper _ ▸ hback.upper_reverse }

theorem ofText?_toText_iff : ofText? p.toText = some p ↔ p.Canonical :=
  ⟨canonical_of_ofText?, Canonical.ofText?_toText⟩

theorem ofText?_eq_some_iff {raw : String} :
    ofText? raw = some p ↔ ∃ base quote : String, trim raw = base ++ "-" ++ quote ∧
      Tokens base.toList quote.toList ∧ p = ⟨upper base, upper quote⟩ := by
  constructor
  · intro h
    obtain ⟨base, quote, ht, htokens, _, _, rfl⟩ := exists_tokens h
    refine ⟨String.ofList base, String.ofList quote, ?_, ?_, rfl⟩
    · apply String.toList_inj.mp
      simp [trim, ht, String.toList_append]
    · rwa [String.toList_ofList, String.toList_ofList]
  · rintro ⟨base, quote, ht, htokens, rfl⟩
    have hchars : trimChars raw.toList = base.toList ++ '-' :: quote.toList := by
      rw [← String.toList_ofList (l := trimChars raw.toList), ← trim, ht]
      simp [String.toList_append]
    rw [htokens.ofText?_eq hchars, String.ofList_toList, String.ofList_toList]

/-- Canonical pairs are told by their texts. -/
theorem Canonical.toText_inj {q : Pair} (hp : p.Canonical) (hq : q.Canonical) :
    p = q ↔ p.toText = q.toText := by
  refine ⟨congrArg toText, fun h => ?_⟩
  have hread := hp.ofText?_toText
  rw [h, hq.ofText?_toText, Option.some.injEq] at hread
  exact hread.symm

/-- Trimming takes off the blanks at both ends and nothing else. A text is read as a pair exactly if,
trimmed, it is two tokens with a dash between them, both there and without a dash of their own; the
pair has them in upper case. Written, it is read as the same pair again, and pairs that were read are
equal exactly if they are written alike. -/
theorem texts_tell_pairs :
    (∀ raw text, trim raw = text ↔ Framed raw.toList text.toList) ∧
    (∀ raw p, ofText? raw = some p ↔ ∃ base quote : String, trim raw = base ++ "-" ++ quote ∧
      Tokens base.toList quote.toList ∧ p = ⟨upper base, upper quote⟩) ∧
    (∀ raw p, ofText? raw = some p → ofText? p.toText = some p) ∧
    ∀ raw raw' p p', ofText? raw = some p → ofText? raw' = some p' → (p = p' ↔ p.toText = p'.toText) :=
  ⟨fun _ _ => trim_eq_iff, fun _ _ => ofText?_eq_some_iff,
    fun _ _ h => (canonical_of_ofText? h).ofText?_toText,
    fun _ _ _ _ h h' => (canonical_of_ofText? h).toText_inj (canonical_of_ofText? h')⟩

/-- Blanks around the text go and those within stay, and upper case may be longer. -/
theorem padded_pair_read_again :
    ofText? "\t straße x-ada\u3000" = some ⟨"STRASSE X", "ADA"⟩ ∧ ofText? "x-ada" = some ⟨"X", "ADA"⟩ ∧
      ofText? "STRASSE X-ADA" = some ⟨"STRASSE X", "ADA"⟩ ∧
      ((⟨"STRASSE X", "ADA"⟩ : Pair) = ⟨"X", "ADA"⟩ ↔ "STRASSE X-ADA" = "X-ADA") := by
  have hread : ofText? "\t straße x-ada\u3000" = some ⟨"STRASSE X", "ADA"⟩ := by decide +kernel
  have hother : ofText? "x-ada" = some ⟨"X", "ADA"⟩ := by decide +kernel
  obtain ⟨_, _, hagain, halike⟩ := texts_tell_pairs
  exact ⟨hread, hother, hagain _ _ hread, halike _ _ _ _ hread hother⟩

end SwapDesk.Pair
