import SwapDesk.Proofs.Text.Blanks

/-! Upper case of upper case, and dashes, which the case mappings do not give. -/
namespace SwapDesk

variable {c d : Char} {cs : List Char} {n : Nat}

theorem upperChar_of_mem_upperChar (h : d ∈ upperChar c) : upperChar d = [d] := by
  rcases given_of_mem_upperChar h with ⟨rfl, hc⟩ | ⟨n, hn, rfl⟩
  · exact hc
  · exact upperChar_ofNat hn

theorem upper_upper (s : String) : upper (upper s) = upper s := by
  have hall : ∀ cs : List Char, (cs.flatMap upperChar).flatMap upperChar = cs.flatMap upperChar := by
    intro cs
    have hkept : ∀ ds : List Char, (∀ d ∈ ds, upperChar d = [d]) → ds.flatMap upperChar = ds := by
      intro ds h
      induction ds with
      | nil => rfl
      | cons d ds ih =>
        rw [List.flatMap_cons, h d List.mem_cons_self, ih fun e he => h e (List.mem_cons_of_mem d he)]
        rfl
    apply hkept
    intro d hd
    obtain ⟨c, _, hc⟩ := List.mem_flatMap.mp hd
    exact upperChar_of_mem_upperChar hc
  rw [upper, upper, String.toList_ofList, hall]

/-! ### Dashes -/

theorem dash_lt_given : ∀ n ∈ givenCodes, 45 < n := by decide +kernel

theorem ofNat_ne_dash (h : 45 < n) : Char.ofNat n ≠ '-' := by
  intro he
  by_cases hv : n.isValidChar
  · have hnat := toNat_charOfNat hv
    rw [he] at hnat
    exact absurd h (hnat ▸ by decide)
  · rw [charOfNat_of_invalid hv] at he
    cases he

/-- A dash in upper case has been there before. -/
theorem eq_dash_of_mem_upperChar (h : '-' ∈ upperChar c) : c = '-' := by
  rcases given_of_mem_upperChar h with ⟨hd, _⟩ | ⟨n, hn, hd⟩
  · exact hd.symm
  · exact absurd hd.symm (ofNat_ne_dash (dash_lt_given n hn))

theorem toList_upper (cs : List Char) : (upper (String.ofList cs)).toList = cs.flatMap upperChar := by
  rw [upper, String.toList_ofList, String.toList_ofList]

theorem dash_notMem_upper (h : '-' ∉ cs) : '-' ∉ (upper (String.ofList cs)).toList := by
  rw [toList_upper]
  intro hd
  obtain ⟨c, hc, hd⟩ := List.mem_flatMap.mp hd
  exact h (eq_dash_of_mem_upperChar hd ▸ hc)

theorem upper_ne_empty (h : cs ≠ []) : upper (String.ofList cs) ≠ "" := by
  cases cs with
  | nil => exact absurd rfl h
  | cons c cs =>
    intro he
    have hnil : (c :: cs).flatMap upperChar = [] := by
      simpa [upper] using he
    exact upperChar_ne_nil c (List.append_eq_nil_iff.mp hnil).1

end SwapDesk
