import SwapDesk.Text.Upper

/-! The tables of the case mappings. What they give has no case mapping of its own. -/
namespace SwapDesk

variable {c d : Char} {n : Nat}

theorem toNat_charOfNat (h : n.isValidChar) : (Char.ofNat n).toNat = n := by
  rw [Char.ofNat, dif_pos h]
  rfl

/-- A number that is no code point gives the character 0. -/
theorem charOfNat_of_invalid (h : ¬n.isValidChar) : Char.ofNat n = '\x00' := by
  rw [Char.ofNat, dif_neg h]
  rfl

theorem longUppers_ne_nil : ∀ e ∈ longUppers, e.2 ≠ [] := by decide +kernel

/-- A character has itself as its upper case, or another letter, or several ones. -/
theorem upperChar_cases (c : Char) :
    upperChar c = [c] ∨
      (∃ n, 65 ≤ n ∧ n ≤ 90 ∧ upperChar c = [Char.ofNat n]) ∨
      (∃ e ∈ longUppers, upperChar c = e.2.map Char.ofNat) ∨
      ∃ run ∈ caseRuns, run.contains c.toNat = true ∧
        upperChar c = [Char.ofNat (c.toNat + run.shift).toNat] := by
  unfold upperChar
  dsimp only
  split
  · split
    · exact Or.inr (Or.inl ⟨c.toNat - 32, by omega, by omega, rfl⟩)
    · exact Or.inl rfl
  · split
    · rename_i hfind
      exact Or.inr (Or.inr (Or.inl ⟨_, List.mem_of_find?_eq_some hfind, rfl⟩))
    · split
      · rename_i hfind
        have hin := List.find?_some (p := fun run : CaseRun => run.contains c.toNat) hfind
        exact Or.inr (Or.inr (Or.inr ⟨_, List.mem_of_find?_eq_some hfind, hin, rfl⟩))
      · exact Or.inl rfl

theorem upperChar_ne_nil (c : Char) : upperChar c ≠ [] := by
  rcases upperChar_cases c with h | ⟨n, _, _, h⟩ | ⟨e, he, h⟩ | ⟨run, _, _, h⟩
  · simp [h]
  · simp [h]
  · rw [h]
    exact fun hnil => longUppers_ne_nil e he (List.map_eq_nil_iff.mp hnil)
  · simp [h]

/-! ### The code points of the tables -/

/-- Code points as the bits of one number, so that whole tables can be compared at once. -/
def bitsOf (codes : List Nat) : Nat := codes.foldr (fun n bits => 1 <<< n ||| bits) 0

theorem testBit_bitsOf {codes : List Nat} : (bitsOf codes).testBit n = decide (n ∈ codes) := by
  induction codes with
  | nil => exact Nat.zero_testBit n
  | cons m codes ih =>
    change (1 <<< m ||| bitsOf codes).testBit n = _
    rw [Nat.testBit_or, Nat.one_shiftLeft, Nat.testBit_two_pow, ih]
    simp [eq_comm]

theorem notMem_of_bitsOf {codes others : List Nat} (h : bitsOf codes &&& bitsOf others = 0)
    (hn : n ∈ codes) : n ∉ others := by
  intro hm
  have hboth : (bitsOf codes &&& bitsOf others).testBit n = true := by
    simp [Nat.testBit_and, testBit_bitsOf, hn, hm]
  rw [h, Nat.zero_testBit] at hboth
  cases hboth

def CaseRun.codes (run : CaseRun) : List Nat :=
  List.range' run.first ((run.last - run.first) / run.stride + 1) run.stride

theorem CaseRun.mem_codes {run : CaseRun} (h : run.contains n = true) : n ∈ run.codes := by
  simp only [contains, Bool.and_eq_true, decide_eq_true_eq, beq_iff_eq] at h
  obtain ⟨⟨hfirst, hlast⟩, hmod⟩ := h
  refine List.mem_range'.mpr ⟨(n - run.first) / run.stride, ?_, ?_⟩
  · exact Nat.lt_succ_of_le (Nat.div_le_div_right (Nat.sub_le_sub_right hlast run.first))
  · rw [Nat.mul_div_cancel' (Nat.dvd_of_mod_eq_zero hmod)]
    exact (Nat.add_sub_cancel' hfirst).symm

/-- The code points that have a case mapping. -/
def mappedCodes : List Nat :=
  List.range' 97 26 ++ longUppers.map Prod.fst ++ caseRuns.flatMap CaseRun.codes

/-- The code points that the case mappings give. -/
def givenCodes : List Nat :=
  List.range' 65 26 ++ longUppers.flatMap Prod.snd ++
    caseRuns.flatMap fun run => run.codes.map fun n : Nat => (n + run.shift).toNat

theorem bitsOf_given_and_mapped : bitsOf givenCodes &&& bitsOf mappedCodes = 0 := by decide +kernel

theorem upperChar_of_notMem (h : c.toNat ∉ mappedCodes) : upperChar c = [c] := by
  simp only [mappedCodes, List.mem_append, not_or] at h
  obtain ⟨⟨hletters, hkeys⟩, hcodes⟩ := h
  have hletter : ¬(97 ≤ c.toNat ∧ c.toNat ≤ 122) := by
    rintro ⟨hlow, hhigh⟩
    exact hletters (List.mem_range'_1.mpr ⟨hlow, by omega⟩)
  have hlong : longUppers.find? (fun e => e.1 == c.toNat) = none := by
    apply List.find?_eq_none.mpr
    intro e he heq
    exact hkeys (List.mem_map.mpr ⟨e, he, beq_iff_eq.mp heq⟩)
  have hruns : caseRuns.find? (fun run => run.contains c.toNat) = none := by
    apply List.find?_eq_none.mpr
    intro run hrun hin
    exact hcodes (List.mem_flatMap.mpr ⟨run, hrun, CaseRun.mem_codes hin⟩)
  simp only [upperChar, hlong, hruns, if_neg hletter, ite_self]

/-- The character 0 has no case mapping, either. -/
theorem upperChar_ofNat (h : n ∈ givenCodes) : upperChar (Char.ofNat n) = [Char.ofNat n] := by
  by_cases hv : n.isValidChar
  · apply upperChar_of_notMem
    rw [toNat_charOfNat hv]
    exact notMem_of_bitsOf bitsOf_given_and_mapped h
  · rw [charOfNat_of_invalid hv]
    rfl

/-- What upper case gives is the character itself or comes from the tables. -/
theorem given_of_mem_upperChar (h : d ∈ upperChar c) :
    (d = c ∧ upperChar c = [c]) ∨ ∃ n ∈ givenCodes, d = Char.ofNat n := by
  simp only [givenCodes, List.mem_append]
  rcases upperChar_cases c with hc | ⟨n, hlow, hhigh, hc⟩ | ⟨e, he, hc⟩ | ⟨run, hrun, hin, hc⟩
  · rw [hc, List.mem_singleton] at h
    exact .inl ⟨h, hc⟩
  · rw [hc, List.mem_singleton] at h
    exact .inr ⟨n, .inl (.inl (List.mem_range'_1.mpr ⟨hlow, by omega⟩)), h⟩
  · rw [hc] at h
    obtain ⟨m, hm, rfl⟩ := List.mem_map.mp h
    exact .inr ⟨m, .inl (.inr (List.mem_flatMap.mpr ⟨e, he, hm⟩)), rfl⟩
  · rw [hc, List.mem_singleton] at h
    have hgiven := List.mem_map_of_mem (f := fun n : Nat => (n + run.shift).toNat)
      (CaseRun.mem_codes hin)
    exact .inr ⟨_, .inr (List.mem_flatMap.mpr ⟨run, hrun, hgiven⟩), h⟩

end SwapDesk
