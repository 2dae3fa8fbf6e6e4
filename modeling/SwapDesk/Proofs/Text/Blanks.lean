import SwapDesk.Text.Blank
import SwapDesk.Proofs.Text.Mappings
import Mathlib.Data.List.TakeWhile

/-! Blanks at the ends of texts. Upper case makes no blanks and takes no characters away, so a text
without blanks at its ends has none there in upper case, either. -/
namespace SwapDesk

variable {c d : Char} {cs ds : List Char} {n : Nat}

theorem dropBlanks_cons (h : isBlank c = false) : dropBlanks (c :: cs) = c :: cs :=
  List.dropWhile_cons_of_neg (by simp [h])

/-- There is no blank in front. -/
def Fronted (cs : List Char) : Prop := ∀ c ∈ cs.head?, isBlank c = false

theorem dropBlanks_of_fronted (h : Fronted cs) : dropBlanks cs = cs := by
  cases cs with
  | nil => rfl
  | cons c cs => exact dropBlanks_cons (h c rfl)

theorem fronted_dropBlanks (cs : List Char) : Fronted (dropBlanks cs) := by
  induction cs with
  | nil => exact fun c hc => by cases hc
  | cons c cs ih =>
    cases hc : isBlank c with
    | true =>
      rw [dropBlanks, List.dropWhile_cons_of_pos hc]
      exact ih
    | false =>
      rw [dropBlanks_cons hc]
      intro d hd
      cases hd
      exact hc

theorem Fronted.append (h : Fronted cs) (hne : cs ≠ []) : Fronted (cs ++ ds) := by
  cases cs with
  | nil => exact absurd rfl hne
  | cons c cs => exact h

theorem Fronted.of_append (h : Fronted (cs ++ ds)) : Fronted cs := by
  cases cs with
  | nil => exact fun _ hc => by cases hc
  | cons c cs => exact h

/-! ### Both ends -/

/-- The text is `ds` with blanks around it, and `ds` has none at its own ends. -/
def Framed (cs ds : List Char) : Prop :=
  ∃ front back, cs = front ++ ds ++ back ∧ (∀ c ∈ front, isBlank c = true) ∧
    (∀ c ∈ back, isBlank c = true) ∧ Fronted ds ∧ Fronted ds.reverse

theorem dropBlanks_append (h : ∀ c ∈ cs, isBlank c = true) (ds : List Char) :
    dropBlanks (cs ++ ds) = dropBlanks ds :=
  List.dropWhile_append_of_pos h

theorem Framed.trimChars_eq (h : Framed cs ds) : trimChars cs = ds := by
  obtain ⟨front, back, rfl, hfront, hback, hds, hsd⟩ := h
  have hback' : ∀ c ∈ back.reverse, isBlank c = true := fun c hc => hback c (List.mem_reverse.mp hc)
  rw [trimChars, List.append_assoc, dropBlanks_append hfront]
  by_cases hne : ds = []
  · subst hne
    have hnone : dropBlanks back = [] := List.dropWhile_eq_nil_iff.mpr hback
    rw [List.nil_append, hnone]
    rfl
  · rw [dropBlanks_of_fronted (hds.append hne), List.reverse_append, dropBlanks_append hback',
      dropBlanks_of_fronted hsd, List.reverse_reverse]

theorem exists_dropBlanks (cs : List Char) :
    ∃ front, cs = front ++ dropBlanks cs ∧ ∀ c ∈ front, isBlank c = true :=
  ⟨cs.takeWhile isBlank, List.takeWhile_append_dropWhile.symm, fun _ hc => List.mem_takeWhile_imp hc⟩

theorem framed_trimChars (cs : List Char) : Framed cs (trimChars cs) := by
  obtain ⟨front, hfront, hblank⟩ := exists_dropBlanks cs
  obtain ⟨tail, htail, hblank'⟩ := exists_dropBlanks (dropBlanks cs).reverse
  have hcs : dropBlanks cs = trimChars cs ++ tail.reverse := by
    rw [trimChars, ← List.reverse_append, ← htail, List.reverse_reverse]
  refine ⟨front, tail.reverse, ?_, hblank, fun c hc => hblank' c (List.mem_reverse.mp hc), ?_, ?_⟩
  · rw [List.append_assoc, ← hcs]
    exact hfront
  · exact Fronted.of_append (hcs ▸ fronted_dropBlanks cs)
  · rw [trimChars, List.reverse_reverse]
    exact fronted_dropBlanks _

theorem trim_eq_iff {s t : String} : trim s = t ↔ Framed s.toList t.toList := by
  constructor
  · rintro rfl
    rw [trim, String.toList_ofList]
    exact framed_trimChars _
  · intro h
    rw [trim, h.trimChars_eq, String.ofList_toList]

/-! ### Upper case -/

/-- The code points of blanks. -/
def blankCodes : List Nat :=
  [9, 10, 11, 12, 13, 0x20, 0x85, 0xA0, 0x1680, 0x2000, 0x2001, 0x2002, 0x2003, 0x2004, 0x2005, 0x2006,
    0x2007, 0x2008, 0x2009, 0x200A, 0x2028, 0x2029, 0x202F, 0x205F, 0x3000]

theorem mem_blankCodes (h : isBlank c = true) : c.toNat ∈ blankCodes := by
  simp only [isBlank, Bool.or_eq_true, Bool.and_eq_true, decide_eq_true_eq, beq_iff_eq] at h
  simp only [blankCodes, List.mem_cons, List.not_mem_nil, or_false]
  omega

theorem toNat_ofNat_mem (h : (Char.ofNat n).toNat ∈ blankCodes) : n ∈ blankCodes := by
  by_cases hv : n.isValidChar
  · rwa [toNat_charOfNat hv] at h
  · rw [charOfNat_of_invalid hv] at h
    exact absurd h (by decide)

theorem bitsOf_given_and_blank : bitsOf givenCodes &&& bitsOf blankCodes = 0 := by decide +kernel

/-- A blank in upper case has been there before. -/
theorem eq_of_mem_upperChar (h : d ∈ upperChar c) (hd : d.toNat ∈ blankCodes) : d = c := by
  rcases given_of_mem_upperChar h with ⟨hsame, _⟩ | ⟨n, hn, rfl⟩
  · exact hsame
  · exact absurd (toNat_ofNat_mem hd) (notMem_of_bitsOf bitsOf_given_and_blank hn)

theorem isBlank_eq_false_of_mem_upperChar (h : d ∈ upperChar c) (hc : isBlank c = false) :
    isBlank d = false := by
  cases hd : isBlank d with
  | false => rfl
  | true =>
    rw [eq_of_mem_upperChar h (mem_blankCodes hd), hc] at hd
    cases hd

/-- What is put in the place of each character brings no blank. -/
theorem Fronted.flatMap {f : Char → List Char} (h : Fronted cs) (hne : ∀ c, f c ≠ [])
    (hf : ∀ c, isBlank c = false → ∀ d ∈ f c, isBlank d = false) : Fronted (cs.flatMap f) := by
  cases cs with
  | nil => exact h
  | cons c cs =>
    rw [List.flatMap_cons]
    refine Fronted.append ?_ (hne c)
    intro d hd
    exact hf c (h c rfl) d (List.mem_of_mem_head? hd)

theorem Fronted.upper (h : Fronted cs) : Fronted (cs.flatMap upperChar) :=
  h.flatMap upperChar_ne_nil fun _ hc _ hd => isBlank_eq_false_of_mem_upperChar hd hc

theorem Fronted.upper_reverse (h : Fronted cs.reverse) :
    Fronted (cs.flatMap upperChar).reverse := by
  rw [List.reverse_flatMap]
  refine h.flatMap ?_ ?_
  · exact fun c hc => upperChar_ne_nil c (List.reverse_eq_nil_iff.mp hc)
  · intro c hc d hd
    exact isBlank_eq_false_of_mem_upperChar (List.mem_reverse.mp hd) hc

end SwapDesk
