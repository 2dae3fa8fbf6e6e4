import SwapDesk.Proofs.Json.Reading

/-! Whatever a text spells, its whole numbers are in range, and no container that counts is nested too
deeply. The scan keeps this: a value that is complete inside of `k` open containers has at most
`maxDepth - k` levels of its own. -/
namespace SwapDesk

namespace Number

variable {g : Gathered} {p : Parts} {n : Int}

theorem word_lt_of_gatherWhole (h : g.word < wordBound) (cs : List Char) :
    (gatherWhole g cs).word < wordBound := by
  induction cs generalizing g with
  | nil => exact h
  | cons c cs ih =>
    rw [gatherWhole]
    split
    · rename_i hnext
      exact ih hnext.2
    · exact ih h

theorem inRange_of_value? (h : p.value? = some (.whole n)) : InRange n := by
  have hword : (gatherWhole ⟨0, 0⟩ p.whole).word < pow2 64 :=
    word_lt_of_gatherWhole (by decide) p.whole
  rw [Parts.value?] at h
  generalize gatherWhole ⟨0, 0⟩ p.whole = g at h hword
  dsimp only at h
  split at h
  · rename_i hwhole
    cases h
    cases hneg : p.negative with
    | false =>
      simp only [Bool.false_eq_true, if_false]
      constructor <;> omega
    | true =>
      have hlow : 0 < g.word ∧ g.word ≤ pow2 63 := by simpa [hneg] using hwhole.2.2.2
      simp only [if_true]
      constructor <;> omega
  · cases he : p.exponent with
    | none => simp [he] at h
    | some e =>
      obtain ⟨down, digits⟩ := e
      simp only [he] at h
      split at h
      · simp at h
      · split at h <;> simp at h

end Number

namespace Reading

/-- Whole numbers are in range, and containers are at most `n` levels deep. What `deep` marks does not
count. -/
inductive Within : Nat → Reading → Prop
  | broken (n : Nat) : Within n .broken
  | null (n : Nat) : Within n .null
  | bool (n : Nat) (b : Bool) : Within n (.bool b)
  | number (n : Nat) {x : Option Number} (h : ∀ k, x = some (.whole k) → Number.InRange k) :
      Within n (.number x)
  | text (n : Nat) (s : Option String) : Within n (.text s)
  | list {n : Nat} {items : List Reading} {closed : Bool} (h : ∀ r ∈ items, Within n r) :
      Within (n + 1) (.list items closed)
  | record {n : Nat} {members : List (Option String × Reading)} {closed : Bool}
      (h : ∀ e ∈ members, Within n e.2) : Within (n + 1) (.record members closed)
  | deep (n : Nat) (r : Reading) : Within n (.deep r)

/-- The members so far have at most `n` levels. -/
def Frame.Within (n : Nat) : Frame → Prop
  | .list items => ∀ r ∈ items, r.Within n
  | .record members | .field members _ => ∀ e ∈ members, e.2.Within n

/-- The levels left for a value inside of these open containers. -/
def levels (stack : List Frame) : Nat := maxDepth - stack.length

/-- The members of each open container keep to the levels left for them. -/
def Fits : List Frame → Prop
  | [] => True
  | frame :: outer => frame.Within (levels (frame :: outer)) ∧ Fits outer

def Expect.Fits : Expect → Prop
  | .finished r | .failed r _ => r.Within maxDepth
  | .word _ r => ∀ n, r.Within n
  | _ => True

structure Scan.Fits (scan : Scan) : Prop where
  stack : Reading.Fits scan.stack
  expect : scan.expect.Fits

variable {stack outer : List Frame} {frame : Frame} {scan : Scan} {r : Reading} {n : Nat}
  {items : List Reading} {members : List (Option String × Reading)} {closed : Bool}

theorem within_numeral (n : Nat) (lexeme : List Char) :
    Within n (.number (Number.ofLexeme? lexeme)) :=
  .number n fun _ h => Number.inRange_of_value? h

/-- A container takes one of the levels left, and where none is left it is marked. -/
theorem within_nested (h : ∀ n, levels outer = n + 1 → r.Within (n + 1)) :
    (nested outer r).Within (levels outer) := by
  unfold nested
  split
  · exact .deep _ r
  · rename_i hopen
    obtain ⟨n, hn⟩ : ∃ n, levels outer = n + 1 := ⟨maxDepth - outer.length - 1, by
      rw [levels]
      omega⟩
    exact hn ▸ h n hn

theorem levels_cons (hn : levels outer = n + 1) (frame : Frame) : levels (frame :: outer) = n := by
  rw [levels] at hn ⊢
  rw [List.length_cons]
  omega

theorem within_list (h : (Frame.list items).Within (levels (frame :: outer))) :
    (nested outer (.list items.reverse closed)).Within (levels outer) := by
  apply within_nested
  intro n hn
  rw [levels_cons hn] at h
  exact .list fun r hr => h r (List.mem_reverse.mp hr)

theorem within_record (h : (Frame.record members).Within (levels (frame :: outer))) :
    (nested outer (.record members.reverse closed)).Within (levels outer) := by
  apply within_nested
  intro n hn
  rw [levels_cons hn] at h
  exact .record fun e he => h e (List.mem_reverse.mp he)

/-- What is left open keeps to the levels like everything else. -/
theorem within_abandon {inner : Option Reading} (h : Reading.Fits stack)
    (hr : ∀ r ∈ inner, r.Within (levels stack)) : (abandon stack inner).Within maxDepth := by
  induction stack generalizing inner with
  | nil =>
    cases inner with
    | none => exact .broken _
    | some r => exact hr r rfl
  | cons frame outer ih =>
    obtain ⟨hframe, houter⟩ := h
    have hinner : ∀ r ∈ inner.toList, r.Within (levels (frame :: outer)) := fun r hm =>
      hr r (Option.mem_toList.mp hm)
    have hgot : (inner.getD .broken).Within (levels (frame :: outer)) := by
      cases inner with
      | none => exact .broken _
      | some r => exact hr r rfl
    cases frame with
    | list items =>
      refine ih houter ?_
      rintro _ ⟨⟩
      apply within_list
      intro r hm
      rcases List.mem_append.mp hm with hm | hm
      · exact hinner r hm
      · exact hframe r hm
    | record members =>
      refine ih houter ?_
      rintro _ ⟨⟩
      exact within_record hframe
    | field members key =>
      refine ih houter ?_
      rintro _ ⟨⟩
      apply within_record
      exact List.forall_mem_cons.mpr ⟨hgot, hframe⟩

theorem fits_fail (h : Reading.Fits stack) : (fail stack).Fits :=
  ⟨trivial, within_abandon h fun r (hr : r ∈ none) => by cases hr⟩

theorem fits_push (h : Reading.Fits stack) (hr : r.Within (levels stack)) : (push stack r).Fits := by
  cases stack with
  | nil => exact ⟨trivial, hr⟩
  | cons frame outer =>
    cases frame with
    | list items => exact ⟨⟨List.forall_mem_cons.mpr ⟨hr, h.1⟩, h.2⟩, trivial⟩
    | record members => exact fits_fail h
    | field members key => exact ⟨⟨List.forall_mem_cons.mpr ⟨hr, h.1⟩, h.2⟩, trivial⟩

/-! ### One character -/

theorem fits_stepNext (h : Reading.Fits stack) (c : Char) : (stepNext stack c).Fits := by
  unfold stepNext
  split
  · exact fits_push h.2 (within_list h.1)
  · exact ⟨h, trivial⟩
  · exact fits_push h.2 (within_record h.1)
  · exact ⟨h, trivial⟩
  · split
    · exact ⟨h, trivial⟩
    · exact fits_fail h

theorem fits_open (h : Reading.Fits stack) :
    Reading.Fits (Frame.list [] :: stack) ∧ Reading.Fits (Frame.record [] :: stack) :=
  ⟨⟨List.forall_mem_nil _, h⟩, List.forall_mem_nil _, h⟩

theorem fits_stepValue (h : Reading.Fits stack) (c : Char) : (stepValue stack c).Fits := by
  obtain ⟨hlist, hrecord⟩ := fits_open h
  unfold stepValue
  repeat' split
  · exact ⟨h, trivial⟩
  · exact ⟨hlist, trivial⟩
  · exact ⟨hrecord, trivial⟩
  · exact ⟨h, trivial⟩
  · exact ⟨h, trivial⟩
  · exact ⟨h, trivial⟩
  · exact ⟨h, fun n => .bool n true⟩
  · exact ⟨h, fun n => .bool n false⟩
  · exact ⟨h, fun n => .null n⟩
  · exact ⟨h, trivial⟩
  · exact fits_fail h

theorem fits_stepKey (h : Reading.Fits stack) (c : Char) : (stepKey stack c).Fits := by
  unfold stepKey
  split
  · exact ⟨h, trivial⟩
  · split
    · exact ⟨h, trivial⟩
    · exact fits_fail h

theorem fits_holdKey (h : Reading.Fits stack) (key : Option String) :
    Reading.Fits (holdKey stack key) := by
  unfold holdKey
  split
  · exact h
  · exact h

theorem fits_stepPlain (h : Reading.Fits stack) (isKey : Bool) (s : Spelling) (c : Char) :
    (stepPlain stack isKey s c).Fits := by
  unfold stepPlain stepQuote
  repeat' split
  · exact ⟨fits_holdKey h _, trivial⟩
  · exact fits_push h (.text _ _)
  · exact ⟨h, trivial⟩
  · exact fits_fail h
  · exact ⟨h, trivial⟩

theorem fits_stepQuoted (h : Reading.Fits stack) (isKey : Bool) (s : Spelling) (escape : Escape)
    (c : Char) : (stepQuoted stack isKey s escape c).Fits := by
  have hquoted : ∀ s escape, Scan.Fits ⟨stack, .quoted isKey s escape⟩ := fun _ _ => ⟨h, trivial⟩
  have hfail : (fail stack).Fits := fits_fail h
  unfold stepQuoted
  cases escape with
  | none => exact fits_stepPlain h isKey s c
  | slash =>
    dsimp only
    repeat' split
    · exact hquoted _ _
    · exact hquoted _ _
    · exact hfail
  | hex missing value =>
    dsimp only
    repeat' split
    · exact hfail
    · exact hquoted _ _
    · exact hquoted _ _
  | half high =>
    dsimp only
    split
    · exact hquoted _ _
    · exact fits_stepPlain h isKey s.spoil c
  | halfSlash high =>
    dsimp only
    repeat' split
    · exact hquoted _ _
    · exact hquoted _ _
    · exact hfail
  | halfHex high missing value =>
    dsimp only
    repeat' split
    · exact hfail
    · exact hquoted _ _
    · exact hquoted _ _
    · exact hquoted _ _

theorem fits_stepNumeral (h : Reading.Fits stack) (lexeme : List Char) (part : NumeralPart) (c : Char) :
    (stepNumeral stack lexeme part c).Fits := by
  have hpush := fits_push h (within_numeral (levels stack) lexeme.reverse)
  unfold stepNumeral
  split
  · exact ⟨h, trivial⟩
  · split
    · dsimp only
      split
      · exact fits_stepNext hpush.stack c
      · rename_i r hr
        split
        · exact hpush
        · have hwithin := hpush.expect
          rw [hr] at hwithin
          exact ⟨trivial, hwithin⟩
      · exact hpush
    · exact fits_fail h

theorem fits_stepWord (h : Reading.Fits stack) (hr : ∀ n, r.Within n) (rest : List Char) (c : Char) :
    (stepWord stack rest r c).Fits := by
  unfold stepWord
  split
  · split
    · exact fits_push h (hr _)
    · exact fits_fail h
  · split
    · exact ⟨h, hr⟩
    · exact fits_fail h
  · exact fits_fail h

theorem Scan.Fits.step (h : scan.Fits) (c : Char) : (step scan c).Fits := by
  obtain ⟨stack, expect⟩ := scan
  obtain ⟨hstack, hexpect⟩ := h
  unfold Reading.step
  cases expect with
  | value => exact fits_stepValue hstack c
  | firstItem =>
    dsimp only
    repeat' split
    · exact fits_stepNext hstack c
    · exact ⟨hstack, trivial⟩
    · exact fits_stepValue hstack c
  | firstKey =>
    dsimp only
    repeat' split
    · exact fits_stepNext hstack c
    · exact ⟨hstack, trivial⟩
    · exact fits_stepKey hstack c
  | key => exact fits_stepKey hstack c
  | colon key =>
    dsimp only
    repeat' split
    · exact ⟨hstack, trivial⟩
    · exact ⟨hstack, trivial⟩
    · exact fits_fail hstack
  | next => exact fits_stepNext hstack c
  | quoted isKey s escape => exact fits_stepQuoted hstack isKey s escape c
  | numeral lexeme part => exact fits_stepNumeral hstack lexeme part c
  | word rest r => exact fits_stepWord hstack hexpect rest c
  | finished r =>
    dsimp only
    split
    · exact ⟨hstack, hexpect⟩
    · exact ⟨trivial, hexpect⟩
  | failed r afterEnd => exact ⟨hstack, hexpect⟩

/-! ### Whole texts -/

theorem Scan.Fits.foldl (h : scan.Fits) (cs : List Char) : (cs.foldl Reading.step scan).Fits := by
  induction cs generalizing scan with
  | nil => exact h
  | cons c cs ih => exact ih (h.step c)

theorem Scan.Fits.result (h : scan.Fits) : scan.result.1.Within maxDepth := by
  have hleft : (abandon scan.stack none).Within maxDepth := (fits_fail h.stack).expect
  unfold Scan.result
  split
  · rename_i r hr
    have hwithin := h.expect
    rw [hr] at hwithin
    exact hwithin
  · rename_i r afterEnd hr
    have hwithin := h.expect
    rw [hr] at hwithin
    exact hwithin
  · split
    · exact within_numeral _ _
    · exact hleft
  · exact hleft

theorem within_ofChars (cs : List Char) : (ofChars cs).1.Within maxDepth := by
  have hstart : start.Fits := ⟨trivial, trivial⟩
  exact (hstart.foldl cs).result

end Reading
end SwapDesk
