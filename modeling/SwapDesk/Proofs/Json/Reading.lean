import SwapDesk.Proofs.Json.Lexeme

/-! The written form of a JSON value is read character by character without a fault. This holds with
and without line breaks, and inside of open containers, too. A legible value comes out as it was; in
others binary64 numbers are what their numerals say, and what is nested too deeply is marked. -/
namespace SwapDesk

/-- Numbers are whole and in range, and containers are at most `n` levels deep. -/
inductive Json.Legible : Nat → Json → Prop
  | null (n : Nat) : Legible n .null
  | bool (n : Nat) (b : Bool) : Legible n (.bool b)
  | whole (n : Nat) {k : Int} (h : Number.InRange k) : Legible n (.number (.whole k))
  | text (n : Nat) (s : String) : Legible n (.text s)
  | list {n : Nat} {items : List Json} (h : ∀ x ∈ items, Legible n x) :
      Legible (n + 1) (.list items)
  | record {n : Nat} {fields : List (String × Json)} (h : ∀ e ∈ fields, Legible n e.2) :
      Legible (n + 1) (.record fields)

namespace Reading

/-- What stands inside of `k` containers. -/
def sunk (k : Nat) (r : Reading) : Reading := if maxDepth ≤ k then .deep r else r

mutual

/-- What the written form of a value spells inside of `k` containers. -/
def spelled (k : Nat) : Json → Reading
  | .null => .null
  | .bool b => .bool b
  | .number n => .number (Number.ofLexeme? n.toText.toList)
  | .text s => .text (some s)
  | .list items => sunk k (.list (spelledItems (k + 1) items) true)
  | .record fields => sunk k (.record (spelledFields (k + 1) fields) true)

def spelledItems (k : Nat) : List Json → List Reading
  | [] => []
  | x :: xs => spelled k x :: spelledItems k xs

def spelledFields (k : Nat) : List (String × Json) → List (Option String × Reading)
  | [] => []
  | (key, x) :: fields => (some key, spelled k x) :: spelledFields k fields

end

open Json

variable {stack outer : List Frame} {scan : Scan} {r : Reading} {c : Char} {cs rest : List Char}
  {depth level : Option Nat} {isKey : Bool} {s : Spelling} {n : Nat} {j x : Json} {xs : List Json}
  {k : String} {items : List Reading} {members : List (Option String × Reading)}
  {fields : List (String × Json)} {lexeme : List Char} {part part' : NumeralPart}

/-! ### Quoted texts -/

theorem hexValue?_hexDigit : ∀ d < 16, hexValue? (hexDigit d) = some d := by decide

theorem step_hexDigit {d missing : Nat} (hd : d < 16) (h : 1 < missing) (value : Nat) :
    step ⟨stack, .quoted isKey s (.hex missing value)⟩ (hexDigit d) =
      ⟨stack, .quoted isKey s (.hex (missing - 1) (16 * value + d))⟩ := by
  simp only [step, stepQuoted, hexValue?_hexDigit d hd, if_neg (Nat.not_le_of_lt h)]

theorem step_lastHexDigit {d : Nat} (hd : d < 16) (value : Nat) :
    step ⟨stack, .quoted isKey s (.hex 1 value)⟩ (hexDigit d) =
      ⟨stack, .quoted isKey (s.unit (16 * value + d)).1 (s.unit (16 * value + d)).2⟩ := by
  simp only [step, stepQuoted, hexValue?_hexDigit d hd, Nat.le_refl, if_true]

theorem unit_of_lt (h : n < 32) : s.unit n = (s.add (Char.ofNat n), .none) := by
  have hhigh : isHigh n = false := by
    simp only [isHigh, Bool.and_eq_false_iff, decide_eq_false_iff_not]
    omega
  have hlow : isLow n = false := by
    simp only [isLow, Bool.and_eq_false_iff, decide_eq_false_iff_not]
    omega
  simp only [Spelling.unit, hhigh, hlow, Bool.false_eq_true, if_false]

/-- Whatever stands for a character adds it. -/
theorem foldl_escapeChar (c : Char) :
    (escapeChar c).foldl step ⟨stack, .quoted isKey s .none⟩ =
      ⟨stack, .quoted isKey (s.add c) .none⟩ := by
  have hnat : ∀ n, c.toNat = n → c = Char.ofNat n := by
    rintro n rfl
    exact (Char.ofNat_toNat c).symm
  by_cases hquote : c = '"'
  · subst hquote
    rfl
  by_cases hslash : c = '\\'
  · subst hslash
    rfl
  by_cases hline : c = '\n'
  · subst hline
    rfl
  by_cases hreturn : c = '\r'
  · subst hreturn
    rfl
  by_cases htab : c = '\t'
  · subst htab
    rfl
  by_cases hback : c.toNat = 8
  · rw [hnat 8 hback]
    rfl
  by_cases hform : c.toNat = 12
  · rw [hnat 12 hform]
    rfl
  by_cases hcontrol : c.toNat < 32
  · have htext : escapeChar c = ['\\', 'u', hexDigit 0, hexDigit 0, hexDigit (c.toNat / 16),
        hexDigit (c.toNat % 16)] := by
      simp [escapeChar, hquote, hslash, hline, hreturn, htab, hback, hform, hcontrol, hexDigit,
        Nat.digitChar]
    have hopen : step (step ⟨stack, .quoted isKey s .none⟩ '\\') 'u' =
        ⟨stack, .quoted isKey s (.hex 4 0)⟩ := rfl
    have hhigh : c.toNat / 16 < 16 := by omega
    have hlow : c.toNat % 16 < 16 := by omega
    have hvalue : 16 * (16 * (16 * (16 * 0 + 0) + 0) + c.toNat / 16) + c.toNat % 16 = c.toNat := by
      omega
    simp only [htext, List.foldl_cons, List.foldl_nil, hopen]
    rw [step_hexDigit (by decide) (by decide), step_hexDigit (by decide) (by decide),
      step_hexDigit hhigh (by decide), step_lastHexDigit hlow, hvalue, unit_of_lt hcontrol,
      Char.ofNat_toNat]
  · have htext : escapeChar c = [c] := by
      simp [escapeChar, hquote, hslash, hline, hreturn, htab, hback, hform, hcontrol]
    rw [htext]
    simp [step, stepQuoted, stepPlain, hquote, hslash, hcontrol]

theorem foldl_escaped (cs : List Char) :
    (cs.flatMap escapeChar).foldl step ⟨stack, .quoted isKey s .none⟩ =
      ⟨stack, .quoted isKey ⟨cs.reverse ++ s.chars, s.lone⟩ .none⟩ := by
  induction cs generalizing s with
  | nil => rfl
  | cons c cs ih =>
    rw [List.flatMap_cons, List.foldl_append, foldl_escapeChar, ih]
    simp [Spelling.add]

/-- A text is read up to its closing quote. -/
theorem foldl_quote (h : step scan '"' = ⟨stack, .quoted isKey ⟨[], false⟩ .none⟩) (k : String) :
    (quote k).foldl step scan = stepQuote stack isKey ⟨k.toList.reverse, false⟩ := by
  rw [quote, List.foldl_cons, h, List.foldl_append, foldl_escaped, List.append_nil]
  rfl

theorem text?_of_reverse (k : String) : Spelling.text? ⟨k.toList.reverse, false⟩ = some k := by
  simp [Spelling.text?]

/-! ### Values inside of open containers -/

/-- A character that stands behind a value. -/
def Ends (c : Char) : Prop := c ∈ [',', '\n', ']', '\x7d']

/-- The value is in the innermost container. Only a numeral goes on until something else follows. -/
inductive Arrived (stack : List Frame) (r : Reading) : Scan → Prop
  | pushed : Arrived stack r (push stack r)
  | numeral {lexeme : List Char} {part : NumeralPart} (hp : part.endsBefore none = true)
      (hr : r = .number (Number.ofLexeme? lexeme.reverse)) :
      Arrived stack r ⟨stack, .numeral lexeme part⟩

theorem stepNumeral_of_end (hc : part.next? c = none) (he : part.endsBefore (some c) = true) :
    stepNumeral stack lexeme part c =
      step (push stack (.number (Number.ofLexeme? lexeme.reverse))) c := by
  unfold stepNumeral
  rw [hc, he]
  cases stack with
  | nil => rfl
  | cons frame outer => cases frame <;> rfl

theorem Arrived.step_eq (h : Arrived stack r scan) (hc : Ends c) :
    step scan c = step (push stack r) c := by
  cases h with
  | pushed => rfl
  | @numeral lexeme part hp hr =>
    subst hr
    have hend : part.next? c = none ∧ part.endsBefore (some c) = true := by
      simp only [Ends, List.mem_cons, List.not_mem_nil, or_false] at hc
      revert hp
      rcases hc with rfl | rfl | rfl | rfl <;> cases part <;> decide
    exact stepNumeral_of_end hend.1 hend.2

/-- The text starts with a character that stands behind a value. -/
def Follows (cs : List Char) : Prop := ∃ c rest, cs = c :: rest ∧ Ends c

theorem Arrived.foldl_eq (h : Arrived stack r scan) (hr : Follows rest) :
    rest.foldl step scan = rest.foldl step (push stack r) := by
  obtain ⟨c, rest, rfl, hc⟩ := hr
  rw [List.foldl_cons, List.foldl_cons, h.step_eq hc]

theorem foldl_lineBreak (hline : step scan '\n' = scan) (hblank : step scan ' ' = scan)
    (depth : Option Nat) : (lineBreak depth).foldl step scan = scan := by
  cases depth with
  | none => rfl
  | some depth =>
    rw [lineBreak, List.foldl_cons, hline]
    generalize 2 * depth = n
    induction n with
    | zero => rfl
    | succ n ih => rw [List.replicate_succ, List.foldl_cons, hblank, ih]

theorem follows_lineBreak (hc : Ends c) (depth : Option Nat) :
    Follows (lineBreak depth ++ c :: rest) := by
  cases depth with
  | none => exact ⟨c, rest, rfl, hc⟩
  | some depth => exact ⟨'\n', _, rfl, by simp [Ends]⟩

theorem follows_renderItems (hr : Follows rest) (depth : Option Nat) (xs : List Json) :
    Follows (renderItems depth xs ++ rest) := by
  cases xs with
  | nil => exact hr
  | cons x xs => exact ⟨',', _, by rw [renderItems, List.cons_append], by simp [Ends]⟩

theorem follows_renderFields (hr : Follows rest) (depth : Option Nat)
    (fields : List (String × Json)) : Follows (renderFields depth fields ++ rest) := by
  cases fields with
  | nil => exact hr
  | cons e fields => exact ⟨',', _, by rw [renderFields, List.cons_append], by simp [Ends]⟩

/-! ### Numerals -/

theorem foldl_leads (h : part.Leads cs part') :
    cs.foldl step ⟨stack, .numeral lexeme part⟩ =
      ⟨stack, .numeral (cs.reverse ++ lexeme) part'⟩ := by
  induction h generalizing lexeme with
  | refl => rfl
  | @step p q r c cs h _ ih =>
    have hstep : step ⟨stack, .numeral lexeme p⟩ c = ⟨stack, .numeral (c :: lexeme) q⟩ := by
      simp only [step, stepNumeral, h]
    rw [List.foldl_cons, hstep, ih, List.reverse_cons, List.append_assoc]
    rfl

/-- What may come behind a minus sign is a zero or another digit. -/
theorem isDigit_of_next? (h : NumeralPart.minus.next? c = some part) :
    c.isDigit = true ∧ part = if c = '0' then .zero else .whole := by
  by_cases hzero : c = '0'
  · subst hzero
    exact ⟨rfl, (Option.some.inj h).symm⟩
  · simp only [NumeralPart.next?, hzero, if_false, isSome_digitValue?] at h
    split at h
    · rename_i hd
      exact ⟨hd, (if_neg hzero).symm ▸ (Option.some.inj h).symm⟩
    · cases h

theorem stepValue_of_next? (h : NumeralPart.minus.next? c = some part) :
    stepValue stack c = ⟨stack, .numeral [c] part⟩ := by
  obtain ⟨hd, rfl⟩ := isDigit_of_next? h
  have hquote : c ≠ '"' := ne_of_isDigit hd rfl
  have hlist : c ≠ '[' := ne_of_isDigit hd rfl
  have hrecord : c ≠ '\x7b' := ne_of_isDigit hd rfl
  have hminus : c ≠ '-' := ne_of_isDigit hd rfl
  by_cases hzero : c = '0'
  · subst hzero
    rfl
  · simp [stepValue, hquote, hlist, hrecord, hminus, hzero, isSome_digitValue?, hd]

/-- A numeral without a sign is read as one with a sign is behind it. -/
theorem foldl_numeral (h : NumeralPart.minus.Leads cs part) (hp : part.endsBefore none = true) :
    cs.foldl step ⟨stack, .value⟩ = ⟨stack, .numeral cs.reverse part⟩ := by
  cases h with
  | refl => cases hp
  | @step _ q _ c cs h hrest =>
    have hfirst : step ⟨stack, .value⟩ c = ⟨stack, .numeral [c] q⟩ := stepValue_of_next? h
    rw [List.foldl_cons, hfirst, foldl_leads hrest, List.reverse_cons]

theorem arrived_number (n : Number) :
    Arrived stack (.number (Number.ofLexeme? n.toText.toList))
      (n.toText.toList.foldl step ⟨stack, .value⟩) := by
  obtain ⟨cs, part, hleads, hp, htext | htext⟩ := n.leads_toText
  · rw [htext, foldl_numeral hleads hp]
    exact .numeral hp (by rw [List.reverse_reverse])
  · have hminus : step ⟨stack, .value⟩ '-' = ⟨stack, .numeral ['-'] .minus⟩ := rfl
    rw [htext, List.foldl_cons, hminus, foldl_leads hleads]
    exact .numeral hp (by rw [List.reverse_append, List.reverse_reverse]; rfl)

/-! ### Containers -/

/-- No value begins with a blank or with the end of a list. -/
theorem head_render (j : Json) (depth : Option Nat) :
    ∃ c cs, j.render depth = c :: cs ∧ c ≠ ']' ∧ isSpace c = false := by
  cases j with
  | null => exact ⟨'n', _, rfl, by decide, rfl⟩
  | bool b =>
    cases b with
    | true => exact ⟨'t', _, rfl, by decide, rfl⟩
    | false => exact ⟨'f', _, rfl, by decide, rfl⟩
  | number n =>
    obtain ⟨cs, part, hleads, hp, htext | htext⟩ := n.leads_toText
    · cases hleads with
      | refl => cases hp
      | @step _ _ _ c cs h _ =>
        have hdigit := (isDigit_of_next? h).1
        have hblank : ∀ d, d.isDigit = false → (c == d) = false := fun d hd =>
          beq_eq_false_iff_ne.mpr (ne_of_isDigit hdigit hd)
        refine ⟨c, cs, htext, ne_of_isDigit hdigit rfl, ?_⟩
        simp only [isSpace, hblank ' ' rfl, hblank '\n' rfl, hblank '\t' rfl, hblank '\r' rfl,
          Bool.or_self]
    · exact ⟨'-', cs, htext, by decide, rfl⟩
  | text s => exact ⟨'"', _, rfl, by decide, rfl⟩
  | list items =>
    cases items with
    | nil => exact ⟨'[', _, rfl, by decide, rfl⟩
    | cons x xs => exact ⟨'[', _, by rw [render], by decide, rfl⟩
  | record fields =>
    cases fields with
    | nil => exact ⟨'\x7b', _, rfl, by decide, rfl⟩
    | cons e fields => exact ⟨'\x7b', _, by rw [render], by decide, rfl⟩

/-- The first item of a list is read as any other value. -/
theorem foldl_firstItem (j : Json) (depth : Option Nat) :
    (j.render depth).foldl step ⟨stack, .firstItem⟩ =
      (j.render depth).foldl step ⟨stack, .value⟩ := by
  obtain ⟨c, cs, hcs, hend, hspace⟩ := head_render j depth
  have hfirst : step ⟨stack, .firstItem⟩ c = step ⟨stack, .value⟩ c := by
    simp [step, hend, hspace]
  rw [hcs, List.foldl_cons, List.foldl_cons, hfirst]

/-- The value is read wherever this stack stands open. -/
def Read (stack : List Frame) (depth : Option Nat) (j : Json) : Prop :=
  Arrived stack (spelled stack.length j) ((j.render depth).foldl step ⟨stack, .value⟩)

theorem foldl_renderItems (hr : Follows rest)
    (h : ∀ x ∈ xs, ∀ items, Read (.list items :: outer) depth x) :
    (renderItems depth xs ++ rest).foldl step ⟨.list items :: outer, .next⟩ =
      rest.foldl step
        ⟨.list ((spelledItems (outer.length + 1) xs).reverse ++ items) :: outer, .next⟩ := by
  induction xs generalizing items with
  | nil => rfl
  | cons x xs ih =>
    have hcomma : step ⟨.list items :: outer, .next⟩ ',' = ⟨.list items :: outer, .value⟩ := rfl
    have hx := h x List.mem_cons_self items
    rw [renderItems, List.cons_append, List.append_assoc, List.append_assoc, List.foldl_cons, hcomma,
      List.foldl_append, foldl_lineBreak rfl rfl, List.foldl_append,
      hx.foldl_eq (follows_renderItems hr depth xs), push,
      ih fun y hy => h y (List.mem_cons_of_mem x hy), spelledItems, List.reverse_cons,
      List.append_assoc]
    rfl

/-- A field of a record, once its quote is expected. -/
theorem foldl_field
    (hquote : step scan '"' = ⟨.record members :: outer, .quoted true ⟨[], false⟩ .none⟩)
    (hx : Read (.field members (some k) :: outer) depth x) (hr : Follows rest) :
    (quote k ++ (colon level ++ (x.render depth ++ rest))).foldl step scan =
      rest.foldl step
        ⟨.record ((some k, spelled (outer.length + 1) x) :: members) :: outer, .next⟩ := by
  have hkey : (quote k).foldl step scan =
      ⟨.field members (some k) :: outer, .colon (some k)⟩ := by
    rw [foldl_quote hquote, stepQuote, if_pos rfl, text?_of_reverse]
    rfl
  have hcolon : (colon level).foldl step ⟨.field members (some k) :: outer, .colon (some k)⟩ =
      ⟨.field members (some k) :: outer, .value⟩ := by
    cases level <;> rfl
  rw [List.foldl_append, hkey, List.foldl_append, hcolon, List.foldl_append, hx.foldl_eq hr, push]
  rfl

theorem foldl_renderFields (hr : Follows rest)
    (h : ∀ e ∈ fields, ∀ members, Read (.field members (some e.1) :: outer) depth e.2) :
    (renderFields depth fields ++ rest).foldl step ⟨.record members :: outer, .next⟩ =
      rest.foldl step
        ⟨.record ((spelledFields (outer.length + 1) fields).reverse ++ members) :: outer, .next⟩ := by
  induction fields generalizing members with
  | nil => rfl
  | cons e fields ih =>
    obtain ⟨k, x⟩ := e
    have hcomma : step ⟨.record members :: outer, .next⟩ ',' =
        ⟨.record members :: outer, .key⟩ := rfl
    have hx := h (k, x) List.mem_cons_self members
    rw [renderFields, List.cons_append, List.foldl_cons, hcomma]
    simp only [List.append_assoc]
    rw [List.foldl_append, foldl_lineBreak rfl rfl,
      foldl_field rfl hx (follows_renderFields hr depth fields),
      ih fun y hy => h y (List.mem_cons_of_mem _ hy), spelledFields, List.reverse_cons,
      List.append_assoc]
    rfl

theorem read_list (h : ∀ x ∈ xs, ∀ items depth, Read (.list items :: outer) depth x) :
    Read outer depth (.list xs) := by
  have hclose : ∀ items, [']'].foldl step ⟨.list items :: outer, .next⟩ =
      push outer (sunk outer.length (.list items.reverse true)) := fun _ => rfl
  unfold Read
  cases xs with
  | nil => exact .pushed
  | cons x xs =>
    have hopen : step ⟨outer, .value⟩ '[' = ⟨.list [] :: outer, .firstItem⟩ := rfl
    have hfirst := h x List.mem_cons_self [] (depth.map (· + 1))
    have hfollows : Follows (lineBreak depth ++ [']']) := follows_lineBreak (by simp [Ends]) depth
    have hitems : spelledItems (outer.length + 1) (x :: xs) =
        ((spelledItems (outer.length + 1) xs).reverse ++ [spelled (outer.length + 1) x]).reverse := by
      simp [spelledItems]
    rw [render, List.foldl_cons, hopen]
    simp only [List.append_assoc]
    rw [List.foldl_append, foldl_lineBreak rfl rfl, List.foldl_append, foldl_firstItem,
      hfirst.foldl_eq (follows_renderItems hfollows _ xs), push,
      foldl_renderItems hfollows fun y hy items => h y (List.mem_cons_of_mem x hy) items _,
      List.foldl_append, foldl_lineBreak rfl rfl, hclose, List.length_cons, ← hitems]
    exact .pushed

theorem read_record
    (h : ∀ e ∈ fields, ∀ members depth, Read (.field members (some e.1) :: outer) depth e.2) :
    Read outer depth (.record fields) := by
  have hclose : ∀ members, ['\x7d'].foldl step ⟨.record members :: outer, .next⟩ =
      push outer (sunk outer.length (.record members.reverse true)) := fun _ => rfl
  unfold Read
  cases fields with
  | nil => exact .pushed
  | cons e fields =>
    obtain ⟨k, x⟩ := e
    have hopen : step ⟨outer, .value⟩ '\x7b' = ⟨.record [] :: outer, .firstKey⟩ := rfl
    have hfirst := h (k, x) List.mem_cons_self [] (depth.map (· + 1))
    have hfollows : Follows (lineBreak depth ++ ['\x7d']) :=
      follows_lineBreak (by simp [Ends]) depth
    have hfields : spelledFields (outer.length + 1) ((k, x) :: fields) =
        ((spelledFields (outer.length + 1) fields).reverse ++
          [(some k, spelled (outer.length + 1) x)]).reverse := by
      simp [spelledFields]
    rw [render, List.foldl_cons, hopen]
    simp only [List.append_assoc]
    rw [List.foldl_append, foldl_lineBreak rfl rfl,
      foldl_field rfl hfirst (follows_renderFields hfollows _ fields),
      foldl_renderFields hfollows fun y hy members => h y (List.mem_cons_of_mem _ hy) members _,
      List.foldl_append, foldl_lineBreak rfl rfl, hclose, ← hfields]
    exact .pushed

mutual

/-- Every value is read from its text, wherever that stands. -/
theorem read_render (stack : List Frame) (depth : Option Nat) : (j : Json) → Read stack depth j
  | .null => .pushed
  | .bool true => .pushed
  | .bool false => .pushed
  | .number n => arrived_number n
  | .text s => by
    have hquote : step ⟨stack, .value⟩ '"' = ⟨stack, .quoted false ⟨[], false⟩ .none⟩ := rfl
    unfold Read
    rw [render, foldl_quote hquote, stepQuote, if_neg Bool.false_ne_true, text?_of_reverse]
    exact .pushed
  | .list xs => read_list fun x hx items depth => read_items xs x hx (.list items :: stack) depth
  | .record fields => read_record fun e he members depth =>
    read_fields fields e he (.field members (some e.1) :: stack) depth

theorem read_items : (xs : List Json) → ∀ x ∈ xs, ∀ stack depth, Read stack depth x
  | [] => List.forall_mem_nil _
  | x :: xs => List.forall_mem_cons.mpr
    ⟨fun stack depth => read_render stack depth x, read_items xs⟩

theorem read_fields : (fields : List (String × Json)) →
    ∀ e ∈ fields, ∀ stack depth, Read stack depth e.2
  | [] => List.forall_mem_nil _
  | (_, x) :: fields => List.forall_mem_cons.mpr
    ⟨fun stack depth => read_render stack depth x, read_fields fields⟩

end

/-- The text of a value, read as a whole, is what it spells and nothing else. -/
theorem ofChars_render (j : Json) (depth : Option Nat) :
    ofChars (j.render depth) = (spelled 0 j, true) := by
  have hread : Read [] depth j := read_render [] depth j
  have hresult : ∀ {scan r}, Arrived [] r scan → scan.result = (r, true) := by
    intro scan r h
    cases h with
    | pushed => rfl
    | numeral hp hr =>
      subst hr
      exact if_pos ⟨rfl, hp⟩
  exact hresult hread

/-! ### Legible values -/

theorem sunk_of_lt {k : Nat} (h : k < maxDepth) (r : Reading) : sunk k r = r :=
  if_neg (Nat.not_le_of_lt h)

theorem spelledFields_eq (k : Nat) (fields : List (String × Json)) :
    spelledFields k fields = fields.map fun e => (some e.1, spelled k e.2) := by
  induction fields with
  | nil => rfl
  | cons e fields ih => rw [spelledFields, ih, List.map_cons]

theorem spelledItems_of_forall {k : Nat} (h : ∀ x ∈ xs, spelled k x = ofJson x) :
    spelledItems k xs = ofItems xs := by
  induction xs with
  | nil => rfl
  | cons x xs ih =>
    rw [spelledItems, ofItems, h x List.mem_cons_self,
      ih fun y hy => h y (List.mem_cons_of_mem x hy)]

theorem spelledFields_of_forall {k : Nat} (h : ∀ e ∈ fields, spelled k e.2 = ofJson e.2) :
    spelledFields k fields = ofFields fields := by
  induction fields with
  | nil => rfl
  | cons e fields ih =>
    rw [spelledFields, ofFields, h e List.mem_cons_self,
      ih fun y hy => h y (List.mem_cons_of_mem e hy)]

/-- A legible value spells itself, as long as there are not too many containers around it. -/
theorem spelled_of_legible (h : Legible n j) {k : Nat} (hk : k + n ≤ maxDepth) :
    spelled k j = ofJson j := by
  induction h generalizing k with
  | null => rfl
  | bool n b => rfl
  | @whole n i h =>
    have hread : Number.ofLexeme? (Number.whole i).toText.toList = some (.whole i) :=
      Number.ofLexeme?_toString h
    rw [spelled, ofJson, hread]
  | text n s => rfl
  | list h ih =>
    rw [spelled, ofJson, sunk_of_lt (by omega),
      spelledItems_of_forall fun x hx => ih x hx (by omega)]
  | record h ih =>
    rw [spelled, ofJson, sunk_of_lt (by omega),
      spelledFields_of_forall fun e he => ih e he (by omega)]

end Reading
end SwapDesk
