import SwapDesk.Proofs.Text.Blanks
import SwapDesk.Proofs.Text.Digits

/-! Points of time and their texts. The text of an instant is read as the same instant, to the
nanosecond; this goes for years with a sign and for leap seconds, too. -/
namespace SwapDesk

variable {c : Char} {cs rest : List Char} {n width : Nat}

namespace Instant

theorem number?_of_digits (hd : Digits cs) (hne : cs ≠ []) (hw : cs.length ≤ width)
    (hr : Stops rest) :
    number? width (cs ++ rest) = some (Nat.ofDigitChars 10 cs 0, rest) := by
  have htake : Stops (rest.take (width - cs.length)) := by
    intro c hc
    cases rest with
    | nil => simp at hc
    | cons d rest =>
      cases hk : width - cs.length with
      | zero => simp [hk] at hc
      | succ k =>
        rw [hk] at hc
        cases hc
        exact hr _ rfl
  have hdigits : ((cs ++ rest).take width).takeWhile (fun c => (digitValue? c).isSome) = cs := by
    rw [List.take_append, List.take_of_length_le hw]
    exact takeWhile_digits hd htake
  simp only [number?, hdigits, naturalOf?_of_digits hd hne, List.drop_left]
  rfl

theorem isBlank_of_isDigit (h : c.isDigit = true) : isBlank c = false := by
  obtain ⟨hlow, hhigh⟩ := (isDigit_iff c).mp h
  have hlow : 48 ≤ c.toNat := hlow
  have hhigh : c.toNat ≤ 57 := hhigh
  simp only [isBlank, Bool.or_eq_false_iff, Bool.and_eq_false_iff, decide_eq_false_iff_not,
    beq_eq_false_iff_ne]
  omega

theorem dropBlanks_digits (hd : Digits cs) (hne : cs ≠ []) :
    dropBlanks (cs ++ rest) = cs ++ rest := by
  cases cs with
  | nil => exact absurd rfl hne
  | cons c cs => exact dropBlanks_cons (isBlank_of_isDigit hd.head)

theorem part?_padded (hn : n < 100) (hr : Stops rest) :
    part? (padded 2 n ++ rest) = some (n, rest) := by
  have hlen : (padded 2 n).length = 2 := length_padded (by decide) hn
  rw [part?, dropBlanks_digits (digits_padded 2 n) (padded_ne_nil 2 n),
    number?_of_digits (digits_padded 2 n) (padded_ne_nil 2 n) (Nat.le_of_eq hlen) hr,
    ofDigitChars_padded]

theorem between?_cons (h : isBlank c = false) : between? c (c :: rest) = some rest := by
  simp [between?, dropBlanks_cons h]

theorem year?_yearChars (year : Int) (hr : Stops rest) :
    year? (yearChars year ++ rest) = some (year, rest) := by
  have hd := digits_padded 4 year.natAbs
  have hne := padded_ne_nil 4 year.natAbs
  have hsigned : number? (padded 4 year.natAbs ++ rest).length (padded 4 year.natAbs ++ rest) =
      some (year.natAbs, rest) := by
    rw [number?_of_digits hd hne (by simp) hr, ofDigitChars_padded]
  unfold yearChars
  split
  · rename_i hshort
    have habs : year.toNat = year.natAbs := by omega
    have hsmall : year.natAbs < 10000 := by omega
    have hlen : (padded 4 year.natAbs).length = 4 := length_padded (by decide) hsmall
    rw [habs, year?, dropBlanks_digits hd hne]
    cases hp : padded 4 year.natAbs with
    | nil => exact absurd hp hne
    | cons c cs =>
      rw [hp] at hd hne hlen
      have hvalue := ofDigitChars_padded 4 year.natAbs
      rw [hp] at hvalue
      have hminus : c ≠ '-' := ne_of_isDigit hd.head rfl
      have hplus : c ≠ '+' := ne_of_isDigit hd.head rfl
      have hnumber := number?_of_digits hd hne (Nat.le_of_eq hlen) hr
      split
      · rename_i he
        exact absurd (List.cons.inj he).1 hminus
      · rename_i he
        exact absurd (List.cons.inj he).1 hplus
      · rw [hnumber, hvalue]
        simp only [Option.map_some, Option.some.injEq, Prod.mk.injEq, and_true]
        omega
  · rename_i hlong
    by_cases hneg : year < 0
    · have hyear : -(year.natAbs : Int) = year := by omega
      rw [if_pos hneg, List.cons_append, year?, dropBlanks_cons rfl]
      simp only [hsigned, Option.map_some, hyear]
    · have hyear : (year.natAbs : Int) = year := by omega
      rw [if_neg hneg, List.cons_append, year?, dropBlanks_cons rfl]
      simp only [hsigned, Option.map_some, hyear]

/-- A fraction is written with fewer than nine digits if the others are zero. -/
theorem fraction?_padded (hw : 0 < width) (hw' : width ≤ 9) (hn : n < billion)
    (hzero : n % pow10 (9 - width) = 0) (hr : Stops rest) :
    fraction? ('.' :: padded width (n / pow10 (9 - width)) ++ rest) = some (n, rest) := by
  have hfew : n / pow10 (9 - width) < pow10 width := by
    apply Nat.div_lt_of_lt_mul
    rw [← pow10_add, Nat.sub_add_cancel hw']
    exact hn
  have hlen : (padded width (n / pow10 (9 - width))).length = width := length_padded hw hfew
  have hnumber := number?_of_digits (digits_padded width _) (padded_ne_nil width _)
    (Nat.le_trans (Nat.le_of_eq hlen) hw') hr
  have htaken : (padded width (n / pow10 (9 - width)) ++ rest).length - rest.length = width := by
    rw [List.length_append, hlen]
    omega
  have hstop := dropWhile_of_stops hr
  simp only [fraction?, List.cons_append, hnumber, ofDigitChars_padded, Option.bind_eq_bind,
    Option.bind_some, htaken, hstop, Nat.div_mul_cancel (Nat.dvd_of_mod_eq_zero hzero)]
  rfl

theorem fraction?_fractionChars (hn : n < billion) (hc : c.isDigit = false) (hpoint : c ≠ '.') :
    fraction? (fractionChars n ++ c :: rest) = some (n, c :: rest) := by
  have hr : Stops (c :: rest) := stops_cons hc
  have hdigits : ∀ width, 0 < width → width ≤ 9 → n % pow10 (9 - width) = 0 →
      fraction? ('.' :: padded width (n / pow10 (9 - width)) ++ c :: rest) =
        some (n, c :: rest) :=
    fun _ hw hw' hzero => fraction?_padded hw hw' hn hzero hr
  unfold fractionChars
  split
  · rename_i hzero
    subst hzero
    unfold fraction?
    split
    · rename_i he
      exact absurd (List.cons.inj he).1 hpoint
    · rfl
  · split
    · rename_i hmilli
      exact hdigits 3 (by decide) (by decide) hmilli
    · split
      · rename_i hmicro
        exact hdigits 6 (by decide) (by decide) hmicro
      · have hnano := hdigits 9 (by decide) (by decide) (Nat.mod_one n)
        rwa [show n / pow10 (9 - 9) = n from Nat.div_one n] at hnano

variable {year : Int} {month day hour minute second nanos : Nat}

/-- A local time in UTC is that time. -/
theorem ofLocal?_utc (h : isCalendarTime year month day hour minute second nanos = true) :
    ofLocal? year month day hour minute second nanos 0 =
      some ⟨year, month, day, hour, minute, second, nanos, h⟩ := by
  have hof : of? year month day hour minute second nanos =
      some ⟨year, month, day, hour, minute, second, nanos, h⟩ := dif_pos h
  have hbounds : hour < 24 ∧ minute < 60 := by
    simp only [isCalendarTime, Bool.and_eq_true, decide_eq_true_eq] at h
    exact ⟨h.1.1.1.1.2, h.1.1.1.2⟩
  have hclock : (60 * (hour : Int) + minute - 0).toNat = 60 * hour + minute := by omega
  have hhour : (60 * hour + minute) / 60 = hour := by omega
  have hminute : (60 * hour + minute) % 60 = minute := by omega
  unfold ofLocal?
  simp only [hof, Option.bind_eq_bind, Option.bind_some]
  rw [if_neg (by omega), if_neg (by omega), hclock, hhour, hminute, hof]

theorem daysInMonth_le (year : Int) (month : Nat) : daysInMonth year month ≤ 31 := by
  unfold daysInMonth
  repeat' split
  all_goals decide

/-- The parts of a text in their order. -/
theorem ofChars?_parts (year : Int) (hmonth : month < 100) (hday : day < 100) (hhour : hour < 100)
    (hminute : minute < 100) (hsecond : second < 100) (hnanos : nanos < billion) :
    ofChars? (yearChars year ++ '-' :: padded 2 month ++ '-' :: padded 2 day ++ 'T' ::
      padded 2 hour ++ ':' :: padded 2 minute ++ ':' :: padded 2 second ++ fractionChars nanos ++
      ['Z']) =
      if second = 60 then ofLocal? year month day hour minute 59 (nanos + billion) 0
      else ofLocal? year month day hour minute second nanos 0 := by
  have hstops : Stops (fractionChars nanos ++ ['Z']) := by
    unfold fractionChars
    repeat' split
    all_goals exact stops_cons rfl
  have hdash : ∀ rest, Stops ('-' :: rest) := fun _ => stops_cons rfl
  have hmark : ∀ rest, Stops ('T' :: rest) := fun _ => stops_cons rfl
  have hcolon : ∀ rest, Stops (':' :: rest) := fun _ => stops_cons rfl
  have hoffset : offset? (dropBlanks ['Z']) = some (0, []) := rfl
  simp only [List.append_assoc, List.cons_append, ofChars?, Option.bind_eq_bind, Option.bind_some,
    year?_yearChars year (hdash _), between?_cons (c := '-') rfl, between?_cons (c := ':') rfl,
    part?_padded hmonth (hdash _), part?_padded hday (hmark _), part?_padded hhour (hcolon _),
    part?_padded hminute (hcolon _), part?_padded hsecond hstops,
    fraction?_fractionChars hnanos (c := 'Z') rfl (by decide), hoffset]
  rfl

theorem ofChars?_toChars (i : Instant) : ofChars? i.toChars = some i := by
  obtain ⟨year, month, day, hour, minute, second, nanos, h⟩ := i
  have hv := h
  simp only [isCalendarTime, Bool.and_eq_true, Bool.or_eq_true, decide_eq_true_eq,
    beq_iff_eq] at hv
  obtain ⟨⟨⟨⟨⟨⟨⟨⟨_, hmonth⟩, _⟩, hday⟩, hhour⟩, hminute⟩, hsecond⟩, hnanos⟩, hleap⟩ := hv
  have hday := Nat.le_trans hday (daysInMonth_le year month)
  dsimp only [toChars]
  by_cases hb : billion ≤ nanos
  · -- a leap second is written as the sixtieth
    have hlast : second = 59 := hleap.resolve_left (Nat.not_lt_of_le hb)
    subst hlast
    rw [if_pos hb, if_pos hb, ofChars?_parts year (by omega) (by omega) (by omega) (by omega)
      (by omega) (by omega), if_pos rfl, Nat.sub_add_cancel hb]
    exact ofLocal?_utc h
  · rw [if_neg hb, if_neg hb, ofChars?_parts year (by omega) (by omega) (by omega) (by omega)
      (by omega) (by omega), if_neg (by omega)]
    exact ofLocal?_utc h

theorem ofText?_toText (i : Instant) : ofText? i.toText = some i := by
  rw [ofText?, toText, String.toList_ofList]
  exact ofChars?_toChars i

end Instant
end SwapDesk
