import SwapDesk.Proofs.Json.Soundness

/-! Which well-formed values can be decoded. A text may spell half of a surrogate pair by an escape;
it is well formed, but it is no text, and no value that has such a half anywhere is decoded
(`Decoder.json_isOk_iff`). Where nothing is decoded, such halves do no harm. -/
namespace SwapDesk

namespace Reading

/-- There is no fault of form, all numbers are in range, and nothing is nested too deeply. -/
inductive WellFormed : Reading → Prop
  | null : WellFormed .null
  | bool (b : Bool) : WellFormed (.bool b)
  | number (n : Number) : WellFormed (.number (some n))
  | text (s : Option String) : WellFormed (.text s)
  | list {items : List Reading} (h : ∀ r ∈ items, WellFormed r) : WellFormed (.list items true)
  | record {members : List (Option String × Reading)} (h : ∀ m ∈ members, WellFormed m.2) :
      WellFormed (.record members true)

/-- No text and no key has half of a surrogate pair without the other half. -/
inductive Paired : Reading → Prop
  | null : Paired .null
  | bool (b : Bool) : Paired (.bool b)
  | number (n : Option Number) : Paired (.number n)
  | text (s : String) : Paired (.text (some s))
  | list {items : List Reading} {closed : Bool} (h : ∀ r ∈ items, Paired r) :
      Paired (.list items closed)
  | record {members : List (Option String × Reading)} {closed : Bool}
      (hkeys : none ∉ members.map Prod.fst) (h : ∀ m ∈ members, Paired m.2) :
      Paired (.record members closed)

variable {r : Reading} {items : List Reading} {members : List (Option String × Reading)}
  {closed : Bool}

theorem areWhole_iff : areWhole items = true ↔ ∀ r ∈ items, r.isWhole = true := by
  induction items with
  | nil => simp [areWhole]
  | cons r items ih => simp [areWhole, ih]

theorem membersWhole_iff : membersWhole members = true ↔ ∀ m ∈ members, m.2.isWhole = true := by
  induction members with
  | nil => simp [membersWhole]
  | cons m members ih => simp [membersWhole, ih]

theorem WellFormed.isWhole (h : WellFormed r) : r.isWhole = true := by
  induction h with
  | null | bool | number | text => rfl
  | list _ ih => exact areWhole_iff.mpr ih
  | record _ ih => exact membersWhole_iff.mpr ih

theorem wellFormed_list : WellFormed (.list items true) ↔ ∀ r ∈ items, WellFormed r := by
  refine ⟨fun h => ?_, .list⟩
  cases h with
  | list h => exact h

theorem wellFormed_record :
    WellFormed (.record members true) ↔ ∀ m ∈ members, WellFormed m.2 := by
  refine ⟨fun h => ?_, .record⟩
  cases h with
  | record h => exact h

theorem paired_list : Paired (.list items closed) ↔ ∀ r ∈ items, Paired r := by
  refine ⟨fun h => ?_, .list⟩
  cases h with
  | list h => exact h

theorem paired_record :
    Paired (.record members closed) ↔
      none ∉ members.map Prod.fst ∧ ∀ m ∈ members, Paired m.2 := by
  refine ⟨fun h => ?_, fun h => .record h.1 h.2⟩
  cases h with
  | record hkeys h => exact ⟨hkeys, h⟩

attribute [simp] WellFormed.null WellFormed.bool WellFormed.number WellFormed.text wellFormed_list
  wellFormed_record Paired.null Paired.bool Paired.number Paired.text paired_list paired_record

end Reading

namespace Decoder

variable {r : Reading} {items : List Reading} {members : List (Option String × Reading)}
  {fields : List (String × Json)}

theorem jsonItems_isOk_iff :
    (∃ js, jsonItems items = .ok js) ↔ ∀ r ∈ items, ∃ j, json r = .ok j := by
  induction items with
  | nil => simp [jsonItems]
  | cons r items ih =>
    simp only [jsonItems, bind_eq_ok, List.forall_mem_cons, ← ih]
    constructor
    · rintro ⟨_, j, hj, js, hjs, _⟩
      exact ⟨⟨j, hj⟩, js, hjs⟩
    · rintro ⟨⟨j, hj⟩, js, hjs⟩
      exact ⟨_, j, hj, js, hjs, rfl⟩

/-- The fields of an object are those of a map of any values. -/
theorem jsonFields_eq_dictFrom (d : Dict Json) (members : List (Option String × Reading)) :
    jsonFields d.entries members = Dict.entries <$> dictFrom json d members := by
  induction members generalizing d with
  | nil => rfl
  | cons m members ih =>
    obtain ⟨_ | k, r⟩ := m
    · rfl
    · rw [jsonFields, dictFrom]
      cases json r with
      | error f => rfl
      | ok j => exact ih (d.insert k j)

/-- A well-formed value is decoded exactly if it has no half of a surrogate pair. -/
theorem json_isOk_iff (h : r.WellFormed) : (∃ j, json r = .ok j) ↔ r.Paired := by
  induction h with
  | null => exact iff_of_true ⟨_, rfl⟩ .null
  | bool b => exact iff_of_true ⟨_, rfl⟩ (.bool b)
  | number n => exact iff_of_true ⟨_, rfl⟩ (.number _)
  | text s =>
    cases s with
    | none => exact iff_of_false (by rintro ⟨_, ⟨⟩⟩) (by rintro ⟨⟩)
    | some s => exact iff_of_true ⟨_, rfl⟩ (.text s)
  | @list items _ ih =>
    have hitems : (∃ j, json (.list items true) = .ok j) ↔ ∃ js, jsonItems items = .ok js := by
      rw [json]
      cases jsonItems items <;> simp [bind, Except.bind, pure, Except.pure]
    rw [hitems, jsonItems_isOk_iff, Reading.paired_list]
    exact forall₂_congr ih
  | @record members _ ih =>
    have hfields : (∃ j, json (.record members true) = .ok j) ↔
        ∃ d, dictFrom json .empty members = .ok d := by
      have hmap : jsonFields [] members = Dict.entries <$> dictFrom json .empty members :=
        jsonFields_eq_dictFrom .empty members
      rw [json, hmap]
      cases dictFrom json .empty members <;> simp [bind, Except.bind, pure, Except.pure]
    rw [hfields, dictFrom_isOk_iff, Reading.paired_record]
    exact and_congr_right fun _ => forall₂_congr ih

end Decoder
end SwapDesk
