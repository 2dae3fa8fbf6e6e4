import SwapDesk.Overflow
import SwapDesk.Proofs.Json.Decoding
import SwapDesk.Proofs.Json.Depth

/-! What decoders give comes from the parts of what they read. A value that is decoded from a text can be
written and read again, but for its floating-point numbers. -/
namespace SwapDesk

namespace Json

mutual

/-- There is no floating-point number at any depth. -/
def floatFree : Json → Bool
  | .number (.float _) => false
  | .list items => itemsFloatFree items
  | .record fields => fieldsFloatFree fields
  | _ => true

def itemsFloatFree : List Json → Bool
  | [] => true
  | x :: items => x.floatFree && itemsFloatFree items

def fieldsFloatFree : List (String × Json) → Bool
  | [] => true
  | (_, x) :: fields => x.floatFree && fieldsFloatFree fields

end

theorem floatFree_list {items : List Json} :
    (Json.list items).floatFree = true ↔ ∀ x ∈ items, x.floatFree = true := by
  rw [floatFree]
  induction items with
  | nil => simp [itemsFloatFree]
  | cons x items ih => simp [itemsFloatFree, ih]

theorem floatFree_record {fields : List (String × Json)} :
    (Json.record fields).floatFree = true ↔ ∀ e ∈ fields, e.2.floatFree = true := by
  rw [floatFree]
  induction fields with
  | nil => simp [fieldsFloatFree]
  | cons e fields ih =>
    rw [fieldsFloatFree, Bool.and_eq_true, ih, List.forall_mem_cons]

end Json

/-- The values directly inside of a container. -/
def Reading.parts : Reading → List Reading
  | .list items _ => items
  | .record members _ => members.map Prod.snd
  | _ => []

theorem Reading.Within.part {n : Nat} {r q : Reading} (h : r.Within n) (hq : q ∈ r.parts) :
    q.Within (n - 1) := by
  cases h with
  | list h => exact h q hq
  | record h =>
    obtain ⟨e, he, rfl⟩ := List.mem_map.mp hq
    exact h e he
  | broken | null | bool | number | text | deep => cases hq

variable {α β : Type} {n : Nat} {r : Reading} {j : Json} {js : List Json} {items : List Reading}
  {members : List (Option String × Reading)} {fields fields' : List (String × Json)}
  {seen seen' : List (String × Reading)} {decode : Decoder α} {d e : Dict α} {k : String} {x : α}

namespace Decoder

/-- A text is decoded from what it spells, which keeps to the greatest depth. -/
theorem within_of_ofText {s : String} (h : ofText decode s = .ok x) :
    ∃ r, r.Within Reading.maxDepth ∧ decode r = .ok x := by
  have hwithin := Reading.within_ofChars s.toList
  rw [ofText] at h
  generalize Reading.ofChars s.toList = read at h hwithin
  obtain ⟨r, clean⟩ := read
  obtain ⟨y, hy, h⟩ := bind_eq_ok.mp h
  cases clean with
  | false => cases h
  | true =>
    cases h
    exact ⟨r, hwithin, hy⟩

/-! ### Any value -/

theorem mem_of_jsonItems (h : jsonItems items = .ok js) : ∀ x ∈ js, ∃ r ∈ items, json r = .ok x := by
  induction items generalizing js with
  | nil =>
    cases h
    exact List.forall_mem_nil _
  | cons r items ih =>
    rw [jsonItems, bind_eq_ok] at h
    obtain ⟨x, hx, h⟩ := h
    rw [bind_eq_ok] at h
    obtain ⟨rest, hrest, h⟩ := h
    cases h
    refine List.forall_mem_cons.mpr ⟨⟨r, List.mem_cons_self, hx⟩, ?_⟩
    intro y hy
    obtain ⟨q, hq, hjson⟩ := ih hrest y hy
    exact ⟨q, List.mem_cons_of_mem r hq, hjson⟩

theorem mem_of_jsonFields (h : jsonFields fields members = .ok fields') :
    ∀ e ∈ fields', e ∈ fields ∨ ∃ m ∈ members, json m.2 = .ok e.2 := by
  induction members generalizing fields with
  | nil =>
    cases h
    exact fun e he => .inl he
  | cons m members ih =>
    obtain ⟨_ | k, r⟩ := m
    · cases h
    · rw [jsonFields, bind_eq_ok] at h
      obtain ⟨x, hx, h⟩ := h
      intro e he
      rcases ih h e he with hfields | ⟨m, hm, hjson⟩
      · rcases mem_insertSorted hfields with rfl | hold
        · exact .inr ⟨(some k, r), List.mem_cons_self, hx⟩
        · exact .inl hold
      · exact .inr ⟨m, List.mem_cons_of_mem _ hm, hjson⟩

theorem ascending_of_jsonFields (h : jsonFields fields members = .ok fields') (ha : Ascending fields) :
    Ascending fields' := by
  induction members generalizing fields with
  | nil =>
    cases h
    exact ha
  | cons m members ih =>
    obtain ⟨_ | k, r⟩ := m
    · cases h
    · rw [jsonFields, bind_eq_ok] at h
      obtain ⟨x, hx, h⟩ := h
      exact ih h (ha.insertSorted k x)

/-- What is decoded has its fields in order, and nothing but floating-point numbers stands in the way of
writing it again. -/
theorem json_sound (hr : r.Within n) (h : json r = .ok j) :
    j.Sorted ∧ (j.floatFree = true → j.Legible n) := by
  induction hr generalizing j with
  | broken | deep =>
    cases h
  | null n =>
    cases h
    exact ⟨.null, fun _ => .null n⟩
  | bool n b =>
    cases h
    exact ⟨.bool b, fun _ => .bool n b⟩
  | @number n x hx =>
    cases x with
    | none => cases h
    | some x =>
      cases h
      refine ⟨.number x, fun hfree => ?_⟩
      cases x with
      | whole k => exact .whole n (hx k rfl)
      | float f => cases hfree
  | text n s =>
    cases s with
    | none => cases h
    | some s =>
      cases h
      exact ⟨.text s, fun _ => .text n s⟩
  | @list n items closed hitems ih =>
    rw [json, bind_eq_ok] at h
    obtain ⟨js, hjs, h⟩ := h
    cases closed with
    | false => cases h
    | true =>
      cases h
      constructor
      · refine .list fun x hx => ?_
        obtain ⟨r, hr, hjson⟩ := mem_of_jsonItems hjs x hx
        exact (ih r hr hjson).1
      · intro hfree
        refine .list fun x hx => ?_
        obtain ⟨r, hr, hjson⟩ := mem_of_jsonItems hjs x hx
        exact (ih r hr hjson).2 (Json.floatFree_list.mp hfree x hx)
  | @record n members closed hmembers ih =>
    rw [json, bind_eq_ok] at h
    obtain ⟨fields, hfields, h⟩ := h
    cases closed with
    | false => cases h
    | true =>
      cases h
      have hmem : ∀ e ∈ fields, ∃ m ∈ members, json m.2 = .ok e.2 := fun e he =>
        (mem_of_jsonFields hfields e he).resolve_left List.not_mem_nil
      constructor
      · refine .record (ascending_of_jsonFields hfields .nil) fun e he => ?_
        obtain ⟨m, hm, hjson⟩ := hmem e he
        exact (ih m hm hjson).1
      · intro hfree
        refine .record fun e he => ?_
        obtain ⟨m, hm, hjson⟩ := hmem e he
        exact (ih m hm hjson).2 (Json.floatFree_record.mp hfree e he)

/-! ### Maps -/

theorem mem_of_dictFrom (h : dictFrom decode d members = .ok e) (hx : e.find? k = some x) :
    d.find? k = some x ∨ ∃ m ∈ members, decode m.2 = .ok x := by
  induction members generalizing d with
  | nil =>
    cases h
    exact .inl hx
  | cons m members ih =>
    obtain ⟨_ | k', r⟩ := m
    · cases h
    · rw [dictFrom, bind_eq_ok] at h
      obtain ⟨y, hy, h⟩ := h
      rcases ih h with hold | ⟨m, hm, hdecode⟩
      · rw [Dict.find?_insert] at hold
        split at hold
        · cases hold
          exact .inr ⟨(some k', r), List.mem_cons_self, hy⟩
        · exact .inl hold
      · exact .inr ⟨m, List.mem_cons_of_mem _ hm, hdecode⟩

/-- Each value of a decoded map is decoded from a part of what was read. -/
theorem mem_of_dict (h : dict decode r = .ok e) (hx : e.find? k = some x) :
    ∃ q ∈ r.parts, decode q = .ok x := by
  cases r with
  | record members closed =>
    rw [dict, bind_eq_ok] at h
    obtain ⟨d, hd, h⟩ := h
    cases closed with
    | false => cases h
    | true =>
      cases h
      obtain ⟨m, hm, hdecode⟩ := (mem_of_dictFrom hd hx).resolve_left (by simp)
      exact ⟨m.2, List.mem_map_of_mem hm, hdecode⟩
  | broken | null | bool | number | text | list | deep => cases h

end Decoder

/-! ### Records -/

namespace Schema

variable {s : Schema α} {all : List Field} {name : String}

theorem mem_of_gather (h : gather all seen members = .ok seen') (hk : (k, r) ∈ seen') :
    (k, r) ∈ seen ∨ (some k, r) ∈ members := by
  induction members generalizing seen with
  | nil =>
    cases h
    exact .inl hk
  | cons m members ih =>
    obtain ⟨_, q⟩ := m
    obtain ⟨k', rfl, ⟨_, _, hrest⟩ | ⟨_, _, _, _, hrest⟩⟩ := gather_cons.mp h
    · exact (ih hrest).imp_right (List.mem_cons_of_mem _)
    · rcases ih hrest with hseen | hlater
      · rcases List.mem_cons.mp hseen with he | hseen
        · cases he
          exact .inr List.mem_cons_self
        · exact .inl hseen
      · exact .inr (List.mem_cons_of_mem _ hlater)

theorem mem_of_gatherItems {expected : String} {fs : List Field}
    (h : gatherItems expected seen fs items = .ok seen') (hk : (k, r) ∈ seen') :
    (k, r) ∈ seen ∨ r ∈ items := by
  induction fs generalizing seen items with
  | nil =>
    cases items with
    | nil =>
      cases h
      exact .inl hk
    | cons q items => cases h
  | cons f fs ih =>
    cases items with
    | nil =>
      rw [gatherItems] at h
      split at h
      · cases h
      · exact ih h
    | cons q items =>
      rw [gatherItems, bind_eq_ok] at h
      obtain ⟨_, _, h⟩ := h
      rcases ih h with hseen | hitems
      · rcases List.mem_cons.mp hseen with he | hseen
        · cases he
          exact .inr List.mem_cons_self
        · exact .inl hseen
      · exact .inr (List.mem_cons_of_mem q hitems)

/-- A decoded record is built from parts of what was read. -/
theorem build_of_decoder (h : s.decoder name r = .ok x) :
    ∃ readings, s.build readings = .ok x ∧ ∀ k q, readings k = some q → q ∈ r.parts := by
  cases r with
  | record members closed =>
    rw [decoder, bind_eq_ok] at h
    obtain ⟨seen, hseen, h⟩ := h
    cases closed with
    | false => cases h
    | true =>
      dsimp only [Bool.not_true] at h
      split at h
      · cases h
      · split at h
        · cases h
        · refine ⟨_, h, fun k q hq => ?_⟩
          have hm := (mem_of_gather hseen (mem_of_lookup_eq_some hq)).resolve_left List.not_mem_nil
          exact List.mem_map_of_mem (f := Prod.snd) hm
  | list items closed =>
    rw [decoder] at h
    dsimp only at h
    rw [bind_eq_ok] at h
    obtain ⟨seen, hseen, h⟩ := h
    cases closed with
    | false => cases h
    | true =>
      refine ⟨_, h, fun k q hq => ?_⟩
      exact (mem_of_gatherItems hseen (mem_of_lookup_eq_some hq)).resolve_left List.not_mem_nil
  | broken | null | bool | number | text | deep => cases h

variable {readings : String → Option Reading} {g : α → β} {y : β}

theorem build_map : (g <$> s).build readings = .ok y ↔ ∃ x, s.build readings = .ok x ∧ g x = y := by
  change g <$> s.build readings = .ok y ↔ _
  cases s.build readings <;> simp

theorem build_seq {s : Schema (α → β)} {t : Schema α} :
    (s <*> t).build readings = .ok y ↔
      ∃ g x, s.build readings = .ok g ∧ t.build readings = .ok x ∧ g x = y := by
  change (do let g ← s.build readings; return g (← t.build readings)) = _ ↔ _
  cases s.build readings <;> cases t.build readings <;> simp [bind, Except.bind, pure, Except.pure]

theorem build_required :
    (required name decode).build readings = .ok x ↔ ∃ r, readings name = some r ∧ decode r = .ok x := by
  unfold required
  cases h : readings name <;> simp [h]

theorem build_defaulting {value : α} :
    (defaulting name decode value).build readings = .ok x ↔
      readings name = none ∧ x = value ∨ ∃ r, readings name = some r ∧ decode r = .ok x := by
  unfold defaulting
  cases h : readings name <;> simp [h, eq_comm]

end Schema
end SwapDesk
