import SwapDesk.Json.Schema
import SwapDesk.Overflow
import SwapDesk.Proofs.Json.Reading
import Mathlib.Data.List.Forall2

/-! Decoders undo the encoders. A value, a map and a record are decoded from their own JSON as what they
were, as long as their parts are. -/
namespace SwapDesk

/-- The fields of each record are in key order, at any depth. -/
inductive Json.Sorted : Json → Prop
  | null : Sorted .null
  | bool (b : Bool) : Sorted (.bool b)
  | number (n : Number) : Sorted (.number n)
  | text (s : String) : Sorted (.text s)
  | list {items : List Json} (h : ∀ x ∈ items, Sorted x) : Sorted (.list items)
  | record {fields : List (String × Json)} (ha : Ascending fields)
      (h : ∀ e ∈ fields, Sorted e.2) : Sorted (.record fields)

variable {α β : Type} {k : String} {x : α} {l : List (String × α)}
  {fields rest : List (String × Json)} {j : Json}

theorem insertSorted_last (h : ∀ e ∈ l, e.1 < k) : insertSorted k x l = l ++ [(k, x)] := by
  induction l with
  | nil => rfl
  | cons e l ih =>
    have hlt : e.1 < k := h e List.mem_cons_self
    have hne : k ≠ e.1 := fun he => String.lt_irrefl e.1 (he ▸ hlt)
    rw [insertSorted, if_neg (String.lt_asymm hlt), if_neg hne,
      ih fun y hy => h y (List.mem_cons_of_mem e hy)]
    rfl

/-- The next pair of an ascending list comes behind those before it. -/
theorem Ascending.lt_next {y : String × α} {l' : List (String × α)} (h : Ascending (l ++ y :: l')) :
    ∀ e ∈ l, e.1 < y.1 := by
  intro e he
  exact (List.pairwise_append.mp h).2.2 e he y List.mem_cons_self

namespace Reading

variable {r : Reading} {members : List (Option String × Reading)}

/-- What stands under a key of an object, in the order of the text. -/
def under (k : String) (members : List (Option String × Reading)) : List Reading :=
  (members.filter (·.1 = some k)).map Prod.snd

theorem under_cons_self : under k ((some k, r) :: members) = r :: under k members := by
  simp [under]

theorem under_cons_ne {k' : String} (h : k' ≠ k) :
    under k ((some k', r) :: members) = under k members := by
  simp [under, h]

theorem mem_under : r ∈ under k members ↔ (some k, r) ∈ members := by
  simp [under]

theorem under_eq_nil_iff : under k members = [] ↔ some k ∉ members.map Prod.fst := by
  rw [List.eq_nil_iff_forall_not_mem]
  simp [mem_under]

end Reading

namespace Decoder

open Reading (ofItems ofFields)

variable {decode : Decoder α} {f : α → Json} {d e : Dict α} {r : Reading}
  {members : List (Option String × Reading)}

/-- The text of a value, with or without line breaks, is decoded as what it spells. -/
theorem ofText_render (decode : Decoder α) (j : Json) (depth : Option Nat) :
    ofText decode (String.ofList (j.render depth)) = decode (Reading.spelled 0 j) := by
  rw [ofText, String.toList_ofList, Reading.ofChars_render j depth]
  cases hx : decode (Reading.spelled 0 j) with
  | error cause => simp only [hx]; rfl
  | ok x => simp only [hx]; rfl

/-! ### Any value -/

theorem jsonItems_ofItems {items : List Json} (h : ∀ x ∈ items, ofJson json x = .ok x) :
    jsonItems (ofItems items) = .ok items := by
  induction items with
  | nil => rfl
  | cons x items ih =>
    have hx := h x List.mem_cons_self
    have hrest := ih fun y hy => h y (List.mem_cons_of_mem x hy)
    rw [ofJson] at hx
    rw [ofItems, jsonItems, hx, hrest]
    rfl

theorem jsonFields_ofFields (ha : Ascending (rest ++ fields))
    (h : ∀ e ∈ fields, ofJson json e.2 = .ok e.2) :
    jsonFields rest (ofFields fields) = .ok (rest ++ fields) := by
  induction fields generalizing rest with
  | nil =>
    rw [List.append_nil]
    rfl
  | cons e fields ih =>
    have hx := h e List.mem_cons_self
    have hnext := insertSorted_last (x := e.2) ha.lt_next
    have hmove : rest ++ e :: fields = rest ++ [(e.1, e.2)] ++ fields := by simp
    rw [hmove] at ha ⊢
    rw [ofJson] at hx
    rw [← ih ha fun y hy => h y (List.mem_cons_of_mem e hy), ← hnext, ofFields, jsonFields]
    simp only [hx]
    rfl

theorem json_ofJson (h : j.Sorted) : ofJson json j = .ok j := by
  induction h with
  | null => rfl
  | bool b => rfl
  | number n => rfl
  | text s => rfl
  | list h ih =>
    rw [ofJson, Reading.ofJson, json, jsonItems_ofItems ih]
    rfl
  | record ha h ih =>
    rw [ofJson, Reading.ofJson, json, jsonFields_ofFields (List.nil_append _ ▸ ha) ih]
    rfl

/-! ### Maps -/

theorem ofFields_eq (fields : List (String × Json)) :
    ofFields fields = fields.map fun e => (some e.1, Reading.ofJson e.2) := by
  induction fields with
  | nil => rfl
  | cons e fields ih => rw [ofFields, ih, List.map_cons]

theorem dictFrom_cons :
    dictFrom decode d ((some k, r) :: members) = .ok e ↔
      ∃ x, decode r = .ok x ∧ dictFrom decode (d.insert k x) members = .ok e := by
  rw [dictFrom, bind_eq_ok]

/-- Other keys are left alone. -/
theorem find?_dictFrom (h : dictFrom decode d members = .ok e)
    (hk : some k ∉ members.map Prod.fst) : e.find? k = d.find? k := by
  induction members generalizing d with
  | nil =>
    cases h
    rfl
  | cons m members ih =>
    obtain ⟨_ | k', r⟩ := m
    · cases h
    · obtain ⟨x, _, hrest⟩ := dictFrom_cons.mp h
      obtain ⟨hfirst, hlater⟩ := not_or.mp (List.mem_cons.not.mp hk)
      have hne : k ≠ k' := fun he => hfirst (congrArg some he)
      rw [ih hrest hlater, Dict.find?_insert_ne d hne]

/-- If the map is decoded then so is each of its values. -/
theorem find?_dictFrom_of_mem (h : dictFrom decode d members = .ok e)
    (hn : (members.map Prod.fst).Nodup) (hm : (some k, r) ∈ members) :
    ∃ x, decode r = .ok x ∧ e.find? k = some x := by
  induction members generalizing d with
  | nil => cases hm
  | cons m members ih =>
    obtain ⟨_ | k', q⟩ := m
    · cases h
    · obtain ⟨hfirst, hlater⟩ := List.nodup_cons.mp hn
      obtain ⟨x, hx, hrest⟩ := dictFrom_cons.mp h
      rcases List.mem_cons.mp hm with he | hm
      · cases he
        exact ⟨x, hx, (find?_dictFrom hrest hfirst).trans (Dict.find?_insert_self _ _ _)⟩
      · exact ih hrest hlater hm

/-- Of all that stands under a key the last counts. -/
theorem find?_dictFrom_of_last (h : dictFrom decode d members = .ok e)
    (hr : (Reading.under k members).getLast? = some r) :
    ∃ x, decode r = .ok x ∧ e.find? k = some x := by
  induction members generalizing d with
  | nil => cases hr
  | cons m members ih =>
    obtain ⟨_ | k', q⟩ := m
    · cases h
    · obtain ⟨x, hx, hrest⟩ := dictFrom_cons.mp h
      by_cases hk : k' = k
      · subst hk
        rw [Reading.under_cons_self, List.getLast?_cons] at hr
        cases hlast : (Reading.under k' members).getLast? with
        | some later =>
          rw [hlast] at hr
          exact ih hrest (hlast.trans hr)
        | none =>
          rw [hlast] at hr
          cases hr
          have hkeys := Reading.under_eq_nil_iff.mp (List.getLast?_eq_none_iff.mp hlast)
          exact ⟨x, hx, (find?_dictFrom hrest hkeys).trans (Dict.find?_insert_self _ _ _)⟩
      · rw [Reading.under_cons_ne hk] at hr
        exact ih hrest hr

/-- A map is decoded exactly if each key is a text and each value is decoded, those that do not count
included. -/
theorem dictFrom_isOk_iff :
    (∃ e, dictFrom decode d members = .ok e) ↔
      none ∉ members.map Prod.fst ∧ ∀ m ∈ members, ∃ x, decode m.2 = .ok x := by
  induction members generalizing d with
  | nil => simp [dictFrom]
  | cons m members ih =>
    obtain ⟨_ | k, r⟩ := m
    · refine iff_of_false ?_ fun h => h.1 List.mem_cons_self
      rintro ⟨_, h⟩
      cases h
    · rw [List.forall_mem_cons, List.map_cons, List.mem_cons]
      simp only [dictFrom_cons, reduceCtorEq, false_or]
      constructor
      · rintro ⟨e, x, hx, hrest⟩
        obtain ⟨hkeys, hvalues⟩ := ih.mp ⟨e, hrest⟩
        exact ⟨hkeys, ⟨x, hx⟩, hvalues⟩
      · rintro ⟨hkeys, ⟨x, hx⟩, hvalues⟩
        obtain ⟨e, he⟩ := ih.mpr ⟨hkeys, hvalues⟩
        exact ⟨e, x, hx, he⟩

theorem nodup_keys_of_ascending {g : String × Json → Reading} (ha : Ascending fields) :
    ((fields.map fun e => (some e.1, g e)).map Prod.fst).Nodup := by
  rw [List.map_map]
  refine List.pairwise_map.mpr (ha.imp fun h he => ?_)
  exact String.lt_irrefl _ (Option.some.inj he ▸ h)

/-- A map that is decoded from what the JSON of another one spells has the keys of that one, and values
decoded from what its values spell. -/
theorem find?_of_spelled {level : Nat} {f : β → Json} {b : Dict β}
    (h : dict decode (Reading.spelled level (.ofDict f b)) = .ok e)
    (hl : level < Reading.maxDepth) (k : String) :
    (e.find? k).map .ok =
      (b.find? k).map fun y => decode (Reading.spelled (level + 1) (f y)) := by
  have ha : Ascending (b.entries.map fun y => (y.1, f y.2)) := (b.map fun _ y => f y).ascending
  rw [Json.ofDict, Reading.spelled, Reading.sunk_of_lt hl, dict, Reading.spelledFields_eq,
    bind_eq_ok] at h
  obtain ⟨_, hfrom, h⟩ := h
  cases h
  cases hb : b.find? k with
  | none =>
    rw [find?_dictFrom hfrom]
    · rfl
    · intro hm
      simp only [List.map_map, List.mem_map, Function.comp_apply] at hm
      obtain ⟨y, hy, he⟩ := hm
      have hfind := b.mem_entries_iff.mp hy
      rw [Option.some.inj he, hb] at hfind
      cases hfind
  | some y =>
    have hm : (some k, Reading.spelled (level + 1) (f y)) ∈
        (b.entries.map fun y => (y.1, f y.2)).map
          fun e => (some e.1, Reading.spelled (level + 1) e.2) := by
      rw [List.map_map]
      exact List.mem_map.mpr ⟨(k, y), b.mem_entries_iff.mpr hb, rfl⟩
    obtain ⟨x, hx, hfind⟩ := find?_dictFrom_of_mem hfrom (nodup_keys_of_ascending ha) hm
    rw [hfind, Option.map_some, Option.map_some, hx]

theorem dictFrom_ofFields {es : List (String × α)} (ha : Ascending (d.entries ++ es))
    (h : ∀ y ∈ es, ofJson decode (f y.2) = .ok y.2) :
    dictFrom decode d (ofFields (es.map fun y => (y.1, f y.2))) = .ok ⟨d.entries ++ es, ha⟩ := by
  induction es generalizing d with
  | nil => exact congrArg Except.ok (Dict.ext_entries (List.append_nil d.entries).symm)
  | cons y es ih =>
    have hnext : (d.insert y.1 y.2).entries = d.entries ++ [y] := insertSorted_last ha.lt_next
    have hmove : d.entries ++ y :: es = (d.insert y.1 y.2).entries ++ es := by simp [hnext]
    have hrest := ih (hmove ▸ ha) fun z hz => h z (List.mem_cons_of_mem y hz)
    rw [List.map_cons, ofFields, dictFrom_cons]
    refine ⟨y.2, h y List.mem_cons_self, hrest.trans ?_⟩
    exact congrArg Except.ok (Dict.ext_entries hmove.symm)

/-- A map is decoded from its own JSON exactly if each of its values is. -/
theorem dict_ofDict_iff :
    ofJson (dict decode) (.ofDict f d) = .ok d ↔
      ∀ k x, d.find? k = some x → ofJson decode (f x) = .ok x := by
  let fields := d.entries.map fun y => (y.1, f y.2)
  have hdict : ofJson (dict decode) (.ofDict f d) = dictFrom decode .empty (ofFields fields) := by
    rw [ofJson, Json.ofDict, Reading.ofJson, dict]
    cases dictFrom decode .empty (ofFields fields) <;> rfl
  rw [hdict]
  constructor
  · intro h k x hx
    have ha : Ascending fields := (d.map fun _ y => f y).ascending
    have hm : (some k, Reading.ofJson (f x)) ∈ ofFields fields := by
      rw [ofFields_eq, List.map_map]
      exact List.mem_map.mpr ⟨(k, x), d.mem_entries_iff.mpr hx, rfl⟩
    have hn : ((ofFields fields).map Prod.fst).Nodup :=
      ofFields_eq fields ▸ nodup_keys_of_ascending ha
    obtain ⟨y, hy, hfind⟩ := find?_dictFrom_of_mem h hn hm
    rw [hx] at hfind
    cases hfind
    exact hy
  · intro h
    exact dictFrom_ofFields (d := .empty) d.ascending fun y hy =>
      h y.1 y.2 (d.mem_entries_iff.mp hy)

end Decoder

/-! ### Records -/

theorem lookup_eq_some_of_nodup (h : (l.map Prod.fst).Nodup) (hm : (k, x) ∈ l) :
    lookup k l = some x := by
  induction l with
  | nil => cases hm
  | cons e l ih =>
    obtain ⟨hnew, hrest⟩ := List.nodup_cons.mp h
    rcases List.mem_cons.mp hm with rfl | hm
    · exact if_pos rfl
    · have hne : k ≠ e.1 := fun he => hnew (he ▸ List.mem_map_of_mem hm)
      exact (if_neg hne).trans (ih hrest hm)

theorem lookup_eq_none_of_notMem (h : k ∉ l.map Prod.fst) : lookup k l = none := by
  induction l with
  | nil => rfl
  | cons e l ih =>
    rw [List.map_cons, List.mem_cons, not_or] at h
    exact (if_neg h.1).trans (ih h.2)

namespace Schema

open Reading (ofFields)

variable {s : Schema α} {t : Schema β} {name : String} {decode : Decoder α} {f : Field}
  {fs all : List Field} {more : List (String × Json)} {seen seen' : List (String × Reading)}
  {key : Option String} {r : Reading} {members : List (Option String × Reading)}

/-- The value passes the check of the field of this name. -/
def Passes (f : Field) (e : String × Json) : Prop :=
  f.name = e.1 ∧ f.check (Reading.ofJson e.2) = .ok ()

/-- An object with these fields, given in the order of declaration, stands for this value. -/
structure Accepts (s : Schema α) (fields : List (String × Json)) (x : α) : Prop where
  passes : List.Forall₂ Passes s.fields fields
  build : ∀ readings, (∀ e ∈ fields, readings e.1 = some (Reading.ofJson e.2)) →
    s.build readings = .ok x

theorem accepts_required {x : α} (name : String) (h : Decoder.ofJson decode j = .ok x) :
    Accepts (.required name decode) [(name, j)] x where
  passes := by
    refine .cons ⟨rfl, ?_⟩ .nil
    rw [Decoder.ofJson] at h
    simp only [h]
    rfl
  build readings hr := by
    have hfield := hr (name, j) List.mem_cons_self
    simp only [required, hfield]
    exact h

theorem accepts_defaulting {x : α} (name : String) (value : α) (h : Decoder.ofJson decode j = .ok x) :
    Accepts (.defaulting name decode value) [(name, j)] x where
  passes := by
    refine .cons ⟨rfl, ?_⟩ .nil
    rw [Decoder.ofJson] at h
    simp only [h]
    rfl
  build readings hr := by
    have hfield := hr (name, j) List.mem_cons_self
    simp only [defaulting, hfield]
    exact h

theorem Accepts.map {x : α} (h : Accepts s fields x) (g : α → β) :
    Accepts (g <$> s) fields (g x) where
  passes := h.passes
  build readings hr := by
    change g <$> s.build readings = _
    rw [h.build readings hr]
    rfl

theorem Accepts.seq {s : Schema (α → β)} {t : Schema α} {g : α → β} {x : α}
    (h : Accepts s fields g) (h' : Accepts t more x) : Accepts (s <*> t) (fields ++ more) (g x) where
  passes := List.rel_append h.passes h'.passes
  build readings hr := by
    have hg := h.build readings fun e he => hr e (List.mem_append_left more he)
    have hx := h'.build readings fun e he => hr e (List.mem_append_right fields he)
    change (do let g ← s.build readings; return g (← t.build readings)) = _
    rw [hg, hx]
    rfl

theorem find?_of_nodup (h : (all.map (·.name)).Nodup) (hf : f ∈ all) :
    all.find? (·.name == f.name) = some f := by
  induction all with
  | nil => cases hf
  | cons g all ih =>
    obtain ⟨hnew, hrest⟩ := List.nodup_cons.mp h
    rcases List.mem_cons.mp hf with rfl | hf
    · simp
    · have hne : g.name ≠ f.name := by
        intro he
        exact hnew (List.mem_map.mpr ⟨f, hf, he.symm⟩)
      rw [List.find?_cons_of_neg (by simpa using hne)]
      exact ih hrest hf

/-- The fields of an object are gathered one by one, the last one first. -/
theorem gather_ofFields (h : List.Forall₂ Passes fs fields)
    (hfind : ∀ f ∈ fs, all.find? (·.name == f.name) = some f)
    (hnew : (fields.map Prod.fst ++ seen.map Prod.fst).Nodup) :
    gather all seen (ofFields fields) =
      .ok ((fields.map fun e => (e.1, Reading.ofJson e.2)).reverse ++ seen) := by
  induction h generalizing seen with
  | nil => rfl
  | @cons f e fs fields hf _ ih =>
    obtain ⟨hname, hcheck⟩ := hf
    have hknown := hname ▸ hfind f List.mem_cons_self
    have hfresh : lookup e.1 seen = none := by
      apply lookup_eq_none_of_notMem
      intro hm
      exact (List.nodup_cons.mp hnew).1 (List.mem_append_right _ hm)
    have hlater : (fields.map Prod.fst ++
        ((e.1, Reading.ofJson e.2) :: seen).map Prod.fst).Nodup :=
      List.perm_middle.nodup_iff.mpr hnew
    have hrest := ih (fun g hg => hfind g (List.mem_cons_of_mem f hg)) hlater
    rw [ofFields, gather]
    simp only [hknown, hfresh, hcheck, Option.isSome_none, Bool.false_eq_true, if_false]
    refine hrest.trans ?_
    rw [List.map_cons, List.reverse_cons, List.append_assoc]
    rfl

/-- A field that is not known is passed over, and a known one is checked and comes only once. -/
theorem gather_cons :
    gather all seen ((key, r) :: members) = .ok seen' ↔
      ∃ k, key = some k ∧
        (all.find? (·.name == k) = none ∧ r.isWhole = true ∧ gather all seen members = .ok seen' ∨
          ∃ f, all.find? (·.name == k) = some f ∧ lookup k seen = none ∧ f.check r = .ok () ∧
            gather all ((k, r) :: seen) members = .ok seen') := by
  cases key with
  | none =>
    constructor
    · intro h
      cases h
    · rintro ⟨k, hk, _⟩
      cases hk
  | some k =>
    simp only [Option.some.injEq, exists_eq_left']
    rw [gather]
    cases hf : all.find? (·.name == k) with
    | none => cases r.isWhole <;> simp
    | some f =>
      cases lookup k seen with
      | none => simp [bind_eq_ok, Unique.exists_iff]
      | some q => simp [bind_eq_ok]

/-- Nothing is gathered that does not pass the check of its field. -/
theorem check_of_gather (h : gather all seen members = .ok seen') (hm : (some k, r) ∈ members)
    (hf : all.find? (·.name == k) = some f) : f.check r = .ok () := by
  induction members generalizing seen with
  | nil => cases hm
  | cons m members ih =>
    obtain ⟨_, q⟩ := m
    obtain ⟨k', rfl, ⟨hnone, _, hrest⟩ | ⟨g, hg, _, hcheck, hrest⟩⟩ := gather_cons.mp h
    · rcases List.mem_cons.mp hm with he | hm
      · cases he
        rw [hnone] at hf
        cases hf
      · exact ih hrest hm
    · rcases List.mem_cons.mp hm with he | hm
      · cases he
        rw [hg] at hf
        cases hf
        exact hcheck
      · exact ih hrest hm

/-- What is gathered once stays. -/
theorem lookup_of_gather (h : gather all seen members = .ok seen') (hk : lookup k seen = some r) :
    lookup k seen' = some r := by
  induction members generalizing seen with
  | nil =>
    cases h
    exact hk
  | cons m members ih =>
    obtain ⟨_, q⟩ := m
    obtain ⟨k', rfl, ⟨_, _, hrest⟩ | ⟨_, _, hnew, _, hrest⟩⟩ := gather_cons.mp h
    · exact ih hrest hk
    · refine ih hrest ?_
      have hne : k ≠ k' := by
        rintro rfl
        rw [hnew] at hk
        cases hk
      exact (if_neg hne).trans hk

/-- Each known field is gathered. -/
theorem lookup_of_gather_of_mem (h : gather all seen members = .ok seen')
    (hm : (some k, r) ∈ members) (hf : (all.find? (·.name == k)).isSome) :
    lookup k seen' = some r := by
  induction members generalizing seen with
  | nil => cases hm
  | cons m members ih =>
    obtain ⟨_, q⟩ := m
    obtain ⟨k', rfl, ⟨hnone, _, hrest⟩ | ⟨g, hg, _, _, hrest⟩⟩ := gather_cons.mp h
    · rcases List.mem_cons.mp hm with he | hm
      · cases he
        rw [hnone] at hf
        cases hf
      · exact ih hrest hm
    · rcases List.mem_cons.mp hm with he | hm
      · cases he
        exact lookup_of_gather hrest (if_pos rfl)
      · exact ih hrest hm

theorem check_of_decoder {x : α} (h : Decoder.ofJson (s.decoder name) (.record fields) = .ok x)
    (hm : (k, j) ∈ fields) (hf : s.fields.find? (·.name == k) = some f) :
    f.check (Reading.ofJson j) = .ok () := by
  rw [Decoder.ofJson, Reading.ofJson, decoder, bind_eq_ok] at h
  obtain ⟨seen, hg, _⟩ := h
  refine check_of_gather hg ?_ hf
  rw [Decoder.ofFields_eq]
  exact List.mem_map_of_mem (f := fun e => (some e.1, Reading.ofJson e.2)) hm

/-- A record that is decoded from an object is built from all of its known fields. -/
theorem build_of_members {x : α} (h : s.decoder name (.record members true) = .ok x) :
    ∃ readings, s.build readings = .ok x ∧
      ∀ k r, (some k, r) ∈ members → (s.fields.find? (·.name == k)).isSome →
        readings k = some r := by
  rw [decoder, bind_eq_ok] at h
  obtain ⟨seen, hseen, h⟩ := h
  dsimp only [Bool.not_true] at h
  rw [if_neg (by decide)] at h
  split at h
  · cases h
  · exact ⟨_, h, fun k r hm hf => lookup_of_gather_of_mem hseen hm hf⟩

theorem names_of_passes (h : List.Forall₂ Passes fs fields) :
    fs.map (·.name) = fields.map Prod.fst := by
  induction h with
  | nil => rfl
  | cons hf _ ih => rw [List.map_cons, List.map_cons, hf.1, ih]

theorem decoder_ofJson {x : α} (h : Accepts s fields x) (hs : (s.fields.map (·.name)).Nodup)
    (name : String) : Decoder.ofJson (s.decoder name) (.record fields) = .ok x := by
  let found := (fields.map fun e => (e.1, Reading.ofJson e.2)).reverse
  have hnames := names_of_passes h.passes
  have hnew := hnames ▸ hs
  have hgather : gather s.fields [] (ofFields fields) = .ok found := by
    rw [gather_ofFields h.passes fun f hf => find?_of_nodup hs hf]
    · exact congrArg Except.ok (List.append_nil found)
    · simpa using hnew
  have hkeys : (found.map Prod.fst).Perm (fields.map Prod.fst) := by
    refine ((List.reverse_perm _).map Prod.fst).trans ?_
    rw [List.map_map]
    exact .refl _
  have hfound : ∀ e ∈ fields, lookup e.1 found = some (Reading.ofJson e.2) := by
    intro e he
    apply lookup_eq_some_of_nodup (hkeys.nodup_iff.mpr hnew)
    exact List.mem_reverse.mpr (List.mem_map_of_mem he)
  have hnone : (s.fields.find? fun f => f.required && (lookup f.name found).isNone) = none := by
    apply List.find?_eq_none.mpr
    intro f hf
    have hm : f.name ∈ fields.map Prod.fst := hnames ▸ List.mem_map_of_mem hf
    obtain ⟨e, he, hname⟩ := List.mem_map.mp hm
    rw [← hname, hfound e he]
    simp
  rw [Decoder.ofJson, Reading.ofJson, decoder, hgather]
  simp only [bind, Except.bind, Bool.not_true, Bool.false_eq_true, if_false, hnone]
  exact h.build _ hfound

end Schema
end SwapDesk
