import SwapDesk.Proofs.Json.Soundness

/-! Which records a schema decodes. A record presents a reading for some of the names that the
schema knows; it is decoded exactly if it does so properly and the schema builds a value from them
(`Schema.decoder_eq_ok_iff`). The order of the fields, and which fault comes first, do not matter
for this. -/
namespace SwapDesk

namespace Reading

/-- The keys of a record that are among these names, in the order of the text. -/
def knownKeys (names : List String) (members : List (Option String × Reading)) : List String :=
  (members.filterMap Prod.fst).filter (· ∈ names)

/-- A record presents these fields for the names. -/
inductive Presents (names : List String) : Reading → (String → Option Reading) → Prop
  /-- An object: each key is a text, each name comes at most once, and under other keys there is no
  fault of form. -/
  | record {members : List (Option String × Reading)} {fields : String → Option Reading}
      (hkeys : none ∉ members.map Prod.fst) (honce : (knownKeys names members).Nodup)
      (hfields : ∀ k ∈ names, ∀ q, fields k = some q ↔ (some k, q) ∈ members)
      (hrest : ∀ k ∉ names, ∀ q, (some k, q) ∈ members → q.isWhole = true) :
      Presents names (.record members true) fields
  /-- An array: the fields in the order of the names, from the first one on. -/
  | list {items : List Reading} {fields : String → Option Reading}
      (hlength : items.length ≤ names.length)
      (hfields : ∀ i (h : i < names.length), fields names[i] = items[i]?) :
      Presents names (.list items true) fields

variable {names : List String} {members : List (Option String × Reading)} {k : String} {r : Reading}

theorem knownKeys_cons_of_mem (h : k ∈ names) :
    knownKeys names ((some k, r) :: members) = k :: knownKeys names members := by
  simp [knownKeys, h]

theorem knownKeys_cons_of_notMem (h : k ∉ names) :
    knownKeys names ((some k, r) :: members) = knownKeys names members := by
  simp [knownKeys, h]

end Reading

/-- The decoder takes the value for `x`. -/
def Decoder.Gives {α : Type} (decode : Decoder α) (r : Reading) (x : α) : Prop := decode r = .ok x

/-- A text is decoded exactly if it spells one value and nothing else, and that value is decoded. -/
theorem Decoder.ofText_eq_ok {α : Type} {decode : Decoder α} {text : String} {x : α} :
    Decoder.ofText decode text = .ok x ↔
      ∃ r, Reading.ofChars text.toList = (r, true) ∧ decode r = .ok x := by
  rw [Decoder.ofText]
  obtain ⟨r, clean⟩ := Reading.ofChars text.toList
  cases clean with
  | true => simp
  | false => simp [bind_eq_ok]

theorem lookup_eq_none_iff {α : Type} {k : String} {l : List (String × α)} :
    lookup k l = none ↔ k ∉ l.map Prod.fst := by
  refine ⟨fun h hm => ?_, lookup_eq_none_of_notMem⟩
  induction l with
  | nil => cases hm
  | cons e l ih =>
    by_cases hk : k = e.1
    · rw [lookup, if_pos hk] at h
      cases h
    · rw [lookup, if_neg hk] at h
      exact ih h ((List.mem_cons.mp hm).resolve_left hk)

namespace Schema

open Reading (Presents knownKeys knownKeys_cons_of_mem knownKeys_cons_of_notMem)

variable {α β : Type} {s : Schema α} {decode : Decoder α} {all fs : List Field}
  {name expected : String}
  {seen seen' : List (String × Reading)} {members : List (Option String × Reading)}
  {items : List Reading} {fields : String → Option Reading} {k : String} {q r : Reading} {x : α}

def names (s : Schema α) : List String := s.fields.map (·.name)

theorem length_names (s : Schema α) : s.names.length = s.fields.length := List.length_map _

theorem getElem_names (s : Schema α) {i : Nat} (h : i < s.names.length) (hf : i < s.fields.length) :
    s.names[i] = s.fields[i].name := List.getElem_map _

/-- What stands for a field passes its check, and something does if it has to. -/
def Admits (f : Field) : Option Reading → Prop
  | none => f.required = false
  | some q => f.check q = .ok ()

/-- A value is built from proper fields only, and from nothing but them. -/
class Lawful (s : Schema α) : Prop where
  admits : ∀ {fields x}, s.build fields = .ok x → ∀ f ∈ s.fields, Admits f (fields f.name)
  congr : ∀ {fields fields'}, (∀ k ∈ s.names, fields k = fields' k) →
    s.build fields = s.build fields'

theorem check_of_decode (h : decode q = .ok x) :
    (do let _ ← decode q : Except Fault Unit) = .ok () := by
  rw [h]
  rfl

instance lawful_required (name : String) (decode : Decoder α) : (required name decode).Lawful where
  admits h f hf := by
    obtain ⟨q, hq, hx⟩ := build_required.mp h
    cases List.mem_singleton.mp hf
    exact hq.symm ▸ check_of_decode hx
  congr h := by
    have hname := h name List.mem_cons_self
    simp only [required, hname]

instance lawful_defaulting (name : String) (decode : Decoder α) (value : α) :
    (defaulting name decode value).Lawful where
  admits h f hf := by
    cases List.mem_singleton.mp hf
    obtain ⟨hnone, _⟩ | ⟨q, hq, hx⟩ := build_defaulting.mp h
    · exact hnone.symm ▸ rfl
    · exact hq.symm ▸ check_of_decode hx
  congr h := by
    have hname := h name List.mem_cons_self
    simp only [defaulting, hname]

instance lawful_map [h : s.Lawful] (g : α → β) : (g <$> s).Lawful where
  admits hb := by
    obtain ⟨x, hx, _⟩ := build_map.mp hb
    exact h.admits hx
  congr hf := congrArg (g <$> ·) (h.congr hf)

theorem names_seq {s : Schema (α → β)} {t : Schema α} : (s <*> t).names = s.names ++ t.names :=
  List.map_append

instance lawful_seq {s : Schema (α → β)} {t : Schema α} [h : s.Lawful] [h' : t.Lawful] :
    (s <*> t).Lawful where
  admits hb f hf := by
    obtain ⟨g, x, hg, hx, _⟩ := build_seq.mp hb
    rcases List.mem_append.mp hf with hf | hf
    · exact h.admits hg f hf
    · exact h'.admits hx f hf
  congr {fields fields'} hf := by
    rw [names_seq] at hf
    have hleft := h.congr fun k hk => hf k (List.mem_append_left _ hk)
    have hright := h'.congr fun k hk => hf k (List.mem_append_right _ hk)
    change (do let g ← s.build fields; return g (← t.build fields)) =
      (do let g ← s.build fields'; return g (← t.build fields'))
    rw [hleft, hright]

/-! ### Objects -/

/-- A member that may stand in an object with these fields. -/
def Suits (all : List Field) (m : Option String × Reading) : Prop :=
  ∃ k, m.1 = some k ∧
    match all.find? (·.name == k) with
    | some f => f.check m.2 = .ok ()
    | none => m.2.isWhole = true

theorem find?_eq_none_iff : all.find? (·.name == k) = none ↔ k ∉ all.map (·.name) := by
  simp [List.find?_eq_none]

/-- The members of an object are gathered exactly if each may stand there and none that is known
comes twice. -/
theorem gather_isOk_iff :
    (∃ seen', gather all seen members = .ok seen') ↔
      (∀ m ∈ members, Suits all m) ∧ (knownKeys (all.map (·.name)) members).Nodup ∧
        (knownKeys (all.map (·.name)) members).Disjoint (seen.map Prod.fst) := by
  induction members generalizing seen with
  | nil => simp [gather, knownKeys]
  | cons m members ih =>
    obtain ⟨_ | k, r⟩ := m
    · constructor
      · rintro ⟨_, h⟩
        cases h
      · rintro ⟨h, _⟩
        obtain ⟨k, hk, _⟩ := h _ List.mem_cons_self
        cases hk
    · simp only [gather_cons, Option.some.injEq, exists_eq_left', List.forall_mem_cons, Suits]
      cases hf : all.find? (·.name == k) with
      | none =>
        rw [knownKeys_cons_of_notMem (find?_eq_none_iff.mp hf)]
        simp only [true_and, reduceCtorEq, false_and, exists_false, or_false, exists_and_left, ih,
          and_assoc, Suits]
      | some f =>
        have hk : k ∈ all.map (·.name) := by
          by_contra hk
          rw [find?_eq_none_iff.mpr hk] at hf
          cases hf
        rw [knownKeys_cons_of_mem hk]
        simp only [reduceCtorEq, false_and, false_or, Option.some.injEq, exists_eq_left',
          exists_and_left, ih, Suits, List.map_cons, List.nodup_cons, List.disjoint_cons_left,
          List.disjoint_cons_right, lookup_eq_none_iff]
        tauto

theorem isSome_find?_iff : (all.find? (·.name == k)).isSome ↔ k ∈ all.map (·.name) := by
  rw [← not_iff_not, Bool.not_eq_true, Option.isSome_eq_false_iff, Option.isNone_iff_eq_none,
    find?_eq_none_iff]

/-- What is gathered under a known name is what stands in the object. -/
theorem lookup_of_gather_iff (h : gather all [] members = .ok seen') (hk : k ∈ all.map (·.name)) :
    lookup k seen' = some q ↔ (some k, q) ∈ members := by
  constructor
  · intro hq
    exact (mem_of_gather h (mem_of_lookup_eq_some hq)).resolve_left List.not_mem_nil
  · intro hm
    exact lookup_of_gather_of_mem h hm (isSome_find?_iff.mpr hk)

/-- An object is decoded exactly if its members can be gathered and a value built from them. -/
theorem decoder_record_eq_ok :
    s.decoder name (.record members true) = .ok x ↔
      ∃ seen, gather s.fields [] members = .ok seen ∧
        (∀ f ∈ s.fields, f.required = true → lookup f.name seen ≠ none) ∧
        s.build (fun k => lookup k seen) = .ok x := by
  rw [decoder, bind_eq_ok]
  refine exists_congr fun seen => and_congr_right fun _ => ?_
  simp only [Bool.not_true, Bool.false_eq_true, if_false]
  cases hf : s.fields.find? fun f => f.required && (lookup f.name seen).isNone with
  | some f =>
    have hfound := List.find?_some hf
    simp only [Bool.and_eq_true, Option.isNone_iff_eq_none] at hfound
    constructor
    · intro h
      cases h
    · rintro ⟨h, _⟩
      exact absurd hfound.2 (h f (List.mem_of_find?_eq_some hf) hfound.1)
  | none =>
    have hall := List.find?_eq_none.mp hf
    refine (and_iff_right fun f hf hr hnone => hall f hf ?_).symm
    simp [hr, hnone]

theorem decoder_record_iff [hs : s.Lawful] (hn : s.names.Nodup) :
    s.decoder name (.record members true) = .ok x ↔
      ∃ fields, (Reading.record members true).Presents s.names fields ∧ s.build fields = .ok x := by
  rw [decoder_record_eq_ok]
  constructor
  · rintro ⟨seen, hseen, _, hbuild⟩
    obtain ⟨hsuits, honce, _⟩ := gather_isOk_iff.mp ⟨seen, hseen⟩
    refine ⟨_, .record ?_ honce (fun k hk q => lookup_of_gather_iff hseen hk) ?_, hbuild⟩
    · intro hnone
      obtain ⟨m, hm, he⟩ := List.mem_map.mp hnone
      obtain ⟨k, hk, _⟩ := hsuits m hm
      rw [he] at hk
      cases hk
    · intro k hk q hq
      obtain ⟨_, ⟨⟩, hwhole⟩ := hsuits _ hq
      rwa [find?_eq_none_iff.mpr hk] at hwhole
  · rintro ⟨fields, hp, hbuild⟩
    cases hp with
    | record hkeys honce hfields hrest =>
      have hadmits := hs.admits hbuild
      have hsuits : ∀ m ∈ members, Suits s.fields m := by
        rintro ⟨_ | k, q⟩ hm
        · exact absurd (List.mem_map_of_mem hm) hkeys
        · refine ⟨k, rfl, ?_⟩
          by_cases hk : k ∈ s.names
          · obtain ⟨f, hf, rfl⟩ := List.mem_map.mp hk
            have hcheck := hadmits f hf
            rw [(hfields _ hk q).mpr hm] at hcheck
            rw [find?_of_nodup hn hf]
            exact hcheck
          · rw [find?_eq_none_iff.mpr hk]
            exact hrest k hk q hm
      obtain ⟨seen, hseen⟩ : ∃ seen, gather s.fields [] members = .ok seen :=
        gather_isOk_iff.mpr ⟨hsuits, honce, List.disjoint_nil_right _⟩
      have hsame : ∀ k ∈ s.names, lookup k seen = fields k := by
        intro k hk
        refine Option.ext fun q => ?_
        rw [lookup_of_gather_iff hseen hk, hfields k hk]
      refine ⟨seen, hseen, fun f hf hr hnone => ?_, (hs.congr hsame).trans hbuild⟩
      have hcheck := hadmits f hf
      rw [← hsame _ (List.mem_map_of_mem hf), hnone, Admits, hr] at hcheck
      cases hcheck

/-! ### Arrays -/

/-- The items of an array are the first fields, each passes its check, and the fields left over may
be missing. -/
theorem gatherItems_eq_ok :
    gatherItems expected seen fs items = .ok seen' ↔
      items.length ≤ fs.length ∧ (∀ p ∈ fs.zip items, p.1.check p.2 = .ok ()) ∧
        (∀ f ∈ fs.drop items.length, f.required = false) ∧
        seen' = ((fs.map (·.name)).zip items).reverse ++ seen := by
  induction fs generalizing seen items with
  | nil =>
    cases items with
    | nil =>
      rw [gatherItems, Except.ok.injEq, eq_comm]
      simp
    | cons r items => simp [gatherItems]
  | cons f fs ih =>
    cases items with
    | nil => cases hf : f.required <;> simp [gatherItems, hf, ih]
    | cons r items =>
      rw [gatherItems, bind_eq_ok]
      simp [Unique.exists_iff, ih, and_assoc, and_left_comm]

theorem lookup_zip {names : List String} (hn : names.Nodup) {i : Nat} (hi : i < names.length) :
    lookup names[i] (names.zip items) = items[i]? := by
  induction names generalizing i items with
  | nil => exact absurd hi (Nat.not_lt_zero i)
  | cons n names ih =>
    obtain ⟨hnew, hrest⟩ := List.nodup_cons.mp hn
    cases items with
    | nil => rfl
    | cons r items =>
      cases i with
      | zero => exact if_pos rfl
      | succ i =>
        have hi := Nat.lt_of_succ_lt_succ hi
        have hne : names[i] ≠ n := fun he => hnew (he ▸ List.getElem_mem hi)
        exact (if_neg hne).trans (ih hrest hi)

theorem map_fst_zip_sublist (names : List String) (items : List Reading) :
    ((names.zip items).map Prod.fst).Sublist names := by
  induction names generalizing items with
  | nil => exact List.nil_sublist _
  | cons n names ih =>
    cases items with
    | nil => exact List.nil_sublist _
    | cons r items => exact (ih items).cons_cons n

theorem decoder_list_iff [hs : s.Lawful] (hn : s.names.Nodup) :
    s.decoder name (.list items true) = .ok x ↔
      ∃ fields, (Reading.list items true).Presents s.names fields ∧ s.build fields = .ok x := by
  have hfound : ∀ i (h : i < s.names.length),
      lookup s.names[i] (s.names.zip items).reverse = items[i]? := by
    intro i hi
    have hkeys : ((s.names.zip items).map Prod.fst).Nodup := hn.sublist (map_fst_zip_sublist _ _)
    rw [← lookup_zip hn hi]
    refine Option.ext fun q => ⟨fun h => ?_, fun h => ?_⟩
    · exact lookup_eq_some_of_nodup hkeys (List.mem_reverse.mp (mem_of_lookup_eq_some h))
    · refine lookup_eq_some_of_nodup ?_ (List.mem_reverse.mpr (mem_of_lookup_eq_some h))
      exact ((List.reverse_perm _).map Prod.fst).nodup_iff.mpr hkeys
  simp only [decoder, bind_eq_ok, gatherItems_eq_ok, Bool.not_true, Bool.false_eq_true, if_false,
    List.append_nil]
  constructor
  · rintro ⟨_, ⟨hlength, _, _, rfl⟩, hbuild⟩
    exact ⟨_, .list (s.length_names.symm ▸ hlength) hfound, hbuild⟩
  · rintro ⟨fields, hp, hbuild⟩
    cases hp with
    | list hlength hfields =>
      have hsame : ∀ k ∈ s.names, lookup k (s.names.zip items).reverse = fields k := by
        intro k hk
        obtain ⟨i, hi, rfl⟩ := List.getElem_of_mem hk
        rw [hfound i hi, hfields i hi]
      have hadmits : ∀ i (h : i < s.fields.length), Admits s.fields[i] items[i]? := by
        intro i hi
        have hcheck := hs.admits hbuild _ (List.getElem_mem hi)
        rwa [← s.getElem_names (s.length_names ▸ hi) hi, hfields i (s.length_names ▸ hi)] at hcheck
      refine ⟨_, ⟨s.length_names ▸ hlength, ?_, ?_, rfl⟩, (hs.congr hsame).trans hbuild⟩
      · intro p hp
        obtain ⟨i, hi, rfl⟩ := List.getElem_of_mem hp
        rw [List.length_zip] at hi
        have hcheck := hadmits i (by omega)
        rw [List.getElem?_eq_getElem (by omega)] at hcheck
        rw [List.getElem_zip]
        exact hcheck
      · intro f hf
        obtain ⟨i, hi, rfl⟩ := List.getElem_of_mem hf
        rw [List.length_drop] at hi
        have hcheck := hadmits (items.length + i) (by omega)
        rw [List.getElem?_eq_none (by omega)] at hcheck
        rw [List.getElem_drop]
        exact hcheck

/-- A record is decoded exactly if it presents fields that the schema builds a value from. -/
theorem decoder_eq_ok_iff [hs : s.Lawful] (hn : s.names.Nodup) (name : String) :
    s.decoder name r = .ok x ↔ ∃ fields, r.Presents s.names fields ∧ s.build fields = .ok x := by
  cases r with
  | record members closed =>
    cases closed with
    | true => exact decoder_record_iff hn
    | false =>
      constructor
      · intro h
        obtain ⟨_, _, h⟩ := bind_eq_ok.mp h
        cases h
      · rintro ⟨_, ⟨⟩, _⟩
  | list items closed =>
    cases closed with
    | true => exact decoder_list_iff hn
    | false =>
      constructor
      · intro h
        obtain ⟨_, _, h⟩ := bind_eq_ok.mp h
        cases h
      · rintro ⟨_, ⟨⟩, _⟩
  | broken | null | bool | number | text | deep =>
    constructor
    · intro h
      cases h
    · rintro ⟨_, ⟨⟩, _⟩

/-! ### Single fields -/

instance lawful_optional (name : String) (decode : Decoder α) : (optional name decode).Lawful :=
  lawful_defaulting name _ none

/-- The field is there and stands for `x`. -/
def Holds (fields : String → Option Reading) (k : String) (P : Reading → α → Prop) (x : α) : Prop :=
  ∃ q, fields k = some q ∧ P q x

/-- The field stands for the value, or it is missing or null and there is none. -/
def MayHold (fields : String → Option Reading) (k : String) (P : Reading → α → Prop) :
    Option α → Prop
  | none => fields k = none ∨ fields k = some .null
  | some x => fields k ≠ some .null ∧ Holds fields k P x

@[simp] theorem build_holds :
    (required k decode).build fields = .ok x ↔ Holds fields k decode.Gives x :=
  build_required

theorem optional_eq_ok {x : Option α} :
    Decoder.optional decode q = .ok x ↔
      q = .null ∧ x = none ∨ q ≠ .null ∧ ∃ y, decode q = .ok y ∧ x = some y := by
  have hsome : some <$> decode q = .ok x ↔ ∃ y, decode q = .ok y ∧ x = some y := by
    cases decode q <;> simp [eq_comm]
  cases q with
  | null => simp [Decoder.optional, eq_comm]
  | broken | bool | number | text | list | record | deep => simpa [Decoder.optional] using hsome

@[simp] theorem build_mayHold {x : Option α} :
    (optional k decode).build fields = .ok x ↔ MayHold fields k decode.Gives x := by
  rw [optional, build_defaulting]
  simp only [optional_eq_ok]
  cases hk : fields k with
  | none => cases x <;> simp [MayHold, Holds, hk]
  | some q => cases x <;> simp [MayHold, Holds, Decoder.Gives, hk]

attribute [simp] build_map build_seq

/-- A record is decoded exactly if the value is built from the fields that it presents. -/
theorem decoder_iff_of_build {P : (String → Option Reading) → Prop} [hs : s.Lawful]
    (hn : s.names.Nodup) (h : ∀ fields, s.build fields = .ok x ↔ P fields) :
    s.decoder name r = .ok x ↔ ∃ fields, r.Presents s.names fields ∧ P fields :=
  (decoder_eq_ok_iff hn name).trans (exists_congr fun fields => and_congr_right fun _ => h fields)

end Schema
end SwapDesk
