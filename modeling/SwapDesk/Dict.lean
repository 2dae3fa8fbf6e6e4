/-! Finite maps with text keys, kept in key order. Two maps with the same lookups are equal
(`Dict.ext_find?`), and each operation is described by what it does to `find?`. -/
namespace SwapDesk

universe u v

variable {α : Type u} {β : Type v}

/-- The value of the first pair with key `k`. -/
def lookup (k : String) : List (String × α) → Option α
  | [] => none
  | (k', x) :: rest => if k = k' then some x else lookup k rest

/-- Puts a pair where the key order wants it, replacing a pair with the same key. -/
def insertSorted (k : String) (x : α) : List (String × α) → List (String × α)
  | [] => [(k, x)]
  | (k', x') :: rest =>
    if k < k' then (k, x) :: (k', x') :: rest
    else if k = k' then (k, x) :: rest
    else (k', x') :: insertSorted k x rest

/-- Pairs whose keys strictly increase. -/
def Ascending (l : List (String × α)) : Prop := l.Pairwise fun a b => a.1 < b.1

theorem lookup_insertSorted_self (k : String) (x : α) (l : List (String × α)) :
    lookup k (insertSorted k x l) = some x := by
  induction l with
  | nil => simp [insertSorted, lookup]
  | cons p rest ih =>
    simp only [insertSorted]
    split
    · simp [lookup]
    · split
      · simp [lookup]
      · simp [lookup, *]

theorem lookup_insertSorted_of_ne {k k' : String} (h : k' ≠ k) (x : α) (l : List (String × α)) :
    lookup k' (insertSorted k x l) = lookup k' l := by
  induction l with
  | nil => simp [insertSorted, lookup, h]
  | cons p rest ih =>
    obtain ⟨q, y⟩ := p
    simp only [insertSorted]
    split
    · simp [lookup, h]
    · split
      · rename_i hq
        subst hq
        simp [lookup, h]
      · simp [lookup, ih]

theorem mem_insertSorted {k : String} {x : α} {p : String × α} {l : List (String × α)}
    (h : p ∈ insertSorted k x l) : p = (k, x) ∨ p ∈ l := by
  induction l with
  | nil => exact .inl (by simpa [insertSorted] using h)
  | cons q rest ih =>
    simp only [insertSorted] at h
    split at h
    · simpa using h
    · split at h
      · rcases List.mem_cons.1 h with h | h
        · exact .inl h
        · exact .inr (List.mem_cons_of_mem _ h)
      · rcases List.mem_cons.1 h with h | h
        · exact .inr (h ▸ List.mem_cons_self)
        · exact (ih h).imp id (List.mem_cons_of_mem _)

theorem Ascending.insertSorted {l : List (String × α)} (h : Ascending l) (k : String) (x : α) :
    Ascending (insertSorted k x l) := by
  induction l with
  | nil => simp [SwapDesk.insertSorted, Ascending]
  | cons q rest ih =>
    obtain ⟨k', y⟩ := q
    have hq := List.pairwise_cons.1 h
    simp only [SwapDesk.insertSorted]
    split
    · rename_i hlt
      refine List.pairwise_cons.2 ⟨fun p hp => ?_, h⟩
      rcases List.mem_cons.1 hp with rfl | hp
      · exact hlt
      · exact String.lt_trans hlt (hq.1 p hp)
    · split
      · rename_i heq
        subst heq
        exact List.pairwise_cons.2 ⟨hq.1, hq.2⟩
      · rename_i hlt hne
        refine List.pairwise_cons.2 ⟨fun p hp => ?_, ih hq.2⟩
        rcases mem_insertSorted hp with rfl | hp
        · show k' < k
          rcases String.le_total k k' with hle | hle
          · exact absurd (String.le_antisymm hle (String.not_lt.1 hlt)) hne
          · exact Decidable.byContradiction fun hnot =>
              hne (String.le_antisymm (String.not_lt.1 hnot) hle)
        · exact hq.1 p hp

theorem lookup_eq_none_of_lt {k : String} {l : List (String × α)}
    (h : ∀ p ∈ l, k < p.1) : lookup k l = none := by
  induction l with
  | nil => rfl
  | cons q rest ih =>
    have hq := h q List.mem_cons_self
    have : k ≠ q.1 := fun he => String.lt_irrefl _ (he ▸ hq)
    simp [lookup, this, ih fun p hp => h p (List.mem_cons_of_mem _ hp)]

theorem lookup_eq_some_of_mem {l : List (String × α)} (h : Ascending l) {k : String} {x : α}
    (hm : (k, x) ∈ l) : lookup k l = some x := by
  induction l with
  | nil => simp at hm
  | cons q rest ih =>
    have hq := List.pairwise_cons.1 h
    rcases List.mem_cons.1 hm with rfl | hm
    · simp [lookup]
    · have : k ≠ q.1 := fun he => String.lt_irrefl q.1 (by simpa [he] using hq.1 _ hm)
      simp [lookup, this, ih hq.2 hm]

theorem mem_of_lookup_eq_some {l : List (String × α)} {k : String} {x : α}
    (h : lookup k l = some x) : (k, x) ∈ l := by
  induction l with
  | nil => simp [lookup] at h
  | cons q rest ih =>
    obtain ⟨k', y⟩ := q
    simp only [lookup] at h
    split at h
    · rename_i he
      cases he
      cases h
      exact List.mem_cons_self
    · exact List.mem_cons_of_mem _ (ih h)

/-- Ascending pairs are determined by their lookups. -/
theorem Ascending.eq_of_lookup {l₁ l₂ : List (String × α)} (h₁ : Ascending l₁) (h₂ : Ascending l₂)
    (h : ∀ k, lookup k l₁ = lookup k l₂) : l₁ = l₂ := by
  induction l₁ generalizing l₂ with
  | nil =>
    cases l₂ with
    | nil => rfl
    | cons q r => simpa [lookup] using h q.1
  | cons p r₁ ih =>
    cases l₂ with
    | nil => simpa [lookup] using h p.1
    | cons q r₂ =>
      obtain ⟨k₁, x₁⟩ := p
      obtain ⟨k₂, x₂⟩ := q
      have hp := List.pairwise_cons.1 h₁
      have hq := List.pairwise_cons.1 h₂
      have hk : k₁ = k₂ := by
        refine Decidable.byContradiction fun hne => ?_
        have m₁ := mem_of_lookup_eq_some (l := (k₂, x₂) :: r₂) (k := k₁) (x := x₁)
          (by rw [← h k₁]; simp [lookup])
        have m₂ := mem_of_lookup_eq_some (l := (k₁, x₁) :: r₁) (k := k₂) (x := x₂)
          (by rw [h k₂]; simp [lookup])
        have l₁ : k₂ < k₁ := by
          rcases List.mem_cons.1 m₁ with he | hm
          · exact absurd (congrArg Prod.fst he) hne
          · exact hq.1 _ hm
        have l₂ : k₁ < k₂ := by
          rcases List.mem_cons.1 m₂ with he | hm
          · exact absurd (congrArg Prod.fst he).symm hne
          · exact hp.1 _ hm
        exact String.lt_asymm l₁ l₂
      subst hk
      have hx : x₁ = x₂ := by simpa [lookup] using h k₁
      subst hx
      congr 1
      refine ih hp.2 hq.2 fun k => ?_
      by_cases hk : k = k₁
      · subst hk
        rw [lookup_eq_none_of_lt hp.1, lookup_eq_none_of_lt hq.1]
      · simpa [lookup, hk] using h k

/-- A finite map from text to `α`, its pairs in key order. -/
structure Dict (α : Type u) where
  entries : List (String × α)
  ascending : Ascending entries

namespace Dict

theorem ext_entries {d e : Dict α} (h : d.entries = e.entries) : d = e := by
  cases d
  cases e
  cases h
  rfl

instance [DecidableEq α] : DecidableEq (Dict α) := fun d e =>
  if h : d.entries = e.entries then .isTrue (ext_entries h)
  else .isFalse fun he => h (he ▸ rfl)

def empty : Dict α := ⟨[], .nil⟩

instance : EmptyCollection (Dict α) := ⟨empty⟩

instance : Inhabited (Dict α) := ⟨empty⟩

def find? (d : Dict α) (k : String) : Option α := lookup k d.entries

def contains (d : Dict α) (k : String) : Bool := (d.find? k).isSome

def insert (d : Dict α) (k : String) (x : α) : Dict α :=
  ⟨insertSorted k x d.entries, d.ascending.insertSorted k x⟩

/-- The pairs that satisfy `p`. -/
def filter (d : Dict α) (p : String → α → Bool) : Dict α :=
  ⟨d.entries.filter fun e => p e.1 e.2, d.ascending.filter _⟩

def erase (d : Dict α) (k : String) : Dict α := d.filter fun k' _ => k' ≠ k

/-- The same keys with other values. -/
def map (d : Dict α) (f : String → α → β) : Dict β :=
  ⟨d.entries.map fun e => (e.1, f e.1 e.2), by
    rw [Ascending, List.pairwise_map]
    exact d.ascending⟩

/-- Inserts the pairs from left to right, so the last of two equal keys wins. -/
def ofList (l : List (String × α)) : Dict α := l.foldl (fun d e => d.insert e.1 e.2) empty

def keys (d : Dict α) : List String := d.entries.map Prod.fst

def values (d : Dict α) : List α := d.entries.map Prod.snd

def size (d : Dict α) : Nat := d.entries.length

def isEmpty (d : Dict α) : Bool := d.entries.isEmpty

theorem ext_find? {d e : Dict α} (h : ∀ k, d.find? k = e.find? k) : d = e :=
  ext_entries (d.ascending.eq_of_lookup e.ascending h)

@[simp] theorem find?_empty (k : String) : (empty : Dict α).find? k = none := rfl

theorem find?_insert (d : Dict α) (k : String) (x : α) (k' : String) :
    (d.insert k x).find? k' = if k' = k then some x else d.find? k' := by
  split
  · rename_i h
    subst h
    exact lookup_insertSorted_self k' x d.entries
  · rename_i h
    exact lookup_insertSorted_of_ne h x d.entries

theorem find?_filter (d : Dict α) (p : String → α → Bool) (k : String) :
    (d.filter p).find? k = (d.find? k).filter (p k) := by
  obtain ⟨l, h⟩ := d
  show lookup k (l.filter _) = (lookup k l).filter (p k)
  induction l with
  | nil => rfl
  | cons q rest ih =>
    obtain ⟨k', x⟩ := q
    have hq := List.pairwise_cons.1 h
    by_cases hk : k = k'
    · subst hk
      by_cases hp : p k x = true
      · simp [lookup, Option.filter, hp]
      · have hl : lookup k (rest.filter fun e => p e.1 e.2) = none :=
          lookup_eq_none_of_lt fun e he => hq.1 e (List.mem_filter.1 he).1
        simp [lookup, Option.filter, hp, hl]
    · by_cases hp : p k' x = true
      · simp [lookup, hp, hk, ih hq.2]
      · simp [lookup, hp, hk, ih hq.2]

theorem find?_erase (d : Dict α) (k k' : String) :
    (d.erase k).find? k' = if k' = k then none else d.find? k' := by
  rw [erase, find?_filter]
  split
  · rename_i h
    subst h
    cases d.find? k' <;> simp
  · rename_i h
    cases d.find? k' <;> simp [h]

theorem find?_map (d : Dict α) (f : String → α → β) (k : String) :
    (d.map f).find? k = (d.find? k).map (f k) := by
  obtain ⟨l, h⟩ := d
  show lookup k (l.map _) = (lookup k l).map (f k)
  induction l with
  | nil => rfl
  | cons q rest ih =>
    by_cases hk : k = q.1
    · subst hk
      simp [lookup]
    · simp [lookup, hk, ih (List.pairwise_cons.1 h).2]

theorem mem_entries_iff (d : Dict α) {k : String} {x : α} :
    (k, x) ∈ d.entries ↔ d.find? k = some x :=
  ⟨lookup_eq_some_of_mem d.ascending, mem_of_lookup_eq_some⟩

theorem mem_keys_iff (d : Dict α) {k : String} : k ∈ d.keys ↔ d.contains k = true := by
  constructor
  · intro h
    obtain ⟨⟨k', x⟩, hm, rfl⟩ := List.mem_map.1 h
    simp [contains, (d.mem_entries_iff).1 hm]
  · intro h
    obtain ⟨x, hx⟩ := Option.isSome_iff_exists.1 h
    exact List.mem_map.2 ⟨(k, x), (d.mem_entries_iff).2 hx, rfl⟩

@[simp] theorem find?_insert_self (d : Dict α) (k : String) (x : α) :
    (d.insert k x).find? k = some x := by simp [find?_insert]

theorem find?_insert_ne (d : Dict α) {k k' : String} (h : k' ≠ k) (x : α) :
    (d.insert k x).find? k' = d.find? k' := by simp [find?_insert, h]

theorem insert_insert (d : Dict α) (k : String) (x y : α) :
    (d.insert k x).insert k y = d.insert k y := by
  apply ext_find?
  intro k'
  simp only [find?_insert]
  split <;> rfl

theorem contains_eq_false_iff (d : Dict α) {k : String} :
    d.contains k = false ↔ d.find? k = none := by
  simp [contains]

theorem mem_values_iff (d : Dict α) {x : α} : x ∈ d.values ↔ ∃ k, d.find? k = some x := by
  constructor
  · intro h
    obtain ⟨⟨k, y⟩, hm, rfl⟩ := List.mem_map.mp h
    exact ⟨k, d.mem_entries_iff.mp hm⟩
  · rintro ⟨k, h⟩
    exact List.mem_map.mpr ⟨(k, x), d.mem_entries_iff.mpr h, rfl⟩

theorem sorted_keys (d : Dict α) : d.keys.Pairwise (· < ·) :=
  List.pairwise_map.mpr d.ascending

theorem nodup_keys (d : Dict α) : d.keys.Nodup := by
  refine d.sorted_keys.imp ?_
  rintro k _ hlt rfl
  exact String.lt_irrefl k hlt

end Dict

end SwapDesk
