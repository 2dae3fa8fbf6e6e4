import SwapDesk.Proofs.Book.Index

/-! Which orders can still be looked up by their hash after kept orders were taken back, or old ones were
dropped. Both keep up the index by hash and not by order: an order that gives up its hash takes the entry
of the hash along, even if the entry names another order by then. -/
namespace SwapDesk

/-- Terminal, and last updated no later than the cutoff. -/
def Order.Expired (cutoff : Instant.Mark) (o : Order) : Prop :=
  o.state.isTerminal = true ∧ o.updatedAt.isAfter cutoff = false

namespace Book

variable {b : Book} {id other hash : String} {o p : Order} {kept : Orders}
  {l : List (String × Order)} {now : Instant} {age : Int} {cutoff : Instant.Mark}

/-- Looking up a hash finds exactly the order that carries it. -/
def IndexExact (b : Book) : Prop :=
  ∀ hash o, b.findByHash? hash = some o ↔ b.find? o.id = some o ∧ o.txHash = some hash

/-- No two orders carry the same hash. -/
def HashesDistinct (b : Book) : Prop :=
  ∀ id other o p hash, b.find? id = some o → b.find? other = some p →
    o.txHash = some hash → p.txHash = some hash → id = other

theorem indexExact_iff_complete (h : IndexSound b) : IndexExact b ↔ IndexComplete b := by
  constructor
  · intro he id o hash ho hh
    have hid : o.id = id := h.keyed ho
    obtain ⟨k, hk, hf⟩ := findByHash?_eq_some.mp ((he hash o).mpr ⟨hid.symm ▸ ho, hh⟩)
    have hkid : o.id = k := h.keyed hf
    rw [hk, ← hkid, hid]
  · intro hc hash o
    constructor
    · intro hf
      exact (txHash_of_findByHash? h hf).symm
    · rintro ⟨ho, hh⟩
      exact findByHash?_of_complete hc ho hh

/-! ### Taking back kept orders -/

/-- A kept order with this id would be taken back. -/
def Admits (b : Book) (id : String) : Prop := ∀ o, b.find? id = some o → o.state.isTerminal = false

/-- The order with this id is active and carries the hash, which it gives up when a kept order takes its
place. -/
def Releases (b : Book) (id hash : String) : Prop :=
  ∃ o, b.find? id = some o ∧ o.state.isTerminal = false ∧ o.txHash = some hash

/-- A kept order brings the hash of an active one in whose place another kept order is taken back after
it. -/
structure Supplants (b : Book) (kept : Orders) (id other hash : String) : Prop where
  before : id < other
  admitted : b.Admits id
  brought : ∃ p, kept.find? id = some p ∧ p.txHash = some hash
  replaced : ∃ q, kept.find? other = some q
  released : b.Releases other hash

theorem Releases.admits (h : b.Releases id hash) : b.Admits id := by
  obtain ⟨o, ho, hactive, _⟩ := h
  intro p hp
  rw [ho] at hp
  cases hp
  exact hactive

theorem admits_congr {b' : Book} (h : b'.find? id = b.find? id) : b'.Admits id ↔ b.Admits id := by
  simp only [Admits, h]

theorem releases_congr {b' : Book} (h : b'.find? id = b.find? id) :
    b'.Releases id hash ↔ b.Releases id hash := by
  simp only [Releases, h]

theorem find?_restoreOne_ne (h : other ≠ id) :
    (b.restoreOne id o).1.find? other = b.find? other := by
  rcases terminal_cases b id with ⟨p, hp, ht⟩ | hopen
  · rw [restoreOne_of_terminal hp ht]
  · rw [restoreOne_of_open hopen]
    exact find?_file_ne h

theorem find?_restoreFrom_of_notMem (h : ∀ e ∈ l, e.1 ≠ id) :
    (b.restoreFrom l).1.find? id = b.find? id := by
  induction l generalizing b with
  | nil => rfl
  | cons e rest ih =>
    have hrest := ih (b := (b.restoreOne e.1 e.2).1) fun x hx => h x (List.mem_cons_of_mem e hx)
    exact hrest.trans (find?_restoreOne_ne (h e List.mem_cons_self).symm)

theorem restoreFrom_append (b : Book) (l m : List (String × Order)) :
    (b.restoreFrom (l ++ m)).1 = ((b.restoreFrom l).1.restoreFrom m).1 := by
  induction l generalizing b with
  | nil => rfl
  | cons e rest ih => exact ih (b.restoreOne e.1 e.2).1

/-- Only the order with this id can have taken the entry of a hash that it does not bring. -/
theorem byHash_restoreOne (hnew : b.Admits id → o.txHash ≠ some hash) :
    (b.Releases id hash → (b.restoreOne id o).1.byHash.find? hash = none) ∧
    (¬b.Releases id hash →
      (b.restoreOne id o).1.byHash.find? hash = b.byHash.find? hash) := by
  rcases terminal_cases b id with ⟨p, hp, ht⟩ | hopen
  · rw [restoreOne_of_terminal hp ht]
    refine ⟨?_, fun _ => rfl⟩
    intro hrelease
    rw [hrelease.admits p hp] at ht
    cases ht
  · have hnone : o.txHash ≠ some hash := hnew hopen
    rw [restoreOne_of_open hopen]
    simp only [file, find?_reindex, if_neg hnone]
    constructor
    · rintro ⟨p, hp, _, hh⟩
      rw [if_pos (by rw [hp]; exact hh)]
    · intro hkeeps
      refine if_neg fun hold => hkeeps ?_
      obtain ⟨p, hp, hh⟩ := Option.bind_eq_some_iff.mp hold
      exact ⟨p, hp, hopen p hp, hh⟩

/-- The entry of a hash that nobody brings is lost as soon as somebody gives it up. -/
theorem byHash_restoreFrom (hn : (l.map (·.1)).Nodup)
    (hnew : ∀ e ∈ l, b.Admits e.1 → e.2.txHash ≠ some hash) :
    ((∃ e ∈ l, b.Releases e.1 hash) → (b.restoreFrom l).1.byHash.find? hash = none) ∧
    ((∀ e ∈ l, ¬b.Releases e.1 hash) →
      (b.restoreFrom l).1.byHash.find? hash = b.byHash.find? hash) := by
  induction l generalizing b with
  | nil =>
    refine ⟨?_, fun _ => rfl⟩
    rintro ⟨e, he, _⟩
    cases he
  | cons e rest ih =>
    obtain ⟨hfirst, hrest⟩ := List.nodup_cons.mp hn
    have hsame : ∀ x ∈ rest, (b.restoreOne e.1 e.2).1.find? x.1 = b.find? x.1 := by
      intro x hx
      apply find?_restoreOne_ne
      intro he
      exact hfirst (List.mem_map.mpr ⟨x, hx, he⟩)
    have hone := byHash_restoreOne (hnew e List.mem_cons_self)
    have hlater := ih (b := (b.restoreOne e.1 e.2).1) hrest fun x hx ha =>
      hnew x (List.mem_cons_of_mem e hx) ((admits_congr (hsame x hx)).mp ha)
    change (_ → ((b.restoreOne e.1 e.2).1.restoreFrom rest).1.byHash.find? hash = none) ∧
      (_ → ((b.restoreOne e.1 e.2).1.restoreFrom rest).1.byHash.find? hash = _)
    by_cases hin : ∃ x ∈ rest, b.Releases x.1 hash
    · obtain ⟨x, hx, hrelease⟩ := hin
      refine ⟨fun _ => hlater.1 ⟨x, hx, (releases_congr (hsame x hx)).mpr hrelease⟩, ?_⟩
      intro hnot
      exact (hnot x (List.mem_cons_of_mem e hx) hrelease).elim
    · have hkeep := hlater.2 fun x hx hr => hin ⟨x, hx, (releases_congr (hsame x hx)).mp hr⟩
      rw [hkeep]
      constructor
      · rintro ⟨x, hx, hrelease⟩
        rcases List.mem_cons.mp hx with rfl | hx
        · exact hone.1 hrelease
        · exact (hin ⟨x, hx, hrelease⟩).elim
      · intro hnot
        exact hone.2 (hnot e List.mem_cons_self)

/-- When a kept order has its turn, those with smaller ids had theirs and those with greater ids have
not. -/
structure TurnOf (b : Book) (kept : Orders) (id : String) (p : Order)
    (l m : List (String × Order)) : Prop where
  entries : kept.entries = l ++ (id, p) :: m
  before : ∀ e ∈ l, e.1 < id
  behind : ∀ e ∈ m, id < e.1
  nodup : (m.map (·.1)).Nodup
  /-- Nothing has been done to the order in the book yet. -/
  untouched : (b.restoreFrom l).1.find? id = b.find? id
  restored : (b.restore kept).1 = (((b.restoreFrom l).1.restoreOne id p).1.restoreFrom m).1

theorem exists_turnOf (b : Book) (h : kept.find? id = some p) : ∃ l m, TurnOf b kept id p l m := by
  obtain ⟨l, m, he⟩ := List.append_of_mem ((kept.mem_entries_iff).mpr h)
  have hascending : (l ++ (id, p) :: m).Pairwise fun x y => x.1 < y.1 := he ▸ kept.ascending
  obtain ⟨_, hrest, hbetween⟩ := List.pairwise_append.mp hascending
  have hnodup : ((l ++ (id, p) :: m).map (·.1)).Nodup := he ▸ kept.nodup_keys
  have hbefore : ∀ e ∈ l, e.1 < id := fun e hm => hbetween e hm (id, p) List.mem_cons_self
  refine ⟨l, m, he, hbefore, (List.pairwise_cons.mp hrest).1, ?_, ?_, ?_⟩
  · rw [List.map_append, List.nodup_append] at hnodup
    exact (List.nodup_cons.mp hnodup.2.1).2
  · apply find?_restoreFrom_of_notMem
    intro e hx hid
    exact String.lt_irrefl id (hid ▸ hbefore e hx)
  · rw [restore, he, restoreFrom_append]
    rfl

variable {l m : List (String × Order)}

theorem TurnOf.find?_restore (h : TurnOf b kept id p l m) :
    (b.restore kept).1.find? id = ((b.restoreFrom l).1.restoreOne id p).1.find? id := by
  rw [h.restored]
  apply find?_restoreFrom_of_notMem
  intro e hx hid
  exact String.lt_irrefl id (hid ▸ h.behind e hx)

theorem TurnOf.kept_behind (h : TurnOf b kept id p l m) {e : String × Order} (he : e ∈ m) :
    kept.find? e.1 = some e.2 := by
  refine (kept.mem_entries_iff).mp ?_
  rw [h.entries]
  exact List.mem_append_right l (List.mem_cons_of_mem _ he)

theorem TurnOf.mem_behind (h : TurnOf b kept id p l m) (hlt : id < other)
    (ho : kept.find? other = some o) : (other, o) ∈ m := by
  have hin : (other, o) ∈ l ++ (id, p) :: m := h.entries ▸ (kept.mem_entries_iff).mpr ho
  rcases List.mem_append.mp hin with hx | hx
  · exact (String.lt_irrefl id (String.lt_trans hlt (h.before _ hx))).elim
  · rcases List.mem_cons.mp hx with hx | hx
    · cases hx
      exact (String.lt_irrefl id hlt).elim
    · exact hx

theorem TurnOf.find?_behind (h : TurnOf b kept id p l m) {e : String × Order} (he : e ∈ m) :
    ((b.restoreFrom l).1.restoreOne id p).1.find? e.1 = b.find? e.1 := by
  have hne : e.1 ≠ id := fun hid => String.lt_irrefl id (hid ▸ h.behind e he)
  rw [find?_restoreOne_ne hne]
  apply find?_restoreFrom_of_notMem
  intro x hx hid
  exact String.lt_irrefl id (String.lt_trans (h.behind e he) (hid ▸ h.before x hx))

theorem find?_restore_of_taken (h : kept.find? id = some p) (ha : b.Admits id) :
    (b.restore kept).1.find? id = some { p with id } := by
  obtain ⟨l, m, ht⟩ := exists_turnOf b h
  rw [ht.find?_restore, restoreOne_of_open ((admits_congr ht.untouched).mpr ha)]
  exact find?_file_self

theorem find?_restore_of_left (h : b.Admits id → kept.find? id = none) :
    (b.restore kept).1.find? id = b.find? id := by
  cases hk : kept.find? id with
  | none =>
    apply find?_restoreFrom_of_notMem
    intro e he hid
    have hf : kept.find? e.1 = some e.2 := (kept.mem_entries_iff).mp he
    rw [hid, hk] at hf
    cases hf
  | some p =>
    obtain ⟨l, m, ht⟩ := exists_turnOf b hk
    rw [ht.find?_restore]
    rcases terminal_cases (b.restoreFrom l).1 id with ⟨q, hq, hterminal⟩ | hopen
    · rw [restoreOne_of_terminal hq hterminal]
      exact ht.untouched
    · have hnone := h ((admits_congr ht.untouched).mp hopen)
      rw [hk] at hnone
      cases hnone

/-- A kept order that is taken back and brings the hash is the one that carries it afterwards. -/
theorem eq_of_brings (hd : HashesDistinct (b.restore kept).1)
    (ho : (b.restore kept).1.find? id = some o) (hh : o.txHash = some hash)
    (hk : kept.find? other = some p) (ha : b.Admits other) (hp : p.txHash = some hash) :
    other = id :=
  hd other id { p with id := other } o hash (find?_restore_of_taken hk ha) ho hp hh

/-- An order that was taken back is in the index unless its hash was given up after that. -/
theorem byHash_restore_of_taken (hd : HashesDistinct (b.restore kept).1)
    (hk : kept.find? id = some p) (ha : b.Admits id) (hh : p.txHash = some hash) :
    ((∃ other, Supplants b kept id other hash) →
      (b.restore kept).1.byHash.find? hash = none) ∧
    ((∀ other, ¬Supplants b kept id other hash) →
      (b.restore kept).1.byHash.find? hash = some id) := by
  obtain ⟨l, m, ht⟩ := exists_turnOf b hk
  let taken := ((b.restoreFrom l).1.restoreOne id p).1
  have hentry : taken.byHash.find? hash = some id := by
    show ((b.restoreFrom l).1.restoreOne id p).1.byHash.find? hash = some id
    rw [restoreOne_of_open ((admits_congr ht.untouched).mpr ha)]
    simp only [file, find?_reindex, if_pos hh]
  have hnew : ∀ e ∈ m, taken.Admits e.1 → e.2.txHash ≠ some hash := by
    intro e hx hadmits hbrings
    have hid : e.1 = id := eq_of_brings hd (find?_restore_of_taken hk ha) hh (ht.kept_behind hx)
      ((admits_congr (ht.find?_behind hx)).mp hadmits) hbrings
    exact String.lt_irrefl id (hid ▸ ht.behind e hx)
  obtain ⟨hlost, hstays⟩ := byHash_restoreFrom ht.nodup hnew
  rw [ht.restored]
  constructor
  · rintro ⟨other, hs⟩
    obtain ⟨q, hq⟩ := hs.replaced
    have hmem : (other, q) ∈ m := ht.mem_behind hs.before hq
    exact hlost ⟨_, hmem, (releases_congr (ht.find?_behind hmem)).mpr hs.released⟩
  · intro hnot
    refine (hstays ?_).trans hentry
    intro e hx hrelease
    exact hnot e.1 ⟨ht.behind e hx, ha, ⟨p, hk, hh⟩, ⟨e.2, ht.kept_behind hx⟩,
      (releases_congr (ht.find?_behind hx)).mp hrelease⟩

/-- An order that was not taken back stays in the index. -/
theorem byHash_restore_of_left (hc : IndexComplete b) (hd : HashesDistinct (b.restore kept).1)
    (hleft : b.Admits id → kept.find? id = none) (ho : b.find? id = some o)
    (hh : o.txHash = some hash) : (b.restore kept).1.byHash.find? hash = some id := by
  have hcarried : (b.restore kept).1.find? id = some o := (find?_restore_of_left hleft).trans ho
  have hkept : ∀ e ∈ kept.entries, kept.find? e.1 = some e.2 := fun e he =>
    (kept.mem_entries_iff).mp he
  have hout : ∀ e ∈ kept.entries, b.Admits e.1 → e.1 ≠ id := by
    intro e he ha hid
    have hf := hkept e he
    rw [hid, hleft (hid ▸ ha)] at hf
    cases hf
  have hnew : ∀ e ∈ kept.entries, b.Admits e.1 → e.2.txHash ≠ some hash := by
    intro e he ha hbrings
    exact hout e he ha (eq_of_brings hd hcarried hh (hkept e he) ha hbrings)
  refine ((byHash_restoreFrom kept.nodup_keys hnew).2 ?_).trans (hc id o hash ho hh)
  intro e he hrelease
  have ha : b.Admits e.1 := hrelease.admits
  obtain ⟨p, hp, _, hph⟩ := hrelease
  have hentry := hc id o hash ho hh
  rw [hc e.1 p hash hp hph] at hentry
  exact hout e he ha (Option.some.inj hentry)

/-- After kept orders were taken back, an order is found by its hash unless it supplants another one. -/
theorem findByHash?_restore (hs : IndexSound b) (hc : IndexComplete b)
    (hd : HashesDistinct (b.restore kept).1) (ho : (b.restore kept).1.find? id = some o)
    (hh : o.txHash = some hash) :
    (b.restore kept).1.findByHash? hash = some o ↔ ∀ other, ¬Supplants b kept id other hash := by
  have hafter : IndexSound (b.restore kept).1 := indexSound_restoreFrom hs kept.entries
  have hfound : (b.restore kept).1.byHash.find? hash = some id →
      (b.restore kept).1.findByHash? hash = some o := fun hi =>
    findByHash?_eq_some.mpr ⟨id, hi, ho⟩
  by_cases htaken : ∃ p, kept.find? id = some p ∧ b.Admits id
  · obtain ⟨p, hk, ha⟩ := htaken
    have hcarried := find?_restore_of_taken hk ha
    rw [ho] at hcarried
    cases hcarried
    obtain ⟨hlost, hstays⟩ := byHash_restore_of_taken hd hk ha hh
    constructor
    · intro hf other hsup
      obtain ⟨k, hi, _⟩ := findByHash?_eq_some.mp hf
      rw [hlost ⟨other, hsup⟩] at hi
      cases hi
    · exact fun hnot => hfound (hstays hnot)
  · have hleft : b.Admits id → kept.find? id = none := by
      intro ha
      cases hk : kept.find? id with
      | none => rfl
      | some p => exact (htaken ⟨p, hk, ha⟩).elim
    rw [find?_restore_of_left hleft] at ho
    refine ⟨?_, fun _ => hfound (byHash_restore_of_left hc hd hleft ho hh)⟩
    intro _ other hsup
    obtain ⟨p, hk, _⟩ := hsup.brought
    exact htaken ⟨p, hk, hsup.admitted⟩

/-- If the index was exact, and afterwards no two orders carry the same hash, then after kept orders were
taken back the index is exact again unless one of them supplants another. An order that does so cannot be
found. -/
theorem index_exact_after_restore_iff (hr : Reachable b) (he : IndexExact b)
    (hd : HashesDistinct (b.restore kept).1) :
    (IndexExact (b.restore kept).1 ↔ ∀ id other hash, ¬Supplants b kept id other hash) ∧
    ∀ id o hash, (b.restore kept).1.find? id = some o → o.txHash = some hash →
      ((b.restore kept).1.findByHash? hash = some o ↔
        ∀ other, ¬Supplants b kept id other hash) := by
  have hs := hr.indexSound
  have hc : IndexComplete b := (indexExact_iff_complete hs).mp he
  have hafter : IndexSound (b.restore kept).1 := indexSound_restoreFrom hs kept.entries
  refine ⟨?_, fun id o hash => findByHash?_restore hs hc hd⟩
  constructor
  · intro hexact id other hash hsup
    obtain ⟨p, hk, hh⟩ := hsup.brought
    have hcarried := find?_restore_of_taken hk hsup.admitted
    have hf : (b.restore kept).1.findByHash? hash = some { p with id } :=
      (hexact hash _).mpr ⟨hcarried, hh⟩
    exact (findByHash?_restore hs hc hd hcarried hh).mp hf other hsup
  · intro hnot hash o
    constructor
    · intro hf
      exact (txHash_of_findByHash? hafter hf).symm
    · rintro ⟨ho, hh⟩
      exact (findByHash?_restore hs hc hd ho hh).mpr fun other => hnot o.id other hash

/-- An order whose transaction has this hash. -/
def hashed (id hash : String) : Order := { Order.sample id with txHash := some hash }

/-- Two orders with a hash each. -/
def pairOf (first second : String) : List (String × Order) :=
  [("a", hashed "a" first), ("b", hashed "b" second)]

theorem carried_of_pairOf {first second : String} (h : (id, o) ∈ pairOf first second)
    (hh : o.txHash = some hash) : id = "a" ∧ hash = first ∨ id = "b" ∧ hash = second := by
  rcases List.mem_cons.mp h with he | h
  · cases he
    exact Or.inl ⟨rfl, (Option.some.inj hh).symm⟩
  · cases List.mem_singleton.mp h
    exact Or.inr ⟨rfl, (Option.some.inj hh).symm⟩

theorem hashesDistinct_of_pairOf (first second : String)
    (h : b.orders.entries = pairOf first second) (hne : first ≠ second) : HashesDistinct b := by
  intro id other o p hash ho hp hoh hph
  rcases carried_of_pairOf (h ▸ (b.orders.mem_entries_iff).mpr ho) hoh with ⟨rfl, rfl⟩ | ⟨rfl, rfl⟩
  · rcases carried_of_pairOf (h ▸ (b.orders.mem_entries_iff).mpr hp) hph with ⟨rfl, _⟩ | ⟨_, he⟩
    · rfl
    · exact (hne he).elim
  · rcases carried_of_pairOf (h ▸ (b.orders.mem_entries_iff).mpr hp) hph with ⟨_, he⟩ | ⟨rfl, _⟩
    · exact (hne he.symm).elim
    · rfl

def pairedBook : Book :=
  ((fresh .default).performAll
    [(.epoch, .track (hashed "a" "x")), (.epoch, .track (hashed "b" "y"))]).1

theorem indexExact_pairedBook : IndexExact pairedBook := by
  have hr : Reachable pairedBook := ⟨_, _, rfl⟩
  rw [indexExact_iff_complete hr.indexSound]
  intro id o hash ho hh
  have hm : (id, o) ∈ pairOf "x" "y" := (pairedBook.orders.mem_entries_iff).mpr ho
  rcases carried_of_pairOf hm hh with ⟨rfl, rfl⟩ | ⟨rfl, rfl⟩
  · rfl
  · rfl

/-- One order gets a new hash, and the next one the hash that the first had. -/
theorem handed_on_hash_is_found :
    let kept : Orders := .ofList (pairOf "z" "x")
    HashesDistinct (pairedBook.restore kept).1 ∧ IndexExact (pairedBook.restore kept).1 := by
  intro kept
  have hd : HashesDistinct (pairedBook.restore kept).1 :=
    hashesDistinct_of_pairOf "z" "x" rfl (by decide)
  refine ⟨hd, (index_exact_after_restore_iff ⟨_, _, rfl⟩ indexExact_pairedBook hd).1.mpr ?_⟩
  intro id other hash hsup
  obtain ⟨p, hp, hph⟩ := hsup.brought
  obtain ⟨o, ho, _, hoh⟩ := hsup.released
  have hkept : (id, p) ∈ pairOf "z" "x" := (kept.mem_entries_iff).mpr hp
  have htracked : (other, o) ∈ pairOf "x" "y" := (pairedBook.orders.mem_entries_iff).mpr ho
  have hbefore := hsup.before
  rcases carried_of_pairOf hkept hph with ⟨rfl, rfl⟩ | ⟨rfl, rfl⟩
  · rcases carried_of_pairOf htracked hoh with ⟨_, he⟩ | ⟨_, he⟩
    · exact absurd he (by decide)
    · exact absurd he (by decide)
  · rcases carried_of_pairOf htracked hoh with ⟨rfl, _⟩ | ⟨_, he⟩
    · exact absurd hbefore (by decide)
    · exact absurd he (by decide)

/-- Two orders exchange their hashes. The first is in the index under its new hash until the second gives
up that hash. -/
theorem exchanged_hash_is_not_found :
    let kept : Orders := .ofList (pairOf "y" "x")
    let after := (pairedBook.restore kept).1
    Reachable pairedBook ∧ IndexExact pairedBook ∧ HashesDistinct after ∧
      after.find? "a" = some (hashed "a" "y") ∧ after.findByHash? "y" = none ∧
      ¬IndexExact after := by
  intro kept after
  have hcarried : after.find? "a" = some (hashed "a" "y") := rfl
  have hlost : after.findByHash? "y" = none := rfl
  refine ⟨⟨_, _, rfl⟩, indexExact_pairedBook,
    hashesDistinct_of_pairOf "y" "x" rfl (by decide), hcarried, hlost, ?_⟩
  intro hexact
  have hf := (hexact "y" (hashed "a" "y")).mpr ⟨hcarried, rfl⟩
  rw [hlost] at hf
  cases hf

/-! ### Dropping old orders -/

/-- An order that is dropped carries the hash. -/
def DropsHash (b : Book) (cutoff : Instant.Mark) (hash : String) : Prop :=
  ∃ id o, b.find? id = some o ∧ o.Expired cutoff ∧ o.txHash = some hash

theorem isStale_iff : isStale cutoff o = true ↔ o.Expired cutoff := by
  rw [isStale, Bool.and_eq_true, Bool.not_eq_true', Order.Expired]

theorem find?_purgeBefore_eq_some :
    (b.purgeBefore cutoff).1.find? id = some o ↔ b.find? id = some o ∧ ¬o.Expired cutoff := by
  rw [find?_purgeBefore, Option.filter_eq_some_iff, Bool.not_eq_true', ← Bool.not_eq_true,
    isStale_iff]

/-- The index entry of a hash goes with any order that carries it. -/
theorem findByHash?_purgeBefore (h : IndexSound b) (cutoff : Instant.Mark) (hash : String) :
    (DropsHash b cutoff hash → (b.purgeBefore cutoff).1.findByHash? hash = none) ∧
    (¬DropsHash b cutoff hash →
      (b.purgeBefore cutoff).1.findByHash? hash = b.findByHash? hash) := by
  constructor
  · rintro ⟨id, o, ho, hexpired, hh⟩
    cases hf : (b.purgeBefore cutoff).1.findByHash? hash with
    | none => rfl
    | some p =>
      obtain ⟨k, hi, _⟩ := findByHash?_eq_some.mp hf
      exact ((byHash_purgeBefore.mp hi).2 id o ho (isStale_iff.mpr hexpired) hh).elim
  · intro hkeeps
    have hentry : ∀ id, (b.purgeBefore cutoff).1.byHash.find? hash = some id ↔
        b.byHash.find? hash = some id := by
      intro id
      rw [byHash_purgeBefore]
      refine ⟨And.left, fun hi => ⟨hi, ?_⟩⟩
      intro k p hp hs hph
      exact hkeeps ⟨k, p, hp, isStale_iff.mp hs, hph⟩
    ext o
    rw [findByHash?_eq_some, findByHash?_eq_some]
    constructor
    · rintro ⟨id, hi, ho⟩
      exact ⟨id, (hentry id).mp hi, (find?_purgeBefore_eq_some.mp ho).1⟩
    · rintro ⟨id, hi, ho⟩
      refine ⟨id, (hentry id).mpr hi, find?_purgeBefore_eq_some.mpr ⟨ho, ?_⟩⟩
      intro hexpired
      obtain ⟨p, hp, hph⟩ := h.carried hi
      rw [ho] at hp
      cases hp
      exact hkeeps ⟨id, o, ho, hexpired, hph⟩

/-- The ids of the orders that are dropped, each of them once. -/
theorem exists_dropped (b : Book) (cutoff : Instant.Mark) :
    ∃ dropped : List String, dropped.Nodup ∧ dropped.length = (b.purgeBefore cutoff).2 ∧
      ∀ id, id ∈ dropped ↔ ∃ o, b.find? id = some o ∧ o.Expired cutoff := by
  let stale := b.orders.filter fun _ o => isStale cutoff o
  refine ⟨stale.keys, stale.nodup_keys, List.length_map .., ?_⟩
  intro id
  rw [Dict.mem_keys_iff, Dict.contains, Option.isSome_iff_exists]
  simp only [stale, Dict.find?_filter, Option.filter_eq_some_iff, isStale_iff]
  rfl

/-- A purge whose cutoff is within the calendar drops exactly the terminal orders that were last updated no
later, tells how many they were, and leaves the other orders as they are. Looking up a hash has the same
answer as before exactly if no order that was dropped carries the hash, or nothing was found under it
before either. -/
theorem purge_drops_expired_iff (hr : Reachable b) (hcut : now.before? age = some cutoff) :
    ∃ after n, b.purge now age = .ok (after, n) ∧
      (∀ id o, after.find? id = some o ↔ b.find? id = some o ∧ ¬o.Expired cutoff) ∧
      (∃ dropped : List String, dropped.Nodup ∧ dropped.length = n ∧
        ∀ id, id ∈ dropped ↔ ∃ o, b.find? id = some o ∧ o.Expired cutoff) ∧
      ∀ hash, after.findByHash? hash = b.findByHash? hash ↔
        b.findByHash? hash = none ∨ ¬DropsHash b cutoff hash := by
  have hpurge : b.purge now age = .ok (b.purgeBefore cutoff) := by
    rw [purge, hcut]
    rfl
  refine ⟨(b.purgeBefore cutoff).1, (b.purgeBefore cutoff).2, hpurge,
    fun id o => find?_purgeBefore_eq_some, exists_dropped b cutoff, ?_⟩
  intro hash
  obtain ⟨hlost, hkept⟩ := findByHash?_purgeBefore hr.indexSound cutoff hash
  by_cases hd : DropsHash b cutoff hash
  · rw [hlost hd]
    constructor
    · intro he
      exact Or.inl he.symm
    · rintro (hnone | hnot)
      · exact hnone.symm
      · exact (hnot hd).elim
  · exact ⟨fun _ => Or.inr hd, fun _ => hkept hd⟩

/-- A swap was accepted under a hash and has failed; then another one was accepted. -/
def failedThenOpened (first second : String) : List (Instant × Command) :=
  [(.epoch, .track (.sample "a")),
    (.epoch, .update { Update.toState "a" .opened with txHash := some first }),
    (.epoch, .update (.failing "a" lostReason)),
    (.epoch, .track (.sample "b")),
    (.epoch, .update { Update.toState "b" .opened with txHash := some second })]

theorem opened_order_still_found :
    let b := ((fresh .default).performAll (failedThenOpened "x" "y")).1
    Instant.epoch.before? 0 = some ⟨0, 0⟩ ∧ ∃ after, b.purge .epoch 0 = .ok (after, 1) ∧
      after.find? "a" = none ∧ after.findByHash? "y" = b.findByHash? "y" ∧
      (b.findByHash? "y").map (·.id) = some "b" := by
  intro b
  have hcut : Instant.epoch.before? 0 = some ⟨0, 0⟩ := rfl
  obtain ⟨after, n, hpurge, hfind, _, hlookup⟩ := purge_drops_expired_iff (b := b) ⟨_, _, rfl⟩ hcut
  have hcount : (b.purge .epoch 0).toOption.map (·.2) = some 1 := by decide +kernel
  rw [hpurge] at hcount
  cases hcount
  have hfirst : (b.find? "a").map (isStale ⟨0, 0⟩) = some true := by decide +kernel
  have hcarriers : ∀ e ∈ b.orders.entries, e.2.txHash = some "y" → isStale ⟨0, 0⟩ e.2 = false := by
    decide +kernel
  refine ⟨hcut, after, hpurge, ?_, (hlookup "y").mpr (Or.inr ?_), by decide +kernel⟩
  · apply Option.eq_none_iff_forall_ne_some.mpr
    intro o ho
    obtain ⟨hcarried, hkept⟩ := (hfind "a" o).mp ho
    rw [hcarried] at hfirst
    exact hkept (isStale_iff.mp (Option.some.inj hfirst))
  · rintro ⟨id, o, ho, hexpired, hh⟩
    have hstays := hcarriers (id, o) ((b.orders.mem_entries_iff).mpr ho) hh
    rw [isStale_iff.mpr hexpired] at hstays
    cases hstays

/-- Both were accepted under the same hash. The purge of the failed one takes the entry of the index along,
and the other one can no longer be found. -/
theorem shared_hash_is_not_found :
    let b := ((fresh .default).performAll (failedThenOpened "x" "x")).1
    let after := (b.purgeBefore ⟨0, 0⟩).1
    Reachable b ∧ Instant.epoch.before? 0 = some ⟨0, 0⟩ ∧ b.purge .epoch 0 = .ok (after, 1) ∧
      after.find? "b" = b.find? "b" ∧
      (after.find? "b").map (fun o => (o.state, o.txHash)) = some (.opened, some "x") ∧
      (b.findByHash? "x").map (·.id) = some "b" ∧ after.findByHash? "x" = none := by
  intro b after
  have hcut : Instant.epoch.before? 0 = some ⟨0, 0⟩ := rfl
  have hpurge : b.purge .epoch 0 = .ok (after, 1) := by
    rw [purge, hcut]
    rfl
  exact ⟨⟨_, _, rfl⟩, hcut, hpurge, rfl, rfl, rfl, rfl⟩

end Book
end SwapDesk
