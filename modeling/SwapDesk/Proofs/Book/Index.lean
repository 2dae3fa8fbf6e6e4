import SwapDesk.Proofs.Book.Operations

/-! The index of hashes. What it says is always true of the orders; it says all there is to say if no
order is ever given a hash that another one holds. -/
namespace SwapDesk.Book

variable {b b' : Book} {now : Instant} {u : Update} {c : Command} {id other hash : String}
  {o p : Order} {cutoff : Instant.Mark} {run : List (Instant × Command)}

/-- Orders stand under their own ids, and an index entry names an order that carries the hash. -/
structure IndexSound (b : Book) : Prop where
  keyed : ∀ {id o}, b.find? id = some o → o.id = id
  carried : ∀ {hash id}, b.byHash.find? hash = some id →
    ∃ o, b.find? id = some o ∧ o.txHash = some hash

/-- Every order with a hash is in the index. -/
def IndexComplete (b : Book) : Prop :=
  ∀ id o hash, b.find? id = some o → o.txHash = some hash → b.byHash.find? hash = some id

/-- No order but `id` holds the hash. -/
def FreeFor (b : Book) (id : String) (hash : Option String) : Prop :=
  ∀ other o h, hash = some h → b.find? other = some o → o.txHash = some h → other = id

theorem indexSound_fresh (limits : Limits) : IndexSound (fresh limits) where
  keyed h := by cases h
  carried h := by cases h

theorem indexComplete_fresh (limits : Limits) : IndexComplete (fresh limits) := by
  intro id o hash h
  cases h

theorem indexSound_file (h : IndexSound b) (hid : o.id = id) : IndexSound (b.file id o) where
  keyed := by
    intro k p hp
    by_cases hk : k = id
    · subst hk
      rw [find?_file_self] at hp
      cases hp
      exact hid
    · rw [find?_file_ne hk] at hp
      exact h.keyed hp
  carried := by
    intro hash k hi
    simp only [file, find?_reindex] at hi
    split at hi
    · rename_i ho
      cases hi
      exact ⟨o, find?_file_self, ho⟩
    · split at hi
      · cases hi
      · rename_i hold
        obtain ⟨p, hp, hh⟩ := h.carried hi
        have hk : k ≠ id := by
          intro he
          subst he
          simp [hp, hh] at hold
        exact ⟨p, (find?_file_ne hk).trans hp, hh⟩

theorem indexComplete_file (h : IndexComplete b) (hf : FreeFor b id o.txHash) :
    IndexComplete (b.file id o) := by
  intro k p hash hp hh
  simp only [file, find?_reindex]
  by_cases hk : k = id
  · subst hk
    rw [find?_file_self] at hp
    cases hp
    rw [if_pos hh]
  · rw [find?_file_ne hk] at hp
    have hnew : o.txHash ≠ some hash := fun ho => hk (hf k p hash ho hp hh)
    have hold : (b.find? id).bind (·.txHash) ≠ some hash := by
      intro ho
      obtain ⟨q, hq, hqh⟩ := Option.bind_eq_some_iff.mp ho
      have hi := h id q hash hq hqh
      rw [h k p hash hp hh] at hi
      exact hk (Option.some.inj hi)
    rw [if_neg hnew, if_neg hold]
    exact h k p hash hp hh

theorem indexSound_put (h : IndexSound b) (ho : b.find? id = some o) (hid : p.id = o.id)
    (hh : p.txHash = o.txHash) : IndexSound (b.put id p) where
  keyed := by
    intro k q hq
    by_cases hk : k = id
    · subst hk
      rw [find?_put_self] at hq
      cases hq
      exact hid.trans (h.keyed ho)
    · rw [find?_put_ne hk] at hq
      exact h.keyed hq
  carried := by
    intro hash k hi
    obtain ⟨q, hq, hqh⟩ := h.carried hi
    by_cases hk : k = id
    · subst hk
      rw [ho] at hq
      cases hq
      exact ⟨p, find?_put_self, hh.trans hqh⟩
    · exact ⟨q, (find?_put_ne hk).trans hq, hqh⟩

theorem indexComplete_put (h : IndexComplete b) (ho : b.find? id = some o)
    (hh : p.txHash = o.txHash) : IndexComplete (b.put id p) := by
  intro k q hash hq hqh
  by_cases hk : k = id
  · subst hk
    rw [find?_put_self] at hq
    cases hq
    exact h k o hash ho (hh.symm.trans hqh)
  · rw [find?_put_ne hk] at hq
    exact h k q hash hq hqh

theorem indexSound_purgeBefore (h : IndexSound b) : IndexSound (b.purgeBefore cutoff).1 where
  keyed := by
    intro k o ho
    rw [find?_purgeBefore, Option.filter_eq_some_iff] at ho
    exact h.keyed ho.1
  carried := by
    intro hash k hi
    obtain ⟨hi, hstale⟩ := byHash_purgeBefore.mp hi
    obtain ⟨o, ho, hh⟩ := h.carried hi
    refine ⟨o, ?_, hh⟩
    rw [find?_purgeBefore, Option.filter_eq_some_iff]
    refine ⟨ho, ?_⟩
    rw [Bool.not_eq_true', ← Bool.not_eq_true]
    exact fun hs => hstale k o ho hs hh

theorem indexComplete_purgeBefore (h : IndexComplete b) :
    IndexComplete (b.purgeBefore cutoff).1 := by
  intro k o hash ho hh
  rw [find?_purgeBefore, Option.filter_eq_some_iff] at ho
  obtain ⟨ho, hkept⟩ := ho
  refine byHash_purgeBefore.mpr ⟨h k o hash ho hh, ?_⟩
  intro other p hp hs hph
  have hi := h k o hash ho hh
  rw [h other p hash hp hph] at hi
  cases hi
  rw [ho] at hp
  cases hp
  simp [hs] at hkept

theorem indexSound_update (h : IndexSound b) (now : Instant) (u : Update) :
    IndexSound (b.update now u).book := by
  rcases admitted_cases b u with ⟨o, ho, hs⟩ | hr
  · have hid : o.id = u.order := h.keyed ho
    cases hb : bringsHash o u with
    | true =>
      rw [update_of_hash ho hs hid hb]
      exact indexSound_file h hid
    | false =>
      rw [update_of_no_hash ho hs hb]
      exact indexSound_put h ho rfl (txHash_amend_of_no_hash hb)
  · obtain ⟨outcome, hu, _⟩ := update_of_refused now hr
    rw [hu]
    exact h

theorem indexComplete_update (hs : IndexSound b) (h : IndexComplete b)
    (hf : ∀ o, b.find? u.order = some o → o.state.canStep u.state = true →
      FreeFor b u.order u.txHash) : IndexComplete (b.update now u).book := by
  rcases admitted_cases b u with ⟨o, ho, hstep⟩ | hr
  · cases hb : bringsHash o u with
    | true =>
      rw [update_of_hash ho hstep (hs.keyed ho) hb]
      apply indexComplete_file h
      rw [txHash_amend_of_hash hb]
      exact hf o ho hstep
    | false =>
      rw [update_of_no_hash ho hstep hb]
      exact indexComplete_put h ho (txHash_amend_of_no_hash hb)
  · obtain ⟨outcome, hu, _⟩ := update_of_refused now hr
    rw [hu]
    exact h

theorem indexSound_touches (h : IndexSound b) (ht : Touches id b b') : IndexSound b' := by
  rcases ht with rfl | ⟨o, p, ho, rfl, hid, hh⟩
  · exact h
  · exact indexSound_put h ho hid hh

theorem indexComplete_touches (h : IndexComplete b) (ht : Touches id b b') : IndexComplete b' := by
  rcases ht with rfl | ⟨o, p, ho, rfl, _, hh⟩
  · exact h
  · exact indexComplete_put h ho hh

theorem indexSound_restoreOne (h : IndexSound b) (id : String) (o : Order) :
    IndexSound (b.restoreOne id o).1 := by
  rcases terminal_cases b id with ⟨p, hp, ht⟩ | hopen
  · rw [restoreOne_of_terminal hp ht]
    exact h
  · rw [restoreOne_of_open hopen]
    exact indexSound_file h rfl

theorem indexSound_restoreFrom (h : IndexSound b) (kept : List (String × Order)) :
    IndexSound (b.restoreFrom kept).1 := by
  induction kept generalizing b with
  | nil => exact h
  | cons e rest ih => exact ih (indexSound_restoreOne h e.1 e.2)

/-- No kept order that comes back brings a hash that another one holds at that moment. -/
def RestoresFreely (b : Book) : List (String × Order) → Prop
  | [] => True
  | (id, o) :: rest =>
    ((∀ p, b.find? id = some p → p.state.isTerminal = false) → FreeFor b id o.txHash) ∧
      RestoresFreely (b.restoreOne id o).1 rest

theorem indexComplete_restoreOne (h : IndexComplete b)
    (hf : (∀ p, b.find? id = some p → p.state.isTerminal = false) → FreeFor b id o.txHash) :
    IndexComplete (b.restoreOne id o).1 := by
  rcases terminal_cases b id with ⟨p, hp, ht⟩ | hopen
  · rw [restoreOne_of_terminal hp ht]
    exact h
  · rw [restoreOne_of_open hopen]
    exact indexComplete_file h (hf hopen)

theorem indexComplete_restoreFrom {kept : List (String × Order)} (h : IndexComplete b)
    (hf : RestoresFreely b kept) : IndexComplete (b.restoreFrom kept).1 := by
  induction kept generalizing b with
  | nil => exact h
  | cons e rest ih => exact ih (indexComplete_restoreOne h hf.1) hf.2

/-- The command gives no order a hash that another order holds at that moment. -/
def GivesFreely (b : Book) : Command → Prop
  | .track o => b.find? o.id = none → FreeFor b o.id o.txHash
  | .update u => ∀ o, b.find? u.order = some o → o.state.canStep u.state = true →
      FreeFor b u.order u.txHash
  | .restore kept => RestoresFreely b kept.entries
  | _ => True

theorem indexSound_perform (h : IndexSound b) (now : Instant) (c : Command) :
    IndexSound (b.perform now c).book := by
  cases c with
  | track o =>
    cases hn : b.find? o.id with
    | some p =>
      rw [perform_track_of_tracked hn]
      exact h
    | none =>
      rw [perform_track_of_new hn]
      exact indexSound_file h rfl
  | update u => exact indexSound_update h now u
  | markNotFound id => exact indexSound_touches h (touches_doubt b now id .miss)
  | markAmbiguous id => exact indexSound_touches h (touches_doubt b now id .stall)
  | restore kept => exact indexSound_restoreFrom h kept.entries
  | purge age =>
    rcases perform_purge_cases b now age with ⟨cause, hp⟩ | ⟨cutoff, hp⟩
    · rw [hp]
      exact h
    · rw [hp]
      exact indexSound_purgeBefore h

theorem indexComplete_perform (hs : IndexSound b) (h : IndexComplete b) (hf : GivesFreely b c) :
    IndexComplete (b.perform now c).book := by
  cases c with
  | track o =>
    cases hn : b.find? o.id with
    | some p =>
      rw [perform_track_of_tracked hn]
      exact h
    | none =>
      rw [perform_track_of_new hn]
      exact indexComplete_file h (hf hn)
  | update u => exact indexComplete_update hs h hf
  | markNotFound id => exact indexComplete_touches h (touches_doubt b now id .miss)
  | markAmbiguous id => exact indexComplete_touches h (touches_doubt b now id .stall)
  | restore kept => exact indexComplete_restoreFrom h hf
  | purge age =>
    rcases perform_purge_cases b now age with ⟨cause, hp⟩ | ⟨cutoff, hp⟩
    · rw [hp]
      exact h
    · rw [hp]
      exact indexComplete_purgeBefore h

/-- Every command of the run gives hashes freely. -/
def RunsFreely (b : Book) : List (Instant × Command) → Prop
  | [] => True
  | (now, c) :: rest => GivesFreely b c ∧ RunsFreely (b.perform now c).book rest

theorem indexSound_performAll (h : IndexSound b) (run : List (Instant × Command)) :
    IndexSound (b.performAll run).1 := by
  induction run generalizing b with
  | nil => exact h
  | cons e rest ih => exact ih (indexSound_perform h e.1 e.2)

theorem indexComplete_performAll (hs : IndexSound b) (h : IndexComplete b)
    (hf : RunsFreely b run) : IndexComplete (b.performAll run).1 := by
  induction run generalizing b with
  | nil => exact h
  | cons e rest ih =>
    exact ih (indexSound_perform hs e.1 e.2) (indexComplete_perform hs h hf.1) hf.2

/-- A book that some run of commands leads to. -/
def Reachable (b : Book) : Prop := ∃ limits run, b = ((fresh limits).performAll run).1

theorem Reachable.indexSound (h : Reachable b) : IndexSound b := by
  obtain ⟨limits, run, rfl⟩ := h
  exact indexSound_performAll (indexSound_fresh limits) run

theorem txHash_of_findByHash? (h : IndexSound b) (hf : b.findByHash? hash = some o) :
    o.txHash = some hash ∧ b.find? o.id = some o := by
  obtain ⟨id, hi, ho⟩ := findByHash?_eq_some.mp hf
  obtain ⟨p, hp, hh⟩ := h.carried hi
  rw [ho] at hp
  cases hp
  exact ⟨hh, (h.keyed ho).symm ▸ ho⟩

theorem findByHash?_of_complete (h : IndexComplete b) (ho : b.find? id = some o)
    (hh : o.txHash = some hash) : b.findByHash? hash = some o :=
  findByHash?_eq_some.mpr ⟨id, h id o hash ho hh, ho⟩

/-- After any run orders stand under their own ids, and the index names orders that carry the hash. If
no order was ever given a hash that another one held, looking up a hash finds exactly the order that
carries it. -/
theorem index_mirrors_orders (limits : Limits) (run : List (Instant × Command)) :
    let b := ((fresh limits).performAll run).1
    (∀ id o, b.find? id = some o → o.id = id) ∧
    (∀ hash id, b.byHash.find? hash = some id →
      ∃ o, b.find? id = some o ∧ o.txHash = some hash) ∧
    (∀ hash o, b.findByHash? hash = some o → o.txHash = some hash) ∧
    (RunsFreely (fresh limits) run → ∀ hash o,
      b.findByHash? hash = some o ↔ b.find? o.id = some o ∧ o.txHash = some hash) := by
  intro b
  have hs : IndexSound b := indexSound_performAll (indexSound_fresh limits) run
  refine ⟨fun _ _ => hs.keyed, fun _ _ => hs.carried, ?_, ?_⟩
  · intro hash o hf
    exact (txHash_of_findByHash? hs hf).1
  · intro hfree hash o
    have hc : IndexComplete b :=
      indexComplete_performAll (indexSound_fresh limits) (indexComplete_fresh limits) hfree
    constructor
    · intro hf
      exact (txHash_of_findByHash? hs hf).symm
    · rintro ⟨ho, hh⟩
      exact findByHash?_of_complete hc ho hh

theorem index_mirrors_submitted_order :
    let run : List (Instant × Command) := [(.epoch, .track (.sample "a")),
      (.epoch, .update { Update.toState "a" .opened with txHash := some "x" })]
    let b := ((fresh .default).performAll run).1
    RunsFreely (fresh .default) run ∧
      ∀ hash o, b.findByHash? hash = some o ↔ b.find? o.id = some o ∧ o.txHash = some hash := by
  intro run b
  have hfree : RunsFreely (fresh .default) run := by
    refine ⟨?_, ?_, trivial⟩
    · intro _ other o h _ ho _
      cases ho
    · intro o _ _ other p _ _ hp _
      rw [perform_track_of_new rfl] at hp
      change ((fresh .default).file "a" (.sample "a")).find? other = some p at hp
      by_cases he : other = "a"
      · exact he
      · rw [find?_file_ne he] at hp
        cases hp
  exact ⟨hfree, (index_mirrors_orders .default run).2.2.2 hfree⟩

end SwapDesk.Book
