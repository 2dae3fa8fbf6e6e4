import SwapDesk.Proofs.Book.Finality
import SwapDesk.Proofs.Book.Merging

/-! Where an order stands: in which state it is and whether it has its hash. It is signalled when orders
get a hash; a command without the signal gives none and takes none away. -/
namespace SwapDesk.Book

variable {b : Book} {now : Instant} {c : Command} {id key : String} {o p : Order} {kept : Orders}

/-- The order is tracked and in this state. -/
def standsAt (b : Book) (id : String) (s : OrderState) : Bool := (b.find? id).any (·.state = s)

def isActive (b : Book) (id : String) : Bool := (b.find? id).any (·.state.isActive)

def hasHash (b : Book) (id : String) : Bool := (b.find? id).any (·.txHash.isSome)

theorem isActive_iff :
    b.isActive id = true ↔ ∃ o, b.find? id = some o ∧ o.state.isTerminal = false := by
  simp [isActive, Option.any_eq_true, OrderState.isActive_iff]

theorem standsAt_iff {s : OrderState} :
    b.standsAt id s = true ↔ ∃ o, b.find? id = some o ∧ o.state = s := by
  simp [standsAt, Option.any_eq_true]

theorem hasHash_iff :
    b.hasHash id = true ↔ ∃ o, b.find? id = some o ∧ o.txHash.isSome = true := by
  simp [hasHash, Option.any_eq_true]

theorem isActive_of_lacksHash (h : b.lacksHash id = true) : b.isActive id = true := by
  obtain ⟨o, ho, ha⟩ := (Option.any_eq_true _ _).mp h
  exact (Option.any_eq_true _ _).mpr ⟨o, ho, (Bool.and_eq_true_iff.mp ha).1⟩

theorem lacksHash_iff :
    b.lacksHash id = true ↔ ∃ o, b.find? id = some o ∧ o.state.isTerminal = false ∧ o.txHash = none := by
  simp [lacksHash, Option.any_eq_true, OrderState.isActive_iff]

theorem hasHash_of_lacksHash (h : b.lacksHash id = true) : b.hasHash id = false := by
  obtain ⟨o, ho, _, hh⟩ := lacksHash_iff.mp h
  simp [hasHash, ho, hh]

/-- What a command can make of an order if no order gets a hash by it. -/
inductive Quiet (b : Book) (id : String) : Command → Option Order → Prop
  | same (c : Command) {found : Option Order} (h : found = b.find? id) : Quiet b id c found
  | changed (c : Command) {o p : Order} (ho : b.find? id = some o) (ha : o.state.isTerminal = false)
      (hh : p.txHash = o.txHash) : Quiet b id c (some p)
  | dropped (c : Command) {o : Order} (ho : b.find? id = some o) (ht : o.state.isTerminal = true) :
      Quiet b id c none
  | entered {o : Order} (hnone : b.find? id = none) (hid : o.id = id) : Quiet b id (.track o) (some o)

theorem quiet_put (ho : b.find? key = some o) (ha : o.state.isTerminal = false)
    (hh : p.txHash = o.txHash) (id : String) (c : Command) :
    Quiet b id c ((b.put key p).find? id) := by
  by_cases hk : id = key
  · subst hk
    rw [find?_put_self]
    exact .changed c ho ha hh
  · rw [find?_put_ne hk]
    exact .same c rfl

theorem quiet_doubt (b : Book) (now : Instant) (key id : String) (d : Doubt) (c : Command) :
    Quiet b id c ((b.doubt now key d).book.find? id) := by
  have hd := doubts b now key d
  generalize b.doubt now key d = change at hd
  cases hd with
  | @lapses o ho ha =>
    exact quiet_put (p := (d.raise o).lapse now d.reason) ho ha (d.txHash_raise o) id c
  | counts ho ha => exact quiet_put ho ha (d.txHash_raise _) id c
  | sticks ho ha => exact quiet_put ho ha (d.txHash_stick _) id c
  | late hl => exact .same c rfl

theorem quiet_update {u : Update} (hg : (b.update now u).gotHash = false) (id : String) (c : Command) :
    Quiet b id c ((b.update now u).book.find? id) := by
  rcases admitted_cases b u with ⟨o, ho, hs⟩ | hr
  · have hb : bringsHash o u = false := by
      rw [update_of_canStep ho hs] at hg
      exact hg
    rw [update_of_no_hash ho hs hb]
    exact quiet_put ho (OrderState.isTerminal_of_canStep hs) (txHash_amend_of_no_hash hb) id c
  · obtain ⟨outcome, hu, _⟩ := update_of_refused now hr
    rw [hu]
    exact .same c rfl

theorem quiet_track (b : Book) (now : Instant) (o : Order) (id : String) :
    Quiet b id (.track o) ((b.perform now (.track o)).book.find? id) := by
  cases hf : b.find? o.id with
  | some p =>
    rw [perform_track_of_tracked hf]
    exact .same _ rfl
  | none =>
    rw [perform_track_of_new hf]
    by_cases hk : id = o.id
    · subst hk
      rw [find?_file_self]
      exact .entered hf rfl
    · rw [find?_file_ne hk]
      exact .same _ rfl

/-- A restore that takes back nothing. -/
theorem find?_restore_of_none (h : (b.restore kept).2 = 0) (id : String) :
    (b.restore kept).1.find? id = b.find? id := by
  obtain ⟨taken, _, hlength, hmem⟩ := exists_taken b kept.nodup_keys
  have hnil : taken = [] := List.eq_nil_of_length_eq_zero (hlength.trans h)
  subst hnil
  refine find?_restore_of_left fun ha => ?_
  rw [← Dict.contains_eq_false_iff, ← Bool.not_eq_true, ← kept.mem_keys_iff]
  intro hk
  cases (hmem id).mpr ⟨hk, ha⟩

theorem quiet_purge (b : Book) (now : Instant) (age : Int) (id : String) (c : Command) :
    Quiet b id c ((b.perform now (.purge age)).book.find? id) := by
  rcases perform_purge_cases b now age with ⟨cause, hp⟩ | ⟨cutoff, hp⟩
  · rw [hp]
    exact .same c rfl
  · rw [hp, find?_purgeBefore]
    cases hf : b.find? id with
    | none => exact .same c hf.symm
    | some o =>
      cases hs : isStale cutoff o with
      | false =>
        rw [Option.filter_some_pos (by simp [hs])]
        exact .same c hf.symm
      | true =>
        rw [Option.filter_some_neg (by simp [hs])]
        exact .dropped c hf (Bool.and_eq_true_iff.mp hs).1

theorem quiet_perform (hg : (b.perform now c).gotHash = false) (id : String) :
    Quiet b id c ((b.perform now c).book.find? id) := by
  cases c with
  | track o => exact quiet_track b now o id
  | update u => exact quiet_update hg id _
  | markNotFound key => exact quiet_doubt b now key id .miss _
  | markAmbiguous key => exact quiet_doubt b now key id .stall _
  | restore kept =>
    have hnone : (b.restore kept).2 = 0 := by
      have hnot : ¬0 < (b.restore kept).2 := of_decide_eq_false hg
      exact Nat.eq_zero_of_not_pos hnot
    exact .same _ (find?_restore_of_none hnone id)
  | purge age => exact quiet_purge b now age id _

/-- An order without a hash that is still active is still without one. -/
theorem lacksHash_perform (hg : (b.perform now c).gotHash = false) (h : b.lacksHash id = true)
    (ha : (b.perform now c).book.isActive id = true) :
    (b.perform now c).book.lacksHash id = true := by
  obtain ⟨o, ho, _, hnone⟩ := lacksHash_iff.mp h
  obtain ⟨p, hp, hopen⟩ := isActive_iff.mp ha
  have hq := quiet_perform hg id
  rw [hp] at hq
  refine lacksHash_iff.mpr ⟨p, hp, hopen, ?_⟩
  cases hq with
  | same _ hf =>
    cases hf.trans ho
    exact hnone
  | changed _ ho' _ hh =>
    cases ho'.symm.trans ho
    exact hh.trans hnone
  | entered hno _ => cases hno.symm.trans ho

/-- And unless it is tracked anew, an order that is active was active before. -/
theorem isActive_of_perform (hg : (b.perform now c).gotHash = false)
    (hn : ∀ o, c = .track o → o.id = id → (b.find? id).isSome = true)
    (h : (b.perform now c).book.isActive id = true) : b.isActive id = true := by
  obtain ⟨p, hp, hopen⟩ := isActive_iff.mp h
  have hq := quiet_perform hg id
  rw [hp] at hq
  cases hq with
  | same _ hf => exact isActive_iff.mpr ⟨p, hf.symm, hopen⟩
  | changed _ ho ha _ => exact isActive_iff.mpr ⟨_, ho, ha⟩
  | entered hno hid =>
    have htracked := hn p rfl hid
    simp [hno] at htracked

/-- No order is dropped by the command, and none loses its hash for a kept copy without one. -/
def sparesHashes (b : Book) : Command → Prop
  | .restore kept => ∀ id p, b.hasHash id = true → kept.find? id = some p → p.txHash.isSome = true
  | .purge _ => False
  | _ => True

theorem keeps_of_sparesHashes (hc : b.sparesHashes c) (now : Instant) : Keeps b (b.perform now c).book := by
  apply keeps_perform
  rintro age rfl
  exact hc

theorem Quiet.hasHash {found : Option Order} (hq : Quiet b id c found) (h : b.hasHash id = true)
    (hf : found.isSome = true) : found.any (·.txHash.isSome) = true := by
  obtain ⟨o, ho, hh⟩ := hasHash_iff.mp h
  cases hq with
  | same _ he => rw [he, ho, Option.any_some, hh]
  | changed _ ho' _ hp =>
    cases ho'.symm.trans ho
    rw [Option.any_some, hp, hh]
  | dropped => cases hf
  | entered hnone _ => cases hnone.symm.trans ho

theorem hasHash_perform (hc : b.sparesHashes c) (h : b.hasHash id = true) :
    (b.perform now c).book.hasHash id = true := by
  obtain ⟨o, ho, hh⟩ := hasHash_iff.mp h
  obtain ⟨_, p, hp⟩ := keeps_of_sparesHashes hc now id o ho
  have hsome : ((b.perform now c).book.find? id).isSome = true := by simp [hp]
  cases c with
  | track x => exact (quiet_track b now x id).hasHash h hsome
  | update u =>
    rcases admitted_cases b u with ⟨x, hx, hs⟩ | hr
    · have hfind : (b.update now u).book.find? id =
          if id = u.order then some (x.amend now u) else b.find? id := by
        rw [update_of_canStep hx hs]
        exact Dict.find?_insert ..
      by_cases hid : id = u.order
      · subst hid
        cases hx.symm.trans ho
        exact hasHash_iff.mpr ⟨_, hfind.trans (if_pos rfl), by simp [Order.amend, hh]⟩
      · exact hasHash_iff.mpr ⟨o, hfind.trans ((if_neg hid).trans ho), hh⟩
    · obtain ⟨outcome, hu, _⟩ := update_of_refused now hr
      simp only [perform, hu]
      exact h
  | markNotFound key => exact (quiet_doubt b now key id .miss (.markNotFound key)).hasHash h hsome
  | markAmbiguous key => exact (quiet_doubt b now key id .stall (.markAmbiguous key)).hasHash h hsome
  | restore kept =>
    have hfind : (b.perform now (.restore kept)).book.find? id = b.merged kept id :=
      find?_restore b kept id
    rcases terminal_cases b id with ⟨x, hx, ht⟩ | hopen
    · cases hx.symm.trans ho
      exact hasHash_iff.mpr ⟨o, hfind.trans (merged_of_terminal ho ht), hh⟩
    · rw [merged_of_admits hopen] at hfind
      cases hk : kept.find? id with
      | none => exact hasHash_iff.mpr ⟨o, by simp [hfind, hk, ho], hh⟩
      | some q => exact hasHash_iff.mpr ⟨{ q with id }, by simp [hfind, hk], hc id q h hk⟩
  | purge age => exact hc.elim

end SwapDesk.Book
