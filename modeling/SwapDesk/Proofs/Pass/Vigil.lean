import SwapDesk.Proofs.Book.Standing
import SwapDesk.Proofs.Pass.Course

/-! The wait of a polling pass for the hashes of new transactions. The pass looks for them when it hears
that one came, and it hears that only while it listens. It listens before it looks, so that no hash that
came escapes it. But it hears nothing of an order that becomes terminal while it waits. -/
namespace SwapDesk

/-- Where a wait is. -/
inductive Watch
  | deaf
  | listening
  | waiting
  | ended
deriving DecidableEq

/-- A wait for hashes: the questions that can be asked already, and the orders that are still missing
theirs. While it listens, `rung` tells that it was signalled that a hash came. -/
structure Vigil where
  watch : Watch
  rung : Bool
  ready : List Inquiry
  missing : List String

namespace Vigil

def begin (orders : List Order) : Vigil :=
  let (ready, missing) := inquiries orders
  ⟨if missing.isEmpty then .ended else .deaf, false, ready, missing⟩

/-- Hears of a change of the book. -/
def hear (v : Vigil) (gotHash : Bool) : Vigil := { v with rung := v.rung || gotHash }

/-- Goes on. What came before it listened is forgotten, and a signal counts for more than that it is late. -/
def next (v : Vigil) (b : Book) (late : Bool) : Vigil :=
  match v.watch with
  | .deaf => { v with watch := .listening, rung := false }
  | .listening =>
    let (got, missing) := b.recheck v.missing
    { v with watch := if missing.isEmpty then .ended else .waiting, ready := v.ready ++ got, missing }
  | .waiting =>
    if v.rung then { v with watch := .deaf }
    else if late then { v with watch := .ended }
    else v
  | .ended => v

end Vigil

/-- The books during a wait: all of them, those at which it looked for hashes, and those since it looked
last. -/
structure Diary where
  past : List Book
  looks : List Book
  since : List Book

namespace Diary

def begin (b : Book) : Diary := ⟨[b], [], [b]⟩

def enter (d : Diary) (b : Book) : Diary := { d with past := b :: d.past, since := b :: d.since }

def look (d : Diary) (b : Book) : Diary := { d with looks := b :: d.looks, since := [b] }

end Diary

namespace Vigil

/-- A wait that began on the book `first` for orders of it. Others change the book by such commands as are
allowed. -/
inductive Run (allowed : Book → Command → Prop) (first : Book) (orders : List Order) :
    Diary → Book → Vigil → Prop
  | begin : Run allowed first orders (.begin first) first (.begin orders)
  | turn {d : Diary} {b : Book} {v : Vigil} (h : Run allowed first orders d b v) (late : Bool) :
      Run allowed first orders (if v.watch = .listening then d.look b else d) b (v.next b late)
  | command {d : Diary} {b : Book} {v : Vigil} {c : Command} (h : Run allowed first orders d b v)
      (now : Instant) (ha : allowed b c) (ho : v.watch ≠ .ended) :
      Run allowed first orders (d.enter (b.perform now c).book) (b.perform now c).book
        (v.hear (b.perform now c).gotHash)

/-- Any command may come. -/
def anyCommand (_ : Book) (_ : Command) : Prop := True

/-- Any command may come but that an order of the wait that was dropped is tracked anew. -/
def noneAnew (orders : List Order) (b : Book) (c : Command) : Prop :=
  ∀ o, c = .track o → o.id ∈ orders.map (·.id) → (b.find? o.id).isSome = true

variable {allowed : Book → Command → Prop} {first b : Book} {orders : List Order} {d : Diary} {v : Vigil}
  {id : String} {q : Inquiry} {missing : List String}

/-! ### What a look finds -/

theorem inquiry?_eq_some (h : b.inquiry? id = some q) :
    q.order = id ∧ ∃ o, b.find? id = some o ∧ o.state.isTerminal = false ∧ o.txHash = some q.hash := by
  obtain ⟨o, ho, hq⟩ := Option.bind_eq_some_iff.mp h
  by_cases ht : o.state.isTerminal = true
  · simp [ht] at hq
  · rw [if_neg ht] at hq
    obtain ⟨hash, hh, he⟩ := Option.bind_eq_some_iff.mp hq
    cases he
    exact ⟨rfl, o, ho, Bool.not_eq_true _ ▸ ht, hh⟩

theorem inquiry?_of_lacksHash (h : b.lacksHash id = true) : b.inquiry? id = none := by
  obtain ⟨o, ho, ha, hh⟩ := Book.lacksHash_iff.mp h
  simp [Book.inquiry?, ho, ha, hh]

/-- An active order that was missing its hash has got it or is still missing it. -/
theorem found_or_lacksHash (ha : b.isActive id = true) :
    (∃ q, b.inquiry? id = some q) ∨ b.lacksHash id = true := by
  obtain ⟨o, ho, hopen⟩ := Book.isActive_iff.mp ha
  cases hh : o.txHash with
  | none => exact .inr (Book.lacksHash_iff.mpr ⟨o, ho, hopen, hh⟩)
  | some hash => exact .inl ⟨⟨id, hash⟩, by simp [Book.inquiry?, ho, hopen, hh]⟩

/-- No order is both found and still missing. -/
theorem recheck_subperm (b : Book) (missing : List String) :
    ((b.recheck missing).1.map (·.order) ++ (b.recheck missing).2).Subperm missing := by
  induction missing with
  | nil => exact .refl []
  | cons id rest ih =>
    cases hq : b.inquiry? id with
    | some q =>
      have hl : b.lacksHash id = false := by
        rw [← Bool.not_eq_true]
        intro hl
        cases (inquiry?_of_lacksHash hl).symm.trans hq
      obtain ⟨rfl, _⟩ := inquiry?_eq_some hq
      simp only [Book.recheck, List.filterMap_cons, List.filter_cons, hq, hl, List.map_cons]
      exact (List.subperm_cons q.order).mpr ih
    | none =>
      cases hl : b.lacksHash id with
      | true =>
        have hmiddle := List.perm_middle.subperm.trans ((List.subperm_cons id).mpr ih)
        simpa [Book.recheck, hq, hl] using hmiddle
      | false =>
        have hrest := ih.trans (List.sublist_cons_self id rest).subperm
        simpa [Book.recheck, hq, hl] using hrest

/-! ### What a wait keeps -/

theorem next_cases (v : Vigil) (b : Book) (late : Bool) :
    (v.watch = .listening ∧ (v.next b late).ready = v.ready ++ (b.recheck v.missing).1 ∧
      (v.next b late).missing = (b.recheck v.missing).2) ∨
    v.watch ≠ .listening ∧ (v.next b late).ready = v.ready ∧ (v.next b late).missing = v.missing := by
  cases hw : v.watch with
  | listening => exact .inl ⟨rfl, by simp [next, hw], by simp [next, hw]⟩
  | deaf => exact .inr ⟨nofun, by simp [next, hw], by simp [next, hw]⟩
  | waiting =>
    refine .inr ⟨nofun, ?_⟩
    simp only [next, hw]
    split
    · exact ⟨rfl, rfl⟩
    · split <;> exact ⟨rfl, rfl⟩
  | ended => exact .inr ⟨nofun, by simp [next, hw], by simp [next, hw]⟩

/-- Where the orders of a wait are. -/
structure Minds (orders : List Order) (d : Diary) (b : Book) (v : Vigil) : Prop where
  here : b ∈ d.past
  looks : ∀ b' ∈ d.looks, b' ∈ d.past
  since : ∀ b' ∈ d.since, b' ∈ d.past
  once : (v.ready.map (·.order) ++ v.missing).Subperm (orders.map (·.id))
  carried : ∀ q ∈ v.ready, ∃ b' ∈ d.past, ∃ o, b'.find? q.order = some o ∧ o.txHash = some q.hash
  dropped : ∀ id ∈ orders.map (·.id), id ∉ v.ready.map (·.order) → id ∉ v.missing →
    ∃ b' ∈ d.looks, b'.isActive id = false

theorem minds_begin (hfirst : ∀ o ∈ orders, first.find? o.id = some o) :
    Minds orders (.begin first) first (.begin orders) where
  here := List.mem_singleton_self first
  looks := nofun
  since := fun _ hb => hb
  once := (List.perm_append_comm.trans (inquiries_perm orders)).subperm
  carried := by
    intro q hq
    obtain ⟨o, ho, hq⟩ := List.mem_filterMap.mp hq
    obtain ⟨hash, hh, rfl⟩ := Option.map_eq_some_iff.mp hq
    exact ⟨first, List.mem_singleton_self first, o, hfirst o ho, hh⟩
  dropped := by
    intro id hid hready hmissing
    rcases List.mem_append.mp ((inquiries_perm orders).mem_iff.mpr hid) with hin | hin
    · exact (hmissing hin).elim
    · exact (hready hin).elim

theorem Minds.look (h : Minds orders d b v) {v' : Vigil}
    (hr : v'.ready = v.ready ++ (b.recheck v.missing).1) (hm : v'.missing = (b.recheck v.missing).2) :
    Minds orders (d.look b) b v' where
  here := h.here
  looks := List.forall_mem_cons.mpr ⟨h.here, h.looks⟩
  since := List.forall_mem_singleton.mpr h.here
  once := by
    have hlook := (List.subperm_append_left (v.ready.map (·.order))).mpr (recheck_subperm b v.missing)
    rw [hr, hm, List.map_append, List.append_assoc]
    exact hlook.trans h.once
  carried := by
    intro q hq
    rw [hr] at hq
    rcases List.mem_append.mp hq with hq | hq
    · exact h.carried q hq
    · obtain ⟨id, _, hq⟩ := List.mem_filterMap.mp hq
      obtain ⟨rfl, o, ho, _, hh⟩ := inquiry?_eq_some hq
      exact ⟨b, h.here, o, ho, hh⟩
  dropped := by
    intro id hid hready hmissing
    rw [hr, List.map_append, List.mem_append, not_or] at hready
    rw [hm] at hmissing
    by_cases hin : id ∈ v.missing
    · refine ⟨b, List.mem_cons_self, ?_⟩
      rw [← Bool.not_eq_true]
      intro ha
      rcases found_or_lacksHash ha with ⟨q, hq⟩ | hl
      · have hfound : q ∈ (b.recheck v.missing).1 := List.mem_filterMap.mpr ⟨id, hin, hq⟩
        obtain ⟨rfl, _⟩ := inquiry?_eq_some hq
        exact hready.2 (List.mem_map_of_mem hfound)
      · exact hmissing (List.mem_filter.mpr ⟨hin, hl⟩)
    · obtain ⟨b', hb', hgone⟩ := h.dropped id hid hready.1 hin
      exact ⟨b', List.mem_cons_of_mem b hb', hgone⟩

theorem Minds.of_eq (h : Minds orders d b v) {v' : Vigil} (hr : v'.ready = v.ready)
    (hm : v'.missing = v.missing) : Minds orders d b v' := by
  obtain ⟨hhere, hlooks, hsince, honce, hcarried, hdropped⟩ := h
  rw [← hr, ← hm] at honce hdropped
  rw [← hr] at hcarried
  exact ⟨hhere, hlooks, hsince, honce, hcarried, hdropped⟩

theorem Minds.enter (h : Minds orders d b v) (b' : Book) : Minds orders (d.enter b') b' v where
  here := List.mem_cons_self
  looks := fun b₀ hb₀ => List.mem_cons_of_mem b' (h.looks b₀ hb₀)
  since := by
    intro b₀ hb₀
    rcases List.mem_cons.mp hb₀ with rfl | hb₀
    · exact List.mem_cons_self
    · exact List.mem_cons_of_mem b' (h.since b₀ hb₀)
  once := h.once
  carried := by
    intro q hq
    obtain ⟨b₀, hb₀, hfound⟩ := h.carried q hq
    exact ⟨b₀, List.mem_cons_of_mem b' hb₀, hfound⟩
  dropped := h.dropped

theorem Run.minds (h : Run allowed first orders d b v)
    (hfirst : ∀ o ∈ orders, first.find? o.id = some o) : Minds orders d b v := by
  induction h with
  | begin => exact minds_begin hfirst
  | @turn d b v _ late ih =>
    rcases v.next_cases b late with ⟨hw, hr, hm⟩ | ⟨hw, hr, hm⟩
    · rw [if_pos hw]
      exact ih.look hr hm
    · rw [if_neg hw]
      exact ih.of_eq hr hm
  | @command d b v c _ now _ _ ih => exact (ih.enter (b.perform now c).book).of_eq rfl rfl

/-! ### What a wait overlooks -/

/-- Nothing was signalled since the wait looked last, or the wait is over. -/
def Calm (v : Vigil) : Prop := v.watch = .waiting ∧ v.rung = false ∨ v.watch = .ended

/-- A calm wait has just looked or was calm before. -/
theorem calm_of_next {late : Bool} (h : (v.next b late).Calm) :
    v.watch = .listening ∨ v.watch ≠ .listening ∧ v.Calm := by
  cases hw : v.watch with
  | listening => exact .inl rfl
  | deaf => simp [Calm, next, hw] at h
  | waiting =>
    cases hr : v.rung with
    | true => simp [Calm, next, hw, hr] at h
    | false => exact .inr ⟨nofun, .inl ⟨hw, hr⟩⟩
  | ended => exact .inr ⟨nofun, .inr hw⟩

theorem calm_of_hear {got : Bool} (h : (v.hear got).Calm) (ho : v.watch ≠ .ended) :
    got = false ∧ v.Calm := by
  rcases h with ⟨hw, hr⟩ | hw
  · obtain ⟨hr, hg⟩ := Bool.or_eq_false_iff.mp hr
    exact ⟨hg, .inl ⟨hw, hr⟩⟩
  · exact (ho hw).elim

theorem missing_of_calm_begin (h : (begin orders).Calm) : (begin orders).missing = [] := by
  have hm : (begin orders).missing = (inquiries orders).2 := rfl
  rw [hm]
  cases he : (inquiries orders).2 with
  | nil => rfl
  | cons id rest => simp [Calm, begin, he] at h

/-- A hash that came since the wait looked last was signalled. So as long as it is calm, an order that
is missing its hash has none, if it has not become terminal. -/
theorem Run.lacksHash (h : Run allowed first orders d b v) (hc : v.Calm) (hid : id ∈ v.missing)
    (ha : ∀ b' ∈ d.since, b'.isActive id = true) : b.lacksHash id = true := by
  induction h with
  | begin =>
    rw [missing_of_calm_begin hc] at hid
    cases hid
  | @turn d b v _ late ih =>
    rcases calm_of_next hc with hw | ⟨hw, hc⟩
    · rcases v.next_cases b late with ⟨_, _, hm⟩ | ⟨hne, _⟩
      · rw [hm] at hid
        exact (List.mem_filter.mp hid).2
      · exact (hne hw).elim
    · rcases v.next_cases b late with ⟨hl, _⟩ | ⟨_, _, hm⟩
      · exact (hw hl).elim
      · rw [if_neg hw] at ha
        rw [hm] at hid
        exact ih hc hid ha
  | @command d b v c _ now _ ho ih =>
    obtain ⟨hg, hc⟩ := calm_of_hear hc ho
    have hbefore : b.lacksHash id = true := ih hc hid fun b' hb' => ha b' (List.mem_cons_of_mem _ hb')
    exact Book.lacksHash_perform hg hbefore (ha _ List.mem_cons_self)

/-- And unless it is tracked anew, an order that is active now has been active since. -/
theorem Run.active_since (h : Run (noneAnew orders) first orders d b v)
    (hfirst : ∀ o ∈ orders, first.find? o.id = some o) (hc : v.Calm) (hid : id ∈ v.missing)
    (ha : b.isActive id = true) : ∀ b' ∈ d.since, b'.isActive id = true := by
  induction h with
  | begin =>
    rw [missing_of_calm_begin hc] at hid
    cases hid
  | @turn d b v h late ih =>
    rcases calm_of_next hc with hw | ⟨hw, hc⟩
    · rw [if_pos hw]
      exact List.forall_mem_singleton.mpr ha
    · rcases v.next_cases b late with ⟨hl, _⟩ | ⟨_, _, hm⟩
      · exact (hw hl).elim
      · rw [if_neg hw]
        rw [hm] at hid
        exact ih hc hid ha
  | @command d b v c h now hn ho ih =>
    obtain ⟨hg, hc⟩ := calm_of_hear hc ho
    have hours : id ∈ orders.map (·.id) :=
      (h.minds hfirst).once.subset (List.mem_append_right _ hid)
    have hbefore : b.isActive id = true := by
      apply Book.isActive_of_perform hg ?_ ha
      rintro o rfl rfl
      exact hn o rfl hours
    exact List.forall_mem_cons.mpr ⟨ha, ih hc hid hbefore⟩

/-! ### The end of a wait -/

/-- An order that has a hash at the end, and was active all the time, is asked about. -/
theorem Run.ready_of_hash (h : Run allowed first orders d b v)
    (hfirst : ∀ o ∈ orders, first.find? o.id = some o) (hended : v.watch = .ended)
    (hid : id ∈ orders.map (·.id)) (ha : ∀ b' ∈ d.past, b'.isActive id = true)
    (hh : b.hasHash id = true) : id ∈ v.ready.map (·.order) ∧ id ∉ v.missing := by
  have hminds := h.minds hfirst
  have hmissing : id ∉ v.missing := by
    intro hin
    have hl := h.lacksHash (.inr hended) hin fun b' hb' => ha b' (hminds.since b' hb')
    simp [Book.hasHash_of_lacksHash hl] at hh
  refine ⟨?_, hmissing⟩
  by_contra hready
  obtain ⟨b', hb', hgone⟩ := hminds.dropped id hid hready hmissing
  simp [ha b' (hminds.looks b' hb')] at hgone

theorem isActive_of_keeps {b' : Book} (hk : Book.Keeps b b') (hs : (b.find? id).isSome = true)
    (ha : b'.isActive id = true) : b.isActive id = true := by
  obtain ⟨o, ho⟩ := Option.isSome_iff_exists.mp hs
  obtain ⟨p, hp, hopen⟩ := Book.isActive_iff.mp ha
  refine Book.isActive_iff.mpr ⟨o, ho, ?_⟩
  rw [← Bool.not_eq_true]
  intro ht
  cases ((hk id o ho).1 ht).symm.trans hp
  simp [ht] at hopen

/-- If no order is dropped and none loses its hash, an order that is active at the end was active all the
time, and one that got a hash has one at the end. -/
theorem Run.steadfast (h : Run Book.sparesHashes first orders d b v)
    (hs : (first.find? id).isSome = true) :
    (b.find? id).isSome = true ∧ (b.isActive id = true → ∀ b' ∈ d.past, b'.isActive id = true) ∧
      ∀ b' ∈ d.past, b'.hasHash id = true → b.hasHash id = true := by
  induction h with
  | begin =>
    refine ⟨hs, fun ha b' hb' => ?_, fun b' hb' hh => ?_⟩
    · exact List.mem_singleton.mp hb' ▸ ha
    · exact List.mem_singleton.mp hb' ▸ hh
  | @turn d b v _ late ih =>
    have hpast : (if v.watch = .listening then d.look b else d).past = d.past := by
      split <;> rfl
    rw [hpast]
    exact ih
  | @command d b v c _ now hc _ ih =>
    obtain ⟨htracked, hactive, hhash⟩ := ih
    have hkeeps := Book.keeps_of_sparesHashes hc now
    refine ⟨?_, fun ha => ?_, fun b' hb' hh => ?_⟩
    · obtain ⟨o, ho⟩ := Option.isSome_iff_exists.mp htracked
      obtain ⟨_, p, hp⟩ := hkeeps id o ho
      simp [hp]
    · exact List.forall_mem_cons.mpr ⟨ha, hactive (isActive_of_keeps hkeeps htracked ha)⟩
    · rcases List.mem_cons.mp hb' with rfl | hb'
      · exact hh
      · exact Book.hasHash_perform hc (hhash b' hb' hh)

end Vigil
end SwapDesk
