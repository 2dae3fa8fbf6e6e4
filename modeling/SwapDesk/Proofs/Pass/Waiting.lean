import SwapDesk.Proofs.Pass.Overflow
import SwapDesk.Proofs.Pass.Policy
import SwapDesk.Proofs.Pass.Vigil

/-! What the wait for hashes gives to the pass. -/
namespace SwapDesk

/-- A pass looks for hashes when it begins, if any is missing, and when it was signalled that one came. -/
def Pass.looks (b : Book) : Pass → Bool
  | .fresh => !(inquiries b.active).2.isEmpty
  | .awaiting _ _ _ rung => rung
  | _ => false

/-- A pass goes on at this book. -/
def Diary.turn (diary : Diary) (b : Book) (p : Pass) : Diary :=
  if p.looks b then diary.look b else diary

/-- A pass that began on the book `first` and has not ended its wait for hashes, with its diary. At any point
others may carry out such commands as are allowed, or do something that leaves the book alone. -/
inductive Waits (allowed : Book → Command → Prop) (first : Book) : Diary → Desk → Pass → Prop
  | begin {d : Desk} (hb : d.book = first) : Waits allowed first (.begin first) d .fresh
  | turn {diary : Diary} {d : Desk} {p : Pass} (h : Waits allowed first diary d p)
      (ho : d.opens? p = none) :
      Waits allowed first (diary.turn d.book p) (d.pollPass p).1 (d.pollPass p).2
  | command {diary : Diary} {d : Desk} {p : Pass} (h : Waits allowed first diary d p) (hp : p ≠ .fresh)
      (c : Command) (ha : allowed d.book c) :
      Waits allowed first (diary.enter (d.perform c).1.book) (d.perform c).1
        (if (d.perform c).2.gotHash then p.ring else p)
  | meanwhile {diary : Diary} {d d' : Desk} {p : Pass} (h : Waits allowed first diary d p)
      (hb : d'.book = d.book) : Waits allowed first diary d' p

namespace Vigil

variable {allowed : Book → Command → Prop} {first b : Book} {orders : List Order} {diary : Diary}
  {v : Vigil} {d : Desk} {p : Pass} {ready : List Inquiry} {missing : List String} {rung : Bool}

/-- The wait after a look. -/
def looked (b : Book) (ready : List Inquiry) (missing : List String) : Vigil :=
  ⟨if (b.recheck missing).2.isEmpty then .ended else .waiting, false, ready ++ (b.recheck missing).1,
    (b.recheck missing).2⟩

theorem Run.look (h : Run allowed first orders diary b ⟨.deaf, rung, ready, missing⟩) :
    Run allowed first orders (diary.look b) b (looked b ready missing) :=
  (h.turn false).turn false

theorem run_looked (allowed : Book → Command → Prop) (first : Book) :
    Run allowed first first.active ((Diary.begin first).turn first .fresh) first
      (looked first (inquiries first.active).1 (inquiries first.active).2) := by
  have hrun : Run allowed first first.active (.begin first) first (begin first.active) := .begin
  cases hm : (inquiries first.active).2 with
  | nil =>
    have hbegin : begin first.active = looked first (inquiries first.active).1 [] := by
      simp [begin, looked, Book.recheck, hm]
    have hturn : (Diary.begin first).turn first .fresh = .begin first := by
      simp [Diary.turn, Pass.looks, hm]
    rw [hbegin] at hrun
    exact hturn.symm ▸ hrun
  | cons id rest =>
    have hbegin : begin first.active = ⟨.deaf, false, (inquiries first.active).1, id :: rest⟩ := by
      simp [begin, hm]
    have hturn : (Diary.begin first).turn first .fresh = (Diary.begin first).look first := by
      simp [Diary.turn, Pass.looks, hm]
    rw [hbegin] at hrun
    exact hturn.symm ▸ hrun.look

/-- A look after which the desk does not wait any more ends the wait. -/
theorem run_of_waited? {due : Nat} {ready' : List Inquiry} {missing' : List String}
    (h : Run allowed first orders diary d.book (looked d.book ready missing))
    (hw : d.waited? ready missing due = some (ready', missing')) :
    ∃ v, Run allowed first orders diary d.book v ∧ v.watch = .ended ∧ v.ready = ready' ∧
      v.missing = missing' := by
  simp only [Desk.waited?] at hw
  split at hw
  · obtain ⟨rfl, rfl⟩ := Prod.mk.inj (Option.some.inj hw)
    by_cases hnone : (d.book.recheck missing).2.isEmpty = true
    · exact ⟨_, h, by simp [looked, hnone], rfl, rfl⟩
    · have hlate := h.turn true
      have hdeaf : ¬(looked d.book ready missing).watch = .listening := by simp [looked, hnone]
      rw [if_neg hdeaf] at hlate
      exact ⟨_, hlate, by simp [looked, next, hnone], by simp [looked, next, hnone],
        by simp [looked, next, hnone]⟩
  · cases hw

theorem awaitHashes_of_waited? {due : Nat} (h : d.waited? ready missing due = none) :
    ∃ deadline, d.awaitHashes ready missing due =
        ((d.setAlarm due).1, .awaiting (ready ++ (d.book.recheck missing).1)
          (d.book.recheck missing).2 deadline false) ∧
      looked d.book ready missing =
        ⟨.waiting, false, ready ++ (d.book.recheck missing).1, (d.book.recheck missing).2⟩ := by
  simp only [Desk.waited?] at h
  split at h
  · cases h
  · rename_i hnot
    have hsome : ¬(d.book.recheck missing).2.isEmpty = true := by
      intro hnone
      simp [hnone] at hnot
    refine ⟨(d.setAlarm due).2, ?_, by simp [looked, hsome]⟩
    simp only [Desk.awaitHashes, if_neg hnot]

/-- The wait that a pass has behind it. -/
def Backed (allowed : Book → Command → Prop) (first : Book) (diary : Diary) (d : Desk) (p : Pass) :
    Prop :=
  (p = .fresh → d.book = first ∧ diary = .begin first) ∧ ∀ ready missing deadline rung,
    p = .awaiting ready missing deadline rung →
      Run allowed first first.active diary d.book ⟨.waiting, rung, ready, missing⟩

theorem backed_of_hasAsked (h : p.hasAsked = true) : Backed allowed first diary d p := by
  refine ⟨?_, ?_⟩
  · rintro rfl
    cases h
  · rintro ready missing deadline rung rfl
    cases h

theorem backed_awaitHashes {due : Nat}
    (h : Run allowed first first.active diary d.book (looked d.book ready missing))
    (hw : d.waited? ready missing due = none) :
    Backed allowed first diary (d.awaitHashes ready missing due).1
      (d.awaitHashes ready missing due).2 := by
  obtain ⟨deadline, ha, hlooked⟩ := awaitHashes_of_waited? hw
  rw [ha]
  rw [hlooked] at h
  refine ⟨nofun, ?_⟩
  rintro _ _ _ _ he
  cases he
  exact h

theorem Backed.turn (h : Backed allowed first diary d p) (ho : d.opens? p = none) :
    Backed allowed first (diary.turn d.book p) (d.pollPass p).1 (d.pollPass p).2 := by
  cases p with
  | fresh =>
    obtain ⟨rfl, rfl⟩ := h.1 rfl
    simp only [Desk.pollPass, Desk.beginPass]
    split
    · exact backed_of_hasAsked rfl
    · rename_i hsome
      simp only [Desk.opens?, if_neg hsome] at ho
      exact backed_awaitHashes (run_looked allowed d.book) ho
  | awaiting ready missing deadline rung =>
    have hrun := h.2 ready missing deadline rung rfl
    cases rung with
    | true => exact backed_awaitHashes (hrun.turn false).look ho
    | false =>
      by_cases hpast : d.isPast deadline = true
      · simp [Desk.opens?, hpast] at ho
      · simp only [Desk.pollPass, Bool.false_eq_true, if_false, hpast]
        exact h
  | querying queries report =>
    obtain ⟨work, hc⟩ := d.carries_collect report [] queries
    exact backed_of_hasAsked hc.takes.hasAsked
  | ended result => exact backed_of_hasAsked rfl

theorem Backed.command {c : Command} (h : Backed allowed first diary d p) (hp : p ≠ .fresh)
    (ha : allowed d.book c) :
    Backed allowed first (diary.enter (d.perform c).1.book) (d.perform c).1
      (if (d.perform c).2.gotHash then p.ring else p) := by
  have hbook : (d.perform c).1.book = (d.book.perform d.now c).book :=
    Desk.book_commit ..
  cases p with
  | fresh => exact (hp rfl).elim
  | awaiting ready missing deadline rung =>
    have hnext := (h.2 ready missing deadline rung rfl).command d.now ha nofun
    rw [← hbook] at hnext
    have hsignal : (d.perform c).2.gotHash = (d.book.perform d.now c).gotHash := rfl
    rw [← hsignal] at hnext
    refine ⟨fun he => ?_, ?_⟩
    · split at he <;> cases he
    · intro _ _ _ _ he
      cases hg : (d.perform c).2.gotHash with
      | false =>
        rw [hg] at he hnext
        cases he
        rw [hear, Bool.or_false] at hnext
        exact hnext
      | true =>
        rw [hg] at he hnext
        cases he
        rw [hear, Bool.or_true] at hnext
        exact hnext
  | querying queries report =>
    have hsame : (if (d.perform c).2.gotHash then Pass.ring (.querying queries report)
        else .querying queries report) = .querying queries report := ite_self _
    rw [hsame]
    exact backed_of_hasAsked rfl
  | ended result =>
    have hsame : (if (d.perform c).2.gotHash then Pass.ring (.ended result) else .ended result) =
        .ended result := ite_self _
    rw [hsame]
    exact backed_of_hasAsked rfl

theorem backed_of_waits (h : Waits allowed first diary d p) : Backed allowed first diary d p := by
  induction h with
  | begin hb => exact ⟨fun _ => ⟨hb, rfl⟩, nofun⟩
  | turn _ ho ih => exact ih.turn ho
  | command _ hp c ha ih => exact ih.command hp ha
  | meanwhile _ hb ih =>
    exact ⟨fun hp => ⟨hb.trans (ih.1 hp).1, (ih.1 hp).2⟩, hb.symm ▸ ih.2⟩

/-- A pass of a desk that ends its wait has waited so, through the books of its diary. -/
theorem exists_run_of_opens? (h : Waits allowed first diary d p)
    (ho : d.opens? p = some (ready, missing)) :
    ∃ v, Run allowed first first.active (diary.turn d.book p) d.book v ∧ v.watch = .ended ∧
      v.ready = ready ∧ v.missing = missing := by
  have hbacked := backed_of_waits h
  cases p with
  | fresh =>
    obtain ⟨rfl, rfl⟩ := hbacked.1 rfl
    simp only [Desk.opens?] at ho
    split at ho
    · cases ho
    · exact run_of_waited? (run_looked allowed d.book) ho
  | awaiting ready missing deadline rung =>
    have hrun := hbacked.2 ready missing deadline rung rfl
    cases rung with
    | true => exact run_of_waited? (hrun.turn false).look ho
    | false =>
      simp only [Desk.opens?, Bool.false_eq_true, if_false] at ho
      split at ho
      · cases ho
        exact ⟨_, hrun.turn true, rfl, rfl, rfl⟩
      · cases ho
  | _ => cases ho

/-! ### What comes of a wait -/

/-- How a wait that is over has parted its orders: those that can be asked about, and those that are
missing their hash. -/
structure Parts (orders : List Order) (diary : Diary) (b : Book) (ready : List Inquiry)
    (missing : List String) : Prop where
  once : (ready.map (·.order) ++ missing).Nodup
  ours : ∀ id ∈ ready.map (·.order) ++ missing, id ∈ orders.map (·.id)
  carried : ∀ q ∈ ready, ∃ b' ∈ diary.past, ∃ o, b'.find? q.order = some o ∧ o.txHash = some q.hash
  dropped : ∀ id ∈ orders.map (·.id), id ∉ ready.map (·.order) → id ∉ missing →
    ∃ b' ∈ diary.looks, b'.isActive id = false
  found : ∀ id ∈ orders.map (·.id), (∀ b' ∈ diary.past, b'.isActive id = true) → b.hasHash id = true →
    id ∈ ready.map (·.order) ∧ id ∉ missing

/-- An order that is active at the end and got a hash at any time is asked about, and not missing it. -/
def Heeds (orders : List Order) (diary : Diary) (b : Book) (ready : List Inquiry)
    (missing : List String) : Prop :=
  ∀ id ∈ orders.map (·.id), (∃ b' ∈ diary.past, b'.hasHash id = true) → b.isActive id = true →
    id ∈ ready.map (·.order) ∧ id ∉ missing

theorem Run.parts (h : Run allowed first orders diary b v)
    (hfirst : ∀ o ∈ orders, first.find? o.id = some o) (hn : (orders.map (·.id)).Nodup)
    (hended : v.watch = .ended) : Parts orders diary b v.ready v.missing := by
  have hminds := h.minds hfirst
  obtain ⟨l, hperm, hsub⟩ := hminds.once
  exact ⟨hperm.nodup_iff.mp (hn.sublist hsub), hminds.once.subset, hminds.carried, hminds.dropped,
    fun id hid => h.ready_of_hash hfirst hended hid⟩

theorem Run.heeds (h : Run Book.sparesHashes first orders diary b v)
    (hfirst : ∀ o ∈ orders, first.find? o.id = some o) (hended : v.watch = .ended) :
    Heeds orders diary b v.ready v.missing := by
  intro id hid hgot ha
  obtain ⟨o, ho, rfl⟩ := List.mem_map.mp hid
  have htracked : (first.find? o.id).isSome = true := by simp [hfirst o ho]
  obtain ⟨_, hactive, hhash⟩ := h.steadfast htracked
  obtain ⟨b', hb', hh⟩ := hgot
  exact h.ready_of_hash hfirst hended hid (hactive ha) (hhash b' hb' hh)

theorem find?_of_mem_active (hs : Book.IndexSound first) :
    ∀ o ∈ first.active, first.find? o.id = some o := by
  intro o ho
  obtain ⟨⟨k, hk⟩, _⟩ := Book.mem_active.mp ho
  rw [hs.keyed hk]
  exact hk

/-- Of a wait for hashes that is over, whatever commands came while it lasted: Each order is asked about or
missing its hash, and not both, or it was found terminal or untracked at a look. A question is about a hash
that the order has had. An order that has a hash at the end and was active all the time is asked about; and
if no order was dropped and none lost its hash, this is so for each that got a hash at any time and is active
at the end. A pass of a desk that ends its wait has waited in this way through the books of its diary, and
the same comes of it. -/
theorem hash_in_time_is_asked_about (first : Book) (orders : List Order)
    (hfirst : ∀ o ∈ orders, first.find? o.id = some o) (hn : (orders.map (·.id)).Nodup) :
    (∀ diary b v, Run anyCommand first orders diary b v → v.watch = .ended →
      Parts orders diary b v.ready v.missing) ∧
    (∀ diary b v, Run Book.sparesHashes first orders diary b v → v.watch = .ended →
      Heeds orders diary b v.ready v.missing) ∧
    (∀ diary d p ready missing, Waits anyCommand first diary d p →
      d.opens? p = some (ready, missing) →
      (∃ v, Run anyCommand first first.active (diary.turn d.book p) d.book v ∧ v.watch = .ended ∧
        v.ready = ready ∧ v.missing = missing) ∧
      (Book.Reachable first →
        Parts first.active (diary.turn d.book p) d.book ready missing)) ∧
    ∀ diary d p ready missing, Book.Reachable first → Waits Book.sparesHashes first diary d p →
      d.opens? p = some (ready, missing) →
      Heeds first.active (diary.turn d.book p) d.book ready missing := by
  refine ⟨fun _ _ _ hrun => hrun.parts hfirst hn, fun _ _ _ hrun => hrun.heeds hfirst, ?_, ?_⟩
  · intro diary d p ready missing hwaits hopens
    obtain ⟨v, hrun, hended, rfl, rfl⟩ := exists_run_of_opens? hwaits hopens
    refine ⟨⟨v, hrun, hended, rfl, rfl⟩, fun hb => ?_⟩
    have hs : first.IndexSound := hb.indexSound
    exact hrun.parts (find?_of_mem_active hs) (nodup_active hs) hended
  · intro diary d p ready missing hb hwaits hopens
    obtain ⟨v, hrun, hended, rfl, rfl⟩ := exists_run_of_opens? hwaits hopens
    exact hrun.heeds (find?_of_mem_active hb.indexSound) hended

/-- The hash of `a` is signalled while the pass waits, and that of `b` before it listens again. -/
theorem unheard_hash_is_asked_about :
    let first := ((Book.fresh .default).performAll [(.epoch, .track (.sample "a")),
      (.epoch, .track (.sample "b"))]).1
    ∃ diary b v, Run Book.sparesHashes first first.active diary b v ∧ v.watch = .ended ∧
      "b" ∈ v.ready.map (·.order) ∧ "b" ∉ v.missing := by
  intro first
  let got (id hash : String) : Command := .update { Update.toState id .opened with txHash := some hash }
  have hwaiting : Run Book.sparesHashes first first.active _ first _ :=
    (Run.begin.turn false).turn false
  have hrung := (hwaiting.command (c := got "a" "x") .epoch trivial (by decide)).turn false
  have hunheard := hrung.command (c := got "b" "y") .epoch trivial (by decide)
  have hended := (hunheard.turn false).turn false
  have hfirst : ∀ o ∈ first.active, first.find? o.id = some o := by
    intro o ho
    have hactive : first.active = [.sample "a", .sample "b"] := rfl
    rw [hactive] at ho
    rcases List.mem_cons.mp ho with rfl | ho
    · rfl
    · cases List.mem_singleton.mp ho
      rfl
  obtain ⟨_, hheeds, _⟩ := hash_in_time_is_asked_about first first.active hfirst (by decide)
  exact ⟨_, _, _, hended, by decide, hheeds _ _ _ hended (by decide) "b" (by decide)
    ⟨_, List.mem_cons_self, by decide⟩ (by decide)⟩

end Vigil
end SwapDesk
