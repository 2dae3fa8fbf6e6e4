import SwapDesk.Proofs.Desk.Passing

/-! What the loop, the ticker and the caller's errands do to a desk. They poll the book, and they leave
alone all that submissions depend on. -/
namespace SwapDesk.Desk

/-- The second desk comes from the first one by polling. -/
structure Polls (d d' : Desk) : Prop where
  book : Book.Polled d.book d'.book
  business : d'.business = d.business

variable {d d' d'' : Desk} {r : Request} {work : List (Instant × Piece)}

theorem Polls.refl (d : Desk) : Polls d d := ⟨.refl d.book, rfl⟩

theorem Polls.trans (h : Polls d d') (h' : Polls d' d'') : Polls d d'' :=
  ⟨h.book.trans h'.book, h'.business.trans h.business⟩

/-- A step that changes neither the book nor the business. -/
theorem Polls.of_eq (hb : d'.book = d.book) (hs : d'.business = d.business) : Polls d d' :=
  ⟨hb ▸ .refl d.book, hs⟩

theorem polls_setAlarm (d : Desk) (due : Nat) : Polls d (d.setAlarm due).1 := .of_eq rfl rfl

theorem polls_wake (d : Desk) : Polls d d.wake := .of_eq d.book_wake d.business_wake

theorem polls_setLoop (d : Desk) (l : Loop) : Polls d (d.setLoop l) := .of_eq rfl rfl

/-- Work with the reconciler leads from one desk to the other: it has sent these requests at once, and
nothing else of the desk has changed. -/
def Consults (d d' : Desk) : Prop :=
  ∃ (requests : List Request) (reconciler : Reconciler) (lock : Lock) (turns : Nat),
    (∀ r ∈ requests, r.isSubmission = false) ∧
      d' = { d with
        reconciler, lock, turns
        script := requests.foldl (fun s r => (s.take r).2) d.script
        asked := d.asked ++ requests.map fun r => ⟨d.clock, r⟩ }

theorem Consults.of_eq (reconciler : Reconciler) (lock : Lock) :
    Consults d { d with reconciler, lock } :=
  ⟨[], reconciler, lock, d.turns, by simp, by simp⟩

theorem Consults.refl (d : Desk) : Consults d d := .of_eq d.reconciler d.lock

theorem Consults.trans (h : Consults d d') (h' : Consults d' d'') : Consults d d'' := by
  obtain ⟨requests, _, _, _, hr, rfl⟩ := h
  obtain ⟨more, reconciler, lock, turns, hm, rfl⟩ := h'
  refine ⟨requests ++ more, reconciler, lock, turns, ?_, by simp⟩
  intro r hmem
  rcases List.mem_append.mp hmem with hmem | hmem
  · exact hr r hmem
  · exact hm r hmem

theorem Consults.book (h : Consults d d') : d'.book = d.book := by
  obtain ⟨_, _, _, _, _, rfl⟩ := h
  rfl

theorem Consults.business (h : Consults d d') : d'.business = d.business := by
  obtain ⟨requests, _, _, _, hr, rfl⟩ := h
  have hnone : requests.filter Request.isSubmission = [] :=
    List.filter_eq_nil_iff.mpr fun r hm => by simp [hr r hm]
  simp [Desk.business, submitted, Function.comp_def, hnone]

theorem Consults.polls (h : Consults d d') : Polls d d' := .of_eq h.book h.business

theorem consults_ask (d : Desk) (h : r.isSubmission = false) : Consults d (d.ask r).1 :=
  ⟨[r], d.reconciler, d.lock, d.turns + 1, by simpa using h, rfl⟩

theorem consults_leave (d : Desk) (who : Party) (v : Visit) (result : Option Reconciled) :
    Consults d (d.leave who v result).1 :=
  .of_eq d.reconciler (d.lock.leave who)

theorem consults_fetch (d : Desk) (who : Party) (v : Visit) (a : Arrival BalancesReply) :
    Consults d (d.fetch who v a).1 := by
  unfold fetch
  split
  · split
    · exact consults_leave d who v _
    · exact .of_eq _ _
  · exact .refl d

theorem consults_withNative (d : Desk) (who : Party) (v : Visit) :
    Consults d (d.withNative who v).1 := by
  unfold withNative
  split
  · have hask := consults_ask d (r := .balances d.reconciler.balancesRequest) rfl
    exact hask.trans (consults_fetch (d.ask (.balances d.reconciler.balancesRequest)).1 who v _)
  · exact consults_leave d who v none

theorem consults_hear (d : Desk) (who : Party) (v : Visit) (a : Arrival NetworkReply) :
    Consults d (d.hear who v a).1 := by
  unfold hear
  split
  · split
    · exact consults_leave d who v _
    · rename_i reply _
      have hlearn : Consults d { d with reconciler := d.reconciler.learn reply.nativeCurrency } :=
        .of_eq _ d.lock
      exact hlearn.trans (consults_withNative _ who v)
  · exact .refl d

theorem consults_findNative (d : Desk) (who : Party) (v : Visit) :
    Consults d (d.findNative who v).1 := by
  unfold findNative
  split
  · exact consults_withNative d who v
  · have hask := consults_ask d (r := .network d.reconciler.networkRequest) rfl
    exact hask.trans (consults_hear (d.ask (.network d.reconciler.networkRequest)).1 who v _)

theorem consults_enter (d : Desk) (who : Party) (v : Visit) : Consults d (d.enter who v).1 := by
  unfold enter
  split
  · exact consults_leave d who v none
  · exact consults_findNative d who v
  · split
    · exact consults_leave d who v _
    · exact consults_findNative d who v

theorem consults_pollVisit (d : Desk) (who : Party) (v : Visit) :
    Consults d (d.pollVisit who v).1 := by
  unfold pollVisit
  split
  · have hrequest : Consults d { d with lock := d.lock.request who } := .of_eq d.reconciler _
    dsimp only
    split
    · exact hrequest.trans (consults_enter _ who v)
    · exact hrequest
  · exact consults_hear d who v _
  · exact consults_fetch d who v _
  · exact .refl d

theorem consults_dropVisit (d : Desk) (who : Party) (v : Visit) : Consults d (d.dropVisit who v) := by
  unfold dropVisit
  split
  · exact .refl d
  · exact .of_eq d.reconciler _

theorem polls_pollVisit (d : Desk) (who : Party) (v : Visit) : Polls d (d.pollVisit who v).1 :=
  (consults_pollVisit d who v).polls

theorem polls_dropVisit (d : Desk) (who : Party) (v : Visit) : Polls d (d.dropVisit who v) :=
  (consults_dropVisit d who v).polls

theorem Does.polls {stop : Option Overflow} (h : Does work stop d d') : Polls d d' := by
  obtain ⟨events, hw, _⟩ := h.worked
  exact ⟨hw.polled, h.business⟩

theorem polls_pollPass (d : Desk) (p : Pass) : Polls d (d.pollPass p).1 := by
  obtain ⟨work, stop, hd⟩ := does_pollPass d p
  exact hd.polls

theorem polls_pollStartup (d : Desk) (v : Visit) : Polls d (d.pollStartup v) := by
  unfold pollStartup
  split
  · exact (polls_dropVisit d .loop v).trans (polls_setLoop _ _)
  · have hvisit := polls_pollVisit d .loop v
    dsimp only
    split
    · exact hvisit.trans (polls_setLoop _ _)
    · split
      · exact hvisit.trans (polls_setLoop _ _)
      · exact hvisit.trans (polls_setLoop _ _)

theorem polls_listen (d : Desk) (t : Tick) : Polls d (d.listen t) := by
  unfold listen
  split
  · exact polls_setLoop d _
  · exact (polls_setAlarm d t.due).trans (polls_setLoop _ _)

theorem polls_pollIdle (d : Desk) (t : Tick) (ear : Ear) : Polls d (d.pollIdle t ear) := by
  unfold pollIdle
  split
  · unfold endIdle
    dsimp only
    split
    · exact .of_eq rfl rfl
    · exact polls_setLoop d _
  · split
    · exact polls_setLoop d _
    · split
      · exact .of_eq rfl rfl
      · split
        · exact polls_setLoop d _
        · exact polls_listen d t

theorem polls_pollCycle (d : Desk) (t : Tick) (v : Visit) (p : Pass) :
    Polls d (d.pollCycle t v p) := by
  unfold pollCycle
  split
  · exact (polls_dropVisit d .loop v).trans (polls_setLoop _ _)
  · have hvisit := polls_pollVisit d .loop v
    have hboth := hvisit.trans (polls_pollPass (d.pollVisit .loop v).1 p)
    dsimp only
    split
    · exact (hboth.trans (polls_dropVisit _ .loop _)).trans (polls_setLoop _ _)
    · split
      · exact hboth.trans (polls_setLoop _ _)
      · exact hboth.trans (polls_setLoop _ _)
    · exact hboth.trans (polls_setLoop _ _)

theorem polls_pollLoop (d : Desk) : Polls d d.pollLoop := by
  unfold pollLoop
  split
  · exact polls_pollStartup d _
  · exact polls_pollIdle d _ _
  · exact polls_pollCycle d _ _ _
  · exact .refl d

theorem polls_tick (d : Desk) (due : Nat) : Polls d (d.tick due) := by
  have hwake : Polls d (if d.book.hasActive then d.wake else d) := by
    split
    · exact polls_wake d
    · exact .refl d
  exact hwake.trans (.of_eq rfl rfl)

theorem polls_pollTicker (d : Desk) : Polls d d.pollTicker := by
  unfold pollTicker
  split
  · split
    · exact .of_eq rfl rfl
    · exact polls_tick d d.clock
  · split
    · exact .of_eq rfl rfl
    · split
      · exact polls_tick d _
      · exact .refl d
  · exact .refl d

end SwapDesk.Desk
