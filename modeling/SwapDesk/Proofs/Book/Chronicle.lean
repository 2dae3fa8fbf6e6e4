import SwapDesk.Proofs.Book.Index
import SwapDesk.Proofs.Order.Tale

/-! The events of an order tell its story. From its tracking on they are one creation and then the walk
of its states, with the data of the order as it is now; so the events alone give the state of every
tracked order. Nothing is taken back from kept records here. -/
namespace SwapDesk

/-- The command takes back kept orders, which no event tells. -/
def Command.isRestore : Command → Bool
  | restore _ => true
  | _ => false

/-- The state of an order after an event. -/
def Event.heard (id : String) (state : Option OrderState) : Event → Option OrderState
  | created k _ s => if k = id then some s else state
  | moved k _ t => if k = id then some t else state
  | _ => state

/-- The state of an order as the events tell it. -/
def replay (id : String) (events : List Event) : Option OrderState :=
  events.foldl (Event.heard id) none

/-- The events about an order. -/
def eventsOf (id : String) (events : List Event) : List Event := events.filter (·.order = id)

variable {id : String} {events : List Event}

theorem eventsOf_append (id : String) (xs ys : List Event) :
    eventsOf id (xs ++ ys) = eventsOf id xs ++ eventsOf id ys := by
  simp [eventsOf]

theorem eventsOf_self (h : ∀ e ∈ events, e.order = id) : eventsOf id events = events :=
  List.filter_eq_self.mpr fun e he => decide_eq_true (h e he)

theorem eventsOf_other {other : String} (h : ∀ e ∈ events, e.order = id) (hne : other ≠ id) :
    eventsOf other events = [] := by
  refine List.filter_eq_nil_iff.mpr ?_
  intro e he
  simp [h e he, hne.symm]

/-- Only the events about the order count. -/
theorem foldl_heard (id : String) (state : Option OrderState) (events : List Event) :
    events.foldl (Event.heard id) state = (eventsOf id events).foldl (Event.heard id) state := by
  induction events generalizing state with
  | nil => rfl
  | cons e rest ih =>
    by_cases he : e.order = id
    · simp only [eventsOf, List.filter_cons, he, decide_true, if_true, List.foldl_cons]
      exact ih _
    · have hdeaf : Event.heard id state e = state := by
        cases e <;> simp_all [Event.heard, Event.order]
      simp only [eventsOf, List.filter_cons, he, decide_false, List.foldl_cons, hdeaf]
      exact ih state

/-- A tale is heard to end where the walk ends. -/
theorem foldl_heard_tale {o : Order} {s t : OrderState} {path : List OrderState}
    (h : s.Walk path t) : (o.tale s path).foldl (Event.heard o.id) (some s) = some t := by
  induction h with
  | stay s => rfl
  | @step s t u path _ _ _ ih =>
    have hdeaf : (o.settlement t).foldl (Event.heard o.id) (some t) = some t := by
      cases t with
      | filled => cases hk : o.kind <;> simp [Order.settlement, hk, Event.heard]
      | _ => rfl
    simp only [Order.tale, List.foldl_cons, List.foldl_append, Event.heard, if_true, hdeaf]
    exact ih

namespace Book

/-- What a command does to one order, and the events about it. -/
inductive Turn (id : String) : Command → Option Order → Option Order → List Event → Prop
  | idle (c : Command) (found : Option Order) : Turn id c found found []
  | enters {o : Order} (hid : o.id = id) : Turn id (.track o) none (some o) [o.creation]
  | steps (c : Command) {o p : Order} (hid : p.id = id) (hs : o.state.canStep p.state = true) :
      Turn id c (some o) (some p) (p.transition o.state)
  | leaves (c : Command) {o : Order} (ht : o.state.isTerminal = true) : Turn id c (some o) none []

variable {b b' : Book} {now : Instant} {c : Command} {key : String} {o p first : Order}
  {run past future : List (Instant × Command)}

/-- One order steps, and all others are left alone. -/
theorem turn_insert (ho : b.find? key = some o) (hb : b'.orders = b.orders.insert key p)
    (hid : p.id = key) (hs : o.state.canStep p.state = true) (id : String) :
    Turn id c (b.find? id) (b'.find? id) (eventsOf id (p.transition o.state)) := by
  have hown : ∀ e ∈ p.transition o.state, e.order = key := by
    intro e he
    exact (Order.order_of_mem_transition he).trans hid
  by_cases hk : id = key
  · subst hk
    have hnew : b'.find? id = some p := by rw [find?, hb, Dict.find?_insert_self]
    rw [eventsOf_self hown, ho, hnew]
    exact .steps c hid hs
  · have hsame : b'.find? id = b.find? id := by rw [find?, hb, Dict.find?_insert_ne _ hk, find?]
    rw [eventsOf_other hown hk, hsame]
    exact .idle c _

theorem turn_update (hs : IndexSound b) (now : Instant) (u : Update) (id : String) :
    Turn id c (b.find? id) ((b.update now u).book.find? id) (eventsOf id (b.update now u).events) := by
  rcases admitted_cases b u with ⟨o, ho, hstep⟩ | hr
  · have hid : o.id = u.order := hs.keyed ho
    rw [update_of_canStep ho hstep]
    exact turn_insert (p := o.amend now u) ho rfl hid hstep id
  · obtain ⟨outcome, hu, _⟩ := update_of_refused now hr
    rw [hu]
    exact .idle c _

/-- An order that is only counted for does not get on. -/
theorem turn_count (ho : b.find? key = some o) (ha : o.state.isTerminal = false)
    (hid : p.id = key) (hp : p.state = o.state) (id : String) :
    Turn id c (b.find? id) ((b.put key p).find? id) [] := by
  have hstep : o.state.canStep p.state = true := by
    rw [hp]
    exact OrderState.canStep_self ha
  have hnone : p.transition o.state = [] := by simp [Order.transition, hp]
  have h : Turn id c (b.find? id) ((b.put key p).find? id) _ := turn_insert ho rfl hid hstep id
  rw [hnone] at h
  exact h

theorem turn_doubt (hs : IndexSound b) (now : Instant) (key id : String) (d : Doubt) :
    Turn id c (b.find? id) ((b.doubt now key d).book.find? id)
      (eventsOf id (b.doubt now key d).events) := by
  have hd := doubts b now key d
  generalize b.doubt now key d = change at hd
  cases hd with
  | @lapses o ho ha =>
    have hid : (d.raise o).id = key := (d.id_raise o).trans (hs.keyed ho)
    exact turn_insert (p := (d.raise o).lapse now d.reason) ho rfl hid (OrderState.canStep_failed ha) id
  | @counts o ho ha =>
    exact turn_count ho ha ((d.id_raise o).trans (hs.keyed ho)) (d.state_raise o) id
  | @sticks o ho ha =>
    exact turn_count ho ha ((d.id_stick o).trans (hs.keyed ho)) (d.state_stick o) id
  | late hl => exact .idle c _

theorem turn_track (now : Instant) (o : Order) (id : String) :
    Turn id (.track o) (b.find? id) ((b.perform now (.track o)).book.find? id)
      (eventsOf id (b.perform now (.track o)).events) := by
  cases hf : b.find? o.id with
  | some p =>
    rw [perform_track_of_tracked hf]
    exact .idle _ _
  | none =>
    have hown : ∀ e ∈ [o.creation], e.order = o.id := by
      intro e he
      cases List.mem_singleton.mp he
      rfl
    rw [perform_track_of_new hf]
    by_cases hk : id = o.id
    · subst hk
      rw [eventsOf_self hown, hf, find?_file_self]
      exact .enters rfl
    · rw [eventsOf_other hown hk, find?_file_ne hk]
      exact .idle _ _

theorem turn_purge (now : Instant) (age : Int) (id : String) :
    Turn id c (b.find? id) ((b.perform now (.purge age)).book.find? id)
      (eventsOf id (b.perform now (.purge age)).events) := by
  rcases perform_purge_cases b now age with ⟨cause, hp⟩ | ⟨cutoff, hp⟩
  · rw [hp]
    exact .idle c _
  · rw [hp, find?_purgeBefore]
    cases hf : b.find? id with
    | none => exact .idle c none
    | some o =>
      cases hs : isStale cutoff o with
      | false =>
        rw [Option.filter_some_pos (by simp [hs])]
        exact .idle c _
      | true =>
        rw [Option.filter_some_neg (by simp [hs])]
        exact .leaves c (Bool.and_eq_true_iff.mp hs).1

theorem turn_perform (hs : IndexSound b) (hc : c.isRestore = false) (now : Instant) (id : String) :
    Turn id c (b.find? id) ((b.perform now c).book.find? id)
      (eventsOf id (b.perform now c).events) := by
  cases c with
  | track o => exact turn_track now o id
  | update u => exact turn_update hs now u id
  | markNotFound key => exact turn_doubt hs now key id .miss
  | markAmbiguous key => exact turn_doubt hs now key id .stall
  | restore kept => cases hc
  | purge age => exact turn_purge now age id

/-- Some command of the run takes an order into the book under the id. -/
def TracksIn (b : Book) (run : List (Instant × Command)) (id : String) : Prop :=
  ∃ pre now o post, run = pre ++ (now, .track o) :: post ∧ o.id = id ∧
    (b.performAll pre).1.find? id = none

theorem TracksIn.cons (h : TracksIn (b.perform now c).book run id) :
    TracksIn b ((now, c) :: run) id := by
  obtain ⟨pre, time, o, post, rfl, hid, hn⟩ := h
  exact ⟨(now, c) :: pre, time, o, post, rfl, hid, hn⟩

theorem not_tracksIn_cons (ho : b.find? id = some o)
    (h : ¬ TracksIn (b.perform now c).book run id) : ¬ TracksIn b ((now, c) :: run) id := by
  rintro ⟨pre, time, p, post, he, hid, hn⟩
  cases pre with
  | nil =>
    change b.find? id = none at hn
    rw [ho] at hn
    cases hn
  | cons e pre =>
    cases he
    exact h ⟨pre, time, p, post, rfl, hid, hn⟩

/-- An order that was tracked as the first one says is now the second one, and these are the events
about it since. -/
structure Tells (first o : Order) (events : List Event) : Prop where
  id : o.id = first.id
  story : ∃ path, first.state.Walk path o.state ∧
    events = first.creation :: o.tale first.state path

theorem tells_creation (o : Order) : Tells o o [o.creation] :=
  ⟨rfl, [], .stay o.state, rfl⟩

theorem Tells.steps (h : Tells first o events) (hid : p.id = first.id)
    (hs : o.state.canStep p.state = true) : Tells first p (events ++ p.transition o.state) := by
  obtain ⟨path, hw, rfl⟩ := h.story
  have ha : ∀ s ∈ path, s.isTerminal = false := hw.active (OrderState.isTerminal_of_canStep hs)
  have hsame : p.tale first.state path = o.tale first.state path :=
    Order.tale_eq_of_active (hid.trans h.id.symm) ha
  refine ⟨hid, ?_⟩
  rw [Order.transition_eq_tale, List.cons_append, ← hsame]
  split
  · rename_i he
    exact ⟨path, he ▸ hw, by rw [List.append_nil]⟩
  · rename_i hne
    exact ⟨path ++ [p.state], hw.snoc hne hs, by rw [Order.tale_snoc hw]⟩

/-- The order is as the events tell it, or it was dropped in a terminal state. -/
def TellsOf (b : Book) (first : Order) (events : List Event) : Prop :=
  ∃ o, Tells first o events ∧
    (b.find? first.id = some o ∨ b.find? first.id = none ∧ o.state.isTerminal = true)

/-- A command that does not track the order anew carries its story on. -/
theorem TellsOf.turn (h : TellsOf b first events) {more : List Event}
    (ht : Turn first.id c (b.find? first.id) (b'.find? first.id) more)
    (hn : ∀ o, c = .track o → o.id = first.id → b.find? first.id ≠ none) :
    TellsOf b' first (events ++ more) := by
  obtain ⟨o, htells, hf⟩ := h
  generalize hx : b.find? first.id = x at ht hf hn
  generalize hy : b'.find? first.id = y at ht
  cases ht with
  | idle c found =>
    rw [List.append_nil]
    exact ⟨o, htells, hy.symm ▸ hf⟩
  | enters hid => exact (hn _ rfl hid rfl).elim
  | @steps c o' p hid hs =>
    rcases hf with hf | ⟨hf, _⟩
    · cases hf
      exact ⟨p, htells.steps hid hs, Or.inl hy⟩
    · cases hf
  | @leaves c o' ht =>
    rcases hf with hf | ⟨hf, _⟩
    · cases hf
      rw [List.append_nil]
      exact ⟨o, htells, Or.inr ⟨hy, ht⟩⟩
    · cases hf

theorem TellsOf.performAll (h : TellsOf b first events) (hs : IndexSound b)
    (hrun : ∀ e ∈ run, e.2.isRestore = false) (hn : ¬ TracksIn b run first.id) :
    TellsOf (b.performAll run).1 first
      (events ++ eventsOf first.id (b.performAll run).2) := by
  induction run generalizing b events with
  | nil =>
    change TellsOf b first (events ++ [])
    rw [List.append_nil]
    exact h
  | cons e rest ih =>
    obtain ⟨now, c⟩ := e
    have hc : c.isRestore = false := hrun (now, c) List.mem_cons_self
    have hnext : TellsOf (b.perform now c).book first
        (events ++ eventsOf first.id (b.perform now c).events) := by
      apply h.turn (turn_perform hs hc now first.id)
      rintro o rfl hid hf
      exact hn ⟨[], now, o, rest, rfl, hid, hf⟩
    have hrest := ih hnext (indexSound_perform hs now c)
      (fun e he => hrun e (List.mem_cons_of_mem _ he)) (fun ht => hn ht.cons)
    rw [List.append_assoc, ← eventsOf_append] at hrest
    exact hrest

/-- The command after `past` takes `first` into the book, and no later one of the run takes an order
in under its id. -/
structure LastTracks (b : Book) (run past : List (Instant × Command)) (now : Instant)
    (first : Order) (future : List (Instant × Command)) : Prop where
  split : run = past ++ (now, .track first) :: future
  new : (b.performAll past).1.find? first.id = none
  last : ¬ TracksIn (b.performAll (past ++ [(now, .track first)])).1 future first.id

theorem LastTracks.cons (h : LastTracks (b.perform now c).book run past time first future) :
    LastTracks b ((now, c) :: run) ((now, c) :: past) time first future where
  split := congrArg _ h.split
  new := h.new
  last := h.last

/-- An order that is tracked after a run was so at its beginning and ever since, or there is a command
that tracked it last. -/
theorem tracked_cases (hs : IndexSound b) (hrun : ∀ e ∈ run, e.2.isRestore = false)
    (ho : (b.performAll run).1.find? id = some o) :
    (∃ p, b.find? id = some p) ∧ ¬ TracksIn b run id ∨
      ∃ past now first future, LastTracks b run past now first future ∧ first.id = id := by
  induction run generalizing b with
  | nil =>
    refine Or.inl ⟨⟨o, ho⟩, ?_⟩
    rintro ⟨pre, now, p, post, he, _⟩
    simp at he
  | cons e rest ih =>
    obtain ⟨now, c⟩ := e
    have hrest := ih (indexSound_perform hs now c)
      (fun e he => hrun e (List.mem_cons_of_mem _ he)) ho
    rcases hrest with ⟨⟨p, hp⟩, hn⟩ | ⟨past, time, first, future, hl, hid⟩
    · have hc : c.isRestore = false := hrun (now, c) List.mem_cons_self
      have hturn := turn_perform hs hc now id
      rw [hp] at hturn
      generalize hx : b.find? id = x at hturn
      generalize eventsOf id (b.perform now c).events = own at hturn
      cases hturn with
      | idle c found => exact Or.inl ⟨⟨p, rfl⟩, not_tracksIn_cons hx hn⟩
      | enters hid =>
        subst hid
        exact Or.inr ⟨[], now, p, rest, ⟨rfl, hx, hn⟩, rfl⟩
      | steps c hid hstep => exact Or.inl ⟨⟨_, rfl⟩, not_tracksIn_cons hx hn⟩
    · exact Or.inr ⟨_, time, first, future, hl.cons, hid⟩

theorem LastTracks.tellsOf (h : LastTracks b run past now first future) (hs : IndexSound b)
    (hrun : ∀ e ∈ run, e.2.isRestore = false) :
    TellsOf (b.performAll run).1 first
      (eventsOf first.id ((b.performAll past).1.performAll ((now, .track first) :: future)).2) := by
  have hpast := indexSound_performAll hs past
  have htrack : (b.performAll past).1.perform now (.track first) = _ := perform_track_of_new h.new
  have hfuture : ∀ e ∈ future, e.2.isRestore = false := by
    intro e he
    apply hrun
    rw [h.split]
    exact List.mem_append_right _ (List.mem_cons_of_mem _ he)
  have hlast := h.last
  rw [performAll_append] at hlast
  have hfirst : TellsOf ((b.performAll past).1.perform now (.track first)).book first
      [first.creation] := by
    refine ⟨first, tells_creation first, Or.inl ?_⟩
    rw [htrack, find?_file_self]
  have hrest := hfirst.performAll (indexSound_perform hpast now _) hfuture hlast
  have hown : eventsOf first.id
      ((b.performAll past).1.perform now (.track first)).events = [first.creation] := by
    rw [htrack]
    simp [eventsOf, Order.creation, Event.order]
  rw [h.split, performAll_append]
  rw [← hown, ← eventsOf_append] at hrest
  exact hrest

theorem replay_of_tells {before : List Event} (h : Tells first o (eventsOf first.id events)) :
    replay first.id (before ++ events) = some o.state := by
  obtain ⟨path, hw, he⟩ := h.story
  rw [replay, List.foldl_append, foldl_heard, he, List.foldl_cons, ← h.id]
  have hborn : ∀ s, Event.heard o.id s first.creation = some first.state := by
    intro s
    simp [Event.heard, Order.creation, h.id]
  rw [hborn]
  exact foldl_heard_tale hw

/-- Each order that is tracked after a run was tracked by a command of it, and from the last such
command on the events about it are exactly one creation, in the state that it was tracked in, and then
its walk to the state that it is in now: at most three steps of the lifecycle, each to another state,
and right after a step to a terminal state what is said of it, once and with the data that the order
has now. After it was dropped nothing more is said. So the states of all orders can be replayed from
the events. -/
theorem events_tell_orders (limits : Limits) (run : List (Instant × Command))
    (hrun : ∀ e ∈ run, e.2.isRestore = false) :
    let b := ((fresh limits).performAll run).1
    (∀ id o, b.find? id = some o →
      (∃ past now first future,
        LastTracks (fresh limits) run past now first future ∧ first.id = id) ∧
      replay id ((fresh limits).performAll run).2 = some o.state) ∧
    ∀ past now first future, LastTracks (fresh limits) run past now first future →
      ∃ o path,
        (b.find? first.id = some o ∨ b.find? first.id = none ∧ o.state.isTerminal = true) ∧
        first.state.Walk path o.state ∧ path.length ≤ 3 ∧
        eventsOf first.id
            (((fresh limits).performAll past).1.performAll ((now, .track first) :: future)).2 =
          first.creation :: o.tale first.state path := by
  intro b
  have hs := indexSound_fresh limits
  refine ⟨?_, ?_⟩
  · intro id o ho
    rcases tracked_cases hs hrun ho with ⟨⟨p, hp⟩, _⟩ | ⟨past, now, first, future, hl, rfl⟩
    · cases hp
    · refine ⟨⟨past, now, first, future, hl, rfl⟩, ?_⟩
      obtain ⟨p, htells, hp | ⟨hn, _⟩⟩ := hl.tellsOf hs hrun
      · rw [ho] at hp
        cases hp
        rw [hl.split, performAll_append]
        exact replay_of_tells htells
      · rw [ho] at hn
        cases hn
  · intro past now first future hl
    obtain ⟨o, htells, hf⟩ := hl.tellsOf hs hrun
    obtain ⟨path, hw, he⟩ := htells.story
    exact ⟨o, path, hf, hw, hw.length_le, he⟩

/-- A swap is accepted, stays in the air for a while and is executed. -/
theorem events_tell_executed_order :
    let executed : Update := { Update.toState "a" .filled with fee := some .one }
    let future : List (Instant × Command) := [
      (.epoch, .update { Update.toState "a" .opened with txHash := some "x" }),
      (.epoch, .markAmbiguous "a"), (.epoch, .update executed)]
    let run := (.epoch, .track (.sample "a")) :: future
    (∀ e ∈ run, e.2.isRestore = false) ∧
      LastTracks (fresh .default) run [] .epoch (.sample "a") future ∧
      replay "a" ((fresh .default).performAll run).2 = some .filled ∧
      ∃ o path, ((fresh .default).performAll run).1.find? "a" = some o ∧ o.fee = .one ∧
        OrderState.pendingCreate.Walk path .filled ∧
        eventsOf "a" ((fresh .default).performAll run).2 =
          (Order.sample "a").creation :: o.tale .pendingCreate path := by
  intro executed future run
  have hrun : ∀ e ∈ run, e.2.isRestore = false := by
    intro e he
    simp only [run, future, List.mem_cons, List.not_mem_nil, or_false] at he
    rcases he with rfl | rfl | rfl | rfl <;> rfl
  have hlast : LastTracks (fresh .default) run [] .epoch (.sample "a") future := by
    refine ⟨rfl, rfl, ?_⟩
    rintro ⟨pre, now, o, post, he, _⟩
    have hm : (now, Command.track o) ∈ future := by rw [he]; simp
    simp [future] at hm
  have hmap : (((fresh .default).performAll run).1.find? "a").map (fun o => (o.state, o.fee)) =
      some (.filled, .one) := by decide
  obtain ⟨o, ho, he⟩ := Option.map_eq_some_iff.mp hmap
  obtain ⟨hstate, hfee⟩ := Prod.mk.inj he
  have htell := events_tell_orders .default run hrun
  obtain ⟨p, path, hp | ⟨hn, _⟩, hw, _, hevents⟩ := htell.2 [] .epoch (.sample "a") future hlast
  · change ((fresh .default).performAll run).1.find? "a" = some p at hp
    rw [ho] at hp
    cases hp
    refine ⟨hrun, hlast, ?_, o, path, ho, hfee, hstate ▸ hw, hevents⟩
    rw [(htell.1 "a" o ho).2, hstate]
  · change ((fresh .default).performAll run).1.find? "a" = none at hn
    rw [ho] at hn
    cases hn

end Book
end SwapDesk
