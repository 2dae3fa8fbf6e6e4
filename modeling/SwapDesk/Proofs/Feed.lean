import SwapDesk.Feed
import Mathlib.Data.List.DropRight
import Mathlib.Order.Bounds.Basic

/-! What the subscribers of a feed get. Whoever else comes, goes and reads, a subscriber gets what is
published from when it came, in order, but for gaps that say how much was left out. -/
namespace SwapDesk

namespace Feed

variable {capacity k n : Nat} {e : Event} {es fs log : List Event} {ds cs : List Delivery}
  {f : Feed} {name who : String}

/-! ### The window -/

theorem powerOfTwo_isPower (n : Nat) : ∃ k, powerOfTwo n = pow2 k := by
  unfold powerOfTwo
  split
  · exact ⟨0, rfl⟩
  · exact ⟨_, rfl⟩

theorem le_powerOfTwo (n : Nat) : n ≤ powerOfTwo n := by
  unfold powerOfTwo
  split
  · assumption
  · have hlt : n - 1 < pow2 ((n - 1).log2 + 1) := Nat.lt_log2_self
    omega

theorem powerOfTwo_le (h : n ≤ pow2 k) : powerOfTwo n ≤ pow2 k := by
  unfold powerOfTwo
  split
  · exact pow2_pos k
  · have hlog : (n - 1).log2 < k := (Nat.log2_lt (by omega)).mpr (Nat.lt_of_lt_of_le (by omega) h)
    exact Nat.pow_le_pow_right (by decide) hlog

theorem powerOfTwo_isLeast (n : Nat) :
    IsLeast {m | n ≤ m ∧ ∃ k, m = pow2 k} (powerOfTwo n) := by
  refine ⟨⟨le_powerOfTwo n, powerOfTwo_isPower n⟩, ?_⟩
  rintro m ⟨hle, k, rfl⟩
  exact powerOfTwo_le hle

/-! ### Deliveries -/

/-- The deliveries are these events in order, except that each gap stands for as many of them as it
counts. -/
inductive Recount : List Delivery → List Event → Prop
  | nil : Recount [] []
  | event (e : Event) {ds : List Delivery} {es : List Event} (h : Recount ds es) :
      Recount (.event e :: ds) (e :: es)
  | missed {left : List Event} {ds : List Delivery} {es : List Event} (hne : left ≠ [])
      (h : Recount ds es) : Recount (.missed left.length :: ds) (left ++ es)

theorem Recount.append (h : Recount ds es) (h' : Recount cs fs) : Recount (ds ++ cs) (es ++ fs) := by
  induction h with
  | nil => exact h'
  | event e _ ih => exact .event e ih
  | missed hne _ ih =>
    rw [List.append_assoc]
    exact .missed hne ih

theorem recount_map_event (es : List Event) : Recount (es.map .event) es := by
  induction es with
  | nil => exact .nil
  | cons e es ih => exact .event e ih

/-- What a feed with a window of `n` delivers of the events that wait: the last `n` of them, after a
gap if there are more. -/
def parcel (n : Nat) (waiting : List Event) : List Delivery :=
  (if n < waiting.length then [.missed (waiting.length - n)] else []) ++
    (waiting.rtake n).map .event

theorem recount_parcel (n : Nat) (waiting : List Event) : Recount (parcel n waiting) waiting := by
  unfold parcel
  split
  · rename_i hlt
    have hgap : (waiting.take (waiting.length - n)).length = waiting.length - n :=
      List.length_take_of_le (Nat.sub_le ..)
    have hne : waiting.take (waiting.length - n) ≠ [] := by
      intro hnil
      rw [hnil, List.length_nil] at hgap
      omega
    have hall := Recount.missed hne (recount_map_event (waiting.rtake n))
    rwa [hgap, List.rtake, List.take_append_drop] at hall
  · rename_i hle
    have hall : waiting.rtake n = waiting := by
      rw [List.rtake, Nat.sub_eq_zero_of_le (Nat.le_of_not_lt hle), List.drop_zero]
    rw [hall]
    exact recount_map_event waiting

/-! ### Runs -/

/-- What is done at a feed. -/
inductive Action
  | subscribe (name : String)
  | unsubscribe (name : String)
  | publish (e : Event)
  | drain (name : String)

/-- Whether it is published, or done by this subscriber. -/
def Action.concerns (name : String) : Action → Bool
  | .subscribe who | .unsubscribe who | .drain who => who == name
  | .publish _ => true

/-- The feed after an action, and what is delivered at it. -/
def perform (f : Feed) : Action → Feed × List Delivery
  | .subscribe name => (f.subscribe name, [])
  | .unsubscribe name => ((f.unsubscribe name).1, [])
  | .publish e => (f.publish e, [])
  | .drain name =>
    match f.drain name with
    | some (ds, f) => (f, ds)
    | none => (f, [])

/-- The account of a subscription: what was published between its beginning and its last drain, what
was published after that, and what was delivered at all its drains. -/
structure Account where
  read : List Event
  waiting : List Event
  got : List Delivery

/-- A subscriber's account after an action at which `ds` was delivered. -/
def Account.after (name : String) (account : Option Account) (a : Action) (ds : List Delivery) :
    Option Account :=
  match a with
  | .subscribe who => if who = name then some ⟨[], [], []⟩ else account
  | .unsubscribe who => if who = name then none else account
  | .publish e => account.map fun c => { c with waiting := c.waiting ++ [e] }
  | .drain who =>
    if who = name then account.map fun c => ⟨c.read ++ c.waiting, [], c.got ++ ds⟩ else account

/-- A feed and the accounts of its subscribers. -/
structure Audience where
  feed : Feed
  account : String → Option Account

/-- What a subscriber with this account is to get at a drain. -/
def Account.due (n : Nat) (account : Option Account) : List Delivery :=
  (account.map fun c => parcel n c.waiting).getD []

/-- The actions of others leave an account as it is. -/
theorem Account.after_of_not_concerns {account : Option Account} {a : Action}
    (h : a.concerns name = false) : Account.after name account a ds = account := by
  cases a with
  | publish e => cases h
  | subscribe who | unsubscribe who | drain who =>
    have hne : who ≠ name := beq_eq_false_iff_ne.mp h
    exact if_neg hne

namespace Audience

def step (s : Audience) (a : Action) : Audience where
  feed := (s.feed.perform a).1
  account name := Account.after name (s.account name) a (s.feed.perform a).2

/-- A new feed after these actions. -/
def run (capacity : Nat) (actions : List Action) : Audience :=
  actions.foldl step ⟨ofCapacity capacity, fun _ => none⟩

variable {s : Audience} {a : Action} {c : Account} {actions : List Action}

/-- The number of the next event is that of the first one that waits, and what was delivered recounts
what was read. -/
structure Serves (log : List Event) (next : Nat) (c : Account) : Prop where
  next_eq : next = log.length - c.waiting.length
  waiting : c.waiting <:+ log
  got : Recount c.got c.read

theorem serves_new (log : List Event) : Serves log log.length ⟨[], [], []⟩ where
  next_eq := rfl
  waiting := List.nil_suffix
  got := .nil

theorem Serves.publish (h : Serves log k c) (e : Event) :
    Serves (log ++ [e]) k { c with waiting := c.waiting ++ [e] } where
  next_eq := by simp [h.next_eq]
  waiting := List.suffix_append_inj_of_length_eq rfl |>.mpr ⟨h.waiting, rfl⟩
  got := h.got

theorem Serves.drain (h : Serves log k c) (n : Nat) :
    Serves log log.length ⟨c.read ++ c.waiting, [], c.got ++ parcel n c.waiting⟩ where
  next_eq := rfl
  waiting := List.nil_suffix
  got := h.got.append (recount_parcel n c.waiting)

/-- The feed has a window of `n` and keeps the last `n` of all events that were published. -/
structure Sound (n : Nat) (log : List Event) (s : Audience) : Prop where
  window : s.feed.window = n
  sent : s.feed.sent = log.length
  recent : s.feed.recent = log.rtake n
  serves : ∀ name, Option.Rel (Serves log) (s.feed.subscribers.find? name) (s.account name)

theorem sound_start (capacity : Nat) :
    Sound (powerOfTwo (max capacity 1)) [] ⟨ofCapacity capacity, fun _ => none⟩ where
  window := rfl
  sent := rfl
  recent := (List.rtake_nil _).symm
  serves _ := .none

theorem rtake_rtake (l : List Event) (j k : Nat) : (l.rtake j).rtake k = l.rtake (min j k) := by
  simp only [List.rtake_eq_reverse_take_reverse, List.reverse_reverse, List.take_take, Nat.min_comm]

theorem rtake_concat_rtake (l : List Event) (e : Event) (n : Nat) :
    (l.rtake n ++ [e]).rtake n = (l ++ [e]).rtake n := by
  cases n with
  | zero => simp
  | succ n =>
    rw [List.rtake_concat_succ, List.rtake_concat_succ, rtake_rtake, Nat.min_eq_right (by omega)]

theorem Sound.drain_some (h : Sound n log s) (hs : Serves log k c)
    (hk : s.feed.subscribers.find? name = some k) :
    s.feed.drain name = some (parcel n c.waiting,
      { s.feed with subscribers := s.feed.subscribers.insert name log.length }) := by
  have hlen := hs.waiting.length_le
  have hlast : log.rtake c.waiting.length = c.waiting :=
    (List.suffix_iff_eq_drop.mp hs.waiting).symm
  have hwaiting : log.length - k = c.waiting.length := by
    rw [hs.next_eq]
    omega
  have hkept : s.feed.recent.rtake c.waiting.length = c.waiting.rtake n := by
    rw [h.recent, rtake_rtake, Nat.min_comm, ← rtake_rtake, hlast]
  simp only [Feed.drain, hk, h.sent, h.window, hwaiting, Option.bind_eq_bind, Option.bind_some]
  rw [← List.rtake, hkept]
  rfl

theorem drain_none (hk : s.feed.subscribers.find? name = none) : s.feed.drain name = none := by
  simp only [Feed.drain, hk, Option.bind_eq_bind, Option.bind_none]

theorem Sound.served (h : Sound n log s) (name : String) :
    (s.feed.subscribers.find? name = none ∧ s.account name = none) ∨
      ∃ k c, s.feed.subscribers.find? name = some k ∧ s.account name = some c ∧ Serves log k c := by
  have hrel := h.serves name
  generalize s.feed.subscribers.find? name = next at hrel ⊢
  generalize s.account name = account at hrel ⊢
  cases hrel with
  | none => exact .inl ⟨rfl, rfl⟩
  | some hs => exact .inr ⟨_, _, rfl, rfl, hs⟩

/-- Every subscriber gets what is due to it. -/
theorem Sound.drain_eq (h : Sound n log s) (name : String) :
    (s.feed.drain name).map Prod.fst = (s.account name).map fun c => parcel n c.waiting := by
  rcases h.served name with ⟨hk, hc⟩ | ⟨k, c, hk, hc, hs⟩
  · rw [drain_none hk, hc]
    rfl
  · rw [h.drain_some hs hk, hc]
    rfl

theorem Sound.recount (h : Sound n log s) (hc : s.account name = some c) :
    Recount c.got c.read := by
  rcases h.served name with ⟨_, hnone⟩ | ⟨k, c', _, hc', hs⟩
  · rw [hnone] at hc
    cases hc
  · rw [hc'] at hc
    cases hc
    exact hs.got

/-- A drain by one subscriber leaves the others as they are. -/
theorem Sound.account_step (h : Sound n log s) (a : Action) (name : String) :
    (s.step a).account name =
      Account.after name (s.account name) a (Account.due n (s.account name)) := by
  cases a with
  | subscribe who | unsubscribe who | publish e => rfl
  | drain who =>
    by_cases hwho : who = name
    · subst hwho
      rcases h.served who with ⟨_, hc⟩ | ⟨k, c, hk, hc, hs⟩
      · simp [step, Account.after, hc]
      · simp [step, perform, h.drain_some hs hk, Account.after, Account.due, hc]
    · simp [step, Account.after, hwho]

/-- What is published at an action. -/
def published : Action → List Event
  | .publish e => [e]
  | .subscribe _ | .unsubscribe _ | .drain _ => []

/-- At most one subscriber's place in the feed is changed, together with its account. -/
theorem Sound.alter (h : Sound n log s) (who : String) {t : Audience} {subscribers : Dict Nat}
    (hfeed : t.feed = { s.feed with subscribers := subscribers })
    (hwho : Option.Rel (Serves log) (subscribers.find? who) (t.account who))
    (hothers : ∀ name, name ≠ who → subscribers.find? name = s.feed.subscribers.find? name ∧
      t.account name = s.account name) : Sound n log t where
  window := hfeed ▸ h.window
  sent := hfeed ▸ h.sent
  recent := hfeed ▸ h.recent
  serves name := by
    rw [hfeed]
    by_cases hname : name = who
    · subst hname
      exact hwho
    · obtain ⟨hplace, haccount⟩ := hothers name hname
      rw [hplace, haccount]
      exact h.serves name

theorem Sound.subscribe (h : Sound n log s) (who : String) :
    Sound n log (s.step (.subscribe who)) := by
  refine h.alter who rfl ?_ fun name hne => ⟨Dict.find?_insert_ne _ hne _, if_neg (Ne.symm hne)⟩
  have haccount : (s.step (.subscribe who)).account who = some ⟨[], [], []⟩ := if_pos rfl
  rw [Dict.find?_insert_self, h.sent, haccount]
  exact .some (serves_new log)

theorem Sound.unsubscribe (h : Sound n log s) (who : String) :
    Sound n log (s.step (.unsubscribe who)) := by
  refine h.alter who rfl ?_ fun name hne =>
    ⟨(Dict.find?_erase ..).trans (if_neg hne), if_neg (Ne.symm hne)⟩
  have haccount : (s.step (.unsubscribe who)).account who = none := if_pos rfl
  rw [Dict.find?_erase, if_pos rfl, haccount]
  exact .none

theorem Sound.publish (h : Sound n log s) (e : Event) :
    Sound n (log ++ [e]) (s.step (.publish e)) where
  window := h.window
  sent := by simp [step, perform, Feed.publish, h.sent]
  recent := by
    change (s.feed.recent ++ [e]).rtake s.feed.window = _
    rw [h.recent, h.window, rtake_concat_rtake]
  serves name := by
    change Option.Rel _ (s.feed.subscribers.find? name) ((s.account name).map _)
    rcases h.served name with ⟨hk, hc⟩ | ⟨k, c, hk, hc, hs⟩
    · rw [hk, hc]
      exact .none
    · rw [hk, hc]
      exact .some (hs.publish e)

theorem Sound.drain (h : Sound n log s) (who : String) : Sound n log (s.step (.drain who)) := by
  have haccount : (s.step (.drain who)).account who = (s.account who).map fun c =>
      ⟨c.read ++ c.waiting, [], c.got ++ Account.due n (s.account who)⟩ := by
    rw [h.account_step]
    exact if_pos rfl
  have hothers : ∀ name, name ≠ who → (s.step (.drain who)).account name = s.account name :=
    fun name hne => if_neg (Ne.symm hne)
  rcases h.served who with ⟨hk, hc⟩ | ⟨k, c, hk, hc, hs⟩
  · have hfeed : (s.step (.drain who)).feed = s.feed := by simp [step, perform, drain_none hk]
    refine h.alter who hfeed ?_ fun name hne => ⟨rfl, hothers name hne⟩
    rw [hk, haccount, hc]
    exact .none
  · have hfeed : (s.step (.drain who)).feed =
        { s.feed with subscribers := s.feed.subscribers.insert who log.length } := by
      simp [step, perform, h.drain_some hs hk]
    refine h.alter who hfeed ?_ fun name hne => ⟨Dict.find?_insert_ne _ hne _, hothers name hne⟩
    rw [Dict.find?_insert_self, haccount, hc]
    exact .some (hs.drain n)

theorem Sound.step (h : Sound n log s) (a : Action) : Sound n (log ++ published a) (s.step a) := by
  cases a with
  | subscribe who =>
    rw [published, List.append_nil]
    exact h.subscribe who
  | unsubscribe who =>
    rw [published, List.append_nil]
    exact h.unsubscribe who
  | publish e => exact h.publish e
  | drain who =>
    rw [published, List.append_nil]
    exact h.drain who

/-- What a whole run leaves: the feed kept what it should, and each account is what its own actions
and the published events make of it. -/
theorem Sound.foldl (h : Sound n log s) (actions : List Action) :
    Sound n (log ++ actions.flatMap published) (actions.foldl Audience.step s) ∧
      ∀ name, (actions.foldl Audience.step s).account name =
        actions.foldl (fun account a => Account.after name account a (Account.due n account))
          (s.account name) := by
  induction actions generalizing s log with
  | nil =>
    rw [List.flatMap_nil, List.append_nil]
    exact ⟨h, fun _ => rfl⟩
  | cons a actions ih =>
    obtain ⟨hsound, haccount⟩ := ih (h.step a)
    rw [List.flatMap_cons, ← List.append_assoc]
    refine ⟨hsound, fun name => ?_⟩
    rw [List.foldl_cons, haccount, h.account_step]
    rfl

theorem sound_run (capacity : Nat) (actions : List Action) :
    Sound (powerOfTwo (max capacity 1)) (actions.flatMap published) (run capacity actions) :=
  ((sound_start capacity).foldl actions).1

/-- The actions of others leave no trace in an account. -/
theorem account_run_filter (capacity : Nat) (actions : List Action) (name : String) :
    (run capacity (actions.filter (·.concerns name))).account name =
      (run capacity actions).account name := by
  have hown : ∀ n : Nat, (fun account a => if a.concerns name = true
      then Account.after name account a (Account.due n account) else account) =
      fun account a => Account.after name account a (Account.due n account) := by
    intro n
    funext account a
    cases ha : a.concerns name with
    | true => rfl
    | false => exact (Account.after_of_not_concerns ha).symm
  have hrun := fun actions => ((sound_start capacity).foldl actions).2 name
  rw [run, run, hrun, hrun, List.foldl_filter, hown]

/-- However a new feed is used, each subscriber has been told of all events between its coming and
its last drain, in order, each of them delivered or counted in a gap. A drain delivers the last of
the events that wait, up to the least power of two that is not below the capacity or one, after a gap
that counts the others, if there are any; it delivers nothing only to somebody who is not there. And
neither depends on what other subscribers do. -/
theorem subscribers_told_of_events (capacity : Nat) (actions : List Action) (name : String) :
    IsLeast {n | max capacity 1 ≤ n ∧ ∃ k, n = pow2 k} (powerOfTwo (max capacity 1)) ∧
    (∀ c, (run capacity actions).account name = some c → Recount c.got c.read) ∧
    ((run capacity actions).feed.drain name).map Prod.fst =
      ((run capacity actions).account name).map
        (fun c => parcel (powerOfTwo (max capacity 1)) c.waiting) ∧
    (run capacity (actions.filter (·.concerns name))).account name =
      (run capacity actions).account name :=
  ⟨powerOfTwo_isLeast _, fun _ => (sound_run capacity actions).recount,
    (sound_run capacity actions).drain_eq name, account_run_filter capacity actions name⟩

/-- Somebody reads after six events, of which only four were kept, while another one comes and goes. -/
def lateReading : List Action :=
  let failure (k : Nat) : Action := .publish (.failed (toString k) none)
  [.subscribe "a", failure 1, failure 2, .subscribe "b", failure 3, .drain "b", failure 4, failure 5,
    .unsubscribe "b", failure 6, .drain "a", failure 7]

/-- It is told of the two that it missed. -/
theorem late_reader_told_of_gap :
    (run 3 lateReading).account "a" = some
        ⟨["1", "2", "3", "4", "5", "6"].map fun id => .failed id none, [.failed "7" none],
          .missed 2 :: ["3", "4", "5", "6"].map fun id => .event (.failed id none)⟩ ∧
      Recount (.missed 2 :: ["3", "4", "5", "6"].map fun id => .event (.failed id none))
        (["1", "2", "3", "4", "5", "6"].map fun id => .failed id none) := by
  have haccount : (run 3 lateReading).account "a" = some
      ⟨["1", "2", "3", "4", "5", "6"].map fun id => .failed id none, [.failed "7" none],
        .missed 2 :: ["3", "4", "5", "6"].map fun id => .event (.failed id none)⟩ := by
    rfl
  exact ⟨haccount, (subscribers_told_of_events 3 lateReading "a").2.1 _ haccount⟩

end Audience
end Feed
end SwapDesk
