import Mathlib.Data.Finset.SDiff
import Mathlib.Data.List.Sort
import SwapDesk.Proofs.Balance.Lobby
import SwapDesk.Proofs.Decimal.Value

/-! What a difference tells of the two maps, and what all that was ever reported tells of the
balances there are now. -/
namespace SwapDesk

/-- The same amounts, at whatever scales. -/
def Balance.Agrees (x y : Balance) : Prop :=
  x.total.value = y.total.value ∧ x.available.value = y.available.value

theorem Balance.same_iff {x y : Balance} : x.same y = true ↔ x.Agrees y := by
  rw [same, Bool.and_eq_true, Decimal.sameValue_iff_value, Decimal.sameValue_iff_value, Agrees]

/-- The tokens after the difference, if these were the tokens before. -/
def BalanceDiff.tokensAfter (d : BalanceDiff) (tokens : Finset String) : Finset String :=
  tokens \ d.removed.toFinset ∪ d.added.toFinset

namespace BalanceMap

variable {a b m next : BalanceMap} {t : String}

def tokens (m : BalanceMap) : Finset String := m.keys.toFinset

/-! ### One difference -/

theorem mem_added : t ∈ (a.diff b).added ↔ t ∈ b.keys ∧ t ∉ a.keys := by
  simp [diff, Dict.mem_keys_iff]

theorem mem_removed : t ∈ (a.diff b).removed ↔ t ∈ a.keys ∧ t ∉ b.keys := by
  simp [diff, Dict.mem_keys_iff]

theorem mem_changed :
    t ∈ (a.diff b).changed ↔ ∃ x y, a.find? t = some x ∧ b.find? t = some y ∧ ¬x.Agrees y := by
  simp only [diff, List.mem_map, List.mem_filter, Option.any_eq_true, Bool.not_eq_true',
    Prod.exists, ← Bool.not_eq_true, Balance.same_iff]
  constructor
  · rintro ⟨_, y, ⟨hy, x, hx, hne⟩, rfl⟩
    exact ⟨x, y, hx, b.mem_entries_iff.mp hy, hne⟩
  · rintro ⟨x, y, hx, hy, hne⟩
    exact ⟨t, y, ⟨b.mem_entries_iff.mpr hy, x, hx, hne⟩, rfl⟩

theorem mem_keys_iff_exists : t ∈ m.keys ↔ ∃ x, m.find? t = some x := by
  rw [Dict.mem_keys_iff, Dict.contains, Option.isSome_iff_exists]

theorem sorted_added (a b : BalanceMap) : (a.diff b).added.Pairwise (· < ·) :=
  b.sorted_keys.filter _

theorem sorted_removed (a b : BalanceMap) : (a.diff b).removed.Pairwise (· < ·) :=
  a.sorted_keys.filter _

theorem sorted_changed (a b : BalanceMap) : (a.diff b).changed.Pairwise (· < ·) :=
  List.pairwise_map.mpr (b.ascending.filter _)

theorem changed_swap (a b : BalanceMap) : (b.diff a).changed = (a.diff b).changed := by
  have hantisymm : Std.Antisymm (α := String) (· < ·) :=
    ⟨fun _ _ h h' => absurd h' (String.lt_asymm h)⟩
  refine (sorted_changed b a).eq_of_mem_iff (sorted_changed a b) fun t => ?_
  rw [mem_changed, mem_changed]
  constructor
  · rintro ⟨x, y, hx, hy, hne⟩
    exact ⟨y, x, hy, hx, fun h => hne ⟨h.1.symm, h.2.symm⟩⟩
  · rintro ⟨x, y, hx, hy, hne⟩
    exact ⟨y, x, hy, hx, fun h => hne ⟨h.1.symm, h.2.symm⟩⟩

theorem diff_swap (a b : BalanceMap) :
    b.diff a = ⟨(a.diff b).removed, (a.diff b).added, (a.diff b).changed⟩ := by
  rw [← changed_swap a b]
  rfl

/-- Nothing is different exactly if the tokens and their amounts are the same. -/
theorem diff_eq_nothing_iff :
    a.diff b = ⟨[], [], []⟩ ↔ ∀ t, Option.Rel Balance.Agrees (a.find? t) (b.find? t) := by
  have hlists : a.diff b = ⟨[], [], []⟩ ↔ ∀ t, t ∉ (a.diff b).added ∧ t ∉ (a.diff b).removed ∧
      t ∉ (a.diff b).changed := by
    rw [BalanceDiff.mk.injEq]
    simp only [List.eq_nil_iff_forall_not_mem, forall_and]
  rw [hlists]
  refine forall_congr' fun t => ?_
  rw [mem_added, mem_removed, mem_changed, mem_keys_iff_exists, mem_keys_iff_exists]
  cases ha : a.find? t with
  | none => cases hb : b.find? t <;> simp
  | some x => cases hb : b.find? t <;> simp

/-- To a map without tokens, every token is new. -/
theorem diff_empty (next : BalanceMap) : diff .empty next = ⟨next.keys, [], []⟩ := by
  have hnone : ∀ t, (Dict.empty : BalanceMap).contains t = false := fun _ => rfl
  have hkeys : (Dict.empty : BalanceMap).keys = [] := rfl
  simp [diff, hnone, hkeys]

theorem tokensAfter_diff (a b : BalanceMap) : (a.diff b).tokensAfter a.tokens = b.tokens := by
  ext t
  simp only [BalanceDiff.tokensAfter, tokens, Finset.mem_union, Finset.mem_sdiff, List.mem_toFinset,
    mem_added, mem_removed]
  tauto

/-! ### One step -/

/-- The map stays and nothing is reported, or another one is put in its place. -/
inductive Moves (m : BalanceMap) : Option BalanceDiff → BalanceMap → Prop
  | stays : Moves m none m
  | replaced (next : BalanceMap) : Moves m (some (m.diff next)) next

/-- The tokens after these differences, the first of them first. -/
def tokensAfterAll (tokens : Finset String) (diffs : List BalanceDiff) : Finset String :=
  diffs.foldl (fun tokens d => d.tokensAfter tokens) tokens

theorem tokensAfterAll_append (tokens : Finset String) (diffs more : List BalanceDiff) :
    tokensAfterAll tokens (diffs ++ more) = tokensAfterAll (tokensAfterAll tokens diffs) more :=
  List.foldl_append

theorem Moves.tokens {diff? : Option BalanceDiff} (h : m.Moves diff? next) :
    tokensAfterAll m.tokens diff?.toList = next.tokens := by
  cases h with
  | stays => rfl
  | replaced next => exact tokensAfter_diff m next

end BalanceMap

open BalanceMap

/-- The difference that a pass has reported. -/
def Visit.reported? (v : Visit) : Option BalanceDiff :=
  match v.stage with
  | .ended (some (.applied diff)) => some diff
  | _ => none

theorem Reconciler.accept_moves (r : Reconciler) (now : Nat) (reply : BalancesReply) :
    r.current.Moves (some (r.accept now reply).2) (r.accept now reply).1.current := by
  have hdiff : (r.accept now reply).2 = r.current.diff (.ofReply reply) := by
    unfold accept current
    cases r.balances with
    | some previous => rfl
    | none => exact (BalanceMap.diff_empty _).symm
  rw [hdiff]
  exact .replaced (.ofReply reply)

namespace Desk

variable {v : Visit}

/-- What a turn of a visit does to the balances, and what it reports of that. -/
def Turns (d : Desk) (after : Desk × Visit) : Prop :=
  d.reconciler.current.Moves after.2.reported? after.1.reconciler.current

theorem turns_fetch (d : Desk) (who : Party) (v : Visit) (a : Arrival BalancesReply) :
    d.Turns (d.fetch who v a) := by
  unfold fetch
  split
  · cases a.reply with
    | error f => exact .stays
    | ok reply => exact d.reconciler.accept_moves d.clock reply
  · exact .stays

theorem turns_withNative (d : Desk) (who : Party) (v : Visit) : d.Turns (d.withNative who v) := by
  unfold withNative
  cases v.purpose with
  | pass force => exact turns_fetch (d.ask (.balances d.reconciler.balancesRequest)).1 who v _
  | native | look => exact .stays

theorem turns_hear (d : Desk) (who : Party) (v : Visit) (a : Arrival NetworkReply) :
    d.Turns (d.hear who v a) := by
  unfold hear
  split
  · cases a.reply with
    | error f => exact .stays
    | ok reply =>
      exact turns_withNative { d with reconciler := d.reconciler.learn reply.nativeCurrency } who v
  · exact .stays

theorem turns_findNative (d : Desk) (who : Party) (v : Visit) : d.Turns (d.findNative who v) := by
  unfold findNative
  cases d.reconciler.native with
  | some native => exact turns_withNative d who v
  | none => exact turns_hear (d.ask (.network d.reconciler.networkRequest)).1 who v _

theorem turns_enter (d : Desk) (who : Party) (v : Visit) : d.Turns (d.enter who v) := by
  unfold enter
  cases v.purpose with
  | look => exact .stays
  | native => exact turns_findNative d who v
  | pass force =>
    dsimp only
    split
    · exact .stays
    · exact turns_findNative d who v

theorem turns_pollVisit (d : Desk) (who : Party) (ho : v.isOver = false) :
    d.Turns (d.pollVisit who v) := by
  obtain ⟨purpose, stage⟩ := v
  cases stage with
  | waiting =>
    simp only [pollVisit]
    split
    · exact turns_enter { d with lock := d.lock.request who } who _
    · exact .stays
  | asked a => exact turns_hear d who _ a
  | fetching a => exact turns_fetch d who _ a
  | ended result => cases ho

theorem reconciler_dropVisit (d : Desk) (who : Party) (v : Visit) :
    (d.dropVisit who v).reconciler = d.reconciler := by
  unfold dropVisit
  split <;> rfl

end Desk

namespace Lobby

variable {s : Settings} {pairs : List Pair} {now : Instant} {nonce : String} {marks : List Mark}
  {diffs : List BalanceDiff} {c e f : Lobby} {who p : Party}

def balances (c : Lobby) : BalanceMap := c.desk.reconciler.current

/-- The difference that a party's visit has come to report. -/
def news? (c e : Lobby) (who : Party) : Option BalanceDiff :=
  match c.visits who with
  | some v => if v.isOver then none else (e.visits who).bind Visit.reported?
  | none => none

def news (c e : Lobby) : List BalanceDiff := [Party.loop, .caller].filterMap (c.news? e)

/-- Steps one after the other, and the differences that passes have reported at them. -/
inductive Reports : Lobby → List BalanceDiff → Lobby → Prop
  | refl (c : Lobby) : Reports c [] c
  | snoc {c e f : Lobby} {diffs : List BalanceDiff} {marks : List Mark} (h : Reports c diffs e)
      (hstep : Step e marks f) : Reports c (diffs ++ e.news f) f

/-- A visit that goes on has nothing to report yet. -/
theorem news?_of_eq (h : e.visits p = c.visits p) : c.news? e p = none := by
  unfold news?
  rw [h]
  cases hv : c.visits p with
  | none => rfl
  | some v =>
    obtain ⟨purpose, stage⟩ := v
    cases stage <;> rfl

theorem news?_place_of_ne {d : Desk} {v : Option Visit} (h : p ≠ who) :
    c.news? (c.place who d v) p = none :=
  news?_of_eq (if_neg h)

/-- Only one party can have something to report. -/
theorem news_place {d : Desk} {v : Option Visit} :
    c.news (c.place who d v) = (c.news? (c.place who d v) who).toList := by
  have hother : ∀ p, p ≠ who → c.news? (c.place who d v) p = none := fun _ => news?_place_of_ne
  unfold news
  cases who with
  | loop =>
    rw [List.filterMap_cons, List.filterMap_cons, hother .caller (by decide)]
    cases c.news? (c.place .loop d v) .loop <;> rfl
  | caller =>
    rw [List.filterMap_cons, List.filterMap_cons, hother .loop (by decide)]
    cases c.news? (c.place .caller d v) .caller <;> rfl

theorem news_of_eq (h : e.visits = c.visits) : c.news e = [] := by
  simp [news, news?_of_eq (congrFun h _)]

theorem news_come {d : Desk} {v : Option Visit} (h : c.visits who = none) :
    c.news (c.place who d v) = [] := by
  rw [news_place, news?, h]
  rfl

theorem news_turn {d : Desk} {v v' : Visit} (h : c.visits who = some v) (ho : v.isOver = false) :
    c.news (c.place who d (some v')) = v'.reported?.toList := by
  rw [news_place, news?, h, visits_place_self]
  simp [ho]

theorem news_go {d : Desk} : c.news (c.place who d none) = [] := by
  rw [news_place, news?, visits_place_self]
  cases c.visits who <;> simp

/-- A step leaves the balances, or it reports what is different in those it puts in their place. -/
theorem step_moves (h : Step c marks e) :
    ∃ diff?, c.balances.Moves diff? e.balances ∧ c.news e = diff?.toList := by
  cases h with
  | come who purpose hnone => exact ⟨none, .stays, news_come hnone⟩
  | @turn who v hv ho => exact ⟨_, Desk.turns_pollVisit c.desk who ho, news_turn hv ho⟩
  | @go who v hv =>
    refine ⟨none, ?_, news_go⟩
    unfold balances
    rw [place, Desk.reconciler_dropVisit]
    exact .stays
  | aside ha =>
    refine ⟨none, ?_, news_of_eq rfl⟩
    unfold balances
    rw [ha.reconciler]
    exact .stays

/-- All that was reported tells the tokens from what they were. -/
theorem Reports.tokens (h : Reports c diffs e) :
    tokensAfterAll c.balances.tokens diffs = e.balances.tokens := by
  induction h with
  | refl => rfl
  | snoc _ hstep ih =>
    obtain ⟨diff?, hmoves, hnews⟩ := step_moves hstep
    rw [BalanceMap.tokensAfterAll_append, ih, hnews]
    exact hmoves.tokens

/-- A difference lists in order, and each of them once, the tokens that only the second map has,
those that only the first one has, and those with other amounts in the second; no token stands in
two lists. So nothing is different exactly if both maps have the same tokens with the same amounts,
at whatever scales, and the difference the other way round has the first two lists exchanged.
However two parties work with the reconciler of a new desk, its tokens are told by the differences
reported so far. -/
theorem differences_tell_tokens (a b : BalanceMap) :
    ((a.diff b).added.Pairwise (· < ·) ∧ (a.diff b).removed.Pairwise (· < ·) ∧
      (a.diff b).changed.Pairwise (· < ·)) ∧
    (∀ t, (t ∈ (a.diff b).added ↔ t ∈ b.keys ∧ t ∉ a.keys) ∧
      (t ∈ (a.diff b).removed ↔ t ∈ a.keys ∧ t ∉ b.keys) ∧
      (t ∈ (a.diff b).changed ↔
        ∃ x y, a.find? t = some x ∧ b.find? t = some y ∧ ¬x.Agrees y)) ∧
    ((a.diff b).added.Disjoint (a.diff b).removed ∧ (a.diff b).added.Disjoint (a.diff b).changed ∧
      (a.diff b).removed.Disjoint (a.diff b).changed) ∧
    (a.diff b = ⟨[], [], []⟩ ↔ ∀ t, Option.Rel Balance.Agrees (a.find? t) (b.find? t)) ∧
    b.diff a = ⟨(a.diff b).removed, (a.diff b).added, (a.diff b).changed⟩ ∧
    ∀ s pairs now nonce diffs c, Reports (opening s pairs now nonce) diffs c →
      tokensAfterAll ∅ diffs = c.balances.tokens := by
  have hpresent : ∀ t, t ∈ (a.diff b).changed → t ∈ a.keys ∧ t ∈ b.keys := by
    intro t ht
    obtain ⟨x, y, hx, hy, _⟩ := mem_changed.mp ht
    exact ⟨mem_keys_iff_exists.mpr ⟨x, hx⟩, mem_keys_iff_exists.mpr ⟨y, hy⟩⟩
  refine ⟨⟨sorted_added a b, sorted_removed a b, sorted_changed a b⟩,
    fun t => ⟨mem_added, mem_removed, mem_changed⟩,
    ⟨fun t h h' => ?_, fun t h h' => ?_, fun t h h' => ?_⟩, diff_eq_nothing_iff, diff_swap a b,
    fun s pairs now nonce diffs c h => h.tokens⟩
  · exact (mem_added.mp h).2 (mem_removed.mp h').1
  · exact (mem_added.mp h).2 (hpresent t h').1
  · exact (mem_removed.mp h).2 (hpresent t h').2

/-- A new desk whose gateway tells other balances the second time. -/
def changingDesk : Desk :=
  let before : Json := .record [("ADA", .text "1"), ("B", .text "2"), ("D", .text "3.0")]
  let after : Json := .record [("ADA", .text "5"), ("C", .text "2"), ("D", .text "3.00")]
  { Desk.opening { Settings.named "c" "n" "x" "w" with native := some "ADA" } [] .epoch "" with
    script := Script.empty.setCall .balances
      [⟨0, .ok (.record [("balances", before)])⟩, ⟨0, .ok (.record [("balances", after)])⟩] }

/-- A forced pass from beginning to end. -/
def pass (c : Lobby) : Lobby :=
  let come := c.place .loop c.desk (some (.start (.pass true)))
  let turn := c.desk.pollVisit .loop (.start (.pass true))
  (come.place .loop turn.1 (some turn.2)).place .loop (turn.1.dropVisit .loop turn.2) none

theorem Reports.pass (h : Reports e diffs c) (hnone : c.visits .loop = none) (diff : BalanceDiff)
    (hdiff : (c.desk.pollVisit .loop (.start (.pass true))).2.reported? = some diff) :
    Reports e (diffs ++ [diff]) c.pass := by
  have hcome := h.snoc (.come .loop (.pass true) hnone)
  rw [news_come hnone, List.append_nil] at hcome
  have hturn := hcome.snoc (.turn (visits_place_self ..) rfl)
  rw [news_turn (visits_place_self ..) rfl] at hturn
  have hgo := hturn.snoc (.go (visits_place_self ..))
  rw [news_go, List.append_nil] at hgo
  have hlist : [diff] = (c.desk.pollVisit .loop (.start (.pass true))).2.reported?.toList := by
    rw [hdiff]
    rfl
  rw [hlist]
  exact hgo

/-- Two passes report what came, went and changed. -/
theorem two_passes_tell_tokens :
    ∃ c, Reports (opening { Settings.named "c" "n" "x" "w" with native := some "ADA" } [] .epoch "")
        [⟨["ADA", "B", "D"], [], []⟩, ⟨["C"], ["B"], ["ADA"]⟩] c ∧
      c.balances.tokens = {"ADA", "C", "D"} := by
  have hset : Reports
      (opening { Settings.named "c" "n" "x" "w" with native := some "ADA" } [] .epoch "") []
      ⟨changingDesk, fun _ => none⟩ :=
    (Reports.refl _).snoc (.aside ⟨rfl, rfl, Nat.le_refl _, rfl⟩)
  have htwice := (hset.pass rfl ⟨["ADA", "B", "D"], [], []⟩ (by decide +kernel)).pass rfl
    ⟨["C"], ["B"], ["ADA"]⟩ (by decide +kernel)
  obtain ⟨_, _, _, _, _, htells⟩ := differences_tell_tokens .empty .empty
  refine ⟨_, htwice, (htells _ _ _ _ _ _ htwice).symm.trans ?_⟩
  decide +kernel

end Lobby
end SwapDesk
