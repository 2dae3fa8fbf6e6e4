import SwapDesk.Proofs.Desk.Business

/-! What is noted of the work with the reconciler, and what the reconciler is by these notes. Every turn
of a visit adds to them what was due. -/
namespace SwapDesk

/-- What is noted of the work with the reconciler. -/
inductive Mark
  /-- An unforced pass found the last success too recent. -/
  | skipped (who : Party) (time : Nat)
  | begun (who : Party) (purpose : Purpose) (time : Nat)
  | sent (r : Request)
  /-- The gateway has told the chain's own currency. -/
  | learned (native : String)
  /-- The work is over and has left the balances as they were. -/
  | ended (who : Party) (result : Option Reconciled)
  /-- The pass is over and has put the balances of the reply in place. -/
  | applied (who : Party) (time : Nat) (reply : BalancesReply)

namespace Mark

def sent? : Mark → Option Request
  | sent r => some r
  | _ => none

def learned? : Mark → Option String
  | learned native => some native
  | _ => none

def applied? : Mark → Option (Nat × BalancesReply)
  | applied _ time reply => some (time, reply)
  | _ => none

/-- The mark tells the result of the party's work. Only an unforced pass can be skipped. -/
def Tells (who : Party) (purpose : Purpose) (result : Option Reconciled) : Mark → Prop
  | skipped party _ => party = who ∧ purpose = .pass false ∧ result = some .skipped
  | ended party r => party = who ∧ result = r
  | applied party _ _ =>
    party = who ∧ (∃ force, purpose = .pass force) ∧ ∃ diff, result = some (.applied diff)
  | _ => False

/-- Work that has begun goes on. -/
def isMidway : Mark → Bool
  | sent _ | learned _ => true
  | _ => false

end Mark

/-! ### The notes tell the reconciler -/

/-- The last successful reply, and when it was put in place. -/
def lastReply? (marks : List Mark) : Option (Nat × BalancesReply) :=
  (marks.filterMap Mark.applied?).getLast?

/-- The chain's own currency: the one that was set beforehand, or else the first that was told. -/
def nativeAfter (s : Settings) (marks : List Mark) : Option String :=
  s.native <|> marks.findSome? Mark.learned?

def reconcilerAfter (s : Settings) (pairs : List Pair) (marks : List Mark) : Reconciler :=
  { Reconciler.ofSettings s pairs with
    native := nativeAfter s marks
    balances := (lastReply? marks).map fun last => .ofReply last.2
    lastSync := (lastReply? marks).map (·.1) }

variable {s : Settings} {pairs : List Pair} {marks : List Mark} {m : Mark} {native : String}
  {who : Party} {time : Nat} {reply : BalancesReply} {purpose : Purpose}

theorem lastReply?_append_quiet {more : List Mark} (h : ∀ m ∈ more, m.applied? = none) :
    lastReply? (marks ++ more) = lastReply? marks := by
  rw [lastReply?, List.filterMap_append, List.filterMap_eq_nil_iff.mpr h, List.append_nil, lastReply?]

theorem lastReply?_applied : lastReply? (marks ++ [.applied who time reply]) = some (time, reply) := by
  rw [lastReply?, List.filterMap_append]
  exact List.getLast?_concat

theorem lastReply?_quiet (h : m.applied? = none) : lastReply? (marks ++ [m]) = lastReply? marks :=
  lastReply?_append_quiet fun _ hm => List.mem_singleton.mp hm ▸ h

theorem nativeAfter_quiet (h : m.learned? = none) :
    nativeAfter s (marks ++ [m]) = nativeAfter s marks := by
  rw [nativeAfter, List.findSome?_append, List.findSome?_singleton, h, Option.or_none, nativeAfter]

/-- A currency that is known stays. -/
theorem nativeAfter_append {more : List Mark} (h : nativeAfter s marks = some native) :
    nativeAfter s (marks ++ more) = some native := by
  unfold nativeAfter at h ⊢
  rw [List.findSome?_append]
  cases hs : s.native with
  | some known => simpa [hs] using h
  | none =>
    have hm : marks.findSome? Mark.learned? = some native := by simpa [hs] using h
    simp [hm]

theorem nativeAfter_learned (h : nativeAfter s marks = none) :
    nativeAfter s (marks ++ [.learned native]) = some native := by
  have hparts : s.native = none ∧ marks.findSome? Mark.learned? = none := by
    simpa [nativeAfter] using h
  rw [nativeAfter, List.findSome?_append, hparts.1, hparts.2]
  rfl

theorem reconcilerAfter_quiet (ha : m.applied? = none) (hl : m.learned? = none) :
    reconcilerAfter s pairs (marks ++ [m]) = reconcilerAfter s pairs marks := by
  rw [reconcilerAfter, lastReply?_quiet ha, nativeAfter_quiet hl, reconcilerAfter]

theorem reconcilerAfter_learned (h : nativeAfter s marks = none) :
    reconcilerAfter s pairs (marks ++ [.learned native]) =
      (reconcilerAfter s pairs marks).learn native := by
  rw [reconcilerAfter, lastReply?_quiet rfl, nativeAfter_learned h, Reconciler.learn, reconcilerAfter]

theorem reconcilerAfter_applied :
    reconcilerAfter s pairs (marks ++ [.applied who time reply]) =
      ((reconcilerAfter s pairs marks).accept time reply).1 := by
  rw [reconcilerAfter, lastReply?_applied, nativeAfter_quiet rfl, Reconciler.accept, reconcilerAfter]
  rfl

/-! ### When each of them is due -/

/-- Less than the interval is over since the last success. -/
def Recent (s : Settings) (before : List Mark) (time : Nat) : Prop :=
  ∃ last ∈ lastReply? before, time < last.1 + s.balanceInterval

/-- This work was the last to begin, and it goes on. -/
def Working (before : List Mark) (who : Party) (purpose : Purpose) : Prop :=
  ∃ early time during, before = early ++ .begun who purpose time :: during ∧
    ∀ m ∈ during, m.isMidway = true

theorem Working.snoc (h : Working marks who purpose) (hm : m.isMidway = true) :
    Working (marks ++ [m]) who purpose := by
  obtain ⟨early, time, during, rfl, hduring⟩ := h
  refine ⟨early, time, during ++ [m], by simp, ?_⟩
  intro k hk
  rcases List.mem_append.mp hk with hk | hk
  · exact hduring k hk
  · exact List.mem_singleton.mp hk ▸ hm

theorem working_begun : Working (marks ++ [.begun who purpose time]) who purpose :=
  ⟨marks, time, [], rfl, by simp⟩

/-- The request asks for the tokens of the pairs and of the settings and for the chain's own currency,
in order and each of them once. -/
structure BalancesRequest.Covers (r : BalancesRequest) (s : Settings) (pairs : List Pair)
    (native : String) : Prop where
  chain : r.chain = s.chain
  network : r.network = s.network
  address : r.address = s.wallet
  sorted : r.tokens.Pairwise (· < ·)
  tokens : ∀ t, t ∈ r.tokens ↔
    (∃ p ∈ pairs, t = p.base ∨ t = p.quote) ∨ t ∈ s.tokens.map upper ∨ t = native

/-- The mark is due after these. -/
inductive Due (s : Settings) (pairs : List Pair) (before : List Mark) : Mark → Prop
  | skipped {who : Party} {time : Nat} (h : Recent s before time) : Due s pairs before (.skipped who time)
  | begun {who : Party} {purpose : Purpose} {time : Nat}
      (h : purpose = .pass false → ¬Recent s before time) :
      Due s pairs before (.begun who purpose time)
  | network {who : Party} {purpose : Purpose} (h : Working before who purpose)
      (hn : nativeAfter s before = none) : Due s pairs before (.sent (.network ⟨s.chain, s.network⟩))
  | balances {who : Party} {force : Bool} {r : BalancesRequest} {native : String}
      (h : Working before who (.pass force)) (hn : nativeAfter s before = some native)
      (hr : r.Covers s pairs native) : Due s pairs before (.sent (.balances r))
  | learned {who : Party} {purpose : Purpose} {native : String} (h : Working before who purpose)
      (hn : nativeAfter s before = none) : Due s pairs before (.learned native)
  | ended {who : Party} {purpose : Purpose} {result : Option Reconciled}
      (h : Working before who purpose) (hr : result ≠ some .skipped)
      (ha : ∀ diff, result ≠ some (.applied diff)) : Due s pairs before (.ended who result)
  | applied {who : Party} {force : Bool} {time : Nat} {reply : BalancesReply}
      (h : Working before who (.pass force)) : Due s pairs before (.applied who time reply)

def AllDue (s : Settings) (pairs : List Pair) (marks : List Mark) : Prop :=
  ∀ before m after, marks = before ++ m :: after → Due s pairs before m

theorem AllDue.snoc (h : AllDue s pairs marks) (hm : Due s pairs marks m) :
    AllDue s pairs (marks ++ [m]) := by
  intro before k after he
  rcases List.append_eq_append_iff.mp he with ⟨rest, rfl, hrest⟩ | ⟨rest, rfl, hrest⟩
  · cases rest with
    | nil =>
      rw [List.nil_append, List.cons.injEq] at hrest
      rw [List.append_nil, ← hrest.1]
      exact hm
    | cons x rest => simp at hrest
  · cases rest with
    | nil =>
      rw [List.nil_append, List.cons.injEq] at hrest
      rw [List.append_nil] at hm
      exact hrest.1 ▸ hm
    | cons x rest =>
      rw [List.cons_append, List.cons.injEq] at hrest
      exact hrest.1 ▸ h before x rest rfl

end SwapDesk
