import SwapDesk.Desk.Caller
import SwapDesk.Proofs.Book.Lookups
import SwapDesk.Proofs.Desk.Business

/-! Taking back kept orders merges them into the book. An order of the book that is terminal goes before a
kept one, and a kept one before any other. So what was kept of one book comes back in an empty one, and a
second time changes nothing. -/
namespace SwapDesk

namespace Book

variable {b e : Book} {kept : Orders} {id hash : String} {o p : Order} {l : List (String × Order)}

/-- What the book merged with kept orders has under an id. A kept order gets the id that it was kept
under. -/
def merged (b : Book) (kept : Orders) (id : String) : Option Order :=
  if (b.find? id).any (·.state.isTerminal) then b.find? id
  else ((kept.find? id).map fun p => { p with id }) <|> b.find? id

theorem merged_of_admits (h : b.Admits id) :
    b.merged kept id = (((kept.find? id).map fun p => { p with id }) <|> b.find? id) := by
  have hopen : ¬(b.find? id).any (·.state.isTerminal) = true := by
    intro hterminal
    obtain ⟨o, ho, ht⟩ := (Option.any_eq_true _ _).mp hterminal
    simp [h o ho] at ht
  exact if_neg hopen

theorem merged_of_terminal (h : b.find? id = some o) (ht : o.state.isTerminal = true) :
    b.merged kept id = some o := by
  simp [merged, h, ht]

theorem find?_restore (b : Book) (kept : Orders) (id : String) :
    (b.restore kept).1.find? id = b.merged kept id := by
  obtain ⟨o, ho, ht⟩ | hopen := terminal_cases b id
  · have hleft : b.Admits id → kept.find? id = none := by
      intro ha
      simp [ha o ho] at ht
    simp [find?_restore_of_left hleft, merged_of_terminal ho ht, ho]
  · cases hk : kept.find? id with
    | none => simp [find?_restore_of_left fun _ => hk, merged_of_admits hopen, hk]
    | some p => simp [find?_restore_of_taken hk hopen, merged_of_admits hopen, hk]

/-- The number that is told is that of the ids whose kept order was taken back. -/
theorem exists_taken (b : Book) (hn : (l.map (·.1)).Nodup) :
    ∃ taken : List String, taken.Nodup ∧ taken.length = (b.restoreFrom l).2 ∧
      ∀ id, id ∈ taken ↔ id ∈ l.map (·.1) ∧ b.Admits id := by
  induction l generalizing b with
  | nil => exact ⟨[], .nil, rfl, by simp⟩
  | cons e rest ih =>
    obtain ⟨k, p⟩ := e
    obtain ⟨hfirst, hrest⟩ := List.nodup_cons.mp hn
    obtain ⟨taken, hnodup, hlength, hmem⟩ := ih (b.restoreOne k p).1 hrest
    -- Those that come later find their places in the book as they were.
    have hlater : ∀ id, id ∈ taken ↔ id ∈ rest.map (·.1) ∧ b.Admits id := by
      intro id
      simp only [hmem, and_congr_right_iff]
      intro hid
      have hne : id ≠ k := fun he => hfirst (he ▸ hid)
      exact admits_congr (find?_restoreOne_ne hne)
    have hcount : (b.restoreFrom ((k, p) :: rest)).2 = (b.restoreOne k p).2 + taken.length := by
      simp [restoreFrom, hlength]
    obtain ⟨o, ho, ht⟩ | hopen := terminal_cases b k
    · have hrefused : ¬b.Admits k := fun ha => by simp [ha o ho] at ht
      refine ⟨taken, hnodup, ?_, ?_⟩
      · simp [hcount, restoreOne_of_terminal ho ht]
      · intro id
        by_cases hk : id = k
        · subst hk
          simp [hlater, hrefused]
        · simp [hlater, hk]
    · have hout : k ∉ taken := fun hk => hfirst ((hlater k).mp hk).1
      have hadmits : b.Admits k := hopen
      refine ⟨k :: taken, List.nodup_cons.mpr ⟨hout, hnodup⟩, ?_, ?_⟩
      · simp [hcount, restoreOne_of_open hopen, Nat.add_comm]
      · intro id
        by_cases hk : id = k
        · subst hk
          simp [hadmits]
        · simp [hlater, hk]

/-- What was taken back finds itself in its place when it comes again. -/
theorem merged_restore (b : Book) (kept : Orders) (id : String) :
    (b.restore kept).1.merged kept id = b.merged kept id := by
  have hafter : (b.restore kept).1.find? id = b.merged kept id := find?_restore b kept id
  obtain ⟨o, ho, ht⟩ | hopen := terminal_cases (b.restore kept).1 id
  · rw [merged_of_terminal ho ht, ← hafter, ho]
  · rw [merged_of_admits hopen, hafter]
    obtain ⟨q, hq, ht⟩ | hadmits := terminal_cases b id
    · have hkeeps : (b.restore kept).1.find? id = some q := hafter.trans (merged_of_terminal hq ht)
      simp [hopen q hkeeps] at ht
    · rw [merged_of_admits hadmits]
      cases kept.find? id <;> rfl

theorem orders_restore_restore (b : Book) (kept : Orders) :
    ((b.restore kept).1.restore kept).1.orders = (b.restore kept).1.orders := by
  apply Dict.ext_find?
  intro id
  have hsecond := find?_restore (b.restore kept).1 kept id
  exact hsecond.trans ((merged_restore b kept id).trans (find?_restore b kept id).symm)

/-- Into an empty book the orders of another one come back as they were kept. -/
theorem orders_restore_of_empty (hs : IndexSound b) (he : e.orders = .empty) :
    (e.restore b.orders).1.orders = b.orders := by
  apply Dict.ext_find?
  intro id
  have hnone : e.find? id = none := by simp [find?, he]
  have hadmits : e.Admits id := by simp [Admits, hnone]
  refine (find?_restore e b.orders id).trans ?_
  rw [merged_of_admits hadmits, hnone]
  change (((b.find? id).map fun p => { p with id }) <|> none) = b.find? id
  cases hf : b.find? id with
  | none => rfl
  | some p =>
    have hid : p.id = id := hs.keyed hf
    subst hid
    rfl

/-- And each of them is found by its hash, if no two have the same. -/
theorem findByHash?_restore_of_empty (hs : IndexSound b) (hse : IndexSound e)
    (he : e.orders = .empty) (hd : HashesDistinct b) (ho : b.find? id = some o)
    (hh : o.txHash = some hash) : (e.restore b.orders).1.findByHash? hash = some o := by
  have hsame : ∀ id, (e.restore b.orders).1.find? id = b.find? id := by
    intro id
    exact congrArg (·.find? id) (orders_restore_of_empty hs he)
  have hnone : ∀ id, e.find? id = none := by simp [find?, he]
  have hcomplete : IndexComplete e := by
    intro id o hash hf
    simp [hnone] at hf
  have hdistinct : HashesDistinct (e.restore b.orders).1 := by
    intro id other o p hash ho hp
    exact hd id other o p hash (hsame id ▸ ho) (hsame other ▸ hp)
  refine (findByHash?_restore hse hcomplete hdistinct ((hsame id).trans ho) hh).mpr ?_
  intro other hsup
  obtain ⟨q, hq, _⟩ := hsup.released
  simp [hnone] at hq

end Book

namespace Desk

theorem book_restore (d : Desk) (kept : Orders) :
    (d.restore kept).1.book = (d.book.restore kept).1 := by
  by_cases hsome : 0 < (d.book.restore kept).2
  · simp [restore, hsome, enqueue]
  · simp [restore, hsome, enqueue]

theorem feed_wake (d : Desk) : d.wake.feed = d.feed := by
  unfold wake
  split <;> rfl

/-- Nothing is published when kept orders are taken back. -/
theorem feed_restore (d : Desk) (kept : Orders) : (d.restore kept).1.feed = d.feed := by
  by_cases hsome : 0 < (d.book.restore kept).2
  · simp [restore, hsome, enqueue, feed_wake, Feed.publishAll]
  · simp [restore, hsome, enqueue, Feed.publishAll]

end Desk

namespace Book

variable {b : Book}

/-- Taking back kept orders merges them into the book, publishes nothing and tells how many were taken
back. A second time the orders stay as they are. What is kept of a book that can come about is there again
if an empty book takes it back, and if no two orders have the same hash, each is found by its own. -/
theorem kept_orders_merge (b : Book) (kept : Orders) :
    (∃ after n, (∀ now, b.perform now (.restore kept) = ⟨after, .count n, [], 0 < n⟩) ∧
      (∀ d : Desk, d.book = b → (d.restore kept).1.book = after ∧ (d.restore kept).2 = n ∧
        (d.restore kept).1.feed = d.feed) ∧
      (∀ id, after.find? id = b.merged kept id) ∧
      (∃ taken : List String, taken.Nodup ∧ taken.length = n ∧
        ∀ id, id ∈ taken ↔ kept.contains id = true ∧ b.Admits id) ∧
      (after.restore kept).1.orders = after.orders) ∧
    ∀ e, Reachable b → Reachable e → e.orders = .empty →
      (e.restore b.orders).1.orders = b.orders ∧
      (HashesDistinct b → ∀ id o hash, b.find? id = some o → o.txHash = some hash →
        (e.restore b.orders).1.findByHash? hash = some o) := by
  refine ⟨⟨(b.restore kept).1, (b.restore kept).2, fun _ => rfl, ?_, find?_restore b kept, ?_,
    orders_restore_restore b kept⟩, ?_⟩
  · rintro d rfl
    exact ⟨d.book_restore kept, rfl, d.feed_restore kept⟩
  · obtain ⟨taken, hnodup, hlength, hmem⟩ := exists_taken b kept.nodup_keys
    refine ⟨taken, hnodup, hlength, ?_⟩
    intro id
    rw [← kept.mem_keys_iff]
    exact hmem id
  · intro e hb he hempty
    refine ⟨orders_restore_of_empty hb.indexSound hempty, ?_⟩
    intro hd id o hash
    exact findByHash?_restore_of_empty hb.indexSound he.indexSound hempty hd

/-- One order has failed and one is open; a kept copy of the first comes too late. -/
theorem failed_order_outlives_kept_copy :
    let b := ((fresh .default).performAll (failedThenOpened "x" "y")).1
    let kept : Orders := .ofList [("a", hashed "a" "z"), ("c", hashed "b" "w")]
    let kept' := ((fresh .default).restore b.orders).1
    (∃ after, b.perform .epoch (.restore kept) = ⟨after, .count 1, [], true⟩ ∧
      after.find? "a" = b.find? "a" ∧ after.find? "b" = b.find? "b" ∧
      after.find? "c" = some (hashed "c" "w")) ∧
    kept'.orders = b.orders ∧ ∃ o, b.find? "b" = some o ∧ kept'.findByHash? "y" = some o := by
  intro b kept kept'
  obtain ⟨⟨after, n, hperform, _, hfind, _⟩, hempty⟩ := kept_orders_merge b kept
  have hcount : (b.restore kept).2 = 1 := by decide +kernel
  have hn : (b.restore kept).2 = n := by
    have hverdict := congrArg Effect.verdict (hperform .epoch)
    exact Verdict.count.inj hverdict
  obtain ⟨hsame, hfound⟩ := hempty (fresh .default) ⟨_, _, rfl⟩ ⟨.default, [], rfl⟩ rfl
  have hhashes : ∀ x ∈ b.orders.entries, ∀ y ∈ b.orders.entries, x.2.txHash.isSome →
      x.2.txHash = y.2.txHash → x.1 = y.1 := by decide +kernel
  have hdistinct : HashesDistinct b := by
    intro id other o p hash ho hp hoh hph
    have hsome : o.txHash.isSome = true := by simp [hoh]
    exact hhashes (id, o) ((b.orders.mem_entries_iff).mpr ho) (other, p)
      ((b.orders.mem_entries_iff).mpr hp) hsome (hoh.trans hph.symm)
  obtain rfl : n = 1 := hn.symm.trans hcount
  refine ⟨⟨after, hperform .epoch, ?_, ?_, ?_⟩, hsame, _, rfl, hfound hdistinct "b" _ "y" rfl rfl⟩
  · exact hfind "a"
  · exact hfind "b"
  · exact hfind "c"

end Book
end SwapDesk
