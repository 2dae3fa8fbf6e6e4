import SwapDesk.Proofs.Desk.Traffic
import SwapDesk.Proofs.Order.Storage

/-! What is saved of a desk. Whatever replies come in, the orders can be read back from their text; only
pairs that reading would not give are lost, and with them the text as a whole. -/
namespace SwapDesk

theorem Desk.storable_replyTo {d : Desk} {s : Sending} {a : Accepted} (hs : s.reply = none)
    (ha : d.replyTo s = .ok a) : a.extras.Storable := by
  simp only [Desk.replyTo, hs, Desk.send] at ha
  cases hr : (d.ask (s.instruction.request d.settings)).2.reply with
  | error f =>
    rw [hr] at ha
    cases ha
  | ok r =>
    rw [hr] at ha
    cases ha
    exact Accepted.storable_accepted d.settings s.instruction r

namespace Floor

open Book

variable {nonce id : String} {f g : Floor} {notes more : List Note} {o : Order} {c : Command}

/-- The extras of the order can be kept. -/
def Keepable (_ : String) (o : Order) : Prop := o.extras.Storable

/-- All extras on the floor can be kept: those of orders, of orders that are about to be tracked, and
those that replies have brought. -/
structure Storing (f : Floor) (notes : List Note) : Prop where
  orders : Everywhere Keepable f.desk.book
  placings : ∀ {i o}, .named i o ∈ f.placings → o.extras.Storable
  replies : ∀ {id i a}, .sent id i (.ok a) ∈ notes → a.extras.Storable

theorem storing_opening (s : Settings) (pairs : List Pair) (now : Instant) (nonce : String) :
    Storing (opening s pairs now nonce) [] where
  orders := everywhere_fresh s.limits
  placings h := by cases h
  replies h := by cases h

theorem durable_keepable : Durable Keepable where
  missed h _ := h
  stalled h _ := h
  sighted h _ := h
  lapse _ _ h _ := h

theorem lasting_keepable : Lasting Keepable where
  toDurable := durable_keepable
  fill _ _ _ h _ _ := h

theorem mem_placings_middle {p q : Placing} {before after : List Placing} :
    p ∈ before ++ q :: after ↔ p = q ∨ p ∈ before ++ after := by
  simp only [List.mem_append, List.mem_cons]
  exact or_left_comm

theorem Step.storable_replies (h : Step f more g) {i : Instruction} {a : Accepted}
    (hm : .sent id i (.ok a) ∈ more) : a.extras.Storable := by
  cases h with
  | turn act =>
    cases act with
    | sending n =>
      simp only [Desk.notes] at hm
      split at hm
      · rename_i s hf
        split at hm
        · rename_i hnone
          have he := List.mem_singleton.mp hm
          injection he with hid hi hreply
          exact Desk.storable_replyTo (Option.isNone_iff_eq_none.mp hnone) hreply.symm
        · cases hm
      · cases hm
    | _ => cases hm
  | name i t =>
    have he := List.mem_singleton.mp hm
    cases he
  | _ => cases hm

theorem Step.storable_placings (h : Step f more g) (hf : Storing f notes) {i : Instruction}
    (hm : .named i o ∈ g.placings) : o.extras.Storable := by
  cases h with
  | takeOn ht =>
    rcases List.mem_append.mp hm with hm | hm
    · exact hf.placings hm
    · cases List.mem_singleton.mp hm
  | name i t =>
    rcases mem_placings_middle.mp hm with he | hm
    · cases he
      exact storable_empty
    · exact hf.placings (mem_placings_middle.mpr (.inr hm))
  | track i o hv =>
    rcases mem_placings_middle.mp hm with he | hm
    · cases he
    · exact hf.placings (mem_placings_middle.mpr (.inr hm))
  | refuse i o hv => exact hf.placings (mem_placings_middle.mpr (.inr hm))
  | submit i kind id => exact hf.placings (mem_placings_middle.mpr (.inr hm))
  | _ => exact hf.placings hm

/-- Nobody writes what could not be kept. -/
theorem Storing.kept (h : Storing f (notes ++ more))
    (hl : Ledger nonce f.desk.business f.placings notes) : Kept Keepable f more where
  toLasting := lasting_keepable
  tracked hm := h.placings hm
  reported now hm hn _ _ := by
    have hsent := answered_replyTo hl hm hn
    apply storable_report
    intro a ha
    exact h.replies (ha ▸ hsent)
  settled _ _ _ _ ho _ := ho

theorem Step.storing (h : Step f more g) (hf : Storing f notes)
    (hl : Ledger nonce f.desk.business f.placings notes) (hs : IndexSound f.desk.book) :
    Storing g (notes ++ more) := by
  have hreplies : ∀ {id i a}, .sent id i (.ok a) ∈ notes ++ more → a.extras.Storable := by
    intro id i a hm
    exact (List.mem_append.mp hm).elim hf.replies h.storable_replies
  have hnext : Storing f (notes ++ more) := ⟨hf.orders, hf.placings, hreplies⟩
  exact ⟨(h.writes hl.undelayed).everywhere (hnext.kept hl) hs hf.orders, h.storable_placings hf,
    hreplies⟩

theorem Storing.command (h : Storing f notes) (hc : Respects Keepable c) :
    Storing { f with desk := (f.desk.perform c).1 } notes where
  orders := by
    have hb := durable_keepable.perform h.orders f.desk.now hc
    exact (Desk.book_commit ..).symm ▸ hb
  placings := h.placings
  replies := h.replies

theorem Traffic.storing (h : Traffic (Respects Keepable) f more g) (hf : Storing f notes)
    (hs : Sound (fun _ => False) nonce f notes) : Storing g (notes ++ more) := by
  -- nothing has to be known of the orders in the commands of others
  have hnone : ∀ c notes, Respects Keepable c →
      Respects (VouchedAmong (fun _ => False) nonce notes) c := by
    intro c notes _
    exact respects_of_forall (fun _ _ h => h.elim) c
  induction h with
  | refl => exact (List.append_nil notes).symm ▸ hf
  | step hpast hstep ih =>
    have hsound := hpast.sound hnone hs
    rw [← List.append_assoc]
    exact hstep.storing ih hsound.ledger hsound.index
  | command _ hallowed ih => exact ih.command hallowed

theorem Traffic.keepable {s : Settings} {pairs : List Pair} {now : Instant}
    (h : Traffic (Respects Keepable) (opening s pairs now nonce) notes f) :
    Everywhere Keepable f.desk.book :=
  (h.storing (storing_opening s pairs now nonce) (sound_opening _ s pairs now nonce)).orders

/-- Whatever is done with a desk that was opened fresh and whatever replies come in, also if others have
orders restored whose extras can be kept: the map of all orders is read back from its saved text as it
was exactly if the pair of each order is canonical. -/
theorem saved_orders_read_back_iff {s : Settings} {pairs : List Pair} {now : Instant}
    (h : Traffic (Respects Keepable) (opening s pairs now nonce) notes f) :
    Orders.ofText f.desk.book.orders.toText = .ok f.desk.book.orders ↔
      ∀ id o, f.desk.book.find? id = some o → o.pair.Canonical :=
  Orders.ofText_toText_iff h.keepable

/-- A swap is accepted with a gas price and a nonce, and somebody has a kept order restored that has a
list among its extras. -/
theorem accepted_and_restored_read_back :
    let s : Settings := .named "c" "n" "x" "w"
    let reply : Json := .record [("gasPrice", .text "0.10"), ("nonce", .int 7), ("txHash", .text "h")]
    let script := Script.empty.setCall .trade [⟨0, .ok reply⟩]
    let d : Desk := { (Desk.opening s [] .epoch "").begin with script }
    let accepted := (d.instruct (.swap .buy ⟨"A", "B"⟩ .one .one)).1.poll (.sending 0)
    let kept : Order := { Order.sample "b" with
      extras := .ofList [("steps", .list [.null, .text "q\n"])] }
    let restored := (accepted.restore (.ofList [("b", kept)])).1
    restored.book.orders.values.map (fun o => (o.id, o.txHash, o.extras.keys)) =
        [("b", none, ["steps"]), ("buy-A-B-0", some "h", ["gasPrice", "nonce"])] ∧
      Orders.ofText restored.book.orders.toText = .ok restored.book.orders := by
  intro s reply script d accepted kept restored
  have hstart : Run (opening s [] .epoch "") [] ⟨(Desk.opening s [] .epoch "").begin, [], []⟩ :=
    .single (.start rfl)
  have hscript := hstart.snoc (.elapse d.clock d.turns d.now script d.ready)
  obtain ⟨notes, hrun⟩ := ((leads_instruct d _).trans (leads_poll _ (.sending 0))) [] []
  have haccepted : Run (opening s [] .epoch "") _ ⟨accepted, [], []⟩ := hscript.trans hrun
  have hkept : Respects Keepable (.restore (.ofList [("b", kept)])) := by
    intro id o hm
    cases List.mem_singleton.mp hm
    intro k j hj
    cases List.mem_singleton.mp ((Dict.mem_entries_iff _).mpr hj)
    refine ⟨.list ?_, .list (n := 123) ?_⟩
    · intro x hx
      rcases List.mem_pair.mp hx with rfl | rfl
      · exact .null
      · exact .text _
    · intro x hx
      rcases List.mem_pair.mp hx with rfl | rfl
      · exact .null _
      · exact .text _ _
  have htraffic := haccepted.traffic.trans (traffic_restore accepted [] [] hkept)
  refine ⟨by decide +kernel, (saved_orders_read_back_iff htraffic).mpr ?_⟩
  intro id o ho
  have hpairs : ∀ o ∈ restored.book.orders.values, Pair.ofText? o.pair.toText = some o.pair := by
    decide +kernel
  exact Pair.ofText?_toText_iff.mp (hpairs o ((Dict.mem_values_iff _).mpr ⟨id, ho⟩))

/-- The name of a token may have a dash in it, and a pair may be given in lower case. The orders are
tracked all the same; in the first case no order is read back at all, and in the second one the pair has
changed. -/
theorem dashed_token_spoils_saved_orders :
    let s : Settings := .named "c" "n" "x" "w"
    let d := (Desk.opening s [] .epoch "").begin
    let approved := (d.instruct (.approve "a-b")).1
    let placed := (d.instruct (.swap .buy ⟨"a", "B"⟩ .one .one)).1
    (∃ notes, Run (opening s [] .epoch "") notes ⟨approved, [], []⟩) ∧
      approved.book.orders.keys = ["approve-A-B-A-B-0"] ∧
      ((Orders.ofText approved.book.orders.toText).mapError Fault.message).map (·.keys) =
        .error "invalid trading pair: A-B-A-B" ∧
      (∃ notes, Run (opening s [] .epoch "") notes ⟨placed, [], []⟩) ∧
      placed.book.orders.values.map (·.pair) = [⟨"a", "B"⟩] ∧
      (Orders.ofText placed.book.orders.toText).toOption.map (·.values.map (·.pair)) =
        some [⟨"A", "B"⟩] := by
  intro s d approved placed
  have hstart : Run (opening s [] .epoch "") [] ⟨d, [], []⟩ := .single (.start rfl)
  obtain ⟨notes, hrun⟩ := leads_instruct d (.approve "a-b") [] []
  obtain ⟨notes', hrun'⟩ := leads_instruct d (.swap .buy ⟨"a", "B"⟩ .one .one) [] []
  have happroved : Run (opening s [] .epoch "") _ ⟨approved, [], []⟩ := hstart.trans hrun
  have hplaced : Run (opening s [] .epoch "") _ ⟨placed, [], []⟩ := hstart.trans hrun'
  rw [Orders.ofText_toText happroved.traffic.keepable, Orders.ofText_toText hplaced.traffic.keepable]
  exact ⟨⟨_, happroved⟩, by decide +kernel, by decide +kernel, ⟨_, hplaced⟩,
    by decide +kernel, by decide +kernel⟩

end Floor
end SwapDesk
