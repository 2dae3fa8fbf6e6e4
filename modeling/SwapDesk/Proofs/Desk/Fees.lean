import SwapDesk.Proofs.Book.Descent
import SwapDesk.Proofs.Decimal.Product
import SwapDesk.Proofs.Desk.Dealings
import SwapDesk.Proofs.Pass.Policy

/-! The gas price that was quoted when a transaction was accepted. It is kept as a text among the extras
of the order, read from there as the same decimal, and pays the gas once the transaction is done. -/
namespace SwapDesk

/-- The gas price in the reply to a trade or to a change of liquidity. -/
def Instruction.quoted? (s : Settings) :
    (i : Instruction) → (i.request s).call.Reply → Option Decimal
  | swap _ _ _ _, r => r.gasPrice
  | approve _, _ => none
  | addLiquidity _ _ _, r => r.gasPrice
  | removeLiquidity _ _, r => r.gasPrice

/-- The reply fills the order at this fee, and changes nothing else of the book. -/
def Tally.Fills (t : Tally) (now : Instant) (native : Option String) (q : Inquiry)
    (reply : TransactionReply) (o : Order) (fee : Decimal) : Prop :=
  ∃ t', t.answer now native q (.ok reply) = .ok t' ∧
    t'.book = t.book.put q.order (o.complete now native fee)

/-- The transaction of an active order is done with success. The receipt tells the gas that was used, and
no price. -/
structure Book.SpendsGas (b : Book) (q : Inquiry) (reply : TransactionReply) (o : Order)
    (gas : Decimal) : Prop where
  resolves : b.Resolves q o
  active : o.state.isTerminal = false
  receipt : reply.Confirms ⟨1, gas, none⟩

variable {α : Type} {l : List (String × α)} {k : String} {y : α} {o : Order} {price : Decimal}

theorem Dict.find?_foldl_insert (hk : k ∉ l.map Prod.fst) (d : Dict α) :
    (l.foldl (fun d e => d.insert e.1 e.2) d).find? k = d.find? k := by
  induction l generalizing d with
  | nil => rfl
  | cons e l ih =>
    rw [List.map_cons, List.mem_cons, not_or] at hk
    rw [List.foldl_cons, ih hk.2, find?_insert_ne d hk.1]

theorem Dict.find?_ofList_cons (hk : k ∉ l.map Prod.fst) :
    (ofList ((k, y) :: l)).find? k = some y :=
  (find?_foldl_insert hk _).trans (find?_insert_self _ k y)

/-! ### The price in the reply -/

theorem find?_gasExtras (token : Option String) (nonce : Option UInt64) {more : List (String × Json)}
    (hmore : "gasPrice" ∉ more.map Prod.fst) :
    (Dict.ofList (Accepted.gasExtras (some price) token nonce ++ more)).find? "gasPrice" =
      some (.text price.toText) := by
  refine Dict.find?_ofList_cons ?_
  simpa using hmore

theorem text_ofTrade {r : TradeReply} (h : r.gasPrice = some price) :
    (Accepted.ofTrade r).extras.find? "gasPrice" = some (.text price.toText) := by
  rw [Accepted.ofTrade, h, List.append_assoc]
  exact find?_gasExtras _ _ (by simp [Accepted.decimalExtra])

theorem text_ofLiquidity {r : LiquidityReply} (h : r.gasPrice = some price) :
    (Accepted.ofLiquidity r).extras.find? "gasPrice" = some (.text price.toText) := by
  rw [Accepted.ofLiquidity, h, ← List.append_nil (Accepted.gasExtras ..)]
  exact find?_gasExtras _ _ List.not_mem_nil

/-- A quoted price is among the extras, with all its digits. -/
theorem text_of_quoted {s : Settings} {i : Instruction} {r : (i.request s).call.Reply}
    (h : i.quoted? s r = some price) :
    (i.accepted s r).extras.find? "gasPrice" = some (.text price.toText) := by
  cases i with
  | swap side pair amount limit => exact text_ofTrade h
  | approve token => cases h
  | addLiquidity pair base quote => exact text_ofLiquidity h
  | removeLiquidity pair percent => exact text_ofLiquidity h

theorem extraDecimal?_of_text (h : o.extras.find? k = some (.text price.toText)) :
    o.extraDecimal? k = some price := by
  rw [Order.extraDecimal?, h]
  exact Decimal.ofText?_toText price

/-! ### What is paid -/

theorem fills_of_price {t : Tally} {q : Inquiry} {reply : TransactionReply} {gas fee : Decimal}
    (hs : Book.IndexSound t.book) (h : t.book.SpendsGas q reply o gas)
    (hprice : o.extraDecimal? "gasPrice" = some price) (hfee : gas.mul? price = some fee)
    (now : Instant) (native : Option String) : t.Fills now native q reply o fee := by
  obtain ⟨hh, ho⟩ := Book.txHash_of_findByHash? hs h.resolves.1
  have hpaid : o.fee? ⟨1, gas, none⟩ = some fee := by
    rw [Order.fee?, hprice]
    exact hfee
  have hanswer : t.answer now native q (.ok reply) = _ :=
    Tally.answer_of_resolves h.resolves (resolution_of_success h.receipt rfl hpaid)
  rw [Book.resolve_filled (h.resolves.2 ▸ ho) hh h.active] at hanswer
  exact ⟨_, hanswer, rfl⟩

/-- The order of a trade or of a change of liquidity has the gas price that its acceptance quoted, and has
it with all its digits, whatever becomes of the book while nobody brings the order other extras or purges
it: through reports of any kind, and through any number of times that the orders are kept, read and taken
back. When its transaction is done while it is active, and the receipt names no price, it is filled at the
gas used times the quoted price, rounded to a decimal if there is one in range. A product that needs no
rounding is paid exactly. -/
theorem Desk.quoted_price_is_kept_and_paid {d : Desk} {x : Sending}
    {r : (x.instruction.request d.settings).call.Reply} (hb : Book.Reachable d.book)
    (hquoted : x.instruction.quoted? d.settings r = some price)
    (ho : d.book.find? x.order = some o) (hs : o.state.canStep x.kind.acceptedState = true) :
    let accepted := (d.finishSending x (.ok (x.instruction.accepted d.settings r))).book
    ∀ b, Book.Descends x.order accepted b →
      ∃ p, b.find? x.order = some p ∧ p.extraDecimal? "gasPrice" = some price ∧
        ∀ (t : Tally) (q : Inquiry) (reply : TransactionReply) (gas : Decimal),
          t.book = b → b.SpendsGas q reply p gas → ∀ now native,
            (|gas.value * price.value| < Decimal.overflowBound →
              ∃ fee, gas.mul? price = some fee ∧ fee.Rounds (gas.value * price.value) ∧
                t.Fills now native q reply p fee) ∧
            ((gas.mantissa * price.mantissa).natAbs < coefficientBound →
              gas.scale + price.scale ≤ maxScale →
              ∃ fee : Decimal, fee.value = gas.value * price.value ∧
                t.Fills now native q reply p fee) := by
  intro accepted b hdescends
  let report := submissionReport x.order x.kind (.ok (x.instruction.accepted d.settings r))
  have hbook : accepted = (d.book.perform d.now (.update report)).book :=
    d.book_finishSending x _
  have hfind : accepted.find? x.order = some (o.amend d.now report) := by
    rw [hbook, Book.perform, Effect.ofChange, Book.update_of_canStep (u := report) ho hs]
    exact Dict.find?_insert_self ..
  have hholds : Book.HoldsText x.order "gasPrice" price.toText accepted :=
    ⟨_, hfind, text_of_quoted hquoted⟩
  obtain ⟨p, hp, htext⟩ := hdescends.holdsText hholds
  have hprice := extraDecimal?_of_text htext
  refine ⟨p, hp, hprice, ?_⟩
  rintro t q reply gas rfl hgas now native
  have hsound := (hdescends.reachable (hbook ▸ hb.perform d.now (.update report))).indexSound
  constructor
  · intro hrange
    obtain ⟨fee, hfee⟩ : ∃ fee, gas.mul? price = some fee := by
      refine Option.ne_none_iff_exists'.mp fun hnone => ?_
      exact absurd hrange (not_lt.mpr (Decimal.mul?_eq_none_iff.mp hnone))
    exact ⟨fee, hfee, Decimal.rounds_of_mul? hfee,
      fills_of_price hsound hgas hprice hfee now native⟩
  · intro hcoefficient hscale
    obtain ⟨fee, hfee, hexact⟩ := Decimal.exists_exact_mul? hcoefficient hscale
    exact ⟨fee, hexact, fills_of_price hsound hgas hprice hfee now native⟩

/-- A swap is accepted at a gas price of 2.50 and seen under way once. Its order is kept over a restart,
and filled when three units of gas were used. -/
theorem Desk.price_outlasts_restart :
    let price : Decimal := ⟨250, 2, by decide, by decide⟩
    let gas : Decimal := ⟨3, 0, by decide, by decide⟩
    let reply : TradeReply := ⟨"h", some price, none, none, none, none⟩
    let x : Sending := ⟨0, "a", .trade, .swap .buy ⟨"A", "B"⟩ .one .one, none⟩
    let d : Desk := { Desk.opening (.named "c" "n" "x" "w") [] .epoch "" with
      book := ((Book.fresh .default).performAll [(.epoch, .track (.sample "a"))]).1 }
    let accepted := (d.finishSending x (.ok (x.instruction.accepted d.settings reply))).book
    let seen := (accepted.perform .epoch (.markAmbiguous "a")).book
    let done : TransactionReply := ⟨"h", .confirmed, some ⟨1, gas, none⟩, none⟩
    Orders.ofText seen.orders.toText = .ok seen.orders ∧
      ∃ p fee, let b := ((Book.fresh .default).restore seen.orders).1
        b.find? "a" = some p ∧ p.extraDecimal? "gasPrice" = some price ∧ fee.value = 15 / 2 ∧
          (Tally.start b .empty).Fills .epoch none ⟨"a", "h"⟩ done p fee := by
  intro price gas reply x d accepted seen done
  let P : String → Order → Prop := fun _ o => o.extras.Storable ∧ o.pair.Canonical
  have hdurable : Book.Durable P := ⟨fun h _ => h, fun h _ => h, fun h _ => h, fun _ _ h _ => h⟩
  have hpair : Pair.Canonical ⟨"A", "B"⟩ := Pair.ofText?_toText_iff.mp (by decide +kernel)
  have hd : Book.Everywhere P d.book :=
    hdurable.perform (Book.everywhere_fresh .default) .epoch
      (show P "a" (.sample "a") from ⟨storable_empty, hpair⟩)
  have haccepted : Book.Everywhere P accepted := by
    refine hdurable.perform (k := .update _) hd .epoch fun o now ho _ => ⟨?_, ho.2⟩
    exact Accepted.storable_ofTrade reply
  have hall : Book.Everywhere P seen := hdurable.perform haccepted .epoch trivial
  have hk : Orders.ofText seen.orders.toText = .ok seen.orders :=
    (Orders.ofText_toText_iff fun id o ho => (hall id o ho).1).mpr fun id o ho => (hall id o ho).2
  have hfresh : Book.Reachable (Book.fresh .default) := ⟨.default, [], rfl⟩
  have hseen : Book.Descends "a" accepted seen := .command .refl .epoch trivial
  have hb : Book.Descends "a" accepted ((Book.fresh .default).restore seen.orders).1 :=
    .restarted hseen hk hfresh rfl
  have hfound : (((Book.fresh .default).restore seen.orders).1.findByHash? "h").map
      (fun o => (o.id, o.state.isTerminal)) = some ("a", false) := by
    decide +kernel
  obtain ⟨o, ho, hnew⟩ := Option.map_eq_some_iff.mp hfound
  obtain ⟨hid, hopen⟩ := Prod.mk.inj hnew
  obtain ⟨p, hp, hprice, hpaid⟩ := Desk.quoted_price_is_kept_and_paid (d := d) (x := x) (r := reply)
    (o := .sample "a") ⟨.default, _, rfl⟩ rfl rfl rfl _ hb
  have hown := (Book.txHash_of_findByHash? (hfresh.restore seen.orders).indexSound ho).2
  rw [hid] at hown
  cases hown.symm.trans hp
  obtain ⟨fee, hfee, hfills⟩ := (hpaid (.start _ .empty) ⟨"a", "h"⟩ done gas rfl
    ⟨⟨ho, hid⟩, hopen, rfl, rfl⟩ .epoch none).2 (by decide) (by decide)
  refine ⟨hk, o, fee, hp, hprice, ?_, hfills⟩
  rw [hfee]
  norm_num [Decimal.value, price, gas, pow10]

/-- Valid settings under which one missing hash is enough. The gateway accepts a swap at a gas price of
2.50, but takes so long that a pass gives the swap up as lost: the price comes too late, and the order
does not have it. -/
theorem Floor.late_price_is_ignored :
    let s : Settings :=
      { Settings.named "c" "n" "x" "w" with notFoundLimit := 1, hashWait := 100 }
    let taken : Json := .record [("txHash", .text "h"), ("gasPrice", .text "2.50")]
    let script := Script.empty.setCall .trade [⟨5000, .ok taken⟩]
    let d : Desk := { (Desk.opening s [] .epoch "").begin with script }
    let sent := (d.instruct (.swap .buy ⟨"A", "B"⟩ .one .one)).1.poll (.sending 0)
    let cycle := (((sent.poll .loop).poll .ticker).poll .loop).poll .loop
    let late := { ({ cycle with clock := 100 }).poll .loop with clock := 5000 }
    let ended := late.poll (.sending 0)
    s.validate = .ok () ∧
      (∃ notes, Run (opening s [] .epoch "") notes ⟨late, [], []⟩) ∧
      late.sendings.map (fun x => (x.order, (late.replyTo x).toOption.map fun a =>
        (a.hash, a.extras.keys))) = [("buy-A-B-0", some ("h", ["gasPrice"]))] ∧
      ended.sendings.isEmpty = true ∧
      (ended.book.find? "buy-A-B-0").map (fun o => (o.state, o.extraDecimal? "gasPrice")) =
        some (.failed, none) := by
  intro s taken script d sent cycle late ended
  have hstart : Run (opening s [] .epoch "") [] ⟨(Desk.opening s [] .epoch "").begin, [], []⟩ :=
    .single (.start rfl)
  have hscript := hstart.snoc (.elapse d.clock d.turns d.now script d.ready)
  have hsent : Leads d sent := (leads_instruct d _).trans (leads_poll _ _)
  have hcycle : Leads sent cycle := (((leads_poll sent .loop).trans (leads_poll _ .ticker)).trans
    (leads_poll _ .loop)).trans (leads_poll _ .loop)
  have hlost := (leads_elapse cycle 100 cycle.turns cycle.ready).trans (leads_poll _ .loop)
  have hlate : Leads cycle late := hlost.trans (leads_elapse _ 5000 _ _)
  obtain ⟨notes, hrun⟩ := (hsent.trans (hcycle.trans hlate)) [] []
  refine ⟨by decide +kernel, ⟨_, hscript.trans hrun⟩, ?_⟩
  decide +kernel

end SwapDesk
