import SwapDesk.Desk.Caller
import SwapDesk.Proofs.Book.Operations
import SwapDesk.Proofs.Decimal.Quotient

/-! What becomes of an instruction. Either nothing happens but that an id may be used up, or there is
one new order and one new submission, and both say the same. -/
namespace SwapDesk

/-- Nothing has happened to the order yet. -/
structure Order.IsNew (o : Order) (now : Instant) (id : String) : Prop where
  id : o.id = id
  state : o.state = o.kind.initialState
  txHash : o.txHash = none
  fee : o.fee = .zero
  feeAsset : o.feeAsset = none
  failure : o.failure = none
  extras : o.extras = .empty
  notFound : o.notFound = 0
  ambiguous : o.ambiguous = 0
  createdAt : o.createdAt = now
  updatedAt : o.updatedAt = now

theorem Terms.order_isNew (t : Terms) (now : Instant) (id : String) : (t.order now id).IsNew now id :=
  ⟨rfl, rfl, rfl, rfl, rfl, rfl, rfl, rfl, rfl, rfl, rfl⟩

namespace Instruction

variable {i : Instruction} {t : Terms} {now : Instant} {id : String} {base quote price : Decimal}
  {cause : Overflow}

/-- The price of added liquidity is zero if the base amount is, else the rounded quotient. -/
def IsLiquidityPrice (base quote price : Decimal) : Prop :=
  base.value = 0 ∧ price = .zero ∨
    base.value ≠ 0 ∧ quote.div base = .ok price ∧ price.Rounds (quote.value / base.value)

/-- The order has the terms that the caller gave. -/
def Sets (o : Order) : Instruction → Prop
  | swap side pair amount price =>
    o.kind = .trade ∧ o.side = side ∧ o.pair = pair ∧ o.amount = amount ∧ o.price = price
  | approve token =>
    o.kind = .approval ∧ o.side = .buy ∧ o.pair = ⟨upper token, upper token⟩ ∧ o.amount = .zero ∧
      o.price = .zero
  | addLiquidity pair base quote =>
    o.kind = .addLiquidity ∧ o.side = .buy ∧ o.pair = pair ∧ o.amount = base ∧
      IsLiquidityPrice base quote o.price
  | removeLiquidity pair percent =>
    o.kind = .removeLiquidity ∧ o.side = .sell ∧ o.pair = pair ∧ o.amount = percent ∧
      o.price = .zero

/-- The request that has the gateway do what the order says, in the name of the settings. Of the
amounts, only that of the quote token is not in the order. -/
def asks (s : Settings) (o : Order) : Instruction → Request
  | swap _ _ _ _ =>
    .trade
      { chain := s.chain, network := s.network, connector := s.connector, address := s.wallet
        base := o.pair.base, quote := o.pair.quote, side := o.side
        amount := o.amount, limitPrice := o.price, nonce := none }
  | approve _ =>
    .approve
      { chain := s.chain, network := s.network, address := s.wallet
        spender := s.spender.getD s.connector, token := o.pair.base }
  | addLiquidity _ _ quote =>
    .addLiquidity
      { chain := s.chain, network := s.network, connector := s.connector, address := s.wallet
        token0 := o.pair.base, token1 := o.pair.quote, amount0 := o.amount, amount1 := quote }
  | removeLiquidity _ _ =>
    .removeLiquidity
      { chain := s.chain, network := s.network, connector := s.connector, address := s.wallet
        token0 := o.pair.base, token1 := o.pair.quote, percent := o.amount }

theorem isLiquidityPrice_of_eq_ok (h : liquidityPrice base quote = .ok price) :
    IsLiquidityPrice base quote price := by
  rw [liquidityPrice] at h
  by_cases hb : base.value = 0
  · rw [if_pos (Decimal.isZero_iff.mpr hb)] at h
    cases h
    exact Or.inl ⟨hb, rfl⟩
  · rw [if_neg (mt Decimal.isZero_iff.mp hb)] at h
    exact Or.inr ⟨hb, h, Decimal.div_rounds hb h⟩

theorem liquidityPrice_eq_error_iff :
    liquidityPrice base quote = .error cause ↔
      cause = .division ∧ base.value ≠ 0 ∧
        Decimal.overflowBound ≤ |quote.value / base.value| := by
  rw [liquidityPrice]
  by_cases hb : base.value = 0
  · rw [if_pos (Decimal.isZero_iff.mpr hb)]
    simp [hb]
  · rw [if_neg (mt Decimal.isZero_iff.mp hb), Decimal.div_eq_error_iff hb, eq_comm (a := cause)]
    exact ⟨fun ⟨hle, hc⟩ => ⟨hc, hb, hle⟩, fun ⟨hc, _, hle⟩ => ⟨hle, hc⟩⟩

theorem sets_of_terms (h : i.terms = .ok t) : i.Sets (t.order now id) := by
  cases i with
  | swap side pair amount price =>
    cases h
    exact ⟨rfl, rfl, rfl, rfl, rfl⟩
  | approve token =>
    cases h
    exact ⟨rfl, rfl, rfl, rfl, rfl⟩
  | addLiquidity pair base quote =>
    obtain ⟨price, hprice, ht⟩ := bind_eq_ok.mp h
    cases ht
    exact ⟨rfl, rfl, rfl, rfl, isLiquidityPrice_of_eq_ok hprice⟩
  | removeLiquidity pair percent =>
    cases h
    exact ⟨rfl, rfl, rfl, rfl, rfl⟩

/-- The order is made from the terms and the request from the caller's arguments, and both agree. -/
theorem request_eq_asks {s : Settings} {o : Order} (h : i.Sets o) : i.request s = i.asks s o := by
  cases i with
  | swap side pair amount price =>
    obtain ⟨-, rfl, rfl, rfl, rfl⟩ := h
    rfl
  | approve token =>
    obtain ⟨-, -, hpair, -, -⟩ := h
    rw [asks, hpair]
    rfl
  | addLiquidity pair base quote =>
    obtain ⟨-, -, rfl, rfl, -⟩ := h
    rfl
  | removeLiquidity pair percent =>
    obtain ⟨-, -, rfl, rfl, -⟩ := h
    rfl

end Instruction

namespace Desk

variable {d : Desk} {t : Terms}

/-- The desk after an id was handed out. -/
def named (d : Desk) (t : Terms) : Desk :=
  { d with issuer := (d.issuer.issue t.kind t.side t.pair).2 }

/-- The id that the next order with these terms gets. -/
def nextId (d : Desk) (t : Terms) : String := (d.issuer.issue t.kind t.side t.pair).1

/-- The desk after an order was tracked under its id. -/
def tracked (d : Desk) (t : Terms) : Desk :=
  let o := t.order d.now (d.nextId t)
  (d.named t).commit (d.book.file o.id o) [o.creation] false

theorem enroll_eq (d : Desk) (t : Terms) :
    d.enroll t = match d.book.track (t.order d.now (d.nextId t)) with
      | .error reason => (d.named t, .error (.rejected reason))
      | .ok (book, events) => ((d.named t).commit book events false, .ok (d.nextId t)) := rfl

/-- What can become of an instruction. -/
theorem instruct_cases (d : Desk) (i : Instruction) :
    (∃ cause, i.terms = .error cause ∧ d.instruct i = (d, .error (.overflow cause))) ∨
    ∃ t, i.terms = .ok t ∧
      (d.running = false ∧ d.instruct i = (d, .error .notRunning) ∨
      d.running = true ∧ (d.book.find? (d.nextId t)).isSome = true ∧
        d.instruct i = (d.named t, .error (.rejected (.duplicate (d.nextId t)))) ∨
      d.running = true ∧ d.book.find? (d.nextId t) = none ∧
        d.instruct i = ((d.tracked t).submit i t.kind (d.nextId t), .ok (d.nextId t))) := by
  cases hterms : i.terms with
  | error cause =>
    refine Or.inl ⟨cause, rfl, ?_⟩
    rw [instruct, termsFor, hterms]
    rfl
  | ok t =>
    refine Or.inr ⟨t, rfl, ?_⟩
    cases hrun : d.running with
    | false =>
      refine Or.inl ⟨rfl, ?_⟩
      rw [instruct, termsFor, hterms, hrun]
      rfl
    | true =>
      have htaken : d.termsFor i = .ok t := by
        rw [termsFor, hterms, hrun]
        rfl
      cases hfind : d.book.find? (d.nextId t) with
      | some o =>
        refine Or.inr (Or.inl ⟨rfl, rfl, ?_⟩)
        have htrack := Book.track_of_tracked (o := t.order d.now (d.nextId t)) hfind
        have henroll : d.enroll t = (d.named t, .error (.rejected (.duplicate (d.nextId t)))) := by
          rw [enroll_eq, htrack]
          rfl
        rw [instruct, htaken]
        simp only [henroll]
      | none =>
        refine Or.inr (Or.inr ⟨rfl, rfl, ?_⟩)
        have htrack := Book.track_of_new (o := t.order d.now (d.nextId t)) hfind
        have henroll : d.enroll t = (d.tracked t, .ok (d.nextId t)) := by
          rw [enroll_eq, htrack]
          rfl
        rw [instruct, htaken]
        simp only [henroll]

/-- An instruction is carried out as a whole or not at all. If it is refused, an id may have been used
up, and nothing else has changed. If it is taken, its order is new in the book under an id that was
free, the feed has told of it once, and one submission waits, whose request is the only one that it
will send. -/
theorem instruct_all_or_nothing (d : Desk) (i : Instruction) :
    (∃ r issuer, d.instruct i = ({ d with issuer }, .error r) ∧
      ((∃ cause, r = .overflow cause ∧ i.terms = .error cause) ∨
        r = .notRunning ∧ d.running = false ∨
        ∃ id, r = .rejected (.duplicate id) ∧ (d.book.find? id).isSome = true)) ∨
    ∃ d' id o x, d.instruct i = (d', .ok id) ∧ d.running = true ∧ d.book.find? id = none ∧
      o.IsNew d.now id ∧ i.Sets o ∧
      d'.book = { d.book with orders := d.book.orders.insert id o } ∧
      d'.feed = d.feed.publish (.created id o.kind o.state) ∧
      d'.asked = d.asked ∧ d'.settings = d.settings ∧
      d'.sendings = d.sendings ++ [x] ∧ x.order = id ∧ x.kind = o.kind ∧ x.reply = none ∧
      ∀ e : Desk, e.settings = d.settings →
        (e.send x).1.asked = e.asked ++ [⟨e.clock, i.asks d.settings o⟩] := by
  rcases d.instruct_cases i with ⟨cause, hterms, h⟩ | ⟨t, hterms, ⟨hrun, h⟩ | ⟨-, hfind, h⟩ |
    ⟨hrun, hfind, h⟩⟩
  · exact Or.inl ⟨_, d.issuer, h, Or.inl ⟨cause, rfl, hterms⟩⟩
  · exact Or.inl ⟨_, d.issuer, h, Or.inr (Or.inl ⟨rfl, hrun⟩)⟩
  · exact Or.inl ⟨_, _, h, Or.inr (Or.inr ⟨_, rfl, hfind⟩)⟩
  · let o := t.order d.now (d.nextId t)
    have hsets : i.Sets o := Instruction.sets_of_terms hterms
    have hbook : d.book.file o.id o = { d.book with orders := d.book.orders.insert o.id o } := by
      have hnone : d.book.find? o.id = none := hfind
      rw [Book.file, hnone]
      rfl
    refine Or.inr ⟨_, _, o, ⟨d.serials, d.nextId t, t.kind, i, none⟩, h, hrun, hfind,
      t.order_isNew _ _, hsets, hbook, rfl, rfl, rfl, rfl, rfl, rfl, rfl, ?_⟩
    intro e he
    show e.asked ++ [(⟨e.clock, i.request e.settings⟩ : Asked)] = _
    rw [he, Instruction.request_eq_asks hsets]

/-- One third of the quote token for each of the base token. -/
theorem instruct_thirds :
    let i : Instruction := .addLiquidity ⟨"A", "B"⟩ ⟨3, 0, by decide, by decide⟩ .one
    let d := (Desk.opening (.named "c" "n" "x" "w") [] .epoch "").begin
    ∃ d' o x, d.instruct i = (d', .ok "addlp-A-B-0") ∧
      d'.book.orders = Dict.ofList [("addlp-A-B-0", o)] ∧
      o.price = ⟨3333333333333333333333333333, 28, by decide, by decide⟩ ∧
      o.state = .pendingCreate ∧ d'.feed.sent = 1 ∧ d'.asked = [] ∧ d'.sendings = [x] ∧
      ((d'.send x).1.asked.map (·.request)) = [.addLiquidity
        ⟨"c", "n", "x", "w", "A", "B", ⟨3, 0, by decide, by decide⟩, .one⟩] := by
  intro i d
  have hok : (d.instruct i).2.toOption = some "addlp-A-B-0" := by decide +kernel
  rcases instruct_all_or_nothing d i with ⟨r, issuer, h, -⟩ |
    ⟨d', id, o, x, h, -, -, hnew, hsets, hbook, hfeed, hasked, hsettings, hsendings, -, -, -, hask⟩
  · rw [h] at hok
    cases hok
  · rw [h] at hok
    cases hok
    have hrequest := Instruction.request_eq_asks (s := d.settings) hsets
    obtain ⟨hkind, hside, hpair, hamount, hprice⟩ := hsets
    have hthird : Decimal.one.div ⟨3, 0, by decide, by decide⟩ =
        .ok ⟨3333333333333333333333333333, 28, by decide, by decide⟩ := by decide +kernel
    refine ⟨d', o, x, h, ?_, ?_, ?_, ?_, hasked, hsendings, ?_⟩
    · rw [hbook]
      rfl
    · rcases hprice with ⟨hzero, -⟩ | ⟨-, hdiv, -⟩
      · exact absurd (Decimal.value_eq_zero_iff.mp hzero) (by decide)
      · exact (Except.ok.inj (hthird.symm.trans hdiv)).symm
    · rw [hnew.state, hkind]
      rfl
    · rw [hfeed]
      rfl
    · rw [hask d' hsettings, hasked, ← hrequest]
      rfl

end Desk

end SwapDesk
