import SwapDesk.Proofs.Desk.Steps

/-! Orders on the floor. Submissions, pollers and callers work on the same orders at any time, and yet the
data of each order go together, and its hash comes from its own submission. -/
namespace SwapDesk.Floor

open Book

variable {P : String → Order → Prop} {ids : String → Prop} {nonce id hash : String} {f g : Floor}
  {notes more : List Note} {b : Book} {o : Order}

theorem Writes.indexSound (h : Writes f notes b) (hs : IndexSound f.desk.book) :
    IndexSound b := by
  cases h with
  | polled hp => exact hp.indexSound hs
  | purged now age => exact indexSound_perform hs now (.purge age)
  | tracked now hm => exact indexSound_perform hs now _
  | reported now hm hn => exact indexSound_update hs now _
  | @settled q reply o now native r hm =>
    cases r with
    | filled fee => exact indexSound_update hs now _
    | ambiguous => exact indexSound_touches hs (touches_doubt _ now q.order .stall)
    | notFound => exact indexSound_touches hs (touches_doubt _ now q.order .miss)
    | awaitingReceipt => exact hs

/-- A property of orders that each writer keeps. -/
structure Kept (P : String → Order → Prop) (f : Floor) (notes : List Note) : Prop extends
    Lasting P where
  tracked : ∀ {i o}, .named i o ∈ f.placings → P o.id o
  reported : ∀ {s o} now, s ∈ f.desk.sendings →
    (s.reply = none → .sent s.order s.instruction (f.desk.replyTo s) ∈ notes) →
    P s.order o → o.state.canStep (submissionReport s.order s.kind (f.desk.replyTo s)).state = true →
    P s.order (o.amend now (submissionReport s.order s.kind (f.desk.replyTo s)))
  settled : ∀ {q reply p o} now native fee, ⟨q, reply, p⟩ ∈ f.findings → P q.order o →
    o.state.isTerminal = false → P q.order (o.amend now (fillReport native q p fee))

theorem Writes.everywhere (h : Writes f notes b) (hk : Kept P f notes)
    (hs : IndexSound f.desk.book) (hb : Everywhere P f.desk.book) : Everywhere P b := by
  cases h with
  | polled hp => exact hk.polled hp hs hb
  | purged now age => exact hb.purge now age
  | tracked now hm => exact hb.track now fun _ => hk.tracked hm
  | @reported s now hm hn =>
    have hid : (submissionReport s.order s.kind (f.desk.replyTo s)).order = s.order := by
      cases f.desk.replyTo s <;> rfl
    apply hb.update now
    rw [hid]
    intro o ho hstep
    exact hk.reported now hm hn (hb s.order o ho) hstep
  | @settled q reply o now native r hm =>
    apply hk.resolve hb now r
    intro fee p hp ha
    exact hk.settled now native fee hm (hb q.order p hp) ha

/-- The order is vouched for if it is one of these. -/
def VouchedAmong (ids : String → Prop) (nonce : String) (notes : List Note) (id : String)
    (o : Order) : Prop :=
  ids id → Vouched nonce notes id o

/-- All that is known of a floor on which these notes were made, and of these orders on it. -/
structure Sound (ids : String → Prop) (nonce : String) (f : Floor) (notes : List Note) :
    Prop where
  ledger : Ledger nonce f.desk.business f.placings notes
  index : IndexSound f.desk.book
  orders : Everywhere (VouchedAmong ids nonce notes) f.desk.book
  findings : ∀ {x}, x ∈ f.findings → ids x.inquiry.order →
    Answered notes x.inquiry.order x.inquiry.hash

theorem sound_opening (ids : String → Prop) (s : Settings) (pairs : List Pair) (now : Instant)
    (nonce : String) : Sound ids nonce (opening s pairs now nonce) [] where
  ledger := .opening s pairs now nonce
  index := indexSound_fresh s.limits
  orders := everywhere_fresh s.limits
  findings h := by cases h

theorem lasting_vouched (ids : String → Prop) (nonce : String) (notes : List Note) :
    Lasting (VouchedAmong ids nonce notes) where
  missed h _ hid := ⟨(h hid).regular.missed, (h hid).named, (h hid).issued, (h hid).answered⟩
  stalled h _ hid := ⟨(h hid).regular.stalled, (h hid).named, (h hid).issued, (h hid).answered⟩
  sighted h _ hid := ⟨(h hid).regular.sighted, (h hid).named, (h hid).issued, (h hid).answered⟩
  lapse now reason h ha hid :=
    ⟨(h hid).regular.lapse ha now reason, (h hid).named, (h hid).issued, (h hid).answered⟩
  fill now native fee h ha hh hid := by
    refine ⟨(h hid).regular.fill ha rfl rfl rfl, (h hid).named, (h hid).issued, ?_⟩
    intro hash he
    cases he
    exact (h hid).answered _ hh

theorem answered_replyTo {s : Sending} (h : Ledger nonce f.desk.business f.placings notes)
    (hs : s ∈ f.desk.sendings)
    (hn : s.reply = none → .sent s.order s.instruction (f.desk.replyTo s) ∈ more) :
    .sent s.order s.instruction (f.desk.replyTo s) ∈ notes ++ more := by
  cases hr : s.reply with
  | none => exact List.mem_append_right notes (hn hr)
  | some a =>
    have hreply : f.desk.replyTo s = a.reply := by simp [Desk.replyTo, hr]
    rw [hreply]
    exact List.mem_append_left more (h.replies s hs a hr)

/-- The report of a submission vouches for the order: ids are of one kind, so it is the order's own
kind that the report goes by. -/
theorem vouched_report {s : Sending} (h : Ledger nonce f.desk.business f.placings notes)
    (hs : s ∈ f.desk.sendings)
    (hn : s.reply = none → .sent s.order s.instruction (f.desk.replyTo s) ∈ more)
    (now : Instant) (ho : Vouched nonce (notes ++ more) s.order o)
    (hstep : o.state.canStep (submissionReport s.order s.kind (f.desk.replyTo s)).state = true) :
    Vouched nonce (notes ++ more) s.order
      (o.amend now (submissionReport s.order s.kind (f.desk.replyTo s))) := by
  have hsent := answered_replyTo h hs hn
  have hkind : s.kind = o.kind := (h.kinds s hs).kind_eq ho.named
  rw [hkind] at hstep ⊢
  cases hreply : f.desk.replyTo s with
  | ok a =>
    rw [hreply] at hstep hsent
    refine ⟨ho.regular.accept hstep, ho.named, ho.issued, ?_⟩
    intro hash he
    cases he
    exact ⟨s.instruction, a, hsent, rfl⟩
  | error cause =>
    rw [hreply] at hstep
    exact ⟨ho.regular.refuse (OrderState.isTerminal_of_canStep hstep) cause, ho.named, ho.issued,
      ho.answered⟩

theorem Sound.kept_vouched (h : Sound ids nonce f notes) (more : List Note) :
    Kept (VouchedAmong ids nonce (notes ++ more)) f more where
  toLasting := lasting_vouched ids nonce (notes ++ more)
  tracked hm _ := Vouched.mono (h.ledger.proper _ hm) more
  reported now hm hn ho hstep hid := vouched_report h.ledger hm hn now (ho hid) hstep
  settled now native fee hm ho ha hid := by
    refine ⟨(ho hid).regular.fill ha rfl rfl rfl, (ho hid).named, (ho hid).issued, ?_⟩
    intro hash he
    cases he
    exact (h.findings hm hid).mono more

/-- A finding was there before, or it is what the index says now. -/
theorem Step.findings (h : Step f more g) {x : Finding} (hx : x ∈ g.findings) :
    x ∈ f.findings ∨
      f.desk.book.findByHash? x.inquiry.hash = some x.order ∧ x.order.id = x.inquiry.order := by
  cases h with
  | read reply hf hid =>
    rcases List.mem_append.mp hx with hx | hx
    · exact Or.inl hx
    · cases List.mem_singleton.mp hx
      exact Or.inr ⟨hf, hid⟩
  | settle native hr hc =>
    rcases List.mem_append.mp hx with hx | hx
    · exact Or.inl (List.mem_append_left _ hx)
    · exact Or.inl (List.mem_append_right _ (List.mem_cons_of_mem _ hx))
  | _ => exact Or.inl hx

theorem Step.sound (h : Step f more g) (hs : Sound ids nonce f notes) :
    Sound ids nonce g (notes ++ more) where
  ledger := h.ledger hs.ledger
  index := (h.writes hs.ledger.undelayed).indexSound hs.index
  orders := by
    have hb : Everywhere (VouchedAmong ids nonce (notes ++ more)) f.desk.book :=
      fun id o ho hid => (hs.orders id o ho hid).mono more
    exact (h.writes hs.ledger.undelayed).everywhere (hs.kept_vouched more) hs.index hb
  findings := by
    intro x hx hid
    rcases h.findings hx with hx | ⟨hf, hfound⟩
    · exact (hs.findings hx hid).mono more
    · obtain ⟨hh, ho⟩ := txHash_of_findByHash? hs.index hf
      have hv := (hs.orders x.order.id x.order ho (hfound ▸ hid)).mono more
      exact hfound ▸ hv.answered x.inquiry.hash hh

theorem Run.sound (h : Run f more g) (hs : Sound ids nonce f notes) :
    Sound ids nonce g (notes ++ more) := by
  induction h with
  | refl => exact (List.append_nil notes).symm ▸ hs
  | snoc _ hstep ih =>
    rw [← List.append_assoc]
    exact hstep.sound ih

/-- If it is the order in question, it has got a hash. -/
def Hashed (id : String) (k : String) (o : Order) : Prop := k = id → ∃ hash, o.txHash = some hash

theorem Hashed.amend {k : String} {u : Update} (h : Hashed id k o) (now : Instant) :
    Hashed id k (o.amend now u) := by
  intro hk
  obtain ⟨hash, hh⟩ := h hk
  cases hu : u.txHash with
  | none => exact ⟨hash, by simp [Order.amend, hu, hh]⟩
  | some other => exact ⟨other, by simp [Order.amend, hu]⟩

theorem lasting_hashed (id : String) : Lasting (Hashed id) where
  missed h _ := h
  stalled h _ := h
  sighted h _ := h
  lapse now _ h _ := h.amend now
  fill now _ _ h _ _ := h.amend now

/-- Once the one request for an order is sent, nobody is about to track its id anew. -/
theorem Sound.kept_hashed (h : Sound ids nonce f notes) (hone : (issuedIds notes).count id ≤ 1)
    (hsent : id ∈ sentIds notes) (more : List Note) : Kept (Hashed id) f more where
  toLasting := lasting_hashed id
  tracked := by
    intro i o hm he
    have hunspent : id ∈ unspent f.placings f.desk.business.sendings :=
      List.mem_append_left _ (List.mem_filterMap.mpr ⟨_, hm, congrArg some he⟩)
    have hpos := List.count_pos_iff.mpr hunspent
    have hpos' := List.count_pos_iff.mpr hsent
    have hle := h.ledger.once id
    omega
  reported now _ _ ho _ := ho.amend now
  settled now _ _ _ ho _ := ho.amend now

theorem mem_sentIds_of_answered (h : Answered notes id hash) : id ∈ sentIds notes := by
  obtain ⟨i, a, hm, _⟩ := h
  exact List.mem_filterMap.mpr ⟨_, hm, rfl⟩

/-- An order that has a hash keeps one as long as it is tracked. -/
theorem Step.hashed (h : Step f more g) (hs : Sound ids nonce f notes)
    (hone : (issuedIds notes).count id ≤ 1) (hsent : id ∈ sentIds notes)
    (hf : Everywhere (Hashed id) f.desk.book) : Everywhere (Hashed id) g.desk.book :=
  (h.writes hs.ledger.undelayed).everywhere (hs.kept_hashed hone hsent more) hs.index hf

theorem Run.hashed (h : Run f more g) (hs : Sound ids nonce f notes)
    (hone : (issuedIds (notes ++ more)).count id ≤ 1) (hsent : id ∈ sentIds notes)
    (hf : Everywhere (Hashed id) f.desk.book) : Everywhere (Hashed id) g.desk.book := by
  induction h with
  | refl => exact hf
  | @snoc g k past last hrun hstep ih =>
    have hsound := hrun.sound hs
    have hpast : (issuedIds (notes ++ past)).count id ≤ 1 := by
      rw [← List.append_assoc, issuedIds_append, List.count_append] at hone
      omega
    have hmem : id ∈ sentIds (notes ++ past) := by
      rw [sentIds_append]
      exact List.mem_append_left _ hsent
    exact hstep.hashed hsound hpast hmem (ih hpast)

/-- One request, one answer. -/
theorem answered_unique {hash' : String} (h : Answered notes id hash) (h' : Answered notes id hash')
    (hone : (sentIds notes).count id ≤ 1) : hash = hash' := by
  obtain ⟨i, a, hm, rfl⟩ := h
  obtain ⟨i', a', hm', rfl⟩ := h'
  obtain ⟨before, after, rfl⟩ := List.append_of_mem hm
  have hnone : id ∉ sentIds (before ++ after) := by
    intro hin
    have hpos := List.count_pos_iff.mpr hin
    have hcons : sentIds (Note.sent id i (.ok a) :: after) = id :: sentIds after := rfl
    rw [sentIds_append, hcons, List.count_append, List.count_cons_self] at hone
    rw [sentIds_append, List.count_append] at hpos
    omega
  have hcases : Note.sent id i' (.ok a') = .sent id i (.ok a) ∨
      Note.sent id i' (.ok a') ∈ before ++ after := by
    rcases List.mem_append.mp hm' with hin | hin
    · exact Or.inr (List.mem_append_left _ hin)
    · exact (List.mem_cons.mp hin).imp_right (List.mem_append_right _)
  rcases hcases with he | hin
  · cases he
    rfl
  · exact (hnone (List.mem_filterMap.mpr ⟨_, hin, rfl⟩)).elim

/-- From a fresh desk, whatever is done and in whatever order: each order that is tracked is as it
should be, its hash is one that a submission of its own was answered with, and the gateway has received
the requests that were noted and no others. No id is handed out twice before the number in it, a 64-bit
word, begins again; and an order whose id is handed out only once has been submitted at most once, and
never loses its hash or gets another one. -/
theorem orders_regular_and_sent_once {s : Settings} {pairs : List Pair} {now : Instant}
    (h : Run (opening s pairs now nonce) notes f) (ho : f.desk.book.find? id = some o)
    (hmore : Run f more g) :
    o.id = id ∧ o.Regular ∧ (∀ hash, o.txHash = some hash → Answered notes id hash) ∧
      f.desk.submitted = notes.filterMap (Note.request? f.desk.settings) ∧
      ((issuedIds (notes ++ more)).length ≤ 2 ^ 64 → (issuedIds (notes ++ more)).Nodup) ∧
      ((issuedIds (notes ++ more)).count id ≤ 1 →
        (sentIds (notes ++ more)).count id ≤ 1 ∧
        ∀ hash, o.txHash = some hash →
          ∀ p, g.desk.book.find? id = some p → p.txHash = some hash) := by
  have hs : Sound (fun _ => True) nonce f notes := h.sound (sound_opening _ s pairs now nonce)
  have hg : Sound (fun _ => True) nonce g (notes ++ more) := hmore.sound hs
  have hv := hs.orders id o ho trivial
  refine ⟨hs.index.keyed ho, hv.regular, hv.answered, hs.ledger.submitted, ?_, ?_⟩
  · exact hg.ledger.issuer.nodup
  · intro hone
    have hsent : (sentIds (notes ++ more)).count id ≤ 1 := by
      have hle := hg.ledger.once id
      omega
    refine ⟨hsent, ?_⟩
    intro hash hh p hp
    have hf : Everywhere (Hashed id) f.desk.book := by
      rintro k q hq rfl
      rw [ho] at hq
      cases hq
      exact ⟨hash, hh⟩
    have hanswered := hv.answered hash hh
    obtain ⟨hash', hh'⟩ :=
      hmore.hashed hs hone (mem_sentIds_of_answered hanswered) hf id p hp rfl
    have hanswered' := (hg.orders id p hp trivial).answered hash' hh'
    rw [hh', answered_unique (hanswered.mono more) hanswered' hsent]

/-- A swap is accepted under a hash, and then a poller charges it. -/
theorem accepted_swap_regular_and_sent_once :
    let s : Settings := .named "c" "n" "x" "w"
    let script := Script.empty.setCall .trade [⟨0, .ok (.record [("txHash", .text "h")])⟩]
    let d : Desk := { (Desk.opening s [] .epoch "").begin with script }
    let i : Instruction := .swap .buy ⟨"A", "B"⟩ .one .one
    let accepted := (d.instruct i).1.poll (.sending 0)
    let charged := accepted.takeOver (accepted.book.markNotFound accepted.now "buy-A-B-0")
    ∃ notes, Run (opening s [] .epoch "") notes ⟨accepted, [], []⟩ ∧
      Answered notes "buy-A-B-0" "h" ∧
      (∃ o, accepted.book.find? "buy-A-B-0" = some o ∧ o.Regular ∧ o.txHash = some "h") ∧
      ∃ p, charged.book.find? "buy-A-B-0" = some p ∧ p.notFound = 1 ∧ p.txHash = some "h" := by
  intro s script d i accepted charged
  have hstart : Run (opening s [] .epoch "") [] ⟨(Desk.opening s [] .epoch "").begin, [], []⟩ :=
    .single (.start rfl)
  have hscript := hstart.snoc (.elapse d.clock d.turns d.now script d.ready)
  have htaken : Run (opening s [] .epoch "") _
      ⟨d, [] ++ [.admitted i ⟨.trade, .buy, ⟨"A", "B"⟩, .one, .one⟩], []⟩ :=
    hscript.snoc (.takeOn rfl)
  have hnamed := htaken.snoc (.name i _)
  have htracked := hnamed.snoc (.track i _ rfl)
  have hsubmitted := htracked.snoc (.submit i _ _)
  have hrun := hsubmitted.snoc (.turn (.sending 0))
  have haccepted : Run (opening s [] .epoch "") _ ⟨accepted, [], []⟩ := hrun
  have hmore : Run ⟨accepted, [], []⟩ [] ⟨charged, [], []⟩ := .single (.charge "buy-A-B-0")
  have hmap : (accepted.book.find? "buy-A-B-0").map (·.txHash) = some (some "h") := by
    decide +kernel
  have hmap' : (charged.book.find? "buy-A-B-0").map (·.notFound) = some 1 := by
    decide +kernel
  obtain ⟨o, ho, hh⟩ := Option.map_eq_some_iff.mp hmap
  obtain ⟨p, hp, hc⟩ := Option.map_eq_some_iff.mp hmap'
  obtain ⟨_, hregular, hanswered, _, _, hkept⟩ := orders_regular_and_sent_once haccepted ho hmore
  have hone := (hkept (by decide +kernel)).2 "h" hh p hp
  exact ⟨_, haccepted, hanswered "h" hh, ⟨o, ho, hregular, hh⟩, p, hp, hc, hone⟩

theorem Leads.regular {s : Settings} {pairs : List Pair} {now : Instant} {d : Desk}
    (h : Leads (.opening s pairs now nonce) d) (ho : d.book.find? id = some o) : o.Regular := by
  obtain ⟨notes, hrun⟩ := h [] []
  have hs := hrun.sound (sound_opening (fun _ => True) s pairs now nonce)
  exact (hs.orders id o ho trivial).regular

/-- The desk's own order of turns is no exception. -/
theorem regular_after_deeds (s : Settings) (pairs : List Pair) (now : Instant) (nonce : String)
    (deeds : List Deed) :
    Everywhere (fun _ o => o.Regular) (deeds.foldl afterDeed (.opening s pairs now nonce)).book :=
  fun _ _ ho => (leads_deeds deeds _).regular ho

end SwapDesk.Floor
