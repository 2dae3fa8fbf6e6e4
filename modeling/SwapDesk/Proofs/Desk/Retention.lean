import SwapDesk.Proofs.Desk.Traffic

/-! The hash of an accepted transaction. When the submission of an order that is still active ends with a
hash, the order gets it and keeps it. An order that was given up as lost before remains lost: the hash
comes too late. -/
namespace SwapDesk

namespace Desk

variable {d : Desk} {s : Sending}

/-- Serials tell which submission it is that goes on. -/
theorem poll_sending (hn : (d.sendings.map (·.serial)).Nodup) (hs : s ∈ d.sendings) :
    d.poll (.sending s.serial) = d.pollSending s := by
  obtain ⟨l, l', hsplit, hdiff⟩ := exists_split hn hs
  have hfind : d.sendings.find? (·.serial = s.serial) = some s := by
    rw [hsplit, List.find?_append, List.find?_eq_none.mpr]
    · simp
    · intro t ht
      simpa using hdiff t (List.mem_append_left l' ht)
  simp only [poll, hfind]

/-- A submission that is over has reported to the book. -/
theorem book_pollSending_of_over (hs : s ∈ d.sendings)
    (hover : ∀ t ∈ (d.pollSending s).sendings, t.serial ≠ s.serial) :
    (d.pollSending s).book =
      (d.book.update d.now (submissionReport s.order s.kind (d.replyTo s))).book := by
  have hstays : ∀ a, s.answered a ∈ SwapDesk.answer d.sendings s.serial a := by
    intro a
    exact List.mem_map.mpr ⟨s, hs, if_pos rfl⟩
  cases hr : s.reply with
  | none =>
    simp only [pollSending, hr, replyTo] at hover ⊢
    split at hover
    · rename_i hpast
      rw [if_pos hpast]
      exact book_finishSending (d.send s).1 s _
    · exact (hover _ (hstays _) rfl).elim
  | some a =>
    simp only [pollSending, hr, replyTo] at hover ⊢
    split at hover
    · rename_i hpast
      rw [if_pos hpast]
      exact book_finishSending d s a.reply
    · exact (hover _ (hstays a) rfl).elim

end Desk

namespace Floor

open Book

variable {ids : String → Prop} {nonce id hash : String} {f g : Floor} {notes more : List Note}
  {o p : Order} {x : Sending} {a : Accepted}

/-- The hash that a submission ends with goes to its order if the order is active. -/
theorem Sound.accepted (h : Sound ids nonce f notes) (hids : ids x.order)
    (hx : x ∈ f.desk.sendings) (ha : f.desk.replyTo x = .ok a)
    (hover : ∀ y ∈ (f.desk.poll (.sending x.serial)).sendings, y.serial ≠ x.serial)
    (ho : f.desk.book.find? x.order = some o) (hopen : o.state.isTerminal = false) :
    ∃ p, (f.desk.poll (.sending x.serial)).book.find? x.order = some p ∧
      p.txHash = some a.hash := by
  have hv := h.orders x.order o ho hids
  have hkind : x.kind = o.kind := (h.ledger.kinds x hx).kind_eq hv.named
  rw [Desk.poll_sending h.ledger.serials hx] at hover ⊢
  rw [Desk.book_pollSending_of_over hx hover, ha, hkind,
    update_of_canStep (u := submissionReport x.order o.kind (.ok a)) ho
      (hv.regular.canStep_accepted hopen)]
  exact ⟨_, Dict.find?_insert_self .., rfl⟩

/-- A terminal order takes no notice of the report. -/
theorem find?_poll_of_terminal (h : Sound ids nonce f notes) (hx : x ∈ f.desk.sendings)
    (ho : f.desk.book.find? x.order = some o) (hterminal : o.state.isTerminal = true) :
    (f.desk.poll (.sending x.serial)).book.find? x.order = some o := by
  rw [Desk.poll_sending h.ledger.serials hx]
  rcases Desk.book_pollSending f.desk x with hb | hb
  · rw [hb]
    exact ho
  · have hid : (submissionReport x.order x.kind (f.desk.replyTo x)).order = x.order := by
      cases f.desk.replyTo x <;> rfl
    have hrefused : ∀ p,
        f.desk.book.find? (submissionReport x.order x.kind (f.desk.replyTo x)).order = some p →
        p.state.canStep (submissionReport x.order x.kind (f.desk.replyTo x)).state = false := by
      intro p hp
      rw [hid, ho] at hp
      cases hp
      simp [OrderState.canStep, hterminal]
    obtain ⟨outcome, hu, _⟩ := update_of_refused f.desk.now hrefused
    rw [hb, hu]
    exact ho

/-- Whatever others do to other orders, an order that has a hash keeps one. -/
theorem Traffic.hashed (h : Traffic (Command.Spares id) f more g)
    (hs : Sound (· = id) nonce f notes) (hone : (issuedIds (notes ++ more)).count id ≤ 1)
    (hsent : id ∈ sentIds notes) (hf : Everywhere (Hashed id) f.desk.book) :
    Everywhere (Hashed id) g.desk.book := by
  induction h with
  | refl => exact hf
  | @step g k past last htraffic hstep ih =>
    have hsound := htraffic.sound (fun _ _ hc => hc.respects _) hs
    have hpast : (issuedIds (notes ++ past)).count id ≤ 1 := by
      rw [← List.append_assoc, issuedIds_append, List.count_append] at hone
      omega
    have hmem : id ∈ sentIds (notes ++ past) := by
      rw [sentIds_append]
      exact List.mem_append_left _ hsent
    exact hstep.hashed hsound hpast hmem (ih hpast)
  | @command g notes c _ hc ih =>
    have hb := (lasting_hashed id).perform (ih hone) g.desk.now (hc.respects _)
    exact (Desk.book_commit ..).symm ▸ hb

/-- What was noted of the requests of an order determines its hash once it has one. -/
theorem Traffic.txHash_eq (h : Traffic (Command.Spares id) f more g)
    (hs : Sound (· = id) nonce f notes) (hone : (issuedIds (notes ++ more)).count id ≤ 1)
    (hanswered : Answered notes id hash)
    (ho : ∀ o, f.desk.book.find? id = some o → o.txHash = some hash)
    (hp : g.desk.book.find? id = some p) : p.txHash = some hash := by
  have hg := h.sound (fun _ _ hc => hc.respects _) hs
  have hf : Everywhere (Hashed id) f.desk.book := by
    rintro k o hk rfl
    exact ⟨hash, ho o hk⟩
  obtain ⟨hash', hh⟩ := h.hashed hs hone (mem_sentIds_of_answered hanswered) hf id p hp rfl
  have hsent : (sentIds (notes ++ more)).count id ≤ 1 := by
    have hle := hg.ledger.once id
    omega
  rw [hh, answered_unique (hanswered.mono more) ((hg.orders id p hp rfl).answered hash' hh) hsent]

/-- From a fresh desk, while submissions, polling passes and callers take their turns and others do what
they like to other orders: when the submission of an order comes to its end with a hash, and the order is
tracked and still active, it has got this hash and keeps it for as long as it is tracked. An order that is
terminal by then stays as it is. No more ids are handed out than there are numbers for. -/
theorem accepted_hash_stays {s : Settings} {pairs : List Pair} {now : Instant}
    (h : Traffic (Command.Spares x.order) (opening s pairs now nonce) notes f)
    (hx : x ∈ f.desk.sendings) (ha : f.desk.replyTo x = .ok a)
    (hover : ∀ y ∈ (f.desk.poll (.sending x.serial)).sendings, y.serial ≠ x.serial)
    (ho : f.desk.book.find? x.order = some o) :
    let ended : Floor := { f with desk := f.desk.poll (.sending x.serial) }
    let noted := notes ++ f.desk.notes (.sending x.serial)
    (o.state.isTerminal = false →
      (∃ p, ended.desk.book.find? x.order = some p ∧ p.txHash = some a.hash) ∧
      ∀ more g, Traffic (Command.Spares x.order) ended more g →
        (issuedIds (noted ++ more)).length ≤ 2 ^ 64 →
        ∀ p, g.desk.book.find? x.order = some p → p.txHash = some a.hash) ∧
    (o.state.isTerminal = true → ended.desk.book.find? x.order = some o) := by
  intro ended noted
  have hs : Sound (· = x.order) nonce f notes :=
    h.sound (fun _ _ hc => hc.respects _) (sound_opening _ s pairs now nonce)
  have hturn : Step f (f.desk.notes (.sending x.serial)) ended := .turn (.sending x.serial)
  have hended : Sound (· = x.order) nonce ended noted := hturn.sound hs
  refine ⟨?_, find?_poll_of_terminal hs hx ho⟩
  intro hopen
  obtain ⟨p, hp, hh⟩ := hs.accepted rfl hx ha hover ho hopen
  refine ⟨⟨p, hp, hh⟩, ?_⟩
  intro more g hmore hfew q hq
  have hg := hmore.sound (fun _ _ hc => hc.respects _) hended
  have hone := List.nodup_iff_count_le_one.mp (hg.ledger.issuer.nodup hfew) x.order
  have hanswered := (hended.orders x.order p hp rfl).answered a.hash hh
  apply hmore.txHash_eq hended hone hanswered _ hq
  intro o' ho'
  rw [hp] at ho'
  cases ho'
  exact hh

/-- A swap is accepted under a hash. Then somebody takes back a kept order, and a poller charges the
swap. -/
theorem hash_of_accepted_swap_stays :
    let s : Settings := .named "c" "n" "x" "w"
    let script := Script.empty.setCall .trade [⟨0, .ok (.record [("txHash", .text "h")])⟩]
    let d : Desk := { (Desk.opening s [] .epoch "").begin with script }
    let placed := (d.instruct (.swap .buy ⟨"A", "B"⟩ .one .one)).1
    let restored := ((placed.poll (.sending 0)).restore (.ofList [("b", .sample "b")])).1
    let charged := restored.takeOver (restored.book.markNotFound restored.now "buy-A-B-0")
    (∃ o, placed.book.find? "buy-A-B-0" = some o ∧ o.txHash = none) ∧
      ∃ p, charged.book.find? "buy-A-B-0" = some p ∧ p.notFound = 1 ∧ p.txHash = some "h" := by
  intro s script d placed restored charged
  let i : Instruction := .swap .buy ⟨"A", "B"⟩ .one .one
  have hstart : Run (opening s [] .epoch "") [] ⟨(Desk.opening s [] .epoch "").begin, [], []⟩ :=
    .single (.start rfl)
  have hscript := hstart.snoc (.elapse d.clock d.turns d.now script d.ready)
  have htaken : Run (opening s [] .epoch "") _
      ⟨d, [] ++ [.admitted i ⟨.trade, .buy, ⟨"A", "B"⟩, .one, .one⟩], []⟩ :=
    hscript.snoc (.takeOn rfl)
  have hsubmitted := ((htaken.snoc (.name i _)).snoc (.track i _ rfl)).snoc (.submit i _ _)
  have hplaced : Run (opening s [] .epoch "") _ ⟨placed, [], []⟩ := hsubmitted
  obtain ⟨x, hx, hname⟩ := List.mem_map.mp
    (show ("buy-A-B-0", 0) ∈ placed.sendings.map fun y => (y.order, y.serial) by decide +kernel)
  obtain ⟨hid, hserial⟩ := Prod.mk.inj hname
  have hreply : ∀ y ∈ placed.sendings, (placed.replyTo y).toOption.map (·.hash) = some "h" := by
    decide +kernel
  obtain ⟨a, hsome, hh⟩ := Option.map_eq_some_iff.mp (hreply x hx)
  have ha : placed.replyTo x = .ok a := by
    cases hr : placed.replyTo x with
    | error cause => simp [hr, Except.toOption] at hsome
    | ok a' =>
      rw [hr] at hsome
      cases hsome
      rfl
  have hsendings : (placed.poll (.sending 0)).sendings = [] :=
    List.isEmpty_iff.mp (by decide +kernel)
  have hmap : (placed.book.find? "buy-A-B-0").map (fun o => (o.state.isTerminal, o.txHash)) =
      some (false, none) := by
    decide +kernel
  obtain ⟨o, ho, hnew⟩ := Option.map_eq_some_iff.mp hmap
  obtain ⟨hopen, hnone⟩ := Prod.mk.inj hnew
  have hkept : "buy-A-B-0" ∉ (Dict.ofList [("b", Order.sample "b")]).keys := by decide +kernel
  have hmore : Traffic (Command.Spares "buy-A-B-0") ⟨placed.poll (.sending 0), [], []⟩ _
      ⟨charged, [], []⟩ := .step (traffic_restore _ [] [] hkept) (.charge "buy-A-B-0")
  have hcharged : (charged.book.find? "buy-A-B-0").map (·.notFound) = some 1 := by
    decide +kernel
  obtain ⟨p, hp, hcount⟩ := Option.map_eq_some_iff.mp hcharged
  rw [← hid, ← hserial] at hmore
  obtain ⟨hstays, _⟩ := accepted_hash_stays hplaced.traffic hx ha (by simp [hserial, hsendings])
    (hid ▸ ho)
  obtain ⟨_, hstays⟩ := hstays hopen
  have hhash := hstays _ _ hmore (by rw [hserial]; decide +kernel) p (hid ▸ hp)
  exact ⟨⟨o, ho, hnone⟩, p, hp, hcount, hh ▸ hhash⟩

/-- Valid settings under which one missing hash is enough. A swap is submitted, the gateway takes its
time, and a pass gives the swap up as lost; the hash that the submission ends with is not taken. A copy
of an order from before its hash came, taken back later, has the order without its hash again. -/
theorem late_hash_is_ignored :
    let s : Settings :=
      { Settings.named "c" "n" "x" "w" with notFoundLimit := 1, hashWait := 100 }
    let script := Script.empty.setCall .trade [⟨5000, .ok (.record [("txHash", .text "h")])⟩]
    let d : Desk := { (Desk.opening s [] .epoch "").begin with script }
    let sent := (d.instruct (.swap .buy ⟨"A", "B"⟩ .one .one)).1.poll (.sending 0)
    let cycle := (((sent.poll .loop).poll .ticker).poll .loop).poll .loop
    let late := { ({ cycle with clock := 100 }).poll .loop with clock := 5000 }
    let ended := late.poll (.sending 0)
    let accepted := { sent with clock := 5000 }.poll (.sending 0)
    let restored := (accepted.restore sent.book.orders).1
    s.validate = .ok () ∧
      (∃ notes, Run (opening s [] .epoch "") notes ⟨late, [], []⟩) ∧
      late.sendings.map (fun x => (x.order, (late.replyTo x).toOption.map (·.hash))) =
        [("buy-A-B-0", some "h")] ∧
      ended.sendings.isEmpty = true ∧
      (ended.book.find? "buy-A-B-0").map (fun o => (o.state, o.failure, o.txHash)) =
        some (.failed, some lostReason, none) ∧
      (accepted.book.find? "buy-A-B-0").map (·.txHash) = some (some "h") ∧
      (restored.book.find? "buy-A-B-0").map (·.txHash) = some none := by
  intro s script d sent cycle late ended accepted restored
  have hstart : Run (opening s [] .epoch "") [] ⟨(Desk.opening s [] .epoch "").begin, [], []⟩ :=
    .single (.start rfl)
  have hscript := hstart.snoc (.elapse d.clock d.turns d.now script d.ready)
  have hsent : Leads d sent := (leads_instruct d _).trans (leads_poll _ _)
  have hcycle : Leads sent cycle := (((leads_poll sent .loop).trans (leads_poll _ .ticker)).trans
    (leads_poll _ .loop)).trans (leads_poll _ .loop)
  have hlost := (leads_elapse cycle 100 cycle.turns cycle.ready).trans (leads_poll _ .loop)
  have hlate : Leads cycle late := hlost.trans (leads_elapse _ 5000 _ _)
  obtain ⟨notes, hrun⟩ := (hsent.trans (hcycle.trans hlate)) [] []
  refine ⟨by decide +kernel, ⟨_, hscript.trans hrun⟩, ?_⟩
  decide +kernel

end Floor
end SwapDesk
