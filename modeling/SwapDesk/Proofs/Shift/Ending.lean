import SwapDesk.Launch
import SwapDesk.Proofs.Order.Kept
import SwapDesk.Proofs.Shift.Fates

/-! From the launch to the end of a shift while the gateway cannot be reached. The file left behind has the
orders that were kept before; and if those cannot be read, it stays as it was. -/
namespace SwapDesk

theorem eq_ok_of_mapError {α ε ε' : Type} {f : ε → ε'} {x : Except ε α} {a : α}
    (h : x.mapError f = .ok a) : x = .ok a := by
  cases x with
  | error e => cases h
  | ok b =>
    cases h
    rfl

theorem ok_of_toOption {α ε : Type} {x : Except ε α} {a : α} (h : x.toOption = some a) : x = .ok a := by
  cases x with
  | error e => cases h
  | ok b =>
    cases h
    rfl

theorem fromUTF8?_toUTF8 (text : String) : String.fromUTF8? text.toUTF8 = some text :=
  dif_pos text.isValidUTF8

/-! ### The launch and the end -/

/-- The settings and the kept orders are accepted. -/
structure Setup.Accepted (u : Setup) (kept : Orders) : Prop where
  source : u.source.isSome = true
  settings : ∃ settings pairs,
    Settings.ofBytes u.settings = .ok settings ∧ settings.tradingPairs = .ok pairs
  kept : u.kept = .ok kept

/-- The kept orders are a text too. -/
def Launch.Accepted (l : Launch) (kept : Orders) : Prop :=
  ∃ records, l.records = .ok records ∧ (l.setup records).Accepted kept

/-- The file of the kept orders, if there is one. -/
def Launch.file (l : Launch) : Option ByteArray := l.kept.bind (·.bytes)

/-- The replies that the gateway has for a shift. -/
def Shift.facing (s : Shift) (script : Script) : Shift := { s with desk := { s.desk with script } }

/-- How the program ends: whether it has failed, and the file of the kept orders then. -/
structure Ending where
  failed : Bool
  file : Option ByteArray

def Launch.ending (l : Launch) (script : Script) (now : Instant) (nonce : String)
    (moves : List Move) : Ending :=
  match l.start now nonce with
  | .error _ => ⟨true, l.file⟩
  | .ok s => ⟨false, ((s.facing script).run moves).close.records.map String.toUTF8⟩

/-- A round found the order outdated. -/
def Shift.Purged (s : Shift) (moves : List Move) (p : Order) : Prop :=
  ∃ earlier later, moves = earlier ++ .round :: later ∧
    (s.run earlier).desk.book.find? p.id = some p ∧
    p.updatedAt.IsOutdated (s.run earlier).desk.now

/-- What is left of kept orders. -/
structure Orders.Outlive (kept : Orders) (purged : Order → Prop) (left : Orders) : Prop where
  known : ∀ id, kept.find? id = none → left.find? id = none
  submitted : ∀ id o, kept.find? id = some o → o.state.isTerminal = false → o.txHash.isSome = true →
    left.find? id = some { o with id }
  terminal : ∀ id o, kept.find? id = some o → o.state.isTerminal = true →
    left.find? id = some { o with id } ∨ left.find? id = none ∧ purged { o with id }
  hashless : ∀ id o, kept.find? id = some o → o.state.isTerminal = false → o.txHash = none →
    (∃ n, left.find? id = some { o with id, notFound := n }) ∨
    ∃ n now, ∃ lost : Order, lost = { o with
        id, notFound := n, state := .failed, failure := some lostReason, updatedAt := now } ∧
      (left.find? id = some lost ∨ left.find? id = none ∧ purged lost)

/-! ### The desk -/

/-- The order was kept without a hash. -/
def Orders.Hashless (kept : Orders) (id : String) : Prop :=
  ∃ o, kept.find? id = some o ∧ o.txHash = none

namespace Desk

variable {bare : String → Prop} {d : Desk}

theorem silent_opening (settings : Settings) (pairs : List Pair) (now : Instant) (nonce : String)
    (bare : String → Prop) : (opening settings pairs now nonce).Silent bare where
  script := Script.silent_empty
  sendings := rfl
  delays := rfl
  loop := by rintro _ _ _ ⟨⟩
  errand := by rintro _ ⟨⟩
  orders := Book.everywhere_fresh _

theorem Silent.readFeed (h : d.Silent bare) (feed : Feed) : Idles bare d { d with feed } :=
  h.of_eq rfl rfl rfl rfl h.loop h.errand

theorem Silent.checkNetwork (h : d.Silent bare) : Idles bare d d.checkNetwork.1 := by
  have hask : Idles bare d (d.ask .ping).1 := h.ask rfl
  exact hask.trans (hask.silent.await (e := .ping (d.ask .ping).2) (by rintro _ ⟨⟩))

theorem Silent.begin (h : d.Silent bare) : Idles bare d d.begin :=
  h.of_eq rfl rfl rfl rfl (by rintro _ _ _ ⟨⟩) h.errand

theorem book_begin (d : Desk) : d.begin.book = d.book := rfl

theorem Silent.finish (h : d.Silent bare) : Idles bare d d.finish := by
  have hdown : Idles bare d { d with running := false, shutdown := ⟨true, false⟩ }.enqueue :=
    h.of_eq rfl rfl rfl rfl h.loop h.errand
  exact hdown.trans (hdown.silent.await (e := .workers) (by rintro _ ⟨⟩))

theorem Silent.restore (h : d.Silent bare) {kept : Orders}
    (hb : Book.Everywhere (Book.Bare bare) (d.book.restore kept).1) :
    (d.restore kept).1.Silent bare ∧ (d.restore kept).1.book = (d.book.restore kept).1 := by
  have hcommit := h.commit hb [] (0 < (d.book.restore kept).2)
  unfold Desk.restore
  dsimp only
  split
  · exact ⟨hcommit.wake.silent.enqueue.silent, (book_wake _).trans (book_commit ..)⟩
  · exact ⟨hcommit.enqueue.silent, book_commit ..⟩

theorem Silent.command_purge (h : d.Silent bare) (age : Int) :
    (d.command (.purge age)).1.Silent bare :=
  (h.commit (h.orders.purge d.now age) _ _).enqueue.silent

end Desk

/-- In a new book there is nothing to charge. -/
theorem Book.charged_fresh {bare : String → Prop} {b : Book} {limits : Limits}
    (h : Charged bare (fresh limits) b) : b = fresh limits := by
  induction h with
  | refl => rfl
  | charge _ now _ ih =>
    subst ih
    rfl

theorem Book.bare_restore (limits : Limits) (kept : Orders) :
    Everywhere (Bare kept.Hashless) ((fresh limits).restore kept).1 := by
  refine Everywhere.restoreFrom (everywhere_fresh limits) fun id o ho => ⟨rfl, fun hh => ?_⟩
  exact ⟨o, kept.mem_entries_iff.mp ho, hh⟩

/-! ### The opening -/

namespace Shift

variable {u : Setup} {s : Shift} {kept : Orders} {now : Instant} {nonce : String}
  {moves : List Move} {purged : Order → Prop} {m : Move}

/-- The desk of a new shift, before the kept orders are taken back. -/
def openedDesk (settings : Settings) (pairs : List Pair) (now : Instant) (nonce : String) : Desk :=
  let d := Desk.opening settings pairs now nonce
  { d with feed := d.feed.subscribe reader }.checkNetwork.1

theorem start_of_accepted (h : u.Accepted kept) (now : Instant) (nonce : String) :
    ∃ settings pairs, start u now nonce =
      .ok ⟨((openedDesk settings pairs now nonce).restore kept).1.begin, u.keeping, u.records, []⟩ := by
  obtain ⟨settings, pairs, hsettings, hpairs⟩ := h.settings
  have hopen : Desk.ofSettings settings now nonce = .ok (.opening settings pairs now nonce) := by
    rw [Desk.ofSettings, hpairs]
    rfl
  have hsource : u.source.isNone = false := by
    rw [← Option.not_isSome, h.source]
    rfl
  refine ⟨settings, pairs, ?_⟩
  unfold start
  rw [hsource, hsettings, h.kept]
  simp only [Except.mapError, bind, Except.bind, hopen]
  rfl

/-- A shift opens only if the settings and the kept orders are accepted. -/
theorem accepted_of_start (h : start u now nonce = .ok s) : ∃ kept, u.Accepted kept := by
  unfold start at h
  split at h
  · cases h
  · rename_i hsource
    rw [bind_eq_ok] at h
    obtain ⟨settings, hsettings, h⟩ := h
    rw [bind_eq_ok] at h
    obtain ⟨d, hd, h⟩ := h
    rw [bind_eq_ok] at h
    obtain ⟨kept, hkept, _⟩ := h
    obtain ⟨pairs, hpairs, _⟩ := bind_eq_ok.mp (eq_ok_of_mapError hd)
    refine ⟨kept, ?_, ⟨settings, pairs, eq_ok_of_mapError hsettings, hpairs⟩, hkept⟩
    rwa [← Option.not_isSome, Bool.not_eq_true', Bool.not_eq_false] at hsource

/-- A desk that was opened has a new book and is silent. -/
theorem silent_openedDesk (settings : Settings) (pairs : List Pair) (now : Instant) (nonce : String)
    (bare : String → Prop) :
    (openedDesk settings pairs now nonce).Silent bare ∧
      (openedDesk settings pairs now nonce).book = .fresh settings.limits := by
  have hopening := Desk.silent_opening settings pairs now nonce bare
  have hread := hopening.readFeed ((Desk.opening settings pairs now nonce).feed.subscribe reader)
  have hopened := hread.trans hread.silent.checkNetwork
  exact ⟨hopened.silent, Book.charged_fresh hopened.charged⟩

/-! ### The moves -/

/-- The orders in the book are the kept ones, and the desk is silent. -/
structure Holds (kept : Orders) (purged : Order → Prop) (s : Shift) : Prop where
  silent : s.desk.Silent kept.Hashless
  orders : s.desk.book.Holds kept purged

theorem holds_start (h : u.Accepted kept) (now : Instant) (nonce : String) :
    ∃ s, start u now nonce = .ok s ∧ (∀ purged, s.Holds kept purged) ∧ s.keeping = u.keeping := by
  obtain ⟨settings, pairs, hstart⟩ := start_of_accepted h now nonce
  obtain ⟨hopened, hfresh⟩ := silent_openedDesk settings pairs now nonce kept.Hashless
  have hbare := Book.bare_restore settings.limits kept
  rw [← hfresh] at hbare
  obtain ⟨hrestored, hbook⟩ := hopened.restore hbare
  refine ⟨_, hstart, fun purged => ⟨hrestored.begin.silent, ?_⟩, rfl⟩
  have horders : ((Book.fresh settings.limits).restore kept).1.Holds kept purged :=
    Book.holds_restore settings.limits kept
  rwa [← hfresh, ← hbook, ← Desk.book_begin] at horders

theorem Holds.facing (h : s.Holds kept purged) {script : Script} (hs : script.Silent) :
    (s.facing script).Holds kept purged where
  silent := ⟨hs, h.silent.sendings, h.silent.delays, h.silent.loop, h.silent.errand, h.silent.orders⟩
  orders := h.orders

theorem Holds.idles (h : s.Holds kept purged) {d : Desk} (hd : Desk.Idles kept.Hashless s.desk d) :
    { s with desk := d }.Holds kept purged :=
  ⟨hd.silent, h.orders.charged hd.charged⟩

theorem Holds.readFeed (h : s.Holds kept purged) : s.readFeed.Holds kept purged := by
  unfold Shift.readFeed
  split
  · exact ⟨(h.silent.readFeed _).silent, h.orders⟩
  · exact h

theorem Holds.keep (h : s.Holds kept purged) : s.keep.Holds kept purged := by
  unfold Shift.keep
  split
  · exact ⟨h.silent, h.orders⟩
  · exact h

theorem Holds.round (h : s.Holds kept purged)
    (hp : ∀ p, s.desk.book.find? p.id = some p → p.updatedAt.IsOutdated s.desk.now → purged p) :
    s.round.Holds kept purged := by
  let e := s.desk.book.perform s.desk.now (.purge retention)
  have hpurge : e.book.Holds kept purged := h.orders.purge fun id p hf hold => by
    obtain ⟨rfl, _⟩ := h.silent.orders id p hf
    exact hp p hf hold
  have hbook : (s.desk.command (.purge retention)).1.book = e.book := Desk.book_commit ..
  exact Holds.keep ⟨h.silent.command_purge retention, hbook.symm ▸ hpurge⟩

theorem Holds.step (h : s.Holds kept purged)
    (hp : m = .round → ∀ p, s.desk.book.find? p.id = some p →
      p.updatedAt.IsOutdated s.desk.now → purged p) : (s.step m).Holds kept purged := by
  cases m with
  | turn a =>
    unfold Shift.step
    dsimp only
    split
    · exact (h.idles (h.silent.poll a)).readFeed
    · exact h
  | pass wait now => exact h.idles (h.silent.elapse (s.desk.clock + wait) now s.desk.ready)
  | round => exact h.round (hp rfl)

theorem Purged.cons {p : Order} (h : (s.step m).Purged moves p) : s.Purged (m :: moves) p := by
  obtain ⟨earlier, later, rfl, hfound, hold⟩ := h
  exact ⟨m :: earlier, later, rfl, hfound, hold⟩

theorem Holds.run (h : s.Holds kept purged) (hp : ∀ p, s.Purged moves p → purged p) :
    (s.run moves).Holds kept purged := by
  induction moves generalizing s with
  | nil => exact h
  | cons m moves ih =>
    have hstep : (s.step m).Holds kept purged := h.step <| by
      rintro rfl p hfound hold
      exact hp p ⟨[], moves, rfl, hfound, hold⟩
    exact ih hstep fun p hpurged => hp p hpurged.cons

/-- A shift that is left alone makes moves like any other. -/
theorem exists_run_workUntil (s : Shift) (text : Option String) :
    ∃ moves, s.workUntil text = s.run moves := by
  have hwork : ∀ goOn n (s : Shift), ∃ moves, workWhile goOn n s = s.run moves := by
    intro goOn n
    induction n with
    | zero => exact fun s => ⟨[], rfl⟩
    | succ n ih =>
      intro s
      unfold workWhile
      split
      · obtain ⟨moves, hmoves⟩ := ih (s.step s.next)
        exact ⟨s.next :: moves, hmoves⟩
      · exact ⟨[], rfl⟩
  exact hwork _ _ s

theorem Holds.close (h : s.Holds kept purged) : s.close.Holds kept purged :=
  (h.idles h.silent.finish).readFeed.keep

theorem keeping_readFeed (s : Shift) : s.readFeed.keeping = s.keeping := by
  unfold readFeed
  split <;> rfl

theorem keeping_keep (s : Shift) : s.keep.keeping = s.keeping := by
  unfold keep
  split <;> rfl

theorem keeping_step (s : Shift) (m : Move) : (s.step m).keeping = s.keeping := by
  cases m with
  | turn a =>
    unfold step
    dsimp only
    split
    · exact keeping_readFeed _
    · rfl
  | pass wait now => rfl
  | round => exact keeping_keep _

theorem keeping_run (s : Shift) (moves : List Move) : (s.run moves).keeping = s.keeping := by
  induction moves generalizing s with
  | nil => rfl
  | cons m moves ih => exact (ih (s.step m)).trans (keeping_step s m)

/-- A shift that keeps orders keeps those that it has when it is closed. -/
theorem records_close (h : s.keeping.isSome = true) :
    s.close.records = some s.close.desk.book.orders.toText := by
  have hkeeping : { s with desk := s.desk.finish }.readFeed.keeping.isSome = true := by
    rw [keeping_readFeed]
    exact h
  unfold close keep
  rw [if_pos hkeeping]

end Shift

/-! ### The file left behind -/

namespace Book

variable {b : Book} {kept : Orders} {purged : Order → Prop}

/-- The fates of orders, by what the orders were like. -/
theorem Holds.outlive (h : b.Holds kept purged) : kept.Outlive purged b.orders where
  known := h.absent
  submitted := by
    intro id o ho ha hh
    obtain ⟨p, hp, hfound⟩ := (h.fate id o ho).persists
    cases hp.eq_of_settled (.inr hh)
    rcases hfound with hfound | ⟨_, ht, _⟩
    · exact hfound
    · exact absurd (ht.symm.trans ha) Bool.noConfusion
  terminal := by
    intro id o ho ht
    obtain ⟨p, hp, hfound⟩ := (h.fate id o ho).persists
    cases hp.eq_of_settled (.inl ht)
    exact hfound.imp_right fun ⟨hnone, _, hpurged⟩ => ⟨hnone, hpurged⟩
  hashless := by
    intro id o ho ha hh
    obtain ⟨p, hp, hfound⟩ := (h.fate id o ho).persists
    have hactive : p.state.isTerminal = false → b.find? id = some p := fun hactive =>
      hfound.resolve_right fun ⟨_, ht, _⟩ => Bool.noConfusion (ht.symm.trans hactive)
    cases hp with
    | same => exact .inl ⟨o.notFound, hactive ha⟩
    | counted _ _ n => exact .inl ⟨n, hactive ha⟩
    | lost _ _ n now =>
      exact .inr ⟨n, now, _, rfl, hfound.imp_right fun ⟨hnone, _, hpurged⟩ => ⟨hnone, hpurged⟩⟩

/-- The orders are read back from their text if the kept ones can be. -/
theorem Holds.readable (h : b.Holds kept purged)
    (hk : ∀ id o, kept.find? id = some o → o.pair.Canonical ∧ o.extras.Storable) :
    Orders.ofText b.orders.toText = .ok b.orders := by
  have hall : ∀ id p, b.orders.find? id = some p → p.pair.Canonical ∧ p.extras.Storable := by
    intro id p hp
    change b.find? id = some p at hp
    cases ho : kept.find? id with
    | none =>
      rw [h.absent id ho] at hp
      cases hp
    | some o =>
      have hfate := h.fate id o ho
      rw [hp] at hfate
      cases hfate with
      | present hpersists =>
        obtain ⟨hpair, hextras⟩ := hpersists.same_pair
        rw [hpair, hextras]
        exact hk id o ho
  exact (Orders.ofText_toText_iff fun id p hp => (hall id p hp).2).mpr fun id p hp => (hall id p hp).1

end Book

/-- Kept orders come from a text. -/
theorem Setup.storable_of_kept {u : Setup} {kept : Orders} (h : u.kept = .ok kept)
    (hfree : ∀ id o, kept.find? id = some o → o.extras.FloatFree) :
    ∀ id o, kept.find? id = some o → o.pair.Canonical ∧ o.extras.Storable := by
  intro id o ho
  unfold Setup.kept at h
  split at h
  · obtain ⟨hpair, hextras⟩ := Orders.storable_of_ofText (eq_ok_of_mapError h) ho
    exact ⟨hpair, hextras (hfree id o ho)⟩
  · cases h
    cases ho

namespace Launch

variable {l : Launch} {kept : Orders} {now : Instant} {nonce : String} {s : Shift}

theorem accepted_of_start (h : l.start now nonce = .ok s) : ∃ kept, l.Accepted kept := by
  unfold start at h
  split at h
  · rename_i records hrecords
    obtain ⟨kept, haccepted⟩ := Shift.accepted_of_start h
    exact ⟨kept, records, hrecords, haccepted⟩
  · obtain ⟨_, _, h⟩ := bind_eq_ok.mp h
    cases h

theorem holds_start (h : l.Accepted kept) (now : Instant) (nonce : String) :
    ∃ s, l.start now nonce = .ok s ∧ (∀ purged, s.Holds kept purged) ∧
      s.keeping = l.kept.map (·.name) := by
  obtain ⟨records, hrecords, haccepted⟩ := h
  obtain ⟨s, hstart, hholds, hkeeping⟩ := Shift.holds_start haccepted now nonce
  refine ⟨s, ?_, hholds, hkeeping⟩
  unfold start
  rw [hrecords]
  exact hstart

/-- A file is accepted if its bytes are a text that orders are read from. -/
theorem accepted_of_text {source name text : String} {bytes : List UInt8} {settings : Settings}
    {pairs : List Pair} (hs : Settings.ofBytes (some bytes) = .ok settings)
    (hp : settings.tradingPairs = .ok pairs) (hk : Orders.ofText text = .ok kept) :
    Accepted ⟨some source, some bytes, some ⟨name, some text.toUTF8⟩⟩ kept := by
  refine ⟨some text, ?_, rfl, ⟨settings, pairs, hs, hp⟩, ?_⟩
  · simp only [records, fromUTF8?_toUTF8]
  · change (Orders.ofText text).mapError (Hindrance.records name) = .ok kept
    rw [hk]
    rfl

/-- The gateway gives no answer but failures, whenever they come and in whatever order things happen until the
program is ended. If the settings or the kept orders are not accepted, it fails and leaves the file as it
was. Otherwise the file left behind can be read, and in it are the kept orders: submitted ones are unchanged;
terminal ones too, as long as they are not outdated in a round; those that have no hash are unchanged but for
their count, or are lost. -/
theorem kept_orders_outlive_silence (l : Launch) {script : Script} (hs : script.Silent)
    (now : Instant) (nonce : String) (moves : List Move) :
    ((∀ kept, ¬l.Accepted kept) → l.ending script now nonce moves = ⟨true, l.file⟩) ∧
    ∀ kept, l.Accepted kept → l.kept.isSome = true →
      (∀ id o, kept.find? id = some o → o.extras.FloatFree) →
      ∃ s bytes text left, l.start now nonce = .ok s ∧
        l.ending script now nonce moves = ⟨false, some bytes⟩ ∧
        String.fromUTF8? bytes = some text ∧ Orders.ofText text = .ok left ∧
        kept.Outlive ((s.facing script).Purged moves) left := by
  constructor
  · intro hnone
    unfold ending
    cases hstart : l.start now nonce with
    | error h => rfl
    | ok s =>
      obtain ⟨kept, hkept⟩ := accepted_of_start hstart
      exact (hnone kept hkept).elim
  · intro kept hkept hfile hfree
    obtain ⟨s, hstart, hopened, hkeeping⟩ := holds_start hkept now nonce
    obtain ⟨_, _, haccepted⟩ := hkept
    let closed := ((s.facing script).run moves).close
    have hkeeps : ((s.facing script).run moves).keeping.isSome = true := by
      rw [Shift.keeping_run]
      change s.keeping.isSome = true
      rw [hkeeping, Option.isSome_map]
      exact hfile
    have hrecords : closed.records = some closed.desk.book.orders.toText := Shift.records_close hkeeps
    have hclosed : closed.Holds kept ((s.facing script).Purged moves) :=
      (((hopened _).facing hs).run fun _ hpurged => hpurged).close
    refine ⟨s, _, _, _, hstart, ?_, fromUTF8?_toUTF8 _,
      hclosed.orders.readable (Setup.storable_of_kept haccepted.kept hfree), hclosed.orders.outlive⟩
    unfold ending
    rw [hstart]
    exact congrArg (fun r => Ending.mk false (r.map String.toUTF8)) hrecords

/-- In the file is an order without a hash, under another key than its id, and not in the form that it is
written in. Between the rounds lies a day. -/
theorem hashless_order_outlives_silence :
    let settings := "chain = 'cardano'\nnetwork = 'preview'\nconnector = 'minswap'\nwallet_address = 'a'\n"
    let text := "\x7b\"b\": [\"x\", null, \"ada-usd\", \x7b\"SELL\": null\x7d, 1, \"2.50\", \"trade\",
      \"2024-01-02T03:04:05Z\", \"2024-01-02T04:04:05+01:00\", \"OPEN\", 0, null, null, \x7b\"z\": [-2]\x7d]\x7d"
    let l : Launch :=
      ⟨some "settings", some settings.toUTF8.toList, some ⟨"records", some text.toUTF8⟩⟩
    let now : Instant := ⟨2024, 1, 2, 12, 0, 0, 0, rfl⟩
    let later : Instant := ⟨2024, 1, 3, 12, 0, 0, 0, rfl⟩
    let moves : List Move := [.round, .turn .loop, .pass 86400000 later, .turn .loop, .round]
    ∃ kept s bytes again left, Script.empty.Silent ∧ l.Accepted kept ∧ kept.keys = ["b"] ∧
      l.start now "n" = .ok s ∧ l.ending .empty now "n" moves = ⟨false, some bytes⟩ ∧
      String.fromUTF8? bytes = some again ∧ Orders.ofText again = .ok left ∧
      kept.Outlive ((s.facing .empty).Purged moves) left := by
  intro settings text l now later moves
  have hsettings : (Settings.ofBytes (some settings.toUTF8.toList)).toOption.map
      (fun s => s.tradingPairs.toOption.isSome) = some true := by
    decide +kernel
  have htext : (Orders.ofText text).toOption.map (fun orders =>
      (orders.keys, orders.values.all fun o => o.extras.values.all Json.floatFree)) =
      some (["b"], true) := by
    decide +kernel
  obtain ⟨x, hx, hpairs⟩ := Option.map_eq_some_iff.mp hsettings
  obtain ⟨pairs, hpairs⟩ := Option.isSome_iff_exists.mp hpairs
  obtain ⟨kept, hkept, hread⟩ := Option.map_eq_some_iff.mp htext
  obtain ⟨hkeys, hfree⟩ := Prod.mk.inj hread
  have hextras : ∀ id o, kept.find? id = some o → o.extras.FloatFree := by
    intro id o ho k j hj
    have hall := List.all_eq_true.mp hfree o ((Dict.mem_values_iff _).mpr ⟨id, ho⟩)
    exact List.all_eq_true.mp hall j ((Dict.mem_values_iff _).mpr ⟨k, hj⟩)
  have haccepted : l.Accepted kept :=
    accepted_of_text (ok_of_toOption hx) (ok_of_toOption hpairs) (ok_of_toOption hkept)
  obtain ⟨s, bytes, again, left, hstart, hending, hutf8, hagain, hleft⟩ :=
    (kept_orders_outlive_silence l Script.silent_empty now "n" moves).2 kept haccepted rfl hextras
  exact ⟨kept, s, bytes, again, left, Script.silent_empty, haccepted, hkeys, hstart, hending, hutf8,
    hagain, hleft⟩

end Launch
end SwapDesk
