import SwapDesk.Proofs.Desk.Dealings

/-! Others at the book. Besides the steps on the floor somebody may carry out commands on the book by
himself, such as taking back kept orders. What is known of an order remains true as long as the commands
of others leave it alone. -/
namespace SwapDesk.Floor

open Book

/-- Steps on the floor, with commands of others in between. -/
inductive Traffic (allowed : Command → Prop) : Floor → List Note → Floor → Prop
  | refl (f : Floor) : Traffic allowed f [] f
  | step {f g k : Floor} {notes more : List Note} (h : Traffic allowed f notes g)
      (hstep : Step g more k) : Traffic allowed f (notes ++ more) k
  | command {f g : Floor} {notes : List Note} {c : Command} (h : Traffic allowed f notes g)
      (hc : allowed c) : Traffic allowed f notes { g with desk := (g.desk.perform c).1 }

variable {allowed : Command → Prop} {ids : String → Prop} {nonce : String} {f g k : Floor}
  {notes more : List Note} {c : Command}

theorem Traffic.trans (h : Traffic allowed f notes g) (h' : Traffic allowed g more k) :
    Traffic allowed f (notes ++ more) k := by
  induction h' with
  | refl => exact (List.append_nil notes).symm ▸ h
  | step _ hstep ih =>
    rw [← List.append_assoc]
    exact .step ih hstep
  | command _ hc ih => exact .command ih hc

theorem Run.traffic (h : Run f notes g) : Traffic allowed f notes g := by
  induction h with
  | refl => exact .refl _
  | snoc _ hstep ih => exact .step ih hstep

/-- Taking back kept orders is a command that wakes the loop if there were any. -/
theorem traffic_restore (d : Desk) (placings : List Placing) (findings : List Finding)
    {kept : Orders} (hc : allowed (.restore kept)) :
    Traffic allowed ⟨d, placings, findings⟩ [] ⟨(d.restore kept).1, placings, findings⟩ := by
  let taken := (d.perform (.restore kept)).1
  have hcommand : Traffic allowed ⟨d, placings, findings⟩ [] ⟨taken, placings, findings⟩ :=
    .command (.refl _) hc
  have hrestore : (d.restore kept).1 =
      (if 0 < (d.book.restore kept).2 then taken.wake else taken).enqueue := rfl
  rw [hrestore]
  split
  · exact (hcommand.step .wake).step (.elapse taken.wake.clock taken.wake.turns taken.wake.now
      taken.wake.script taken.wake.enqueue.ready)
  · exact hcommand.step (.elapse taken.clock taken.turns taken.now taken.script
      taken.enqueue.ready)

theorem Sound.command (hs : Sound ids nonce f notes)
    (hc : Respects (VouchedAmong ids nonce notes) c) :
    Sound ids nonce { f with desk := (f.desk.perform c).1 } notes where
  ledger := by
    have hsame : (f.desk.perform c).1.business = f.desk.business := Desk.business_commit ..
    exact hsame ▸ hs.ledger
  index := by
    have hb := indexSound_perform hs.index f.desk.now c
    exact (Desk.book_commit ..).symm ▸ hb
  orders := by
    have hb := (lasting_vouched ids nonce notes).perform hs.orders f.desk.now hc
    exact (Desk.book_commit ..).symm ▸ hb
  findings := hs.findings

theorem Traffic.sound (h : Traffic allowed f more g)
    (hc : ∀ c notes, allowed c → Respects (VouchedAmong ids nonce notes) c)
    (hs : Sound ids nonce f notes) : Sound ids nonce g (notes ++ more) := by
  induction h with
  | refl => exact (List.append_nil notes).symm ▸ hs
  | step _ hstep ih =>
    rw [← List.append_assoc]
    exact hstep.sound ih
  | command _ hallowed ih => exact ih.command (hc _ _ hallowed)

end SwapDesk.Floor

namespace SwapDesk

/-- The command says nothing of the order but that its transaction is under way or not found. -/
def Command.Spares (id : String) : Command → Prop
  | .track o => o.id ≠ id
  | .update u => u.order ≠ id
  | .restore kept => id ∉ kept.keys
  | _ => True

variable {id : String} {c : Command}

theorem Command.Spares.respects (h : c.Spares id) (P : String → Order → Prop) :
    Book.Respects (fun k o => k = id → P k o) c := by
  cases c with
  | track o => exact fun he => (h he).elim
  | update u => exact fun _ _ _ _ he => (h he).elim
  | restore kept =>
    rintro k o hm rfl
    exact (h (List.mem_map_of_mem hm)).elim
  | _ => trivial

end SwapDesk
