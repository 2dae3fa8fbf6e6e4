import SwapDesk.Order.Book

/-! The changes of a book as values, and one function that carries them out. -/
namespace SwapDesk

inductive Command
  | track (order : Order)
  | update (report : Update)
  | markNotFound (id : String)
  | markAmbiguous (id : String)
  | restore (kept : Orders)
  /-- With the age in nanoseconds. -/
  | purge (age : Int)

inductive Verdict
  | tracked
  | outcome (o : Outcome)
  /-- How many orders a restore or a purge concerned. -/
  | count (n : Nat)
  | overflow (cause : Overflow)

/-- What a command did. -/
structure Effect where
  book : Book
  verdict : Verdict
  events : List Event
  gotHash : Bool

namespace Effect

def ofChange (c : Change) : Effect := ⟨c.book, .outcome c.outcome, c.events, c.gotHash⟩

/-- Of a new order that was tracked, or was refused. -/
def ofTrack (b : Book) : Except Rejection (Book × List Event) → Effect
  | .ok (b, events) => ⟨b, .tracked, events, false⟩
  | .error r => ⟨b, .outcome (.rejected r), [], false⟩

def ofRestore : Book × Nat → Effect
  | (b, n) => ⟨b, .count n, [], 0 < n⟩

/-- Of a purge that was done, or whose cutoff is out of range. -/
def ofPurge (b : Book) : Except Overflow (Book × Nat) → Effect
  | .ok (b, n) => ⟨b, .count n, [], false⟩
  | .error o => ⟨b, .overflow o, [], false⟩

end Effect

namespace Book

def perform (b : Book) (now : Instant) : Command → Effect
  | .track o => .ofTrack b (b.track o)
  | .update u => .ofChange (b.update now u)
  | .markNotFound id => .ofChange (b.markNotFound now id)
  | .markAmbiguous id => .ofChange (b.markAmbiguous now id)
  | .restore kept => .ofRestore (b.restore kept)
  | .purge age => .ofPurge b (b.purge now age)

/-- The commands of a list one after the other, each at its own time, and the events of all of
them. -/
def performAll (b : Book) : List (Instant × Command) → Book × List Event
  | [] => (b, [])
  | (now, c) :: rest =>
    let e := b.perform now c
    let (b, events) := e.book.performAll rest
    (b, e.events ++ events)

end Book

end SwapDesk
