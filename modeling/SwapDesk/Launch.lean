import SwapDesk.Shift

/-! What the program is launched with. The files are bytes here, and the records among them need not be a
text at all. -/
namespace SwapDesk

/-- The file of the kept orders: its name, and the bytes found there. -/
structure KeptFile where
  name : String
  bytes : Option ByteArray

structure Launch where
  /-- The name that settings are read under. -/
  source : Option String
  /-- What was read. -/
  settings : Option (List UInt8)
  /-- Without it no orders are kept. -/
  kept : Option KeptFile

namespace Launch

def setup (l : Launch) (records : Option String) : Setup :=
  ⟨l.source, l.settings, l.kept.map (·.name), records⟩

/-- The text of the kept orders, if there are any. -/
def records (l : Launch) : Except Hindrance (Option String) :=
  match l.kept with
  | some ⟨name, some bytes⟩ =>
    match String.fromUTF8? bytes with
    | some text => .ok (some text)
    | none => .error (.unreadable name)
  | _ => .ok none

/-- Opens a shift. Whatever is wrong with the settings is reported first. -/
def start (l : Launch) (now : Instant) (nonce : String) : Except Hindrance Shift :=
  match l.records with
  | .ok records => Shift.start (l.setup records) now nonce
  | .error h => Shift.start (l.setup none) now nonce >>= fun _ => .error h

end Launch

end SwapDesk
