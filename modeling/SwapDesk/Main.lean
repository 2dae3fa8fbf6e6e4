import Std.Time.DateTime.Timestamp
import SwapDesk.Launch

/-! The command line. It opens a shift, has it work in real time until the standard input ends, and
closes it. There is no way to a gateway, so every call is a failed transport. -/
namespace SwapDesk

/-- The bytes of a file, if it can be read. -/
def readBytes? (name : String) : IO (Option (List UInt8)) := do
  try return some (← IO.FS.readBinFile name).toList
  catch _ => return none

/-- The bytes of a file, if there is one. -/
def readFile? (name : String) : IO (Option ByteArray) := do
  try return some (← IO.FS.readBinFile name)
  catch
    | .noFileOrDirectory .. => return none
    | _ => throw (IO.userError (Hindrance.unreadable name).message)

/-- Writes a file in one step, so that there is always an old or a new one. -/
def writeText (name text : String) : IO Unit := do
  let draft := (System.mkFilePath [name]).withExtension "tmp"
  IO.FS.writeFile draft text
  IO.FS.rename draft name

def readLaunch (args : List String) : IO Launch := do
  let source ← match args.head? with
    | some name => pure (some name)
    | none => IO.getEnv Setup.sourceVariable
  let settings ← match source with
    | some name => readBytes? name
    | none => pure none
  let kept ← match ← IO.getEnv Setup.keepingVariable with
    | some name => pure (some ⟨name, ← readFile? name⟩)
    | none => pure none
  return { source, settings, kept }

def calendarTime : IO Instant := do
  let nanos := (← Std.Time.Timestamp.now).toNanosecondsSinceUnixEpoch.toInt
  let some now := Instant.ofSeconds? (nanos / 1000000000) (nanos % 1000000000).toNat
    | throw (IO.userError "no calendar time")
  return now

/-- Eight hexadecimal digits. -/
def randomNonce : IO String := do
  let bytes ← IO.getRandomBytes 4
  return String.ofList (bytes.toList.flatMap fun b =>
    [Nat.digitChar (b.toNat / 16), Nat.digitChar (b.toNat % 16)])

def writeRecords (s : Shift) : IO Unit := do
  if let (some name, some text) := (s.keeping, s.records) then writeText name text

/-- Prints the lines that were logged after the first few. -/
def printLog (limit : LogLevel) (s : Shift) (printed : Nat) : IO Unit := do
  for line in s.log.drop printed do
    if limit.isShown line.level then
      IO.println (line.level.name.map Char.toUpper ++ " " ++ line.text)

/-- Works until the input has ended; there were so many rounds. -/
partial def work (limit : LogLevel) (input : Task (Except IO.Error String)) (opened : Nat)
    (s : Shift) (rounds : Nat) : IO Shift := do
  let printed := s.log.length
  let elapsed := (← IO.monoMsNow) - opened
  let s := s.step (.pass (elapsed - s.desk.clock) (← calendarTime))
  let isRound := rounds * Shift.roundInterval ≤ elapsed
  let s := (if isRound then s.step .round else s).workUntil none
  if isRound then writeRecords s
  printLog limit s printed
  if ← IO.hasFinished input then return s
  IO.sleep 10
  work limit input opened s (if isRound then rounds + 1 else rounds)

end SwapDesk

open SwapDesk

def main (args : List String) : IO UInt32 := do
  let l ← readLaunch args
  let limit := LogLevel.limit (← IO.getEnv "RUST_LOG")
  match l.start (← calendarTime) (← randomNonce) with
  | .error h =>
    IO.eprintln ("Error: " ++ h.message)
    return 1
  | .ok s =>
    let input ← IO.asTask (← IO.getStdin).readToEnd
    let s := (← work limit input (← IO.monoMsNow) s 0).close
    writeRecords s
    return 0
