import LoxLang.Command
import Std.Time.DateTime.Timestamp

/-!
# The program

The outer layer: arguments, files, standard input and output. What is printed
and how the program exits is decided by `Command`.
-/

namespace LoxLang

/-- More fuel than any run on this machine uses up. -/
def fuel : Nat := Nat.pow 2 60

/-- The contents of a file. -/
def readContents (file : String) : IO Contents := do
  try
    return .ok (← IO.FS.readBinFile file).toList
  catch
    | .noFileOrDirectory .. => return .error .missing
    | .permissionDenied .. => return .error .denied
    | .inappropriateType _ 21 _ => return .error .isDirectory
    | .inappropriateType .. => return .error .notDirectory
    | .invalidArgument .. => return .error .nameTooLong
    | e => return .error (.other (toString e))

/-- The time in seconds since the start of 1970, to the millisecond. -/
def now : IO Float := do
  let time ← Std.Time.Timestamp.now
  return time.toMillisecondsSinceUnixEpoch.val.toNat.toFloat / 1000.0

/-- The readings of the clock that have been taken, and a guess at those that have not: a time, and
a millisecond more for each. -/
def readingsFrom (taken : Array Float) (time : Float) (reading : Nat) : Float :=
  taken.getD reading (time + (reading - taken.size).toFloat / 1000.0)

/-- A run on readings of the clock, which gives also how many it takes. A run is a function of its
readings and does nothing else, so where it takes some that are guessed it is thrown away and
repeated on more of them, now taken from the clock. Those that the last run takes are given back. -/
partial def onReadings {α : Type} (run : (Nat → Float) → α × Nat) (taken : Array Float) :
    IO (α × Array Float) := do
  let time ← now
  let (a, readings) := run (readingsFrom taken time)
  if readings ≤ taken.size then return (a, taken.take readings)
  -- as many again and one, so that a run is repeated a few times only
  onReadings run (taken ++ Array.replicate (taken.size + 1) time)

/-- The bytes of standard input up to and with the next line feed. -/
partial def readLine (input : IO.FS.Stream) (line : ByteArray) : IO ByteArray := do
  let byte ← input.read 1
  if byte.isEmpty || byte == ⟨#[10]⟩ then return line ++ byte
  readLine input (line ++ byte)

/-- The interactive loop on standard input. -/
partial def interactLoop (session : Session) (taken : Array Float) : IO UInt32 := do
  let output ← IO.getStdout
  output.putStr prompt
  output.flush
  let bytes ← readLine (← IO.getStdin) .empty
  if bytes.isEmpty then
    output.putStrLn ""
    return 0
  match Text.Utf8.decode bytes.toList with
  | .error _ =>
    IO.eprint badInput.stderr
    return badInput.status.toUInt32
  | .ok line =>
    let run (clock : Nat → Float) :=
      let answer := interact fuel { session with machine := { session.machine with clock } } line
      (answer, answer.elim 0 (·.1.machine.readings))
    let (answer, taken) ← onReadings run taken
    match answer with
    | none => return 1
    | some (session, printed, diagnostics) =>
      output.putStr (CommandResult.lines printed)
      IO.eprint (CommandResult.lines (diagnostics.map (·.text)))
      interactLoop session taken

end LoxLang

open LoxLang in
/-- A command run on the files and streams of the process. -/
def main (arguments : List String) : IO UInt32 := do
  match Command.ofArguments? arguments with
  | none =>
    IO.eprintln "usage: tokenize [FILE] [--json] | parse [FILE] | evaluate [FILE] | run [FILE] | repl"
    return 2
  | some command =>
    if command.isInteractive then interactLoop (.initial fun _ => 0) #[]
    else
      let contents ← match command.file? with
        | some file => readContents file
        | none => pure (.error .missing)
      let (result, _) ← onReadings (command.performCounting fuel · contents) #[]
      match result with
      | none => return 1
      | some result =>
        IO.print result.stdout
        IO.eprint result.stderr
        return result.status.toUInt32
