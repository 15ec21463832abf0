import LoxLang.Session
import LoxLang.SourceFile
import LoxLang.Text.Shown
import LoxLang.Tree.Printed

/-!
# The command line

What each command prints and how it exits, as a function of the contents of its
file or of its input. Nothing here touches the outside world.

The exit status is 65 after a static error and 70 after a runtime fault. A file
that cannot be read is a failure of its own, with status 1.
-/

namespace LoxLang

/-- The commands. Those that take a file can be given none. -/
inductive Command where
  | tokenize (file : Option String) (json : Bool)
  | parse (file : Option String)
  | evaluate (file : Option String)
  | run (file : Option String)
  | repl
deriving DecidableEq, Repr

namespace Command

/-- At most one operand. -/
def operand? : List String → Option (Option String)
  | [] => some none
  | [file] => some (some file)
  | _ => none

/-- The command that arguments ask for. The switch for logging may stand anywhere and changes
nothing. -/
def ofArguments? (arguments : List String) : Option Command :=
  match arguments.filter (· != "--log") with
  | "tokenize" :: rest =>
    (operand? (rest.filter (· != "--json"))).map (.tokenize · (rest.contains "--json"))
  | "parse" :: rest => (operand? rest).map .parse
  | "evaluate" :: rest => (operand? rest).map .evaluate
  | "run" :: rest => (operand? rest).map .run
  | ["repl"] => some .repl
  | _ => none

/-- The file that a command reads. -/
def file? : Command → Option String
  | .tokenize file _ | .parse file | .evaluate file | .run file => file
  | .repl => none

/-- Does the command talk to its input line by line? -/
def isInteractive : Command → Bool
  | .run none | .repl => true
  | _ => false

end Command

/-- What a command leaves behind: its exit status and the texts it wrote. -/
structure CommandResult where
  status : Nat
  stdout : String
  stderr : String
deriving DecidableEq, Repr

namespace CommandResult

/-- Lines, each with its end. -/
def lines (ls : List String) : String := String.join (ls.map (· ++ "\n"))

/-- The status after a static error. -/
def staticStatus : Nat := 65

/-- The status after a runtime fault. -/
def runtimeStatus : Nat := 70

/-- A failure of the command itself: what failed, and why. -/
def failure (what why : String) : CommandResult where
  status := 1
  stdout := ""
  stderr := "Error: " ++ what ++ "\n\nCaused by:\n    " ++ why ++ "\n"

/-- A command that needs a file and was given none. -/
def noInput : CommandResult := ⟨0, "No input filepath was provided. Exiting...\n", ""⟩

/-- The diagnostics of a session as the error text. -/
def diagnosticText (s : Session) : String := lines (s.diagnostics.map (·.text))

/-- The status that a session's diagnostics call for. -/
def statusOf (s : Session) : Nat :=
  if s.hadError then staticStatus else if s.hadRuntimeError then runtimeStatus else 0

/-- The result of a session that ran from the start, with lines of output behind what it printed. -/
def ofSession (s : Session) (more : List String) : CommandResult :=
  ⟨statusOf s, lines (s.machine.printed.toList ++ more), diagnosticText s⟩

end CommandResult

/-- Every token and error of a text on a line of its own; errors do not stop the listing. -/
def tokenReport (source : String) (json : Bool) : CommandResult where
  status := if (Scan.errors source).isEmpty then 0 else CommandResult.staticStatus
  stdout := CommandResult.lines
    ((Scan.tokens source).map fun t => if json then t.json else t.listing)
  stderr := CommandResult.lines
    ((Session.lexicalDiagnostics source).map (·.text))

/-- The printed tree of an expression. -/
def parseReport (session : Session) (source : String) : CommandResult :=
  match session.parseExpression source with
  | (s, some e) => .ofSession s [e.printed]
  | (s, none) => { CommandResult.ofSession s [] with status := CommandResult.staticStatus }

/-- The value of an expression. -/
def evaluateReport (fuel : Nat) (session : Session) (source : String) : Option CommandResult :=
  (session.evaluate fuel source).map fun
    | (s, some v) => .ofSession s [v.text]
    | (s, none) => .ofSession s []

/-- A program run. -/
def runReport (fuel : Nat) (session : Session) (source : String) : Option CommandResult :=
  (session.run fuel source).map (.ofSession · [])

/-- The prompt of the interactive loop. -/
def prompt : String := "> "

/-- One line of the interactive loop: the session afterwards, what was printed, what was reported. -/
def interact (fuel : Nat) (s : Session) (line : String) :
    Option (Session × List String × List Diagnostic) :=
  (s.run fuel line).map fun s' =>
    (s'.reset, (s'.machine.printed.toList.drop s.machine.printed.size), s'.diagnostics)

/-- Input cut behind each line feed. -/
def inputLines (input : List UInt8) : List (List UInt8) :=
  input.foldr (fun b lines =>
    if b == 10 then [b] :: lines
    else match lines with
      | [] => [[b]]
      | line :: rest => (b :: line) :: rest) []

/-- The failure of the interactive loop on input that is not text. -/
def badInput : CommandResult :=
  .failure "Failed to read from stdin" "stream did not contain valid UTF-8"

/-- The interactive loop on lines of input: a prompt in front of each, and a line end behind the
last. Diagnostics are forgotten from line to line. -/
def interactAll (fuel : Nat) (s : Session) : List (List UInt8) → Option CommandResult
  | [] => some ⟨0, prompt ++ "\n", ""⟩
  | bytes :: rest =>
    match Text.Utf8.decode bytes with
    | .error _ => some { badInput with stdout := prompt }
    | .ok line => do
      let (s, printed, ds) ← interact fuel s line
      let later ← interactAll fuel s rest
      some ⟨later.status, prompt ++ CommandResult.lines printed ++ later.stdout,
        CommandResult.lines (ds.map (·.text)) ++ later.stderr⟩

/-- A command on the text of its file, or the failure to read that. -/
def onFile (file : String) (contents : Contents) (run : String → Option CommandResult) :
    Option CommandResult :=
  match contents.text with
  | .ok source => run source
  | .error e => some (.failure ("Failed to read file " ++ Text.shown file) e.message)

/-- What a command does, given the files and the input. -/
def Command.perform (fuel : Nat) (clock : Nat → Float) (files : String → Contents)
    (input : List UInt8) : Command → Option CommandResult
  | .tokenize none _ | .parse none | .evaluate none => some .noInput
  | .tokenize (some file) json => onFile file (files file) fun source =>
    some (tokenReport source json)
  | .parse (some file) => onFile file (files file) fun source =>
    some (parseReport (.initial clock) source)
  | .evaluate (some file) => onFile file (files file) (evaluateReport fuel (.initial clock))
  | .run (some file) => onFile file (files file) (runReport fuel (.initial clock))
  | .run none | .repl => interactAll fuel (.initial clock) (inputLines input)

/-- What a command on the contents of its file does, and how many readings of the clock it takes. -/
def Command.performCounting (fuel : Nat) (clock : Nat → Float) (contents : Contents)
    (command : Command) : Option CommandResult × Nat :=
  match command, contents.text with
  | .evaluate (some _), .ok source =>
    match (Session.initial clock).evaluate fuel source with
    | some (s, v) => (some (.ofSession s (v.toList.map (·.text))), s.machine.readings)
    | none => (none, 0)
  | .run (some _), .ok source =>
    match (Session.initial clock).run fuel source with
    | some s => (some (.ofSession s []), s.machine.readings)
    | none => (none, 0)
  | _, _ => (command.perform fuel clock (fun _ => contents) [], 0)

theorem Command.performCounting_fst (fuel : Nat) (clock : Nat → Float) (contents : Contents)
    (command : Command) : (command.performCounting fuel clock contents).1 =
      command.perform fuel clock (fun _ => contents) [] := by
  unfold performCounting
  split
  · next text =>
      simp only [perform, onFile, text, evaluateReport]
      rcases (Session.initial clock).evaluate fuel _ with _ | ⟨s, _ | v⟩ <;> rfl
  · next text =>
      simp only [perform, onFile, text, runReport]
      cases (Session.initial clock).run fuel _ <;> rfl
  · rfl

end LoxLang
