import LoxLang.Token.Scan
import LoxLang.Grammar.Reply
import LoxLang.Resolution.Context
import LoxLang.Value.Fault

/-!
# Diagnostics

Everything that a run of the language can complain about, with its text. The
first three kinds are static: they keep a program from running. A runtime fault
ends a program that was running.
-/

namespace LoxLang

/-- A reported error. -/
inductive Diagnostic where
  | lexical (line : Nat) (error : LexicalError)
  | grammar (error : Located GrammarError)
  | static (error : Located StaticError)
  | runtime (error : Located Fault)

namespace Diagnostic

/-- Did the error happen while a program was running? -/
def isRuntime : Diagnostic → Bool
  | runtime _ => true
  | _ => false

/-- The message alone. -/
def message : Diagnostic → String
  | lexical _ error => error.message
  | grammar e => e.error.message
  | static e => e.error.message
  | runtime e => e.error.message e.token

/-- The line of the error. -/
def line : Diagnostic → Nat
  | lexical line _ => line
  | grammar e => e.token.line
  | static e => e.token.line
  | runtime e => e.token.line

/-- The place in the line; lexical errors name none. -/
def location? : Diagnostic → Option String
  | lexical .. => none
  | grammar e => some e.token.location
  | static e => some e.token.location
  | runtime e => some e.token.location

/-- The line in brackets. -/
def lineTag (line : Nat) : String := "[line " ++ toString line ++ "]"

/-- The whole text: a static error starts with its line and place, a fault ends with its line. -/
def text (d : Diagnostic) : String :=
  match d with
  | runtime _ => d.message ++ "\n" ++ lineTag d.line
  | _ =>
    let place := match d.location? with
      | some location => " " ++ location
      | none => ""
    lineTag d.line ++ " Error" ++ place ++ ": " ++ d.message

end Diagnostic

end LoxLang
