import LoxLang.Diagnostic
import LoxLang.Grammar.Program
import LoxLang.Resolution.Annotate
import LoxLang.Resolution.Check
import LoxLang.Machine.Eval

/-!
# Sessions

A session is a machine that programs run on one after another, and the
diagnostics reported since the last reset. A program goes through three gates:
it is run only if scanning, parsing and resolving it reported nothing and no
static error is left over from an earlier step. A runtime fault does not close
the gates.

The functions here take fuel and give `none` when it runs out; nothing else
makes them fail.
-/

namespace LoxLang

/-- A machine with the diagnostics reported since the last reset, oldest first. -/
structure Session where
  machine : Machine
  diagnostics : List Diagnostic

namespace Session

/-- A session in which nothing has happened. -/
def initial (clock : Nat → Float) : Session := ⟨.initial clock, []⟩

/-- Is a static error pending? -/
def hadError (s : Session) : Bool := s.diagnostics.any fun d => !d.isRuntime

/-- Is a runtime fault pending? -/
def hadRuntimeError (s : Session) : Bool := s.diagnostics.any (·.isRuntime)

/-- Diagnostics reported, in order. -/
def report (s : Session) (ds : List Diagnostic) : Session :=
  { s with diagnostics := s.diagnostics ++ ds }

/-- Diagnostics forgotten; what programs have defined stays. -/
def reset (s : Session) : Session := { s with diagnostics := [] }

/-- The diagnostics of scanning a source text. -/
def lexicalDiagnostics (source : String) : List Diagnostic :=
  (Scan.errors source).map fun (line, e) => .lexical line e

/-- A source text read as a program, and what scanning and parsing report. -/
def readProgram (source : String) : List Stmt × List Diagnostic :=
  let (program, errors) := Grammar.program (Scan.tokens source)
  (program, lexicalDiagnostics source ++ errors.map .grammar)

/-- A source text read as one expression, and what scanning and parsing report. -/
def readExpression (source : String) : Option Expr × List Diagnostic :=
  let (e, errors) := Grammar.soleExpression (Scan.tokens source)
  (e, lexicalDiagnostics source ++ errors.map .grammar)

/-- What resolving a program reports. -/
def staticDiagnostics (program : List Stmt) : List Diagnostic :=
  (Stmt.staticErrors program).map .static

/-- A session behind an action: its value, or a fault reported. -/
def settle {α : Type} (s : Session) : Outcome Machine α → Option (Session × Option α)
  | .done a m => some ({ s with machine := m }, some a)
  | .failed fault m => some ({ s with machine := m }.report [.runtime fault], none)
  | .exhausted => none

/-- A program run as it is. -/
def execute (fuel : Nat) (s : Session) (program : List Stmt) : Option Session :=
  (s.settle (execProgram fuel program s.machine)).map (·.1)

/-- A program run from its source text. -/
def run (fuel : Nat) (s : Session) (source : String) : Option Session :=
  let (program, ds) := readProgram source
  let s := s.report ds
  if s.hadError then some s
  else
    let s := s.report (staticDiagnostics program)
    if s.hadError then some s else s.execute fuel (Stmt.resolve program)

/-- A source text parsed as one expression; given only if no static error is pending. -/
def parseExpression (s : Session) (source : String) : Session × Option Expr :=
  let (e, ds) := readExpression source
  let s := s.report ds
  (s, if s.hadError then none else e)

/-- A source text evaluated as one expression. -/
def evaluate (fuel : Nat) (s : Session) (source : String) : Option (Session × Option Value) :=
  match s.parseExpression source with
  | (s, none) => some (s, none)
  | (s, some e) =>
    let s := s.report (staticDiagnostics [.expr e])
    if s.hadError then some (s, none)
    else s.settle (eval fuel (e.annotate .global) s.machine)

end Session

end LoxLang
