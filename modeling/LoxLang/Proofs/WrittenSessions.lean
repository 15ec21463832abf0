import LoxLang.Proofs.WrittenEvaluation
import LoxLang.Proofs.WrittenGrammar
import LoxLang.Session.Tabled

/-!
# Sessions that run programs as they are written

A session like any other, but for two things: what it runs are trees with `for`
nodes, and it runs them by the direct rule. Such a tree is derived from the
tokens of the text; how it is found is left open. Reading and resolution report
what they report otherwise, and expressions are parsed as otherwise, because no
`for` statement stands in them.

What two sessions give to see is compared request by request. Of a value that is
the text, since a value carries code, and that is not the same.
-/

namespace LoxLang

/-- What can be seen of a session after a request, of a value its text. -/
structure Shown where
  printed : Array String
  diagnostics : List Diagnostic
  hadError : Bool
  hadRuntimeError : Bool
  value : Option String
  tree : Option Expr

/-- An answer as it is shown. -/
def Answer.shown (a : Answer) : Shown :=
  ⟨a.printed, a.diagnostics, a.hadError, a.hadRuntimeError, a.value.map (·.text), a.tree⟩

namespace Written

/-- A way to read texts as programs with `for` nodes. Of a text with errors nothing is asked. -/
structure Reader where
  program : String → List Stmt
  derived : ∀ source, (LoxLang.Session.readProgram source).2 = [] →
    Program .nearest (Grammar.content (Scan.tokens source)) (program source)

/-- A state with the diagnostics reported since the last reset, oldest first. -/
structure Session where
  machine : State
  diagnostics : List Diagnostic

namespace Session

/-- A session in which nothing has happened. -/
def initial (clock : Nat → Float) : Session := ⟨.initial clock, []⟩

/-- Is a static error pending? -/
def hadError (s : Session) : Bool := s.diagnostics.any fun d => !d.isRuntime

/-- Is a runtime fault pending? -/
def hadRuntimeError (s : Session) : Bool := s.diagnostics.any (·.isRuntime)

/-- Diagnostics reported, in order. -/
def report (s : Session) (ds : List Diagnostic) : Session :=
  { s with diagnostics := s.diagnostics ++ ds }

/-- Diagnostics forgotten; what programs have defined stays. -/
def reset (s : Session) : Session := { s with diagnostics := [] }

/-- A session behind an action: its value, or a fault reported. -/
def settle {α : Type} (s : Session) : Outcome State α → Option (Session × Option α)
  | .done a m => some ({ s with machine := m }, some a)
  | .failed fault m => some ({ s with machine := m }.report [.runtime fault], none)
  | .exhausted => none

/-- A program run as it is. -/
def execute (fuel : Nat) (s : Session) (program : List Stmt) : Option Session :=
  (s.settle (execAll (exec fuel) program s.machine)).map (·.1)

/-- A program run from its source text. -/
def run (R : Reader) (fuel : Nat) (s : Session) (source : String) : Option Session :=
  let program := R.program source
  let s := s.report (LoxLang.Session.readProgram source).2
  if s.hadError then some s
  else
    let s := s.report (LoxLang.Session.staticDiagnostics (Stmt.desugarAll program))
    if s.hadError then some s else s.execute fuel (Stmt.resolve program)

/-- A source text parsed as one expression; given only if no static error is pending. -/
def parseExpression (s : Session) (source : String) : Session × Option Expr :=
  let (e, ds) := LoxLang.Session.readExpression source
  let s := s.report ds
  (s, if s.hadError then none else e)

/-- A source text evaluated as one expression. -/
def evaluate (fuel : Nat) (s : Session) (source : String) :
    Option (Session × Option (Value Place)) :=
  match s.parseExpression source with
  | (s, none) => some (s, none)
  | (s, some e) =>
    let s := s.report (LoxLang.Session.staticDiagnostics [.expr e])
    if s.hadError then some (s, none)
    else s.settle (eval fuel (e.annotate .global) s.machine)

/-- What a session shows. -/
def shown (s : Session) (value : Option (Value Place)) (tree : Option Expr) : Shown :=
  ⟨s.machine.printed, s.diagnostics, s.hadError, s.hadRuntimeError, value.map (·.text), tree⟩

/-- A request served; `none` if the fuel runs out. -/
def serve (R : Reader) (s : Session) : Request → Option (Session × Shown)
  | .run fuel source => (s.run R fuel source).map fun s => (s, s.shown none none)
  | .evaluate fuel source => (s.evaluate fuel source).map fun (s, v) => (s, s.shown v none)
  | .parse source =>
    let (s, e) := s.parseExpression source
    some (s, s.shown none e)
  | .reset => some (s.reset, s.reset.shown none none)

/-- What requests in order show, up to the first for which the fuel runs out. -/
def serveAll (R : Reader) (s : Session) : List Request → List Shown
  | [] => []
  | r :: rs =>
    match s.serve R r with
    | some (s, a) => a :: s.serveAll R rs
    | none => []

end Session

end Written

end LoxLang
