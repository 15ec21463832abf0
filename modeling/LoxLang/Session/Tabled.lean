import LoxLang.Machine.Indirect
import LoxLang.Resolution.Record
import LoxLang.Session

/-!
# Sessions that resolve into a table

A session can keep the depths in a table for as long as it lives, instead of in
the trees. Every occurrence that is read gets a number that no occurrence had
before, resolution enters depths for numbers, and evaluation looks the depths up
when it comes to the nodes. A step that is rejected has used up numbers by then,
and if it was resolution that rejected it, it leaves entries in the table that
are never taken out again.

A node draws the next number when it is made, and one that is dropped again,
because it becomes the target of an assignment or because reading fails, has
drawn a number too. Which numbers the occurrences of a text get is therefore not
fixed here: a `Numbering` may hand them out in any order, and leave some out.

What sessions of either kind give to see is compared request by request. A
session with a table shows values and trees with the depths that the table has
for them, because numbers mean nothing outside it.
-/

namespace LoxLang

/-! ## Numbers for occurrences -/

/-- The slots hold different numbers, from one bound on and below another. -/
def HoldNumbers (low high : Nat) (slots : List (Option Nat)) : Prop :=
  ∃ ids : List Nat, slots = ids.map some ∧ ids.Nodup ∧ ∀ id ∈ ids, low ≤ id ∧ id < high

/-- A way to number what is read from source texts, when all numbers below a given one have been
drawn. It gives the tree with numbers in its slots, no two nodes with the same, and the number up to
which all are drawn then. Of a text with errors only this is asked, that no number is given back. -/
structure Numbering where
  program : Nat → String → List Stmt × Nat
  expression : Nat → String → Option Expr × Nat
  program_le : ∀ n source, n ≤ (program n source).2
  expression_le : ∀ n source, n ≤ (expression n source).2
  program_plain : ∀ n source, (Session.readProgram source).2 = [] →
    Stmt.allPlain (program n source).1 = (Session.readProgram source).1
  program_numbers : ∀ n source, (Session.readProgram source).2 = [] →
    HoldNumbers n (program n source).2 (Stmt.allSlots (program n source).1)
  expression_plain : ∀ n source, (Session.readExpression source).2 = [] →
    (expression n source).1.map Expr.plain = (Session.readExpression source).1
  expression_numbers : ∀ n source, (Session.readExpression source).2 = [] →
    HoldNumbers n (expression n source).2 (Expr.optSlots (expression n source).1)

/-! ## Sessions -/

/-- A session with the depths found so far, and the number below which all are used. -/
structure Tabled where
  session : Session
  table : Table
  next : Nat

namespace Tabled

/-- A session in which nothing has happened, in a process that has used some numbers before. -/
def initial (first : Nat) (clock : Nat → Float) : Tabled := ⟨.initial clock, .empty, first⟩

/-- Diagnostics forgotten; the table stays. -/
def reset (t : Tabled) : Tabled := { t with session := t.session.reset }

/-- The diagnostics of reading a text reported, and the numbers that this used. -/
def read (t : Tabled) (ds : List Diagnostic) (next : Nat) : Tabled :=
  { t with session := t.session.report ds, next }

/-- Note taken of the events of a tree. -/
def check (t : Tabled) (events : List Event) : Tabled :=
  let (table, errors) := t.table.notes events
  { t with session := t.session.report (errors.map .static), table }

/-- A session behind an action: its value, or a fault reported. -/
def settle {α : Type} (t : Tabled) (outcome : Outcome Machine α) : Option (Tabled × Option α) :=
  (t.session.settle outcome).map fun (s, v) => ({ t with session := s }, v)

/-- A program run from its source text. -/
def run (N : Numbering) (fuel : Nat) (t : Tabled) (source : String) : Option Tabled :=
  let (program, next) := N.program t.next source
  let t := t.read (Session.readProgram source).2 next
  if t.session.hadError then some t
  else
    let t := t.check (Stmt.allEvents .global program)
    if t.session.hadError then some t
    else (t.settle (Action.execAll (execVia t.table.find fuel) program t.session.machine)).map (·.1)

/-- A source text parsed as one expression; given only if no static error is pending. -/
def parseExpression (N : Numbering) (t : Tabled) (source : String) : Tabled × Option Expr :=
  let (e, next) := N.expression t.next source
  let t := t.read (Session.readExpression source).2 next
  (t, if t.session.hadError then none else e)

/-- A source text evaluated as one expression. -/
def evaluate (N : Numbering) (fuel : Nat) (t : Tabled) (source : String) :
    Option (Tabled × Option Value) :=
  match t.parseExpression N source with
  | (t, none) => some (t, none)
  | (t, some e) =>
    let t := t.check (Stmt.allEvents .global [.expr e])
    if t.session.hadError then some (t, none)
    else t.settle (evalVia t.table.find fuel e t.session.machine)

end Tabled

/-! ## Values with other slots -/

section Values

variable (f : Option Nat → Option Nat)

/-- A closure with the slots of its function replaced. -/
def Closure.mapSlots (c : Closure) : Closure := { c with declaration := c.declaration.mapSlots f }

/-- A declaration of a class with the slots of its methods replaced. -/
def ClassLayer.mapSlots (k : ClassLayer) : ClassLayer :=
  { k with methods := k.methods.map fun (x, c) => (x, c.mapSlots f) }

/-- A class with the slots of all its methods replaced. -/
def Class.mapSlots (k : Class) : Class := ⟨k.own.mapSlots f, k.inherited.map (·.mapSlots f)⟩

/-- A value with the slots of its functions replaced. -/
def Value.mapSlots : Value → Value
  | .function id closure => .function id (closure.mapSlots f)
  | .ofClass k => .ofClass (k.mapSlots f)
  | .object id k => .object id (k.mapSlots f)
  | v => v

end Values

/-! ## Requests and answers -/

/-- What a session can be asked to do; running and evaluating come with fuel. -/
inductive Request where
  | run (fuel : Nat) (source : String)
  | evaluate (fuel : Nat) (source : String)
  | parse (source : String)
  | reset

/-- What can be seen of a session after a request: all that was printed so far, the diagnostics that
are pending and the two flags, and the value or the tree that the request gave. -/
structure Answer where
  printed : Array String
  diagnostics : List Diagnostic
  hadError : Bool
  hadRuntimeError : Bool
  value : Option Value
  tree : Option Expr

namespace Session

/-- The answer of a session. -/
def answer (s : Session) (value : Option Value) (tree : Option Expr) : Answer :=
  ⟨s.machine.printed, s.diagnostics, s.hadError, s.hadRuntimeError, value, tree⟩

/-- A request served; `none` if the fuel runs out. -/
def serve (s : Session) : Request → Option (Session × Answer)
  | .run fuel source => (s.run fuel source).map fun s => (s, s.answer none none)
  | .evaluate fuel source => (s.evaluate fuel source).map fun (s, v) => (s, s.answer v none)
  | .parse source =>
    let (s, e) := s.parseExpression source
    some (s, s.answer none e)
  | .reset => some (s.reset, s.reset.answer none none)

/-- The answers to requests in order, up to the first for which the fuel runs out. -/
def serveAll (s : Session) : List Request → List Answer
  | [] => []
  | r :: rs =>
    match s.serve r with
    | some (s, a) => a :: s.serveAll rs
    | none => []

end Session

namespace Tabled

/-- The answer of a session with a table: the numbers are replaced with what the table has. -/
def answer (t : Tabled) (value : Option Value) (tree : Option Expr) : Answer :=
  t.session.answer (value.map (·.mapSlots t.table.find)) (tree.map (·.mapSlots t.table.find))

/-- A request served; `none` if the fuel runs out. -/
def serve (N : Numbering) (t : Tabled) : Request → Option (Tabled × Answer)
  | .run fuel source => (t.run N fuel source).map fun t => (t, t.answer none none)
  | .evaluate fuel source => (t.evaluate N fuel source).map fun (t, v) => (t, t.answer v none)
  | .parse source =>
    let (t, e) := t.parseExpression N source
    some (t, t.answer none e)
  | .reset => some (t.reset, t.reset.answer none none)

/-- The answers to requests in order, up to the first for which the fuel runs out. -/
def serveAll (N : Numbering) (t : Tabled) : List Request → List Answer
  | [] => []
  | r :: rs =>
    match t.serve N r with
    | some (t, a) => a :: t.serveAll N rs
    | none => []

/-- The sessions that requests lead to. -/
inductive Reachable (N : Numbering) (first : Nat) (clock : Nat → Float) : Tabled → Prop
  | initial : Reachable N first clock (.initial first clock)
  | serve {t t' : Tabled} {r : Request} {a : Answer} (before : Reachable N first clock t)
      (served : t.serve N r = some (t', a)) : Reachable N first clock t'

end Tabled

end LoxLang
