import LoxLang.Resolution.Annotate
import LoxLang.Resolution.Check
import LoxLang.Tree.Slots

/-!
# Resolution into a table

Resolution can leave the tree as it is and write the depths down elsewhere: the
slot of an occurrence holds a number, and a table says which depth was found for
that number. A number can be given a depth once; a second time is an error, and
the first depth stays.

The walk over a tree is cut in two here. The events of a tree are what the walk
comes to, in order, and they depend on the tree alone. Taking note of them, one
after another, fills the table and finds the numbers that were used before.
-/

namespace LoxLang

/-- What the walk over a tree comes to: an error, or an occurrence of a name with its slot and the
depth that it gets, if it gets one. -/
inductive Event where
  | error (e : Located StaticError)
  | occurrence (slot : Option Nat) (name : Token) (depth : Option Nat)

/-- The error in an event. -/
def Event.error? : Event → Option (Located StaticError)
  | .error e => some e
  | .occurrence _ _ _ => none

/-- The slot in an event. -/
def Event.slot? : Event → Option (Option Nat)
  | .error _ => none
  | .occurrence slot _ _ => some slot

/-! ## The walk -/

mutual

/-- The events in an expression, seen from a context. -/
def Expr.events (c : Context) : Expr → List Event
  | .literal _ => []
  | .group inner => inner.events c
  | .unary _ operand => operand.events c
  | .binary left _ right => left.events c ++ right.events c
  | .logical left _ right => left.events c ++ right.events c
  | .name x slot =>
    (c.ownInitializerError x).map .error ++ [.occurrence slot x (c.annotated none x)]
  | .assign x slot value => value.events c ++ [.occurrence slot x (c.annotated none x)]
  | .call callee _ arguments => callee.events c ++ Expr.allEvents c arguments
  | .get object _ => object.events c
  | .set object _ value => value.events c ++ object.events c
  | .this keyword slot =>
    (c.thisErrors none keyword).map .error ++
      [.occurrence slot keyword (c.annotatedThis none keyword)]
  | .super keyword slot _ =>
    (c.superErrors none keyword).map .error ++
      [.occurrence slot keyword (c.annotatedSuper none keyword)]

/-- The events in expressions. -/
def Expr.allEvents (c : Context) : List Expr → List Event
  | [] => []
  | e :: es => e.events c ++ Expr.allEvents c es

end

/-- The events in an expression that may be absent. -/
def Expr.optEvents (c : Context) : Option Expr → List Event
  | none => []
  | some e => e.events c

mutual

/-- The events in a statement, seen from a context. -/
def Stmt.events (c : Context) : Stmt → List Event
  | .expr value => value.events c
  | .print value => value.events c
  | .var name initial =>
    (c.redeclaration name).map .error ++ Expr.optEvents (c.declare name.lexeme) initial
  | .block body => Stmt.allEvents c.enter body
  | .ifThen condition consequent => condition.events c ++ consequent.events c
  | .ifElse condition consequent alternative =>
    condition.events c ++ consequent.events c ++ alternative.events (consequent.after c)
  | .whileDo condition body => condition.events c ++ body.events c
  | .function f =>
    (c.redeclaration f.name).map .error ++ f.events .function (c.introduce f.name.lexeme)
  | .returning keyword value =>
    (c.returnErrors value.isSome keyword).map .error ++ Expr.optEvents c value
  | .classDecl name superclass methods =>
    let inner := c.introduce name.lexeme
    (c.redeclaration name ++ (superclass.map (·.selfInheritance name)).getD []).map .error
      ++ Expr.optEvents inner.inSuperclass superclass
      ++ FunctionDecl.methodEvents (inner.inMethods superclass.isSome) methods

/-- The events in statements, each seen from the context behind those before it. -/
def Stmt.allEvents (c : Context) : List Stmt → List Event
  | [] => []
  | s :: ss => s.events c ++ Stmt.allEvents (s.after c) ss

/-- The events in a function: its parameters, then its body. -/
def FunctionDecl.events (kind : Body) (c : Context) : FunctionDecl → List Event
  | ⟨_, parameters, body⟩ =>
    ({ c.enter with body := kind }.parameterErrors parameters).map .error
      ++ Stmt.allEvents (c.inFunction kind parameters) body

/-- The events in methods. -/
def FunctionDecl.methodEvents (c : Context) : List FunctionDecl → List Event
  | [] => []
  | m :: ms => m.events m.methodBody c ++ FunctionDecl.methodEvents c ms

end

/-! ## The table -/

/-- The depths found so far, by number. -/
abbrev Table := Nat → Option Nat

namespace Table

/-- The table in which nothing was found yet. -/
def empty : Table := fun _ => none

/-- A depth entered for a number. -/
def record (table : Table) (id depth : Nat) : Table :=
  fun other => if other = id then some depth else table other

/-- The depth for what a slot holds; without one the occurrence means a global. -/
def find (table : Table) (slot : Option Nat) : Option Nat := slot.bind table

/-- A table with note taken of an event, and the errors of that. -/
def note (table : Table) : Event → Table × List (Located StaticError)
  | .error e => (table, [e])
  | .occurrence (some id) name (some depth) =>
    if (table id).isSome then (table, [⟨name, .alreadyResolved⟩]) else (table.record id depth, [])
  | .occurrence _ _ _ => (table, [])

/-- A table with note taken of events in order, and the errors of that. -/
def notes (table : Table) : List Event → Table × List (Located StaticError)
  | [] => (table, [])
  | event :: events =>
    let (table, errors) := table.note event
    let (table, others) := table.notes events
    (table, errors ++ others)

end Table

end LoxLang
