import LoxLang.Tree

/-!
# Slots for depths

A node that names a binding has a slot. In a resolved tree it holds a depth,
but it may also hold a number under which the depth is found elsewhere. The
slots of a tree are listed here in the order in which resolution comes to
them: the value of an assignment before its target, the value of a property
write before its object.

A tree is numbered by filling its slots, in this order, with the numbers from
a given one on.
-/

namespace LoxLang

/-! ## The slots of a tree -/

mutual

/-- The slots of an expression. -/
def Expr.slots : Expr → List (Option Nat)
  | .literal _ => []
  | .group inner => inner.slots
  | .unary _ operand => operand.slots
  | .binary left _ right => left.slots ++ right.slots
  | .logical left _ right => left.slots ++ right.slots
  | .name _ slot => [slot]
  | .assign _ slot value => value.slots ++ [slot]
  | .call callee _ arguments => callee.slots ++ Expr.allSlots arguments
  | .get object _ => object.slots
  | .set object _ value => value.slots ++ object.slots
  | .this _ slot => [slot]
  | .super _ slot _ => [slot]

/-- The slots of expressions. -/
def Expr.allSlots : List Expr → List (Option Nat)
  | [] => []
  | e :: es => e.slots ++ Expr.allSlots es

end

/-- The slots of an expression that may be absent. -/
def Expr.optSlots : Option Expr → List (Option Nat)
  | none => []
  | some e => e.slots

mutual

/-- The slots of a statement. -/
def Stmt.slots : Stmt → List (Option Nat)
  | .expr value => value.slots
  | .print value => value.slots
  | .var _ initial => Expr.optSlots initial
  | .block body => Stmt.allSlots body
  | .ifThen condition consequent => condition.slots ++ consequent.slots
  | .ifElse condition consequent alternative =>
    condition.slots ++ consequent.slots ++ alternative.slots
  | .whileDo condition body => condition.slots ++ body.slots
  | .function declaration => declaration.slots
  | .returning _ value => Expr.optSlots value
  | .classDecl _ superclass methods =>
    Expr.optSlots superclass ++ FunctionDecl.allSlots methods

/-- The slots of statements. -/
def Stmt.allSlots : List Stmt → List (Option Nat)
  | [] => []
  | s :: ss => s.slots ++ Stmt.allSlots ss

/-- The slots of a function. -/
def FunctionDecl.slots : FunctionDecl → List (Option Nat)
  | ⟨_, _, body⟩ => Stmt.allSlots body

/-- The slots of functions. -/
def FunctionDecl.allSlots : List FunctionDecl → List (Option Nat)
  | [] => []
  | f :: fs => f.slots ++ FunctionDecl.allSlots fs

end

/-! ## Other slots -/

mutual

/-- An expression with its slots replaced. -/
def Expr.mapSlots (f : Option Nat → Option Nat) : Expr → Expr
  | .literal value => .literal value
  | .group inner => .group (inner.mapSlots f)
  | .unary operator operand => .unary operator (operand.mapSlots f)
  | .binary left operator right => .binary (left.mapSlots f) operator (right.mapSlots f)
  | .logical left operator right => .logical (left.mapSlots f) operator (right.mapSlots f)
  | .name x slot => .name x (f slot)
  | .assign x slot value => .assign x (f slot) (value.mapSlots f)
  | .call callee paren arguments =>
    .call (callee.mapSlots f) paren (Expr.mapAllSlots f arguments)
  | .get object property => .get (object.mapSlots f) property
  | .set object property value => .set (object.mapSlots f) property (value.mapSlots f)
  | .this keyword slot => .this keyword (f slot)
  | .super keyword slot method => .super keyword (f slot) method

/-- Expressions with their slots replaced. -/
def Expr.mapAllSlots (f : Option Nat → Option Nat) : List Expr → List Expr
  | [] => []
  | e :: es => e.mapSlots f :: Expr.mapAllSlots f es

end

mutual

/-- A statement with its slots replaced. -/
def Stmt.mapSlots (f : Option Nat → Option Nat) : Stmt → Stmt
  | .expr value => .expr (value.mapSlots f)
  | .print value => .print (value.mapSlots f)
  | .var name initial => .var name (initial.map (·.mapSlots f))
  | .block body => .block (Stmt.mapAllSlots f body)
  | .ifThen condition consequent => .ifThen (condition.mapSlots f) (consequent.mapSlots f)
  | .ifElse condition consequent alternative =>
    .ifElse (condition.mapSlots f) (consequent.mapSlots f) (alternative.mapSlots f)
  | .whileDo condition body => .whileDo (condition.mapSlots f) (body.mapSlots f)
  | .function declaration => .function (declaration.mapSlots f)
  | .returning keyword value => .returning keyword (value.map (·.mapSlots f))
  | .classDecl name superclass methods =>
    .classDecl name (superclass.map (·.mapSlots f)) (FunctionDecl.mapAllSlots f methods)

/-- Statements with their slots replaced. -/
def Stmt.mapAllSlots (f : Option Nat → Option Nat) : List Stmt → List Stmt
  | [] => []
  | s :: ss => s.mapSlots f :: Stmt.mapAllSlots f ss

/-- A function with its slots replaced. -/
def FunctionDecl.mapSlots (f : Option Nat → Option Nat) : FunctionDecl → FunctionDecl
  | ⟨name, parameters, body⟩ => ⟨name, parameters, Stmt.mapAllSlots f body⟩

/-- Functions with their slots replaced. -/
def FunctionDecl.mapAllSlots (f : Option Nat → Option Nat) : List FunctionDecl → List FunctionDecl
  | [] => []
  | d :: ds => d.mapSlots f :: FunctionDecl.mapAllSlots f ds

end

/-- An expression with its slots emptied. -/
def Expr.plain (e : Expr) : Expr := e.mapSlots fun _ => none

/-- Statements with their slots emptied. -/
def Stmt.allPlain (ss : List Stmt) : List Stmt := Stmt.mapAllSlots (fun _ => none) ss

/-! ## Numbers -/

mutual

/-- An expression with its slots numbered. -/
def Expr.numberFrom (n : Nat) : Expr → Expr
  | .literal value => .literal value
  | .group inner => .group (inner.numberFrom n)
  | .unary operator operand => .unary operator (operand.numberFrom n)
  | .binary left operator right =>
    .binary (left.numberFrom n) operator (right.numberFrom (n + left.slots.length))
  | .logical left operator right =>
    .logical (left.numberFrom n) operator (right.numberFrom (n + left.slots.length))
  | .name x _ => .name x (some n)
  | .assign x _ value => .assign x (some (n + value.slots.length)) (value.numberFrom n)
  | .call callee paren arguments =>
    .call (callee.numberFrom n) paren (Expr.numberAllFrom (n + callee.slots.length) arguments)
  | .get object property => .get (object.numberFrom n) property
  | .set object property value =>
    .set (object.numberFrom (n + value.slots.length)) property (value.numberFrom n)
  | .this keyword _ => .this keyword (some n)
  | .super keyword _ method => .super keyword (some n) method

/-- Expressions with their slots numbered. -/
def Expr.numberAllFrom (n : Nat) : List Expr → List Expr
  | [] => []
  | e :: es => e.numberFrom n :: Expr.numberAllFrom (n + e.slots.length) es

end

mutual

/-- A statement with its slots numbered. -/
def Stmt.numberFrom (n : Nat) : Stmt → Stmt
  | .expr value => .expr (value.numberFrom n)
  | .print value => .print (value.numberFrom n)
  | .var name initial => .var name (initial.map (·.numberFrom n))
  | .block body => .block (Stmt.numberAllFrom n body)
  | .ifThen condition consequent =>
    .ifThen (condition.numberFrom n) (consequent.numberFrom (n + condition.slots.length))
  | .ifElse condition consequent alternative =>
    .ifElse (condition.numberFrom n) (consequent.numberFrom (n + condition.slots.length))
      (alternative.numberFrom (n + (condition.slots.length + consequent.slots.length)))
  | .whileDo condition body =>
    .whileDo (condition.numberFrom n) (body.numberFrom (n + condition.slots.length))
  | .function declaration => .function (declaration.numberFrom n)
  | .returning keyword value => .returning keyword (value.map (·.numberFrom n))
  | .classDecl name superclass methods =>
    .classDecl name (superclass.map (·.numberFrom n))
      (FunctionDecl.numberAllFrom (n + (Expr.optSlots superclass).length) methods)

/-- Statements with their slots numbered. -/
def Stmt.numberAllFrom (n : Nat) : List Stmt → List Stmt
  | [] => []
  | s :: ss => s.numberFrom n :: Stmt.numberAllFrom (n + s.slots.length) ss

/-- A function with its slots numbered. -/
def FunctionDecl.numberFrom (n : Nat) : FunctionDecl → FunctionDecl
  | ⟨name, parameters, body⟩ => ⟨name, parameters, Stmt.numberAllFrom n body⟩

/-- Functions with their slots numbered. -/
def FunctionDecl.numberAllFrom (n : Nat) : List FunctionDecl → List FunctionDecl
  | [] => []
  | f :: fs => f.numberFrom n :: FunctionDecl.numberAllFrom (n + f.slots.length) fs

end

/-- As many slots as there are numbers, filled with the numbers from `n` on. -/
def numbersFrom (n count : Nat) : List (Option Nat) := (List.range' n count).map some

end LoxLang
