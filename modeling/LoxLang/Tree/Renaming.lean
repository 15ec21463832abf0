import LoxLang.Tree.Occurrence

/-!
# Renaming a local variable

In a resolved tree every occurrence of a variable says how many scopes out the
variable is declared. So a variable can be renamed without looking for what
else has its name: its declaration gets the new name, and so do the occurrences
with the old name whose depth leads to the scope of the declaration.

Which scopes are meant is said by marks. They are counted from a point outward,
as depths are, so that the marks of a point and the depths of the occurrences
there go together.
-/

namespace LoxLang

/-- Which of the scopes around a point are marked, the innermost first. -/
abbrev Marks := Nat → Bool

namespace Marks

/-- No scope is marked. -/
def clear : Marks := fun _ => false

/-- The marks one scope further in. -/
def push (marks : Marks) (marked : Bool) : Marks
  | 0 => marked
  | depth + 1 => marks depth

/-- Does an occurrence with this depth refer to a name of a marked scope? -/
def leads (marks : Marks) : Option Nat → Bool
  | some depth => marks depth
  | none => false

/-- The marks around the methods of a class. The scopes that hold `super` and `this` declare no
variable. -/
def inMethods (marks : Marks) (hasSuperclass : Bool) : Marks :=
  (if hasSuperclass then marks.push false else marks).push false

end Marks

section Renaming

variable (x y : String)

/-- A name, where `x` is to be `y` if it is marked. -/
def renamedName (marked : Bool) (z : String) : String := if marked ∧ z = x then y else z

/-- A token, where the name `x` is to be `y` if it is marked. -/
def Token.renamed (marked : Bool) (t : Token) : Token :=
  { t with lexeme := renamedName x y marked t.lexeme }

mutual

/-- An expression in which `x`, where it refers to a marked scope, is `y`. -/
def Expr.rename (marks : Marks) : Expr → Expr
  | .literal value => .literal value
  | .group inner => .group (inner.rename marks)
  | .unary operator operand => .unary operator (operand.rename marks)
  | .binary left operator right => .binary (left.rename marks) operator (right.rename marks)
  | .logical left operator right => .logical (left.rename marks) operator (right.rename marks)
  | .name t depth => .name (t.renamed x y (marks.leads depth)) depth
  | .assign t depth value =>
    .assign (t.renamed x y (marks.leads depth)) depth (value.rename marks)
  | .call callee paren arguments =>
    .call (callee.rename marks) paren (Expr.renameAll marks arguments)
  | .get object property => .get (object.rename marks) property
  | .set object property value => .set (object.rename marks) property (value.rename marks)
  | .this keyword depth => .this keyword depth
  | .super keyword depth method => .super keyword depth method

/-- Expressions in which `x`, where it refers to a marked scope, is `y`. -/
def Expr.renameAll (marks : Marks) : List Expr → List Expr
  | [] => []
  | e :: es => e.rename marks :: Expr.renameAll marks es

end

mutual

/-- A statement in which `x`, where it is declared in a marked scope or refers to one, is `y`. The
scopes in the statement are not marked. -/
def Stmt.rename (marks : Marks) : Stmt → Stmt
  | .expr value => .expr (value.rename x y marks)
  | .print value => .print (value.rename x y marks)
  | .var name initial => .var (name.renamed x y (marks 0)) (initial.map (·.rename x y marks))
  | .block body => .block (Stmt.renameAll (marks.push false) body)
  | .ifThen condition consequent =>
    .ifThen (condition.rename x y marks) (consequent.rename marks)
  | .ifElse condition consequent alternative =>
    .ifElse (condition.rename x y marks) (consequent.rename marks) (alternative.rename marks)
  | .whileDo condition body => .whileDo (condition.rename x y marks) (body.rename marks)
  | .function declaration => .function (declaration.rename marks)
  | .returning keyword value => .returning keyword (value.map (·.rename x y marks))
  | .classDecl name superclass methods =>
    .classDecl name (superclass.map (·.rename x y marks))
      (FunctionDecl.renameAll (marks.inMethods superclass.isSome) methods)

/-- Statements in which `x`, where it is declared in a marked scope or refers to one, is `y`. -/
def Stmt.renameAll (marks : Marks) : List Stmt → List Stmt
  | [] => []
  | s :: ss => s.rename marks :: Stmt.renameAll marks ss

/-- The same for a function, whose own scope is not marked. -/
def FunctionDecl.rename (marks : Marks) : FunctionDecl → FunctionDecl
  | ⟨name, parameters, body⟩ => ⟨name, parameters, Stmt.renameAll (marks.push false) body⟩

/-- The same for functions. -/
def FunctionDecl.renameAll (marks : Marks) : List FunctionDecl → List FunctionDecl
  | [] => []
  | f :: fs => f.rename marks :: FunctionDecl.renameAll marks fs

end

/-- Is `x` a variable that the statement declares? -/
def Stmt.isVariable : Stmt → Bool
  | .var name _ => name.lexeme == x
  | _ => false

/-- What stands in a scope that declares `x`, with `x` renamed `y`. -/
def Stmt.renameScope (body : List Stmt) : List Stmt :=
  Stmt.renameAll x y (Marks.clear.push true) body

mutual

/-- The statement with a variable `x` of a block or function in it renamed `y`: one way for each
block that declares `x`, and for each function that has `x` as a parameter or declares it. -/
def Stmt.renamings : Stmt → List Stmt
  | .block body =>
    (if body.any (·.isVariable x) then [.block (Stmt.renameScope x y body)] else [])
      ++ (Stmt.allRenamings body).map .block
  | .ifThen condition consequent => consequent.renamings.map (.ifThen condition)
  | .ifElse condition consequent alternative =>
    consequent.renamings.map (.ifElse condition · alternative)
      ++ alternative.renamings.map (.ifElse condition consequent)
  | .whileDo condition body => body.renamings.map (.whileDo condition)
  | .function declaration => declaration.renamings.map .function
  | .classDecl name superclass methods =>
    (FunctionDecl.allRenamings methods).map (.classDecl name superclass)
  | .expr _ | .print _ | .var .. | .returning .. => []

/-- The statements with a variable `x` of a block or function in them renamed `y`, in all ways. -/
def Stmt.allRenamings : List Stmt → List (List Stmt)
  | [] => []
  | s :: ss => s.renamings.map (· :: ss) ++ (Stmt.allRenamings ss).map (s :: ·)

/-- The function with a variable `x` of its own scope, or of one in it, renamed `y`. -/
def FunctionDecl.renamings : FunctionDecl → List FunctionDecl
  | ⟨name, parameters, body⟩ =>
    (if parameters.any (·.lexeme == x) || body.any (·.isVariable x) then
      [⟨name, parameters.map (·.renamed x y true), Stmt.renameScope x y body⟩] else [])
      ++ (Stmt.allRenamings body).map fun body => ⟨name, parameters, body⟩

/-- The functions with a variable `x` of one of them renamed `y`, in all ways. -/
def FunctionDecl.allRenamings : List FunctionDecl → List (List FunctionDecl)
  | [] => []
  | f :: fs => f.renamings.map (· :: fs) ++ (FunctionDecl.allRenamings fs).map (f :: ·)

end

end Renaming

end LoxLang
