import LoxLang.Tree.Occurrence

/-!
# Lexical distances

What the text of a program says about names, with nothing said about how they
are looked up. The outline of a tree lists in textual order where scopes begin
and end, where names are declared and where they occur. The global scope is not
among these scopes.

A scope is around an occurrence if it begins before it and has not ended. How
many scopes have begun since and not ended is the distance. A declaration
belongs to the innermost scope around it.
-/

namespace LoxLang

/-- What a scope is made by: a block or a function, or a class, which puts a scope for `super` and
one for `this` around its methods. -/
inductive ScopeSort where
  | plain
  | super
  | this
deriving DecidableEq, Repr

/-- What one comes past in the text of a program. -/
inductive Landmark where
  | enter (sort : ScopeSort)
  | leave
  | declare (x : String)
  | occur (o : Occurrence)

/-- The occurrences in an expression, which has neither scopes nor declarations. -/
def Expr.outline (e : Expr) : List Landmark := e.occurrences.map .occur

/-- The same for an expression that may be absent. -/
def Expr.outlineOpt (o : Option Expr) : List Landmark := (Expr.occurrencesOpt o).map .occur

mutual

/-- The outline of a statement. -/
def Stmt.outline : Stmt → List Landmark
  | .expr value => value.outline
  | .print value => value.outline
  | .var name initial => .declare name.lexeme :: Expr.outlineOpt initial
  | .block body => .enter .plain :: (Stmt.outlineAll body ++ [.leave])
  | .ifThen condition consequent => condition.outline ++ consequent.outline
  | .ifElse condition consequent alternative =>
    condition.outline ++ consequent.outline ++ alternative.outline
  | .whileDo condition body => condition.outline ++ body.outline
  | .function declaration => .declare declaration.name.lexeme :: declaration.outline
  | .returning _ value => Expr.outlineOpt value
  | .classDecl name superclass methods =>
    let body := .enter .this :: (FunctionDecl.outlineAll methods ++ [.leave])
    .declare name.lexeme :: (Expr.outlineOpt superclass ++
      if superclass.isSome then .enter .super :: (body ++ [.leave]) else body)

/-- The outline of statements, one behind the other. -/
def Stmt.outlineAll : List Stmt → List Landmark
  | [] => []
  | s :: ss => s.outline ++ Stmt.outlineAll ss

/-- The outline of a function behind its name: parameters and body are in one scope. -/
def FunctionDecl.outline : FunctionDecl → List Landmark
  | ⟨_, parameters, body⟩ =>
    .enter .plain :: (parameters.map (.declare ·.lexeme) ++ Stmt.outlineAll body ++ [.leave])

/-- The outline of methods, one behind the other. -/
def FunctionDecl.outlineAll : List FunctionDecl → List Landmark
  | [] => []
  | f :: fs => f.outline ++ FunctionDecl.outlineAll fs

end

namespace Landmark

/-- How many scopes out a scope is that was some scopes out in front of the landmark; none if it
ends there. -/
def pass : Nat → Landmark → Option Nat
  | depth, enter _ => some (depth + 1)
  | 0, leave => none
  | depth + 1, leave => some depth
  | depth, declare _ | depth, occur _ => some depth

/-- How many scopes out the scope is, behind the landmarks, that is innermost in front of them; none
if it ends before. -/
def outward (since : List Landmark) : Option Nat := since.foldlM pass 0

end Landmark

open Landmark

/-- Behind these landmarks, a scope of the sort is around, and it is `depth` scopes out. -/
def Encloses (before : List Landmark) (depth : Nat) (sort : ScopeSort) : Prop :=
  ∃ outside since, before = outside ++ .enter sort :: since ∧ outward since = some depth

/-- Behind these landmarks, a scope is around in which the name was declared, and it is `depth`
scopes out. -/
def DeclaresAt (before : List Landmark) (depth : Nat) (x : String) : Prop :=
  ∃ outside sort between since,
    before = outside ++ .enter sort :: (between ++ .declare x :: since) ∧
      outward between = some 0 ∧ outward since = some depth

/-- The least number with a property. -/
def IsFirst (P : Nat → Prop) (n : Nat) : Prop := P n ∧ ∀ m < n, ¬P m

/-- The distance of an occurrence behind these landmarks: that of the innermost scope around it
in which its name was declared before. For `this` it is that of the innermost scope for `this`. For
`super` it is that of the scope just around the innermost scope for `this`, if that is one for
`super`. -/
def Distance (before : List Landmark) (o : Occurrence) (depth : Nat) : Prop :=
  match o.sort with
  | .name | .assign => IsFirst (DeclaresAt before · o.token.lexeme) depth
  | .this => IsFirst (Encloses before · .this) depth
  | .super => ∃ inner, IsFirst (Encloses before · .this) inner ∧ depth = inner + 1 ∧
      Encloses before depth .super

/-- Every occurrence has the depth that is its distance, and none if it has no distance. -/
def LexicalDepths (outline : List Landmark) : Prop :=
  ∀ before o after, outline = before ++ .occur o :: after →
    (∀ depth, o.depth = some depth ↔ Distance before o depth) ∧
      (o.depth = none ↔ ¬∃ depth, Distance before o depth)

end LoxLang
