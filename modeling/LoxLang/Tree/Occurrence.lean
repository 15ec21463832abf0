import LoxLang.Tree

/-!
# The occurrences of names in a tree

The nodes of a tree that carry a depth, in source order: names, assignments,
`this` and `super`. An assignment stands before its value, a property write has
its object before its value, a class its superclass before its methods.

`refill` puts a list of depths back into a tree in the same order, so that the
depths of a tree can be handled as a list.
-/

namespace LoxLang

/-- Which node an occurrence is. -/
inductive Occurrence.Sort where
  | name
  | assign
  | this
  | super
deriving DecidableEq, Repr

/-- A node that refers to a binding. -/
structure Occurrence where
  sort : Occurrence.Sort
  token : Token
  depth : Option Nat

mutual

/-- The occurrences in an expression. -/
def Expr.occurrences : Expr → List Occurrence
  | .literal _ => []
  | .group inner => inner.occurrences
  | .unary _ operand => operand.occurrences
  | .binary left _ right => left.occurrences ++ right.occurrences
  | .logical left _ right => left.occurrences ++ right.occurrences
  | .name x depth => [⟨.name, x, depth⟩]
  | .assign x depth value => ⟨.assign, x, depth⟩ :: value.occurrences
  | .call callee _ arguments => callee.occurrences ++ Expr.occurrencesAll arguments
  | .get object _ => object.occurrences
  | .set object _ value => object.occurrences ++ value.occurrences
  | .this keyword depth => [⟨.this, keyword, depth⟩]
  | .super keyword depth _ => [⟨.super, keyword, depth⟩]

/-- The occurrences in a list of expressions. -/
def Expr.occurrencesAll : List Expr → List Occurrence
  | [] => []
  | e :: es => e.occurrences ++ Expr.occurrencesAll es

end

/-- The occurrences in an expression that may be absent. -/
def Expr.occurrencesOpt : Option Expr → List Occurrence
  | none => []
  | some e => e.occurrences

mutual

/-- The occurrences in a statement. -/
def Stmt.occurrences : Stmt → List Occurrence
  | .expr value => value.occurrences
  | .print value => value.occurrences
  | .var _ initial => Expr.occurrencesOpt initial
  | .block body => Stmt.occurrencesAll body
  | .ifThen condition consequent => condition.occurrences ++ consequent.occurrences
  | .ifElse condition consequent alternative =>
    condition.occurrences ++ consequent.occurrences ++ alternative.occurrences
  | .whileDo condition body => condition.occurrences ++ body.occurrences
  | .function declaration => declaration.occurrences
  | .returning _ value => Expr.occurrencesOpt value
  | .classDecl _ superclass methods =>
    Expr.occurrencesOpt superclass ++ FunctionDecl.occurrencesAll methods

/-- The occurrences in a list of statements. -/
def Stmt.occurrencesAll : List Stmt → List Occurrence
  | [] => []
  | s :: ss => s.occurrences ++ Stmt.occurrencesAll ss

/-- The occurrences in a function. -/
def FunctionDecl.occurrences : FunctionDecl → List Occurrence
  | ⟨_, _, body⟩ => Stmt.occurrencesAll body

/-- The occurrences in a list of functions. -/
def FunctionDecl.occurrencesAll : List FunctionDecl → List Occurrence
  | [] => []
  | f :: fs => f.occurrences ++ FunctionDecl.occurrencesAll fs

end

/-- Depths still to be put into a tree, the next one first. -/
abbrev Depths := List (Option Nat)

/-- The next depth and the others; none where there are too few. -/
def Depths.next : Depths → Option Nat × Depths
  | [] => (none, [])
  | d :: ds => (d, ds)

mutual

/-- An expression with its depths replaced in order, and the depths not used. -/
def Expr.refill (ds : Depths) : Expr → Expr × Depths
  | .literal value => (.literal value, ds)
  | .group inner =>
    let (inner, ds) := inner.refill ds
    (.group inner, ds)
  | .unary operator operand =>
    let (operand, ds) := operand.refill ds
    (.unary operator operand, ds)
  | .binary left operator right =>
    let (left, ds) := left.refill ds
    let (right, ds) := right.refill ds
    (.binary left operator right, ds)
  | .logical left operator right =>
    let (left, ds) := left.refill ds
    let (right, ds) := right.refill ds
    (.logical left operator right, ds)
  | .name x _ => (.name x (Depths.next ds).1, (Depths.next ds).2)
  | .assign x _ value =>
    let (value, rest) := value.refill (Depths.next ds).2
    (.assign x (Depths.next ds).1 value, rest)
  | .call callee paren arguments =>
    let (callee, ds) := callee.refill ds
    let (arguments, ds) := Expr.refillAll ds arguments
    (.call callee paren arguments, ds)
  | .get object property =>
    let (object, ds) := object.refill ds
    (.get object property, ds)
  | .set object property value =>
    let (object, ds) := object.refill ds
    let (value, ds) := value.refill ds
    (.set object property value, ds)
  | .this keyword _ => (.this keyword (Depths.next ds).1, (Depths.next ds).2)
  | .super keyword _ method => (.super keyword (Depths.next ds).1 method, (Depths.next ds).2)

/-- A list of expressions with its depths replaced in order. -/
def Expr.refillAll (ds : Depths) : List Expr → List Expr × Depths
  | [] => ([], ds)
  | e :: es =>
    let (e, ds) := e.refill ds
    let (es, ds) := Expr.refillAll ds es
    (e :: es, ds)

end

/-- An expression that may be absent, with its depths replaced in order. -/
def Expr.refillOpt (ds : Depths) : Option Expr → Option Expr × Depths
  | none => (none, ds)
  | some e =>
    let (e, ds) := e.refill ds
    (some e, ds)

mutual

/-- A statement with its depths replaced in order, and the depths not used. -/
def Stmt.refill (ds : Depths) : Stmt → Stmt × Depths
  | .expr value =>
    let (value, ds) := value.refill ds
    (.expr value, ds)
  | .print value =>
    let (value, ds) := value.refill ds
    (.print value, ds)
  | .var name initial =>
    let (initial, ds) := Expr.refillOpt ds initial
    (.var name initial, ds)
  | .block body =>
    let (body, ds) := Stmt.refillAll ds body
    (.block body, ds)
  | .ifThen condition consequent =>
    let (condition, ds) := condition.refill ds
    let (consequent, ds) := consequent.refill ds
    (.ifThen condition consequent, ds)
  | .ifElse condition consequent alternative =>
    let (condition, ds) := condition.refill ds
    let (consequent, ds) := consequent.refill ds
    let (alternative, ds) := alternative.refill ds
    (.ifElse condition consequent alternative, ds)
  | .whileDo condition body =>
    let (condition, ds) := condition.refill ds
    let (body, ds) := body.refill ds
    (.whileDo condition body, ds)
  | .function declaration =>
    let (declaration, ds) := declaration.refill ds
    (.function declaration, ds)
  | .returning keyword value =>
    let (value, ds) := Expr.refillOpt ds value
    (.returning keyword value, ds)
  | .classDecl name superclass methods =>
    let (superclass, ds) := Expr.refillOpt ds superclass
    let (methods, ds) := FunctionDecl.refillAll ds methods
    (.classDecl name superclass methods, ds)

/-- A list of statements with its depths replaced in order. -/
def Stmt.refillAll (ds : Depths) : List Stmt → List Stmt × Depths
  | [] => ([], ds)
  | s :: ss =>
    let (s, ds) := s.refill ds
    let (ss, ds) := Stmt.refillAll ds ss
    (s :: ss, ds)

/-- A function with its depths replaced in order. -/
def FunctionDecl.refill (ds : Depths) : FunctionDecl → FunctionDecl × Depths
  | ⟨name, parameters, body⟩ =>
    let (body, ds) := Stmt.refillAll ds body
    (⟨name, parameters, body⟩, ds)

/-- A list of functions with its depths replaced in order. -/
def FunctionDecl.refillAll (ds : Depths) : List FunctionDecl → List FunctionDecl × Depths
  | [] => ([], ds)
  | f :: fs =>
    let (f, ds) := f.refill ds
    let (fs, ds) := FunctionDecl.refillAll ds fs
    (f :: fs, ds)

end

/-- A program in which the occurrence with the given index refers to the binding `depth` scopes out,
and whether that could be recorded: an occurrence keeps a depth it has. -/
def Stmt.record (program : List Stmt) (index depth : Nat) : List Stmt × Bool :=
  let depths := (Stmt.occurrencesAll program).map (·.depth)
  match depths[index]? with
  | some none => ((Stmt.refillAll (depths.set index (some depth)) program).1, true)
  | _ => (program, false)

end LoxLang
