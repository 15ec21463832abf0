import LoxLang.Resolution.Context

/-!
# Filling in depths

An occurrence of a name gets the distance to the innermost tracked scope that
declares the name before it. An occurrence that no tracked scope declares stays
without a depth and means a global; so does a misplaced `this` or `super`. A
depth that is there already is kept.
-/

namespace LoxLang

namespace Context

/-- The depth of an occurrence of a name. -/
def annotated (c : Context) (depth : Option Nat) (name : Token) : Option Nat :=
  depth.or (c.depthOf? name.lexeme)

/-- The depth of a `this`, which means something inside classes only. -/
def annotatedThis (c : Context) (depth : Option Nat) (keyword : Token) : Option Nat :=
  if c.classBody = .outside then depth else c.annotated depth keyword

/-- The depth of a `super`, which means something inside classes with a superclass only. -/
def annotatedSuper (c : Context) (depth : Option Nat) (keyword : Token) : Option Nat :=
  if c.classBody = .derived then c.annotated depth keyword else depth

end Context

mutual

/-- An expression with depths, seen from a context. -/
def Expr.annotate (c : Context) : Expr → Expr
  | .literal value => .literal value
  | .group inner => .group (inner.annotate c)
  | .unary operator operand => .unary operator (operand.annotate c)
  | .binary left operator right => .binary (left.annotate c) operator (right.annotate c)
  | .logical left operator right => .logical (left.annotate c) operator (right.annotate c)
  | .name x depth => .name x (c.annotated depth x)
  | .assign x depth value => .assign x (c.annotated depth x) (value.annotate c)
  | .call callee paren arguments =>
    .call (callee.annotate c) paren (Expr.annotateAll c arguments)
  | .get object property => .get (object.annotate c) property
  | .set object property value => .set (object.annotate c) property (value.annotate c)
  | .this keyword depth => .this keyword (c.annotatedThis depth keyword)
  | .super keyword depth method => .super keyword (c.annotatedSuper depth keyword) method

/-- Expressions with depths. -/
def Expr.annotateAll (c : Context) : List Expr → List Expr
  | [] => []
  | e :: es => e.annotate c :: Expr.annotateAll c es

end

mutual

/-- A statement with depths, seen from a context. -/
def Stmt.annotate (c : Context) : Stmt → Stmt
  | .expr value => .expr (value.annotate c)
  | .print value => .print (value.annotate c)
  | .var name initial => .var name (initial.map (·.annotate (c.declare name.lexeme)))
  | .block body => .block (Stmt.annotateAll c.enter body)
  | .ifThen condition consequent => .ifThen (condition.annotate c) (consequent.annotate c)
  | .ifElse condition consequent alternative =>
    .ifElse (condition.annotate c) (consequent.annotate c)
      (alternative.annotate (consequent.after c))
  | .whileDo condition body => .whileDo (condition.annotate c) (body.annotate c)
  | .function f => .function (f.annotate .function (c.introduce f.name.lexeme))
  | .returning keyword value => .returning keyword (value.map (·.annotate c))
  | .classDecl name superclass methods =>
    let c := c.introduce name.lexeme
    .classDecl name (superclass.map (·.annotate c.inSuperclass))
      (FunctionDecl.annotateMethods (c.inMethods superclass.isSome) methods)

/-- Statements with depths, each seen from the context behind those before it. -/
def Stmt.annotateAll (c : Context) : List Stmt → List Stmt
  | [] => []
  | s :: ss => s.annotate c :: Stmt.annotateAll (s.after c) ss

/-- A function with depths. -/
def FunctionDecl.annotate (kind : Body) (c : Context) : FunctionDecl → FunctionDecl
  | ⟨name, parameters, body⟩ =>
    ⟨name, parameters, Stmt.annotateAll (c.inFunction kind parameters) body⟩

/-- Methods with depths. -/
def FunctionDecl.annotateMethods (c : Context) : List FunctionDecl → List FunctionDecl
  | [] => []
  | m :: ms => m.annotate m.methodBody c :: FunctionDecl.annotateMethods c ms

end

/-- A program with depths. -/
def Stmt.resolve (program : List Stmt) : List Stmt := Stmt.annotateAll .global program

end LoxLang
