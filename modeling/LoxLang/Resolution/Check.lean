import LoxLang.Resolution.Context

/-!
# The static rules

The errors of a program in the order of the walk that resolves it: the value of
an assignment comes before its target, the value of a property write before its
object. An occurrence that has a depth already and would get one again is an
error too.
-/

namespace LoxLang

namespace Context

/-- The error of resolving an occurrence a second time. -/
def resolvedAgain (c : Context) (depth : Option Nat) (name : Token) :
    List (Located StaticError) :=
  if depth.isSome && (c.depthOf? name.lexeme).isSome then [⟨name, .alreadyResolved⟩] else []

/-- The error of reading a local variable in its own initializer. -/
def ownInitializerError (c : Context) (name : Token) : List (Located StaticError) :=
  if c.isPending name.lexeme then [⟨name, .ownInitializer⟩] else []

/-- The errors of a `this`. -/
def thisErrors (c : Context) (depth : Option Nat) (keyword : Token) :
    List (Located StaticError) :=
  if c.classBody = .outside then [⟨keyword, .thisOutsideClass⟩]
  else c.resolvedAgain depth keyword

/-- The errors of a `super`. -/
def superErrors (c : Context) (depth : Option Nat) (keyword : Token) :
    List (Located StaticError) :=
  match c.classBody with
  | .outside => [⟨keyword, .superOutsideClass⟩]
  | .root => [⟨keyword, .superWithoutSuperclass⟩]
  | .derived => c.resolvedAgain depth keyword

/-- The errors of a `return` apart from those of its value. -/
def returnErrors (c : Context) (hasValue : Bool) (keyword : Token) :
    List (Located StaticError) :=
  match c.body with
  | .topLevel => [⟨keyword, .topLevelReturn⟩]
  | .initializer => if hasValue then [⟨keyword, .initializerReturn⟩] else []
  | .function | .method => []

end Context

/-- The error of a class that names itself as its superclass. -/
def Expr.selfInheritance (name : Token) : Expr → List (Located StaticError)
  | .name x _ => if x.lexeme == name.lexeme then [⟨x, .selfInheritance⟩] else []
  | _ => []

mutual

/-- The errors in an expression, seen from a context. -/
def Expr.errors (c : Context) : Expr → List (Located StaticError)
  | .literal _ => []
  | .group inner => inner.errors c
  | .unary _ operand => operand.errors c
  | .binary left _ right => left.errors c ++ right.errors c
  | .logical left _ right => left.errors c ++ right.errors c
  | .name x depth => c.ownInitializerError x ++ c.resolvedAgain depth x
  | .assign x depth value => value.errors c ++ c.resolvedAgain depth x
  | .call callee _ arguments => callee.errors c ++ Expr.errorsAll c arguments
  | .get object _ => object.errors c
  | .set object _ value => value.errors c ++ object.errors c
  | .this keyword depth => c.thisErrors depth keyword
  | .super keyword depth _ => c.superErrors depth keyword

/-- The errors in expressions. -/
def Expr.errorsAll (c : Context) : List Expr → List (Located StaticError)
  | [] => []
  | e :: es => e.errors c ++ Expr.errorsAll c es

end

/-- The errors in an expression that may be absent. -/
def Expr.errorsOpt (c : Context) : Option Expr → List (Located StaticError)
  | none => []
  | some e => e.errors c

mutual

/-- The errors in a statement, seen from a context. -/
def Stmt.errors (c : Context) : Stmt → List (Located StaticError)
  | .expr value => value.errors c
  | .print value => value.errors c
  | .var name initial =>
    c.redeclaration name ++ Expr.errorsOpt (c.declare name.lexeme) initial
  | .block body => Stmt.errorsAll c.enter body
  | .ifThen condition consequent => condition.errors c ++ consequent.errors c
  | .ifElse condition consequent alternative =>
    condition.errors c ++ consequent.errors c ++ alternative.errors (consequent.after c)
  | .whileDo condition body => condition.errors c ++ body.errors c
  | .function f => c.redeclaration f.name ++ f.errors .function (c.introduce f.name.lexeme)
  | .returning keyword value => c.returnErrors value.isSome keyword ++ Expr.errorsOpt c value
  | .classDecl name superclass methods =>
    let inner := c.introduce name.lexeme
    c.redeclaration name
      ++ (superclass.map (·.selfInheritance name)).getD []
      ++ Expr.errorsOpt inner.inSuperclass superclass
      ++ FunctionDecl.methodErrors (inner.inMethods superclass.isSome) methods

/-- The errors in statements, each seen from the context behind those before it. -/
def Stmt.errorsAll (c : Context) : List Stmt → List (Located StaticError)
  | [] => []
  | s :: ss => s.errors c ++ Stmt.errorsAll (s.after c) ss

/-- The errors in a function: its parameters, then its body. -/
def FunctionDecl.errors (kind : Body) (c : Context) : FunctionDecl → List (Located StaticError)
  | ⟨_, parameters, body⟩ =>
    { c.enter with body := kind }.parameterErrors parameters
      ++ Stmt.errorsAll (c.inFunction kind parameters) body

/-- The errors in methods. -/
def FunctionDecl.methodErrors (c : Context) : List FunctionDecl → List (Located StaticError)
  | [] => []
  | m :: ms => m.errors m.methodBody c ++ FunctionDecl.methodErrors c ms

end

/-- The errors of resolving a program. -/
def Stmt.staticErrors (program : List Stmt) : List (Located StaticError) :=
  Stmt.errorsAll .global program

end LoxLang
