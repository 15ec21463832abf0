import LoxLang.Resolution.Annotate

/-!
# Programs as they are written

In these trees a `for` statement has a node of its own, and nothing else is
different. Its initial clause is a declaration or an expression. `desugar` gives
the tree without such nodes that the grammar makes of the program.

The depths of a program are found here by the rules for the nodes that are
written: a `for` statement has a scope if it has an initial clause, and its
condition, its increment and its body are seen from there. A body is no
declaration, so it declares nothing in that scope.
-/

namespace LoxLang

namespace Written

/-! ## Trees -/

/-- The initial clause of a `for` statement. -/
inductive Initial where
  | var (name : Token) (value : Option Expr)
  | expr (value : Expr)

mutual

/-- Statements. -/
inductive Stmt where
  | expr (value : Expr)
  | print (value : Expr)
  | var (name : Token) (initial : Option Expr)
  | block (body : List Stmt)
  | ifThen (condition : Expr) (consequent : Stmt)
  | ifElse (condition : Expr) (consequent alternative : Stmt)
  | whileDo (condition : Expr) (body : Stmt)
  | forDo (initial : Option Initial) (condition increment : Option Expr) (body : Stmt)
  | function (declaration : FunctionDecl)
  | returning (keyword : Token) (value : Option Expr)
  | classDecl (name : Token) (superclass : Option Expr) (methods : List FunctionDecl)

/-- A function or method: its name, its parameters and its body. -/
structure FunctionDecl where
  name : Token
  parameters : List Token
  body : List Stmt

end

/-- The initial clause as a statement. -/
def Initial.stmt : Initial → Stmt
  | .var name value => .var name value
  | .expr value => .expr value

/-- Is this the declaration of an initializer, where it stands in a class? -/
def FunctionDecl.isInitializer (f : FunctionDecl) : Bool := f.name.lexeme == initializerName

/-- What kind of body a method has. -/
def FunctionDecl.methodBody (f : FunctionDecl) : Body :=
  if f.isInitializer then .initializer else .method

/-- Does the statement declare a name where it stands? -/
def Stmt.isDeclaration : Stmt → Bool
  | .var .. | .function _ | .classDecl .. => true
  | _ => false

mutual

/-- No branch and no loop body is a declaration. -/
def Stmt.Formed : Stmt → Prop
  | .expr _ | .print _ | .var .. | .returning .. => True
  | .block body => Stmt.FormedAll body
  | .ifThen _ consequent => consequent.Formed ∧ consequent.isDeclaration = false
  | .ifElse _ consequent alternative =>
    (consequent.Formed ∧ consequent.isDeclaration = false) ∧
      alternative.Formed ∧ alternative.isDeclaration = false
  | .whileDo _ body | .forDo _ _ _ body => body.Formed ∧ body.isDeclaration = false
  | .function declaration => declaration.Formed
  | .classDecl _ _ methods => FunctionDecl.FormedAll methods

/-- The same for statements. -/
def Stmt.FormedAll : List Stmt → Prop
  | [] => True
  | s :: ss => s.Formed ∧ Stmt.FormedAll ss

/-- The same for the body of a function. -/
def FunctionDecl.Formed : FunctionDecl → Prop
  | ⟨_, _, body⟩ => Stmt.FormedAll body

/-- The same for the bodies of functions. -/
def FunctionDecl.FormedAll : List FunctionDecl → Prop
  | [] => True
  | f :: fs => f.Formed ∧ FunctionDecl.FormedAll fs

end

/-! ## Without `for` -/

/-- The initial clause as a statement of the language without `for`. -/
def Initial.desugar : Initial → LoxLang.Stmt
  | .var name value => .var name value
  | .expr value => .expr value

mutual

/-- The statement with blocks and `while` loops for its `for` statements. -/
def Stmt.desugar : Stmt → LoxLang.Stmt
  | .expr value => .expr value
  | .print value => .print value
  | .var name initial => .var name initial
  | .block body => .block (Stmt.desugarAll body)
  | .ifThen condition consequent => .ifThen condition consequent.desugar
  | .ifElse condition consequent alternative =>
    .ifElse condition consequent.desugar alternative.desugar
  | .whileDo condition body => .whileDo condition body.desugar
  | .forDo initial condition increment body =>
    ForClauses.toStmt ⟨initial.map (·.desugar), condition, increment⟩ body.desugar
  | .function declaration => .function declaration.desugar
  | .returning keyword value => .returning keyword value
  | .classDecl name superclass methods =>
    .classDecl name superclass (FunctionDecl.desugarAll methods)

/-- The same for statements. -/
def Stmt.desugarAll : List Stmt → List LoxLang.Stmt
  | [] => []
  | s :: ss => s.desugar :: Stmt.desugarAll ss

/-- The same for a function. -/
def FunctionDecl.desugar : FunctionDecl → LoxLang.FunctionDecl
  | ⟨name, parameters, body⟩ => ⟨name, parameters, Stmt.desugarAll body⟩

/-- The same for functions. -/
def FunctionDecl.desugarAll : List FunctionDecl → List LoxLang.FunctionDecl
  | [] => []
  | f :: fs => f.desugar :: FunctionDecl.desugarAll fs

end

/-! ## Depths -/

/-- The context behind an initial clause. -/
def Initial.after (c : Context) : Initial → Context
  | .var name _ => c.introduce name.lexeme
  | .expr _ => c

/-- The context in which a `for` statement goes on behind its initial clause. -/
def loopContext (c : Context) : Option Initial → Context
  | none => c
  | some initial => initial.after c.enter

/-- The context behind a statement. -/
def Stmt.after (c : Context) : Stmt → Context
  | .var name _ | .classDecl name _ _ => c.introduce name.lexeme
  | .function f => c.introduce f.name.lexeme
  | _ => c

/-- An initial clause with depths. -/
def Initial.annotate (c : Context) : Initial → Initial
  | .var name value => .var name (value.map (·.annotate (c.declare name.lexeme)))
  | .expr value => .expr (value.annotate c)

mutual

/-- A statement with depths, seen from a context. -/
def Stmt.annotate (c : Context) : Stmt → Stmt
  | .expr value => .expr (value.annotate c)
  | .print value => .print (value.annotate c)
  | .var name initial => .var name (initial.map (·.annotate (c.declare name.lexeme)))
  | .block body => .block (Stmt.annotateAll c.enter body)
  | .ifThen condition consequent => .ifThen (condition.annotate c) (consequent.annotate c)
  | .ifElse condition consequent alternative =>
    .ifElse (condition.annotate c) (consequent.annotate c) (alternative.annotate c)
  | .whileDo condition body => .whileDo (condition.annotate c) (body.annotate c)
  | .forDo initial condition increment body =>
    let inner := loopContext c initial
    .forDo (initial.map (·.annotate c.enter)) (condition.map (·.annotate inner))
      (increment.map (·.annotate inner)) (body.annotate inner)
  | .function f => .function (f.annotate .function (c.introduce f.name.lexeme))
  | .returning keyword value => .returning keyword (value.map (·.annotate c))
  | .classDecl name superclass methods =>
    let c := c.introduce name.lexeme
    .classDecl name (superclass.map (·.annotate c.inSuperclass))
      (FunctionDecl.annotateMethods (c.inMethods superclass.isSome) methods)

/-- Statements with depths, each seen from the context behind those before it. -/
def Stmt.annotateAll (c : Context) : List Stmt → List Stmt
  | [] => []
  | s :: ss => s.annotate c :: Stmt.annotateAll (s.after c) ss

/-- A function with depths. -/
def FunctionDecl.annotate (kind : Body) (c : Context) : FunctionDecl → FunctionDecl
  | ⟨name, parameters, body⟩ =>
    ⟨name, parameters, Stmt.annotateAll (c.inFunction kind parameters) body⟩

/-- Methods with depths. -/
def FunctionDecl.annotateMethods (c : Context) : List FunctionDecl → List FunctionDecl
  | [] => []
  | m :: ms => m.annotate m.methodBody c :: FunctionDecl.annotateMethods c ms

end

/-- A program with depths. -/
def Stmt.resolve (program : List Stmt) : List Stmt := Stmt.annotateAll .global program

end Written

end LoxLang
