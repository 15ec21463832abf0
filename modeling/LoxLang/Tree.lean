import LoxLang.Token

/-!
# Programs as trees

Expressions and statements in abstract form. A node that names a binding keeps
its token, for messages, and a depth: how many scopes out of the scope it is
evaluated in the binding lives. Trees come out of the grammar without depths;
name resolution fills them in. A node without a depth refers to the global
scope.

There is no node for `for`: the grammar writes such a loop with a block and a
`while`.
-/

namespace LoxLang

/-- A constant written in the source. -/
inductive Literal where
  | number (value : Float)
  | string (text : String)
  | bool (value : Bool)
  | nil

/-- The constant that a token denotes, if it denotes one. -/
def Token.literal? (t : Token) : Option Literal :=
  match t.kind with
  | .number value => some (.number value)
  | .string text => some (.string text)
  | .symbol .trueWord => some (.bool true)
  | .symbol .falseWord => some (.bool false)
  | .symbol .nilWord => some .nil
  | _ => none

/-- Expressions. Operators are tokens: the kind says what to do, the lexeme is for messages. -/
inductive Expr where
  | literal (value : Literal)
  | group (inner : Expr)
  | unary (operator : Token) (operand : Expr)
  | binary (left : Expr) (operator : Token) (right : Expr)
  | logical (left : Expr) (operator : Token) (right : Expr)
  | name (name : Token) (depth : Option Nat)
  | assign (name : Token) (depth : Option Nat) (value : Expr)
  | call (callee : Expr) (paren : Token) (arguments : List Expr)
  | get (object : Expr) (property : Token)
  | set (object : Expr) (property : Token) (value : Expr)
  | this (keyword : Token) (depth : Option Nat)
  | super (keyword : Token) (depth : Option Nat) (method : Token)

mutual

/-- Statements. -/
inductive Stmt where
  | expr (value : Expr)
  | print (value : Expr)
  | var (name : Token) (initial : Option Expr)
  | block (body : List Stmt)
  | ifThen (condition : Expr) (consequent : Stmt)
  | ifElse (condition : Expr) (consequent alternative : Stmt)
  | whileDo (condition : Expr) (body : Stmt)
  | function (declaration : FunctionDecl)
  | returning (keyword : Token) (value : Option Expr)
  | classDecl (name : Token) (superclass : Option Expr) (methods : List FunctionDecl)

/-- A function or method: its name, its parameters and its body. -/
structure FunctionDecl where
  name : Token
  parameters : List Token
  body : List Stmt

end

/-- The method that runs when an instance is made. -/
def initializerName : String := "init"

/-- Is this the declaration of an initializer, where it stands in a class? -/
def FunctionDecl.isInitializer (f : FunctionDecl) : Bool :=
  f.name.lexeme == initializerName

/-- What follows the keyword of a `for` loop. -/
structure ForClauses where
  initial : Option Stmt
  condition : Option Expr
  increment : Option Expr

/-- A `for` loop written with a block and a `while`: the increment runs after the body in a block
that declares nothing itself, a missing condition is true, and the loop has a scope of its own
exactly if it has an initial clause. -/
def ForClauses.toStmt (clauses : ForClauses) (body : Stmt) : Stmt :=
  let body := match clauses.increment with
    | some increment => .block [body, .expr increment]
    | none => body
  let loop := .whileDo (clauses.condition.getD (.literal (.bool true))) body
  match clauses.initial with
  | some initial => .block [initial, loop]
  | none => loop

end LoxLang
