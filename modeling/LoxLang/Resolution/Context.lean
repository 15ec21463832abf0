import LoxLang.Located
import LoxLang.Tree

/-!
# What is known at a point of a program before it runs

A context holds the enclosing scopes that name resolution tracks, innermost
first, and says what kind of function and class the point is in. The global
scope is not tracked: its names are looked up when they are used, and they may
be declared more than once.

In a scope a name is pending from its declaration to the end of its
initializer, and ready from then on.
-/

namespace LoxLang

/-- The rules that a program can break without running. -/
inductive StaticError where
  | redeclared
  | ownInitializer
  | topLevelReturn
  | initializerReturn
  | thisOutsideClass
  | superOutsideClass
  | superWithoutSuperclass
  | selfInheritance
  | alreadyResolved
deriving DecidableEq, Repr

/-- The wording of a static error. -/
def StaticError.message : StaticError → String
  | redeclared => "Variable already declared in this scope."
  | ownInitializer => "Can't read local variable in its own initializer."
  | topLevelReturn => "Can't return from top-level code."
  | initializerReturn => "Can't return a value from an initializer."
  | thisOutsideClass => "Can't use 'this' outside of a class."
  | superOutsideClass => "Can't use 'super' outside of a class."
  | superWithoutSuperclass => "Can't use 'super' in a class with no superclass."
  | selfInheritance => "A class can't inherit from itself."
  | alreadyResolved => "Expression already resolved."

/-- The kind of the innermost enclosing function. -/
inductive Body where
  | topLevel
  | function
  | method
  | initializer
deriving DecidableEq, Repr

/-- The kind of the innermost enclosing class. -/
inductive ClassBody where
  | outside
  | root
  | derived
deriving DecidableEq, Repr

/-- Whether the initializer of a declared name has been read. -/
inductive Readiness where
  | pending
  | ready
deriving DecidableEq, Repr

/-- The names declared so far in one scope, the latest first. -/
abbrev Declared := List (String × Readiness)

/-- The tracked scopes around a point, innermost first, and the kinds of its function and class. -/
structure Context where
  scopes : List Declared
  body : Body
  classBody : ClassBody

namespace Context

/-- Outside every scope, function and class. -/
def global : Context := ⟨[], .topLevel, .outside⟩

/-- A context one fresh scope further in. -/
def enter (c : Context) : Context := { c with scopes := [] :: c.scopes }

/-- Does a scope declare the name? -/
def declares (scope : Declared) (x : String) : Bool := (scope.lookup x).isSome

/-- Does the innermost tracked scope declare the name? -/
def declaresHere (c : Context) (x : String) : Bool :=
  match c.scopes with
  | [] => false
  | scope :: _ => declares scope x

/-- Is the name declared in the innermost tracked scope, and its initializer still being read? -/
def isPending (c : Context) (x : String) : Bool :=
  match c.scopes with
  | [] => false
  | scope :: _ => scope.lookup x == some .pending

/-- How many tracked scopes out the name is declared, if in any. -/
def depthOf? (c : Context) (x : String) : Option Nat :=
  c.scopes.findIdx? (declares · x)

/-- A name becomes pending in the innermost scope, unless that declares it already. -/
def declare (c : Context) (x : String) : Context :=
  match c.scopes with
  | [] => c
  | scope :: outer =>
    if declares scope x then c else { c with scopes := ((x, .pending) :: scope) :: outer }

/-- A name becomes ready in the innermost scope. -/
def define (c : Context) (x : String) : Context :=
  match c.scopes with
  | [] => c
  | scope :: outer => { c with scopes := ((x, .ready) :: scope) :: outer }

/-- A name that is ready as soon as it is declared. -/
def introduce (c : Context) (x : String) : Context := (c.declare x).define x

/-- The error of declaring a name in a scope that has it. -/
def redeclaration (c : Context) (name : Token) : List (Located StaticError) :=
  if c.declaresHere name.lexeme then [⟨name, .redeclared⟩] else []

/-- The body of a function: a fresh scope that holds its parameters. -/
def inFunction (c : Context) (kind : Body) (parameters : List Token) : Context :=
  parameters.foldl (fun c p => c.introduce p.lexeme) { c.enter with body := kind }

/-- The errors of declaring parameters one after another. -/
def parameterErrors (c : Context) : List Token → List (Located StaticError)
  | [] => []
  | p :: ps => c.redeclaration p ++ (c.introduce p.lexeme).parameterErrors ps

/-- The place of a superclass name. -/
def inSuperclass (c : Context) : Context := { c with classBody := .derived }

/-- The place of the methods of a class: `this` in a scope of its own, and around it, if the class
has a superclass, `super` in one. -/
def inMethods (c : Context) (hasSuperclass : Bool) : Context :=
  let outer := if hasSuperclass then (c.enter.define "super") else c
  { outer.enter.define "this" with classBody := if hasSuperclass then .derived else .root }

end Context

/-- What kind of body a method has. -/
def FunctionDecl.methodBody (f : FunctionDecl) : Body :=
  if f.isInitializer then .initializer else .method

/-- The context behind a statement. Only declarations change it, and a declaration that is the
branch of an `if` or the body of a loop declares where that statement stands. -/
def Stmt.after (c : Context) : Stmt → Context
  | .var name _ => c.introduce name.lexeme
  | .function f => c.introduce f.name.lexeme
  | .classDecl name _ _ => c.introduce name.lexeme
  | .ifThen _ consequent => consequent.after c
  | .ifElse _ consequent alternative => alternative.after (consequent.after c)
  | .whileDo _ body => body.after c
  | .expr _ | .print _ | .block _ | .returning _ _ => c

end LoxLang
