import LoxLang.Store
import LoxLang.Tree

/-!
# Runtime values

Functions and classes never change once they are made, so a value carries them
whole, with a number that tells it from another of the same content. What does
change is in the store: the bindings of scopes, and the fields of objects.

A class carries its superclass chain as a list. It is made after its
superclass, so the chain is finite by construction, and the list does not
depend on what the superclass's name is bound to later.

What a closure keeps of the place of its declaration is a parameter of all
these types; where none is given it is a scope.
-/

namespace LoxLang

/-- A function or method together with the scope it was declared in. -/
structure Closure (σ : Type := Scope) where
  declaration : FunctionDecl
  scope : σ
  isInitializer : Bool

/-- What one class declaration contributes: a name and methods, under a number of its own. -/
structure ClassLayer (σ : Type := Scope) where
  id : Nat
  name : String
  methods : List (String × Closure σ)

/-- A class: its own declaration and those of its superclasses, the nearest first. -/
structure Class (σ : Type := Scope) where
  own : ClassLayer σ
  inherited : List (ClassLayer σ)

variable {σ : Type}

namespace Class

/-- All declarations of a class, its own first. -/
def layers (k : Class σ) : List (ClassLayer σ) := k.own :: k.inherited

/-- The method of a name in the nearest declaration that has one. -/
def method? (k : Class σ) (x : String) : Option (Closure σ) :=
  k.layers.findSome? (·.methods.lookup x)

/-- The method that runs when an instance is made. -/
def initializer? (k : Class σ) : Option (Closure σ) := k.method? initializerName

end Class

/-- A value that a program can compute with. -/
inductive Value (σ : Type := Scope) where
  | nil
  | bool (b : Bool)
  | number (x : Float)
  | string (s : String)
  | clock
  | function (id : Nat) (closure : Closure σ)
  | ofClass (k : Class σ)
  | object (id : Nat) (k : Class σ)
deriving Inhabited

/-- The value of a constant. -/
def Literal.value (l : Literal) (σ : Type := Scope) : Value σ :=
  match l with
  | .number x => .number x
  | .string s => .string s
  | .bool b => .bool b
  | .nil => .nil

namespace Value

/-- Everything is true except `nil` and `false`. -/
def truthy : Value σ → Bool
  | .nil => false
  | .bool b => b
  | _ => true

/-- Equality of values: data by content and never across kinds, functions, classes and objects by
identity. A number that is not a number differs from itself. -/
def same : Value σ → Value σ → Bool
  | .nil, .nil => true
  | .bool a, .bool b => a == b
  | .number a, .number b => a == b
  | .string a, .string b => a == b
  | .clock, .clock => true
  | .function a _, .function b _ => a == b
  | .ofClass a, .ofClass b => a.own.id == b.own.id
  | .object a _, .object b _ => a == b
  | _, _ => false

/-- The text that printing a value shows. -/
def text : Value σ → String
  | .nil => "nil"
  | .bool true => "true"
  | .bool false => "false"
  | .number x => Numeral.valueText x
  | .string s => s
  | .clock => "<native fn>"
  | .function _ closure => "<fn " ++ closure.declaration.name.lexeme ++ ">"
  | .ofClass k => k.own.name
  | .object _ k => k.own.name ++ " instance"

end Value

/-- What a call runs. -/
inductive Callable (σ : Type := Scope) where
  | clock
  | closure (c : Closure σ)
  | construct (k : Class σ)

/-- The callable in a value, if it is one. -/
def Value.callable? : Value σ → Option (Callable σ)
  | .clock => some .clock
  | .function _ closure => some (.closure closure)
  | .ofClass k => some (.construct k)
  | _ => none

/-- How many arguments a callable takes; a class takes those of its initializer. -/
def Callable.arity : Callable σ → Nat
  | .clock => 0
  | .closure c => c.declaration.parameters.length
  | .construct k =>
    match k.initializer? with
    | some c => c.declaration.parameters.length
    | none => 0

end LoxLang
