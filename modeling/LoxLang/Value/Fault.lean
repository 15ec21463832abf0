import LoxLang.Value
import LoxLang.Located

/-!
# Runtime faults

What can go wrong while a program runs. Several causes share one wording; they
are kept apart here, because resolved programs can run into some of them only.
-/

namespace LoxLang

/-- Why evaluation failed. -/
inductive Fault where
  /-- A name without a depth that the global scope does not bind. -/
  | unboundGlobal
  /-- A name with a depth whose scope does not bind it. -/
  | unboundLocal
  /-- An assignment to a name without a depth that the global scope does not bind. -/
  | unboundGlobalTarget
  /-- An assignment to a name with a depth whose scope does not bind it. -/
  | unboundLocalTarget
  /-- A `super` that leads to no class. -/
  | unboundSuper
  /-- A `super` with no object one scope further in. -/
  | unboundReceiver
  /-- The final assignment of a class declaration finds no binding. -/
  | unboundClass
  | superclassNotClass
  | negatedNonNumber
  | unknownUnary
  | unknownBinary
  | addition
  | operandsNotNumbers
  | notCallable
  | arity (expected actual : Nat)
  | tooManyCalls
  | readOfNonObject
  | writeOfNonObject
  | undefinedProperty
deriving DecidableEq, Repr

/-- The wording of a fault at a token. -/
def Fault.message (token : Token) : Fault → String
  | unboundGlobal | unboundLocal | unboundGlobalTarget | unboundLocalTarget | unboundSuper
  | unboundClass => "Undefined variable '" ++ token.lexeme ++ "'."
  | unboundReceiver => "Undefined variable 'this'."
  | superclassNotClass => "Superclass must be a class."
  | negatedNonNumber => "Must be Number."
  | unknownUnary => "Unsupported unary expression."
  | unknownBinary => "Unsupported binary expression."
  | addition => "Operands for '+' must be two numbers or two strings."
  | operandsNotNumbers => "Operands for '" ++ token.lexeme ++ "' must be numbers."
  | notCallable => "Can only call functions and classes."
  | arity expected actual =>
    "Expected " ++ toString expected ++ " arguments but got " ++ toString actual ++ "."
  | tooManyCalls => "Stack overflow."
  | readOfNonObject => "Only instances have properties."
  | writeOfNonObject => "Only instances have fields."
  | undefinedProperty => "Undefined property '" ++ token.lexeme ++ "'."

end LoxLang
