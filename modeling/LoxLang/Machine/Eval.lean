import LoxLang.Machine.Call
import LoxLang.Value.Operators

/-!
# Evaluation

The meaning of expressions and statements as actions. Fuel bounds the depth of
the recursion and the rounds of each loop, and it is the only reason why an
evaluation may not end. All recursion is on the fuel, so that evaluation is an
ordinary function that a proof can unfold.

Operands are evaluated from left to right and before any check on them, with
one exception: the object of a property write is checked before the value is
evaluated.
-/

namespace LoxLang

open LoxLang.Action MachineM

/-- The token at which a superclass that is no class is reported. -/
def superclassToken (name : Token) : Expr → Token
  | .name x _ => x
  | _ => name

mutual

/-- The value of an expression. -/
def eval (fuel : Nat) (e : Expr) : MachineM Value :=
  match fuel with
  | 0 => exhausted
  | fuel + 1 =>
    match e with
    | .literal value => pure value.value
    | .group inner => eval fuel inner
    | .unary operator operand => do
      let v ← eval fuel operand
      settle operator (v.unary operator.kind)
    | .binary left operator right => do
      let v ← eval fuel left
      let w ← eval fuel right
      settle operator (v.binary operator.kind w)
    | .logical left operator right => do
      let v ← eval fuel left
      if v.shortCircuits operator then pure v else eval fuel right
    | .name x depth => lookUp x depth
    | .assign x depth value => do
      let v ← eval fuel value
      assign x depth v
      pure v
    | .call callee paren arguments => do
      let f ← eval fuel callee
      let vs ← evalAll (eval fuel) arguments
      apply (execAll (exec fuel)) paren f vs
    | .get object name => do
      match ← eval fuel object with
      | .object id k => property id k name
      | _ => raise name .readOfNonObject
    | .set object name value => do
      match ← eval fuel object with
      | .object id _ =>
        let v ← eval fuel value
        setField id name.lexeme v
        pure v
      | _ => raise name .writeOfNonObject
    | .this keyword depth => lookUp keyword depth
    | .super keyword depth method => superMethod keyword depth method
termination_by structural fuel

/-- The effect of a statement. -/
def exec (fuel : Nat) (s : Stmt) : MachineM Flow :=
  match fuel with
  | 0 => exhausted
  | fuel + 1 =>
    match s with
    | .expr value => do
      let _ ← eval fuel value
      pure .next
    | .print value => do
      let v ← eval fuel value
      print v.text
      pure .next
    | .var name none => do
      define name.lexeme .nil
      pure .next
    | .var name (some initial) => do
      let v ← eval fuel initial
      define name.lexeme v
      pure .next
    | .block body => do
      let outer ← read (·.scope)
      let scope ← openScope outer
      inScope scope (execAll (exec fuel) body)
    | .ifThen condition consequent => do
      let v ← eval fuel condition
      if v.truthy then exec fuel consequent else pure .next
    | .ifElse condition consequent alternative => do
      let v ← eval fuel condition
      if v.truthy then exec fuel consequent else exec fuel alternative
    | .whileDo condition body => loop (eval fuel condition) (exec fuel body) fuel
    | .function declaration => do
      let scope ← read (·.scope)
      let f ← newFunction ⟨declaration, scope, false⟩
      define declaration.name.lexeme f
      pure .next
    | .returning _ none => pure (.returned .nil)
    | .returning _ (some value) => do
      let v ← eval fuel value
      pure (.returned v)
    | .classDecl name superclass methods => do
      declareClass name (superclass.map fun e => (superclassToken name e, eval fuel e)) methods
      pure .next
termination_by structural fuel

end

/-- A program run at top level. A `return` there ends it. -/
def execProgram (fuel : Nat) (program : List Stmt) : MachineM Flow :=
  execAll (exec fuel) program

end LoxLang
