import LoxLang.Machine.Eval

/-!
# Evaluation of trees whose depths are kept elsewhere

The same evaluation, with a way to read depths: what a node carries is not its
depth but leads to it. A node that carries its depth is the case in which
nothing has to be read (`evalVia_id`, `execVia_id`).
-/

namespace LoxLang

open LoxLang.Action MachineM

variable (depth : Option Nat → Option Nat)

mutual

/-- The value of an expression. -/
def evalVia (fuel : Nat) (e : Expr) : MachineM Value :=
  match fuel with
  | 0 => exhausted
  | fuel + 1 =>
    match e with
    | .literal value => pure value.value
    | .group inner => evalVia fuel inner
    | .unary operator operand => do
      let v ← evalVia fuel operand
      settle operator (v.unary operator.kind)
    | .binary left operator right => do
      let v ← evalVia fuel left
      let w ← evalVia fuel right
      settle operator (v.binary operator.kind w)
    | .logical left operator right => do
      let v ← evalVia fuel left
      if v.shortCircuits operator then pure v else evalVia fuel right
    | .name x slot => lookUp x (depth slot)
    | .assign x slot value => do
      let v ← evalVia fuel value
      assign x (depth slot) v
      pure v
    | .call callee paren arguments => do
      let f ← evalVia fuel callee
      let vs ← evalAll (evalVia fuel) arguments
      apply (execAll (execVia fuel)) paren f vs
    | .get object name => do
      match ← evalVia fuel object with
      | .object id k => property id k name
      | _ => raise name .readOfNonObject
    | .set object name value => do
      match ← evalVia fuel object with
      | .object id _ =>
        let v ← evalVia fuel value
        setField id name.lexeme v
        pure v
      | _ => raise name .writeOfNonObject
    | .this keyword slot => lookUp keyword (depth slot)
    | .super keyword slot method => superMethod keyword (depth slot) method
termination_by structural fuel

/-- The effect of a statement. -/
def execVia (fuel : Nat) (s : Stmt) : MachineM Flow :=
  match fuel with
  | 0 => exhausted
  | fuel + 1 =>
    match s with
    | .expr value => do
      let _ ← evalVia fuel value
      pure .next
    | .print value => do
      let v ← evalVia fuel value
      print v.text
      pure .next
    | .var name none => do
      define name.lexeme .nil
      pure .next
    | .var name (some initial) => do
      let v ← evalVia fuel initial
      define name.lexeme v
      pure .next
    | .block body => do
      let outer ← read (·.scope)
      let scope ← openScope outer
      inScope scope (execAll (execVia fuel) body)
    | .ifThen condition consequent => do
      let v ← evalVia fuel condition
      if v.truthy then execVia fuel consequent else pure .next
    | .ifElse condition consequent alternative => do
      let v ← evalVia fuel condition
      if v.truthy then execVia fuel consequent else execVia fuel alternative
    | .whileDo condition body => loop (evalVia fuel condition) (execVia fuel body) fuel
    | .function declaration => do
      let scope ← read (·.scope)
      let f ← newFunction ⟨declaration, scope, false⟩
      define declaration.name.lexeme f
      pure .next
    | .returning _ none => pure (.returned .nil)
    | .returning _ (some value) => do
      let v ← evalVia fuel value
      pure (.returned v)
    | .classDecl name superclass methods => do
      declareClass name (superclass.map fun e => (superclassToken name e, evalVia fuel e)) methods
      pure .next
termination_by structural fuel

end

/-- Where nodes carry their depths, reading them is evaluation as it is. -/
theorem evalVia_id_and_execVia_id (fuel : Nat) :
    evalVia id fuel = eval fuel ∧ execVia id fuel = exec fuel := by
  induction fuel with
  | zero => exact ⟨rfl, rfl⟩
  | succ fuel ih =>
      constructor
      · funext e
        cases e with
        | get object name =>
            simp only [evalVia, ih]
            rfl
        | set object name value =>
            simp only [evalVia, ih]
            rfl
        | _ => simp only [evalVia, eval, ih, id_eq]
      · funext s
        cases s with
        | var name initial => cases initial <;> simp only [execVia, exec, ih]
        | returning keyword value => cases value <;> simp only [execVia, exec, ih]
        | _ => simp only [execVia, exec, ih]

theorem evalVia_id (fuel : Nat) : evalVia id fuel = eval fuel :=
  (evalVia_id_and_execVia_id fuel).1

theorem execVia_id (fuel : Nat) : execVia id fuel = exec fuel :=
  (evalVia_id_and_execVia_id fuel).2

end LoxLang
