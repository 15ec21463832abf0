import LoxLang.Machine.Call
import LoxLang.Value.Operators
import LoxLang.Machine.Eval
import LoxLang.Diagnostic

/-!
# Lexical scoping, without depths

A second evaluator, which says what names mean by saying nothing about frames
and depths. An environment is a finite map from the local names visible at a
point to cells. It is a value: a declaration makes a longer one, a closure
keeps the one in force where it was declared, and nothing ever changes one.
Contents change in the cells only. A name that is not in the map is global, and
globals are a table of their own.

The depths in a tree are not looked at, so the evaluator runs trees as they
were read. Everything that is not about names is as in `eval` and `exec`: the
order of evaluation, the operators, the faults and their tokens, the limit on
calls, and the numbers given to functions and classes.
-/

namespace LoxLang

namespace Lexical

open LoxLang.Action

/-- The cells of the local names visible at a point. `inside` says whether the point is in any
scope but the global one, so that a declaration there is local. -/
structure Env where
  inside : Bool
  names : List (String × Nat)

namespace Env

def global : Env := ⟨false, []⟩

/-- The start of a block or of a function body. -/
def enter (env : Env) : Env := { env with inside := true }

/-- A local name more, which hides others of its spelling. -/
def extend (env : Env) (x : String) (cell : Nat) : Env := ⟨true, (x, cell) :: env.names⟩

def cell? (env : Env) (x : String) : Option Nat := env.names.lookup x

end Env

/-- What evaluation changes. -/
structure State where
  cells : Array (Value Env)
  globals : Bindings (Value Env)
  fields : Array (Bindings (Value Env))
  calls : Nat
  nextId : Nat
  printed : Array String
  clock : Nat → Float
  readings : Nat

/-- The state in which a program starts. -/
def State.initial (clock : Nat → Float) : State where
  cells := #[]
  globals := Bindings.empty.set "clock" .clock
  fields := #[]
  calls := 0
  nextId := 0
  printed := #[]
  clock := clock
  readings := 0

abbrev Run := Action State

variable {α : Type}

/-! ## Names -/

/-- The content of a name's cell, or of the global table. -/
def State.get? (s : State) (env : Env) (x : String) : Option (Value Env) :=
  match env.cell? x with
  | some cell => s.cells[cell]?
  | none => s.globals.get? x

/-- A new cell for a local name. -/
def allocate (env : Env) (x : String) (value : Env → Value Env) : Run Env := fun s =>
  let env := env.extend x s.cells.size
  .done env { s with cells := s.cells.push (value env) }

/-- A declaration. The value may keep the environment in which the name is declared. -/
def declare (env : Env) (x : String) (value : Env → Value Env) : Run Env :=
  if env.inside then allocate env x value
  else do
    change fun s => { s with globals := s.globals.set x (value env) }
    pure env

def lookUp (env : Env) (name : Token) : Run (Value Env) := fun s =>
  match s.get? env name.lexeme with
  | some v => .done v s
  | none => .failed ⟨name, .unboundGlobal⟩ s

def assign (env : Env) (name : Token) (v : Value Env) : Run Unit := fun s =>
  match env.cell? name.lexeme with
  | some cell => .done () { s with cells := s.cells.setIfInBounds cell v }
  | none =>
    if (s.globals.get? name.lexeme).isSome then
      .done () { s with globals := s.globals.set name.lexeme v }
    else .failed ⟨name, .unboundGlobalTarget⟩ s

/-! ## Calls, methods and construction -/

def freshId : Run Nat := fun s => .done s.nextId { s with nextId := s.nextId + 1 }

/-- A method closed over an environment that has `this` as well. -/
def bindMethod (method : Closure Env) (object : Value Env) : Run (Closure Env) := do
  let env ← allocate method.scope "this" fun _ => object
  pure { method with scope := env }

def newFunction (closure : Closure Env) : Run (Value Env) := do
  let id ← freshId
  pure (.function id closure)

def bindParameters (env : Env) : List Token → List (Value Env) → Run Env
  | p :: ps, v :: vs => do
    let env ← allocate env p.lexeme fun _ => v
    bindParameters env ps vs
  | _, _ => pure env

def enter (run : Env → List Stmt → Run (Flow Env)) (f : Closure Env)
    (arguments : List (Value Env)) : Run (Value Env) := do
  let env ← bindParameters f.scope.enter f.declaration.parameters arguments
  let flow ← run env f.declaration.body
  if f.isInitializer then read fun s => (s.get? f.scope "this").getD .nil else pure flow.value

def invoke (run : Env → List Stmt → Run (Flow Env)) (f : Callable Env)
    (arguments : List (Value Env)) : Run (Value Env) :=
  match f with
  | .clock => fun s => .done (.number (s.clock s.readings)) { s with readings := s.readings + 1 }
  | .closure f => enter run f arguments
  | .construct k => do
    let object ← fun s => .done (.object s.fields.size k) { s with fields := s.fields.push .empty }
    match k.initializer? with
    | some initializer =>
      let bound ← bindMethod initializer object
      let _ ← enter run bound arguments
      pure object
    | none => pure object

/-- An action run as a call: one more call is running meanwhile. -/
def counted (act : Run α) : Run α := fun s =>
  match act { s with calls := s.calls + 1 } with
  | .done a s => .done a { s with calls := s.calls - 1 }
  | .failed fault s => .failed fault { s with calls := s.calls - 1 }
  | .exhausted => .exhausted

def apply (run : Env → List Stmt → Run (Flow Env)) (paren : Token) (f : Value Env)
    (arguments : List (Value Env)) : Run (Value Env) := fun s =>
  match f.callable? with
  | none => .failed ⟨paren, .notCallable⟩ s
  | some callable =>
    if arguments.length ≠ callable.arity then
      .failed ⟨paren, .arity callable.arity arguments.length⟩ s
    else if maxCalls ≤ s.calls then .failed ⟨paren, .tooManyCalls⟩ s
    else counted (invoke run callable arguments) s

/-- A property of an object: its field, or else the method of its class, bound to it. -/
def property (id : Nat) (k : Class Env) (name : Token) : Run (Value Env) := do
  match ← read fun s => s.fields[id]?.bind (·.get? name.lexeme) with
  | some v => pure v
  | none =>
    match k.method? name.lexeme with
    | some method =>
      let bound ← bindMethod method (.object id k)
      newFunction bound
    | none => raise name .undefinedProperty

/-- A method of a superclass, bound to `this`. -/
def superMethod (env : Env) (keyword method : Token) : Run (Value Env) := do
  match ← read (·.get? env "super") with
  | some (.ofClass parent) =>
    match ← read (·.get? env "this") with
    | some (.object id k) =>
      match parent.method? method.lexeme with
      | some closure =>
        let bound ← bindMethod closure (.object id k)
        newFunction bound
      | none => raise method .undefinedProperty
    | _ => raise keyword .unboundReceiver
  | _ => raise keyword .unboundSuper

/-- A new class, its methods closed over an environment. -/
def newClass (name : String) (parent : Option (Class Env)) (env : Env)
    (methods : List FunctionDecl) : Run (Class Env) := do
  let id ← freshId
  pure ⟨⟨id, name, MachineM.methodTable env methods⟩, (parent.map Class.layers).getD []⟩

/-- A class declared. The superclass is evaluated, and the methods are closed, where the name of
the class is declared already. -/
def declareClass (env : Env) (name : Token)
    (superclass : Option (Token × (Env → Run (Value Env)))) (methods : List FunctionDecl) :
    Run Env := do
  let env ← declare env name.lexeme fun _ => .nil
  match superclass with
  | none =>
    let k ← newClass name.lexeme none env methods
    assign env name (.ofClass k)
    pure env
  | some (token, value) =>
    match ← value env with
    | .ofClass parent =>
      let inner ← allocate env "super" fun _ => .ofClass parent
      let k ← newClass name.lexeme (some parent) inner methods
      assign env name (.ofClass k)
      pure env
    | _ => raise token .superclassNotClass

/-! ## Evaluation -/

/-- Statements run in order, each in the environment that those before it have made, up to the
first that returns. -/
def execAll (run : Env → Stmt → Run (Flow Env × Env)) (env : Env) : List Stmt → Run (Flow Env)
  | [] => pure .next
  | s :: ss => do
    match ← run env s with
    | (.next, env) => execAll run env ss
    | (.returned v, _) => pure (.returned v)

mutual

/-- The value of an expression in an environment. -/
def eval (fuel : Nat) (env : Env) (e : Expr) : Run (Value Env) :=
  match fuel with
  | 0 => exhausted
  | fuel + 1 =>
    match e with
    | .literal value => pure (value.value Env)
    | .group inner => eval fuel env inner
    | .unary operator operand => do
      let v ← eval fuel env operand
      settle operator (v.unary operator.kind)
    | .binary left operator right => do
      let v ← eval fuel env left
      let w ← eval fuel env right
      settle operator (v.binary operator.kind w)
    | .logical left operator right => do
      let v ← eval fuel env left
      if v.shortCircuits operator then pure v else eval fuel env right
    | .name x _ => lookUp env x
    | .assign x _ value => do
      let v ← eval fuel env value
      assign env x v
      pure v
    | .call callee paren arguments => do
      let f ← eval fuel env callee
      let vs ← evalAll (eval fuel env) arguments
      apply (execAll (exec fuel)) paren f vs
    | .get object name => do
      match ← eval fuel env object with
      | .object id k => property id k name
      | _ => raise name .readOfNonObject
    | .set object name value => do
      match ← eval fuel env object with
      | .object id _ =>
        let v ← eval fuel env value
        change fun s => { s with fields := s.fields.modify id (·.set name.lexeme v) }
        pure v
      | _ => raise name .writeOfNonObject
    | .this keyword _ => lookUp env keyword
    | .super keyword _ method => superMethod env keyword method
termination_by structural fuel

/-- The effect of a statement in an environment, and the environment behind it. -/
def exec (fuel : Nat) (env : Env) (s : Stmt) : Run (Flow Env × Env) :=
  match fuel with
  | 0 => exhausted
  | fuel + 1 =>
    match s with
    | .expr value => do
      let _ ← eval fuel env value
      pure (.next, env)
    | .print value => do
      let v ← eval fuel env value
      change fun s => { s with printed := s.printed.push v.text }
      pure (.next, env)
    | .var name none => do
      let env ← declare env name.lexeme fun _ => .nil
      pure (.next, env)
    | .var name (some initial) => do
      let v ← eval fuel env initial
      let env ← declare env name.lexeme fun _ => v
      pure (.next, env)
    | .block body => do
      let flow ← execAll (exec fuel) env.enter body
      pure (flow, env)
    | .ifThen condition consequent => do
      let v ← eval fuel env condition
      if v.truthy then
        let (flow, _) ← exec fuel env consequent
        pure (flow, env)
      else pure (.next, env)
    | .ifElse condition consequent alternative => do
      let v ← eval fuel env condition
      let (flow, _) ← if v.truthy then exec fuel env consequent else exec fuel env alternative
      pure (flow, env)
    | .whileDo condition body => do
      let flow ← loop (eval fuel env condition) (Prod.fst <$> exec fuel env body) fuel
      pure (flow, env)
    | .function declaration => do
      let id ← freshId
      let env ← declare env declaration.name.lexeme fun env =>
        .function id ⟨declaration, env, false⟩
      pure (.next, env)
    | .returning _ none => pure (.returned .nil, env)
    | .returning _ (some value) => do
      let v ← eval fuel env value
      pure (.returned v, env)
    | .classDecl name superclass methods => do
      let env ← declareClass env name
        (superclass.map fun e => (superclassToken name e, fun env => eval fuel env e)) methods
      pure (.next, env)
termination_by structural fuel

end

/-- A program run from the start: what it printed, and the fault that ended it, if one did. -/
def run (fuel : Nat) (clock : Nat → Float) (program : List Stmt) :
    Option (Array String × List Diagnostic) :=
  match execAll (exec fuel) .global program (.initial clock) with
  | .done _ s => some (s.printed, [])
  | .failed fault s => some (s.printed, [.runtime fault])
  | .exhausted => none

end Lexical

end LoxLang
