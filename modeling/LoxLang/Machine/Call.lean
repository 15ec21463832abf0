import LoxLang.Machine

/-!
# Calls, methods and construction

What a call does, given a way to run a list of statements. A function runs in a
fresh scope inside the one it was declared in. A method is bound to an object
by one more scope, which holds `this`, between the two.
-/

namespace LoxLang

/-- How a statement ends when nothing goes wrong. -/
inductive Flow (σ : Type := Scope) where
  | next
  | returned (v : Value σ)

/-- The value that a call has when its body ends; a body that does not return gives `nil`. -/
def Flow.value {σ : Type} : Flow σ → Value σ
  | .next => .nil
  | .returned v => v

/-- How many calls may run inside one another. -/
def maxCalls : Nat := 200

namespace MachineM

open LoxLang.Action

/-- Arguments bound to parameters in a scope, in order. -/
def bindParameters (scope : Scope) : List Token → List Value → MachineM Unit
  | p :: ps, v :: vs => do
    defineIn scope p.lexeme v
    bindParameters scope ps vs
  | _, _ => pure ()

/-- A method bound to an object. -/
def bindMethod (method : Closure) (object : Value) : MachineM Closure := do
  let scope ← openScope method.scope
  defineIn scope "this" object
  pure { method with scope := scope }

/-- A function value, with an identity of its own. -/
def newFunction (closure : Closure) : MachineM Value := do
  let id ← freshId
  pure (.function id closure)

/-- The `this` of a bound method. -/
def receiver (method : Closure) : MachineM Value :=
  read fun m => (m.store.getAt? method.scope 0 "this").getD .nil

/-- A function run on arguments. An initializer gives the object that it is bound to, whatever its
body returns. -/
def enter (run : List Stmt → MachineM Flow) (c : Closure) (arguments : List Value) :
    MachineM Value := do
  let scope ← openScope c.scope
  bindParameters scope c.declaration.parameters arguments
  let flow ← inScope scope (run c.declaration.body)
  if c.isInitializer then receiver c else pure flow.value

/-- A callable run on arguments. -/
def invoke (run : List Stmt → MachineM Flow) (f : Callable) (arguments : List Value) :
    MachineM Value :=
  match f with
  | .clock => readClock
  | .closure c => enter run c arguments
  | .construct k => do
    let object ← newObject k
    match k.initializer? with
    | some initializer =>
      let bound ← bindMethod initializer object
      let _ ← enter run bound arguments
      pure object
    | none => pure object

/-- A value called with arguments. It must be callable, the arguments as many as it takes, and the
calls running fewer than the limit, in this order. -/
def apply (run : List Stmt → MachineM Flow) (paren : Token) (f : Value) (arguments : List Value) :
    MachineM Value := fun m =>
  match f.callable? with
  | none => .failed ⟨paren, .notCallable⟩ m
  | some callable =>
    if arguments.length ≠ callable.arity then
      .failed ⟨paren, .arity callable.arity arguments.length⟩ m
    else if maxCalls ≤ m.calls then .failed ⟨paren, .tooManyCalls⟩ m
    else counted (invoke run callable arguments) m

/-- A property of an object: its field, or else the method of its class, bound to it. -/
def property (id : Nat) (k : Class) (name : Token) : MachineM Value := do
  match ← field? id name.lexeme with
  | some v => pure v
  | none =>
    match k.method? name.lexeme with
    | some method =>
      let bound ← bindMethod method (.object id k)
      newFunction bound
    | none => raise name .undefinedProperty

/-- A method of a superclass: `super` is found by its depth, `this` one scope further in. -/
def superMethod (keyword : Token) (depth : Option Nat) (method : Token) : MachineM Value := do
  match depth with
  | none => raise keyword .unboundSuper
  | some distance =>
    match ← read fun m => m.store.getAt? m.scope distance "super" with
    | some (.ofClass parent) =>
      match ← read fun m =>
          if distance = 0 then none else m.store.getAt? m.scope (distance - 1) "this" with
      | some (.object id k) =>
        match parent.method? method.lexeme with
        | some closure =>
          let bound ← bindMethod closure (.object id k)
          newFunction bound
        | none => raise method .undefinedProperty
      | _ => raise keyword .unboundReceiver
    | _ => raise keyword .unboundSuper

/-- The methods of a class declared in a scope; of two with one name the later counts. -/
def methodTable {σ : Type} (scope : σ) (methods : List FunctionDecl) :
    List (String × Closure σ) :=
  methods.reverse.map fun f => (f.name.lexeme, ⟨f, scope, f.isInitializer⟩)

/-- A new class, its methods closed over a scope. -/
def newClass (name : String) (parent : Option Class) (scope : Scope)
    (methods : List FunctionDecl) : MachineM Class := do
  let id ← freshId
  pure ⟨⟨id, name, methodTable scope methods⟩, (parent.map Class.layers).getD []⟩

/-- The binding of a class's name set to the class. -/
def assignClass (name : Token) (k : Class) : MachineM Unit := fun m =>
  match m.store.frame? m.scope name.lexeme with
  | some frame => .done () { m with store := m.store.write frame name.lexeme (.ofClass k) }
  | none => .failed ⟨name, .unboundClass⟩ m

/-- A class declared: its name is bound first, to `nil`, so that the superclass expression and the
methods see it; the methods are closed over a scope that holds `super`, if there is one. -/
def declareClass (name : Token) (superclass : Option (Token × MachineM Value))
    (methods : List FunctionDecl) : MachineM Unit := do
  define name.lexeme .nil
  let scope ← read (·.scope)
  match superclass with
  | none =>
    let k ← newClass name.lexeme none scope methods
    assignClass name k
  | some (token, value) =>
    match ← value with
    | .ofClass parent =>
      let inner ← openScope scope
      defineIn inner "super" (.ofClass parent)
      let k ← newClass name.lexeme (some parent) inner methods
      assignClass name k
    | _ => raise token .superclassNotClass

end MachineM

namespace Action

variable {μ σ α : Type}

/-- Actions run on a list, left to right, and their values. -/
def evalAll (run : α → Action μ (Value σ)) : List α → Action μ (List (Value σ))
  | [] => pure []
  | a :: as => do
    let v ← run a
    let vs ← evalAll run as
    pure (v :: vs)

/-- Statements run in order, up to the first that returns. -/
def execAll (run : Stmt → Action μ (Flow σ)) : List Stmt → Action μ (Flow σ)
  | [] => pure .next
  | s :: ss => do
    match ← run s with
    | .next => execAll run ss
    | .returned v => pure (.returned v)

/-- A body run as long as a test holds, at most as often as there is fuel. -/
def loop (test : Action μ (Value σ)) (body : Action μ (Flow σ)) : Nat → Action μ (Flow σ)
  | 0 => exhausted
  | fuel + 1 => do
    let v ← test
    if v.truthy then
      match ← body with
      | .next => loop test body fuel
      | .returned v => pure (.returned v)
    else pure .next

end Action

end LoxLang
