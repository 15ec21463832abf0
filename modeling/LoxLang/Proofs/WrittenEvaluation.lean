import LoxLang.Machine.Eval
import LoxLang.Proofs.WrittenTrees

/-!
# Running programs as they are written

An evaluator for trees with `for` statements. The rule for these is the direct
one. If there is an initial clause, one scope is opened for the loop and the
clause is run there. Then, as long as the condition is true, the body is
executed and the increment is evaluated, all in the scope of the loop. An absent
condition is true. No other scope is opened.

Everything else is as in `eval` and `exec`, depths and frames included. What a
closure keeps is its scope and the body as it is written; its declaration is
there for the name and the parameters only. Fuel is counted as it is for the
`while` loop that a `for` statement stands for.
-/

namespace LoxLang

namespace Written

open LoxLang.Action

/-- What a closure keeps of its declaration: the scope around it, and the code. -/
structure Place where
  scope : Scope
  body : List Stmt

/-- The state that evaluation changes. -/
structure State where
  store : Store (Value Place)
  fields : Array (Bindings (Value Place))
  scope : Scope
  calls : Nat
  nextId : Nat
  printed : Array String
  clock : Nat → Float
  readings : Nat

/-- A state in which nothing has been run. -/
def State.initial (clock : Nat → Float) : State where
  store := (Store.empty.enter []).2.write Machine.globalFrame "clock" .clock
  fields := #[]
  scope := Machine.globalScope
  calls := 0
  nextId := 0
  printed := #[]
  clock := clock
  readings := 0

abbrev Run := Action State

variable {α : Type}

/-! ## The state -/

/-- An action run in another scope; the scope in force before is back in force afterwards. -/
def inScope (scope : Scope) (act : Run α) : Run α := fun m =>
  let before := m.scope
  match act { m with scope := scope } with
  | .done a m => .done a { m with scope := before }
  | .failed fault m => .failed fault { m with scope := before }
  | .exhausted => .exhausted

/-- An action run as a call: one more call is running meanwhile. -/
def counted (act : Run α) : Run α := fun m =>
  match act { m with calls := m.calls + 1 } with
  | .done a m => .done a { m with calls := m.calls - 1 }
  | .failed fault m => .failed fault { m with calls := m.calls - 1 }
  | .exhausted => .exhausted

/-- A new frame inside a scope. -/
def openScope (outer : Scope) : Run Scope := fun m =>
  .done (m.store.enter outer).1 { m with store := (m.store.enter outer).2 }

/-- A name bound in the innermost frame of a scope. -/
def defineIn (scope : Scope) (x : String) (v : Value Place) : Run Unit :=
  change fun m => { m with store := m.store.define scope x v }

/-- A name bound in the innermost frame of the scope in force. -/
def define (x : String) (v : Value Place) : Run Unit :=
  change fun m => { m with store := m.store.define m.scope x v }

/-- A number that no function or class has. -/
def freshId : Run Nat := fun m => .done m.nextId { m with nextId := m.nextId + 1 }

/-- A new object of a class, without fields. -/
def newObject (k : Class Place) : Run (Value Place) := fun m =>
  .done (.object m.fields.size k) { m with fields := m.fields.push .empty }

/-- The field of an object set. -/
def setField (id : Nat) (x : String) (v : Value Place) : Run Unit :=
  change fun m => { m with fields := m.fields.modify id (·.set x v) }

/-- The field of an object. -/
def field? (id : Nat) (x : String) : Run (Option (Value Place)) :=
  read fun m => m.fields[id]?.bind (·.get? x)

/-- A line printed. -/
def print (line : String) : Run Unit :=
  change fun m => { m with printed := m.printed.push line }

/-- The next reading of the clock. -/
def readClock : Run (Value Place) := fun m =>
  .done (.number (m.clock m.readings)) { m with readings := m.readings + 1 }

/-- The binding of a name: the one `depth` scopes out, or the global one. -/
def lookUp (name : Token) (depth : Option Nat) : Run (Value Place) := fun m =>
  match depth with
  | some distance =>
    match m.store.getAt? m.scope distance name.lexeme with
    | some v => .done v m
    | none => .failed ⟨name, .unboundLocal⟩ m
  | none =>
    match m.store.get? Machine.globalScope name.lexeme with
    | some v => .done v m
    | none => .failed ⟨name, .unboundGlobal⟩ m

/-- The binding of a name changed: the one `depth` scopes out, or the global one. -/
def assign (name : Token) (depth : Option Nat) (v : Value Place) : Run Unit := fun m =>
  match depth with
  | some distance =>
    match m.store.assignAt? m.scope distance name.lexeme v with
    | some store => .done () { m with store := store }
    | none => .failed ⟨name, .unboundLocalTarget⟩ m
  | none =>
    match m.store.assign? Machine.globalScope name.lexeme v with
    | some store => .done () { m with store := store }
    | none => .failed ⟨name, .unboundGlobalTarget⟩ m

/-! ## Calls, methods and construction -/

/-- Arguments bound to parameters in a scope, in order. -/
def bindParameters (scope : Scope) : List Token → List (Value Place) → Run Unit
  | p :: ps, v :: vs => do
    defineIn scope p.lexeme v
    bindParameters scope ps vs
  | _, _ => pure ()

/-- A function closed over a scope. -/
def FunctionDecl.closed (f : FunctionDecl) (scope : Scope) (isInitializer : Bool) :
    Closure Place :=
  ⟨⟨f.name, f.parameters, []⟩, ⟨scope, f.body⟩, isInitializer⟩

/-- A method bound to an object. -/
def bindMethod (method : Closure Place) (object : Value Place) : Run (Closure Place) := do
  let scope ← openScope method.scope.scope
  defineIn scope "this" object
  pure { method with scope := ⟨scope, method.scope.body⟩ }

/-- A function value, with an identity of its own. -/
def newFunction (closure : Closure Place) : Run (Value Place) := do
  let id ← freshId
  pure (.function id closure)

/-- The `this` of a bound method. -/
def receiver (method : Closure Place) : Run (Value Place) :=
  read fun m => (m.store.getAt? method.scope.scope 0 "this").getD .nil

/-- A function run on arguments. An initializer gives the object that it is bound to. -/
def enter (run : List Stmt → Run (Flow Place)) (c : Closure Place)
    (arguments : List (Value Place)) : Run (Value Place) := do
  let scope ← openScope c.scope.scope
  bindParameters scope c.declaration.parameters arguments
  let flow ← inScope scope (run c.scope.body)
  if c.isInitializer then receiver c else pure flow.value

/-- A callable run on arguments. -/
def invoke (run : List Stmt → Run (Flow Place)) (f : Callable Place)
    (arguments : List (Value Place)) : Run (Value Place) :=
  match f with
  | .clock => readClock
  | .closure c => enter run c arguments
  | .construct k => do
    let object ← newObject k
    match k.initializer? with
    | some initializer =>
      let bound ← bindMethod initializer object
      let _ ← enter run bound arguments
      pure object
    | none => pure object

/-- A value called with arguments. -/
def apply (run : List Stmt → Run (Flow Place)) (paren : Token) (f : Value Place)
    (arguments : List (Value Place)) : Run (Value Place) := fun m =>
  match f.callable? with
  | none => .failed ⟨paren, .notCallable⟩ m
  | some callable =>
    if arguments.length ≠ callable.arity then
      .failed ⟨paren, .arity callable.arity arguments.length⟩ m
    else if maxCalls ≤ m.calls then .failed ⟨paren, .tooManyCalls⟩ m
    else counted (invoke run callable arguments) m

/-- A property of an object: its field, or else the method of its class, bound to it. -/
def property (id : Nat) (k : Class Place) (name : Token) : Run (Value Place) := do
  match ← field? id name.lexeme with
  | some v => pure v
  | none =>
    match k.method? name.lexeme with
    | some method =>
      let bound ← bindMethod method (.object id k)
      newFunction bound
    | none => raise name .undefinedProperty

/-- A method of a superclass: `super` is found by its depth, `this` one scope further in. -/
def superMethod (keyword : Token) (depth : Option Nat) (method : Token) : Run (Value Place) := do
  match depth with
  | none => raise keyword .unboundSuper
  | some distance =>
    match ← read fun m => m.store.getAt? m.scope distance "super" with
    | some (.ofClass parent) =>
      match ← read fun m =>
          if distance = 0 then none else m.store.getAt? m.scope (distance - 1) "this" with
      | some (.object id k) =>
        match parent.method? method.lexeme with
        | some closure =>
          let bound ← bindMethod closure (.object id k)
          newFunction bound
        | none => raise method .undefinedProperty
      | _ => raise keyword .unboundReceiver
    | _ => raise keyword .unboundSuper

/-- The methods of a class declared in a scope; of two with one name the later counts. -/
def methodTable (scope : Scope) (methods : List FunctionDecl) : List (String × Closure Place) :=
  methods.reverse.map fun f => (f.name.lexeme, f.closed scope f.isInitializer)

/-- A new class, its methods closed over a scope. -/
def newClass (name : String) (parent : Option (Class Place)) (scope : Scope)
    (methods : List FunctionDecl) : Run (Class Place) := do
  let id ← freshId
  pure ⟨⟨id, name, methodTable scope methods⟩, (parent.map Class.layers).getD []⟩

/-- The binding of a class's name set to the class. -/
def assignClass (name : Token) (k : Class Place) : Run Unit := fun m =>
  match m.store.assign? m.scope name.lexeme (.ofClass k) with
  | some store => .done () { m with store := store }
  | none => .failed ⟨name, .unboundClass⟩ m

/-- A class declared. -/
def declareClass (name : Token) (superclass : Option (Token × Run (Value Place)))
    (methods : List FunctionDecl) : Run Unit := do
  define name.lexeme .nil
  let scope ← read (·.scope)
  match superclass with
  | none =>
    let k ← newClass name.lexeme none scope methods
    assignClass name k
  | some (token, value) =>
    match ← value with
    | .ofClass parent =>
      let inner ← openScope scope
      defineIn inner "super" (.ofClass parent)
      let k ← newClass name.lexeme (some parent) inner methods
      assignClass name k
    | _ => raise token .superclassNotClass

/-! ## Evaluation -/

/-- Statements run in order, up to the first that returns. -/
def execAll (run : Stmt → Run (Flow Place)) : List Stmt → Run (Flow Place)
  | [] => pure .next
  | s :: ss => do
    match ← run s with
    | .next => execAll run ss
    | .returned v => pure (.returned v)

mutual

/-- The value of an expression. -/
def eval (fuel : Nat) (e : Expr) : Run (Value Place) :=
  match fuel with
  | 0 => exhausted
  | fuel + 1 =>
    match e with
    | .literal value => pure (value.value Place)
    | .group inner => eval fuel inner
    | .unary operator operand => do
      let v ← eval fuel operand
      settle operator (v.unary operator.kind)
    | .binary left operator right => do
      let v ← eval fuel left
      let w ← eval fuel right
      settle operator (v.binary operator.kind w)
    | .logical left operator right => do
      let v ← eval fuel left
      if v.shortCircuits operator then pure v else eval fuel right
    | .name x depth => lookUp x depth
    | .assign x depth value => do
      let v ← eval fuel value
      assign x depth v
      pure v
    | .call callee paren arguments => do
      let f ← eval fuel callee
      let vs ← evalAll (eval fuel) arguments
      apply (execAll (exec fuel)) paren f vs
    | .get object name => do
      match ← eval fuel object with
      | .object id k => property id k name
      | _ => raise name .readOfNonObject
    | .set object name value => do
      match ← eval fuel object with
      | .object id _ =>
        let v ← eval fuel value
        setField id name.lexeme v
        pure v
      | _ => raise name .writeOfNonObject
    | .this keyword depth => lookUp keyword depth
    | .super keyword depth method => superMethod keyword depth method
termination_by structural fuel

/-- The effect of a statement. -/
def exec (fuel : Nat) (s : Stmt) : Run (Flow Place) :=
  match fuel with
  | 0 => exhausted
  | fuel + 1 =>
    match s with
    | .expr value => do
      let _ ← eval fuel value
      pure .next
    | .print value => do
      let v ← eval fuel value
      print v.text
      pure .next
    | .var name none => do
      define name.lexeme .nil
      pure .next
    | .var name (some initial) => do
      let v ← eval fuel initial
      define name.lexeme v
      pure .next
    | .block body => do
      let outer ← read (·.scope)
      let scope ← openScope outer
      inScope scope (execAll (exec fuel) body)
    | .ifThen condition consequent => do
      let v ← eval fuel condition
      if v.truthy then exec fuel consequent else pure .next
    | .ifElse condition consequent alternative => do
      let v ← eval fuel condition
      if v.truthy then exec fuel consequent else exec fuel alternative
    | .whileDo condition body => loop (eval fuel condition) (exec fuel body) fuel
    | .forDo (some initial) condition increment body => do
      let outer ← read (·.scope)
      let scope ← openScope outer
      inScope scope (execAll (exec fuel) [initial.stmt, .forDo none condition increment body])
    | .forDo none condition increment body =>
      let test := match condition with
        | some condition => eval fuel condition
        | none => pure (.bool true)
      let round := match increment with
        | none => exec fuel body
        | some increment =>
          match fuel with
          | 0 => exhausted
          | fuel + 1 => execAll (exec fuel) [body, .expr increment]
      loop test round fuel
    | .function f => do
      let scope ← read (·.scope)
      let v ← newFunction (f.closed scope false)
      define f.name.lexeme v
      pure .next
    | .returning _ none => pure (.returned .nil)
    | .returning _ (some value) => do
      let v ← eval fuel value
      pure (.returned v)
    | .classDecl name superclass methods => do
      declareClass name (superclass.map fun e => (superclassToken name e, eval fuel e)) methods
      pure .next
termination_by structural fuel

end

end Written

end LoxLang
