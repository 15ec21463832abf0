import LoxLang.Value.Fault

/-!
# The state of a run

A machine is what evaluation reads and changes: the store, the fields of
objects, the scope in force, how many calls are running, and what was printed.
An action over machines ends with a value, ends with a fault at a token, or
runs out of fuel. A fault keeps the machine it happened
in, because a session goes on from there.

Two actions change the machine only for the length of another: `inScope` and
`counted`. They undo the change on both of its endings.
-/

namespace LoxLang

/-- The state that evaluation changes. -/
structure Machine where
  store : Store Value
  fields : Array (Bindings Value)
  scope : Scope
  calls : Nat
  /-- The number for the next function or class. -/
  nextId : Nat
  printed : Array String
  /-- The successive readings of the clock, and how many have been taken. -/
  clock : Nat → Float
  readings : Nat

namespace Machine

/-- The frame of the global bindings. -/
def globalFrame : Nat := 0

/-- The scope in which programs start. -/
def globalScope : Scope := [globalFrame]

/-- A machine that has run nothing: `clock` is the one global. -/
def initial (clock : Nat → Float) : Machine where
  store := (Store.empty.enter []).2.write globalFrame "clock" .clock
  fields := #[]
  scope := globalScope
  calls := 0
  nextId := 0
  printed := #[]
  clock := clock
  readings := 0

end Machine

/-- How an action on states of type `μ` ends. -/
inductive Outcome (μ α : Type) where
  | done (value : α) (m : μ)
  | failed (fault : Located Fault) (m : μ)
  | exhausted

/-- A computation that changes a state. -/
def Action (μ α : Type) : Type := μ → Outcome μ α

namespace Action

variable {μ α β : Type}

/-- The action that gives a value and changes nothing. -/
@[always_inline, inline]
protected def pure (a : α) : Action μ α := fun m => .done a m

/-- An action, and if it ends with a value, the next. -/
@[always_inline, inline]
protected def bind (x : Action μ α) (f : α → Action μ β) : Action μ β := fun m =>
  match x m with
  | .done a m => f a m
  | .failed fault m => .failed fault m
  | .exhausted => .exhausted

instance : Monad (Action μ) where
  pure := Action.pure
  bind := Action.bind

instance : LawfulMonad (Action μ) :=
  LawfulMonad.mk' (Action μ)
    (fun x => by
      funext m
      simp only [Functor.map, Action.bind, Function.comp_apply, Action.pure]
      cases x m <;> rfl)
    (fun _ _ => rfl)
    (fun x f g => by
      funext m
      simp only [bind, Action.bind]
      cases x m <;> rfl)

/-- Out of fuel. -/
def exhausted : Action μ α := fun _ => .exhausted

/-- A fault at a token. -/
def raise (token : Token) (fault : Fault) : Action μ α := fun m => .failed ⟨token, fault⟩ m

/-- A value, or a fault at a token. -/
def settle (token : Token) : Except Fault α → Action μ α
  | .ok a => pure a
  | .error fault => raise token fault

/-- Something read off the state. -/
def read (f : μ → α) : Action μ α := fun m => .done (f m) m

/-- The state changed. -/
def change (f : μ → μ) : Action μ Unit := fun m => .done () (f m)

end Action

/-- A computation that changes a machine. -/
abbrev MachineM := Action Machine

namespace MachineM

open LoxLang.Action

variable {α : Type}

/-- An action run in another scope; the scope in force before is back in force afterwards. -/
def inScope (scope : Scope) (act : MachineM α) : MachineM α := fun m =>
  let before := m.scope
  match act { m with scope := scope } with
  | .done a m => .done a { m with scope := before }
  | .failed fault m => .failed fault { m with scope := before }
  | .exhausted => .exhausted

/-- An action run as a call: one more call is running meanwhile. -/
def counted (act : MachineM α) : MachineM α := fun m =>
  match act { m with calls := m.calls + 1 } with
  | .done a m => .done a { m with calls := m.calls - 1 }
  | .failed fault m => .failed fault { m with calls := m.calls - 1 }
  | .exhausted => .exhausted

/-- A new frame inside a scope. -/
def openScope (outer : Scope) : MachineM Scope := fun m =>
  let (scope, store) := m.store.enter outer
  .done scope { m with store := store }

/-- A name bound in the innermost frame of a scope. -/
def defineIn (scope : Scope) (x : String) (v : Value) : MachineM Unit :=
  change fun m => { m with store := m.store.define scope x v }

/-- A name bound in the innermost frame of the scope in force. -/
def define (x : String) (v : Value) : MachineM Unit :=
  change fun m => { m with store := m.store.define m.scope x v }

/-- A number that no function or class has. -/
def freshId : MachineM Nat := fun m => .done m.nextId { m with nextId := m.nextId + 1 }

/-- A new object of a class, without fields. -/
def newObject (k : Class) : MachineM Value := fun m =>
  .done (.object m.fields.size k) { m with fields := m.fields.push .empty }

/-- The field of an object set. -/
def setField (id : Nat) (x : String) (v : Value) : MachineM Unit :=
  change fun m => { m with fields := m.fields.modify id (·.set x v) }

/-- The field of an object. -/
def field? (id : Nat) (x : String) : MachineM (Option Value) :=
  read fun m => m.fields[id]?.bind (·.get? x)

/-- A line printed. -/
def print (line : String) : MachineM Unit :=
  change fun m => { m with printed := m.printed.push line }

/-- The next reading of the clock. -/
def readClock : MachineM Value := fun m =>
  .done (.number (m.clock m.readings)) { m with readings := m.readings + 1 }

/-- The binding of a name: the one `depth` scopes out, or the global one. -/
def lookUp (name : Token) (depth : Option Nat) : MachineM Value := fun m =>
  match depth with
  | some distance =>
    match m.store.getAt? m.scope distance name.lexeme with
    | some v => .done v m
    | none => .failed ⟨name, .unboundLocal⟩ m
  | none =>
    match m.store.get? Machine.globalScope name.lexeme with
    | some v => .done v m
    | none => .failed ⟨name, .unboundGlobal⟩ m

/-- The binding of a name changed: the one `depth` scopes out, or the global one. The frame is found
before the machine is taken apart, so that the write happens in place. -/
def assign (name : Token) (depth : Option Nat) (v : Value) : MachineM Unit := fun m =>
  match depth with
  | some distance =>
    match m.store.frameAt? m.scope distance name.lexeme with
    | some frame => .done () { m with store := m.store.write frame name.lexeme v }
    | none => .failed ⟨name, .unboundLocalTarget⟩ m
  | none =>
    match m.store.frame? Machine.globalScope name.lexeme with
    | some frame => .done () { m with store := m.store.write frame name.lexeme v }
    | none => .failed ⟨name, .unboundGlobalTarget⟩ m

end MachineM

end LoxLang
