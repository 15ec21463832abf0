import LoxLang.Proofs.Sessions

/-!
# The scope and the calls after an evaluation

Two parts of a machine are changed for a while and then put back: the scope in
force, by blocks and by function bodies, and the number of running calls. They
are put back on every way out, so that an evaluation that has ended, in
whatever manner, leaves both as it found them. At top level that means the
global scope and no call, after any program and after any fault.

A class declaration could be a third place. Its methods are closed over a scope
that holds `super`, and `declareClass` hands that scope over without putting it
in force. Since evaluating the superclass restores the scope, doing so would
come to the same, which is `exec_classDecl`.
-/

namespace LoxLang

open LoxLang.Action MachineM

/-! ## One evaluation -/

/-- The scope in force and the running calls of the second machine are those of the first. -/
structure Machine.Restored (m m' : Machine) : Prop where
  scope : m'.scope = m.scope
  calls : m'.calls = m.calls

theorem Machine.Evolves.restored {grows : Option Nat} {m m' : Machine} (h : m.Evolves grows m') :
    m.Restored m' := ⟨h.scope, h.calls⟩

namespace Action

variable {α : Type}

/-- However the action ends, it has restored the scope and the calls. -/
def Restores (act : MachineM α) : Prop :=
  ∀ m, act.Ends m (fun _ m' => m.Restored m') fun _ m' => m.Restored m'

theorem Restores.of_evolving {act : MachineM α} (grows : Machine → Option Nat)
    (h : ∀ m, Evolving (grows m) act m) : act.Restores :=
  fun m => (h m).mono (fun _ _ he => he.restored) fun _ _ he => he.restored

theorem restores_eval (fuel : Nat) (e : Expr) : (eval fuel e).Restores :=
  .of_evolving _ ((evolving fuel).1 e)

theorem restores_exec (fuel : Nat) (s : Stmt) : (exec fuel s).Restores :=
  .of_evolving (·.scope.head?) ((evolving fuel).2 s)

theorem restores_execProgram (fuel : Nat) (program : List Stmt) :
    (execProgram fuel program).Restores :=
  .of_evolving (·.scope.head?) fun _ => .execAll (evolving fuel).2 program

end Action

/-! ## Class declarations -/

namespace MachineM

/-- A class declared with the scope of `super` in force while its methods are closed. -/
def declareClassInForce (name : Token) (superclass : Option (Token × MachineM Value))
    (methods : List FunctionDecl) : MachineM Unit := do
  define name.lexeme .nil
  match superclass with
  | none =>
    let scope ← read (·.scope)
    let k ← newClass name.lexeme none scope methods
    assignClass name k
  | some (token, value) =>
    match ← value with
    | .ofClass parent =>
      let outer ← read (·.scope)
      let inner ← openScope outer
      defineIn inner "super" (.ofClass parent)
      let k ← inScope inner do
        let scope ← read (·.scope)
        newClass name.lexeme (some parent) scope methods
      assignClass name k
    | _ => raise token .superclassNotClass

theorem declareClass_eq {superclass : Option (Token × MachineM Value)}
    (restores : ∀ p ∈ superclass, p.2.Restores) (name : Token) (methods : List FunctionDecl) :
    declareClass name superclass methods = declareClassInForce name superclass methods := by
  funext m
  unfold declareClass declareClassInForce
  cases superclass with
  | none => rfl
  | some p =>
      obtain ⟨token, value⟩ := p
      have kept := restores _ rfl { m with store := m.store.define m.scope name.lexeme .nil }
      show (value >>= _) _ = (value >>= _) _
      rw [bind_apply, bind_apply]
      cases hv : value { m with store := m.store.define m.scope name.lexeme .nil } with
      | failed fault m' => rfl
      | exhausted => rfl
      | done v m' =>
          have same : m'.scope = m.scope := (kept.done hv).scope
          cases v with
          | ofClass parent =>
              dsimp only
              rw [bind_apply, bind_apply]
              dsimp only [Action.read]
              rw [same]
              rfl
          | _ => rfl

end MachineM

/-- The scope of `super` may be put in force for as long as it takes to close the methods. -/
theorem exec_classDecl (fuel : Nat) (name : Token) (superclass : Option Expr)
    (methods : List FunctionDecl) :
    exec (fuel + 1) (.classDecl name superclass methods) =
      (declareClassInForce name
        (superclass.map fun e => (superclassToken name e, eval fuel e)) methods >>=
        fun _ => pure .next) := by
  rw [exec, declareClass_eq]
  intro p hp
  obtain ⟨e, -, rfl⟩ := Option.map_eq_some_iff.1 hp
  exact restores_eval fuel e

/-! ## Top level -/

/-- The state that an action has left, if it has ended. -/
def Outcome.state? {μ α : Type} : Outcome μ α → Option μ
  | .done _ m => some m
  | .failed _ m => some m
  | .exhausted => none

/-- What holds on both ways out holds of the state that is left. -/
theorem Action.Ends.state? {μ α : Type} {act : Action μ α} {m m' : μ} {p : μ → Prop}
    (h : act.Ends m (fun _ => p) fun _ => p) (ends : (act m).state? = some m') : p m' := by
  cases ha : act m with
  | done a m'' =>
      rw [ha] at ends
      cases ends
      exact h.done ha
  | failed fault m'' =>
      rw [ha] at ends
      cases ends
      exact h.failed ha
  | exhausted =>
      rw [ha] at ends
      cases ends

/-- The machines behind any programs and expressions, run one after another. Nothing is asked of
the trees, and they may have ended in any way. -/
inductive Machine.Interpreted (clock : Nat → Float) : Machine → Prop
  | initial : Interpreted clock (.initial clock)
  | program {m m' : Machine} {fuel : Nat} {program : List Stmt} (before : Interpreted clock m)
      (ends : (execProgram fuel program m).state? = some m') : Interpreted clock m'
  | expression {m m' : Machine} {fuel : Nat} {e : Expr} (before : Interpreted clock m)
      (ends : (eval fuel e m).state? = some m') : Interpreted clock m'

/-- The global scope is in force and no call is running. -/
structure Machine.AtTop (m : Machine) : Prop where
  scope : m.scope = Machine.globalScope
  calls : m.calls = 0

theorem Machine.Restored.atTop {m m' : Machine} (h : m.Restored m') (hm : m.AtTop) : m'.AtTop :=
  ⟨h.scope.trans hm.scope, h.calls.trans hm.calls⟩

theorem Action.Restores.atTop {α : Type} {act : MachineM α} (h : act.Restores) {m m' : Machine}
    (hm : m.AtTop) (ends : (act m).state? = some m') : m'.AtTop :=
  ((h m).state? ends).atTop hm

theorem Machine.Interpreted.atTop {clock : Nat → Float} {m : Machine} (h : m.Interpreted clock) :
    m.AtTop := by
  induction h with
  | initial => exact ⟨rfl, rfl⟩
  | program _ ends ih => exact (restores_execProgram _ _).atTop ih ends
  | expression _ ends ih => exact (restores_eval _ _).atTop ih ends

theorem Session.state?_of_settle {α : Type} {s s' : Session} {o : Outcome Machine α}
    {v : Option α} (h : s.settle o = some (s', v)) : o.state? = some s'.machine := by
  cases o with
  | done a m =>
      cases h
      rfl
  | failed fault m =>
      cases h
      rfl
  | exhausted => cases h

/-- A step of a session runs a program, evaluates an expression or leaves the machine alone. -/
theorem Session.Step.interpreted {clock : Nat → Float} {s s' : Session} (step : s.Step s')
    (h : s.machine.Interpreted clock) : s'.machine.Interpreted clock := by
  cases step with
  | parse => exact h
  | reset => exact h
  | @run _ fuel source ends =>
      unfold Session.run at ends
      dsimp only at ends
      split at ends
      · cases ends
        exact h
      · split at ends
        · cases ends
          exact h
        · obtain ⟨⟨_, v⟩, settled, rfl⟩ := Option.map_eq_some_iff.1 ends
          exact .program h (state?_of_settle settled)
  | @evaluate _ fuel source v ends =>
      have same : (s.parseExpression source).1.machine.Interpreted clock := h
      unfold Session.evaluate at ends
      revert same ends
      generalize s.parseExpression source = parsed
      obtain ⟨s'', none | e⟩ := parsed
      · intro ends same
        cases ends
        exact same
      · intro ends same
        dsimp only at ends
        split at ends
        · cases ends
          exact same
        · exact .expression same (state?_of_settle ends)

theorem Session.Reachable.interpreted {clock : Nat → Float} {s : Session}
    (h : s.Reachable clock) : s.machine.Interpreted clock := by
  induction h with
  | initial => exact .initial
  | step _ step ih => exact step.interpreted ih

/-- Every way out of an evaluation restores the scope in force and the number of running calls,
for any tree in any machine. So both are those of the top level again after any programs and
expressions, and in every session. -/
theorem evaluation_restores :
    (∀ fuel e, (eval fuel e).Restores) ∧ (∀ fuel s, (exec fuel s).Restores) ∧
    (∀ clock m, Machine.Interpreted clock m → m.AtTop) ∧
    ∀ clock s, Session.Reachable clock s → s.machine.AtTop :=
  ⟨restores_eval, restores_exec, fun _ _ h => h.atTop, fun _ _ h => h.interpreted.atTop⟩

/-- `{ fun f() { return -nil; } f(); }` -/
def failingCall : List Stmt :=
  [.block [
    .function ⟨⟨.identifier, "f", 1⟩, [],
      [.returning ⟨.symbol .returnWord, "return", 1⟩
        (some (.unary ⟨.symbol .minus, "-", 1⟩ (.literal .nil)))]⟩,
    .expr (.call (.name ⟨.identifier, "f", 1⟩ (some 0)) ⟨.symbol .rightParen, ")", 1⟩ [])]]

/-- The program fails in a call in a block, and both are left. -/
theorem failingCall_atTop : ∃ m,
    execProgram 6 failingCall (.initial fun _ => 0) =
      .failed ⟨⟨.symbol .minus, "-", 1⟩, .negatedNonNumber⟩ m ∧
    m.scope = Machine.globalScope ∧ m.calls = 0 := by
  refine ⟨_, rfl, ?_⟩
  have ran : Machine.Interpreted (fun _ => 0) _ :=
    .program .initial (rfl : (execProgram 6 failingCall (.initial fun _ => 0)).state? = some _)
  have top := evaluation_restores.2.2.1 (fun _ => 0) _ ran
  exact ⟨top.scope, top.calls⟩

end LoxLang
