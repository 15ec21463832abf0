import LoxLang.Proofs.History
import LoxLang.Proofs.Returns

/-!
# How deep calls may be nested

A machine keeps count of the calls that are running. Which calls these are can
be told without the machine: they are those on the way from the start of a run
to the evaluation at hand. The count is the number of these calls, in all states
of all runs. So a call that could be made is refused if and only if as many
calls are running as may run, and no fault of an earlier run takes anything of
that away.
-/

namespace LoxLang

open LoxLang.Action MachineM

/-! ## The calls that are running -/

namespace Moment

/-- The second evaluation is made in the course of the first, and on the way there these calls have
come to run their functions, the innermost last. -/
inductive Running (start : Moment) : List Activation → Moment → Prop
  | start : Running start [] start
  | part {calls : List Activation} {a b : Moment} (before : Running start calls a)
      (part : a.Calls b) (inside : b.point.isValue = false → a.point.isValue = false) :
      Running start calls b
  | body {calls : List Activation} (a : Activation) (before : Running start calls a.expression) :
      Running start (calls ++ [a]) a.body

variable {start a : Moment} {calls : List Activation}

/-- Every evaluation that is made is made in the course of some calls. -/
theorem Reaches.exists_running (h : start.Reaches a) : ∃ calls, start.Running calls a := by
  have visits : ∀ {n p m}, Visits start.fuel start.point start.machine n p m →
      ∃ calls, start.Running calls ⟨n, p, m⟩ := by
    intro n p m h
    induction h with
    | start => exact ⟨[], .start⟩
    | @step n n' p p' m m' before leads ih =>
        obtain ⟨calls, before⟩ := ih
        by_cases inside : p'.isValue = false → p.isValue = false
        · exact ⟨calls, .part before leads inside⟩
        · obtain ⟨statement, value⟩ := Classical.not_imp.1 inside
          obtain ⟨a, expression, body⟩ := (leads.to_statement statement).resolve_left value
          rw [← expression] at before
          exact ⟨calls ++ [a], body ▸ .body a before⟩
  exact visits h

/-- One more call is counted for each that is running. -/
theorem Running.calls_eq (h : start.Running calls a) :
    a.machine.calls = start.machine.calls + calls.length := by
  induction h with
  | start => rfl
  | part _ part inside ih =>
      rcases Leads.calls part with same | ⟨value, statement, -⟩
      · exact same.trans ih
      · cases value.symm.trans (inside statement)
  | body a _ ih =>
      have caller : a.caller.calls = _ := ih
      rw [a.calls_body, caller, List.length_append, Nat.add_assoc]
      rfl

/-- The calls are as many when the evaluation ends, in whatever way. -/
theorem calls_of_state? (a : Moment) {m : Machine} (ends : m ∈ a.outcome.state?) :
    m.calls = a.machine.calls :=
  ((a.point.restores_flow a.fuel a.machine).state? ends).calls

end Moment

/-! ## The limit -/

section Calls

variable {n : Nat} {own : Option String} {f e : Expr} {paren : Token} {es : List Expr}
  {m m' m'' : Machine} {v : Value} {vs : List Value} {callable : Callable}

theorem calls_of_arguments (callee : eval n f m = .done v m')
    (arguments : evalAll (eval n) es m' = .done vs m'') : m''.calls = m.calls := by
  have before := ((restores_eval n f m).done callee).calls
  have behind := ((Evolving.evalAll (evolving n).1 es).done arguments).calls
  exact behind.trans before

/-- Whatever is called is counted while it runs, a native function or the class of an object without
an initializer as well. -/
theorem Invokes.calls (h : Invokes n e m callable vs m') :
    m'.calls = m.calls + 1 ∧ m'.calls ≤ maxCalls := by
  cases h with
  | call callee arguments accepts arity room =>
      exact ⟨congrArg (· + 1) (calls_of_arguments callee arguments), room⟩

theorem Activation.calls_body_le (a : Activation) : a.body.machine.calls ≤ maxCalls := by
  obtain ⟨counted, limit⟩ := a.invokes.calls
  rw [a.calls_body, ← counted]
  exact limit

theorem Moment.Running.length_le {start a : Moment} {calls : List Activation}
    (h : start.Running calls a) (top : start.machine.calls = 0) : calls.length ≤ maxCalls := by
  induction h with
  | start => exact Nat.zero_le _
  | part _ _ _ ih => exact ih
  | body a before _ =>
      have counted := (Moment.Running.body a before).calls_eq
      rw [top, Nat.zero_add] at counted
      rw [← counted]
      exact a.calls_body_le

theorem bindParameters_ends (scope : Scope) (ps : List Token) (vs : List Value) (m : Machine) :
    ∃ m', bindParameters scope ps vs m = .done () m' := by
  induction ps generalizing vs m with
  | nil => exact ⟨m, rfl⟩
  | cons p ps ih =>
      cases vs with
      | nil => exact ⟨m, rfl⟩
      | cons v vs => exact ih vs _

theorem entered_ends (c : Closure) (vs : List Value) (m : Machine) :
    ∃ scope m', entered c vs m = .done scope m' := by
  obtain ⟨m', ends⟩ := bindParameters_ends (m.store.enter c.scope).1 c.declaration.parameters vs
    { m with store := (m.store.enter c.scope).2 }
  exact ⟨_, m', bind_of_done ends⟩

/-- A function fails only if its body does. -/
theorem exists_body_failed_of_enter {run : List Stmt → MachineM Flow} {c : Closure}
    {fault : Located Fault} (failed : enter run c vs m = .failed fault m') :
    ∃ body m1 m2, Starts (.closure c) vs m body m1 ∧ run body m1 = .failed fault m2 := by
  obtain ⟨scope, m1, enters⟩ := entered_ends c vs m
  rw [enter_eq, bind_of_done enters, bind_apply, inScope] at failed
  cases result : run c.declaration.body { m1 with scope := scope } with
  | done flow m2 =>
      rw [result] at failed
      dsimp only at failed
      split at failed <;> cases failed
  | failed fault' m2 =>
      rw [result] at failed
      cases failed
      exact ⟨_, _, m2, .closure enters, result⟩
  | exhausted =>
      rw [result] at failed
      cases failed

/-- What is called fails only if a function body does. -/
theorem exists_body_failed {run : List Stmt → MachineM Flow} {fault : Located Fault}
    (failed : invoke run callable vs m = .failed fault m') :
    ∃ body m1 m2, Starts callable vs m body m1 ∧ run body m1 = .failed fault m2 := by
  cases callable with
  | clock => cases failed
  | closure c => exact exists_body_failed_of_enter failed
  | construct k =>
      cases found : k.initializer? with
      | none =>
          rw [invoke, found] at failed
          cases failed
      | some initializer =>
          obtain ⟨f, m1, bound⟩ : ∃ f m1, (newObject k >>= bindMethod initializer) m = .done f m1 :=
            ⟨_, _, rfl⟩
          rw [invoke_of_runs (.construct found bound), bind_apply] at failed
          cases result : enter run f vs m1 with
          | done w m2 =>
              rw [result] at failed
              cases failed
          | failed fault' m2 =>
              rw [result] at failed
              cases failed
              obtain ⟨body, m3, m4, starts, inner⟩ := exists_body_failed_of_enter result
              exact ⟨body, m3, m4, .construct found bound starts, inner⟩
          | exhausted =>
              rw [result] at failed
              cases failed

/-- A call for which everything is in order overflows exactly if no more calls may run. -/
theorem Moment.overflows_iff (callee : eval n f m = .done v m')
    (arguments : evalAll (eval n) es m' = .done vs m'') (accepts : v.callable? = some callable)
    (arity : vs.length = callable.arity) :
    (∃ m3, Moment.Raises ⟨n + 1, .expr own (.call f paren es), m⟩ ⟨paren, .tooManyCalls⟩ m3) ↔
      maxCalls ≤ m.calls := by
  have behind := calls_of_arguments callee arguments
  have applied : eval (n + 1) (.call f paren es) m =
      apply (execAll (exec n)) paren v vs m'' := by
    rw [eval, bind_of_done callee, bind_of_done arguments]
  constructor
  · rintro ⟨m3, failed, first⟩
    -- Below the limit the callable would have run, and the fault would be that of its body.
    refine Nat.le_of_not_lt fun room => ?_
    rw [← behind] at room
    rw [Moment.outcome, Point.flow, bind_apply, applied, apply_of_accepts accepts arity room,
      counted] at failed
    cases result : invoke (execAll (exec n)) callable vs { m'' with calls := m''.calls + 1 } with
    | done w m4 =>
        rw [result] at failed
        cases failed
    | failed fault m4 =>
        obtain ⟨body, m5, m6, starts, inner⟩ := exists_body_failed result
        exact first ⟨n, .stmts body, m5⟩ (.call callee arguments accepts arity room starts) _ _
          inner
    | exhausted =>
        rw [result] at failed
        cases failed
  · intro full
    rw [← behind] at full
    have refused : apply (execAll (exec n)) paren v vs m'' =
        .failed ⟨paren, .tooManyCalls⟩ m'' := by
      unfold apply
      rw [accepts]
      dsimp only
      rw [if_neg (not_not_intro arity), if_pos full]
    refine ⟨m'', bind_of_failed (applied.trans refused), ?_⟩
    rintro ⟨n', p, m4⟩ part fault m5 failed
    -- The callee and the arguments have ended with values.
    cases part with
    | first operand =>
        cases operand
        rw [Moment.outcome, Point.flow, bind_of_done callee] at failed
        cases failed
    | second operand before next => cases next
    | arguments before =>
        cases callee.symm.trans before
        rw [Moment.outcome, Point.flow, bind_of_done arguments] at failed
        cases failed
    | call callee' arguments' _ _ room _ =>
        cases callee.symm.trans callee'
        cases arguments.symm.trans arguments'
        exact absurd room (Nat.not_lt.2 full)

end Calls

/-! ## Sessions -/

/-- In a session no call is running between two steps, whatever became of the steps before. In a
run, every evaluation is made in the course of some running calls. Their number is what the machine
counts, when the evaluation starts and when it ends, and while something is called there is one
more, the limit being 200. A call whose callee can be called with so many arguments raises a stack
overflow at its closing parenthesis if and only if this many calls are running. -/
theorem Session.Reachable.counts_calls {clock : Nat → Float} {s : Session} (h : s.Reachable clock)
    (fuel : Nat) (start : Point) :
    s.machine.calls = 0 ∧ (∀ s', s.Leaves fuel start s' → s'.machine.calls = 0) ∧
    (∀ a, (s.moment fuel start).Reaches a → ∃ calls, (s.moment fuel start).Running calls a) ∧
    ∀ calls a, (s.moment fuel start).Running calls a →
      a.machine.calls = calls.length ∧ calls.length ≤ maxCalls ∧
      (∀ m ∈ a.outcome.state?, m.calls = calls.length) ∧
      ∀ n own f paren es, a.fuel = n + 1 → a.point = .expr own (.call f paren es) →
        (∀ callable vs m, Invokes n (.call f paren es) a.machine callable vs m →
          m.calls = calls.length + 1 ∧ m.calls ≤ maxCalls) ∧
        ∀ v m vs m' callable, eval n f a.machine = .done v m →
          evalAll (eval n) es m = .done vs m' → v.callable? = some callable →
          vs.length = callable.arity →
          ((∃ m'', a.Raises ⟨paren, .tooManyCalls⟩ m'') ↔ calls.length = maxCalls) := by
  have top : s.machine.calls = 0 := h.interpreted.atTop.calls
  refine ⟨top, fun s' leaves => ?_, fun a => Moment.Reaches.exists_running,
    fun calls a running => ?_⟩
  · exact ((s.moment fuel start).calls_of_state? leaves.state?).trans top
  · have counted : a.machine.calls = calls.length := by
      have counted := running.calls_eq
      rwa [show (s.moment fuel start).machine.calls = 0 from top, Nat.zero_add] at counted
    have limit := running.length_le top
    refine ⟨counted, limit, fun m ends => (a.calls_of_state? ends).trans counted, ?_⟩
    obtain ⟨fuel', p, m⟩ := a
    rintro n own f paren es rfl rfl
    refine ⟨fun callable vs m' invokes => ?_, ?_⟩
    · obtain ⟨more, le⟩ := invokes.calls
      exact ⟨more.trans (congrArg (· + 1) counted), le⟩
    · intro v m1 vs m2 callable callee arguments accepts arity
      have counted : m.calls = calls.length := counted
      rw [Moment.overflows_iff callee arguments accepts arity, counted]
      exact ⟨Nat.le_antisymm limit, fun full => full.ge⟩

namespace Descent

/-- `f()` -/
def call : Expr := .call (.name ⟨.identifier, "f", 1⟩ none) ⟨.symbol .rightParen, ")", 1⟩ []

/-- `fun f() { f(); }`, where it is declared. -/
def function : Closure := ⟨⟨⟨.identifier, "f", 1⟩, [], [.expr call]⟩, [0], false⟩

/-- The scopes of that many calls, behind the declaration. -/
def frames : Nat → Array (Bindings Value)
  | 0 => #[⟨[("clock", .clock), ("f", .function 0 function)]⟩]
  | k + 1 => (frames k).push .empty

theorem size_frames (k : Nat) : (frames k).size = k + 1 := by
  induction k with
  | zero => rfl
  | succ k ih => rw [frames, Array.size_push, ih]

theorem globals_frames (k : Nat) : (frames k)[0]? = (frames 0)[0]? := by
  induction k with
  | zero => rfl
  | succ k ih =>
      have other : 0 ≠ (frames k).size := by
        rw [size_frames]
        exact (Nat.succ_ne_zero k).symm
      rw [← ih, show frames (k + 1) = (frames k).push .empty from rfl, Array.getElem?_push,
        if_neg other]

/-- The machine with that many calls running. -/
def machine (k : Nat) : Machine :=
  { Machine.initial fun _ => 0 with
    store := ⟨frames k⟩, scope := if k = 0 then [0] else [k, 0], calls := k, nextId := 1 }

theorem callee_found (n k : Nat) :
    eval (n + 1) (.name ⟨.identifier, "f", 1⟩ none) (machine k) =
      .done (.function 0 function) (machine k) := by
  have bound : ∀ x, Store.read? ⟨frames k⟩ 0 x = Store.read? ⟨frames 0⟩ 0 x := fun x => by
    rw [Store.read?, globals_frames]
    rfl
  have found : Store.get? ⟨frames k⟩ [0] "f" = some (.function 0 function) := by
    have first : Store.frame? ⟨frames k⟩ [0] "f" = some 0 := by
      simp only [Store.frame?, Store.binds, List.find?, bound]
      rfl
    rw [Store.get?, first, Option.bind_some, bound]
    rfl
  rw [eval, lookUp]
  dsimp only
  rw [show (machine k).store.get? Machine.globalScope "f" = _ from found]

/-- The call made from that depth. -/
def activation (n k : Nat) (room : k < maxCalls) : Activation where
  fuel := n + 1
  own := none
  call := call
  caller := machine k
  callable := .closure function
  arguments := []
  invoked := { machine k with calls := k + 1 }
  closure := function
  machine := { machine k with calls := k + 1 }
  scope := [(frames k).size, 0]
  bound := _
  invokes := .call (callee_found n k) rfl rfl rfl room
  runs := .closure
  enters := rfl

theorem body_eq (n k : Nat) (room : k < maxCalls) :
    (activation n k room).body = ⟨n + 1, .stmts [.expr call], machine (k + 1)⟩ := by
  have scope : (activation n k room).scope = (machine (k + 1)).scope := by
    show [(frames k).size, 0] = _
    rw [size_frames]
    rfl
  rw [Activation.body, scope]
  rfl

theorem calls_again {start : Moment} {calls : List Activation} {n k : Nat}
    (h : start.Running calls ⟨n + 1, .stmts [.expr call], machine k⟩) :
    start.Running calls ⟨n, .expr none call, machine k⟩ := by
  have statement : Moment.Calls ⟨n + 1, .stmts [.expr call], machine k⟩
    ⟨n + 1, .stmt (.expr call), machine k⟩ := Leads.statement
  have value : Moment.Calls ⟨n + 1, .stmt (.expr call), machine k⟩
    ⟨n, .expr none call, machine k⟩ := Leads.value rfl
  exact .part (.part h statement fun _ => rfl) value nofun

/-- The function goes on calling itself as long as it may. -/
theorem running (k : Nat) (le : k ≤ maxCalls) (n : Nat) :
    ∃ calls : List Activation, calls.length = k ∧
      ((Session.initial fun _ => 0).moment (n + 2 * k + 2)
        (.stmts [.function function.declaration, .expr call])).Running calls
        ⟨n + 1, .expr none call, machine k⟩ := by
  induction k generalizing n with
  | zero =>
      have declared : Moment.Calls ⟨n + 2, .stmts [.function function.declaration, .expr call],
          Machine.initial fun _ => 0⟩ ⟨n + 2, .stmts [.expr call], machine 0⟩ :=
        Leads.moreStatements rfl
      exact ⟨[], rfl, calls_again (.part .start declared fun _ => rfl)⟩
  | succ k ih =>
      obtain ⟨calls, length, before⟩ := ih (Nat.le_of_succ_le le) (n + 2)
      have fuel : n + 2 + 2 * k + 2 = n + 2 * (k + 1) + 2 := by omega
      rw [fuel] at before
      have body := Moment.Running.body (activation (n + 1) k le) before
      rw [body_eq] at body
      refine ⟨calls ++ [activation (n + 1) k le], ?_, ?_⟩
      · rw [List.length_append, length]
        rfl
      · exact calls_again body

end Descent

open Descent in
/-- `fun f() { f(); } f();` fails in the call that would be the 201st to run. -/
theorem descent_overflows : ∃ (calls : List Activation) (m : Machine),
    calls.length = 200 ∧
    ((Session.initial fun _ => 0).moment 403
      (.stmts [.function function.declaration, .expr call])).Running calls
      ⟨2, .expr none call, machine 200⟩ ∧
    Moment.Raises ⟨2, .expr none call, machine 200⟩
      ⟨⟨.symbol .rightParen, ")", 1⟩, .tooManyCalls⟩ m := by
  obtain ⟨calls, length, before⟩ := running 200 (Nat.le_refl _) 1
  have fresh : Session.Reachable (fun _ => 0) (.initial fun _ => 0) := .initial
  obtain ⟨-, -, -, counted⟩ := fresh.counts_calls 403
    (.stmts [.function function.declaration, .expr call])
  obtain ⟨-, -, -, overflows⟩ := counted calls _ before
  obtain ⟨-, overflows⟩ := overflows 1 none _ _ _ rfl rfl
  obtain ⟨m, raises⟩ := (overflows _ _ _ _ _ (callee_found 0 200) rfl rfl rfl).2 length
  exact ⟨calls, m, length, before, raises⟩

end LoxLang
