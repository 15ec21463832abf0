import LoxLang.Proofs.EvaluationOrder
import LoxLang.Proofs.TopLevel

/-!
# Where a `return` goes

A `return` breaks off the statements that it stands in, up to the body of the
innermost function that is running, and that function has the value for its
result. An initializer has `this` instead. What the statements would have gone
on with is not evaluated. At top level a `return` is a static error, so nothing
is ever returned there.
-/

namespace LoxLang

open LoxLang.Action MachineM

/-! ## From statement to statement -/

namespace Moment

/-- The first evaluation comes to the second through statements only. A `return` there breaks off
both. -/
inductive Encloses (a : Moment) : Moment → Prop
  | refl : Encloses a a
  | step {b c : Moment} (before : Encloses a b) (outer : b.point.isValue = false)
      (calls : b.Calls c) : Encloses a c

variable {a b c : Moment}

theorem Encloses.reaches (h : a.Encloses b) : a.Reaches b := by
  induction h with
  | refl => exact .start
  | step _ _ calls ih => exact .step ih calls

/-- What breaks off a statement breaks off those around it. -/
theorem Encloses.breaks {u : Unwind} {m : Machine} (h : a.Encloses b)
    (broken : b.outcome = u.leaving m) : a.outcome = u.leaving (m.backTo a.machine) := by
  induction h generalizing m with
  | refl =>
      have restored := (a.point.restores_flow a.fuel).leaving broken
      rw [broken, restored.backTo]
  | step _ outer calls ih =>
      have around := ih (Leads.breaks calls (fun _ _ => outer) broken)
      exact around

end Moment

/-! ## Top level -/

/-- No `return` belongs to what the point stands in. -/
def Point.Stays : Point → Prop
  | .expr .. | .exprs .. => True
  | .stmt s | .rounds _ _ s => s.Stays
  | .stmts ss => Stmt.StaysAll ss

theorem Stmt.Stays.branch {s s' : Stmt} {v : Value} (h : s.Stays) (next : s.branch? v = some s') :
    s'.Stays := by
  rcases Stmt.branch?_cases next with ⟨e, rfl, -⟩ | ⟨e, a, b, rfl, rfl⟩
  · exact h
  · split
    · exact h.1
    · exact h.2

theorem Leads.stays {n n' : Nat} {p p' : Point} {m m' : Machine} (h : Leads n p m n' p' m')
    (outer : p.isValue = false) (stays : p.Stays) : p'.Stays := by
  cases h with
  | first | second | arguments | call | argument | moreArguments => cases outer
  | value | initializer | superclass | test => trivial
  | branch _ _ next => exact Stmt.Stays.branch stays next
  | block | loop | round | moreRounds => exact stays
  | statement => exact stays.1
  | moreStatements => exact stays.2

/-- A point without a `return` of its own does not return. -/
theorem Point.Stays.falls {p : Point} (h : p.Stays) (fuel : Nat) : (p.flow fuel).Falls := by
  cases p with
  | expr | exprs => exact .bind fun _ => .next
  | stmt s => exact falls_exec fuel s h
  | stmts ss => exact falls_execAll (falls_exec fuel) h
  | rounds left test body => exact .loop (falls_exec fuel body h) left

theorem Moment.Encloses.stays {a b : Moment} (h : a.Encloses b) (stays : a.point.Stays) :
    b.point.Stays := by
  induction h with
  | refl => exact stays
  | step _ outer calls ih => exact Leads.stays calls outer ih

theorem Accepted.stays {start : Point} (h : Accepted start) : start.Stays := by
  cases h with
  | program _ clean => exact Stmt.staysAll_of_clean rfl clean
  | expression => trivial

/-! ## Running functions -/

/-- The evaluation of a call comes to invoke a callable on arguments, with one more call running. -/
inductive Invokes : Nat → Expr → Machine → Callable → List Value → Machine → Prop
  | call {n : Nat} {f : Expr} {paren : Token} {es : List Expr} {m m' m'' : Machine} {v : Value}
      {vs : List Value} {callable : Callable} (callee : eval n f m = .done v m')
      (arguments : evalAll (eval n) es m' = .done vs m'') (accepts : v.callable? = some callable)
      (arity : vs.length = callable.arity) (room : m''.calls < maxCalls) :
      Invokes n (.call f paren es) m callable vs { m'' with calls := m''.calls + 1 }

/-- A function that is running, and the call that made it run: the expression and the machine in
which it is evaluated, what it invokes, and the function with the machine in which it is called and
the scope that its parameters are bound in. -/
structure Activation where
  fuel : Nat
  own : Option String
  call : Expr
  caller : Machine
  callable : Callable
  arguments : List Value
  invoked : Machine
  closure : Closure
  machine : Machine
  scope : Scope
  bound : Machine
  invokes : Invokes fuel call caller callable arguments invoked
  runs : Runs callable invoked closure machine
  enters : entered closure arguments machine = .done scope bound

namespace Activation

/-- The call that is evaluated. -/
def expression (a : Activation) : Moment := ⟨a.fuel + 1, .expr a.own a.call, a.caller⟩

/-- The body that runs. -/
def body (a : Activation) : Moment :=
  ⟨a.fuel, .stmts a.closure.declaration.body, { a.bound with scope := a.scope }⟩

/-- How the function ends. -/
def result (a : Activation) : Outcome Machine Value :=
  enter (execAll (exec a.fuel)) a.closure a.arguments a.machine

/-- How the call ends. -/
def value (a : Activation) : Outcome Machine Value := eval (a.fuel + 1) a.call a.caller

variable (a : Activation) {m : Machine} {v w : Value}

theorem evolves_bound : a.invoked.Evolves none a.bound :=
  a.runs.evolves.trans ((Evolving.entered ..).done a.enters)

/-- How the body ends decides on the result of the function, if that is no initializer. -/
theorem result_of_done {flow : Flow} (ends : a.body.outcome = .done flow m) :
    a.result = .done (if a.closure.isInitializer
        then (m.store.getAt? a.closure.scope 0 "this").getD .nil else flow.value)
      (m.backTo a.machine) := by
  have restores : (enter (execAll (exec a.fuel)) a.closure a.arguments).Restores :=
    .of_evolving (fun _ => none) fun _ =>
      .enter (fun body _ => .execAll (evolving a.fuel).2 body) a.closure a.arguments
  have inside : inScope a.scope (execAll (exec a.fuel) a.closure.declaration.body) a.bound =
      .done flow { m with scope := a.bound.scope } := by
    have ends : execAll (exec a.fuel) a.closure.declaration.body
        { a.bound with scope := a.scope } = .done flow m := ends
    rw [inScope, ends]
  suffices result : a.result = .done (if a.closure.isInitializer
      then (m.store.getAt? a.closure.scope 0 "this").getD .nil else flow.value)
      { m with scope := a.bound.scope } by
    have restored := (restores a.machine).done result
    rw [result, ← restored.backTo]
    rfl
  rw [result, enter_of_entered a.enters, bind_of_done inside]
  split <;> rfl

/-- What the body returns is the result of the function, if that is no initializer. -/
theorem result_of_returned (returned : a.body.outcome = .done (.returned v) m) :
    a.result = .done (if a.closure.isInitializer
        then (m.store.getAt? a.closure.scope 0 "this").getD .nil else v)
      (m.backTo a.machine) := a.result_of_done returned

/-- The result of the function decides on the value of the call. -/
theorem value_of_result (ends : a.result = .done w m) :
    a.value = .done (a.callable.gives a.invoked w) (m.backTo a.caller) := by
  suffices value : a.value = .done (a.callable.gives a.invoked w) { m with calls := m.calls - 1 } by
    have restored := (restores_eval _ _ a.caller).done value
    rw [value, ← restored.backTo]
    rfl
  obtain ⟨n, own, e, k, callable, vs, m0, f, m1, scope, m2, invokes, runs, enters⟩ := a
  have invoked : invoke (execAll (exec n)) callable vs m0 = .done (callable.gives m0 w) m := by
    rw [invoke_of_runs runs]
    exact bind_of_done ends
  cases invokes with
  | call callee arguments accepts arity room =>
      show eval (n + 1) _ _ = _
      rw [eval, bind_of_done callee, bind_of_done arguments, apply_of_accepts accepts arity room,
        counted, invoked]

/-- One more call is running in the body. -/
theorem calls_body : a.body.machine.calls = a.caller.calls + 1 := by
  have bound : a.bound.calls = a.invoked.calls := a.evolves_bound.calls
  refine bound.trans ?_
  obtain ⟨n, own, e, k, callable, vs, m0, f, m1, scope, m2, invokes, runs, enters⟩ := a
  cases invokes with
  | call callee arguments accepts arity room =>
      have before := ((restores_eval _ _ _).done callee).calls
      have behind := ((Evolving.evalAll (evolving n).1 _).done arguments).calls
      exact congrArg Nat.succ (behind.trans before)

end Activation

/-- A statement is evaluated for another one, or because a function runs. -/
theorem Leads.to_statement {n n' : Nat} {p p' : Point} {m m' : Machine} (h : Leads n p m n' p' m')
    (inner : p'.isValue = false) : p.isValue = false ∨
      ∃ a : Activation, a.expression = ⟨n, p, m⟩ ∧ a.body = ⟨n', p', m'⟩ := by
  cases h with
  | call callee arguments accepts arity room starts =>
      obtain ⟨f, m1, scope, m2, runs, enters, rfl, rfl⟩ := starts.runs
      exact .inr ⟨⟨_, _, _, _, _, _, _, f, m1, scope, m2,
        .call callee arguments accepts arity room, runs, enters⟩, rfl, rfl⟩
  | first | second | arguments | argument | moreArguments => cases inner
  | _ => exact .inl rfl

theorem Visits.to_statement {n n' : Nat} {p p' : Point} {m m' : Machine}
    (h : Visits n p m n' p' m') (inner : p'.isValue = false) :
    Moment.Encloses ⟨n, p, m⟩ ⟨n', p', m'⟩ ∨ ∃ a : Activation,
      Moment.Reaches ⟨n, p, m⟩ a.expression ∧ a.body.Encloses ⟨n', p', m'⟩ := by
  induction h with
  | start => exact .inl .refl
  | step before leads ih =>
      rcases leads.to_statement inner with outer | ⟨a, expression, body⟩
      · rcases ih outer with encloses | ⟨a, reaches, encloses⟩
        · exact .inl (.step encloses outer leads)
        · exact .inr ⟨a, reaches, .step encloses outer leads⟩
      · refine .inr ⟨a, ?_, ?_⟩
        · rw [expression]
          exact before
        · rw [body]
          exact .refl

/-! ## How many calls are running -/

/-- A point that is not the body of a function is evaluated with as many calls running. -/
theorem Leads.calls {n n' : Nat} {p p' : Point} {m m' : Machine} (h : Leads n p m n' p' m') :
    m'.calls = m.calls ∨
      p.isValue = true ∧ p'.isValue = false ∧ m'.calls = m.calls + 1 := by
  have leads := h
  have evaluated : ∀ {n e m v m'}, eval n e m = .done v m' → m'.calls = m.calls :=
    fun h => ((restores_eval _ _ _).done h).calls
  have executed : ∀ {n s m flow m'}, exec n s m = .done flow m' → m'.calls = m.calls :=
    fun h => ((restores_exec _ _ _).done h).calls
  cases h with
  | call =>
      obtain ⟨a, expression, body⟩ := (leads.to_statement rfl).resolve_left nofun
      have more := a.calls_body
      rw [body, show a.caller = m from congrArg Moment.machine expression] at more
      exact .inr ⟨rfl, rfl, more⟩
  | first | argument | value | initializer | loop | test | statement => exact .inl rfl
  | second _ before | arguments before | moreArguments before | branch _ before | round before =>
      exact .inl (evaluated before)
  | superclass before | block before =>
      cases before
      exact .inl rfl
  | moreRounds before _ body => exact .inl ((executed body).trans (evaluated before))
  | moreStatements before => exact .inl (executed before)

namespace Moment

variable {a b r : Moment}

theorem Encloses.calls (h : a.Encloses b) : b.machine.calls = a.machine.calls := by
  induction h with
  | refl => rfl
  | step _ outer calls ih =>
      rcases Leads.calls calls with same | ⟨value, -⟩
      · exact same.trans ih
      · cases outer.symm.trans value

theorem Calls.calls_le (h : a.Calls b) : a.machine.calls ≤ b.machine.calls := by
  rcases Leads.calls h with same | ⟨-, -, more⟩ <;> omega

theorem Reaches.calls_le (h : a.Reaches b) : a.machine.calls ≤ b.machine.calls := by
  have visits : ∀ {n p m n' p' m'}, Visits n p m n' p' m' → m.calls ≤ m'.calls := by
    intro n p m n' p' m' h
    induction h with
    | start => exact Nat.le_refl _
    | step before leads ih => rcases leads.calls with same | ⟨-, -, more⟩ <;> omega
  exact visits h

/-- What is reached while no more calls are running is not in the body of another function. -/
theorem Reaches.encloses (h : a.Reaches b) (inner : b.point.isValue = false)
    (same : b.machine.calls = a.machine.calls) : a.Encloses b := by
  rcases Visits.to_statement h inner with encloses | ⟨activation, reaches, encloses⟩
  · exact encloses
  · have before : a.machine.calls ≤ activation.caller.calls := Reaches.calls_le reaches
    have inside : b.machine.calls = _ := encloses.calls.trans activation.calls_body
    omega

/-- Behind a `return` nothing is evaluated that the function would have gone on with. -/
theorem Encloses.last_of_returned {v : Value} {m : Machine} (h : a.Encloses r)
    (inner : r.point.isValue = false) (returned : r.outcome = .done (.returned v) m) :
    a.Last r := by
  refine .of_not_earlier h.reaches fun b => ?_
  rintro ⟨whole, part, later, reaches, after, inside, -⟩
  have before := reaches.calls_le
  have behind := after.calls.1.calls_le
  have rest := inside.calls_le
  -- The earlier part has come to the `return` without a call, so it was broken off as well.
  have same : r.machine.calls = part.machine.calls := by
    have := h.calls
    omega
  have encloses := inside.encloses inner same
  obtain ⟨m', done⟩ := after.done
  cases done.symm.trans (encloses.breaks (u := .returned v) returned)

end Moment

/-! ## `this` in initializers -/

namespace Activation

variable {a : Activation} {m : Machine} {v : Value}

theorem calls : a.expression.Calls a.body := by
  obtain ⟨n, own, e, k, callable, vs, m0, f, m1, scope, m2, invokes, runs, enters⟩ := a
  cases invokes with
  | call callee arguments accepts arity room =>
      refine .call callee arguments accepts arity room ?_
      cases runs with
      | closure => exact .closure enters
      | construct found bound => exact .construct found bound (.closure enters)

theorem closure_sound (h : a.expression.point.Sound a.caller) (hm : a.caller.Sound) :
    a.closure.Sound a.machine.store := by
  obtain ⟨n, own, e, k, callable, vs, m0, f, m1, scope, m2, invokes, runs, enters⟩ := a
  cases invokes with
  | call callee arguments accepts arity room =>
      obtain ⟨hv, -, hm''⟩ := Point.Sound.call h hm callee arguments
      exact (runs.sound hm'' hv accepts).2.2.1

/-- When an initializer has returned, `this` is bound to an object next to it. -/
theorem this_of_returned (h : a.expression.point.Sound a.caller) (hm : a.caller.Sound)
    (returned : a.body.outcome = .done (.returned v) m) (hi : a.closure.isInitializer = true) :
    ∃ id k, m.store.getAt? a.closure.scope 0 "this" = some (.object id k) := by
  obtain ⟨body, sound⟩ := Leads.sound calls h hm
  have ran : a.body.point.run a.fuel a.body.machine = .done () m := bind_of_done returned
  obtain ⟨he, hm', -⟩ := (body.run sound a.fuel).done ran
  have bound : a.machine.Evolves none a.bound := (Evolving.entered ..).done a.enters
  have store : a.bound.store.Extends _ m.store := he.store
  obtain ⟨kind, c, declaration, -, placed, this⟩ :=
    ((closure_sound h hm).mono bound.store).mono store
  obtain ⟨w, hw⟩ := placed.getAt? (this hi).2
  obtain ⟨id, k, rfl⟩ := (HeapSound.getAt? hm' hw).2.1 rfl
  exact ⟨id, k, hw⟩

end Activation

/-! ## Sessions -/

/-- In every run of an accepted program or expression, a `return` that is evaluated stands in the
body of a function that is running, and no other function has been called in between. When it
returns a value, nothing is evaluated behind it in the body. The function has the value for its
result, or `this` if it is an initializer, and the call goes on with that. Outside of functions
nothing returns. -/
theorem Session.Reachable.returns_to_call {clock : Nat → Float} {s : Session}
    (h : s.Reachable clock) {start : Point} (accepted : Accepted start) (fuel : Nat) :
    (∀ a v m, Moment.Encloses ⟨fuel, start, s.machine⟩ a → a.outcome ≠ .done (.returned v) m) ∧
    ∀ r keyword value, Moment.Reaches ⟨fuel, start, s.machine⟩ r →
      r.point = .stmt (.returning keyword value) →
      ∃ a : Activation, Moment.Reaches ⟨fuel, start, s.machine⟩ a.expression ∧
        a.body.Encloses r ∧
        ∀ v m, r.outcome = .done (.returned v) m →
          a.body.Last r ∧ a.body.outcome = .done (.returned v) (m.backTo a.body.machine) ∧
          ∃ w, a.result = .done w (m.backTo a.machine) ∧
            (a.closure.isInitializer = false → w = v) ∧
            (a.closure.isInitializer = true → ∃ id k, w = .object id k ∧
              m.store.getAt? a.closure.scope 0 "this" = some w) ∧
            a.value = .done (a.callable.gives a.invoked w) (m.backTo a.caller) := by
  refine ⟨fun a v m encloses returned => ?_, fun r keyword value reaches isReturn => ?_⟩
  · have stays := encloses.stays accepted.stays
    cases (stays.falls a.fuel).done returned
  · have inner : r.point.isValue = false := by rw [isReturn]; rfl
    rcases Visits.to_statement reaches inner with top | ⟨a, calling, encloses⟩
    · have stays : r.point.Stays := Moment.Encloses.stays top accepted.stays
      rw [isReturn] at stays
      exact stays.elim
    · refine ⟨a, calling, encloses, fun v m returned => ?_⟩
      have body : a.body.outcome = .done (.returned v) (m.backTo a.body.machine) :=
        Moment.Encloses.breaks (u := .returned v) encloses returned
      have result := a.result_of_returned body
      have value := a.value_of_result result
      have last := Moment.Encloses.last_of_returned encloses inner returned
      refine ⟨last, body, _, result, fun hi => ?_, fun hi => ?_, value⟩
      · rw [hi]
        rfl
      · have sound := Visits.sound calling (accepted.sound h.sound) h.sound.machine
        obtain ⟨id, k, this⟩ := Activation.this_of_returned sound.1 sound.2 body hi
        rw [if_pos hi, this]
        exact ⟨id, k, rfl, this⟩

/-- `fun f() { while (true) { return nil; print nil; } } f();` -/
def returnInLoop : List Stmt :=
  [.function ⟨⟨.identifier, "f", 1⟩, [],
      [.whileDo (.literal (.bool true)) (.block
        [.returning ⟨.symbol .returnWord, "return", 1⟩ (some (.literal .nil)),
          .print (.literal .nil)])]⟩,
    .expr (.call (.name ⟨.identifier, "f", 1⟩ none) ⟨.symbol .rightParen, ")", 1⟩ [])]

/-- The loop ends in its first round, and the second statement of its body is not run. -/
theorem returnInLoop_returns : ∃ (r : Moment) (m : Machine) (a : Activation),
    Moment.Reaches ⟨9, .stmts (Stmt.resolve returnInLoop), (Session.initial fun _ => 0).machine⟩ r ∧
    r.outcome = .done (.returned .nil) m ∧ a.body.Encloses r ∧ a.body.Last r ∧
    a.body.outcome = .done (.returned .nil) (m.backTo a.body.machine) := by
  have accepted : Accepted (.stmts (Stmt.resolve returnInLoop)) :=
    @Accepted.program "fun f() \x7b while (true) \x7b return nil; print nil; \x7d \x7d f();" _
      (by with_unfolding_all rfl) rfl
  obtain ⟨m, visits⟩ : ∃ m, Visits 9 (.stmts (Stmt.resolve returnInLoop))
      (Session.initial fun _ => 0).machine 5
      (.stmt (.returning ⟨.symbol .returnWord, "return", 1⟩ (some (.literal .nil)))) m :=
    ⟨_, .step (.step (.step (.step (.step (.step (.step (.step (.step .start
      (.moreStatements rfl)) .statement) (.value rfl)) (.call rfl rfl rfl rfl (by decide)
      (.closure rfl))) .statement) .loop) (.round rfl rfl)) (.block rfl)) .statement⟩
  obtain ⟨-, returns⟩ := Session.Reachable.returns_to_call .initial accepted 9
  obtain ⟨a, -, encloses, unwinds⟩ := returns ⟨5, _, m⟩ _ _ visits rfl
  obtain ⟨last, body, -⟩ := unwinds .nil m rfl
  exact ⟨⟨5, _, m⟩, m, a, visits, rfl, encloses, last, body⟩

end LoxLang
