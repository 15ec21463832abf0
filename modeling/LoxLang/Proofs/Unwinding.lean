import LoxLang.Proofs.Restoration

/-!
# What an evaluation that is broken off leaves undone

A fault breaks off every evaluation that is in progress when it is raised, from
the operand that raises it to the whole program. So the fault of a run is that
of some point it visits, and the machine is left as that point left it, but for
the scope and the running calls. A `return` breaks off what is in progress too,
as far as that consists of statements: the call of a function whose body has
returned goes on.
-/

namespace LoxLang

open LoxLang.Action MachineM

/-! ## Points in progress -/

/-- The evaluation of a point. Expressions do not return. -/
def Point.flow (fuel : Nat) : Point → MachineM Flow
  | .expr _ e => eval fuel e >>= fun _ => pure .next
  | .exprs _ es => evalAll (eval fuel) es >>= fun _ => pure .next
  | .stmt s => exec fuel s
  | .stmts ss => execAll (exec fuel) ss
  | .rounds left test body => loop (eval fuel test) (exec fuel body) left

theorem Point.restores_flow (fuel : Nat) (p : Point) : (p.flow fuel).Restores := by
  have value : ∀ {α : Type} {act : MachineM α}, (∀ m, Evolving none act m) →
      (act >>= fun _ => pure (.next : Flow)).Restores := fun h =>
    .of_evolving (fun _ => none) fun m => (h m).bind fun _ _ _ => .pure _
  cases p with
  | expr own e => exact value ((evolving fuel).1 e)
  | exprs own es => exact value fun m => .evalAll (evolving fuel).1 es
  | stmt s => exact restores_exec fuel s
  | stmts ss => exact restores_execProgram fuel ss
  | rounds left test body =>
      exact .of_evolving (·.scope.head?) fun m =>
        .loop ((evolving fuel).1 test) ((evolving fuel).2 body) left

/-- A point that is evaluated with some fuel and in some machine. -/
structure Moment where
  fuel : Nat
  point : Point
  machine : Machine

namespace Moment

/-- How the evaluation ends. -/
def outcome (a : Moment) : Outcome Machine Flow := a.point.flow a.fuel a.machine

/-- The evaluation calls for another. -/
def Calls (a b : Moment) : Prop := Leads a.fuel a.point a.machine b.fuel b.point b.machine

/-- The second evaluation is the first, or a part of it. -/
def Reaches (a b : Moment) : Prop := Visits a.fuel a.point a.machine b.fuel b.point b.machine

end Moment

/-- Why an evaluation is broken off. -/
inductive Unwind where
  | raised (fault : Located Fault)
  | returned (v : Value)

/-- The end of an evaluation that is broken off in a machine. -/
def Unwind.leaving (m : Machine) : Unwind → Outcome Machine Flow
  | .raised fault => .failed fault m
  | .returned v => .done (.returned v) m

/-- Does the point consist of expressions? No `return` breaks those off. -/
def Point.isValue : Point → Bool
  | .expr .. | .exprs .. => true
  | .stmt _ | .stmts _ | .rounds .. => false

section Actions

variable {α : Type} {m m' : Machine} {u : Unwind}

/-- What goes on behind an action only if it does not return is broken off with the action. -/
theorem bind_of_leaving {act : MachineM Flow} {next : Flow → MachineM Flow}
    (returns : ∀ v, next (.returned v) = pure (.returned v)) (h : act m = u.leaving m') :
    (act >>= next) m = u.leaving m' := by
  cases u with
  | raised fault => exact bind_of_failed h
  | returned v => rw [bind_of_done h, returns]; rfl

/-- The evaluation of an expression is broken off by a fault. -/
theorem failed_of_leaving {act : MachineM α} (h : (act >>= fun _ => pure .next) m = u.leaving m') :
    ∃ fault, u = .raised fault ∧ act m = .failed fault m' := by
  rw [bind_apply] at h
  cases ha : act m <;> rw [ha] at h <;> cases u <;> cases h
  exact ⟨_, rfl, rfl⟩

theorem inScope_of_leaving {act : MachineM Flow} {scope : Scope}
    (h : act { m with scope := scope } = u.leaving m') :
    inScope scope act m = u.leaving { m' with scope := m.scope } := by
  rw [inScope, h]
  cases u <;> rfl

theorem Action.Restores.leaving {act : MachineM Flow} (h : act.Restores)
    (ends : act m = u.leaving m') : m.Restored m' := by
  cases u with
  | raised fault => exact (h m).failed ends
  | returned v => exact (h m).done ends

end Actions

/-- The machine, back in the scope and among the running calls of another. -/
def Machine.backTo (m before : Machine) : Machine :=
  { m with scope := before.scope, calls := before.calls }

theorem Machine.Restored.backTo {m m' : Machine} (h : m.Restored m') : m'.backTo m = m' := by
  unfold Machine.backTo
  rw [← h.scope, ← h.calls]

/-! ## Calls -/

/-- The value of a call, given what the function gives that it runs: the call of a class gives the
new object. -/
def Callable.gives (m : Machine) (w : Value) : Callable → Value
  | .construct k => .object m.fields.size k
  | _ => w

section Calls

variable {run : List Stmt → MachineM Flow} {callable : Callable} {vs : List Value}
  {m m' m'' : Machine} {f : Closure} {scope : Scope}

theorem Runs.evolves (h : Runs callable m f m') : m.Evolves none m' := by
  cases h with
  | closure => exact .refl _
  | construct _ bound =>
      exact ((Evolving.newObject _).bind fun _ _ _ => .bindMethod ..).done bound

theorem invoke_of_runs (h : Runs callable m f m') :
    invoke run callable vs m =
      (enter run f vs >>= fun w => pure (callable.gives m w)) m' := by
  cases h with
  | closure => exact (congrFun (bind_pure (enter run f vs)) m).symm
  | construct found bound =>
      rw [invoke]
      rw [bind_apply] at bound ⊢
      dsimp only [newObject] at bound ⊢
      rw [found]
      exact bind_of_done bound

theorem enter_of_entered (h : entered f vs m = .done scope m') :
    enter run f vs m = (inScope scope (run f.declaration.body) >>= fun flow =>
      if f.isInitializer then receiver f else pure flow.value) m' := by
  rw [enter_eq, bind_of_done h]

theorem apply_of_accepts {v : Value} {paren : Token} (accepts : v.callable? = some callable)
    (arity : vs.length = callable.arity) (room : m.calls < maxCalls) :
    apply run paren v vs m = counted (invoke run callable vs) m := by
  unfold apply
  rw [accepts]
  dsimp only
  rw [if_neg (not_not_intro arity), if_neg (by omega)]

end Calls

/-! ## Operands and branches -/

section Operands

variable {n : Nat} {e d d' : Expr} {m m' : Machine} {v : Value}

theorem Expr.eval_first (operand : e.first? = some d) :
    ∃ rest : Value → MachineM Value, eval (n + 1) e = eval n d >>= rest := by
  cases e <;> cases operand
  case group => exact ⟨pure, (bind_pure _).symm⟩
  all_goals exact ⟨_, rfl⟩

theorem Expr.eval_second (operand : e.first? = some d) (before : eval n d m = .done v m')
    (next : e.second? v = some d') :
    ∃ rest : Value → MachineM Value, eval (n + 1) e m = (eval n d' >>= rest) m' := by
  cases e <;> cases operand
  case binary =>
    cases next
    rw [eval, bind_of_done before]
    exact ⟨_, rfl⟩
  case logical =>
    rw [Expr.second?] at next
    split at next <;> cases next
    next continues =>
      rw [eval, bind_of_done before, if_neg continues]
      exact ⟨pure, (congrFun (bind_pure _) m').symm⟩
  case set =>
    cases v <;> cases next
    rw [eval, bind_of_done before]
    exact ⟨_, rfl⟩
  all_goals cases next

theorem Stmt.exec_first {s : Stmt} (operand : s.first? = some e) :
    ∃ rest : Value → MachineM Flow, exec (n + 1) s = eval n e >>= rest := by
  cases s
  case returning value => cases value <;> cases operand; exact ⟨_, rfl⟩
  all_goals first
    | cases operand; exact ⟨_, rfl⟩
    | cases operand

theorem Stmt.exec_branch {s s' : Stmt} (operand : s.first? = some e)
    (before : eval n e m = .done v m') (next : s.branch? v = some s') :
    exec (n + 1) s m = exec n s' m' := by
  rcases Stmt.branch?_cases next with ⟨d, rfl, taken⟩ | ⟨d, a, b, rfl, rfl⟩
  · cases operand
    rw [exec, bind_of_done before, if_pos taken]
  · cases operand
    rw [exec, bind_of_done before]
    split <;> rfl

end Operands

/-! ## What a break goes through -/

section Breaks

variable {n n' : Nat} {p p' : Point} {m m' m'' : Machine} {u : Unwind}

theorem Starts.failed {callable : Callable} {vs : List Value} {body : List Stmt}
    {run : List Stmt → MachineM Flow} {fault : Located Fault} (h : Starts callable vs m body m')
    (failed : run body m' = .failed fault m'') :
    ∃ m3, invoke run callable vs m = .failed fault m3 ∧
      ∀ before, m3.backTo before = m''.backTo before := by
  obtain ⟨f, m1, scope, m2, runs, entered, rfl, rfl⟩ := h.runs
  have broken : inScope scope (run f.declaration.body) m2 =
      .failed fault { m'' with scope := m2.scope } := inScope_of_leaving (u := .raised fault) failed
  refine ⟨{ m'' with scope := m2.scope }, ?_, fun _ => rfl⟩
  rw [invoke_of_runs runs]
  refine bind_of_failed ?_
  rw [enter_of_entered entered]
  exact bind_of_failed broken

/-- What breaks off the evaluation that a point calls for breaks off that of the point itself. Only
a `return` is not passed on to the call whose body it is in. -/
theorem Leads.breaks (h : Leads n p m n' p' m') (passes : ∀ v, u = .returned v → p.isValue = false)
    (broken : p'.flow n' m' = u.leaving m'') : p.flow n m = u.leaving (m''.backTo m) := by
  -- The scope and the calls need no care below, since every point restores them in the end.
  suffices breaks : ∃ m3, p.flow n m = u.leaving m3 ∧ m3.backTo m = m''.backTo m by
    obtain ⟨m3, breaks, same⟩ := breaks
    rw [breaks, ← same, ((p.restores_flow n).leaving breaks).backTo]
  cases h with
  | first operand =>
      obtain ⟨fault, rfl, failed⟩ := failed_of_leaving broken
      obtain ⟨rest, factors⟩ := Expr.eval_first operand
      refine ⟨_, bind_of_failed ?_, rfl⟩
      rw [factors]
      exact bind_of_failed failed
  | second operand before next =>
      obtain ⟨fault, rfl, failed⟩ := failed_of_leaving broken
      obtain ⟨rest, factors⟩ := Expr.eval_second operand before next
      refine ⟨_, bind_of_failed ?_, rfl⟩
      rw [factors]
      exact bind_of_failed failed
  | arguments before =>
      obtain ⟨fault, rfl, failed⟩ := failed_of_leaving broken
      refine ⟨_, bind_of_failed ?_, rfl⟩
      rw [eval, bind_of_done before]
      exact bind_of_failed failed
  | call callee arguments accepts arity room starts =>
      cases u with
      | returned v => cases passes v rfl
      | raised fault =>
          obtain ⟨m3, failed, same⟩ := starts.failed broken
          refine ⟨{ m3 with calls := m3.calls - 1 }, bind_of_failed ?_, same m⟩
          rw [eval, bind_of_done callee, bind_of_done arguments,
            apply_of_accepts accepts arity room, counted, failed]
  | argument =>
      obtain ⟨fault, rfl, failed⟩ := failed_of_leaving broken
      exact ⟨_, bind_of_failed (bind_of_failed failed), rfl⟩
  | moreArguments before =>
      obtain ⟨fault, rfl, failed⟩ := failed_of_leaving broken
      refine ⟨_, bind_of_failed ?_, rfl⟩
      rw [evalAll, bind_of_done before]
      exact bind_of_failed failed
  | value operand =>
      obtain ⟨fault, rfl, failed⟩ := failed_of_leaving broken
      obtain ⟨rest, factors⟩ := Stmt.exec_first operand
      refine ⟨_, ?_, rfl⟩
      rw [Point.flow, factors]
      exact bind_of_failed failed
  | initializer =>
      obtain ⟨fault, rfl, failed⟩ := failed_of_leaving broken
      exact ⟨_, bind_of_failed failed, rfl⟩
  | superclass before =>
      obtain ⟨fault, rfl, failed⟩ := failed_of_leaving broken
      refine ⟨_, bind_of_failed ?_, rfl⟩
      rw [Option.map, declareClass, bind_of_done before, bind_apply]
      exact bind_of_failed failed
  | branch operand before next =>
      refine ⟨_, ?_, rfl⟩
      rw [Point.flow, Stmt.exec_branch operand before next]
      exact broken
  | block entered =>
      cases entered
      exact ⟨{ m'' with scope := m.scope }, inScope_of_leaving broken, rfl⟩
  | loop => exact ⟨_, broken, rfl⟩
  | test =>
      obtain ⟨fault, rfl, failed⟩ := failed_of_leaving broken
      exact ⟨_, bind_of_failed failed, rfl⟩
  | round before holds =>
      refine ⟨_, ?_, rfl⟩
      rw [Point.flow, Action.loop, bind_of_done before, if_pos holds]
      exact bind_of_leaving (fun _ => rfl) broken
  | moreRounds before holds body =>
      refine ⟨_, ?_, rfl⟩
      rw [Point.flow, Action.loop, bind_of_done before, if_pos holds, bind_of_done body]
      exact broken
  | statement => exact ⟨_, bind_of_leaving (fun _ => rfl) broken, rfl⟩
  | moreStatements before =>
      refine ⟨_, ?_, rfl⟩
      rw [Point.flow, execAll, bind_of_done before]
      exact broken

theorem Visits.failed {fault : Located Fault} (h : Visits n p m n' p' m')
    (failed : p'.flow n' m' = .failed fault m'') : p.flow n m = .failed fault (m''.backTo m) := by
  induction h generalizing m'' with
  | start => rw [failed, ((p.restores_flow n m).failed failed).backTo]
  | @step _ _ _ _ m1 _ before leads ih =>
      have outer : _ = Outcome.failed fault (m''.backTo m1) :=
        leads.breaks (u := .raised fault) nofun failed
      have whole := ih outer
      exact whole

end Breaks

/-! ## Where a fault comes from -/

section Visits

variable {n n' n'' : Nat} {p p' p'' : Point} {m m' m'' : Machine}

theorem Visits.trans (h : Visits n p m n' p' m') (h' : Visits n' p' m' n'' p'' m'') :
    Visits n p m n'' p'' m'' := by
  induction h' with
  | start => exact h
  | step before leads ih => exact .step ih leads

/-- A visit starts with a step, if it is not over. -/
theorem Visits.head (h : Visits n p m n' p' m') :
    (⟨n, p, m⟩ : Moment) = ⟨n', p', m'⟩ ∨ ∃ a : Moment, (⟨n, p, m⟩ : Moment).Calls a ∧
      a.Reaches ⟨n', p', m'⟩ := by
  induction h with
  | start => exact .inl rfl
  | @step k k' q q' m m' before leads ih =>
      rcases ih with same | ⟨a, calls, reaches⟩
      · cases same
        exact .inr ⟨⟨k', q', m'⟩, leads, .start⟩
      · exact .inr ⟨a, calls, .step reaches leads⟩

/-- How many parts a point has of its own kind. -/
def Point.length : Point → Nat
  | .expr .. | .stmt _ => 0
  | .exprs _ es => es.length + 1
  | .stmts ss => ss.length + 1
  | .rounds left _ _ => left + 1

theorem Leads.decreases (h : Leads n p m n' p' m') :
    Prod.Lex (· < ·) (· < ·) (n', p'.length) (n, p.length) := by
  rw [Prod.lex_def]
  cases h <;> simp [Point.length]

end Visits

namespace Moment

variable {a b c : Moment}

theorem Reaches.trans (h : a.Reaches b) (h' : b.Reaches c) : a.Reaches c := Visits.trans h h'

theorem Calls.reaches (h : a.Calls b) : a.Reaches b := .step .start h

theorem Reaches.head (h : a.Reaches b) : a = b ∨ ∃ c, a.Calls c ∧ c.Reaches b := Visits.head h

theorem Reaches.failed {m : Machine} {fault : Located Fault} (h : a.Reaches b)
    (failed : b.outcome = .failed fault m) :
    a.outcome = .failed fault (m.backTo a.machine) := Visits.failed h failed

/-- The evaluation fails, and not because a part of it does. -/
def Raises (a : Moment) (fault : Located Fault) (m : Machine) : Prop :=
  a.outcome = .failed fault m ∧ ∀ b, a.Calls b → ∀ fault m, b.outcome ≠ .failed fault m

/-- A fault is raised somewhere, and since then nothing has changed but the scope and the running
calls. -/
theorem exists_raises (a : Moment) {fault : Located Fault} {m : Machine}
    (failed : a.outcome = .failed fault m) :
    ∃ b m', a.Reaches b ∧ b.Raises fault m' ∧ m = m'.backTo a.machine := by
  by_cases deeper : ∃ b fault' m', a.Calls b ∧ b.outcome = .failed fault' m'
  · obtain ⟨b, fault', m', calls, inner⟩ := deeper
    have outer : a.outcome = .failed fault' (m'.backTo a.machine) :=
      Leads.breaks (u := .raised fault') calls nofun inner
    cases failed.symm.trans outer
    obtain ⟨c, m'', reaches, raises, rfl⟩ := exists_raises b inner
    exact ⟨c, m'', (Calls.reaches calls).trans reaches, raises, rfl⟩
  · refine ⟨a, m, .start, ⟨failed, fun b calls fault' m' inner => ?_⟩, ?_⟩
    · exact deeper ⟨b, fault', m', calls, inner⟩
    · exact ((a.point.restores_flow a.fuel a.machine).failed failed).backTo.symm
termination_by (a.fuel, a.point.length)
decreasing_by exact calls.decreases

end Moment

end LoxLang
