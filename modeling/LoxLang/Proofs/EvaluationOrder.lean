import LoxLang.Proofs.Unwinding

/-!
# The order of evaluation

The evaluation of one point calls for that of others one after another. Of two
points that a run visits one is part of the other, or they belong to different
parts of a third, and then one of them comes earlier. So it can be said what is
evaluated behind a fault: nothing at all.
-/

namespace LoxLang

open LoxLang.Action MachineM

/-- The evaluation of the first calls for that of the other two, and for that of the third when the
second is done. -/
inductive After : Moment → Moment → Moment → Prop
  | second {n : Nat} {own : Option String} {e d d' : Expr} {m m' : Machine} {v : Value}
      (operand : e.first? = some d) (before : eval n d m = .done v m')
      (next : e.second? v = some d') :
      After ⟨n + 1, .expr own e, m⟩ ⟨n, .expr own d, m⟩ ⟨n, .expr own d', m'⟩
  | arguments {n : Nat} {own : Option String} {f : Expr} {paren : Token} {es : List Expr}
      {m m' : Machine} {v : Value} (before : eval n f m = .done v m') :
      After ⟨n + 1, .expr own (.call f paren es), m⟩ ⟨n, .expr own f, m⟩ ⟨n, .exprs own es, m'⟩
  | call {n : Nat} {own : Option String} {f : Expr} {paren : Token} {es : List Expr}
      {m m' m'' m3 : Machine} {v : Value} {vs : List Value} {callable : Callable}
      {body : List Stmt} (callee : eval n f m = .done v m')
      (arguments : evalAll (eval n) es m' = .done vs m'') (accepts : v.callable? = some callable)
      (arity : vs.length = callable.arity) (room : m''.calls < maxCalls)
      (starts : Starts callable vs { m'' with calls := m''.calls + 1 } body m3) :
      After ⟨n + 1, .expr own (.call f paren es), m⟩ ⟨n, .exprs own es, m'⟩ ⟨n, .stmts body, m3⟩
  | moreArguments {n : Nat} {own : Option String} {e : Expr} {es : List Expr} {m m' : Machine}
      {v : Value} (before : eval n e m = .done v m') :
      After ⟨n, .exprs own (e :: es), m⟩ ⟨n, .expr own e, m⟩ ⟨n, .exprs own es, m'⟩
  | branch {n : Nat} {s s' : Stmt} {e : Expr} {m m' : Machine} {v : Value}
      (operand : s.first? = some e) (before : eval n e m = .done v m')
      (next : s.branch? v = some s') :
      After ⟨n + 1, .stmt s, m⟩ ⟨n, .expr none e, m⟩ ⟨n, .stmt s', m'⟩
  | round {n left : Nat} {e : Expr} {s : Stmt} {m m' : Machine} {v : Value}
      (before : eval n e m = .done v m') (holds : v.truthy = true) :
      After ⟨n, .rounds (left + 1) e s, m⟩ ⟨n, .expr none e, m⟩ ⟨n, .stmt s, m'⟩
  | moreRounds {n left : Nat} {e : Expr} {s : Stmt} {m m' m'' : Machine} {v : Value}
      (before : eval n e m = .done v m') (holds : v.truthy = true)
      (body : exec n s m' = .done .next m'') :
      After ⟨n, .rounds (left + 1) e s, m⟩ ⟨n, .stmt s, m'⟩ ⟨n, .rounds left e s, m''⟩
  | moreStatements {n : Nat} {s : Stmt} {ss : List Stmt} {m m' : Machine}
      (before : exec n s m = .done .next m') :
      After ⟨n, .stmts (s :: ss), m⟩ ⟨n, .stmt s, m⟩ ⟨n, .stmts ss, m'⟩
  | trans {a b c d : Moment} (first : After a b c) (second : After a c d) : After a b d

namespace After

variable {a b c : Moment}

theorem calls (h : After a b c) : a.Calls b ∧ a.Calls c := by
  induction h with
  | second operand before next => exact ⟨.first operand, .second operand before next⟩
  | arguments before => exact ⟨.first rfl, .arguments before⟩
  | call callee arguments accepts arity room starts =>
      exact ⟨.arguments callee, .call callee arguments accepts arity room starts⟩
  | moreArguments before => exact ⟨.argument, .moreArguments before⟩
  | branch operand before next => exact ⟨.value operand, .branch operand before next⟩
  | round before holds => exact ⟨.test, .round before holds⟩
  | moreRounds before holds body => exact ⟨.round before holds, .moreRounds before holds body⟩
  | moreStatements before => exact ⟨.statement, .moreStatements before⟩
  | trans _ _ first second => exact ⟨first.1, second.2⟩

/-- What something comes after has ended, and has neither failed nor returned. -/
theorem done (h : After a b c) : ∃ m, b.outcome = .done .next m := by
  induction h with
  | second operand before next => exact ⟨_, bind_of_done before⟩
  | arguments before => exact ⟨_, bind_of_done before⟩
  | call callee arguments => exact ⟨_, bind_of_done arguments⟩
  | moreArguments before => exact ⟨_, bind_of_done before⟩
  | branch operand before next => exact ⟨_, bind_of_done before⟩
  | round before holds => exact ⟨_, bind_of_done before⟩
  | moreRounds before holds body => exact ⟨_, body⟩
  | moreStatements before => exact ⟨_, before⟩
  | trans _ _ first _ => exact first

end After

theorem Starts.unique {callable : Callable} {vs : List Value} {m m' m'' : Machine}
    {body body' : List Stmt} (h : Starts callable vs m body m')
    (h' : Starts callable vs m body' m'') : body = body' ∧ m' = m'' := by
  induction h generalizing body' m'' with
  | closure bound =>
      cases h' with
      | closure bound' =>
          cases bound.symm.trans bound'
          exact ⟨rfl, rfl⟩
  | construct found bound starts ih =>
      cases h' with
      | construct found' bound' starts' =>
          cases found.symm.trans found'
          cases bound.symm.trans bound'
          exact ih starts'

/-- The two evaluations are the same, or one comes after the other. -/
def Ordered (a b c : Moment) : Prop := b = c ∨ After a b c ∨ After a c b

section Order

variable {n n' n'' : Nat} {p p' p'' : Point} {m m' m'' : Machine}

theorem Ordered.of_after {a b c : Moment} (h : After a b c) : Ordered a b c := .inr (.inl h)

theorem Ordered.symm {a b c : Moment} (h : Ordered a b c) : Ordered a c b := by
  rcases h with same | before | behind
  · exact .inl same.symm
  · exact .inr (.inr before)
  · exact .inr (.inl behind)

/-- The first operand is evaluated first. -/
theorem Leads.ordered_first {own : Option String} {e d : Expr} (operand : e.first? = some d)
    (h : Leads (n + 1) (.expr own e) m n' p' m') :
    Ordered ⟨n + 1, .expr own e, m⟩ ⟨n, .expr own d, m⟩ ⟨n', p', m'⟩ := by
  cases h with
  | first operand' =>
      cases operand.symm.trans operand'
      exact .inl rfl
  | second operand' before next =>
      cases operand.symm.trans operand'
      exact .of_after (.second operand before next)
  | arguments before =>
      cases operand
      exact .of_after (.arguments before)
  | call callee arguments accepts arity room starts =>
      cases operand
      exact .of_after
        (.trans (.arguments callee) (.call callee arguments accepts arity room starts))

theorem Leads.ordered_expr {own : Option String} {e : Expr}
    (h : Leads n (.expr own e) m n' p' m') (h' : Leads n (.expr own e) m n'' p'' m'') :
    Ordered ⟨n, .expr own e, m⟩ ⟨n', p', m'⟩ ⟨n'', p'', m''⟩ := by
  cases h with
  | first operand => exact h'.ordered_first operand
  | second operand before next =>
      cases h' with
      | first operand' => exact (ordered_first operand' (.second operand before next)).symm
      | second operand' before' next' =>
          cases operand.symm.trans operand'
          cases before.symm.trans before'
          cases next.symm.trans next'
          exact .inl rfl
      | arguments | call => cases next
  | arguments before =>
      cases h' with
      | first operand => exact (ordered_first operand (.arguments before)).symm
      | second _ _ next => cases next
      | arguments before' =>
          cases before.symm.trans before'
          exact .inl rfl
      | call callee arguments accepts arity room starts =>
          cases before.symm.trans callee
          exact .of_after (.call callee arguments accepts arity room starts)
  | call callee arguments accepts arity room starts =>
      cases h' with
      | first operand =>
          exact (ordered_first operand (.call callee arguments accepts arity room starts)).symm
      | second _ _ next => cases next
      | arguments before =>
          cases before.symm.trans callee
          exact (Ordered.of_after (.call callee arguments accepts arity room starts)).symm
      | call callee' arguments' accepts' arity' room' starts' =>
          cases callee.symm.trans callee'
          cases arguments.symm.trans arguments'
          cases accepts.symm.trans accepts'
          obtain ⟨rfl, rfl⟩ := starts.unique starts'
          exact .inl rfl

theorem Leads.ordered_stmt {s : Stmt} (h : Leads n (.stmt s) m n' p' m')
    (h' : Leads n (.stmt s) m n'' p'' m'') :
    Ordered ⟨n, .stmt s, m⟩ ⟨n', p', m'⟩ ⟨n'', p'', m''⟩ := by
  cases h with
  | value operand =>
      cases h' with
      | value operand' =>
          cases operand.symm.trans operand'
          exact .inl rfl
      | branch operand' before next =>
          cases operand.symm.trans operand'
          exact .of_after (.branch operand before next)
      | _ => cases operand
  | branch operand before next =>
      cases h' with
      | value operand' =>
          cases operand.symm.trans operand'
          exact (Ordered.of_after (.branch operand before next)).symm
      | branch operand' before' next' =>
          cases operand.symm.trans operand'
          cases before.symm.trans before'
          cases next.symm.trans next'
          exact .inl rfl
      | _ => cases operand
  | initializer =>
      cases h' with
      | initializer => exact .inl rfl
      | value operand | branch operand => cases operand
  | loop =>
      cases h' with
      | loop => exact .inl rfl
      | value operand | branch operand => cases operand
  | superclass before =>
      cases h' with
      | superclass before' =>
          cases before.symm.trans before'
          exact .inl rfl
      | value operand | branch operand => cases operand
  | block entered =>
      cases h' with
      | block entered' =>
          cases entered.symm.trans entered'
          exact .inl rfl
      | value operand | branch operand => cases operand

theorem Leads.ordered_rounds {left : Nat} {e : Expr} {s : Stmt}
    (h : Leads n (.rounds left e s) m n' p' m') (h' : Leads n (.rounds left e s) m n'' p'' m'') :
    Ordered ⟨n, .rounds left e s, m⟩ ⟨n', p', m'⟩ ⟨n'', p'', m''⟩ := by
  cases h with
  | test =>
      cases h' with
      | test => exact .inl rfl
      | round before holds => exact .of_after (.round before holds)
      | moreRounds before holds body =>
          exact .of_after (.trans (.round before holds) (.moreRounds before holds body))
  | round before holds =>
      cases h' with
      | test => exact (Ordered.of_after (.round before holds)).symm
      | round before' _ =>
          cases before.symm.trans before'
          exact .inl rfl
      | moreRounds before' _ body =>
          cases before.symm.trans before'
          exact .of_after (.moreRounds before holds body)
  | moreRounds before holds body =>
      cases h' with
      | test =>
          exact (Ordered.of_after
            (.trans (.round before holds) (.moreRounds before holds body))).symm
      | round before' _ =>
          cases before.symm.trans before'
          exact (Ordered.of_after (.moreRounds before holds body)).symm
      | moreRounds before' _ body' =>
          cases before.symm.trans before'
          cases body.symm.trans body'
          exact .inl rfl

/-- What one evaluation calls for is evaluated in order. -/
theorem Leads.ordered (h : Leads n p m n' p' m') (h' : Leads n p m n'' p'' m'') :
    Ordered ⟨n, p, m⟩ ⟨n', p', m'⟩ ⟨n'', p'', m''⟩ := by
  cases p with
  | expr own e => exact h.ordered_expr h'
  | stmt s => exact h.ordered_stmt h'
  | rounds left e s => exact h.ordered_rounds h'
  | exprs own es =>
      cases h with
      | argument =>
          cases h' with
          | argument => exact .inl rfl
          | moreArguments before => exact .of_after (.moreArguments before)
      | moreArguments before =>
          cases h' with
          | argument => exact (Ordered.of_after (.moreArguments before)).symm
          | moreArguments before' =>
              cases before.symm.trans before'
              exact .inl rfl
  | stmts ss =>
      cases h with
      | statement =>
          cases h' with
          | statement => exact .inl rfl
          | moreStatements before => exact .of_after (.moreStatements before)
      | moreStatements before =>
          cases h' with
          | statement => exact (Ordered.of_after (.moreStatements before)).symm
          | moreStatements before' =>
              cases before.symm.trans before'
              exact .inl rfl

end Order

namespace Moment

variable {start a b c : Moment}

/-- In the evaluation of `start`, the first of the others belongs to an earlier part than the
second. -/
def Earlier (start a b : Moment) : Prop :=
  ∃ whole part later, start.Reaches whole ∧ After whole part later ∧ part.Reaches a ∧
    later.Reaches b

theorem Earlier.of_calls (h : start.Calls a) (h' : a.Earlier b c) : start.Earlier b c := by
  obtain ⟨whole, part, later, reaches, others⟩ := h'
  exact ⟨whole, part, later, h.reaches.trans reaches, others⟩

/-- Of two evaluations one is part of the other, or one comes earlier. -/
theorem Reaches.ordered {start a b : Moment} (h : start.Reaches a) (h' : start.Reaches b) :
    a.Reaches b ∨ b.Reaches a ∨ start.Earlier a b ∨ start.Earlier b a := by
  rcases h.head with rfl | ⟨c, calls, reaches⟩
  · exact .inl h'
  rcases h'.head with rfl | ⟨d, calls', reaches'⟩
  · exact .inr (.inl h)
  have order : Ordered start c d := Leads.ordered calls calls'
  rcases order with rfl | before | behind
  · rcases reaches.ordered reaches' with part | whole | earlier | later
    · exact .inl part
    · exact .inr (.inl whole)
    · exact .inr (.inr (.inl (earlier.of_calls calls)))
    · exact .inr (.inr (.inr (later.of_calls calls)))
  · exact .inr (.inr (.inl ⟨_, _, _, .start, before, reaches, reaches'⟩))
  · exact .inr (.inr (.inr ⟨_, _, _, .start, behind, reaches', reaches⟩))
termination_by (start.fuel, start.point.length)
decreasing_by exact calls.decreases

/-- Nothing is evaluated behind the second evaluation: what else the first one consists of is a part
of it, has it for a part, or came earlier. -/
structure Last (start a : Moment) : Prop where
  reached : start.Reaches a
  nothing_later : ∀ b, ¬ start.Earlier a b
  others : ∀ b, start.Reaches b → b.Reaches a ∨ a.Reaches b ∨ start.Earlier b a

theorem Last.of_not_earlier (h : start.Reaches a) (later : ∀ b, ¬ start.Earlier a b) :
    start.Last a where
  reached := h
  nothing_later := later
  others b reaches := by
    rcases h.ordered reaches with part | whole | behind | before
    · exact .inr (.inl part)
    · exact .inl whole
    · exact absurd behind (later b)
    · exact .inr (.inr before)

theorem Reaches.last_of_failed {fault : Located Fault} {m : Machine} (h : start.Reaches a)
    (failed : a.outcome = .failed fault m) : start.Last a := by
  refine .of_not_earlier h fun b => ?_
  rintro ⟨whole, part, later, -, after, inside, -⟩
  obtain ⟨m', done⟩ := after.done
  cases done.symm.trans (inside.failed failed)

/-- A fault that the second evaluation raises breaks off the first. Nothing is evaluated behind it,
and the machine is left as it was then, but for the scope and the running calls. -/
structure BrokenBy (start a : Moment) (fault : Located Fault) (m : Machine) : Prop where
  last : start.Last a
  raises : a.Raises fault m
  outcome : start.outcome = .failed fault (m.backTo start.machine)

theorem exists_brokenBy {fault : Located Fault} {m : Machine}
    (failed : start.outcome = .failed fault m) :
    ∃ a m', start.BrokenBy a fault m' ∧ m = m'.backTo start.machine := by
  obtain ⟨a, m', reaches, raises, rfl⟩ := exists_raises start failed
  exact ⟨a, m', ⟨reaches.last_of_failed raises.1, raises, failed⟩, rfl⟩

end Moment

end LoxLang
