import LoxLang.Proofs.Preservation

/-!
# The points that evaluation passes through

A property of every evaluation of a name, wherever in a run it happens, needs
a notion of the evaluations that happen. `Leads` is one step down the
recursion of `eval` and `exec`: the evaluation of one point calls for that of
another, in the machine that what came before has left. The points visited
from a start are those that a chain of such steps leads to. A run that fails,
or that runs out of fuel, has visited points like any other.
-/

namespace LoxLang

open LoxLang.Action MachineM

/-- Something to be evaluated. Of an expression it is kept in which variable's initializer it
stands, if in any. -/
inductive Point where
  | expr (own : Option String) (e : Expr)
  | exprs (own : Option String) (es : List Expr)
  | stmt (s : Stmt)
  | stmts (ss : List Stmt)
  | rounds (left : Nat) (test : Expr) (body : Stmt)

/-- The evaluation of a point, for its effect. -/
def Point.run (fuel : Nat) : Point → MachineM Unit
  | .expr _ e => do
    let _ ← eval fuel e
    pure ()
  | .exprs _ es => do
    let _ ← evalAll (eval fuel) es
    pure ()
  | .stmt s => do
    let _ ← exec fuel s
    pure ()
  | .stmts ss => do
    let _ ← execAll (exec fuel) ss
    pure ()
  | .rounds left test body => do
    let _ ← loop (eval fuel test) (exec fuel body) left
    pure ()

/-- The operand that is evaluated first. -/
def Expr.first? : Expr → Option Expr
  | .group e | .unary _ e | .binary e _ _ | .logical e _ _ | .assign _ _ e | .call e _ _
  | .get e _ | .set e _ _ => some e
  | .literal _ | .name .. | .this .. | .super .. => none

/-- The operand that is evaluated next, given the value of the first. -/
def Expr.second? (v : Value) : Expr → Option Expr
  | .binary _ _ right => some right
  | .logical _ operator right => if v.shortCircuits operator then none else some right
  | .set _ _ value =>
    match v with
    | .object .. => some value
    | _ => none
  | _ => none

/-- The expression that a statement starts with, the initializer of a variable apart. -/
def Stmt.first? : Stmt → Option Expr
  | .expr e | .print e | .ifThen e _ | .ifElse e _ _ | .returning _ (some e) => some e
  | _ => none

/-- The branch that is taken, given the value of the condition. -/
def Stmt.branch? (v : Value) : Stmt → Option Stmt
  | .ifThen _ consequent => if v.truthy then some consequent else none
  | .ifElse _ consequent alternative => some (if v.truthy then consequent else alternative)
  | _ => none

theorem Stmt.branch?_cases {v : Value} {s s' : Stmt} (h : s.branch? v = some s') :
    (∃ e, s = .ifThen e s' ∧ v.truthy = true) ∨
      ∃ e a b, s = .ifElse e a b ∧ s' = if v.truthy then a else b := by
  cases s
  case ifThen e consequent =>
    rw [Stmt.branch?] at h
    split at h <;> cases h
    exact .inl ⟨e, rfl, ‹_›⟩
  case ifElse e a b =>
    cases h
    exact .inr ⟨e, a, b, rfl, rfl⟩
  all_goals cases h

/-- The call of a function runs its body in a machine where the parameters are bound. -/
inductive Starts : Callable → List Value → Machine → List Stmt → Machine → Prop
  | closure {f : Closure} {vs : List Value} {m m' : Machine} {scope : Scope}
      (bound : entered f vs m = .done scope m') :
      Starts (.closure f) vs m f.declaration.body { m' with scope := scope }
  | construct {k : Class} {initializer f : Closure} {vs : List Value} {m m' m'' : Machine}
      {body : List Stmt} (found : k.initializer? = some initializer)
      (bound : (newObject k >>= bindMethod initializer) m = .done f m')
      (starts : Starts (.closure f) vs m' body m'') : Starts (.construct k) vs m body m''

/-- What a callable runs: a function itself, a class its initializer, bound to a new object. -/
inductive Runs : Callable → Machine → Closure → Machine → Prop
  | closure {f : Closure} {m : Machine} : Runs (.closure f) m f m
  | construct {k : Class} {initializer f : Closure} {m m' : Machine}
      (found : k.initializer? = some initializer)
      (bound : (newObject k >>= bindMethod initializer) m = .done f m') :
      Runs (.construct k) m f m'

theorem Starts.runs {callable : Callable} {vs : List Value} {m m' : Machine} {body : List Stmt}
    (h : Starts callable vs m body m') : ∃ f m1 scope m2, Runs callable m f m1 ∧
      entered f vs m1 = .done scope m2 ∧ body = f.declaration.body ∧
      m' = { m2 with scope := scope } := by
  cases h with
  | closure bound => exact ⟨_, _, _, _, .closure, bound, rfl, rfl⟩
  | construct found bound starts =>
      cases starts with
      | closure entered => exact ⟨_, _, _, _, .construct found bound, entered, rfl, rfl⟩

/-- With this much fuel and in this machine, evaluating the first point calls for evaluating the
second. -/
inductive Leads : Nat → Point → Machine → Nat → Point → Machine → Prop
  | first {n : Nat} {own : Option String} {e d : Expr} {m : Machine} (operand : e.first? = some d) :
      Leads (n + 1) (.expr own e) m n (.expr own d) m
  | second {n : Nat} {own : Option String} {e d d' : Expr} {m m' : Machine} {v : Value}
      (operand : e.first? = some d) (before : eval n d m = .done v m')
      (next : e.second? v = some d') : Leads (n + 1) (.expr own e) m n (.expr own d') m'
  | arguments {n : Nat} {own : Option String} {f : Expr} {paren : Token} {es : List Expr}
      {m m' : Machine} {v : Value} (before : eval n f m = .done v m') :
      Leads (n + 1) (.expr own (.call f paren es)) m n (.exprs own es) m'
  | call {n : Nat} {own : Option String} {f : Expr} {paren : Token} {es : List Expr}
      {m m' m'' m3 : Machine} {v : Value} {vs : List Value} {callable : Callable}
      {body : List Stmt} (callee : eval n f m = .done v m')
      (arguments : evalAll (eval n) es m' = .done vs m'') (accepts : v.callable? = some callable)
      (arity : vs.length = callable.arity) (room : m''.calls < maxCalls)
      (starts : Starts callable vs { m'' with calls := m''.calls + 1 } body m3) :
      Leads (n + 1) (.expr own (.call f paren es)) m n (.stmts body) m3
  | argument {n : Nat} {own : Option String} {e : Expr} {es : List Expr} {m : Machine} :
      Leads n (.exprs own (e :: es)) m n (.expr own e) m
  | moreArguments {n : Nat} {own : Option String} {e : Expr} {es : List Expr} {m m' : Machine}
      {v : Value} (before : eval n e m = .done v m') :
      Leads n (.exprs own (e :: es)) m n (.exprs own es) m'
  | value {n : Nat} {s : Stmt} {e : Expr} {m : Machine} (operand : s.first? = some e) :
      Leads (n + 1) (.stmt s) m n (.expr none e) m
  | initializer {n : Nat} {x : Token} {e : Expr} {m : Machine} :
      Leads (n + 1) (.stmt (.var x (some e))) m n (.expr (some x.lexeme) e) m
  | superclass {n : Nat} {x : Token} {e : Expr} {fs : List FunctionDecl} {m m' : Machine}
      (before : define x.lexeme .nil m = .done () m') :
      Leads (n + 1) (.stmt (.classDecl x (some e) fs)) m n (.expr none e) m'
  | branch {n : Nat} {s s' : Stmt} {e : Expr} {m m' : Machine} {v : Value}
      (operand : s.first? = some e) (before : eval n e m = .done v m')
      (next : s.branch? v = some s') : Leads (n + 1) (.stmt s) m n (.stmt s') m'
  | block {n : Nat} {ss : List Stmt} {m m' : Machine} {scope : Scope}
      (entered : openScope m.scope m = .done scope m') :
      Leads (n + 1) (.stmt (.block ss)) m n (.stmts ss) { m' with scope := scope }
  | loop {n : Nat} {e : Expr} {s : Stmt} {m : Machine} :
      Leads (n + 1) (.stmt (.whileDo e s)) m n (.rounds n e s) m
  | test {n left : Nat} {e : Expr} {s : Stmt} {m : Machine} :
      Leads n (.rounds (left + 1) e s) m n (.expr none e) m
  | round {n left : Nat} {e : Expr} {s : Stmt} {m m' : Machine} {v : Value}
      (before : eval n e m = .done v m') (holds : v.truthy = true) :
      Leads n (.rounds (left + 1) e s) m n (.stmt s) m'
  | moreRounds {n left : Nat} {e : Expr} {s : Stmt} {m m' m'' : Machine} {v : Value}
      (before : eval n e m = .done v m') (holds : v.truthy = true)
      (body : exec n s m' = .done .next m'') :
      Leads n (.rounds (left + 1) e s) m n (.rounds left e s) m''
  | statement {n : Nat} {s : Stmt} {ss : List Stmt} {m : Machine} :
      Leads n (.stmts (s :: ss)) m n (.stmt s) m
  | moreStatements {n : Nat} {s : Stmt} {ss : List Stmt} {m m' : Machine}
      (before : exec n s m = .done .next m') : Leads n (.stmts (s :: ss)) m n (.stmts ss) m'

/-- The second point is the first, or a chain of steps leads there. -/
inductive Visits (fuel : Nat) (start : Point) (m : Machine) : Nat → Point → Machine → Prop
  | start : Visits fuel start m fuel start m
  | step {n n' : Nat} {p p' : Point} {m' m'' : Machine} (before : Visits fuel start m n p m')
      (leads : Leads n p m' n' p' m'') : Visits fuel start m n' p' m''

/-! ## Pending names -/

namespace Context

/-- The pending names of the innermost scope are the one whose initializer this is, if it is
tracked. -/
def Pends (c : Context) (own : Option String) : Prop :=
  ∀ x, Sees c.scopes x 0 .pending ↔ own = some x ∧ c.scopes ≠ []

variable {c : Context} {x : String}

theorem pends_none : c.Pends none ↔ ∀ x, ¬ Sees c.scopes x 0 .pending := by
  constructor
  · intro h x hx
    cases ((h x).1 hx).1
  · intro h x
    refine ⟨fun hx => absurd hx (h x), ?_⟩
    rintro ⟨⟨⟩, -⟩

theorem Pends.global : Context.global.Pends none := pends_none.2 nofun

theorem Pends.enter (c : Context) : c.enter.Pends none := by
  refine pends_none.2 fun x h => ?_
  cases sees_zero.1 h

theorem Pends.introduce (h : c.Pends none) (x : String) : (c.introduce x).Pends none := by
  refine pends_none.2 fun y hy => ?_
  by_cases hne : y = x
  · subst hne
    cases hc : c.scopes with
    | nil =>
        rw [introduce_of_nil hc] at hy
        exact pends_none.1 h _ hy
    | cons =>
        have ready := sees_introduce_self (x := y) (c := c) (by rw [hc]; nofun)
        cases (hy.unique ready).2
  · exact pends_none.1 h y ((sees_introduce_of_ne hne).1 hy)

theorem Pends.inFunction (c : Context) (kind : Body) (ps : List Token) :
    (c.inFunction kind ps).Pends none := by
  have introduced : ∀ {c : Context}, c.Pends none →
      (ps.foldl (fun c p => c.introduce p.lexeme) c).Pends none := by
    induction ps with
    | nil => exact id
    | cons p ps ih => exact fun h => ih (h.introduce p.lexeme)
  exact introduced (Pends.enter c)

theorem Pends.declare (h : c.Pends none) (fresh : c.declaresHere x = false) :
    (c.declare x).Pends (some x) := by
  intro y
  by_cases hne : y = x
  · subst hne
    cases hc : c.scopes with
    | nil =>
        have same : c.declare y = c := by simp [Context.declare, hc]
        rw [same, hc]
        exact ⟨nofun, fun h => absurd rfl h.2⟩
    | cons scope outer =>
        have fresh : declares scope y = false := by
          simpa [Context.declaresHere, hc] using fresh
        have grown : (c.declare y).scopes = ((y, .pending) :: scope) :: outer := by
          simp [Context.declare, hc, fresh]
        rw [grown]
        exact ⟨fun _ => ⟨rfl, nofun⟩, fun _ => .here List.lookup_cons_self⟩
  · rw [sees_declare_of_ne hne]
    refine ⟨fun hy => absurd hy (pends_none.1 h y), ?_⟩
    rintro ⟨⟨⟩, -⟩
    exact absurd rfl hne

end Context

/-! ## What holds at every point -/

/-- The point is a resolved tree, and the machine stands where its context says. -/
def Point.Sound (m : Machine) : Point → Prop
  | .expr own e => ∃ c d, Expr.Resolved false c d e ∧ c.Pends own ∧ Stands m.store c.scopes m.scope
  | .exprs own es =>
    ∃ c ds, Expr.ResolvedAll false c ds es ∧ c.Pends own ∧ Stands m.store c.scopes m.scope
  | .stmt s =>
    ∃ c d c', Stmt.Resolved false c d s c' ∧ c.Pends none ∧ Stands m.store c.scopes m.scope
  | .stmts ss =>
    ∃ c ds c', Stmt.ResolvedAll false c ds ss c' ∧ c.Pends none ∧ Stands m.store c.scopes m.scope
  | .rounds _ e s =>
    ∃ c d t, Expr.Resolved false c d e ∧ Stmt.Resolved false c t s c ∧ c.Pends none ∧
      Stands m.store c.scopes m.scope

section Resolved

variable {strict : Bool} {c c' : Context}

theorem Expr.Resolved.first {d e a : Expr} (h : Expr.Resolved strict c d e)
    (ha : e.first? = some a) : ∃ b, Expr.Resolved strict c b a := by
  cases h <;> cases ha <;> exact ⟨_, ‹_›⟩

theorem Expr.Resolved.second {d e a : Expr} {v : Value} (h : Expr.Resolved strict c d e)
    (ha : e.second? v = some a) : ∃ b, Expr.Resolved strict c b a := by
  cases h with
  | binary _ right =>
      cases ha
      exact ⟨_, right⟩
  | logical _ right =>
      rw [Expr.second?] at ha
      split at ha <;> cases ha
      exact ⟨_, right⟩
  | set _ value =>
      cases v <;> cases ha
      exact ⟨_, value⟩
  | _ => cases ha

theorem Stmt.Resolved.first {d s : Stmt} {a : Expr} (h : Stmt.Resolved strict c d s c')
    (ha : s.first? = some a) : ∃ b, Expr.Resolved strict c b a := by
  cases h <;> cases ha <;> exact ⟨_, ‹_›⟩

theorem Stmt.Resolved.branch {d s t : Stmt} {v : Value} (h : Stmt.Resolved strict c d s c')
    (ht : s.branch? v = some t) : ∃ b, Stmt.Resolved strict c b t c := by
  rcases Stmt.branch?_cases ht with ⟨e, rfl, -⟩ | ⟨e, a, b, rfl, rfl⟩
  · cases h with
    | ifThen _ consequent => exact ⟨_, consequent⟩
  · cases h with
    | ifElse _ consequent alternative =>
        split
        · exact ⟨_, consequent⟩
        · exact ⟨_, alternative⟩

/-- Behind a statement no name is pending. -/
theorem Stmt.Resolved.pends {d s : Stmt} (h : Stmt.Resolved strict c d s c')
    (hc : c.Pends none) : c'.Pends none := by
  cases h <;> first | exact hc | exact hc.introduce _

end Resolved

/-- A sound callable runs a sound function, with as many parameters as it takes arguments. -/
theorem Runs.sound {callee : Value} {callable : Callable} {m m' : Machine} {f : Closure}
    (h : Runs callable m f m') (hm : m.Sound) (hc : callee.Sound m.store)
    (accepts : callee.callable? = some callable) :
    m.Evolves none m' ∧ m'.Sound ∧ f.Sound m'.store ∧
      callable.arity = f.declaration.parameters.length := by
  cases callee with
  | nil | bool | number | string | object => cases accepts
  | clock =>
      cases accepts
      cases h
  | function id f =>
      cases accepts
      cases h
      exact ⟨.refl m, hm, hc, rfl⟩
  | ofClass k =>
      cases accepts
      cases h with
      | construct found bound =>
          obtain ⟨he, hm', hf, same⟩ := (Keeps.construct hm hc found).done bound
          refine ⟨he, hm', hf, ?_⟩
          rw [Callable.arity, found, same]

/-- The body of a function that is called is a sound point. -/
theorem Starts.sound {callable : Callable} {vs : List Value} {m m' : Machine} {body : List Stmt}
    (h : Starts callable vs m body m') (hm : m.Sound) (hv : ∀ v ∈ vs, v.Sound m.store)
    (arity : vs.length = callable.arity) {callee : Value} (hc : callee.Sound m.store)
    (accepts : callee.callable? = some callable) : (Point.stmts body).Sound m' ∧ m'.Sound := by
  obtain ⟨f, m1, scope, m2, runs, bound, rfl, rfl⟩ := h.runs
  obtain ⟨he, hm1, hf, same⟩ := runs.sound hm hc accepts
  obtain ⟨hm2, kind, c, c', ss, body, stands⟩ :=
    (Keeps.entered hm1 hf (fun v h => (hv v h).mono he.store) (arity.trans same)).done bound
  exact ⟨⟨_, ss, c', body, .inFunction c kind _, stands⟩, hm2⟩

/-- What a call is made of is sound by the time when it is made. -/
theorem Point.Sound.call {n : Nat} {own : Option String} {f : Expr} {paren : Token}
    {es : List Expr} {m m' m'' : Machine} {v : Value} {vs : List Value}
    (h : (Point.expr own (.call f paren es)).Sound m) (hm : m.Sound)
    (callee : eval n f m = .done v m') (arguments : evalAll (eval n) es m' = .done vs m'') :
    v.Sound m''.store ∧ (∀ w ∈ vs, w.Sound m''.store) ∧ m''.Sound := by
  obtain ⟨c, _, resolved, -, stands⟩ := h
  cases resolved with
  | call hf hes =>
      obtain ⟨he, hm', hv⟩ := ((keeps n).1 _ _ _ _ hf stands.placed hm).done callee
      have placed := (Evolves.stands he stands).placed
      obtain ⟨he', hm'', hvs⟩ := ((keeps n).1.evalAll hes placed hm').done arguments
      exact ⟨hv.mono he'.store, hvs, hm''⟩

/-- One step keeps the points sound. -/
theorem Leads.sound {n n' : Nat} {p p' : Point} {m m' : Machine} (h : Leads n p m n' p' m')
    (hp : p.Sound m) (hm : m.Sound) : p'.Sound m' ∧ m'.Sound := by
  have before : ∀ {n c d e m v m'}, eval n e m = .done v m' → Expr.Resolved false c d e →
      Stands m.store c.scopes m.scope → m.Sound →
      m.Evolves none m' ∧ m'.Sound ∧ v.Sound m'.store ∧ Stands m'.store c.scopes m'.scope := by
    intro n c d e m v m' hv resolved stands hm
    obtain ⟨he, hm', hv'⟩ := ((keeps n).1 c d e m resolved stands.placed hm).done hv
    exact ⟨he, hm', hv', Evolves.stands he stands⟩
  cases h with
  | first operand =>
      obtain ⟨c, d, resolved, pends, stands⟩ := hp
      obtain ⟨b, resolved⟩ := resolved.first operand
      exact ⟨⟨c, b, resolved, pends, stands⟩, hm⟩
  | second operand hv next =>
      obtain ⟨c, d, resolved, pends, stands⟩ := hp
      obtain ⟨_, first⟩ := resolved.first operand
      obtain ⟨b, second⟩ := resolved.second next
      obtain ⟨-, hm', -, stands⟩ := before hv first stands hm
      exact ⟨⟨c, b, second, pends, stands⟩, hm'⟩
  | arguments hv =>
      obtain ⟨c, _, resolved, pends, stands⟩ := hp
      cases resolved with
      | call callee arguments =>
          obtain ⟨-, hm', -, stands⟩ := before hv callee stands hm
          exact ⟨⟨c, _, arguments, pends, stands⟩, hm'⟩
  | call callee arguments accepts arity room starts =>
      obtain ⟨hv, hvs, hm''⟩ := hp.call hm callee arguments
      exact starts.sound hm'' hvs arity hv accepts
  | argument =>
      obtain ⟨c, _, resolved, pends, stands⟩ := hp
      cases resolved with
      | cons head tail => exact ⟨⟨c, _, head, pends, stands⟩, hm⟩
  | moreArguments hv =>
      obtain ⟨c, _, resolved, pends, stands⟩ := hp
      cases resolved with
      | cons head tail =>
          obtain ⟨-, hm', -, stands⟩ := before hv head stands hm
          exact ⟨⟨c, _, tail, pends, stands⟩, hm'⟩
  | value operand =>
      obtain ⟨c, d, c', resolved, pends, stands⟩ := hp
      obtain ⟨b, resolved⟩ := resolved.first operand
      exact ⟨⟨c, b, resolved, pends, stands⟩, hm⟩
  | initializer =>
      obtain ⟨c, _, _, resolved, pends, stands⟩ := hp
      cases resolved with
      | var isName fresh initial =>
          exact ⟨⟨_, _, initial, pends.declare fresh, stands.declare fresh⟩, hm⟩
  | superclass hd =>
      obtain ⟨c, _, _, resolved, pends, stands⟩ := hp
      cases hd
      cases resolved with
      | subclass isName fresh superclass =>
          refine ⟨⟨_, _, superclass, pends.introduce _, stands.introduce .nil⟩, ?_⟩
          have defined := Keeps.define (v := .nil) hm trivial (Value.fits_of_isName isName .nil)
          exact (defined.done rfl).2.1
  | branch operand hv next =>
      obtain ⟨c, d, c', resolved, pends, stands⟩ := hp
      obtain ⟨_, first⟩ := resolved.first operand
      obtain ⟨b, taken⟩ := resolved.branch next
      obtain ⟨-, hm', -, stands⟩ := before hv first stands hm
      exact ⟨⟨c, b, c, taken, pends, stands⟩, hm'⟩
  | block entered =>
      obtain ⟨c, _, _, resolved, pends, stands⟩ := hp
      cases entered
      cases resolved with
      | block body =>
          exact ⟨⟨_, _, _, body, .enter c, .enter stands.placed (Store.binds_size _)⟩,
            HeapSound.enter hm m.scope⟩
  | loop =>
      obtain ⟨c, _, _, resolved, pends, stands⟩ := hp
      cases resolved with
      | whileDo test body => exact ⟨⟨c, _, _, test, body, pends, stands⟩, hm⟩
  | test =>
      obtain ⟨c, d, t, test, body, pends, stands⟩ := hp
      exact ⟨⟨c, d, test, pends, stands⟩, hm⟩
  | round hv holds =>
      obtain ⟨c, d, t, test, body, pends, stands⟩ := hp
      obtain ⟨-, hm', -, stands⟩ := before hv test stands hm
      exact ⟨⟨c, t, c, body, pends, stands⟩, hm'⟩
  | moreRounds hv holds hs =>
      obtain ⟨c, d, t, test, body, pends, stands⟩ := hp
      obtain ⟨-, hm', -, stands⟩ := before hv test stands hm
      obtain ⟨-, hm'', -, stands⟩ := ((keeps _).2 c t _ c _ body stands hm').done hs
      exact ⟨⟨c, d, t, test, body, pends, stands rfl⟩, hm''⟩
  | statement =>
      obtain ⟨c, _, c', resolved, pends, stands⟩ := hp
      cases resolved with
      | cons head tail => exact ⟨⟨c, _, _, head, pends, stands⟩, hm⟩
  | moreStatements hs =>
      obtain ⟨c, _, c', resolved, pends, stands⟩ := hp
      cases resolved with
      | cons head tail =>
          obtain ⟨-, hm', -, stands⟩ := ((keeps _).2 _ _ _ _ _ head stands hm).done hs
          exact ⟨⟨_, _, c', tail, head.pends pends, stands rfl⟩, hm'⟩

/-- So does evaluating one. -/
theorem Point.Sound.run {p : Point} {m : Machine} (h : p.Sound m) (hm : m.Sound) (fuel : Nat) :
    Keeps m.scope.head? (p.run fuel) m fun _ _ => True := by
  cases p with
  | expr own e =>
      obtain ⟨c, d, resolved, -, stands⟩ := h
      exact ((keeps fuel).1 c d e m resolved stands.placed hm).loosen.bind fun _ _ _ hm' _ =>
        .pure hm' trivial
  | exprs own es =>
      obtain ⟨c, ds, resolved, -, stands⟩ := h
      exact ((keeps fuel).1.evalAll resolved stands.placed hm).loosen.bind fun _ _ _ hm' _ =>
        .pure hm' trivial
  | stmt s =>
      obtain ⟨c, d, c', resolved, -, stands⟩ := h
      exact ((keeps fuel).2 c d s c' m resolved stands hm).bind fun _ _ _ hm' _ =>
        .pure hm' trivial
  | stmts ss =>
      obtain ⟨c, ds, c', resolved, -, stands⟩ := h
      exact ((keeps fuel).2.execAll resolved stands hm).bind fun _ _ _ hm' _ => .pure hm' trivial
  | rounds left test body =>
      obtain ⟨c, d, t, test, body, -, stands⟩ := h
      exact ((keeps fuel).2.loop (fun m placed hm => (keeps fuel).1 c d _ m test placed hm) body
        left stands hm).bind fun _ _ _ hm' _ => .pure hm' trivial

theorem Visits.sound {fuel n : Nat} {start p : Point} {m m' : Machine}
    (h : Visits fuel start m n p m') (hp : start.Sound m) (hm : m.Sound) :
    p.Sound m' ∧ m'.Sound := by
  induction h with
  | start => exact ⟨hp, hm⟩
  | step _ leads ih => exact leads.sound ih.1 ih.2

end LoxLang
