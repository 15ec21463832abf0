import LoxLang.Proofs.OwnCode

/-!
# Where `super` starts

A class declaration with a superclass evaluates the superclass once, and what it
finds there is put into a frame around the methods. It is this class that
`super` means in all of their code: not the superclass of the receiver's class,
and not what the name of the superclass is bound to later.
-/

namespace LoxLang

open LoxLang.Action MachineM

/-! ## Declarations that have been executed -/

theorem Stmt.Resolved.className {strict : Bool} {c c' : Context} {d : Stmt} {x : Token}
    {superclass : Option Expr} {methods : List FunctionDecl}
    (h : Stmt.Resolved strict c d (.classDecl x superclass methods) c') : x.IsName := by
  cases h with
  | rootClass isName | subclass isName => exact isName

namespace MachineM

variable {m : Machine} {name : Token}

/-- A class that is assigned to a name of the innermost frame is found under this name. -/
theorem assignClass_done (bound : BindsHere m name.lexeme) (k : Class) :
    ∃ s, assignClass name k m = .done () { m with store := s } ∧
      s.getAt? m.scope 0 name.lexeme = some (.ofClass k) := by
  obtain ⟨frame, first, binds⟩ := bound
  obtain ⟨outer, scope⟩ := List.head?_eq_some_iff.1 first
  refine ⟨m.store.write frame name.lexeme (.ofClass k), ?_, ?_⟩
  · unfold assignClass
    rw [Store.frame?_of_head first binds]
  · rw [scope, Store.getAt?_zero, Store.read?_write, if_pos ⟨rfl, rfl, Store.lt_of_binds binds⟩]

/-- With the superclass evaluated there is a new frame, a new class, and an assignment. -/
theorem declareUnder_done (bound : BindsHere m name.lexeme) (isName : name.IsName) (outer : Scope)
    (methods : List FunctionDecl) (token : Token) (parent : Class) : ∃ id scope m',
    declareUnder name outer methods token (.ofClass parent) m = .done () m' ∧
      m'.store.getAt? m'.scope 0 name.lexeme =
        some (.ofClass ⟨⟨id, name.lexeme, methodTable scope methods⟩, parent.layers⟩) ∧
      m'.store.getAt? scope 0 "super" = some (.ofClass parent) := by
  let opened := m.store.enter outer
  let inner : Machine :=
    { m with
      store := opened.2.define opened.1 "super" (.ofClass parent), nextId := m.nextId + 1 }
  let k : Class := ⟨⟨m.nextId, name.lexeme, methodTable opened.1 methods⟩, parent.layers⟩
  have evolves : m.Evolves none inner := .of_store rfl rfl rfl (.define_enter ..)
  have above : inner.store.getAt? opened.1 0 "super" = some (.ofClass parent) := Store.getAt?_open
  obtain ⟨s, assigned, declared⟩ := assignClass_done (bound.mono evolves) k
  refine ⟨m.nextId, opened.1, { inner with store := s }, assigned, declared, ?_⟩
  exact ((Steadies.assignClass isName k).done assigned).getAt? (.inr rfl) above

end MachineM

/-- A declaration with a superclass that has been executed. -/
theorem exec_subclass_done {n : Nat} {x : Token} {e : Expr} {methods : List FunctionDecl}
    {m m' : Machine} {flow : Flow}
    (sound : Moment.Sound ⟨n + 1, .stmt (.classDecl x (some e) methods), m⟩)
    (ends : exec (n + 1) (.classDecl x (some e) methods) m = .done flow m') :
    ∃ parent m1 id scope, flow = .next ∧
      eval n e { m with store := m.store.define m.scope x.lexeme .nil } =
        .done (.ofClass parent) m1 ∧
      m'.store.getAt? m'.scope 0 x.lexeme =
        some (.ofClass ⟨⟨id, x.lexeme, methodTable scope methods⟩, parent.layers⟩) ∧
      m'.store.getAt? scope 0 "super" = some (.ofClass parent) := by
  obtain ⟨_, _, _, resolved, -, stands⟩ := sound.point
  have here := BindsHere.of_placed stands.placed sound.machine x.lexeme .nil
  rw [exec_subclass, bind_apply] at ends
  split at ends
  · next v m1 inherits =>
    have here : BindsHere m1 x.lexeme := here.mono (((evolving n).1 e _).done inherits)
    cases v with
    | ofClass parent =>
        obtain ⟨id, scope, m2, done, declared, above⟩ := declareUnder_done here
          resolved.className m.scope methods (superclassToken x e) parent
        rw [bind_of_done done] at ends
        cases ends
        exact ⟨parent, m1, id, scope, rfl, inherits, declared, above⟩
    | _ => cases ends
  · cases ends
  · cases ends

/-- The execution of the declaration of a class with a superclass: the evaluation of the superclass,
with its value, and the class that the name of the declaration is bound to in the end. -/
structure ClassExecution where
  fuel : Nat
  name : Token
  superclass : Expr
  methods : List FunctionDecl
  machine : Machine
  started : Machine
  evaluated : Machine
  finished : Machine
  parent : Class
  made : Class
  starts : Leads (fuel + 1) (.stmt (.classDecl name (some superclass) methods)) machine fuel
    (.expr none superclass) started
  inherits : eval fuel superclass started = .done (.ofClass parent) evaluated
  ends : exec (fuel + 1) (.classDecl name (some superclass) methods) machine = .done .next finished
  declares : finished.store.getAt? finished.scope 0 name.lexeme = some (.ofClass made)

namespace ClassExecution

variable (d : ClassExecution)

/-- The declaration as a whole. -/
def moment : Moment :=
  ⟨d.fuel + 1, .stmt (.classDecl d.name (some d.superclass) d.methods), d.machine⟩

/-- A declaration that ends has evaluated its superclass to a class and has made a class. -/
theorem exists_of_done {n : Nat} {x : Token} {e : Expr} {methods : List FunctionDecl}
    {m m' : Machine} {flow : Flow}
    (sound : Moment.Sound ⟨n + 1, .stmt (.classDecl x (some e) methods), m⟩)
    (ends : exec (n + 1) (.classDecl x (some e) methods) m = .done flow m') :
    ∃ d : ClassExecution, d.moment = ⟨n + 1, .stmt (.classDecl x (some e) methods), m⟩ ∧
      d.finished = m' := by
  obtain ⟨parent, m1, id, scope, rfl, inherits, declares, -⟩ := exec_subclass_done sound ends
  exact ⟨⟨n, x, e, methods, m, _, m1, m', parent, _, .superclass rfl, inherits, ends, declares⟩,
    rfl, rfl⟩

/-- The methods are closed over a frame that has the superclass. -/
theorem made_eq (sound : d.moment.Sound) : ∃ id scope,
    d.made = ⟨⟨id, d.name.lexeme, methodTable scope d.methods⟩, d.parent.layers⟩ ∧
      d.finished.store.getAt? scope 0 "super" = some (.ofClass d.parent) := by
  obtain ⟨n, x, e, methods, m, started, evaluated, finished, parent, made, starts, inherits, ends,
    declares⟩ := d
  obtain ⟨_, _, id, scope, -, inherits', declares', above⟩ :=
    @exec_subclass_done n x e methods m finished .next sound ends
  cases starts with
  | value operand => cases operand
  | superclass before =>
      cases before
      cases inherits.symm.trans inherits'
      cases declares.symm.trans declares'
      exact ⟨id, scope, rfl, above⟩

/-- The methods of the class. -/
theorem of_declared {x : String} {method : Closure} (sound : d.moment.Sound)
    (declared : (x, method) ∈ d.made.own.methods) : method.SoundMethod d.finished.store ∧
      d.finished.store.getAt? method.scope 0 "super" = some (.ofClass d.parent) := by
  have finished : d.finished.Sound := sound.leaves d.ends
  have made : d.made.Sound d.finished.store := (HeapSound.getAt? finished d.declares).1
  refine ⟨made d.made.own List.mem_cons_self _ declared, ?_⟩
  obtain ⟨id, scope, same, above⟩ := d.made_eq sound
  rw [same] at declared
  obtain ⟨f, -, entry⟩ := List.mem_map.1 declared
  cases entry
  exact above

end ClassExecution

/-! ## Evaluating `super` -/

/-- Let a class be declared with a superclass, and let one of its methods run, bound to whatever
object. Where code of the method evaluates `super`, the object that `this` is throughout the code is
`id`, and the lookup is one in the class that the superclass expression had for its value when the
declaration was executed: the nearest method of the chain is bound to the object, and the property
is undefined exactly if the chain has no such method. -/
theorem super_starts_at_superclass {clock : Nat → Float} {d : ClassExecution} {x : String}
    {method : Closure} (declared : (x, method) ∈ d.made.own.methods) {a : Activation}
    (binds : a.closure.Binds method) (later : d.moment.Later clock a.body) {n : Nat}
    {own : Option String} {keyword target : Token} {depth : Option Nat} {m : Machine}
    (owned : a.Owns clock ⟨n + 1, .expr own (.super keyword depth target), m⟩) :
    ∃ id k, a.closure.Bound method (.object id k) a.body.machine.store ∧
      (∀ n own keyword depth m, a.Owns clock ⟨n + 1, .expr own (.this keyword depth), m⟩ →
        eval (n + 1) (.this keyword depth) m = .done (.object id k) m) ∧
      (∀ found, d.parent.Provides target.lexeme found → ∃ number f m',
        eval (n + 1) (.super keyword depth target) m = .done (.function number f) m' ∧
          f.Bound found (.object id k) m'.store) ∧
      ((∃ m', eval (n + 1) (.super keyword depth target) m =
          .failed ⟨target, .undefinedProperty⟩ m') ↔ d.parent.Lacks target.lexeme) := by
  obtain ⟨sound, body⟩ := later.sound
  obtain ⟨resolved, above⟩ := d.of_declared sound declared
  have ended : d.finished ∈ d.moment.outcome.state? := by
    rw [show d.moment.outcome = .done .next d.finished from d.ends]
    rfl
  have above := (later.steady ended).getAt? (.inr rfl) above
  obtain ⟨id, k, this, value⟩ := owned.eval_super binds resolved body above
  refine ⟨id, k, ⟨binds, this⟩, fun _ _ _ _ _ owned => ?_, fun found provides => ?_, ?_⟩
  · exact owned.eval_this binds resolved body this
  · rw [value]
    exact boundMethod_of_provides provides _ m
  · rw [value]
    exact boundMethod_fails_iff _ m

namespace SuperCall

/-- `m() {}` -/
def inherited : FunctionDecl := ⟨⟨.identifier, "m", 1⟩, [], []⟩

/-- `super.m` -/
def lookup (depth : Option Nat) : Expr :=
  .super ⟨.symbol .superWord, "super", 1⟩ depth inherited.name

/-- `super.m()` -/
def passing (depth : Option Nat) : Expr :=
  .call (lookup depth) ⟨.symbol .rightParen, ")", 1⟩ []

/-- `n() { super.m(); }` -/
def calling (depth : Option Nat) : FunctionDecl :=
  ⟨⟨.identifier, "n", 1⟩, [], [.expr (passing depth)]⟩

/-- `class A { m() {} }` -/
def base : Stmt := .classDecl ⟨.identifier, "A", 1⟩ none [inherited]

/-- `class B < A { n() { super.m(); } }` -/
def derived (depth : Option Nat) : Stmt :=
  .classDecl ⟨.identifier, "B", 1⟩ (some (.name ⟨.identifier, "A", 1⟩ none)) [calling depth]

/-- `B().n` -/
def callee : Expr :=
  .get (.call (.name ⟨.identifier, "B", 1⟩ none) ⟨.symbol .rightParen, ")", 1⟩ [])
    (calling none).name

/-- `B().n();` -/
def call : Stmt := .expr (.call callee ⟨.symbol .rightParen, ")", 1⟩ [])

theorem accepted : Accepted (.stmts [base, derived (some 2), call]) :=
  @Accepted.program
    "class A \x7b m() \x7b\x7d \x7d class B < A \x7b n() \x7b super.m(); \x7d \x7d B().n();"
    [base, derived none, call] (by with_unfolding_all rfl) rfl

/-- The first class. -/
def parent : Class := ⟨⟨0, "A", [("m", ⟨inherited, [0], false⟩)]⟩, []⟩

/-- The second class. -/
def child : Class := ⟨⟨1, "B", [("n", ⟨calling (some 2), [1, 0], false⟩)]⟩, [parent.own]⟩

/-- The machine with these frames, and so many functions and classes made. -/
def machine (made : Nat) (frames : List (List (String × Value))) : Machine :=
  { Machine.initial fun _ => 0 with store := ⟨(frames.map Bindings.mk).toArray⟩, nextId := made }

/-- The global variables, given the value of the second class's name. -/
def globals (b : Value) : List (String × Value) :=
  [("clock", .clock), ("A", .ofClass parent), ("B", b)]

/-- The machine in which the second class is declared, and the machine behind that. -/
def before : Machine := machine 1 [[("clock", .clock), ("A", .ofClass parent)]]

def behind : Machine := machine 2 [globals (.ofClass child), [("super", .ofClass parent)]]

/-- The machine with an object of the second class and its method bound. -/
def bound : Machine :=
  { machine 3 [globals (.ofClass child), [("super", .ofClass parent)],
      [("this", .object 0 child)]] with fields := #[.empty] }

/-- The execution of the second declaration. -/
def declaration : ClassExecution where
  fuel := 8
  name := ⟨.identifier, "B", 1⟩
  superclass := .name ⟨.identifier, "A", 1⟩ none
  methods := [calling (some 2)]
  machine := before
  started := machine 1 [globals .nil]
  evaluated := machine 1 [globals .nil]
  finished := behind
  parent := parent
  made := child
  starts := .superclass rfl
  inherits := rfl
  ends := rfl
  declares := rfl

/-- The call of the method. -/
def activation : Activation where
  fuel := 7
  own := none
  call := .call callee ⟨.symbol .rightParen, ")", 1⟩ []
  caller := behind
  callable := .closure ⟨calling (some 2), [2, 1, 0], false⟩
  arguments := []
  invoked := { bound with calls := 1 }
  closure := ⟨calling (some 2), [2, 1, 0], false⟩
  machine := { bound with calls := 1 }
  scope := [3, 2, 1, 0]
  bound := _
  invokes := .call rfl rfl rfl rfl (by decide)
  runs := .closure
  enters := rfl

end SuperCall

open SuperCall in
/-- The method of the first class is found, and bound to the object whose method runs. -/
theorem superCall_finds_inherited : ∃ number f m',
    eval 5 (lookup (some 2)) activation.body.machine = .done (.function number f) m' ∧
    f.Bound ⟨inherited, [0], false⟩ (.object 0 child) m'.store := by
  have later : declaration.moment.Later (fun _ => 0) activation.body := by
    have whole : ((Session.initial fun _ => 0).moment 9
        (.stmts [base, derived (some 2), call])).Reaches
        ⟨9, .stmts [derived (some 2), call], before⟩ := .step .start (.moreStatements rfl)
    have after : After ⟨9, .stmts [derived (some 2), call], before⟩ declaration.moment
        ⟨9, .stmts [call], behind⟩ := .moreStatements declaration.ends
    have calls : Moment.Reaches ⟨9, .stmts [call], behind⟩ activation.expression :=
      .step (.step .start .statement) (.value rfl)
    exact .inRun .initial accepted ⟨_, _, _, whole, after, .start,
      calls.trans (Moment.Calls.reaches Activation.calls)⟩
  have owned : activation.Owns (fun _ => 0) ⟨5, .expr none (lookup (some 2)),
      activation.body.machine⟩ := by
    have statement : activation.body.Calls ⟨7, .stmt (.expr (passing (some 2))), _⟩ :=
      Leads.statement
    have value : Moment.Calls ⟨7, .stmt (.expr (passing (some 2))), activation.body.machine⟩
      ⟨6, .expr none (passing (some 2)), _⟩ := Leads.value rfl
    have callee : Moment.Calls ⟨6, .expr none (passing (some 2)), activation.body.machine⟩
      ⟨5, .expr none (lookup (some 2)), _⟩ := Leads.first rfl
    exact .part (.part (.part .body statement nofun) value nofun) callee fun _ => rfl
  obtain ⟨id, k, isBound, -, finds, -⟩ :=
    super_starts_at_superclass (d := declaration) List.mem_cons_self ⟨2, rfl⟩ later owned
  have provides : parent.Provides "m" ⟨inherited, [0], false⟩ := ⟨[], _, [], rfl, rfl, nofun⟩
  cases isBound.this.symm.trans (show _ = some (Value.object 0 child) from rfl)
  exact finds _ provides

end LoxLang
