import LoxLang.Proofs.CreationOrder
import LoxLang.Proofs.OwnCode
import LoxLang.Proofs.RenamedScopes

/-!
# Objects and their initializers

The call of a class makes an object and runs the nearest initializer of the
chain for it. How many arguments the call takes is found by one lookup, and what
it runs by another, but both are the same lookup in the same class. Whatever an
initializer returns, its call gives the object that it is bound to, so this
object has to be there: an initializer is called only when it has been bound.
-/

namespace LoxLang

open LoxLang.Action MachineM

/-! ## Parameters -/

/-- The parameters of a function without errors have different names. -/
theorem Context.distinct_of_parameterErrors {ps : List Token} {c : Context}
    (tracked : c.scopes.isEmpty = false) (clean : c.parameterErrors ps = []) :
    (∀ p ∈ ps, c.declaresHere p.lexeme = false) ∧ (ps.map (·.lexeme)).Nodup := by
  induction ps generalizing c with
  | nil => exact ⟨nofun, .nil⟩
  | cons p ps ih =>
      obtain ⟨fresh, clean⟩ := List.append_eq_nil_iff.1 clean
      obtain ⟨others, distinct⟩ := ih (by rw [introduce_isEmpty]; exact tracked) clean
      refine ⟨List.forall_mem_cons.2 ⟨fresh_of_redeclaration fresh, fun q hq => ?_⟩,
        List.nodup_cons.2 ⟨fun again => ?_, distinct⟩⟩
      · refine Bool.eq_false_iff.2 fun declares => ?_
        have later := others q hq
        rw [declaresHere_introduce _ declares] at later
        cases later
      · obtain ⟨q, hq, same⟩ := List.mem_map.1 again
        have declares := others q hq
        rw [same, declaresHere_introduce_self tracked] at declares
        cases declares

theorem FunctionDecl.Resolved.distinct {strict : Bool} {kind : Body} {c : Context}
    {f f' : FunctionDecl} (h : FunctionDecl.Resolved strict kind c f f') :
    (f'.parameters.map (·.lexeme)).Nodup := by
  cases h with
  | mk _ _ distinct => exact (Context.distinct_of_parameterErrors rfl distinct).2

namespace MachineM

/-- Arguments are bound in a frame one after another. -/
theorem bindParameters_done {frame : Nat} {outer : Scope} {ps : List Token} {vs : List Value}
    {m : Machine} (distinct : (ps.map (·.lexeme)).Nodup) (inside : frame < m.store.frames.size) :
    ∃ s, bindParameters (frame :: outer) ps vs m = .done () { m with store := s } ∧
      (∀ (i : Nat) (p : Token) (v : Value), ps[i]? = some p → vs[i]? = some v →
        s.read? frame p.lexeme = some v) ∧
      ∀ x, x ∉ ps.map (·.lexeme) → s.read? frame x = m.store.read? frame x := by
  induction ps generalizing m vs with
  | nil => exact ⟨m.store, rfl, nofun, fun _ _ => rfl⟩
  | cons p ps ih =>
      cases vs with
      | nil => exact ⟨m.store, rfl, nofun, fun _ _ => rfl⟩
      | cons v vs =>
          obtain ⟨first, distinct⟩ := List.nodup_cons.1 distinct
          obtain ⟨s, ends, bound, others⟩ :=
            @ih vs { m with store := m.store.write frame p.lexeme v } distinct
              (by rw [Store.size_write]; exact inside)
          refine ⟨s, ends, fun i q w hq hw => ?_, fun x hx => ?_⟩
          · cases i with
            | zero =>
                cases hq
                cases hw
                rw [others _ first, Store.read?_write, if_pos ⟨rfl, rfl, inside⟩]
            | succ i => exact bound i q w hq hw
          · obtain ⟨hne, hx⟩ := not_or.1 (mt List.mem_cons.2 hx)
            rw [others x hx, Store.read?_write, if_neg fun h => hne h.2.1]

/-- A function runs in a new frame, which binds its parameters and nothing else. -/
theorem entered_done {f : Closure} {vs : List Value} {m : Machine}
    (distinct : (f.declaration.parameters.map (·.lexeme)).Nodup) :
    ∃ s, entered f vs m = .done (m.store.frames.size :: f.scope) { m with store := s } ∧
      (∀ (i : Nat) (p : Token) (v : Value), f.declaration.parameters[i]? = some p →
        vs[i]? = some v → s.read? m.store.frames.size p.lexeme = some v) ∧
      ∀ x, x ∉ f.declaration.parameters.map (·.lexeme) →
        s.read? m.store.frames.size x = none := by
  have inside : m.store.frames.size < (m.store.enter f.scope).2.frames.size := by
    rw [Store.size_enter]
    exact Nat.lt_succ_self _
  let opened : Machine := { m with store := (m.store.enter f.scope).2 }
  obtain ⟨s, ends, bound, others⟩ :=
    @bindParameters_done m.store.frames.size f.scope _ vs opened distinct inside
  refine ⟨s, ?_, bound, fun x hx => ?_⟩
  · show (bindParameters (m.store.frames.size :: f.scope) _ vs >>= fun _ => pure _) _ = _
    exact bind_of_done ends
  · rw [others x hx, Store.read?_enter, Store.read?,
      Array.getElem?_eq_none (Nat.le_refl _), Option.bind_none]

end MachineM

/-! ## Calls of classes -/

section Calls

variable {n : Nat} {callee : Expr} {paren : Token} {arguments : List Expr} {m m1 m2 m' : Machine}
  {f : Closure} {k : Class} {vs : List Value} {initializer : Closure} {v : Value}

/-- How many arguments a class takes. -/
theorem arity_of_provides (provides : k.Provides initializerName initializer) :
    (Callable.construct k).arity = initializer.declaration.parameters.length := by
  rw [Callable.arity, Class.initializer?, Class.method?_eq_some_iff.2 provides]

theorem arity_of_lacks (lacks : k.Lacks initializerName) : (Callable.construct k).arity = 0 := by
  rw [Callable.arity, Class.initializer?, Class.method?_eq_none_iff.2 lacks]

/-- A call with another number of arguments is refused. -/
theorem apply_of_arity {run : List Stmt → MachineM Flow} {callable : Callable}
    (accepts : v.callable? = some callable) (arity : vs.length ≠ callable.arity) :
    apply run paren v vs m = .failed ⟨paren, .arity callable.arity vs.length⟩ m := by
  unfold apply
  rw [accepts]
  exact if_pos arity

/-- Without an initializer the call makes an object, and that is all. -/
theorem apply_of_lacks {run : List Stmt → MachineM Flow} (lacks : k.Lacks initializerName)
    (nothing : vs.length = 0) (room : m.calls < maxCalls) : apply run paren (.ofClass k) vs m =
      .done (.object m.fields.size k) { m with fields := m.fields.push .empty } := by
  have arity : vs.length = (Callable.construct k).arity := by rw [nothing, arity_of_lacks lacks]
  rw [apply_of_accepts rfl arity room, counted, invoke, Class.initializer?,
    Class.method?_eq_none_iff.2 lacks]
  rfl

theorem eval_call (function : eval n callee m = .done v m1)
    (values : evalAll (eval n) arguments m1 = .done vs m2) :
    eval (n + 1) (.call callee paren arguments) m = apply (execAll (exec n)) paren v vs m2 := by
  rw [eval, bind_of_done function, bind_of_done values]

/-- What the call of a class runs is its initializer, bound to an object that is new. -/
theorem Runs.bound (h : Runs (.construct k) m f m') : ∃ initializer,
    k.initializer? = some initializer ∧ f.Bound initializer (.object m.fields.size k) m'.store ∧
      m'.fields = m.fields.push .empty := by
  cases h with
  | construct found bound =>
      cases bound
      exact ⟨_, found, ⟨⟨_, rfl⟩, Store.getAt?_open⟩, rfl⟩

end Calls

/-! ## How a call ends -/

namespace Activation

variable (a : Activation) {m : Machine} {flow : Flow} {fault : Located Fault} {v : Value}

theorem value_of_failed (failed : a.body.outcome = .failed fault m) :
    a.value = .failed fault (m.backTo a.caller) := by
  have broken : (eval (a.fuel + 1) a.call >>= fun _ => pure .next) a.caller =
      (Unwind.raised fault).leaving (m.backTo a.caller) := Leads.breaks a.calls nofun failed
  obtain ⟨_, same, ends⟩ := failed_of_leaving broken
  cases same
  exact ends

theorem value_of_done (ends : a.body.outcome = .done flow m) :
    a.value = .done (a.callable.gives a.invoked (if a.closure.isInitializer
        then (m.store.getAt? a.closure.scope 0 "this").getD .nil else flow.value))
      (m.backTo a.caller) := by
  have value := a.value_of_result (a.result_of_done ends)
  exact value

theorem value_of_exhausted (ends : a.body.outcome = .exhausted) : a.value = .exhausted := by
  obtain ⟨n, own, e, k, callable, vs, m0, f, m1, scope, m2, invokes, runs, enters⟩ := a
  have inside : inScope scope (execAll (exec n) f.declaration.body) m2 = .exhausted := by
    have ends : execAll (exec n) f.declaration.body { m2 with scope := scope } = .exhausted := ends
    rw [inScope, ends]
  have invoked : invoke (execAll (exec n)) callable vs m0 = .exhausted := by
    rw [invoke_of_runs runs, bind_apply, enter_of_entered enters, bind_apply, inside]
  cases invokes with
  | call callee arguments accepts arity room =>
      show eval (n + 1) _ _ = _
      rw [eval_call callee arguments, apply_of_accepts accepts arity room, counted, invoked]

/-- When a call has a value, the body has ended. -/
theorem body_done (ends : a.value = .done v m) : ∃ flow m', a.body.outcome = .done flow m' := by
  cases body : a.body.outcome with
  | done flow m' => exact ⟨flow, m', rfl⟩
  | failed fault m' => cases ends.symm.trans (a.value_of_failed body)
  | exhausted => cases ends.symm.trans (a.value_of_exhausted body)

theorem starts : Starts a.callable a.arguments a.invoked a.closure.declaration.body
    a.body.machine := by
  obtain ⟨n, own, e, k, callable, vs, m0, f, m1, scope, m2, invokes, runs, enters⟩ := a
  cases runs with
  | closure => exact .closure enters
  | construct found bound => exact .construct found bound (.closure enters)

/-- A call runs one body. -/
theorem body_unique {b : Moment} (calls : a.expression.Calls b) (inner : b.point.isValue = false) :
    b = a.body := by
  have starts := a.starts
  obtain ⟨n', p', m'⟩ := b
  obtain ⟨n, own, e, k, callable, vs, m0, f, m1, scope, m2, invokes, runs, enters⟩ := a
  cases invokes with
  | call callee arguments accepts arity room =>
      cases calls with
      | first | arguments => cases inner
      | second _ _ next => cases next
      | call callee' arguments' accepts' _ _ starts' =>
          cases callee.symm.trans callee'
          cases arguments.symm.trans arguments'
          cases accepts.symm.trans accepts'
          obtain ⟨rfl, rfl⟩ := starts'.unique starts
          rfl

/-- An initializer that runs is bound to an object. -/
theorem this_of_initializer (sound : a.expression.Sound) (hi : a.closure.isInitializer = true) :
    ∃ id k, a.body.machine.store.getAt? a.closure.scope 0 "this" = some (.object id k) := by
  have bound : a.machine.Evolves none a.bound := (Evolving.entered ..).done a.enters
  obtain ⟨_, _, _, -, placed, this⟩ := (closure_sound sound.point sound.machine).mono bound.store
  obtain ⟨v, found⟩ := placed.getAt? (this hi).2
  have body : a.body.machine.Sound := (Moment.Calls.sound a.calls sound).machine
  obtain ⟨id, k, rfl⟩ := (HeapSound.getAt? body found).2.1 rfl
  exact ⟨id, k, found⟩

/-- What the call gives is the object that the initializer is bound to. -/
theorem value_of_initializer {id : Nat} {k : Class} (sound : a.expression.Sound)
    (hi : a.closure.isInitializer = true)
    (this : a.body.machine.store.getAt? a.closure.scope 0 "this" = some (.object id k))
    (ends : a.value = .done v m) : v = .object id k := by
  obtain ⟨flow, m', body⟩ := a.body_done ends
  have after : m'.store.getAt? a.closure.scope 0 "this" = some (.object id k) :=
    ((Moment.Calls.sound a.calls sound).steady (by rw [body]; rfl)).getAt? (.inl rfl) this
  have value := a.value_of_done body
  rw [if_pos hi, after] at value
  cases ends.symm.trans value
  cases callable : a.callable with
  | clock | closure => rfl
  | construct k' =>
      have runs := a.runs
      rw [callable] at runs
      obtain ⟨_, _, bound, _⟩ := runs.bound
      have entered : a.machine.store.Steady a.bound.store :=
        (Steadies.entered a.closure a.arguments).done a.enters
      cases this.symm.trans (entered.getAt? (.inl rfl) bound.this)
      rfl

end Activation

/-! ## Construction -/

/-- The call of the class runs this initializer, and nothing else but its operands: the initializer
is bound to an object that is new and has no fields, and it runs in a frame that is new and binds
its parameters to the arguments, and nothing else. The object is the value of the call, if the body
ends; a fault in the body is a fault of the call. -/
structure Activation.Initializes (a : Activation) (k : Class) (initializer : Closure) : Prop where
  isBound : a.closure.Bound initializer (.object a.invoked.fields.size k) a.machine.store
  blank : a.body.machine.fields[a.invoked.fields.size]? = some .empty
  scope : a.body.machine.scope = a.machine.store.frames.size :: a.closure.scope
  parameters : ∀ (i : Nat) (p : Token) (v : Value),
    initializer.declaration.parameters[i]? = some p → a.arguments[i]? = some v →
      a.body.machine.store.read? a.machine.store.frames.size p.lexeme = some v
  others : ∀ x, x ∉ initializer.declaration.parameters.map (·.lexeme) →
    a.body.machine.store.read? a.machine.store.frames.size x = none
  only : ∀ b, a.expression.Calls b → b.point.isValue = false → b = a.body
  ends : ∀ flow m, a.body.outcome = .done flow m →
    a.value = .done (.object a.invoked.fields.size k) (m.backTo a.caller)
  fails : ∀ fault m, a.body.outcome = .failed fault m →
    a.value = .failed fault (m.backTo a.caller)

section Construction

variable {n : Nat} {own : Option String} {callee : Expr} {paren : Token} {arguments : List Expr}
  {m m1 m2 : Machine} {k : Class} {vs : List Value} {initializer : Closure}

/-- The initializer of a class is run if the number of arguments is right. -/
theorem exists_initializes (hk : k.Sound m2.store)
    (function : eval n callee m = .done (.ofClass k) m1)
    (values : evalAll (eval n) arguments m1 = .done vs m2) (room : m2.calls < maxCalls)
    (provides : k.Provides initializerName initializer)
    (arity : vs.length = initializer.declaration.parameters.length) :
    ∃ a : Activation, a.expression = ⟨n + 1, .expr own (.call callee paren arguments), m⟩ ∧
      a.arguments = vs ∧ a.invoked = { m2 with calls := m2.calls + 1 } ∧
      a.Initializes k initializer := by
  have found : k.initializer? = some initializer := Class.method?_eq_some_iff.2 provides
  obtain ⟨c, _, _, declared, -⟩ := hk.method found
  have accepted : vs.length = (Callable.construct k).arity := by
    rw [arity, arity_of_provides provides]
  obtain ⟨f, m3, runs⟩ : ∃ f m3, Runs (.construct k) { m2 with calls := m2.calls + 1 } f m3 :=
    ⟨_, _, .construct found rfl⟩
  obtain ⟨initializer', found', bound, fields⟩ := runs.bound
  cases found.symm.trans found'
  obtain ⟨frame, same⟩ := bound.binds
  have declaration : f.declaration = initializer.declaration := by rw [same]
  obtain ⟨s, enters, parameters, others⟩ :=
    @entered_done f vs m3 (by rw [declaration]; exact declared.distinct)
  rw [declaration] at parameters others
  let a : Activation := ⟨n, own, .call callee paren arguments, m, .construct k, vs, _, f, m3, _, _,
    .call function values rfl accepted room, runs, enters⟩
  refine ⟨a, rfl, rfl, rfl, ⟨bound, ?_, rfl, parameters, others, fun b => a.body_unique,
    fun flow m' ends => a.value_of_done ends, fun fault m' => a.value_of_failed⟩⟩
  show m3.fields[m2.fields.size]? = some .empty
  rw [fields, Array.getElem?_push, if_pos rfl]

end Construction

/-- What calling a class does, and what calling an initializer gives, in every run of every session.

The class takes as many arguments as the nearest initializer of its chain has parameters, or none
if there is no initializer. Another number is refused. Otherwise the call makes an object that no
variable, field or argument has for its value, and runs this initializer for it as
`Activation.Initializes` says. What a class that there is has under the name of initializers is an
initializer, however it has been bound, and nothing else is. And however an initializer comes to be
called, it is bound to an object, whichever evaluation has bound it, and this object is the value
that the call has if it has one. -/
theorem construction_yields_object {clock : Nat → Float} :
    (∀ (n : Nat) own callee paren arguments m m1 m2 k vs,
      Moment.Happens clock ⟨n + 1, .expr own (.call callee paren arguments), m⟩ →
      eval n callee m = .done (.ofClass k) m1 →
      evalAll (eval n) arguments m1 = .done vs m2 → m2.calls < maxCalls →
      (∀ v k', m2.Has v ∨ v ∈ vs → v ≠ .object m2.fields.size k') ∧
      (k.Lacks initializerName →
        (vs.length ≠ 0 → eval (n + 1) (.call callee paren arguments) m =
          .failed ⟨paren, .arity 0 vs.length⟩ m2) ∧
        (vs.length = 0 → eval (n + 1) (.call callee paren arguments) m =
          .done (.object m2.fields.size k) { m2 with fields := m2.fields.push .empty })) ∧
      ∀ initializer, k.Provides initializerName initializer →
        (vs.length ≠ initializer.declaration.parameters.length →
          eval (n + 1) (.call callee paren arguments) m =
            .failed ⟨paren, .arity initializer.declaration.parameters.length vs.length⟩ m2) ∧
        (vs.length = initializer.declaration.parameters.length → ∃ a : Activation,
          a.expression = ⟨n + 1, .expr own (.call callee paren arguments), m⟩ ∧
          a.arguments = vs ∧ a.invoked = { m2 with calls := m2.calls + 1 } ∧
          a.Initializes k initializer)) ∧
    (∀ (b : Moment) v k x method (f : Closure), b.Happens clock → b.machine.Has v →
      v = .ofClass k ∨ (∃ id, v = .object id k) → k.Provides x method → f.Binds method →
      (f.isInitializer = true ↔ x = initializerName)) ∧
    ∀ a : Activation, a.expression.Happens clock → a.closure.isInitializer = true → ∃ id k,
      a.body.machine.store.getAt? a.closure.scope 0 "this" = some (.object id k) ∧
      (∀ v m, a.value = .done v m → v = .object id k) ∧
      ∀ (b : Moment) method object m, b.Later clock a.body → m ∈ b.outcome.state? →
        a.closure.Bound method object m.store → object = .object id k := by
  refine ⟨fun n own callee paren arguments m m1 m2 k vs happens function values room => ?_,
    fun b v k x method f happens known isClass provides binds => ?_, fun a happens hi => ?_⟩
  · obtain ⟨-, founded, -⟩ := ((founding n).1 _ _ happens.founded).done function
    obtain ⟨-, founded, made⟩ := (Founds.evalAll (founding n).1 founded _).done values
    have hk : k.Sound m2.store :=
      (happens.sound.point.call happens.sound.machine function values).1
    have calls : eval (n + 1) (.call callee paren arguments) m =
        apply (execAll (exec n)) paren (.ofClass k) vs m2 := eval_call function values
    refine ⟨fun v k' known new => ?_, fun lacks => ⟨fun given => ?_, fun nothing => ?_⟩,
      fun initializer provides => ⟨fun arity => ?_, fun arity => ?_⟩⟩
    · have earlier : v.Made m2 := known.elim (founded v) (made v)
      rw [new] at earlier
      exact Nat.lt_irrefl _ earlier.1
    · have arity := arity_of_lacks lacks
      rw [calls, apply_of_arity rfl (by rw [arity]; exact given), arity]
    · rw [calls, apply_of_lacks lacks nothing room]
    · have parameters := arity_of_provides provides
      rw [calls, apply_of_arity rfl (by rw [parameters]; exact arity), parameters]
    · exact exists_initializes hk function values room provides arity
  · obtain ⟨frame, bound⟩ := binds
    have same : f.isInitializer = method.isInitializer := by rw [bound]
    have made : k.Made b.machine.nextId := by
      obtain rfl | ⟨id, rfl⟩ := isClass
      · exact happens.founded _ known
      · exact (happens.founded _ known).2
    rw [same]
    exact made.isInitializer_iff provides
  · have sound := happens.sound
    obtain ⟨id, k, this⟩ := a.this_of_initializer sound hi
    refine ⟨id, k, this, fun v m ends => a.value_of_initializer sound hi this ends,
      fun b method object m later ends bound => ?_⟩
    have kept := (later.steady ends).getAt? (.inl rfl) bound.this
    exact Option.some.inj (kept.symm.trans this)

namespace NewObject

/-- `init(x) {}` -/
def initializer : FunctionDecl := ⟨⟨.identifier, "init", 1⟩, [⟨.identifier, "x", 1⟩], []⟩

/-- `class A { init(x) {} }` -/
def declaration : Stmt := .classDecl ⟨.identifier, "A", 1⟩ none [initializer]

/-- `A(nil)` -/
def call : Expr :=
  .call (.name ⟨.identifier, "A", 1⟩ none) ⟨.symbol .rightParen, ")", 1⟩ [.literal .nil]

theorem accepted : Accepted (.stmts [declaration, .expr call]) :=
  @Accepted.program "class A \x7b init(x) \x7b\x7d \x7d A(nil);" [declaration, .expr call]
    (by with_unfolding_all rfl) rfl

/-- The class. -/
def made : Class := ⟨⟨0, "A", [("init", ⟨initializer, [0], true⟩)]⟩, []⟩

/-- The machine behind the declaration. -/
def behind : Machine :=
  { Machine.initial fun _ => 0 with
    store := ⟨#[⟨[("clock", .clock), ("A", .ofClass made)]⟩]⟩, nextId := 1 }

end NewObject

open NewObject in
/-- The initializer of the class runs with its parameter bound. -/
theorem newObject_initialized : ∃ a : Activation,
    a.body.machine.store.read? a.machine.store.frames.size "x" = some .nil ∧
      ∀ flow m, a.body.outcome = .done flow m →
        a.value = .done (.object 0 made) (m.backTo a.caller) := by
  have reaches : ((Session.initial fun _ => 0).moment 9
      (.stmts [declaration, .expr call])).Reaches ⟨8, .expr none call, behind⟩ :=
    .step (.step (.step .start (.moreStatements rfl)) .statement) (.value rfl)
  have provides : made.Provides initializerName ⟨initializer, [0], true⟩ :=
    ⟨[], _, [], rfl, rfl, nofun⟩
  obtain ⟨constructs, -⟩ := @construction_yields_object fun _ => 0
  obtain ⟨-, -, runs⟩ := constructs 7 none _ _ _ behind behind behind made [.nil]
    ⟨_, _, 9, .initial, accepted, reaches⟩ rfl rfl (by decide)
  obtain ⟨a, -, arguments, invoked, initializes⟩ := (runs _ provides).2 rfl
  refine ⟨a, initializes.parameters 0 ⟨.identifier, "x", 1⟩ .nil rfl (by rw [arguments]; rfl), ?_⟩
  have ends := initializes.ends
  rw [invoked] at ends
  exact ends

end LoxLang
