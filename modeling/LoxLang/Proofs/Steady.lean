import LoxLang.Proofs.Unwinding

/-!
# `this` and `super` are bound once

A method finds its object and the class above it in frames that it shares with
every other user of the same scope. So it matters that what such a frame says of
`this` and `super` stays as it is: from one machine of a run to a later one, no
frame that is there gets another `this` or `super`, and none loses its own.

Programs write to names only, and these two are no names. The two places where
they are bound write to a frame that is new.
-/

namespace LoxLang

open LoxLang.Action MachineM

/-! ## Stores -/

/-- The words that name no variable and are bound all the same. -/
def IsReserved (x : String) : Prop := x = "this" ∨ x = "super"

theorem Token.IsName.not_reserved {x : Token} (h : x.IsName) : ¬IsReserved x.lexeme :=
  fun reserved => reserved.elim h.not_this h.not_super

namespace Store

/-- The frames that are there stay, with what they say of `this` and `super`. -/
structure Steady (s s' : Store Value) : Prop where
  size : s.frames.size ≤ s'.frames.size
  same : ∀ {frame x}, frame < s.frames.size → IsReserved x → s'.read? frame x = s.read? frame x

variable {s s' s'' : Store Value} {frame : Nat} {x : String}

theorem Steady.refl (s : Store Value) : s.Steady s := ⟨Nat.le_refl _, fun _ _ => rfl⟩

theorem Steady.trans (h : s.Steady s') (h' : s'.Steady s'') : s.Steady s'' :=
  ⟨Nat.le_trans h.size h'.size, fun inside reserved =>
    (h'.same (Nat.lt_of_lt_of_le inside h.size) reserved).trans (h.same inside reserved)⟩

/-- What is written since is another name, or in a frame that was not there. -/
theorem Steady.write (h : s.Steady s') (other : ¬IsReserved x ∨ s.frames.size ≤ frame) (v : Value) :
    s.Steady (s'.write frame x v) := by
  refine ⟨Nat.le_trans h.size (Nat.le_of_eq (size_write ..).symm), fun inside reserved => ?_⟩
  rw [read?_write, if_neg]
  · exact h.same inside reserved
  · rintro ⟨rfl, rfl, -⟩
    rcases other with other | fresh
    · exact other reserved
    · omega

theorem Steady.define (h : s.Steady s') (scope : Scope)
    (other : ¬IsReserved x ∨ ∀ frame ∈ scope.head?, s.frames.size ≤ frame) (v : Value) :
    s.Steady (s'.define scope x v) := by
  cases scope with
  | nil => exact h
  | cons frame outer => exact h.write (other.imp_right fun fresh => fresh frame rfl) v

theorem Steady.enter (s : Store Value) (outer : Scope) : s.Steady (s.enter outer).2 :=
  ⟨Nat.le_trans (Nat.le_succ _) (Nat.le_of_eq (size_enter ..).symm), fun _ _ => read?_enter ..⟩

/-- A new frame may have any name in it. -/
theorem Steady.open (s : Store Value) (outer : Scope) (x : String) (v : Value) :
    s.Steady ((s.enter outer).2.define (s.enter outer).1 x v) :=
  (Steady.enter s outer).define _ (.inr fun _ h => by cases h; exact Nat.le_refl _) v

/-- What is found in a frame is found there later. -/
theorem Steady.getAt? (h : s.Steady s') (reserved : IsReserved x) {scope : Scope} {depth : Nat}
    {v : Value} (found : s.getAt? scope depth x = some v) : s'.getAt? scope depth x = some v := by
  obtain ⟨frame, at', read⟩ := Option.bind_eq_some_iff.1 found
  obtain ⟨here, bound⟩ := Option.filter_eq_some_iff.1 at'
  have read' : s'.read? frame x = some v := (h.same (lt_of_binds bound) reserved).trans read
  refine Option.bind_eq_some_iff.2 ⟨frame, Option.filter_eq_some_iff.2 ⟨here, ?_⟩, read'⟩
  rw [binds, read']
  rfl

end Store

namespace MachineM

open LoxLang.Action Store

variable {α β : Type} {grows : Option Nat} {m : Machine} {act : MachineM α}
  {ok : α → Machine → Prop}

/-! ## Actions -/

/-- However the action ends, it has kept `this` and `super`. -/
def Steadies (act : MachineM α) (m : Machine) : Prop :=
  act.Ends m (fun _ m' => m.store.Steady m'.store) fun _ m' => m.store.Steady m'.store

theorem Steadies.pure (a : α) : Steadies (pure a) m := .refl _

theorem Steadies.raise (token : Token) (fault : Fault) :
    Steadies (raise token fault : MachineM α) m := .refl _

theorem Steadies.exhausted : Steadies (exhausted : MachineM α) m := trivial

theorem Steadies.settle (token : Token) (r : Except Fault α) : Steadies (settle token r) m := by
  cases r with
  | ok a => exact .pure a
  | error fault => exact .raise token fault

/-- Actions in a row, if the first one keeps the invariant. -/
theorem Steadies.bind {next : α → MachineM β} (h : Steadies act m) (kept : Keeps grows act m ok)
    (hn : ∀ a m', m.Evolves grows m' → m'.Sound → ok a m' → Steadies (next a) m') :
    Steadies (act >>= next) m := by
  unfold Steadies
  rw [ends_bind]
  refine (Ends.and h kept).mono (fun a m' ⟨steady, he, hm, ha⟩ => ?_) fun _ _ h => h.1
  exact (hn a m' he hm ha).mono (fun _ _ => steady.trans) fun _ _ => steady.trans

/-- Actions in a row, whatever the first one does to the rest of the machine. -/
theorem Steadies.then {next : α → MachineM β} (h : Steadies act m)
    (hn : ∀ a m', act m = .done a m' → Steadies (next a) m') : Steadies (act >>= next) m := by
  unfold Steadies
  rw [ends_bind]
  refine ends_of (fun a m' ha => ?_) fun _ _ ha => h.failed ha
  exact (hn a m' ha).mono (fun _ _ => (h.done ha).trans) fun _ _ => (h.done ha).trans

theorem Steadies.ite {p : Prop} [Decidable p] {other : MachineM α} (h : Steadies act m)
    (h' : Steadies other m) : Steadies (if p then act else other) m := by
  split
  · exact h
  · exact h'

theorem Steadies.inScope {scope : Scope} (h : Steadies act { m with scope := scope }) :
    Steadies (inScope scope act) m := ends_inScope.2 h

theorem Steadies.counted (h : Steadies act { m with calls := m.calls + 1 }) :
    Steadies (counted act) m := ends_counted.2 h

theorem Steadies.define {x : Token} (isName : x.IsName) (v : Value) :
    Steadies (define x.lexeme v) m :=
  (Steady.refl m.store).define m.scope (.inl isName.not_reserved) v

/-- A new frame with one name in it. -/
theorem Steadies.openWith {outer : Scope} {x : String} {v : Value} {next : Scope → MachineM α}
    (hn : ∀ m', Steadies (next (m.store.enter outer).1) m') :
    Steadies (openScope outer >>= fun scope => defineIn scope x v >>= fun _ => next scope) m :=
  (hn { m with store := (m.store.enter outer).2.define (m.store.enter outer).1 x v }).mono
    (fun _ _ => (Steady.open ..).trans) fun _ _ => (Steady.open ..).trans

theorem Steadies.lookUp (name : Token) (depth : Option Nat) : Steadies (lookUp name depth) m := by
  unfold Steadies Ends MachineM.lookUp
  cases depth with
  | some distance => dsimp only; cases m.store.getAt? m.scope distance name.lexeme <;> exact .refl _
  | none => dsimp only; cases m.store.get? Machine.globalScope name.lexeme <;> exact .refl _

theorem Steadies.assign {name : Token} (isName : name.IsName) (depth : Option Nat) (v : Value) :
    Steadies (assign name depth v) m := by
  have written : ∀ frame, m.store.Steady (m.store.write frame name.lexeme v) := fun _ =>
    (Steady.refl _).write (.inl isName.not_reserved) v
  unfold Steadies Ends MachineM.assign
  cases depth with
  | some distance =>
      dsimp only
      cases m.store.frameAt? m.scope distance name.lexeme with
      | none => exact .refl _
      | some frame => exact written frame
  | none =>
      dsimp only
      cases m.store.frame? Machine.globalScope name.lexeme with
      | none => exact .refl _
      | some frame => exact written frame

theorem Steadies.assignClass {name : Token} (isName : name.IsName) (k : Class) :
    Steadies (assignClass name k) m := by
  unfold Steadies Ends MachineM.assignClass
  cases m.store.frame? m.scope name.lexeme with
  | none => exact .refl _
  | some frame => exact (Steady.refl _).write (.inl isName.not_reserved) _

theorem Steadies.print (line : String) : Steadies (print line) m := .refl _

theorem Steadies.setField (id : Nat) (x : String) (v : Value) : Steadies (setField id x v) m :=
  .refl _

theorem Steadies.newFunction (closure : Closure) : Steadies (newFunction closure) m := .refl _

theorem Steadies.newClass (name : String) (parent : Option Class) (scope : Scope)
    (methods : List FunctionDecl) : Steadies (newClass name parent scope methods) m := .refl _

theorem Steadies.newObject (k : Class) : Steadies (newObject k) m := .refl _

theorem Steadies.bindMethod (method : Closure) (object : Value) :
    Steadies (bindMethod method object) m := .openWith fun _ => .pure _

theorem Steadies.property (id : Nat) (k : Class) (name : Token) :
    Steadies (property id k name) m := by
  have read : Steadies (field? id name.lexeme) m := .refl _
  refine read.then fun v m' _ => ?_
  split
  · exact .pure _
  · split
    · exact (Steadies.bindMethod ..).then fun _ _ _ => .newFunction _
    · exact .raise ..

theorem Steadies.superMethod (keyword : Token) (depth : Option Nat) (method : Token) :
    Steadies (superMethod keyword depth method) m := by
  unfold MachineM.superMethod
  split
  · exact .raise ..
  · refine Steadies.then (.refl _) fun parent _ _ => ?_
    split
    · refine Steadies.then (.refl _) fun object _ _ => ?_
      split
      · split
        · exact (Steadies.bindMethod ..).then fun _ _ _ => .newFunction _
        · exact .raise ..
      · exact .raise ..
    · exact .raise ..

/-! ## Calls -/

/-- Parameters are bound in a frame that is new, whatever their names are. -/
theorem Steadies.bindParameters {s : Store Value} {frame : Nat} (fresh : s.frames.size ≤ frame)
    (outer : Scope) (ps : List Token) : ∀ (vs : List Value) {m : Machine}, s.Steady m.store →
      (bindParameters (frame :: outer) ps vs).Ends m (fun _ m' => s.Steady m'.store)
        fun _ m' => s.Steady m'.store := by
  induction ps with
  | nil => exact fun _ _ h => h
  | cons p ps ih =>
      rintro (_ | ⟨v, vs⟩) m h
      · exact h
      · exact ih vs (h.define (frame :: outer) (.inr fun _ hf => by cases hf; exact fresh) v)

theorem Steadies.entered (f : Closure) (vs : List Value) : Steadies (entered f vs) m := by
  unfold Steadies MachineM.entered
  rw [ends_bind, ends_openScope, ends_bind]
  exact Steadies.bindParameters (Nat.le_refl _) _ _ vs (Steady.enter _ f.scope)

/-- A way to run statements keeps `this` and `super`. -/
def SteadyBodies (run : List Stmt → MachineM Flow) : Prop :=
  ∀ c ss ss' c' m, Stmt.ResolvedAll false c ss ss' c' → Stands m.store c.scopes m.scope →
    m.Sound → Steadies (run ss') m

section Calls

variable {run : List Stmt → MachineM Flow}

theorem Steadies.enter (hrun : SteadyBodies run) {f : Closure} {vs : List Value} (hm : m.Sound)
    (hf : f.Sound m.store) (hv : ∀ v ∈ vs, v.Sound m.store)
    (arity : vs.length = f.declaration.parameters.length) : Steadies (enter run f vs) m := by
  rw [enter_eq]
  refine (Steadies.entered f vs).then fun scope m' entered => ?_
  obtain ⟨hm', kind, c, c', ss, body, stands⟩ := (Keeps.entered hm hf hv arity).done entered
  refine Steadies.then (.inScope (hrun _ _ _ _ { m' with scope := scope } body stands hm'))
    fun _ _ _ => ?_
  split
  · exact Steady.refl _
  · exact .pure _

theorem Steadies.invoke (hrun : SteadyBodies run) {callee : Value} {callable : Callable}
    {vs : List Value} (hm : m.Sound) (hc : callee.Sound m.store)
    (accepts : callee.callable? = some callable) (hv : ∀ v ∈ vs, v.Sound m.store)
    (arity : vs.length = callable.arity) : Steadies (invoke run callable vs) m := by
  cases callee with
  | nil | bool | number | string | object => cases accepts
  | clock =>
      cases accepts
      exact Steady.refl _
  | function id f =>
      cases accepts
      exact .enter hrun hm hc hv arity
  | ofClass k =>
      cases accepts
      cases found : k.initializer? with
      | none =>
          refine (Steadies.newObject k).then fun object m' _ => ?_
          rw [found]
          exact .pure _
      | some initializer =>
          refine (Steadies.newObject k).then fun object m' made => ?_
          rw [found]
          refine (Steadies.bindMethod ..).then fun f m'' bound => ?_
          have runs : Runs (.construct k) m f m'' := .construct found ((bind_of_done made).trans bound)
          obtain ⟨he, hm'', hf, same⟩ := runs.sound hm hc rfl
          exact (Steadies.enter hrun hm'' hf (fun v h => (hv v h).mono he.store)
            (arity.trans same)).then fun _ _ _ => .pure _

theorem Steadies.apply (hrun : SteadyBodies run) {paren : Token} {callee : Value}
    {vs : List Value} (hm : m.Sound) (hc : callee.Sound m.store)
    (hv : ∀ v ∈ vs, v.Sound m.store) : Steadies (apply run paren callee vs) m :=
  ends_apply (fun _ _ => .refl _) fun _ accepts arity _ =>
    Steadies.counted (.invoke hrun (show Machine.Sound { m with calls := m.calls + 1 } from hm) hc
      accepts hv arity)

end Calls

/-! ## Lists, loops and classes -/

/-- A way to evaluate keeps `this` and `super`. -/
def SteadyExpr (run : Expr → MachineM Value) : Prop :=
  ∀ c e e' m, Expr.Resolved false c e e' → Placed m.store c.scopes m.scope → m.Sound →
    Steadies (run e') m

/-- A way to execute keeps `this` and `super`. -/
def SteadyStmt (run : Stmt → MachineM Flow) : Prop :=
  ∀ c s s' c' m, Stmt.Resolved false c s s' c' → Stands m.store c.scopes m.scope → m.Sound →
    Steadies (run s') m

/-! ## What an evaluation goes on with

Each of these says what is left of an evaluation behind a part of it, and that the rest keeps
`this` and `super`. -/

section Rests

variable {n : Nat} {c c' : Context}

/-- Behind the first of several expressions. -/
theorem rest_of_argument (heval : SteadyExpr (eval n)) {es es' : List Expr}
    (resolved : Expr.ResolvedAll false c es es') (placed : Placed m.store c.scopes m.scope)
    (hm : m.Sound) (v : Value) :
    Steadies (evalAll (eval n) es' >>= fun vs => Pure.pure (v :: vs)) m := by
  induction es' generalizing es m v with
  | nil => exact .pure _
  | cons e es' ih =>
      cases resolved with
      | cons head tail =>
          refine Steadies.then ?_ fun _ _ _ => .pure _
          exact (heval _ _ _ m head placed hm).bind ((keeps n).1 _ _ _ m head placed hm)
            fun v m' he hm' _ => ih tail (Evolves.placed he placed) hm' v

theorem SteadyExpr.evalAll (heval : SteadyExpr (eval n)) {es es' : List Expr}
    (resolved : Expr.ResolvedAll false c es es') (placed : Placed m.store c.scopes m.scope)
    (hm : m.Sound) : Steadies (evalAll (eval n) es') m := by
  cases resolved with
  | nil => exact .pure _
  | cons head tail =>
      exact (heval _ _ _ m head placed hm).bind ((keeps n).1 _ _ _ m head placed hm)
        fun v m' he hm' _ => rest_of_argument heval tail (Evolves.placed he placed) hm' v

/-- What is gone on with behind a statement, unless that has returned. -/
def unlessReturned (rest : MachineM Flow) : Flow → MachineM Flow
  | .next => rest
  | .returned v => Pure.pure (.returned v)

theorem execAll_cons (run : Stmt → MachineM Flow) (s : Stmt) (ss : List Stmt) :
    execAll run (s :: ss) = run s >>= unlessReturned (execAll run ss) :=
  congrArg (run s >>= ·) (funext fun flow => by cases flow <;> rfl)

theorem loop_succ (test : MachineM Value) (body : MachineM Flow) (left : Nat) :
    loop test body (left + 1) = test >>= fun v =>
      if v.truthy then body >>= unlessReturned (loop test body left) else Pure.pure .next := by
  rw [loop]
  congr 2
  funext v
  congr 2
  funext flow
  cases flow <;> rfl

/-- Behind a statement. -/
theorem rest_of_statement {s s' : Stmt} {rest : MachineM Flow}
    (resolved : Stmt.Resolved false c s s' c') (stands : Stands m.store c.scopes m.scope)
    (hm : m.Sound)
    (hrest : ∀ m : Machine, Stands m.store c'.scopes m.scope → m.Sound → Steadies rest m)
    (flow : Flow) (m' : Machine) (ends : exec n s' m = .done flow m') :
    Steadies (unlessReturned rest flow) m' := by
  obtain ⟨-, hm', -, next⟩ := ((keeps n).2 _ _ _ _ m resolved stands hm).done ends
  cases flow with
  | next => exact hrest m' (next rfl) hm'
  | returned v => exact .pure _

theorem SteadyStmt.execAll (hexec : SteadyStmt (exec n)) : SteadyBodies (execAll (exec n)) := by
  intro c ss ss' c' m resolved stands hm
  induction ss' generalizing c ss m with
  | nil => exact .pure _
  | cons s' ss' ih =>
      cases resolved with
      | cons head tail =>
          rw [execAll_cons]
          exact (hexec _ _ _ _ m head stands hm).then
            (rest_of_statement head stands hm fun m stands hm => ih _ _ m tail stands hm)

/-- Behind the second operand of an expression. -/
theorem rest_of_second {e a b : Expr} {m' : Machine} {v : Value} (operand : e.first? = some a)
    (before : eval n a m = .done v m') (next : e.second? v = some b) :
    ∃ rest : Value → MachineM Value, eval (n + 1) e m = (eval n b >>= rest) m' ∧
      ∀ w m'', Steadies (rest w) m'' := by
  cases e <;> cases operand
  case binary =>
    cases next
    exact ⟨_, bind_of_done before, fun _ _ => .settle ..⟩
  case logical =>
    rw [Expr.second?] at next
    split at next <;> cases next
    next continues =>
      refine ⟨Pure.pure, ?_, fun _ _ => .pure _⟩
      rw [eval, bind_of_done before, if_neg continues, bind_pure]
  case set =>
    cases v <;> cases next
    exact ⟨_, bind_of_done before, fun _ _ => (Steadies.setField ..).then fun _ _ _ => .pure _⟩
  all_goals cases next

/-- Behind the initializer of a variable. -/
theorem rest_of_initializer {x : Token} (isName : x.IsName) (v : Value) :
    Steadies (MachineM.define x.lexeme v >>= fun _ => Pure.pure (.next : Flow)) m :=
  (Steadies.define isName v).then fun _ _ _ => .pure _

/-- What the declaration of a class does with the value of its superclass. -/
def declareUnder (name : Token) (scope : Scope) (methods : List FunctionDecl) (token : Token) :
    Value → MachineM Unit
  | .ofClass parent => do
    let inner ← openScope scope
    defineIn inner "super" (.ofClass parent)
    let k ← newClass name.lexeme (some parent) inner methods
    assignClass name k
  | _ => raise token .superclassNotClass

theorem exec_subclass (x : Token) (e : Expr) (ms : List FunctionDecl) (m : Machine) :
    exec (n + 1) (.classDecl x (some e) ms) m =
      (eval n e >>= fun v => declareUnder x m.scope ms (superclassToken x e) v >>= fun _ =>
        Pure.pure .next) { m with store := m.store.define m.scope x.lexeme .nil } := by
  rw [exec, declareClass]
  show ((eval n e >>= _) >>= _) _ = _
  rw [bind_assoc]
  congr 2

/-- Behind the superclass of a class. -/
theorem rest_of_superclass {x : Token} (isName : x.IsName) (scope : Scope)
    (ms : List FunctionDecl) (token : Token) (v : Value) :
    Steadies (declareUnder x scope ms token v >>= fun _ => Pure.pure (.next : Flow)) m := by
  refine Steadies.then ?_ fun _ _ _ => .pure _
  cases v with
  | ofClass parent =>
      exact .openWith fun _ => (Steadies.newClass ..).then fun _ _ _ => .assignClass isName _
  | _ => exact .raise ..

end Rests

section Rests

variable {n : Nat} {c c' : Context} (heval : SteadyExpr (eval n)) (hexec : SteadyStmt (exec n))

include hexec

/-- Behind the test of a loop. -/
theorem rest_of_test {e e' : Expr} {s s' : Stmt} {rest : MachineM Flow}
    (test : Expr.Resolved false c e e') (body : Stmt.Resolved false c s s' c)
    (stands : Stands m.store c.scopes m.scope) (hm : m.Sound)
    (hrest : ∀ m : Machine, Stands m.store c.scopes m.scope → m.Sound → Steadies rest m)
    (v : Value) (m' : Machine) (value : eval n e' m = .done v m') :
    Steadies (if v.truthy then exec n s' >>= unlessReturned rest else Pure.pure .next) m' := by
  obtain ⟨he, hm', -⟩ := ((keeps n).1 c _ _ m test stands.placed hm).done value
  have stands := Evolves.stands he stands
  exact .ite ((hexec _ _ _ _ m' body stands hm').then (rest_of_statement body stands hm' hrest))
    (.pure _)

include heval in
theorem SteadyStmt.loop {e e' : Expr} {s s' : Stmt} (test : Expr.Resolved false c e e')
    (body : Stmt.Resolved false c s s' c) (left : Nat) : ∀ m : Machine,
    Stands m.store c.scopes m.scope → m.Sound → Steadies (loop (eval n e') (exec n s') left) m := by
  induction left with
  | zero => exact fun _ _ _ => .exhausted
  | succ left ih =>
      intro m stands hm
      rw [loop_succ]
      exact (heval _ _ _ m test stands.placed hm).then
        (rest_of_test hexec test body stands hm ih)

include heval in
/-- Behind the first operand of an expression. -/
theorem rest_of_first {d e a : Expr} (resolved : Expr.Resolved false c d e)
    (operand : e.first? = some a) (placed : Placed m.store c.scopes m.scope) (hm : m.Sound) :
    ∃ rest : Value → MachineM Value, eval (n + 1) e = eval n a >>= rest ∧
      ∀ v m', eval n a m = .done v m' → Steadies (rest v) m' := by
  have kept : ∀ {b : Expr}, Expr.Resolved false c b a → ∀ {v m'}, eval n a m = .done v m' →
      Placed m'.store c.scopes m'.scope ∧ m'.Sound ∧ v.Sound m'.store := by
    intro b resolved v m' hv
    obtain ⟨he, hm', hv⟩ := ((keeps n).1 c _ _ m resolved placed hm).done hv
    exact ⟨Evolves.placed he placed, hm', hv⟩
  cases resolved with
  | literal | name | this | super => cases operand
  | group =>
      cases operand
      exact ⟨Pure.pure, (bind_pure _).symm, fun _ _ _ => .pure _⟩
  | unary =>
      cases operand
      exact ⟨_, rfl, fun _ _ _ => .settle ..⟩
  | binary left right =>
      cases operand
      refine ⟨_, rfl, fun v m' hv => ?_⟩
      obtain ⟨placed, hm', -⟩ := kept left hv
      exact (heval _ _ _ m' right placed hm').then fun _ _ _ => .settle ..
  | logical left right =>
      cases operand
      refine ⟨_, rfl, fun v m' hv => ?_⟩
      obtain ⟨placed, hm', -⟩ := kept left hv
      exact .ite (.pure _) (heval _ _ _ m' right placed hm')
  | assign isName _ _ | assignOwn _ isName _ _ =>
      cases operand
      exact ⟨_, rfl, fun _ _ _ => (Steadies.assign isName _ _).then fun _ _ _ => .pure _⟩
  | call callee arguments =>
      cases operand
      refine ⟨_, rfl, fun f m' hv => ?_⟩
      obtain ⟨placed, hm', hf⟩ := kept callee hv
      exact (heval.evalAll arguments placed hm').bind ((keeps n).1.evalAll arguments placed hm')
        fun vs m'' he hm'' hvs => .apply hexec.execAll hm'' (hf.mono he.store) hvs
  | get object =>
      cases operand
      refine ⟨_, rfl, fun v m' _ => ?_⟩
      split
      · exact .property ..
      · exact .raise ..
  | set object value =>
      cases operand
      refine ⟨_, rfl, fun v m' hv => ?_⟩
      obtain ⟨placed, hm', -⟩ := kept object hv
      split
      · exact (heval _ _ _ m' value placed hm').then fun _ _ _ => (Steadies.setField ..).then
          fun _ _ _ => .pure _
      · exact .raise ..

/-- Behind the expression that a statement starts with. -/
theorem rest_of_value {d s : Stmt} {e : Expr} (resolved : Stmt.Resolved false c d s c')
    (operand : s.first? = some e) (stands : Stands m.store c.scopes m.scope) (hm : m.Sound) :
    ∃ rest : Value → MachineM Flow, exec (n + 1) s = eval n e >>= rest ∧
      ∀ v m', eval n e m = .done v m' → Steadies (rest v) m' := by
  have kept : ∀ {b : Expr}, Expr.Resolved false c b e → ∀ {v m'}, eval n e m = .done v m' →
      Stands m'.store c.scopes m'.scope ∧ m'.Sound := by
    intro b resolved v m' hv
    obtain ⟨he, hm', -⟩ := ((keeps n).1 c _ _ m resolved stands.placed hm).done hv
    exact ⟨Evolves.stands he stands, hm'⟩
  cases resolved with
  | expr | returning =>
      cases operand
      exact ⟨_, rfl, fun _ _ _ => .pure _⟩
  | print =>
      cases operand
      exact ⟨_, rfl, fun _ _ _ => (Steadies.print _).then fun _ _ _ => .pure _⟩
  | ifThen test consequent =>
      cases operand
      refine ⟨_, rfl, fun v m' hv => ?_⟩
      obtain ⟨stands, hm'⟩ := kept test hv
      exact .ite (hexec _ _ _ _ m' consequent stands hm') (.pure _)
  | ifElse test consequent alternative =>
      cases operand
      refine ⟨_, rfl, fun v m' hv => ?_⟩
      obtain ⟨stands, hm'⟩ := kept test hv
      exact .ite (hexec _ _ _ _ m' consequent stands hm') (hexec _ _ _ _ m' alternative stands hm')
  | bare | var | block | whileDo | function | bareReturn | rootClass | subclass => cases operand

end Rests

/-! ## Evaluation -/

/-- Evaluating a resolved tree where it stands keeps every `this` and every `super`. -/
theorem steadies (fuel : Nat) : SteadyExpr (eval fuel) ∧ SteadyStmt (exec fuel) := by
  induction fuel with
  | zero => exact ⟨fun _ _ _ _ _ _ _ => .exhausted, fun _ _ _ _ _ _ _ _ => .exhausted⟩
  | succ fuel ih =>
      obtain ⟨heval, hexec⟩ := ih
      constructor
      · intro c d e m resolved placed hm
        have operands : ∀ {a : Expr}, e.first? = some a → Steadies (eval (fuel + 1) e) m := by
          intro a operand
          obtain ⟨b, first⟩ := resolved.first operand
          obtain ⟨rest, factors, steady⟩ := rest_of_first heval hexec resolved operand placed hm
          rw [factors]
          exact (heval _ _ _ m first placed hm).then steady
        cases resolved with
        | literal => exact .pure _
        | name | this =>
            rw [eval]
            exact .lookUp ..
        | super =>
            rw [eval]
            exact .superMethod ..
        | group | unary | binary | logical | assign | assignOwn | call | get | set =>
            exact operands rfl
      · intro c d s c' m resolved stands hm
        have value : ∀ {e : Expr}, s.first? = some e → Steadies (exec (fuel + 1) s) m := by
          intro e operand
          obtain ⟨b, first⟩ := resolved.first operand
          obtain ⟨rest, factors, steady⟩ := rest_of_value hexec resolved operand stands hm
          rw [factors]
          exact (heval _ _ _ m first stands.placed hm).then steady
        cases resolved with
        | expr | print | ifThen | ifElse | returning => exact value rfl
        | bareReturn => exact .pure _
        | bare isName _ => exact rest_of_initializer isName .nil
        | var isName fresh initial =>
            exact (heval _ _ _ m initial (stands.declare fresh).placed hm).then
              fun v _ _ => rest_of_initializer isName v
        | block body =>
            have entered := Stands.enter stands.placed (Store.binds_size m.store)
            have inside := hexec.execAll _ _ _ _ { m with store := _, scope := _ } body entered
              (HeapSound.enter hm m.scope)
            have opened := Steady.enter m.store m.scope
            show Action.Ends _ _ _ _
            rw [exec, ends_bind, ends_read, ends_bind, ends_openScope, ends_inScope]
            exact Ends.mono inside (fun _ _ => opened.trans) fun _ _ => opened.trans
        | whileDo test body => exact SteadyStmt.loop heval hexec test body fuel m stands hm
        | @function _ f f' fresh declaration =>
            rw [exec]
            refine Steadies.then (Steady.refl _) fun scope m' _ => ?_
            refine (Steadies.newFunction _).then fun v m'' _ => ?_
            rw [declaration.spelled.1]
            exact rest_of_initializer declaration.spelled.2 v
        | rootClass isName _ methods =>
            refine Steadies.then ?_ fun _ _ _ => .pure _
            refine (Steadies.define isName .nil).then fun _ m' _ => ?_
            refine Steadies.then (Steady.refl _) fun scope m'' _ => ?_
            exact (Steadies.newClass ..).then fun _ _ _ => .assignClass isName _
        | subclass isName _ superclass _ methods =>
            have defined := (Keeps.define (v := .nil) hm trivial
              (Value.fits_of_isName isName .nil)).done rfl
            have bound := (Steadies.define (m := m) isName .nil).done rfl
            unfold Steadies Ends
            rw [exec_subclass]
            refine Ends.mono (Steadies.then ?_ fun v _ _ => rest_of_superclass isName m.scope _ _ v)
              (fun _ _ => bound.trans) fun _ _ => bound.trans
            exact heval _ _ _ _ superclass (stands.introduce .nil).placed defined.2.1

end MachineM

theorem Runs.steady {callable : Callable} {m m' : Machine} {f : Closure}
    (h : Runs callable m f m') : m.store.Steady m'.store := by
  cases h with
  | closure => exact .refl _
  | construct _ bound =>
      exact ((Steadies.newObject _).then fun _ _ _ => .bindMethod ..).done bound

end LoxLang
