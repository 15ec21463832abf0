import LoxLang.Proofs.History
import LoxLang.Proofs.MethodLookup
import LoxLang.Proofs.Returns

/-!
# The code of a method

A call of a method runs the body of the method, and what is declared in the body
may be called long after that: a function that the method has left behind is
still its code. All of this code finds the same `this` and the same `super`,
because between it and the method there are only frames that bind neither.

So the proof follows the code from the body outward. A piece of it is resolved in
a context, and it is evaluated in a scope; `Within` says that the two go back,
over the same number of frames, to what the method was resolved in and to the
scope of the method.
-/

namespace LoxLang

open LoxLang.Action MachineM

/-! ## Scopes inside the scope of a function -/

/-- The scope is so many frames inside another one, and its context inside another one as well.
What is seen of `this` and `super` is outside of these frames. -/
structure Within (base : List Declared) (outer : Scope) (c : Context) (scope : Scope) (n : Nat) :
    Prop where
  sees : ∀ {x depth r}, IsReserved x → Sees c.scopes x depth r → ∃ j, depth = n + j ∧
    Sees base x j r
  drop : scope.drop n = outer

namespace Within

variable {base : List Declared} {outer scope : Scope} {c : Context} {n frame : Nat} {x : Token}

theorem refl (c : Context) (scope : Scope) : Within c.scopes scope c scope 0 :=
  ⟨fun _ sees => ⟨_, (Nat.zero_add _).symm, sees⟩, rfl⟩

/-- What is so many frames further out is found in the outer scope. -/
theorem getAt? (h : Within base outer c scope n) (s : Store Value) (j : Nat) (x : String) :
    s.getAt? scope (n + j) x = s.getAt? outer j x := by
  rw [Store.getAt?, Store.getAt?, Store.frameAt?, Store.frameAt?, ← h.drop, List.getElem?_drop]

theorem declare (h : Within base outer c scope n) (isName : x.IsName) :
    Within base outer (c.declare x.lexeme) scope n := by
  refine ⟨fun reserved sees => h.sees reserved ?_, h.drop⟩
  refine (Context.sees_declare_of_ne fun same => ?_).1 sees
  exact isName.not_reserved (same ▸ reserved)

theorem introduce (h : Within base outer c scope n) (isName : x.IsName) :
    Within base outer (c.introduce x.lexeme) scope n := by
  refine ⟨fun reserved sees => h.sees reserved ?_, h.drop⟩
  refine (Context.sees_introduce_of_ne fun same => ?_).1 sees
  exact isName.not_reserved (same ▸ reserved)

theorem enter (h : Within base outer c scope n) (frame : Nat) :
    Within base outer c.enter (frame :: scope) (n + 1) := by
  refine ⟨fun {x depth r} reserved sees => ?_, h.drop⟩
  cases sees with
  | here bound => cases bound
  | out _ sees =>
      obtain ⟨j, rfl, found⟩ := h.sees reserved sees
      exact ⟨j, Nat.add_right_comm n j 1, found⟩

/-- The body of a function is one frame further in. -/
theorem inFunction (h : Within base outer c scope n) (frame : Nat) (kind : Body) {ps : List Token}
    (names : ∀ p ∈ ps, p.IsName) :
    Within base outer (c.inFunction kind ps) (frame :: scope) (n + 1) := by
  have introduced : ∀ {c : Context}, Within base outer c (frame :: scope) (n + 1) →
      Within base outer (ps.foldl (fun c p => c.introduce p.lexeme) c) (frame :: scope) (n + 1) := by
    induction ps with
    | nil => exact id
    | cons p ps ih =>
        obtain ⟨isName, names⟩ := List.forall_mem_cons.1 names
        exact fun h => ih names (h.introduce isName)
  exact introduced (c := { c.enter with body := kind }) ⟨(h.enter frame).sees, (h.enter frame).drop⟩

/-- Behind a statement. -/
theorem after {d s : Stmt} {c' : Context} (h : Within base outer c scope n)
    (resolved : Stmt.Resolved false c d s c') : Within base outer c' scope n := by
  cases resolved with
  | bare isName | var isName | rootClass isName | subclass isName => exact h.introduce isName
  | function _ declaration =>
      obtain ⟨-, isName⟩ := declaration.spelled
      exact h.introduce isName
  | _ => exact h

end Within

/-! ## Points inside a function -/

/-- The point is a tree that is resolved in the context. -/
def Point.ResolvedAt (c : Context) : Point → Prop
  | .expr _ e => ∃ d, Expr.Resolved false c d e
  | .exprs _ es => ∃ ds, Expr.ResolvedAll false c ds es
  | .stmt s => ∃ d c', Stmt.Resolved false c d s c'
  | .stmts ss => ∃ ds c', Stmt.ResolvedAll false c ds ss c'
  | .rounds _ e s => ∃ d t, Expr.Resolved false c d e ∧ Stmt.Resolved false c t s c

/-- The point is resolved inside one context and evaluated inside one scope. -/
def Point.Lies (base : List Declared) (outer scope : Scope) (p : Point) : Prop :=
  ∃ c n, p.ResolvedAt c ∧ Within base outer c scope n

section Points

variable {base : List Declared} {outer scope : Scope} {n n' : Nat} {p p' : Point} {m m' : Machine}

/-- A step that calls no function leads further in, or stays. -/
theorem Leads.lies (h : Leads n p m n' p' m') (inner : p.isValue = true → p'.isValue = true)
    (lies : p.Lies base outer m.scope) : p'.Lies base outer m'.scope := by
  have evaluated : ∀ {n e v m m'}, eval n e m = .done v m' → m'.scope = m.scope :=
    fun h => ((restores_eval _ _ _).done h).scope
  have executed : ∀ {n s flow m m'}, exec n s m = .done flow m' → m'.scope = m.scope :=
    fun h => ((restores_exec _ _ _).done h).scope
  obtain ⟨c, k, resolved, within⟩ := lies
  cases h with
  | first operand =>
      obtain ⟨d, resolved⟩ := resolved
      exact ⟨c, k, resolved.first operand, within⟩
  | second _ before next =>
      obtain ⟨d, resolved⟩ := resolved
      rw [evaluated before]
      exact ⟨c, k, resolved.second next, within⟩
  | arguments before =>
      obtain ⟨_, resolved⟩ := resolved
      rw [evaluated before]
      cases resolved with
      | call _ arguments => exact ⟨c, k, ⟨_, arguments⟩, within⟩
  | call => cases inner rfl
  | argument =>
      obtain ⟨_, resolved⟩ := resolved
      cases resolved with
      | cons head _ => exact ⟨c, k, ⟨_, head⟩, within⟩
  | moreArguments before =>
      obtain ⟨_, resolved⟩ := resolved
      rw [evaluated before]
      cases resolved with
      | cons _ tail => exact ⟨c, k, ⟨_, tail⟩, within⟩
  | value operand =>
      obtain ⟨d, c', resolved⟩ := resolved
      exact ⟨c, k, resolved.first operand, within⟩
  | initializer =>
      obtain ⟨_, c', resolved⟩ := resolved
      cases resolved with
      | var isName _ initial => exact ⟨_, k, ⟨_, initial⟩, within.declare isName⟩
  | superclass before =>
      obtain ⟨_, c', resolved⟩ := resolved
      cases before
      cases resolved with
      | subclass isName _ superclass => exact ⟨_, k, ⟨_, superclass⟩, within.introduce isName⟩
  | branch _ before next =>
      obtain ⟨d, c', resolved⟩ := resolved
      rw [evaluated before]
      obtain ⟨b, taken⟩ := resolved.branch next
      exact ⟨c, k, ⟨b, c, taken⟩, within⟩
  | block entered =>
      obtain ⟨_, c', resolved⟩ := resolved
      cases entered
      cases resolved with
      | block body => exact ⟨_, k + 1, ⟨_, _, body⟩, within.enter _⟩
  | loop =>
      obtain ⟨_, c', resolved⟩ := resolved
      cases resolved with
      | whileDo test body => exact ⟨c, k, ⟨_, _, test, body⟩, within⟩
  | test =>
      obtain ⟨d, t, test, -⟩ := resolved
      exact ⟨c, k, ⟨d, test⟩, within⟩
  | round before =>
      obtain ⟨d, t, -, body⟩ := resolved
      rw [evaluated before]
      exact ⟨c, k, ⟨t, c, body⟩, within⟩
  | moreRounds before _ body =>
      rw [executed body, evaluated before]
      exact ⟨c, k, resolved, within⟩
  | statement =>
      obtain ⟨_, c', resolved⟩ := resolved
      cases resolved with
      | cons head _ => exact ⟨c, k, ⟨_, _, head⟩, within⟩
  | moreStatements before =>
      obtain ⟨_, c', resolved⟩ := resolved
      rw [executed before]
      cases resolved with
      | cons head tail => exact ⟨_, k, ⟨_, _, tail⟩, within.after head⟩

end Points

/-! ## What a function owns -/

/-- What is evaluated as code of the function that is running: its body, and the bodies of the
functions that this code declares, whenever they are called. What else the code calls is not its
own, and neither are the methods of the classes that it declares. -/
inductive Activation.Owns (clock : Nat → Float) (a : Activation) : Moment → Prop
  | body : Owns clock a a.body
  | part {b c : Moment} (before : Owns clock a b) (calls : b.Calls c)
      (inner : b.point.isValue = true → c.point.isValue = true) : Owns clock a c
  | nested {b : Moment} {f : FunctionDecl} {m : Machine} {g : Activation} {id : Nat}
      (before : Owns clock a b) (declares : b.point = .stmt (.function f))
      (ends : b.outcome = .done .next m)
      (made : m.store.getAt? m.scope 0 f.name.lexeme = some (.function id g.closure))
      (later : b.Later clock g.body) : Owns clock a g.body

theorem MachineM.scope_of_entered {f : Closure} {vs : List Value} {m m' : Machine} {scope : Scope}
    (h : entered f vs m = .done scope m') : scope = m.store.frames.size :: f.scope := by
  change (bindParameters (m.store.frames.size :: f.scope) _ vs >>= fun _ => pure _) _ = _ at h
  rw [bind_apply] at h
  split at h <;> cases h
  rfl

/-- The function that a declaration makes keeps the scope of the declaration. -/
theorem closure_of_declared {n : Nat} {f : FunctionDecl} {m m' : Machine} {id : Nat} {g : Closure}
    (ends : exec n (.function f) m = .done .next m')
    (made : m'.store.getAt? m'.scope 0 f.name.lexeme = some (.function id g)) :
    g = ⟨f, m.scope, false⟩ := by
  cases n with
  | zero => cases ends
  | succ n =>
      cases ends
      cases Store.eq_of_getAt?_define made
      rfl

namespace Activation

variable {clock : Nat → Float} {a : Activation} {b : Moment}

theorem body_lies {base : List Declared} {outer : Scope} {n : Nat} {kind : Body} {c : Context}
    {declaration : FunctionDecl} (a : Activation)
    (resolved : FunctionDecl.Resolved false kind c declaration a.closure.declaration)
    (within : Within base outer c a.closure.scope n) :
    a.body.point.Lies base outer a.body.machine.scope := by
  have scope : a.scope = a.machine.store.frames.size :: a.closure.scope :=
    scope_of_entered a.enters
  show Point.Lies base outer a.scope (.stmts a.closure.declaration.body)
  rw [scope]
  generalize a.closure.declaration = declared at resolved ⊢
  cases resolved with
  | mk _ names _ body => exact ⟨_, n + 1, ⟨_, _, body⟩, within.inFunction _ kind names⟩

namespace Owns

theorem sound (h : a.Owns clock b) (ha : a.body.Sound) : b.Sound := by
  induction h with
  | body => exact ha
  | part _ calls _ ih => exact Moment.Calls.sound calls ih
  | nested _ _ _ _ later _ => exact later.sound.2

/-- All the code of a function finds what the body has found of `this` and `super`. -/
theorem steady (h : a.Owns clock b) (ha : a.body.Sound) :
    a.body.machine.store.Steady b.machine.store := by
  induction h with
  | body => exact .refl _
  | part before calls _ ih =>
      have sound := before.sound ha
      exact ih.trans (Leads.steady calls sound.point sound.machine)
  | nested before _ ends _ later ih =>
      have made := (before.sound ha).steady (by rw [ends]; rfl)
      exact (ih.trans made).trans (later.steady (by rw [ends]; rfl))

/-- All the code of a function lies inside its scope. -/
theorem lies {kind : Body} {c : Context} {declaration : FunctionDecl} (h : a.Owns clock b)
    (resolved : FunctionDecl.Resolved false kind c declaration a.closure.declaration) :
    b.point.Lies c.scopes a.closure.scope b.machine.scope := by
  induction h with
  | body => exact a.body_lies resolved (.refl c _)
  | part _ calls inner ih => exact Leads.lies calls inner ih
  | @nested b f m g id _ declares ends made _ ih =>
      obtain ⟨n, p, m0⟩ := b
      cases declares
      have same : g.closure = ⟨f, m0.scope, false⟩ := closure_of_declared ends made
      obtain ⟨c', k, ⟨_, c'', declared⟩, within⟩ := ih
      cases declared with
      | @function _ d _ _ declaration =>
          have around := within.introduce declaration.spelled.2
          have resolved : FunctionDecl.Resolved false .function (c'.introduce d.name.lexeme) d
              g.closure.declaration := by
            rw [same]
            exact declaration
          have inside : Within c.scopes a.closure.scope (c'.introduce d.name.lexeme)
              g.closure.scope k := by
            rw [same]
            exact around
          exact g.body_lies resolved inside

end Owns

end Activation

/-! ## `this` and `super` in methods -/

section Methods

variable {clock : Nat → Float} {a : Activation} {b : Moment} {method : Closure} {n : Nat}
  {own : Option String} {keyword target : Token} {depth : Option Nat} {m : Machine} {o : Value}
  {s : Store Value}

theorem Placed.ne_nil {scopes : List Declared} {scope : Scope} (h : Placed s scopes scope) :
    scope ≠ [] := by
  cases h <;> nofun

/-- A frame with others around it is none of the global scope. -/
theorem Placed.inside {scopes : List Declared} {frame : Nat} {scope : Scope}
    (h : Placed s scopes (frame :: scope)) (more : scope ≠ []) :
    frame < s.frames.size ∧ ∃ scopes', Placed s scopes' scope := by
  cases h with
  | global => exact absurd rfl more
  | frame inside _ placed => exact ⟨inside, _, placed⟩

/-- Code of a method lies inside the frame in which the method finds `this`. -/
theorem Activation.Owns.lies_of_method (h : a.Owns clock b) (binds : a.closure.Binds method)
    (sound : method.SoundMethod s) :
    ∃ outer, b.point.Lies ([("this", .ready)] :: outer) a.closure.scope b.machine.scope := by
  obtain ⟨frame, same⟩ := binds
  obtain ⟨c, hasSuperclass, declaration, resolved, -, -⟩ := sound
  have resolved : FunctionDecl.Resolved false declaration.methodBody (c.inMethods hasSuperclass)
      declaration a.closure.declaration := by
    rw [same]
    exact resolved
  exact ⟨_, h.lies resolved⟩

theorem Within.depth_of_this {outer : List Declared} {scope scope' : Scope} {c : Context}
    {k distance : Nat} (h : Within ([("this", .ready)] :: outer) scope c scope' k)
    (sees : Sees c.scopes "this" distance .ready) : distance = k := by
  obtain ⟨j, rfl, found⟩ := h.sees (.inl rfl) sees
  have here : Sees ([("this", .ready)] :: outer) "this" 0 .ready := .here rfl
  rw [(found.unique here).1, Nat.add_zero]

/-- Wherever code of a method reads `this`, it reads the frame that the method is bound in. -/
theorem Activation.Owns.eval_this (h : a.Owns clock ⟨n + 1, .expr own (.this keyword depth), m⟩)
    (binds : a.closure.Binds method) (sound : method.SoundMethod s) (ha : a.body.Sound)
    (bound : a.body.machine.store.getAt? a.closure.scope 0 "this" = some o) :
    eval (n + 1) (.this keyword depth) m = .done o m := by
  obtain ⟨outer, c, k, ⟨_, resolved⟩, within⟩ := h.lies_of_method binds sound
  cases resolved with
  | @this _ distance spelled sees =>
      obtain rfl := within.depth_of_this sees
      have found := (h.steady ha).getAt? (.inl rfl) bound
      rw [← within.getAt?] at found
      rw [eval, lookUp_of_getAt?]
      rw [spelled]
      exact found

/-- The frame that a method is bound in is there when the body of the method runs. -/
theorem Activation.frame_inside {frame : Nat} (binds : a.closure.scope = frame :: method.scope)
    (sound : method.SoundMethod s) (ha : a.body.Sound) :
    frame < a.body.machine.store.frames.size := by
  obtain ⟨_, _, _, _, around, _⟩ := sound
  obtain ⟨_, _, _, _, _, ⟨placed, -⟩⟩ := ha.point
  have scope : a.body.machine.scope = _ := scope_of_entered a.enters
  rw [scope, binds] at placed
  obtain ⟨-, _, placed⟩ := placed.inside (List.cons_ne_nil _ _)
  exact (placed.inside around.ne_nil).1

/-- What code of a method finds when it evaluates `super`: the class bound around the method, and
the object that the method is bound to. -/
theorem Activation.Owns.eval_super {parent : Class}
    (h : a.Owns clock ⟨n + 1, .expr own (.super keyword depth target), m⟩)
    (binds : a.closure.Binds method) (sound : method.SoundMethod s) (ha : a.body.Sound)
    (above : a.body.machine.store.getAt? method.scope 0 "super" = some (.ofClass parent)) :
    ∃ id k, a.body.machine.store.getAt? a.closure.scope 0 "this" = some (.object id k) ∧
      eval (n + 1) (.super keyword depth target) m =
        boundMethod parent (.object id k) target m := by
  obtain ⟨outer, c, k, ⟨_, resolved⟩, within⟩ := h.lies_of_method binds sound
  obtain ⟨frame, same⟩ := binds
  have scope : a.closure.scope = frame :: method.scope := by rw [same]
  cases resolved with
  | @super _ _ distance _ receiver _ =>
      obtain rfl := within.depth_of_this receiver
      have steady := h.steady ha
      have parents : m.store.getAt? m.scope (distance + 1) "super" = some (.ofClass parent) := by
        rw [within.getAt?, scope, Store.getAt?_succ]
        exact steady.getAt? (.inr rfl) above
      -- The object is there because `super` is resolved, and since nothing rebinds `this` it has
      -- been there since the body was entered.
      obtain ⟨point, hm⟩ := h.sound ha
      obtain ⟨_, _, resolved, _, stands⟩ := point
      cases resolved with
      | super _ receiver _ =>
          obtain ⟨v, found⟩ := stands.placed.getAt? receiver
          obtain ⟨id, k, rfl⟩ := (HeapSound.getAt? hm found).2.1 rfl
          refine ⟨id, k, ?_, superMethod_of_found parents found⟩
          have inside := a.frame_inside scope sound ha
          rw [← Nat.add_zero distance, within.getAt?, scope, Store.getAt?_zero,
            steady.same inside (.inl rfl)] at found
          rw [scope, Store.getAt?_zero]
          exact found

end Methods

end LoxLang
