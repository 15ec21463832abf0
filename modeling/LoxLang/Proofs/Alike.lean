import LoxLang.Proofs.Correspondence

/-!
# Programs and machines that are alike

Two trees are alike if they have the same nodes, with tokens and depths that
are related in a way of one's own choosing. A `Likeness` is such a choice. It
may move a token to another line, but neither its kind nor its lexeme may
change, since evaluation looks at both.

Values are alike if they differ only in the trees that closures carry, and
machines if they hold values that are alike in the same places and agree on
everything else.
-/

namespace LoxLang

/-- Which tokens stand for each other, and which depths. -/
structure Likeness where
  token : Token → Token → Prop
  depth : Option Nat → Option Nat → Prop
  kind_eq : ∀ {t t'}, token t t' → t.kind = t'.kind
  lexeme_eq : ∀ {t t'}, token t t' → t.lexeme = t'.lexeme

variable (L : Likeness)

/-! ## Trees -/

mutual

/-- The expressions have the same nodes. -/
inductive Expr.Alike : Expr → Expr → Prop
  | literal (value : Literal) : Expr.Alike (.literal value) (.literal value)
  | group {e e' : Expr} (inner : Expr.Alike e e') : Expr.Alike (.group e) (.group e')
  | unary {t t' : Token} {e e' : Expr} (operator : L.token t t') (operand : Expr.Alike e e') :
      Expr.Alike (.unary t e) (.unary t' e')
  | binary {l l' r r' : Expr} {t t' : Token} (left : Expr.Alike l l') (operator : L.token t t')
      (right : Expr.Alike r r') : Expr.Alike (.binary l t r) (.binary l' t' r')
  | logical {l l' r r' : Expr} {t t' : Token} (left : Expr.Alike l l') (operator : L.token t t')
      (right : Expr.Alike r r') : Expr.Alike (.logical l t r) (.logical l' t' r')
  | name {x x' : Token} {d d' : Option Nat} (name : L.token x x') (depth : L.depth d d') :
      Expr.Alike (.name x d) (.name x' d')
  | assign {x x' : Token} {d d' : Option Nat} {v v' : Expr} (name : L.token x x')
      (depth : L.depth d d') (value : Expr.Alike v v') :
      Expr.Alike (.assign x d v) (.assign x' d' v')
  | call {f f' : Expr} {t t' : Token} {es es' : List Expr} (callee : Expr.Alike f f')
      (paren : L.token t t') (arguments : Expr.AllAlike es es') :
      Expr.Alike (.call f t es) (.call f' t' es')
  | get {o o' : Expr} {x x' : Token} (object : Expr.Alike o o') (property : L.token x x') :
      Expr.Alike (.get o x) (.get o' x')
  | set {o o' v v' : Expr} {x x' : Token} (object : Expr.Alike o o') (property : L.token x x')
      (value : Expr.Alike v v') : Expr.Alike (.set o x v) (.set o' x' v')
  | this {t t' : Token} {d d' : Option Nat} (keyword : L.token t t') (depth : L.depth d d') :
      Expr.Alike (.this t d) (.this t' d')
  | super {t t' x x' : Token} {d d' : Option Nat} (keyword : L.token t t') (depth : L.depth d d')
      (method : L.token x x') : Expr.Alike (.super t d x) (.super t' d' x')

inductive Expr.AllAlike : List Expr → List Expr → Prop
  | nil : Expr.AllAlike [] []
  | cons {e e' : Expr} {es es' : List Expr} (head : Expr.Alike e e')
      (tail : Expr.AllAlike es es') : Expr.AllAlike (e :: es) (e' :: es')

end

mutual

/-- The statements have the same nodes. -/
inductive Stmt.Alike : Stmt → Stmt → Prop
  | expr {e e' : Expr} (value : e.Alike L e') : Stmt.Alike (.expr e) (.expr e')
  | print {e e' : Expr} (value : e.Alike L e') : Stmt.Alike (.print e) (.print e')
  | var {x x' : Token} {i i' : Option Expr} (name : L.token x x')
      (initial : Option.Rel (Expr.Alike L) i i') : Stmt.Alike (.var x i) (.var x' i')
  | block {ss ss' : List Stmt} (body : Stmt.AllAlike ss ss') : Stmt.Alike (.block ss) (.block ss')
  | ifThen {e e' : Expr} {s s' : Stmt} (condition : e.Alike L e') (consequent : Stmt.Alike s s') :
      Stmt.Alike (.ifThen e s) (.ifThen e' s')
  | ifElse {e e' : Expr} {s s' o o' : Stmt} (condition : e.Alike L e')
      (consequent : Stmt.Alike s s') (alternative : Stmt.Alike o o') :
      Stmt.Alike (.ifElse e s o) (.ifElse e' s' o')
  | whileDo {e e' : Expr} {s s' : Stmt} (condition : e.Alike L e') (body : Stmt.Alike s s') :
      Stmt.Alike (.whileDo e s) (.whileDo e' s')
  | function {f f' : FunctionDecl} (declaration : FunctionDecl.Alike f f') :
      Stmt.Alike (.function f) (.function f')
  | returning {t t' : Token} {e e' : Option Expr} (keyword : L.token t t')
      (value : Option.Rel (Expr.Alike L) e e') : Stmt.Alike (.returning t e) (.returning t' e')
  | classDecl {x x' : Token} {e e' : Option Expr} {fs fs' : List FunctionDecl}
      (name : L.token x x') (superclass : Option.Rel (Expr.Alike L) e e')
      (methods : FunctionDecl.AllAlike fs fs') :
      Stmt.Alike (.classDecl x e fs) (.classDecl x' e' fs')

inductive Stmt.AllAlike : List Stmt → List Stmt → Prop
  | nil : Stmt.AllAlike [] []
  | cons {s s' : Stmt} {ss ss' : List Stmt} (head : Stmt.Alike s s')
      (tail : Stmt.AllAlike ss ss') : Stmt.AllAlike (s :: ss) (s' :: ss')

/-- The functions have the same nodes. -/
inductive FunctionDecl.Alike : FunctionDecl → FunctionDecl → Prop
  | mk {x x' : Token} {ps ps' : List Token} {ss ss' : List Stmt} (name : L.token x x')
      (parameters : List.Forall₂ L.token ps ps') (body : Stmt.AllAlike ss ss') :
      FunctionDecl.Alike ⟨x, ps, ss⟩ ⟨x', ps', ss'⟩

inductive FunctionDecl.AllAlike : List FunctionDecl → List FunctionDecl → Prop
  | nil : FunctionDecl.AllAlike [] []
  | cons {f f' : FunctionDecl} {fs fs' : List FunctionDecl} (head : FunctionDecl.Alike f f')
      (tail : FunctionDecl.AllAlike fs fs') : FunctionDecl.AllAlike (f :: fs) (f' :: fs')

end

/-! ## Values -/

/-- The closures have the same nodes and the same scope. -/
structure Closure.Alike (f f' : Closure) : Prop where
  declaration : f.declaration.Alike L f'.declaration
  scope : f.scope = f'.scope
  isInitializer : f.isInitializer = f'.isInitializer

structure ClassLayer.Alike (k k' : ClassLayer) : Prop where
  id : k.id = k'.id
  name : k.name = k'.name
  methods : List.Forall₂ (fun entry entry' => entry.1 = entry'.1 ∧ entry.2.Alike L entry'.2)
    k.methods k'.methods

/-- The classes have the same methods, and so do their superclasses. -/
def Class.Alike (k k' : Class) : Prop := List.Forall₂ (ClassLayer.Alike L) k.layers k'.layers

/-- The values are the same but for the trees of closures. -/
inductive Value.Alike : Value → Value → Prop
  | nil : Value.Alike .nil .nil
  | bool (b : Bool) : Value.Alike (.bool b) (.bool b)
  | number (x : Float) : Value.Alike (.number x) (.number x)
  | string (s : String) : Value.Alike (.string s) (.string s)
  | clock : Value.Alike .clock .clock
  | function {id : Nat} {f f' : Closure} (closure : f.Alike L f') :
      Value.Alike (.function id f) (.function id f')
  | ofClass {k k' : Class} (ofClass : k.Alike L k') : Value.Alike (.ofClass k) (.ofClass k')
  | object {id : Nat} {k k' : Class} (ofClass : k.Alike L k') :
      Value.Alike (.object id k) (.object id k')

inductive Flow.Alike : Flow → Flow → Prop
  | next : Flow.Alike .next .next
  | returned {v v' : Value} (value : v.Alike L v') : Flow.Alike (.returned v) (.returned v')

inductive Callable.Alike : Callable → Callable → Prop
  | clock : Callable.Alike .clock .clock
  | closure {f f' : Closure} (closure : f.Alike L f') : Callable.Alike (.closure f) (.closure f')
  | construct {k k' : Class} (ofClass : k.Alike L k') : Callable.Alike (.construct k) (.construct k')

/-! ## Machines -/

/-- The tables bind the same names, to values that are alike. -/
structure Store.Alike (s s' : Store Value) : Prop where
  size : s.frames.size = s'.frames.size
  read : ∀ frame x, Option.Rel (Value.Alike L) (s.read? frame x) (s'.read? frame x)

/-- Everything that a machine holds besides bindings and fields. -/
def Machine.rest (m : Machine) : Scope × Nat × Nat × Array String × (Nat → Float) × Nat :=
  (m.scope, m.calls, m.nextId, m.printed, m.clock, m.readings)

/-- The machines hold values that are alike, in scopes and in the fields of objects, and are the same
otherwise. -/
structure Machine.Alike (m m' : Machine) : Prop where
  store : m.store.Alike L m'.store
  fields : Store.Alike L ⟨m.fields⟩ ⟨m'.fields⟩
  rest : m.rest = m'.rest

/-- The errors are the same, at tokens that stand for each other. -/
structure Located.Alike {ε : Type} (e e' : Located ε) : Prop where
  token : L.token e.token e'.token
  error : e.error = e'.error

/-- The actions have ended alike. -/
inductive Outcome.Alike {α β : Type} (post : α → β → Prop) :
    Outcome Machine α → Outcome Machine β → Prop
  | done {a : α} {b : β} {m m' : Machine} (value : post a b) (machine : m.Alike L m') :
      Outcome.Alike post (.done a m) (.done b m')
  | failed {e e' : Located Fault} {m m' : Machine} (fault : e.Alike L e')
      (machine : m.Alike L m') : Outcome.Alike post (.failed e m) (.failed e' m')
  | exhausted : Outcome.Alike post .exhausted .exhausted

variable {L}

namespace Outcome.Alike

variable {α β : Type} {post : α → β → Prop} {o : Outcome Machine β} {m : Machine}

theorem of_done {a : α} (h : Outcome.Alike L post (.done a m) o) :
    ∃ b m', o = .done b m' ∧ post a b ∧ m.Alike L m' := by
  cases h with
  | done value machine => exact ⟨_, _, rfl, value, machine⟩

theorem of_failed {e : Located Fault} (h : Outcome.Alike L post (.failed e m : Outcome _ α) o) :
    ∃ e' m', o = .failed e' m' ∧ e.Alike L e' ∧ m.Alike L m' := by
  cases h with
  | failed fault machine => exact ⟨_, _, rfl, fault, machine⟩

end Outcome.Alike

/-! ## What is the same -/

theorem Expr.AllAlike.length_eq : ∀ {es es' : List Expr}, Expr.AllAlike L es es' →
    es.length = es'.length
  | _, _, .nil => rfl
  | _, _, .cons _ tail => congrArg (· + 1) tail.length_eq

theorem FunctionDecl.Alike.name {f f' : FunctionDecl} (h : f.Alike L f') :
    L.token f.name f'.name := by
  cases h with
  | mk name => exact name

theorem FunctionDecl.Alike.parameters {f f' : FunctionDecl} (h : f.Alike L f') :
    List.Forall₂ L.token f.parameters f'.parameters := by
  cases h with
  | mk _ parameters => exact parameters

theorem FunctionDecl.Alike.body {f f' : FunctionDecl} (h : f.Alike L f') :
    Stmt.AllAlike L f.body f'.body := by
  cases h with
  | mk _ _ body => exact body

theorem FunctionDecl.Alike.isInitializer_eq {f f' : FunctionDecl} (h : f.Alike L f') :
    f.isInitializer = f'.isInitializer := by
  rw [FunctionDecl.isInitializer, L.lexeme_eq h.name, FunctionDecl.isInitializer]

theorem FunctionDecl.AllAlike.forall₂ : ∀ {fs fs' : List FunctionDecl},
    FunctionDecl.AllAlike L fs fs' → List.Forall₂ (FunctionDecl.Alike L) fs fs'
  | _, _, .nil => .nil
  | _, _, .cons head tail => .cons head tail.forall₂

theorem Class.Alike.own {k k' : Class} (h : k.Alike L k') : k.own.Alike L k'.own :=
  (List.forall₂_cons.1 h).1

namespace Value.Alike

variable {v v' u u' : Value}

theorem truthy_eq (h : v.Alike L v') : v.truthy = v'.truthy := by
  cases h <;> rfl

theorem text_eq (h : v.Alike L v') : v.text = v'.text := by
  cases h with
  | bool b => cases b <;> rfl
  | function closure => rw [Value.text, Value.text, L.lexeme_eq closure.declaration.name]
  | ofClass h => exact h.own.name
  | object h => rw [Value.text, Value.text, h.own.name]
  | _ => rfl

theorem same_eq (h : v.Alike L v') (hu : u.Alike L u') : v.same u = v'.same u' := by
  cases h with
  | ofClass h =>
      cases hu with
      | ofClass hu => rw [Value.same, Value.same, h.own.id, hu.own.id]
      | _ => rfl
  | _ => cases hu <;> rfl

theorem callable (h : v.Alike L v') :
    Option.Rel (Callable.Alike L) v.callable? v'.callable? := by
  cases h with
  | clock => exact .some .clock
  | function closure => exact .some (.closure closure)
  | ofClass h => exact .some (.construct h)
  | _ => exact .none

end Value.Alike

/-! ## Operators -/

/-- What operators make is data: it holds no trees, so it is like itself only. -/
inductive Value.IsData : Value → Prop
  | bool (b : Bool) : Value.IsData (.bool b)
  | number (x : Float) : Value.IsData (.number x)
  | string (s : String) : Value.IsData (.string s)

theorem Value.IsData.alike {v : Value} (h : v.IsData) : v.Alike L v := by
  cases h with
  | bool b => exact .bool b
  | number x => exact .number x
  | string s => exact .string s

theorem Value.unary_isData {operator : Token.Kind} {v u : Value}
    (h : v.unary operator = .ok u) : u.IsData := by
  unfold Value.unary at h
  split at h <;> cases h
  · exact .number _
  · exact .bool _

theorem Value.numeric_isData {f : Float → Float → Value} (hf : ∀ x y, (f x y).IsData)
    {v w u : Value} (h : Value.numeric f v w = .ok u) : u.IsData := by
  unfold Value.numeric at h
  split at h <;> cases h
  exact hf _ _

theorem Value.add_isData {v w u : Value} (h : v.add w = .ok u) : u.IsData := by
  unfold Value.add at h
  split at h <;> cases h
  · exact .number _
  · exact .string _

theorem Value.binary_isData {operator : Token.Kind} {v w u : Value}
    (h : v.binary operator w = .ok u) : u.IsData := by
  unfold Value.binary at h
  split at h
  · exact Value.add_isData h
  · exact Value.numeric_isData (fun _ _ => .number _) h
  · exact Value.numeric_isData (fun _ _ => .number _) h
  · exact Value.numeric_isData (fun _ _ => .number _) h
  · exact Value.numeric_isData (fun _ _ => .bool _) h
  · exact Value.numeric_isData (fun _ _ => .bool _) h
  · exact Value.numeric_isData (fun _ _ => .bool _) h
  · exact Value.numeric_isData (fun _ _ => .bool _) h
  · cases h
    exact .bool _
  · cases h
    exact .bool _
  · cases h

namespace Value.Alike

variable {v v' u u' : Value}

theorem unary_eq (h : v.Alike L v') (operator : Token.Kind) :
    v.unary operator = v'.unary operator := by
  by_cases minus : operator = .symbol .minus
  · subst minus
    cases h <;> rfl
  by_cases bang : operator = .symbol .bang
  · subst bang
    cases h <;> rfl
  · rw [Value.unary_of_ne v minus bang, Value.unary_of_ne v' minus bang]

theorem numeric_eq (h : v.Alike L v') (hu : u.Alike L u') (f : Float → Float → Value) :
    Value.numeric f v u = Value.numeric f v' u' := by
  cases h <;> cases hu <;> rfl

theorem add_eq (h : v.Alike L v') (hu : u.Alike L u') : v.add u = v'.add u' := by
  cases h <;> cases hu <;> rfl

theorem binary_eq (h : v.Alike L v') (hu : u.Alike L u') (operator : Token.Kind) :
    v.binary operator u = v'.binary operator u' := by
  simp only [Value.binary, h.add_eq hu, h.numeric_eq hu, h.same_eq hu]

theorem shortCircuits_eq (h : v.Alike L v') {t t' : Token} (ht : L.token t t') :
    v.shortCircuits t = v'.shortCircuits t' := by
  rw [Value.shortCircuits, Value.shortCircuits, h.truthy_eq, Token.isSymbol, Token.isSymbol,
    L.kind_eq ht]

end Value.Alike

/-! ## Methods -/

theorem lookup_alike {ms ms' : List (String × Closure)}
    (h : List.Forall₂ (fun entry entry' => entry.1 = entry'.1 ∧ entry.2.Alike L entry'.2) ms ms')
    (x : String) : Option.Rel (Closure.Alike L) (ms.lookup x) (ms'.lookup x) := by
  induction h with
  | nil => exact .none
  | @cons entry entry' _ _ h _ ih =>
      obtain ⟨y, f⟩ := entry
      obtain ⟨z, g⟩ := entry'
      obtain ⟨rfl, h⟩ := h
      rw [List.lookup_cons, List.lookup_cons]
      cases x == y with
      | true => exact .some h
      | false => exact ih

theorem Class.Alike.method {k k' : Class} (h : k.Alike L k') (x : String) :
    Option.Rel (Closure.Alike L) (k.method? x) (k'.method? x) := by
  unfold Class.Alike at h
  unfold Class.method?
  generalize k.layers = layers, k'.layers = layers' at h
  induction h with
  | nil => exact .none
  | cons h _ ih =>
      rw [List.findSome?_cons, List.findSome?_cons]
      rcases rel_cases (lookup_alike h.methods x) with ⟨h₁, h₂⟩ | ⟨f, g, h₁, h₂, hf⟩
      · rw [h₁, h₂]
        exact ih
      · rw [h₁, h₂]
        exact .some hf

theorem Class.Alike.initializer {k k' : Class} (h : k.Alike L k') :
    Option.Rel (Closure.Alike L) k.initializer? k'.initializer? := h.method initializerName

theorem Callable.Alike.arity_eq {f f' : Callable} (h : f.Alike L f') : f.arity = f'.arity := by
  cases h with
  | clock => rfl
  | closure h => exact h.declaration.parameters.length_eq
  | construct h =>
      simp only [Callable.arity]
      rcases rel_cases h.initializer with ⟨h₁, h₂⟩ | ⟨f, g, h₁, h₂, hf⟩
      · rw [h₁, h₂]
      · rw [h₁, h₂]
        exact hf.declaration.parameters.length_eq

end LoxLang
