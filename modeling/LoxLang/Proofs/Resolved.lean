import LoxLang.Proofs.Contexts
import LoxLang.Proofs.Formed
import LoxLang.Resolution.Passes

/-!
# What resolution establishes

Resolution computes depths in one walk and reports errors in another. The
relations of this file say what the two give together for a formed program
without errors: `Expr.Resolved c e e'` holds if `e'` is `e` with its depths,
seen from the context `c`, and it keeps at each node what evaluation relies on
there. An occurrence with a depth leads to a scope that declares its name and
has it ready, and no scope further in declares it. An occurrence without one
is declared nowhere.

There is one gap. Reading a variable in its own initializer is an error, but
assigning to it is not, so an assignment may lead to a name that is pending.
The flag of the relations says whether that is ruled out.
-/

namespace LoxLang

/-! ## Assignments to pending names -/

mutual

/-- Does the expression assign to the name? -/
def Expr.assigns (x : String) : Expr → Bool
  | .literal _ | .name .. | .this .. | .super .. => false
  | .group inner => inner.assigns x
  | .unary _ operand => operand.assigns x
  | .binary left _ right => left.assigns x || right.assigns x
  | .logical left _ right => left.assigns x || right.assigns x
  | .assign y _ value => y.lexeme == x || value.assigns x
  | .call callee _ arguments => callee.assigns x || Expr.assignsAny x arguments
  | .get object _ => object.assigns x
  | .set object _ value => object.assigns x || value.assigns x

/-- Does one of the expressions assign to the name? -/
def Expr.assignsAny (x : String) : List Expr → Bool
  | [] => false
  | e :: es => e.assigns x || Expr.assignsAny x es

end

mutual

/-- Does a variable declared by the statement, or in it, have an initializer that assigns to that
very variable? Global variables do not count; `inScope` says whether the statement stands in any
scope but the global one. -/
def Stmt.assignsOwn (inScope : Bool) : Stmt → Bool
  | .var name initial => inScope && initial.any (·.assigns name.lexeme)
  | .block body => Stmt.assignsOwnAny true body
  | .ifThen _ consequent => consequent.assignsOwn inScope
  | .ifElse _ consequent alternative =>
    consequent.assignsOwn inScope || alternative.assignsOwn inScope
  | .whileDo _ body => body.assignsOwn inScope
  | .function declaration => declaration.assignsOwn
  | .classDecl _ _ methods => FunctionDecl.assignsOwnAny methods
  | .expr _ | .print _ | .returning .. => false

/-- The same for statements. -/
def Stmt.assignsOwnAny (inScope : Bool) : List Stmt → Bool
  | [] => false
  | s :: ss => s.assignsOwn inScope || Stmt.assignsOwnAny inScope ss

/-- The same for the body of a function. -/
def FunctionDecl.assignsOwn : FunctionDecl → Bool
  | ⟨_, _, body⟩ => Stmt.assignsOwnAny true body

/-- The same for the bodies of functions. -/
def FunctionDecl.assignsOwnAny : List FunctionDecl → Bool
  | [] => false
  | f :: fs => f.assignsOwn || FunctionDecl.assignsOwnAny fs

end

/-! ## Resolved trees -/

mutual

/-- The second expression is the first with its depths, seen from the context. With `strict`, no
assignment in it is to a pending name. -/
inductive Expr.Resolved (strict : Bool) (c : Context) : Expr → Expr → Prop
  | literal {value : Literal} : Expr.Resolved strict c (.literal value) (.literal value)
  | group {e e' : Expr} (inner : Expr.Resolved strict c e e') :
      Expr.Resolved strict c (.group e) (.group e')
  | unary {operator : Token} {e e' : Expr} (operand : Expr.Resolved strict c e e') :
      Expr.Resolved strict c (.unary operator e) (.unary operator e')
  | binary {l l' r r' : Expr} {operator : Token} (left : Expr.Resolved strict c l l')
      (right : Expr.Resolved strict c r r') :
      Expr.Resolved strict c (.binary l operator r) (.binary l' operator r')
  | logical {l l' r r' : Expr} {operator : Token} (left : Expr.Resolved strict c l l')
      (right : Expr.Resolved strict c r r') :
      Expr.Resolved strict c (.logical l operator r) (.logical l' operator r')
  | name {x : Token} {depth : Option Nat} (isName : x.IsName)
      (refers : c.Refers x.lexeme depth) :
      Expr.Resolved strict c (.name x none) (.name x depth)
  | assign {x : Token} {depth : Option Nat} {e e' : Expr} (isName : x.IsName)
      (refers : c.Refers x.lexeme depth) (value : Expr.Resolved strict c e e') :
      Expr.Resolved strict c (.assign x none e) (.assign x depth e')
  | assignOwn {x : Token} {e e' : Expr} (lax : strict = false)
      (isName : x.IsName) (pending : Sees c.scopes x.lexeme 0 .pending)
      (value : Expr.Resolved strict c e e') :
      Expr.Resolved strict c (.assign x none e) (.assign x (some 0) e')
  | call {f f' : Expr} {paren : Token} {es es' : List Expr}
      (callee : Expr.Resolved strict c f f') (arguments : Expr.ResolvedAll strict c es es') :
      Expr.Resolved strict c (.call f paren es) (.call f' paren es')
  | get {e e' : Expr} {property : Token} (object : Expr.Resolved strict c e e') :
      Expr.Resolved strict c (.get e property) (.get e' property)
  | set {e e' r r' : Expr} {property : Token} (object : Expr.Resolved strict c e e')
      (value : Expr.Resolved strict c r r') :
      Expr.Resolved strict c (.set e property r) (.set e' property r')
  | this {keyword : Token} {depth : Nat} (spelled : keyword.lexeme = "this")
      (sees : Sees c.scopes "this" depth .ready) :
      Expr.Resolved strict c (.this keyword none) (.this keyword (some depth))
  | super {keyword method : Token} {depth : Nat} (spelled : keyword.lexeme = "super")
      (receiver : Sees c.scopes "this" depth .ready)
      (parent : Sees c.scopes "super" (depth + 1) .ready) :
      Expr.Resolved strict c (.super keyword none method)
        (.super keyword (some (depth + 1)) method)

/-- The same for expressions one by one. -/
inductive Expr.ResolvedAll (strict : Bool) (c : Context) : List Expr → List Expr → Prop
  | nil : Expr.ResolvedAll strict c [] []
  | cons {e e' : Expr} {es es' : List Expr} (head : Expr.Resolved strict c e e')
      (tail : Expr.ResolvedAll strict c es es') : Expr.ResolvedAll strict c (e :: es) (e' :: es')

end

mutual

/-- The second statement is the first with its depths, seen from the first context, and the second
context is the one behind it. -/
inductive Stmt.Resolved (strict : Bool) : Context → Stmt → Stmt → Context → Prop
  | expr {c : Context} {e e' : Expr} (value : Expr.Resolved strict c e e') :
      Stmt.Resolved strict c (.expr e) (.expr e') c
  | print {c : Context} {e e' : Expr} (value : Expr.Resolved strict c e e') :
      Stmt.Resolved strict c (.print e) (.print e') c
  | bare {c : Context} {x : Token} (isName : x.IsName) (fresh : c.declaresHere x.lexeme = false) :
      Stmt.Resolved strict c (.var x none) (.var x none) (c.introduce x.lexeme)
  | var {c : Context} {x : Token} {e e' : Expr} (isName : x.IsName)
      (fresh : c.declaresHere x.lexeme = false)
      (initial : Expr.Resolved strict (c.declare x.lexeme) e e') :
      Stmt.Resolved strict c (.var x (some e)) (.var x (some e')) (c.introduce x.lexeme)
  | block {c c' : Context} {ss ss' : List Stmt} (body : Stmt.ResolvedAll strict c.enter ss ss' c') :
      Stmt.Resolved strict c (.block ss) (.block ss') c
  | ifThen {c : Context} {e e' : Expr} {s s' : Stmt} (test : Expr.Resolved strict c e e')
      (consequent : Stmt.Resolved strict c s s' c) :
      Stmt.Resolved strict c (.ifThen e s) (.ifThen e' s') c
  | ifElse {c : Context} {e e' : Expr} {s s' r r' : Stmt} (test : Expr.Resolved strict c e e')
      (consequent : Stmt.Resolved strict c s s' c) (alternative : Stmt.Resolved strict c r r' c) :
      Stmt.Resolved strict c (.ifElse e s r) (.ifElse e' s' r') c
  | whileDo {c : Context} {e e' : Expr} {s s' : Stmt} (test : Expr.Resolved strict c e e')
      (body : Stmt.Resolved strict c s s' c) :
      Stmt.Resolved strict c (.whileDo e s) (.whileDo e' s') c
  | function {c : Context} {f f' : FunctionDecl} (fresh : c.declaresHere f.name.lexeme = false)
      (declaration : FunctionDecl.Resolved strict .function (c.introduce f.name.lexeme) f f') :
      Stmt.Resolved strict c (.function f) (.function f') (c.introduce f.name.lexeme)
  | bareReturn {c : Context} {keyword : Token} (inside : c.body ≠ .topLevel) :
      Stmt.Resolved strict c (.returning keyword none) (.returning keyword none) c
  | returning {c : Context} {keyword : Token} {e e' : Expr} (inside : c.body ≠ .topLevel)
      (notInitializer : c.body ≠ .initializer) (value : Expr.Resolved strict c e e') :
      Stmt.Resolved strict c (.returning keyword (some e)) (.returning keyword (some e')) c
  | rootClass {c : Context} {x : Token} {ms ms' : List FunctionDecl} (isName : x.IsName)
      (fresh : c.declaresHere x.lexeme = false)
      (methods : FunctionDecl.ResolvedAll strict ((c.introduce x.lexeme).inMethods false) ms ms') :
      Stmt.Resolved strict c (.classDecl x none ms) (.classDecl x none ms')
        (c.introduce x.lexeme)
  | subclass {c : Context} {x y : Token} {depth : Option Nat} {ms ms' : List FunctionDecl}
      (isName : x.IsName) (fresh : c.declaresHere x.lexeme = false)
      (superclass : Expr.Resolved strict (c.introduce x.lexeme) (.name y none) (.name y depth))
      (other : y.lexeme ≠ x.lexeme)
      (methods : FunctionDecl.ResolvedAll strict ((c.introduce x.lexeme).inMethods true) ms ms') :
      Stmt.Resolved strict c (.classDecl x (some (.name y none)) ms)
        (.classDecl x (some (.name y depth)) ms') (c.introduce x.lexeme)

/-- The same for statements one after another. -/
inductive Stmt.ResolvedAll (strict : Bool) : Context → List Stmt → List Stmt → Context → Prop
  | nil {c : Context} : Stmt.ResolvedAll strict c [] [] c
  | cons {c c' c'' : Context} {s s' : Stmt} {ss ss' : List Stmt}
      (head : Stmt.Resolved strict c s s' c') (tail : Stmt.ResolvedAll strict c' ss ss' c'') :
      Stmt.ResolvedAll strict c (s :: ss) (s' :: ss') c''

/-- The same for a function: its body is seen from a fresh scope that holds its parameters. -/
inductive FunctionDecl.Resolved (strict : Bool) :
    Body → Context → FunctionDecl → FunctionDecl → Prop
  | mk {kind : Body} {c c' : Context} {x : Token} {ps : List Token} {ss ss' : List Stmt}
      (isName : x.IsName) (names : ∀ p ∈ ps, p.IsName)
      (distinct : { c.enter with body := kind }.parameterErrors ps = [])
      (body : Stmt.ResolvedAll strict (c.inFunction kind ps) ss ss' c') :
      FunctionDecl.Resolved strict kind c ⟨x, ps, ss⟩ ⟨x, ps, ss'⟩

/-- The same for the methods of a class. -/
inductive FunctionDecl.ResolvedAll (strict : Bool) : Context → List FunctionDecl →
    List FunctionDecl → Prop
  | nil {c : Context} : FunctionDecl.ResolvedAll strict c [] []
  | cons {c : Context} {f f' : FunctionDecl} {fs fs' : List FunctionDecl}
      (head : FunctionDecl.Resolved strict f.methodBody c f f')
      (tail : FunctionDecl.ResolvedAll strict c fs fs') :
      FunctionDecl.ResolvedAll strict c (f :: fs) (f' :: fs')

end

theorem FunctionDecl.ResolvedAll.of_mem {strict : Bool} {c : Context} {f' : FunctionDecl} :
    ∀ {fs fs' : List FunctionDecl}, FunctionDecl.ResolvedAll strict c fs fs' → f' ∈ fs' →
    ∃ f, FunctionDecl.Resolved strict f.methodBody c f f'
  | _, _, .cons head tail, hf => by
      rcases List.mem_cons.1 hf with rfl | hf
      · exact ⟨_, head⟩
      · exact tail.of_mem hf

/-- Depths do not turn a method into an initializer. -/
theorem FunctionDecl.Resolved.isInitializer_eq {strict : Bool} {kind : Body} {c : Context}
    {f f' : FunctionDecl} (h : FunctionDecl.Resolved strict kind c f f') :
    f'.isInitializer = f.isInitializer := by
  cases h
  rfl

theorem FunctionDecl.Resolved.spelled {strict : Bool} {kind : Body} {c : Context}
    {f f' : FunctionDecl} (h : FunctionDecl.Resolved strict kind c f f') :
    f'.name = f.name ∧ f.name.IsName := by
  cases h with
  | mk isName => exact ⟨rfl, isName⟩

theorem FunctionDecl.Resolved.parameters_eq {strict : Bool} {kind : Body} {c : Context}
    {f f' : FunctionDecl} (h : FunctionDecl.Resolved strict kind c f f') :
    f'.parameters = f.parameters := by
  cases h
  rfl

/-! ## Resolution gives resolved trees -/

/-- No pending name, hence no assignment to one. -/
theorem Context.Sound.not_pending {c : Context} (h : c.Sound) {strict : Bool} (e : Expr) :
    strict = true → ∀ x, c.isPending x = true → e.assigns x = false := by
  intro _ x hp
  rw [h.isPending_eq x] at hp
  cases hp

section

variable {strict : Bool}

mutual

theorem Expr.resolved {c : Context} (hc : c.Calm) : ∀ {e : Expr}, e.Formed → e.errors c = [] →
    (strict = true → ∀ x, c.isPending x = true → e.assigns x = false) →
    e.Resolved strict c (e.annotate c)
  | .literal _, _, _, _ => .literal
  | .group inner, formed, clean, own => .group (Expr.resolved hc formed clean own)
  | .unary _ operand, formed, clean, own => .unary (Expr.resolved hc formed clean own)
  | .binary l _ r, ⟨fl, fr⟩, clean, own => by
      obtain ⟨cl, cr⟩ := List.append_eq_nil_iff.1 clean
      exact .binary (Expr.resolved hc fl cl fun hs x hx => (Bool.or_eq_false_iff.1 (own hs x hx)).1)
        (Expr.resolved hc fr cr fun hs x hx => (Bool.or_eq_false_iff.1 (own hs x hx)).2)
  | .logical l _ r, ⟨fl, fr⟩, clean, own => by
      obtain ⟨cl, cr⟩ := List.append_eq_nil_iff.1 clean
      exact .logical
        (Expr.resolved hc fl cl fun hs x hx => (Bool.or_eq_false_iff.1 (own hs x hx)).1)
        (Expr.resolved hc fr cr fun hs x hx => (Bool.or_eq_false_iff.1 (own hs x hx)).2)
  | .name x _, ⟨isName, rfl⟩, clean, _ => by
      refine .name isName (hc.refers ?_)
      have h := (List.append_eq_nil_iff.1 clean).1
      unfold Context.ownInitializerError at h
      split at h
      · cases h
      · next hp => exact Bool.eq_false_iff.2 hp
  | .assign x _ value, ⟨isName, rfl, fv⟩, clean, own => by
      have value := Expr.resolved hc fv (List.append_eq_nil_iff.1 clean).1
        fun hs x hx => (Bool.or_eq_false_iff.1 (own hs x hx)).2
      cases hp : c.isPending x.lexeme with
      | false => exact .assign isName (hc.refers hp) value
      | true =>
          have lax : strict = false := by
            cases strict with
            | false => rfl
            | true => simpa using (Bool.or_eq_false_iff.1 (own rfl _ hp)).1
          have pending := Context.sees_of_isPending hp
          show Expr.Resolved strict c _ (.assign x (c.depthOf? x.lexeme) _)
          rw [pending.depthOf?_eq]
          exact .assignOwn lax isName pending value
  | .call callee _ arguments, ⟨ff, fa⟩, clean, own => by
      obtain ⟨cf, ca⟩ := List.append_eq_nil_iff.1 clean
      exact .call (Expr.resolved hc ff cf fun hs x hx => (Bool.or_eq_false_iff.1 (own hs x hx)).1)
        (Expr.resolvedAll hc fa ca fun hs x hx => (Bool.or_eq_false_iff.1 (own hs x hx)).2)
  | .get object _, formed, clean, own => .get (Expr.resolved hc formed clean own)
  | .set object _ value, ⟨fo, fv⟩, clean, own => by
      obtain ⟨cv, co⟩ := List.append_eq_nil_iff.1 clean
      exact .set (Expr.resolved hc fo co fun hs x hx => (Bool.or_eq_false_iff.1 (own hs x hx)).1)
        (Expr.resolved hc fv cv fun hs x hx => (Bool.or_eq_false_iff.1 (own hs x hx)).2)
  | .this keyword _, ⟨spelled, rfl⟩, clean, _ => by
      have inside : c.classBody ≠ .outside := by
        intro h
        simp [Expr.errors, Context.thisErrors, h] at clean
      obtain ⟨depth, sees⟩ := hc.receiver inside
      have : c.annotatedThis none keyword = some depth := by
        rw [Context.annotatedThis, if_neg inside, Context.annotated, spelled]
        exact sees.depthOf?_eq
      rw [Expr.annotate, this]
      exact .this spelled sees
  | .super keyword _ _, ⟨spelled, rfl⟩, clean, _ => by
      have inside : c.classBody = .derived := by
        unfold Expr.errors Context.superErrors at clean
        split at clean
        · cases clean
        · cases clean
        · assumption
      obtain ⟨depth, receiver, parent⟩ := hc.parent inside
      have : c.annotatedSuper none keyword = some (depth + 1) := by
        rw [Context.annotatedSuper, if_pos inside, Context.annotated, spelled]
        exact parent.depthOf?_eq
      rw [Expr.annotate, this]
      exact .super spelled receiver parent

theorem Expr.resolvedAll {c : Context} (hc : c.Calm) : ∀ {es : List Expr}, Expr.FormedAll es →
    Expr.errorsAll c es = [] →
    (strict = true → ∀ x, c.isPending x = true → Expr.assignsAny x es = false) →
    Expr.ResolvedAll strict c es (Expr.annotateAll c es)
  | [], _, _, _ => .nil
  | e :: es, ⟨fe, fs⟩, clean, own => by
      obtain ⟨ce, cs⟩ := List.append_eq_nil_iff.1 clean
      exact .cons (Expr.resolved hc fe ce fun hs x hx => (Bool.or_eq_false_iff.1 (own hs x hx)).1)
        (Expr.resolvedAll hc fs cs fun hs x hx => (Bool.or_eq_false_iff.1 (own hs x hx)).2)

end

/-- A statement that declares nothing where it stands leaves the context alone. -/
theorem Stmt.after_eq {c : Context} : ∀ {s : Stmt}, s.Formed → s.isDeclaration = false →
    s.after c = c
  | .expr _, _, _ | .print _, _, _ | .block _, _, _ | .returning _ _, _, _ => rfl
  | .ifThen _ s, ⟨_, fs, hs⟩, _ => Stmt.after_eq (s := s) fs hs
  | .ifElse _ s r, ⟨_, ⟨fs, hs⟩, fr, hr⟩, _ => by
      rw [Stmt.after, Stmt.after_eq fs hs, Stmt.after_eq fr hr]
  | .whileDo _ s, ⟨_, fs, hs⟩, _ => Stmt.after_eq (s := s) fs hs

/-- Statements open no scope for those behind them. -/
theorem Stmt.after_isEmpty (c : Context) : ∀ s : Stmt, (s.after c).scopes.isEmpty = c.scopes.isEmpty
  | .expr _ | .print _ | .block _ | .returning _ _ => rfl
  | .var _ _ | .function _ | .classDecl _ _ _ => c.introduce_isEmpty _
  | .ifThen _ s | .whileDo _ s => s.after_isEmpty c
  | .ifElse _ s r => (r.after_isEmpty _).trans (s.after_isEmpty c)

theorem FunctionDecl.Formed.isName : ∀ {f : FunctionDecl}, f.Formed → f.name.IsName
  | ⟨_, _, _⟩, ⟨h, _, _⟩ => h

theorem Context.fresh_of_redeclaration {c : Context} {x : Token} (h : c.redeclaration x = []) :
    c.declaresHere x.lexeme = false := by
  unfold redeclaration at h
  split at h
  · cases h
  · next hd => exact Bool.eq_false_iff.2 hd

mutual

theorem Stmt.resolved {c : Context} (hc : c.Sound) : ∀ {s : Stmt}, s.Formed → s.errors c = [] →
    (strict = true → s.assignsOwn (!c.scopes.isEmpty) = false) →
    s.Resolved strict c (s.annotate c) (s.after c) ∧ (s.after c).Sound
  | .expr _, formed, clean, _ =>
      ⟨.expr (Expr.resolved hc.calm formed clean (hc.not_pending _)), hc⟩
  | .print _, formed, clean, _ =>
      ⟨.print (Expr.resolved hc.calm formed clean (hc.not_pending _)), hc⟩
  | .var x none, ⟨isName, _⟩, clean, _ => by
      have fresh := Context.fresh_of_redeclaration (List.append_eq_nil_iff.1 clean).1
      exact ⟨.bare isName fresh, hc.introduce isName⟩
  | .var x (some e), ⟨isName, formed⟩, clean, own => by
      obtain ⟨fresh, clean⟩ := List.append_eq_nil_iff.1 clean
      have initial := Expr.resolved (hc.declare isName) (formed e rfl) clean fun hs y hy => by
        have local' := hc.scopes_of_isPending hy
        have := own hs
        rw [hc.eq_of_isPending hy]
        simpa [Stmt.assignsOwn, local'] using this
      exact ⟨.var isName (Context.fresh_of_redeclaration fresh) initial, hc.introduce isName⟩
  | .block _, formed, clean, own => by
      obtain ⟨_, body⟩ := Stmt.resolvedAll hc.enter formed clean own
      exact ⟨.block body, hc⟩
  | .ifThen _ _, ⟨ft, fs, hs⟩, clean, own => by
      obtain ⟨ct, cs⟩ := List.append_eq_nil_iff.1 clean
      obtain ⟨consequent, -⟩ := Stmt.resolved hc fs cs own
      have after := Stmt.after_eq (c := c) fs hs
      rw [after] at consequent
      rw [Stmt.after, after]
      exact ⟨.ifThen (Expr.resolved hc.calm ft ct (hc.not_pending _)) consequent, hc⟩
  | .ifElse _ _ _, ⟨ft, ⟨fs, hs⟩, fr, hr⟩, clean, own => by
      have after := Stmt.after_eq (c := c) fs hs
      have after' := Stmt.after_eq (c := c) fr hr
      obtain ⟨clean, cr⟩ := List.append_eq_nil_iff.1 clean
      obtain ⟨ct, cs⟩ := List.append_eq_nil_iff.1 clean
      rw [after] at cr
      obtain ⟨consequent, -⟩ := Stmt.resolved hc fs cs fun h => (Bool.or_eq_false_iff.1 (own h)).1
      obtain ⟨alternative, -⟩ := Stmt.resolved hc fr cr fun h => (Bool.or_eq_false_iff.1 (own h)).2
      rw [after] at consequent
      rw [after'] at alternative
      rw [Stmt.after, Stmt.annotate, after, after']
      exact ⟨.ifElse (Expr.resolved hc.calm ft ct (hc.not_pending _)) consequent alternative, hc⟩
  | .whileDo _ _, ⟨ft, fs, hs⟩, clean, own => by
      obtain ⟨ct, cs⟩ := List.append_eq_nil_iff.1 clean
      obtain ⟨body, -⟩ := Stmt.resolved hc fs cs own
      have after := Stmt.after_eq (c := c) fs hs
      rw [after] at body
      rw [Stmt.after, after]
      exact ⟨.whileDo (Expr.resolved hc.calm ft ct (hc.not_pending _)) body, hc⟩
  | .function f, formed, clean, own => by
      obtain ⟨fresh, clean⟩ := List.append_eq_nil_iff.1 clean
      have isName := FunctionDecl.Formed.isName formed
      have declaration := FunctionDecl.resolved (hc.introduce isName) formed clean own
      exact ⟨.function (Context.fresh_of_redeclaration fresh) declaration, hc.introduce isName⟩
  | .returning _ none, _, clean, _ => by
      have clean := (List.append_eq_nil_iff.1 clean).1
      refine ⟨.bareReturn fun h => ?_, hc⟩
      simp [Context.returnErrors, h] at clean
  | .returning _ (some e), formed, clean, _ => by
      obtain ⟨clean, ce⟩ := List.append_eq_nil_iff.1 clean
      refine ⟨.returning (fun h => ?_) (fun h => ?_)
        (Expr.resolved hc.calm (formed e rfl) ce (hc.not_pending _)), hc⟩
      · simp [Context.returnErrors, h] at clean
      · simp [Context.returnErrors, h] at clean
  | .classDecl x none _, ⟨isName, _, formed⟩, clean, own => by
      obtain ⟨clean, cm⟩ := List.append_eq_nil_iff.1 clean
      obtain ⟨clean, -⟩ := List.append_eq_nil_iff.1 clean
      have fresh := Context.fresh_of_redeclaration (List.append_eq_nil_iff.1 clean).1
      have sound := hc.introduce isName
      have methods := FunctionDecl.resolvedAll (sound.inMethods false) formed cm own
      exact ⟨.rootClass isName fresh methods, sound⟩
  | .classDecl x (some parent) _, ⟨isName, hp, formed⟩, clean, own => by
      obtain ⟨y, rfl, hy⟩ := hp parent rfl
      obtain ⟨clean, cm⟩ := List.append_eq_nil_iff.1 clean
      obtain ⟨clean, cp⟩ := List.append_eq_nil_iff.1 clean
      obtain ⟨clean, cs⟩ := List.append_eq_nil_iff.1 clean
      have fresh := Context.fresh_of_redeclaration clean
      have sound := hc.introduce isName
      have other : y.lexeme ≠ x.lexeme := by
        intro h
        simp [Expr.selfInheritance, h] at cs
      have superclass : Expr.Resolved strict (c.introduce x.lexeme) (.name y none)
          (.name y ((c.introduce x.lexeme).depthOf? y.lexeme)) :=
        .name hy (sound.calm.refers (sound.isPending_eq _))
      have methods := FunctionDecl.resolvedAll (sound.inMethods true) formed cm own
      exact ⟨.subclass isName fresh superclass other methods, sound⟩

theorem Stmt.resolvedAll {c : Context} (hc : c.Sound) : ∀ {ss : List Stmt}, Stmt.FormedAll ss →
    Stmt.errorsAll c ss = [] →
    (strict = true → Stmt.assignsOwnAny (!c.scopes.isEmpty) ss = false) →
    ∃ c', Stmt.ResolvedAll strict c ss (Stmt.annotateAll c ss) c'
  | [], _, _, _ => ⟨c, .nil⟩
  | s :: ss, ⟨fs, fr⟩, clean, own => by
      obtain ⟨cs, cr⟩ := List.append_eq_nil_iff.1 clean
      obtain ⟨head, sound⟩ := Stmt.resolved hc fs cs fun h => (Bool.or_eq_false_iff.1 (own h)).1
      have same := Stmt.after_isEmpty c s
      obtain ⟨c', tail⟩ := Stmt.resolvedAll sound fr cr fun h => by
        rw [same]
        exact (Bool.or_eq_false_iff.1 (own h)).2
      exact ⟨c', .cons head tail⟩

theorem FunctionDecl.resolved {kind : Body} {c : Context} (hc : c.Sound) :
    ∀ {f : FunctionDecl}, f.Formed → f.errors kind c = [] →
    (strict = true → f.assignsOwn = false) → f.Resolved strict kind c (f.annotate kind c)
  | ⟨x, ps, body⟩, ⟨isName, names, formed⟩, clean, own => by
      obtain ⟨distinct, clean⟩ := List.append_eq_nil_iff.1 clean
      obtain ⟨_, body⟩ := Stmt.resolvedAll (hc.inFunction kind names) formed clean fun h => by
        rw [Context.inFunction_isEmpty]
        exact own h
      exact .mk isName names distinct body

theorem FunctionDecl.resolvedAll {c : Context} (hc : c.Sound) : ∀ {fs : List FunctionDecl},
    FunctionDecl.FormedAll fs → FunctionDecl.methodErrors c fs = [] →
    (strict = true → FunctionDecl.assignsOwnAny fs = false) →
    FunctionDecl.ResolvedAll strict c fs (FunctionDecl.annotateMethods c fs)
  | [], _, _, _ => .nil
  | f :: fs, ⟨ff, fr⟩, clean, own => by
      obtain ⟨cf, cr⟩ := List.append_eq_nil_iff.1 clean
      exact .cons
        (FunctionDecl.resolved hc ff cf fun h => (Bool.or_eq_false_iff.1 (own h)).1)
        (FunctionDecl.resolvedAll hc fr cr fun h => (Bool.or_eq_false_iff.1 (own h)).2)

end

end

end LoxLang
