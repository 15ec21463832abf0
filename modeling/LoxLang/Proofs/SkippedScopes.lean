import LoxLang.Proofs.Correspondence
import LoxLang.Proofs.WrittenTrees

/-!
# Depths with and without the extra scopes

A `for` statement with an increment is resolved with one scope more than it is
written with: that of the block around the body and the increment. Nothing is
ever declared there, so every name is found in the same scopes, and only the
count of the scopes on the way is another one.

The relations of this file hold between a tree that is resolved without `for`
statements and one that is resolved as it is written. Around a point there are
layers, those that both trees have and those that are extra, and the depths lead
to the same layer.
-/

namespace LoxLang

/-! ## Layers -/

/-- A tracked scope is there for both trees, or for the one without `for` only. -/
inductive Layer where
  | kept
  | extra
deriving DecidableEq

/-- The tracked scopes around a point, innermost first. -/
abbrev Layers := List Layer

namespace Layers

/-- What is declared here is declared for both trees. -/
def Open (layers : Layers) : Prop := layers.head? ≠ some .extra

theorem Open.nil : Open [] := (Option.some_ne_none _).symm

theorem Open.kept {layers : Layers} : Open (.kept :: layers) :=
  fun same => Layer.noConfusion (Option.some.inj same)

/-- Around the methods of a class. -/
def inMethods (layers : Layers) (hasSuperclass : Bool) : Layers :=
  .kept :: if hasSuperclass then .kept :: layers else layers

/-- The layer is so many scopes out, and so many if the extra ones do not count. -/
inductive Steps : Layers → Nat → Nat → Prop
  | here {layers : Layers} : Steps (.kept :: layers) 0 0
  | kept {layers : Layers} {n n' : Nat} (h : Steps layers n n') :
      Steps (.kept :: layers) (n + 1) (n' + 1)
  | extra {layers : Layers} {n n' : Nat} (h : Steps layers n n') :
      Steps (.extra :: layers) (n + 1) n'

/-- Two kept layers that are next to each other stay so. -/
theorem Steps.succ {layers : Layers} {n k k' : Nat} (h : Steps layers n k)
    (next : Steps layers (n + 1) k') : k' = k + 1 := by
  induction h generalizing k' with
  | here =>
      obtain _ | next := next
      cases next with
      | here => rfl
  | kept _ ih =>
      obtain _ | next := next
      rw [ih next]
  | extra _ ih =>
      obtain _ | _ | next := next
      exact ih next

end Layers

/-! ## Trees -/

open Layers (Steps)

mutual

/-- The expressions are the same but for the depths, which lead to the same layers. -/
inductive Expr.Skips (layers : Layers) : Expr → Expr → Prop
  | literal (value : Literal) : Expr.Skips layers (.literal value) (.literal value)
  | group {e e' : Expr} (inner : e.Skips layers e') : Expr.Skips layers (.group e) (.group e')
  | unary (operator : Token) {e e' : Expr} (operand : e.Skips layers e') :
      Expr.Skips layers (.unary operator e) (.unary operator e')
  | binary (operator : Token) {l l' r r' : Expr} (left : l.Skips layers l')
      (right : r.Skips layers r') :
      Expr.Skips layers (.binary l operator r) (.binary l' operator r')
  | logical (operator : Token) {l l' r r' : Expr} (left : l.Skips layers l')
      (right : r.Skips layers r') :
      Expr.Skips layers (.logical l operator r) (.logical l' operator r')
  | name (x : Token) {depth depth' : Option Nat} (leads : Option.Rel (Steps layers) depth depth') :
      Expr.Skips layers (.name x depth) (.name x depth')
  | assign (x : Token) {depth depth' : Option Nat} {e e' : Expr}
      (leads : Option.Rel (Steps layers) depth depth') (value : e.Skips layers e') :
      Expr.Skips layers (.assign x depth e) (.assign x depth' e')
  | call (paren : Token) {f f' : Expr} {es es' : List Expr} (callee : f.Skips layers f')
      (arguments : Expr.AllSkip layers es es') :
      Expr.Skips layers (.call f paren es) (.call f' paren es')
  | get (property : Token) {e e' : Expr} (object : e.Skips layers e') :
      Expr.Skips layers (.get e property) (.get e' property)
  | set (property : Token) {e e' r r' : Expr} (object : e.Skips layers e')
      (value : r.Skips layers r') : Expr.Skips layers (.set e property r) (.set e' property r')
  | this (keyword : Token) {depth depth' : Option Nat}
      (leads : Option.Rel (Steps layers) depth depth') :
      Expr.Skips layers (.this keyword depth) (.this keyword depth')
  | super (keyword method : Token) {depth depth' : Nat} (receiver : Steps layers depth depth')
      (parent : Steps layers (depth + 1) (depth' + 1)) :
      Expr.Skips layers (.super keyword (some (depth + 1)) method)
        (.super keyword (some (depth' + 1)) method)

/-- The same for expressions one by one. -/
inductive Expr.AllSkip (layers : Layers) : List Expr → List Expr → Prop
  | nil : Expr.AllSkip layers [] []
  | cons {e e' : Expr} {es es' : List Expr} (head : e.Skips layers e')
      (tail : Expr.AllSkip layers es es') : Expr.AllSkip layers (e :: es) (e' :: es')

end

mutual

/-- The second statement is the first with its `for` statements as they are written, and the depths
lead to the same layers. -/
inductive Stmt.Skips : Layers → Stmt → Written.Stmt → Prop
  | expr {layers : Layers} {e e' : Expr} (value : e.Skips layers e') :
      Stmt.Skips layers (.expr e) (.expr e')
  | print {layers : Layers} {e e' : Expr} (value : e.Skips layers e') :
      Stmt.Skips layers (.print e) (.print e')
  | var {layers : Layers} (x : Token) {o o' : Option Expr} (isOpen : layers.Open)
      (initial : Option.Rel (Expr.Skips layers) o o') : Stmt.Skips layers (.var x o) (.var x o')
  | block {layers : Layers} {ss : List Stmt} {ss' : List Written.Stmt}
      (body : Stmt.AllSkip (.kept :: layers) ss ss') : Stmt.Skips layers (.block ss) (.block ss')
  | ifThen {layers : Layers} {e e' : Expr} {s : Stmt} {s' : Written.Stmt}
      (test : e.Skips layers e') (consequent : s.Skips layers s') :
      Stmt.Skips layers (.ifThen e s) (.ifThen e' s')
  | ifElse {layers : Layers} {e e' : Expr} {s r : Stmt} {s' r' : Written.Stmt}
      (test : e.Skips layers e') (consequent : s.Skips layers s')
      (alternative : r.Skips layers r') : Stmt.Skips layers (.ifElse e s r) (.ifElse e' s' r')
  | whileDo {layers : Layers} {e e' : Expr} {s : Stmt} {s' : Written.Stmt}
      (test : e.Skips layers e') (body : s.Skips layers s') :
      Stmt.Skips layers (.whileDo e s) (.whileDo e' s')
  | forScope {layers : Layers} {s t : Stmt} {initial : Written.Initial}
      {condition increment : Option Expr} {body : Written.Stmt}
      (first : s.Skips (.kept :: layers) initial.stmt)
      (loop : t.Skips (.kept :: layers) (.forDo none condition increment body)) :
      Stmt.Skips layers (.block [s, t]) (.forDo (some initial) condition increment body)
  | forBare {layers : Layers} {e : Expr} {condition : Option Expr} {s : Stmt} {s' : Written.Stmt}
      (test : e.Skips layers (condition.getD (.literal (.bool true)))) (body : s.Skips layers s') :
      Stmt.Skips layers (.whileDo e s) (.forDo none condition none s')
  | forStep {layers : Layers} {e step step' : Expr} {condition : Option Expr} {s : Stmt}
      {s' : Written.Stmt} (test : e.Skips layers (condition.getD (.literal (.bool true))))
      (body : s.Skips (.extra :: layers) s') (increment : step.Skips (.extra :: layers) step') :
      Stmt.Skips layers (.whileDo e (.block [s, .expr step]))
        (.forDo none condition (some step') s')
  | function {layers : Layers} {f : FunctionDecl} {f' : Written.FunctionDecl}
      (isOpen : layers.Open) (declaration : f.Skips layers f') :
      Stmt.Skips layers (.function f) (.function f')
  | returning {layers : Layers} (keyword : Token) {o o' : Option Expr}
      (value : Option.Rel (Expr.Skips layers) o o') :
      Stmt.Skips layers (.returning keyword o) (.returning keyword o')
  | classDecl {layers : Layers} (x : Token) {o o' : Option Expr} {fs : List FunctionDecl}
      {fs' : List Written.FunctionDecl} (isOpen : layers.Open)
      (superclass : Option.Rel (Expr.Skips layers) o o')
      (methods : FunctionDecl.AllSkip (layers.inMethods o.isSome) fs fs') :
      Stmt.Skips layers (.classDecl x o fs) (.classDecl x o' fs')

/-- The same for statements one by one. -/
inductive Stmt.AllSkip : Layers → List Stmt → List Written.Stmt → Prop
  | nil {layers : Layers} : Stmt.AllSkip layers [] []
  | cons {layers : Layers} {s : Stmt} {s' : Written.Stmt} {ss : List Stmt}
      {ss' : List Written.Stmt} (head : s.Skips layers s') (tail : Stmt.AllSkip layers ss ss') :
      Stmt.AllSkip layers (s :: ss) (s' :: ss')

/-- The same for a function, the layers being those in which it is declared. -/
inductive FunctionDecl.Skips : Layers → FunctionDecl → Written.FunctionDecl → Prop
  | mk {layers : Layers} (x : Token) (ps : List Token) {ss : List Stmt} {ss' : List Written.Stmt}
      (body : Stmt.AllSkip (.kept :: layers) ss ss') :
      FunctionDecl.Skips layers ⟨x, ps, ss⟩ ⟨x, ps, ss'⟩

/-- The same for functions one by one. -/
inductive FunctionDecl.AllSkip : Layers → List FunctionDecl → List Written.FunctionDecl → Prop
  | nil {layers : Layers} : FunctionDecl.AllSkip layers [] []
  | cons {layers : Layers} {f : FunctionDecl} {f' : Written.FunctionDecl} {fs : List FunctionDecl}
      {fs' : List Written.FunctionDecl} (head : f.Skips layers f')
      (tail : FunctionDecl.AllSkip layers fs fs') :
      FunctionDecl.AllSkip layers (f :: fs) (f' :: fs')

end

/-! ## Contexts -/

/-- The scopes declare the same, but the extra ones nothing. -/
inductive Layers.Declare : Layers → List Declared → List Declared → Prop
  | nil : Layers.Declare [] [] []
  | kept {layers : Layers} {outer outer' : List Declared} (declared : Declared)
      (h : layers.Declare outer outer') :
      Layers.Declare (.kept :: layers) (declared :: outer) (declared :: outer')
  | extra {layers : Layers} {outer outer' : List Declared} (h : layers.Declare outer outer') :
      Layers.Declare (.extra :: layers) ([] :: outer) outer'

/-- The contexts are the same but for the extra scopes. -/
structure Context.Skips (layers : Layers) (c c' : Context) : Prop where
  scopes : layers.Declare c.scopes c'.scopes
  classBody : c'.classBody = c.classBody

namespace Context.Skips

variable {layers : Layers} {c c' : Context}

theorem global : Context.Skips [] .global .global := ⟨.nil, rfl⟩

theorem enter (h : c.Skips layers c') : c.enter.Skips (.kept :: layers) c'.enter :=
  ⟨.kept [] h.scopes, h.classBody⟩

/-- The extra scope is entered for the first tree only. -/
theorem extra (h : c.Skips layers c') : c.enter.Skips (.extra :: layers) c' :=
  ⟨.extra h.scopes, h.classBody⟩

theorem depthOf? (h : c.Skips layers c') (x : String) :
    Option.Rel (Steps layers) (c.depthOf? x) (c'.depthOf? x) := by
  obtain ⟨scopes, -⟩ := h
  unfold Context.depthOf?
  generalize c.scopes = scopes', c'.scopes = scopes'' at scopes
  induction scopes with
  | nil => exact .none
  | kept declared _ ih =>
      rw [List.findIdx?_cons, List.findIdx?_cons]
      split
      · exact .some .here
      · exact rel_map (fun _ _ => .kept) ih
  | extra _ ih =>
      rw [List.findIdx?_cons, if_neg (show ¬ declares [] x = true from nofun)]
      rcases rel_cases ih with ⟨h₁, h₂⟩ | ⟨n, n', h₁, h₂, steps⟩ <;> rw [h₁, h₂]
      · exact .none
      · exact .some (.extra steps)

theorem declare (h : c.Skips layers c') (isOpen : layers.Open) (x : String) :
    (c.declare x).Skips layers (c'.declare x) := by
  obtain ⟨scopes, body, classBody⟩ := c
  obtain ⟨scopes', body', classBody'⟩ := c'
  obtain ⟨declare, same⟩ := h
  cases declare with
  | nil => exact ⟨.nil, same⟩
  | kept declared outer =>
      unfold Context.declare
      dsimp only
      split
      · exact ⟨.kept declared outer, same⟩
      · exact ⟨.kept _ outer, same⟩
  | extra => exact absurd rfl isOpen

theorem define (h : c.Skips layers c') (isOpen : layers.Open) (x : String) :
    (c.define x).Skips layers (c'.define x) := by
  obtain ⟨scopes, body, classBody⟩ := c
  obtain ⟨scopes', body', classBody'⟩ := c'
  obtain ⟨declare, same⟩ := h
  cases declare with
  | nil => exact ⟨.nil, same⟩
  | kept declared outer => exact ⟨.kept _ outer, same⟩
  | extra => exact absurd rfl isOpen

theorem introduce (h : c.Skips layers c') (isOpen : layers.Open) (x : String) :
    (c.introduce x).Skips layers (c'.introduce x) := (h.declare isOpen x).define isOpen x

theorem inFunction (h : c.Skips layers c') (kind : Body) (ps : List Token) :
    (c.inFunction kind ps).Skips (.kept :: layers) (c'.inFunction kind ps) := by
  have introduced : ∀ {c c' : Context}, c.Skips (.kept :: layers) c' →
      (ps.foldl (fun c p => c.introduce p.lexeme) c).Skips (.kept :: layers)
        (ps.foldl (fun c p => c.introduce p.lexeme) c') := by
    induction ps with
    | nil => exact id
    | cons p ps ih => exact fun h => ih (h.introduce .kept p.lexeme)
  exact introduced ⟨h.enter.scopes, h.classBody⟩

theorem inMethods (h : c.Skips layers c') (hasSuperclass : Bool) :
    (c.inMethods hasSuperclass).Skips (layers.inMethods hasSuperclass)
      (c'.inMethods hasSuperclass) := by
  cases hasSuperclass with
  | true => exact ⟨((h.enter.define .kept "super").enter.define .kept "this").scopes, rfl⟩
  | false => exact ⟨(h.enter.define .kept "this").scopes, rfl⟩

theorem inSuperclass (h : c.Skips layers c') : c.inSuperclass.Skips layers c'.inSuperclass :=
  ⟨h.scopes, rfl⟩

end Context.Skips

/-! ## Resolution -/

variable {layers : Layers} {c c' : Context}

mutual

theorem Expr.skips (h : c.Skips layers c') : ∀ {e : Expr},
    Expr.Resolved false c e (e.annotate c) → (e.annotate c).Skips layers (e.annotate c')
  | .literal value, _ => .literal value
  | .group inner, resolved => by
      cases resolved with
      | group inner => exact .group (Expr.skips h inner)
  | .unary operator _, resolved => by
      cases resolved with
      | unary operand => exact .unary operator (Expr.skips h operand)
  | .binary _ operator _, resolved => by
      cases resolved with
      | binary left right => exact .binary operator (Expr.skips h left) (Expr.skips h right)
  | .logical _ operator _, resolved => by
      cases resolved with
      | logical left right => exact .logical operator (Expr.skips h left) (Expr.skips h right)
  | .name x depth, resolved => by
      have plain : depth = none := by
        rw [Expr.annotate] at resolved
        generalize c.annotated depth x = found at resolved
        cases resolved
        rfl
      subst plain
      exact .name x (h.depthOf? x.lexeme)
  | .assign x depth value, resolved => by
      rw [Expr.annotate] at resolved
      have inner : depth = none ∧ Expr.Resolved false c value (value.annotate c) := by
        generalize c.annotated depth x = found at resolved
        cases resolved with
        | assign _ _ value => exact ⟨rfl, value⟩
        | assignOwn _ _ _ value => exact ⟨rfl, value⟩
      obtain ⟨rfl, value⟩ := inner
      exact .assign x (h.depthOf? x.lexeme) (Expr.skips h value)
  | .call _ paren _, resolved => by
      cases resolved with
      | call callee arguments =>
          exact .call paren (Expr.skips h callee) (Expr.allSkip h arguments)
  | .get _ property, resolved => by
      cases resolved with
      | get object => exact .get property (Expr.skips h object)
  | .set _ property _, resolved => by
      cases resolved with
      | set object value => exact .set property (Expr.skips h object) (Expr.skips h value)
  | .this keyword depth, resolved => by
      have plain : depth = none := by
        rw [Expr.annotate] at resolved
        generalize c.annotatedThis depth keyword = found at resolved
        cases resolved
        rfl
      subst plain
      refine .this keyword ?_
      rw [Context.annotatedThis, Context.annotatedThis, h.classBody]
      split
      · exact .none
      · exact h.depthOf? keyword.lexeme
  | .super keyword depth method, resolved => by
      rw [Expr.annotate] at resolved ⊢
      generalize found : c.annotatedSuper depth keyword = leads at resolved ⊢
      cases resolved with
      | @super _ _ distance spelled receiver parent =>
          have derived : c.classBody = .derived := by
            by_contra other
            rw [Context.annotatedSuper, if_neg other] at found
            cases found
          have this := h.depthOf? "this"
          have parent' := h.depthOf? "super"
          rw [receiver.depthOf?_eq] at this
          rw [parent.depthOf?_eq] at parent'
          have leads' : c'.annotatedSuper none keyword = c'.depthOf? "super" := by
            rw [Context.annotatedSuper, h.classBody, if_pos derived, Context.annotated, spelled]
            rfl
          rw [Expr.annotate, leads']
          generalize c'.depthOf? "this" = o at this
          generalize c'.depthOf? "super" = o' at parent' ⊢
          cases this with
          | some receiver =>
              cases parent' with
              | some parent =>
                  cases receiver.succ parent
                  exact .super keyword method receiver parent

theorem Expr.allSkip (h : c.Skips layers c') : ∀ {es : List Expr},
    Expr.ResolvedAll false c es (Expr.annotateAll c es) →
      Expr.AllSkip layers (Expr.annotateAll c es) (Expr.annotateAll c' es)
  | [], _ => .nil
  | _ :: _, resolved => by
      cases resolved with
      | cons head tail => exact .cons (Expr.skips h head) (Expr.allSkip h tail)

end

theorem Stmt.Resolved.after_eq {strict : Bool} {c c' : Context} : ∀ {s s' : Stmt},
    Stmt.Resolved strict c s s' c' → s.after c = c'
  | _, _, .expr _ | _, _, .print _ | _, _, .bare _ _ | _, _, .var _ _ _ | _, _, .block _
  | _, _, .function _ _ | _, _, .bareReturn _ | _, _, .returning _ _ _ | _, _, .rootClass _ _ _
  | _, _, .subclass _ _ _ _ _ => rfl
  | _, _, .ifThen _ consequent => consequent.after_eq
  | _, _, .ifElse _ consequent alternative => by
      rw [Stmt.after, consequent.after_eq, alternative.after_eq]
  | _, _, .whileDo _ body => body.after_eq

namespace Written

/-- A statement that declares nothing leaves the context as it is. -/
theorem Stmt.after_desugar (c : Context) : ∀ {u : Stmt}, u.Formed → u.isDeclaration = false →
    u.desugar.after c = c
  | .expr _, _, _ | .print _, _, _ | .block _, _, _ | .returning .., _, _ => rfl
  | .ifThen _ consequent, ⟨formed, nested⟩, _ =>
      show consequent.desugar.after c = c from Stmt.after_desugar c formed nested
  | .ifElse _ _ _, ⟨⟨formed, nested⟩, formed', nested'⟩, _ => by
      rw [Stmt.desugar, LoxLang.Stmt.after, Stmt.after_desugar c formed nested,
        Stmt.after_desugar c formed' nested']
  | .whileDo _ body, ⟨formed, nested⟩, _ | .forDo none _ none body, ⟨formed, nested⟩, _ =>
      show body.desugar.after c = c from Stmt.after_desugar c formed nested
  | .forDo none _ (some _) _, _, _ | .forDo (some _) _ _ _, _, _ => rfl

theorem Initial.skips (h : c.Skips layers c') (isOpen : layers.Open) {c₁ : Context} :
    ∀ {initial : Initial},
      LoxLang.Stmt.Resolved false c initial.desugar (initial.desugar.annotate c) c₁ →
        (initial.desugar.annotate c).Skips layers (initial.annotate c').stmt ∧
          c₁.Skips layers (initial.after c')
  | .var x none, resolved => by
      cases resolved with
      | bare => exact ⟨.var x isOpen .none, h.introduce isOpen _⟩
  | .var x (some _), resolved => by
      cases resolved with
      | var _ _ initial =>
          exact ⟨.var x isOpen (.some (Expr.skips (h.declare isOpen _) initial)),
            h.introduce isOpen _⟩
  | .expr _, resolved => by
      cases resolved with
      | expr value => exact ⟨.expr (Expr.skips h value), h⟩

theorem condition_skips (h : c.Skips layers c') : ∀ {condition : Option Expr},
    Expr.Resolved false c (condition.getD (.literal (.bool true)))
      ((condition.getD (.literal (.bool true))).annotate c) →
      ((condition.getD (.literal (.bool true))).annotate c).Skips layers
        ((condition.map (·.annotate c')).getD (.literal (.bool true)))
  | none, _ => .literal _
  | some _, resolved => Expr.skips h resolved

/-- The loop behind the initial clause, if its body can be dealt with. -/
theorem loop_skips {condition increment : Option Expr} {body : Stmt} (h : c.Skips layers c')
    (formed : body.Formed) (nested : body.isDeclaration = false)
    (ih : ∀ {layers : Layers} {c c' c₁ : Context}, c.Skips layers c' →
      LoxLang.Stmt.Resolved false c body.desugar (body.desugar.annotate c) c₁ →
        (body.desugar.annotate c).Skips layers (body.annotate c')) {c₁ : Context}
    (resolved : LoxLang.Stmt.Resolved false c (Stmt.forDo none condition increment body).desugar
      ((Stmt.forDo none condition increment body).desugar.annotate c) c₁) :
    ((Stmt.forDo none condition increment body).desugar.annotate c).Skips layers
      ((Stmt.forDo none condition increment body).annotate c') := by
  cases increment with
  | none =>
      cases resolved with
      | whileDo test body => exact .forBare (condition_skips h test) (ih h body)
  | some step =>
      -- The body declares nothing, so the increment is seen from the same context.
      have behind := Stmt.after_desugar c.enter formed nested
      cases resolved with
      | whileDo test block =>
          cases block with
          | block statements =>
              cases statements with
              | cons first rest =>
                  obtain rfl := behind.symm.trans first.after_eq
                  rw [behind] at rest
                  cases rest with
                  | cons second _ =>
                      cases second with
                      | expr value =>
                          have increment := Expr.skips h.extra value
                          rw [← behind] at increment
                          exact .forStep (condition_skips h test) (ih h.extra first) increment

/-- What declares nothing may stand anywhere. -/
theorem Stmt.open_of_nested {u : Stmt} (nested : u.isDeclaration = false) :
    u.isDeclaration = true → layers.Open :=
  fun declares => absurd (nested.symm.trans declares) Bool.false_ne_true

mutual

theorem Stmt.skips {layers : Layers} {c c' : Context} (h : c.Skips layers c') : ∀ {u : Stmt},
    u.Formed → (u.isDeclaration = true → layers.Open) → ∀ {c₁ : Context},
    LoxLang.Stmt.Resolved false c u.desugar (u.desugar.annotate c) c₁ →
      (u.desugar.annotate c).Skips layers (u.annotate c') ∧ c₁.Skips layers (u.after c')
  | .expr _, _, _, _, .expr value => ⟨.expr (Expr.skips h value), h⟩
  | .print _, _, _, _, .print value => ⟨.print (Expr.skips h value), h⟩
  | .var x none, _, isOpen, _, .bare _ _ =>
      ⟨.var x (isOpen rfl) .none, h.introduce (isOpen rfl) _⟩
  | .var x (some _), _, isOpen, _, .var _ _ initial =>
      ⟨.var x (isOpen rfl) (.some (Expr.skips (h.declare (isOpen rfl) _) initial)),
        h.introduce (isOpen rfl) _⟩
  | .block _, formed, _, _, .block body => ⟨.block (Stmt.allSkip h.enter .kept formed body), h⟩
  | .ifThen _ _, ⟨formed, nested⟩, _, _, .ifThen test consequent =>
      ⟨.ifThen (Expr.skips h test) (Stmt.skips h formed (Stmt.open_of_nested nested) consequent).1,
        h⟩
  | .ifElse _ _ _, ⟨⟨formed, nested⟩, formed', nested'⟩, _, _,
      .ifElse test consequent alternative => by
      rw [consequent.after_eq] at alternative
      refine ⟨?_, h⟩
      rw [Stmt.desugar, LoxLang.Stmt.annotate, consequent.after_eq]
      exact .ifElse (Expr.skips h test)
        (Stmt.skips h formed (Stmt.open_of_nested nested) consequent).1
        (Stmt.skips h formed' (Stmt.open_of_nested nested') alternative).1
  | .whileDo _ _, ⟨formed, nested⟩, _, _, .whileDo test body =>
      ⟨.whileDo (Expr.skips h test) (Stmt.skips h formed (Stmt.open_of_nested nested) body).1, h⟩
  | .forDo none condition increment body, ⟨formed, nested⟩, _, _, resolved => by
      have loop := loop_skips h formed nested (fun h resolved => (Stmt.skips h formed
        (Stmt.open_of_nested nested) resolved).1) resolved
      have whole : (Stmt.forDo none condition increment body).Formed := ⟨formed, nested⟩
      obtain rfl := (Stmt.after_desugar c whole rfl).symm.trans resolved.after_eq
      exact ⟨loop, h⟩
  | .forDo (some _) _ _ _, ⟨formed, nested⟩, _, _, .block (.cons first (.cons second .nil)) => by
      obtain ⟨initial, inner⟩ := Initial.skips h.enter .kept first
      rw [first.after_eq] at second
      have loop := loop_skips inner formed nested (fun h resolved => (Stmt.skips h formed
        (Stmt.open_of_nested nested) resolved).1) second
      rw [← first.after_eq] at loop
      exact ⟨.forScope initial loop, h⟩
  | .function ⟨_, _, _⟩, formed, isOpen, _, .function _ declaration =>
      ⟨.function (isOpen rfl) (FunctionDecl.skips (h.introduce (isOpen rfl) _) formed declaration),
        h.introduce (isOpen rfl) _⟩
  | .returning keyword none, _, _, _, .bareReturn _ => ⟨.returning keyword .none, h⟩
  | .returning keyword (some _), _, _, _, .returning _ _ value =>
      ⟨.returning keyword (.some (Expr.skips h value)), h⟩
  | .classDecl x none _, formed, isOpen, _, .rootClass _ _ methods =>
      ⟨.classDecl x (isOpen rfl) .none
        (FunctionDecl.allSkip ((h.introduce (isOpen rfl) _).inMethods false) formed methods),
        h.introduce (isOpen rfl) _⟩
  | .classDecl x (some _) _, formed, isOpen, _, .subclass _ _ superclass _ methods =>
      ⟨.classDecl x (isOpen rfl)
        (.some (.name _ ((h.introduce (isOpen rfl) _).depthOf? _)))
        (FunctionDecl.allSkip ((h.introduce (isOpen rfl) _).inMethods true) formed methods),
        h.introduce (isOpen rfl) _⟩

theorem Stmt.allSkip {layers : Layers} {c c' : Context} (h : c.Skips layers c')
    (isOpen : layers.Open) : ∀ {us : List Stmt}, Stmt.FormedAll us → ∀ {c₁ : Context},
    LoxLang.Stmt.ResolvedAll false c (Stmt.desugarAll us)
      (LoxLang.Stmt.annotateAll c (Stmt.desugarAll us)) c₁ →
      LoxLang.Stmt.AllSkip layers (LoxLang.Stmt.annotateAll c (Stmt.desugarAll us))
        (Stmt.annotateAll c' us)
  | [], _, _, _ => .nil
  | _ :: _, ⟨formed, formedAll⟩, _, .cons head tail => by
      obtain ⟨first, behind⟩ := Stmt.skips h formed (fun _ => isOpen) head
      rw [head.after_eq] at tail
      have rest := Stmt.allSkip behind isOpen formedAll tail
      rw [← head.after_eq] at rest
      exact .cons first rest

theorem FunctionDecl.skips {layers : Layers} {c c' : Context} (h : c.Skips layers c')
    {kind : Body} : ∀ {f : FunctionDecl}, f.Formed →
    LoxLang.FunctionDecl.Resolved false kind c f.desugar (f.desugar.annotate kind c) →
      (f.desugar.annotate kind c).Skips layers (f.annotate kind c')
  | ⟨x, ps, _⟩, formed, .mk _ _ _ body =>
      .mk x ps (Stmt.allSkip (h.inFunction kind ps) .kept formed body)

theorem FunctionDecl.allSkip {layers : Layers} {c c' : Context} (h : c.Skips layers c') :
    ∀ {fs : List FunctionDecl}, FunctionDecl.FormedAll fs →
    LoxLang.FunctionDecl.ResolvedAll false c (FunctionDecl.desugarAll fs)
      (LoxLang.FunctionDecl.annotateMethods c (FunctionDecl.desugarAll fs)) →
      LoxLang.FunctionDecl.AllSkip layers
        (LoxLang.FunctionDecl.annotateMethods c (FunctionDecl.desugarAll fs))
        (FunctionDecl.annotateMethods c' fs)
  | [], _, _ => .nil
  | ⟨_, _, _⟩ :: _, ⟨formed, formedAll⟩, .cons head tail =>
      .cons (FunctionDecl.skips h formed head) (FunctionDecl.allSkip h formedAll tail)

end

/-- Resolution of a program gives the same tree but for the extra scopes. -/
theorem Stmt.resolve_skips {us : List Stmt} (formed : Stmt.FormedAll us)
    (formed' : LoxLang.Stmt.FormedAll (Stmt.desugarAll us))
    (clean : LoxLang.Stmt.errorsAll .global (Stmt.desugarAll us) = []) :
    LoxLang.Stmt.AllSkip [] (LoxLang.Stmt.resolve (Stmt.desugarAll us)) (Stmt.resolve us) :=
  have strict : false = true → _ := fun strict => absurd strict Bool.false_ne_true
  have ⟨_, resolved⟩ := LoxLang.Stmt.resolvedAll .global formed' clean strict
  Stmt.allSkip .global .nil formed resolved

end Written

end LoxLang
