import LoxLang.Proofs.Alike
import LoxLang.Resolution.Annotate
import LoxLang.Resolution.Check

/-!
# Alike programs are resolved alike

Resolution looks at lexemes and at depths. So if depths stand for themselves
only, trees that are alike get depths that make them alike again, and what is
wrong with one of them is wrong with the other, at the tokens that stand for
each other.
-/

namespace LoxLang

variable {L : Likeness}

/-- A depth stands for itself and for nothing else. -/
def Likeness.SameDepths (L : Likeness) : Prop := ∀ d d', L.depth d d' ↔ d = d'

/-! ## Contexts -/

namespace Context

variable {x x' : Token} {d d' : Option Nat}

theorem inFunction_eq {ps ps' : List Token} (h : List.Forall₂ L.token ps ps') (c : Context)
    (kind : Body) : c.inFunction kind ps = c.inFunction kind ps' := by
  unfold inFunction
  generalize { c.enter with body := kind } = c
  induction h generalizing c with
  | nil => rfl
  | cons head _ ih => rw [List.foldl_cons, List.foldl_cons, L.lexeme_eq head, ih]

theorem annotated_alike (same : L.SameDepths) (c : Context) (hx : L.token x x')
    (hd : L.depth d d') : L.depth (c.annotated d x) (c.annotated d' x') := by
  obtain rfl := (same _ _).1 hd
  rw [annotated, annotated, L.lexeme_eq hx]
  exact (same _ _).2 rfl

theorem annotatedThis_alike (same : L.SameDepths) (c : Context) (hx : L.token x x')
    (hd : L.depth d d') : L.depth (c.annotatedThis d x) (c.annotatedThis d' x') := by
  unfold annotatedThis
  split
  · exact hd
  · exact annotated_alike same c hx hd

theorem annotatedSuper_alike (same : L.SameDepths) (c : Context) (hx : L.token x x')
    (hd : L.depth d d') : L.depth (c.annotatedSuper d x) (c.annotatedSuper d' x') := by
  unfold annotatedSuper
  split
  · exact annotated_alike same c hx hd
  · exact hd

end Context

theorem Stmt.Alike.after_eq (c : Context) : ∀ {s s' : Stmt}, s.Alike L s' → s.after c = s'.after c
  | _, _, .expr _ | _, _, .print _ | _, _, .block _ | _, _, .returning _ _ => rfl
  | _, _, .var name _ => congrArg c.introduce (L.lexeme_eq name)
  | _, _, .function declaration => congrArg c.introduce (L.lexeme_eq declaration.name)
  | _, _, .classDecl name _ _ => congrArg c.introduce (L.lexeme_eq name)
  | _, _, .ifThen _ consequent => consequent.after_eq c
  | _, _, .ifElse _ consequent alternative => by
      rw [Stmt.after, Stmt.after, consequent.after_eq c, alternative.after_eq]
  | _, _, .whileDo _ body => body.after_eq c

/-! ## Depths -/

mutual

theorem Expr.Alike.annotate (same : L.SameDepths) (c : Context) : ∀ {e e' : Expr},
    e.Alike L e' → (e.annotate c).Alike L (e'.annotate c)
  | _, _, .literal value => .literal value
  | _, _, .group inner => .group (inner.annotate same c)
  | _, _, .unary operator operand => .unary operator (operand.annotate same c)
  | _, _, .binary left operator right =>
      .binary (left.annotate same c) operator (right.annotate same c)
  | _, _, .logical left operator right =>
      .logical (left.annotate same c) operator (right.annotate same c)
  | _, _, .name x depth => .name x (c.annotated_alike same x depth)
  | _, _, .assign x depth value =>
      .assign x (c.annotated_alike same x depth) (value.annotate same c)
  | _, _, .call callee paren arguments =>
      .call (callee.annotate same c) paren (arguments.annotate same c)
  | _, _, .get object property => .get (object.annotate same c) property
  | _, _, .set object property value =>
      .set (object.annotate same c) property (value.annotate same c)
  | _, _, .this keyword depth => .this keyword (c.annotatedThis_alike same keyword depth)
  | _, _, .super keyword depth method =>
      .super keyword (c.annotatedSuper_alike same keyword depth) method

theorem Expr.AllAlike.annotate (same : L.SameDepths) (c : Context) : ∀ {es es' : List Expr},
    Expr.AllAlike L es es' → Expr.AllAlike L (Expr.annotateAll c es) (Expr.annotateAll c es')
  | _, _, .nil => .nil
  | _, _, .cons head tail => .cons (head.annotate same c) (tail.annotate same c)

end

theorem isSome_eq_of_rel {α β : Type} {r : α → β → Prop} {o : Option α} {o' : Option β}
    (h : Option.Rel r o o') : o.isSome = o'.isSome := by
  cases h <;> rfl

theorem FunctionDecl.Alike.methodBody_eq {f f' : FunctionDecl} (h : f.Alike L f') :
    f.methodBody = f'.methodBody := by
  rw [FunctionDecl.methodBody, FunctionDecl.methodBody, h.isInitializer_eq]

mutual

theorem Stmt.Alike.annotate (same : L.SameDepths) (c : Context) : ∀ {s s' : Stmt},
    s.Alike L s' → (s.annotate c).Alike L (s'.annotate c)
  | _, _, .expr value => .expr (value.annotate same c)
  | _, _, .print value => .print (value.annotate same c)
  | _, _, .var name initial => by
      rw [Stmt.annotate, Stmt.annotate, L.lexeme_eq name]
      exact .var name (rel_map (fun _ _ h => h.annotate same _) initial)
  | _, _, .block body => .block (body.annotate same c.enter)
  | _, _, .ifThen condition consequent =>
      .ifThen (condition.annotate same c) (consequent.annotate same c)
  | _, _, .ifElse condition consequent alternative => by
      rw [Stmt.annotate, Stmt.annotate, consequent.after_eq]
      exact .ifElse (condition.annotate same c) (consequent.annotate same c)
        (alternative.annotate same _)
  | _, _, .whileDo condition body => .whileDo (condition.annotate same c) (body.annotate same c)
  | _, _, .function declaration => by
      rw [Stmt.annotate, Stmt.annotate, L.lexeme_eq declaration.name]
      exact .function (declaration.annotate same .function _)
  | _, _, .returning keyword value =>
      .returning keyword (rel_map (fun _ _ h => h.annotate same c) value)
  | _, _, .classDecl name superclass methods => by
      rw [Stmt.annotate, Stmt.annotate, L.lexeme_eq name, isSome_eq_of_rel superclass]
      exact .classDecl name (rel_map (fun _ _ h => h.annotate same _) superclass)
        (methods.annotate same _)

theorem Stmt.AllAlike.annotate (same : L.SameDepths) (c : Context) : ∀ {ss ss' : List Stmt},
    Stmt.AllAlike L ss ss' → Stmt.AllAlike L (Stmt.annotateAll c ss) (Stmt.annotateAll c ss')
  | _, _, .nil => .nil
  | _, _, .cons head tail => by
      rw [Stmt.annotateAll, Stmt.annotateAll, head.after_eq]
      exact .cons (head.annotate same c) (tail.annotate same _)

theorem FunctionDecl.Alike.annotate (same : L.SameDepths) (kind : Body) (c : Context) :
    ∀ {f f' : FunctionDecl}, f.Alike L f' → (f.annotate kind c).Alike L (f'.annotate kind c)
  | _, _, .mk name parameters body => by
      rw [FunctionDecl.annotate, FunctionDecl.annotate, Context.inFunction_eq parameters]
      exact .mk name parameters (body.annotate same _)

theorem FunctionDecl.AllAlike.annotate (same : L.SameDepths) (c : Context) :
    ∀ {fs fs' : List FunctionDecl}, FunctionDecl.AllAlike L fs fs' →
      FunctionDecl.AllAlike L (FunctionDecl.annotateMethods c fs)
        (FunctionDecl.annotateMethods c fs')
  | _, _, .nil => .nil
  | _, _, .cons head tail => by
      rw [FunctionDecl.annotateMethods, FunctionDecl.annotateMethods, head.methodBody_eq]
      exact .cons (head.annotate same _ c) (tail.annotate same c)

end

/-! ## Errors -/

/-- The errors are the same, one by one. -/
abbrev ErrorsAlike (L : Likeness) (es es' : List (Located StaticError)) : Prop :=
  List.Forall₂ (Located.Alike L) es es'

theorem ErrorsAlike.append {es es' fs fs' : List (Located StaticError)} (h : ErrorsAlike L es es')
    (h' : ErrorsAlike L fs fs') : ErrorsAlike L (es ++ fs) (es' ++ fs') := List.rel_append h h'

theorem errorsAlike_ite {p : Prop} [Decidable p] {t t' : Token} (ht : L.token t t')
    (e : StaticError) : ErrorsAlike L (if p then [⟨t, e⟩] else []) (if p then [⟨t', e⟩] else []) := by
  split
  · exact .cons ⟨ht, rfl⟩ .nil
  · exact .nil

namespace Context

variable (c : Context) {x x' : Token} {d d' : Option Nat}

theorem resolvedAgain_alike (same : L.SameDepths) (hd : L.depth d d') (hx : L.token x x') :
    ErrorsAlike L (c.resolvedAgain d x) (c.resolvedAgain d' x') := by
  obtain rfl := (same _ _).1 hd
  rw [resolvedAgain, resolvedAgain, L.lexeme_eq hx]
  exact errorsAlike_ite hx _

theorem ownInitializerError_alike (hx : L.token x x') :
    ErrorsAlike L (c.ownInitializerError x) (c.ownInitializerError x') := by
  rw [ownInitializerError, ownInitializerError, L.lexeme_eq hx]
  exact errorsAlike_ite hx _

theorem redeclaration_alike (hx : L.token x x') :
    ErrorsAlike L (c.redeclaration x) (c.redeclaration x') := by
  rw [redeclaration, redeclaration, L.lexeme_eq hx]
  exact errorsAlike_ite hx _

theorem thisErrors_alike (same : L.SameDepths) (hd : L.depth d d') (hx : L.token x x') :
    ErrorsAlike L (c.thisErrors d x) (c.thisErrors d' x') := by
  unfold thisErrors
  split
  · exact .cons ⟨hx, rfl⟩ .nil
  · exact c.resolvedAgain_alike same hd hx

theorem superErrors_alike (same : L.SameDepths) (hd : L.depth d d') (hx : L.token x x') :
    ErrorsAlike L (c.superErrors d x) (c.superErrors d' x') := by
  unfold superErrors
  split
  · exact .cons ⟨hx, rfl⟩ .nil
  · exact .cons ⟨hx, rfl⟩ .nil
  · exact c.resolvedAgain_alike same hd hx

theorem returnErrors_alike (hasValue : Bool) (hx : L.token x x') :
    ErrorsAlike L (c.returnErrors hasValue x) (c.returnErrors hasValue x') := by
  unfold returnErrors
  split
  · exact .cons ⟨hx, rfl⟩ .nil
  · exact errorsAlike_ite hx _
  · exact .nil
  · exact .nil

theorem parameterErrors_alike {ps ps' : List Token} (h : List.Forall₂ L.token ps ps') :
    ErrorsAlike L (c.parameterErrors ps) (c.parameterErrors ps') := by
  induction h generalizing c with
  | nil => exact .nil
  | cons head _ ih =>
      rw [parameterErrors, parameterErrors, L.lexeme_eq head]
      exact (c.redeclaration_alike head).append (ih _)

end Context

theorem Expr.Alike.selfInheritance {x x' : Token} (hx : L.token x x') {e e' : Expr}
    (h : e.Alike L e') : ErrorsAlike L (e.selfInheritance x) (e'.selfInheritance x') := by
  cases h with
  | name hy =>
      rw [Expr.selfInheritance, Expr.selfInheritance, L.lexeme_eq hx, L.lexeme_eq hy]
      exact errorsAlike_ite hy _
  | _ => exact .nil

mutual

theorem Expr.Alike.errors (same : L.SameDepths) (c : Context) : ∀ {e e' : Expr},
    e.Alike L e' → ErrorsAlike L (e.errors c) (e'.errors c)
  | _, _, .literal _ => .nil
  | _, _, .group inner => inner.errors same c
  | _, _, .unary _ operand => operand.errors same c
  | _, _, .binary left _ right => (left.errors same c).append (right.errors same c)
  | _, _, .logical left _ right => (left.errors same c).append (right.errors same c)
  | _, _, .name x depth =>
      (c.ownInitializerError_alike x).append (c.resolvedAgain_alike same depth x)
  | _, _, .assign x depth value =>
      (value.errors same c).append (c.resolvedAgain_alike same depth x)
  | _, _, .call callee _ arguments => (callee.errors same c).append (arguments.errors same c)
  | _, _, .get object _ => object.errors same c
  | _, _, .set object _ value => (value.errors same c).append (object.errors same c)
  | _, _, .this keyword depth => c.thisErrors_alike same depth keyword
  | _, _, .super keyword depth _ => c.superErrors_alike same depth keyword

theorem Expr.AllAlike.errors (same : L.SameDepths) (c : Context) : ∀ {es es' : List Expr},
    Expr.AllAlike L es es' → ErrorsAlike L (Expr.errorsAll c es) (Expr.errorsAll c es')
  | _, _, .nil => .nil
  | _, _, .cons head tail => (head.errors same c).append (tail.errors same c)

end

theorem rel_errors (same : L.SameDepths) (c : Context) {o o' : Option Expr}
    (h : Option.Rel (Expr.Alike L) o o') :
    ErrorsAlike L (Expr.errorsOpt c o) (Expr.errorsOpt c o') := by
  cases h with
  | none => exact .nil
  | some h => exact h.errors same c

theorem rel_selfInheritance {x x' : Token} (hx : L.token x x') {o o' : Option Expr}
    (h : Option.Rel (Expr.Alike L) o o') :
    ErrorsAlike L ((o.map (·.selfInheritance x)).getD []) ((o'.map (·.selfInheritance x')).getD []) := by
  cases h with
  | none => exact .nil
  | some h => exact h.selfInheritance hx

mutual

theorem Stmt.Alike.errors (same : L.SameDepths) (c : Context) : ∀ {s s' : Stmt},
    s.Alike L s' → ErrorsAlike L (s.errors c) (s'.errors c)
  | _, _, .expr value => value.errors same c
  | _, _, .print value => value.errors same c
  | _, _, .var name initial => by
      rw [Stmt.errors, Stmt.errors, L.lexeme_eq name]
      exact (c.redeclaration_alike name).append (rel_errors same _ initial)
  | _, _, .block body => body.errors same c.enter
  | _, _, .ifThen condition consequent =>
      (condition.errors same c).append (consequent.errors same c)
  | _, _, .ifElse condition consequent alternative => by
      rw [Stmt.errors, Stmt.errors, consequent.after_eq]
      exact ((condition.errors same c).append (consequent.errors same c)).append
        (alternative.errors same _)
  | _, _, .whileDo condition body => (condition.errors same c).append (body.errors same c)
  | _, _, .function declaration => by
      rw [Stmt.errors, Stmt.errors, L.lexeme_eq declaration.name]
      exact (c.redeclaration_alike declaration.name).append (declaration.errors same .function _)
  | _, _, .returning keyword value => by
      rw [Stmt.errors, Stmt.errors, isSome_eq_of_rel value]
      exact (c.returnErrors_alike _ keyword).append (rel_errors same c value)
  | _, _, .classDecl name superclass methods => by
      rw [Stmt.errors, Stmt.errors, L.lexeme_eq name, isSome_eq_of_rel superclass]
      exact (((c.redeclaration_alike name).append (rel_selfInheritance name superclass)).append
        (rel_errors same _ superclass)).append (methods.errors same _)

theorem Stmt.AllAlike.errors (same : L.SameDepths) (c : Context) : ∀ {ss ss' : List Stmt},
    Stmt.AllAlike L ss ss' → ErrorsAlike L (Stmt.errorsAll c ss) (Stmt.errorsAll c ss')
  | _, _, .nil => .nil
  | _, _, .cons head tail => by
      rw [Stmt.errorsAll, Stmt.errorsAll, head.after_eq]
      exact (head.errors same c).append (tail.errors same _)

theorem FunctionDecl.Alike.errors (same : L.SameDepths) (kind : Body) (c : Context) :
    ∀ {f f' : FunctionDecl}, f.Alike L f' → ErrorsAlike L (f.errors kind c) (f'.errors kind c)
  | _, _, .mk _ parameters body => by
      rw [FunctionDecl.errors, FunctionDecl.errors, Context.inFunction_eq parameters]
      exact (Context.parameterErrors_alike _ parameters).append (body.errors same _)

theorem FunctionDecl.AllAlike.errors (same : L.SameDepths) (c : Context) :
    ∀ {fs fs' : List FunctionDecl}, FunctionDecl.AllAlike L fs fs' →
      ErrorsAlike L (FunctionDecl.methodErrors c fs) (FunctionDecl.methodErrors c fs')
  | _, _, .nil => .nil
  | _, _, .cons head tail => by
      rw [FunctionDecl.methodErrors, FunctionDecl.methodErrors, head.methodBody_eq]
      exact (head.errors same _ c).append (tail.errors same c)

end

end LoxLang
