import Mathlib.Data.List.Forall2
import LoxLang.Proofs.ProgramGrammar

/-!
# Trees of the same form have sentences of the same form

A derivation looks at the kinds of the tokens of its own sentence and at
nothing else. So if a tree has a sentence, then every tree with the same nodes,
whose tokens have the same kinds, has one too: the sentence in which the tokens
are exchanged in the same way. And what stands behind the sentence may be
exchanged for anything.

Here the tree decides which tokens are exchanged. Where one spelling of a name
turns into another at some occurrences only, no function of the token can say
at which.
-/

namespace LoxLang

variable (R : Token → Token → Prop)

/-! ## Trees of the same form -/

mutual

/-- The expressions have the same nodes and depths, and related tokens. -/
inductive Expr.Twin : Expr → Expr → Prop
  | literal (value : Literal) : Expr.Twin (.literal value) (.literal value)
  | group {e e' : Expr} (inner : Expr.Twin e e') : Expr.Twin (.group e) (.group e')
  | unary {t t' : Token} {e e' : Expr} (operator : R t t') (operand : Expr.Twin e e') :
      Expr.Twin (.unary t e) (.unary t' e')
  | binary {l l' r r' : Expr} {t t' : Token} (left : Expr.Twin l l') (operator : R t t')
      (right : Expr.Twin r r') : Expr.Twin (.binary l t r) (.binary l' t' r')
  | logical {l l' r r' : Expr} {t t' : Token} (left : Expr.Twin l l') (operator : R t t')
      (right : Expr.Twin r r') : Expr.Twin (.logical l t r) (.logical l' t' r')
  | name {x x' : Token} {d : Option Nat} (name : R x x') : Expr.Twin (.name x d) (.name x' d)
  | assign {x x' : Token} {d : Option Nat} {v v' : Expr} (name : R x x') (value : Expr.Twin v v') :
      Expr.Twin (.assign x d v) (.assign x' d v')
  | call {f f' : Expr} {t t' : Token} {es es' : List Expr} (callee : Expr.Twin f f')
      (paren : R t t') (arguments : Expr.AllTwin es es') :
      Expr.Twin (.call f t es) (.call f' t' es')
  | get {o o' : Expr} {x x' : Token} (object : Expr.Twin o o') (property : R x x') :
      Expr.Twin (.get o x) (.get o' x')
  | set {o o' v v' : Expr} {x x' : Token} (object : Expr.Twin o o') (property : R x x')
      (value : Expr.Twin v v') : Expr.Twin (.set o x v) (.set o' x' v')
  | this {t t' : Token} {d : Option Nat} (keyword : R t t') : Expr.Twin (.this t d) (.this t' d)
  | super {t t' x x' : Token} {d : Option Nat} (keyword : R t t') (method : R x x') :
      Expr.Twin (.super t d x) (.super t' d x')

inductive Expr.AllTwin : List Expr → List Expr → Prop
  | nil : Expr.AllTwin [] []
  | cons {e e' : Expr} {es es' : List Expr} (head : Expr.Twin e e')
      (tail : Expr.AllTwin es es') : Expr.AllTwin (e :: es) (e' :: es')

end

mutual

/-- The statements have the same nodes and depths, and related tokens. -/
inductive Stmt.Twin : Stmt → Stmt → Prop
  | expr {e e' : Expr} (value : e.Twin R e') : Stmt.Twin (.expr e) (.expr e')
  | print {e e' : Expr} (value : e.Twin R e') : Stmt.Twin (.print e) (.print e')
  | var {x x' : Token} {i i' : Option Expr} (name : R x x')
      (initial : Option.Rel (Expr.Twin R) i i') : Stmt.Twin (.var x i) (.var x' i')
  | block {ss ss' : List Stmt} (body : Stmt.AllTwin ss ss') : Stmt.Twin (.block ss) (.block ss')
  | ifThen {e e' : Expr} {s s' : Stmt} (condition : e.Twin R e') (consequent : Stmt.Twin s s') :
      Stmt.Twin (.ifThen e s) (.ifThen e' s')
  | ifElse {e e' : Expr} {s s' o o' : Stmt} (condition : e.Twin R e')
      (consequent : Stmt.Twin s s') (alternative : Stmt.Twin o o') :
      Stmt.Twin (.ifElse e s o) (.ifElse e' s' o')
  | whileDo {e e' : Expr} {s s' : Stmt} (condition : e.Twin R e') (body : Stmt.Twin s s') :
      Stmt.Twin (.whileDo e s) (.whileDo e' s')
  | function {f f' : FunctionDecl} (declaration : FunctionDecl.Twin f f') :
      Stmt.Twin (.function f) (.function f')
  | returning {t t' : Token} {e e' : Option Expr} (keyword : R t t')
      (value : Option.Rel (Expr.Twin R) e e') : Stmt.Twin (.returning t e) (.returning t' e')
  | classDecl {x x' : Token} {e e' : Option Expr} {fs fs' : List FunctionDecl}
      (name : R x x') (superclass : Option.Rel (Expr.Twin R) e e')
      (methods : FunctionDecl.AllTwin fs fs') : Stmt.Twin (.classDecl x e fs) (.classDecl x' e' fs')

inductive Stmt.AllTwin : List Stmt → List Stmt → Prop
  | nil : Stmt.AllTwin [] []
  | cons {s s' : Stmt} {ss ss' : List Stmt} (head : Stmt.Twin s s')
      (tail : Stmt.AllTwin ss ss') : Stmt.AllTwin (s :: ss) (s' :: ss')

/-- The functions have the same nodes and depths, and related tokens. -/
inductive FunctionDecl.Twin : FunctionDecl → FunctionDecl → Prop
  | mk {x x' : Token} {ps ps' : List Token} {ss ss' : List Stmt} (name : R x x')
      (parameters : List.Forall₂ R ps ps') (body : Stmt.AllTwin ss ss') :
      FunctionDecl.Twin ⟨x, ps, ss⟩ ⟨x', ps', ss'⟩

inductive FunctionDecl.AllTwin : List FunctionDecl → List FunctionDecl → Prop
  | nil : FunctionDecl.AllTwin [] []
  | cons {f f' : FunctionDecl} {fs fs' : List FunctionDecl} (head : FunctionDecl.Twin f f')
      (tail : FunctionDecl.AllTwin fs fs') : FunctionDecl.AllTwin (f :: fs) (f' :: fs')

end

theorem Expr.AllTwin.length_eq {R : Token → Token → Prop} {es es' : List Expr}
    (h : Expr.AllTwin R es es') : es.length = es'.length := by
  induction es generalizing es' with
  | nil => cases h; rfl
  | cons e es ih =>
      cases h with
      | cons _ tail => exact congrArg Nat.succ (ih tail)

mutual

theorem Expr.Twin.refl {R : Token → Token → Prop} (same : ∀ t, R t t) : ∀ e : Expr, e.Twin R e
  | .literal _ => .literal _
  | .group e => .group (.refl same e)
  | .unary _ e => .unary (same _) (.refl same e)
  | .binary l _ r => .binary (.refl same l) (same _) (.refl same r)
  | .logical l _ r => .logical (.refl same l) (same _) (.refl same r)
  | .name _ _ => .name (same _)
  | .assign _ _ v => .assign (same _) (.refl same v)
  | .call f _ es => .call (.refl same f) (same _) (.refl same es)
  | .get o _ => .get (.refl same o) (same _)
  | .set o _ v => .set (.refl same o) (same _) (.refl same v)
  | .this _ _ => .this (same _)
  | .super _ _ _ => .super (same _) (same _)

theorem Expr.AllTwin.refl {R : Token → Token → Prop} (same : ∀ t, R t t) :
    ∀ es : List Expr, Expr.AllTwin R es es
  | [] => .nil
  | e :: es => .cons (.refl same e) (.refl same es)

end

theorem Expr.rel_twin_refl {R : Token → Token → Prop} (same : ∀ t, R t t) (o : Option Expr) :
    Option.Rel (Expr.Twin R) o o := by
  cases o with
  | none => exact .none
  | some e => exact .some (.refl same e)

mutual

theorem Stmt.Twin.refl {R : Token → Token → Prop} (same : ∀ t, R t t) : ∀ s : Stmt, s.Twin R s
  | .expr e => .expr (.refl same e)
  | .print e => .print (.refl same e)
  | .var _ i => .var (same _) (Expr.rel_twin_refl same i)
  | .block ss => .block (.refl same ss)
  | .ifThen e s => .ifThen (.refl same e) (.refl same s)
  | .ifElse e s o => .ifElse (.refl same e) (.refl same s) (.refl same o)
  | .whileDo e s => .whileDo (.refl same e) (.refl same s)
  | .function f => .function (.refl same f)
  | .returning _ e => .returning (same _) (Expr.rel_twin_refl same e)
  | .classDecl _ e fs => .classDecl (same _) (Expr.rel_twin_refl same e) (.refl same fs)

theorem Stmt.AllTwin.refl {R : Token → Token → Prop} (same : ∀ t, R t t) :
    ∀ ss : List Stmt, Stmt.AllTwin R ss ss
  | [] => .nil
  | s :: ss => .cons (.refl same s) (.refl same ss)

theorem FunctionDecl.Twin.refl {R : Token → Token → Prop} (same : ∀ t, R t t) :
    ∀ f : FunctionDecl, f.Twin R f
  | ⟨_, _, ss⟩ => .mk (same _) (List.forall₂_same.2 fun _ _ => same _) (.refl same ss)

theorem FunctionDecl.AllTwin.refl {R : Token → Token → Prop} (same : ∀ t, R t t) :
    ∀ fs : List FunctionDecl, FunctionDecl.AllTwin R fs fs
  | [] => .nil
  | f :: fs => .cons (.refl same f) (.refl same fs)

end

namespace Derivation

/-! ## Sentences of the same form -/

/-- The tokens in front of `rest` exchanged for related ones, one by one, and `rest` for `more`. -/
inductive Exchanged (rest more : List Token) : List Token → List Token → Prop
  | done : Exchanged rest more rest more
  | next {t t' : Token} {ts us : List Token} (head : R t t') (tail : Exchanged rest more ts us) :
      Exchanged rest more (t :: ts) (t' :: us)

variable {R}

/-- First a sentence, and then what stands behind it up to the end of the next one. -/
theorem Exchanged.trans {mid mid' rest more ts us : List Token} (h : Exchanged R mid mid' ts us)
    (h' : Exchanged R rest more mid mid') : Exchanged R rest more ts us := by
  induction h with
  | done => exact h'
  | next head _ ih => exact .next head ih

theorem exchanged_iff {rest more ts us : List Token} :
    Exchanged R rest more ts us ↔
      ∃ front front', ts = front ++ rest ∧ us = front' ++ more ∧ List.Forall₂ R front front' := by
  constructor
  · intro h
    induction h with
    | done => exact ⟨[], [], rfl, rfl, .nil⟩
    | next head _ ih =>
        obtain ⟨front, front', rfl, rfl, all⟩ := ih
        exact ⟨_ :: front, _ :: front', rfl, rfl, .cons head all⟩
  · rintro ⟨front, front', rfl, rfl, all⟩
    induction all with
    | nil => exact .done
    | cons head _ ih => exact .next head ih

/-- A relation that keeps kinds and does not exclude that a token stays. -/
structure KeepsKinds (R : Token → Token → Prop) : Prop where
  same : ∀ t, R t t
  kind : ∀ {t t'}, R t t' → t.kind = t'.kind

theorem KeepsKinds.of {t t' : Token} {kind : Token.Kind} (keeps : KeepsKinds R) (h : R t t')
    (hk : t.kind = kind) : t'.kind = kind := (keeps.kind h).symm.trans hk

/-! ### Expressions

Each nonterminal has a sentence for every twin of its tree, in front of anything. The parts of a
sentence are exchanged from the last one on, since each stands in front of those behind it. -/

mutual

theorem Expression.twin (keeps : KeepsKinds R) : ∀ {ts rest : List Token} {e e' : Expr},
    Expression ts e rest → e.Twin R e' →
      ∀ more, ∃ us, Expression us e' more ∧ Exchanged R rest more ts us
  | _, _, _, _, .assign name eq h, .assign x value, more => by
      obtain ⟨us, h, changed⟩ := h.twin keeps value more
      exact ⟨_ :: _ :: us, .assign (keeps.of x name) eq h, .next x (.next (keeps.same _) changed)⟩
  | _, _, _, _, @Expression.set _ _ dot _ equals _ _ _ call point name eq h, .set object x value,
      more => by
      obtain ⟨_, h, changed⟩ := h.twin keeps value more
      obtain ⟨us, call, changed'⟩ := call.twin keeps object (dot :: _ :: equals :: _)
      exact ⟨us, .set call point (keeps.of x name) eq h, changed'.trans
        (.next (keeps.same dot) (.next x (.next (keeps.same equals) changed)))⟩
  | _, _, _, _, .or h, e, more => by
      obtain ⟨us, h, changed⟩ := h.twin keeps e more
      exact ⟨us, .or h, changed⟩

theorem Or.twin (keeps : KeepsKinds R) : ∀ {ts rest : List Token} {e e' : Expr},
    Or ts e rest → e.Twin R e' →
      ∀ more, ∃ us, Or us e' more ∧ Exchanged R rest more ts us
  | _, _, _, _, .and h, e, more => by
      obtain ⟨us, h, changed⟩ := h.twin keeps e more
      exact ⟨us, .and h, changed⟩
  | _, _, _, _, .join left operator right, .logical l t r, more => by
      obtain ⟨_, right, changed⟩ := right.twin keeps r more
      obtain ⟨us, left, changed'⟩ := left.twin keeps l (_ :: _)
      exact ⟨us, .join left (keeps.of t operator) right, changed'.trans (.next t changed)⟩

theorem And.twin (keeps : KeepsKinds R) : ∀ {ts rest : List Token} {e e' : Expr},
    And ts e rest → e.Twin R e' →
      ∀ more, ∃ us, And us e' more ∧ Exchanged R rest more ts us
  | _, _, _, _, .equality h, e, more => by
      obtain ⟨us, h, changed⟩ := h.twin keeps e more
      exact ⟨us, .equality h, changed⟩
  | _, _, _, _, .join left operator right, .logical l t r, more => by
      obtain ⟨_, right, changed⟩ := right.twin keeps r more
      obtain ⟨us, left, changed'⟩ := left.twin keeps l (_ :: _)
      exact ⟨us, .join left (keeps.of t operator) right, changed'.trans (.next t changed)⟩

theorem Equality.twin (keeps : KeepsKinds R) : ∀ {ts rest : List Token} {e e' : Expr},
    Equality ts e rest → e.Twin R e' →
      ∀ more, ∃ us, Equality us e' more ∧ Exchanged R rest more ts us
  | _, _, _, _, .comparison h, e, more => by
      obtain ⟨us, h, changed⟩ := h.twin keeps e more
      exact ⟨us, .comparison h, changed⟩
  | _, _, _, _, .join left operator right, .binary l t r, more => by
      obtain ⟨_, right, changed⟩ := right.twin keeps r more
      obtain ⟨us, left, changed'⟩ := left.twin keeps l (_ :: _)
      exact ⟨us, .join left (keeps.kind t ▸ operator) right, changed'.trans (.next t changed)⟩

theorem Comparison.twin (keeps : KeepsKinds R) : ∀ {ts rest : List Token} {e e' : Expr},
    Comparison ts e rest → e.Twin R e' →
      ∀ more, ∃ us, Comparison us e' more ∧ Exchanged R rest more ts us
  | _, _, _, _, .term h, e, more => by
      obtain ⟨us, h, changed⟩ := h.twin keeps e more
      exact ⟨us, .term h, changed⟩
  | _, _, _, _, .join left operator right, .binary l t r, more => by
      obtain ⟨_, right, changed⟩ := right.twin keeps r more
      obtain ⟨us, left, changed'⟩ := left.twin keeps l (_ :: _)
      exact ⟨us, .join left (keeps.kind t ▸ operator) right, changed'.trans (.next t changed)⟩

theorem Term.twin (keeps : KeepsKinds R) : ∀ {ts rest : List Token} {e e' : Expr},
    Term ts e rest → e.Twin R e' →
      ∀ more, ∃ us, Term us e' more ∧ Exchanged R rest more ts us
  | _, _, _, _, .factor h, e, more => by
      obtain ⟨us, h, changed⟩ := h.twin keeps e more
      exact ⟨us, .factor h, changed⟩
  | _, _, _, _, .join left operator right, .binary l t r, more => by
      obtain ⟨_, right, changed⟩ := right.twin keeps r more
      obtain ⟨us, left, changed'⟩ := left.twin keeps l (_ :: _)
      exact ⟨us, .join left (keeps.kind t ▸ operator) right, changed'.trans (.next t changed)⟩

theorem Factor.twin (keeps : KeepsKinds R) : ∀ {ts rest : List Token} {e e' : Expr},
    Factor ts e rest → e.Twin R e' →
      ∀ more, ∃ us, Factor us e' more ∧ Exchanged R rest more ts us
  | _, _, _, _, .unary h, e, more => by
      obtain ⟨us, h, changed⟩ := h.twin keeps e more
      exact ⟨us, .unary h, changed⟩
  | _, _, _, _, .join left operator right, .binary l t r, more => by
      obtain ⟨_, right, changed⟩ := right.twin keeps r more
      obtain ⟨us, left, changed'⟩ := left.twin keeps l (_ :: _)
      exact ⟨us, .join left (keeps.kind t ▸ operator) right, changed'.trans (.next t changed)⟩

theorem Unary.twin (keeps : KeepsKinds R) : ∀ {ts rest : List Token} {e e' : Expr},
    Unary ts e rest → e.Twin R e' →
      ∀ more, ∃ us, Unary us e' more ∧ Exchanged R rest more ts us
  | _, _, _, _, .sign operator h, .unary t e, more => by
      obtain ⟨us, h, changed⟩ := h.twin keeps e more
      exact ⟨_ :: us, .sign (keeps.kind t ▸ operator) h, .next t changed⟩
  | _, _, _, _, .call h, e, more => by
      obtain ⟨us, h, changed⟩ := h.twin keeps e more
      exact ⟨us, .call h, changed⟩

theorem Call.twin (keeps : KeepsKinds R) : ∀ {ts rest : List Token} {e e' : Expr},
    Call ts e rest → e.Twin R e' →
      ∀ more, ∃ us, Call us e' more ∧ Exchanged R rest more ts us
  | _, _, _, _, .primary h, e, more => by
      obtain ⟨us, h, changed⟩ := h.twin keeps e more
      exact ⟨us, .primary h, changed⟩
  | _, _, _, _, @Call.noArguments _ _ opening _ _ h open' close, .call f paren .nil, more => by
      obtain ⟨us, h, changed⟩ := h.twin keeps f (opening :: _ :: more)
      exact ⟨us, .noArguments h open' (keeps.of paren close),
        changed.trans (.next (keeps.same opening) (.next paren .done))⟩
  | _, _, _, _, @Call.arguments _ _ opening _ _ _ _ h open' list close limit, .call f paren es,
      more => by
      obtain ⟨_, list, changed⟩ := list.twin keeps es (_ :: more)
      obtain ⟨us, h, changed'⟩ := h.twin keeps f (opening :: _)
      exact ⟨us, .arguments h open' list (keeps.of paren close) (es.length_eq ▸ limit),
        changed'.trans (.next (keeps.same opening) (changed.trans (.next paren .done)))⟩
  | _, _, _, _, @Call.property _ _ dot _ _ h point name, .get object x, more => by
      obtain ⟨us, h, changed⟩ := h.twin keeps object (dot :: _ :: more)
      exact ⟨us, .property h point (keeps.of x name),
        changed.trans (.next (keeps.same dot) (.next x .done))⟩

theorem Arguments.twin (keeps : KeepsKinds R) : ∀ {ts rest : List Token} {es es' : List Expr},
    Arguments ts es rest → Expr.AllTwin R es es' →
      ∀ more, ∃ us, Arguments us es' more ∧ Exchanged R rest more ts us
  | _, _, _, _, .last h, .cons e .nil, more => by
      obtain ⟨us, h, changed⟩ := h.twin keeps e more
      exact ⟨us, .last h, changed⟩
  | _, _, _, _, @Arguments.more _ _ comma _ _ _ h sep list, .cons e es, more => by
      obtain ⟨_, list, changed⟩ := list.twin keeps es more
      obtain ⟨us, h, changed'⟩ := h.twin keeps e (comma :: _)
      exact ⟨us, .more h sep list, changed'.trans (.next (keeps.same comma) changed)⟩

theorem Primary.twin (keeps : KeepsKinds R) : ∀ {ts rest : List Token} {e e' : Expr},
    Primary ts e rest → e.Twin R e' →
      ∀ more, ∃ us, Primary us e' more ∧ Exchanged R rest more ts us
  | _, _, _, _, .number kind, .literal _, _ => ⟨_, .number kind, .next (keeps.same _) .done⟩
  | _, _, _, _, .string kind, .literal _, _ => ⟨_, .string kind, .next (keeps.same _) .done⟩
  | _, _, _, _, .true kind, .literal _, _ => ⟨_, .true kind, .next (keeps.same _) .done⟩
  | _, _, _, _, .false kind, .literal _, _ => ⟨_, .false kind, .next (keeps.same _) .done⟩
  | _, _, _, _, .nil kind, .literal _, _ => ⟨_, .nil kind, .next (keeps.same _) .done⟩
  | _, _, _, _, .this kind, .this t, _ => ⟨_, .this (keeps.of t kind), .next t .done⟩
  | _, _, _, _, .name kind, .name x, _ => ⟨_, .name (keeps.of x kind), .next x .done⟩
  | _, _, _, _, @Primary.group _ _ closing _ _ open' h close, .group e, more => by
      obtain ⟨us, h, changed⟩ := h.twin keeps e (closing :: more)
      exact ⟨_ :: us, .group open' h close,
        .next (keeps.same _) (changed.trans (.next (keeps.same closing) .done))⟩
  | _, _, _, _, @Primary.super _ dot _ _ kind point method, .super t x, more =>
      ⟨_ :: dot :: _ :: more, .super (keeps.of t kind) point (keeps.of x method),
        .next t (.next (keeps.same dot) (.next x .done))⟩

end

/-! ### Parts of statements -/

section Parts

variable {ts rest : List Token}

theorem Parameters.twin (keeps : KeepsKinds R) {ps ps' : List Token} (h : Parameters ts ps rest)
    (related : List.Forall₂ R ps ps') (more : List Token) :
    ∃ us, Parameters us ps' more ∧ Exchanged R rest more ts us := by
  induction h generalizing ps' with
  | last name =>
      obtain _ | ⟨x, _ | _⟩ := related
      exact ⟨_, .last (keeps.of x name), .next x .done⟩
  | more name sep _ ih =>
      obtain _ | ⟨x, related⟩ := related
      obtain ⟨us, h, changed⟩ := ih related
      exact ⟨_, .more (keeps.of x name) sep h, .next x (.next (keeps.same _) changed)⟩

theorem ParameterList.twin (keeps : KeepsKinds R) {ps ps' : List Token}
    (h : ParameterList ts ps rest) (related : List.Forall₂ R ps ps') (more : List Token) :
    ∃ us, ParameterList us ps' more ∧ Exchanged R rest more ts us := by
  cases h with
  | none =>
      cases related
      exact ⟨_, .none, .done⟩
  | some h limit =>
      obtain ⟨us, h, changed⟩ := h.twin keeps related more
      exact ⟨us, .some h (related.length_eq ▸ limit), changed⟩

theorem OptionalExpression.twin (keeps : KeepsKinds R) {o o' : Option Expr}
    (h : OptionalExpression ts o rest) (related : Option.Rel (Expr.Twin R) o o')
    (more : List Token) :
    ∃ us, OptionalExpression us o' more ∧ Exchanged R rest more ts us := by
  cases h with
  | none =>
      cases related
      exact ⟨_, .none, .done⟩
  | some h =>
      cases related with
      | some e =>
          obtain ⟨us, h, changed⟩ := h.twin keeps e more
          exact ⟨us, .some h, changed⟩

theorem VarDecl.twin (keeps : KeepsKinds R) {s s' : Stmt} (h : VarDecl ts s rest)
    (related : s.Twin R s') (more : List Token) :
    ∃ us, VarDecl us s' more ∧ Exchanged R rest more ts us := by
  cases h with
  | @bare _ _ semi _ word name stop =>
      cases related with
      | var x initial =>
          cases initial
          exact ⟨_ :: _ :: semi :: more, .bare word (keeps.of x name) stop,
            .next (keeps.same _) (.next x (.next (keeps.same _) .done))⟩
  | @initial _ _ semi _ _ _ _ word name eq h stop =>
      cases related with
      | var x initial =>
          cases initial with
          | some e =>
              obtain ⟨us, h, changed⟩ := h.twin keeps e (semi :: more)
              exact ⟨_, .initial word (keeps.of x name) eq h stop,
                .next (keeps.same _) (.next x (.next (keeps.same _)
                  (changed.trans (.next (keeps.same semi) .done))))⟩

theorem ExprStmt.twin (keeps : KeepsKinds R) : ∀ {ts rest : List Token} {s s' : Stmt},
    ExprStmt ts s rest → s.Twin R s' →
      ∀ more, ∃ us, ExprStmt us s' more ∧ Exchanged R rest more ts us
  | _, _, _, _, @ExprStmt.mk _ _ semi _ h stop, .expr e, more => by
      obtain ⟨us, h, changed⟩ := h.twin keeps e (semi :: more)
      exact ⟨us, .mk h stop, changed.trans (.next (keeps.same semi) .done)⟩

theorem ForInitial.twin (keeps : KeepsKinds R) {o o' : Option Stmt} (h : ForInitial ts o rest)
    (related : Option.Rel (Stmt.Twin R) o o') (more : List Token) :
    ∃ us, ForInitial us o' more ∧ Exchanged R rest more ts us := by
  cases h with
  | varDecl h =>
      cases related with
      | some s =>
          obtain ⟨us, h, changed⟩ := h.twin keeps s more
          exact ⟨us, .varDecl h, changed⟩
  | exprStmt h =>
      cases related with
      | some s =>
          obtain ⟨us, h, changed⟩ := h.twin keeps s more
          exact ⟨us, .exprStmt h, changed⟩
  | none stop =>
      cases related
      exact ⟨_, .none stop, .next (keeps.same _) .done⟩

theorem Condition.twin (keeps : KeepsKinds R) {e e' : Expr} (h : Condition ts e rest)
    (related : e.Twin R e') (more : List Token) :
    ∃ us, Condition us e' more ∧ Exchanged R rest more ts us := by
  cases h with
  | @mk _ _ closing _ _ opening h close =>
      obtain ⟨us, h, changed⟩ := h.twin keeps related (closing :: more)
      exact ⟨_, .mk opening h close,
        .next (keeps.same _) (changed.trans (.next (keeps.same closing) .done))⟩

/-- A tree of the form of a `for` loop is one, with parts of the form of its parts. -/
theorem forForm_twin {first : Option Stmt} {test step : Option Expr} {body s' : Stmt}
    (related : (forForm first test step body).Twin R s') :
    ∃ first' test' step' body', s' = forForm first' test' step' body' ∧
      Option.Rel (Stmt.Twin R) first first' ∧ Option.Rel (Expr.Twin R) test test' ∧
      Option.Rel (Expr.Twin R) step step' ∧ body.Twin R body' := by
  have condition : ∀ {e'}, (test.getD (.literal (.bool true))).Twin R e' →
      ∃ test', e' = test'.getD (.literal (.bool true)) ∧ Option.Rel (Expr.Twin R) test test' := by
    intro e' h
    cases test with
    | none =>
        cases h
        exact ⟨none, rfl, .none⟩
    | some e => exact ⟨some e', rfl, .some h⟩
  have loop : ∀ {s'}, (forForm none test step body).Twin R s' →
      ∃ test' step' body', s' = forForm none test' step' body' ∧
        Option.Rel (Expr.Twin R) test test' ∧ Option.Rel (Expr.Twin R) step step' ∧
        body.Twin R body' := by
    intro s' h
    cases step with
    | none =>
        have .whileDo test body := h
        obtain ⟨test', rfl, related⟩ := condition test
        exact ⟨test', none, _, rfl, related, .none, body⟩
    | some step =>
        have .whileDo test block := h
        have .block (.cons body (.cons (.expr step) .nil)) := block
        obtain ⟨test', rfl, related⟩ := condition test
        exact ⟨test', some _, _, rfl, related, .some step, body⟩
  cases first with
  | none =>
      obtain ⟨test', step', body', rfl, parts⟩ := loop related
      exact ⟨none, test', step', body', rfl, .none, parts⟩
  | some first =>
      have split : ∀ step, forForm (some first) test step body =
          .block [first, forForm none test step body] := fun step => by cases step <;> rfl
      rw [split] at related
      have .block (.cons first' (.cons rest .nil)) := related
      obtain ⟨test', step', body', rfl, parts⟩ := loop rest
      refine ⟨some _, test', step', body', ?_, .some first', parts⟩
      cases step' <;> rfl

end Parts

/-! ### Statements -/

variable {rule : ElseRule}

mutual

theorem Statement.twin (keeps : KeepsKinds R) : ∀ {isOpen : Bool} {ts rest : List Token}
    {s s' : Stmt}, Statement rule isOpen ts s rest → s.Twin R s' →
      ∀ more, ∃ us, Statement rule isOpen us s' more ∧ Exchanged R rest more ts us
  | _, _, _, _, _, .exprStmt h, s, more => by
      obtain ⟨us, h, changed⟩ := h.twin keeps s more
      exact ⟨us, .exprStmt h, changed⟩
  | _, _, _, _, _, @Statement.for _ _ _ _ _ semi _ _ closing _ _ _ _ _ _
      word opening first test stop step close body, s, more => by
      obtain ⟨_, _, _, _, rfl, first', test', step', body'⟩ := forForm_twin s
      obtain ⟨_, body, changed⟩ := body.twin keeps body' more
      obtain ⟨_, step, changed₃⟩ := step.twin keeps step' (closing :: _)
      obtain ⟨_, test, changed₂⟩ := test.twin keeps test' (semi :: _)
      obtain ⟨_, first, changed₁⟩ := first.twin keeps first' _
      exact ⟨_, .for word opening first test stop step close body,
        .next (keeps.same _) (.next (keeps.same _) (changed₁.trans (changed₂.trans
          (.next (keeps.same semi) (changed₃.trans (.next (keeps.same closing) changed))))))⟩
  | _, _, _, _, _, .ifThen word test consequent, .ifThen e s, more => by
      obtain ⟨_, consequent, changed⟩ := consequent.twin keeps s more
      obtain ⟨_, test, changed'⟩ := test.twin keeps e _
      exact ⟨_, .ifThen word test consequent, .next (keeps.same _) (changed'.trans changed)⟩
  | _, _, _, _, _, @Statement.ifElse _ _ _ _ _ _ otherwise _ _ _ _ _ word test consequent word'
      nearest alternative, .ifElse e s o, more => by
      obtain ⟨_, alternative, changed⟩ := alternative.twin keeps o more
      obtain ⟨_, consequent, changed₂⟩ := consequent.twin keeps s (otherwise :: _)
      obtain ⟨_, test, changed₁⟩ := test.twin keeps e _
      exact ⟨_, .ifElse word test consequent word' nearest alternative, .next (keeps.same _)
        (changed₁.trans (changed₂.trans (.next (keeps.same otherwise) changed)))⟩
  | _, _, _, _, _, @Statement.print _ _ _ semi _ _ word h stop, .print e, more => by
      obtain ⟨_, h, changed⟩ := h.twin keeps e (semi :: more)
      exact ⟨_, .print word h stop,
        .next (keeps.same _) (changed.trans (.next (keeps.same semi) .done))⟩
  | _, _, _, _, _, @Statement.return _ _ _ semi _ _ word h stop, .returning t e, more => by
      obtain ⟨_, h, changed⟩ := h.twin keeps e (semi :: more)
      exact ⟨_, .return (keeps.of t word) h stop,
        .next t (changed.trans (.next (keeps.same semi) .done))⟩
  | _, _, _, _, _, .while word test body, .whileDo e s, more => by
      obtain ⟨_, body, changed⟩ := body.twin keeps s more
      obtain ⟨_, test, changed'⟩ := test.twin keeps e _
      exact ⟨_, .while word test body, .next (keeps.same _) (changed'.trans changed)⟩
  | _, _, _, _, _, @Statement.block _ _ _ closing _ _ opening body close, .block ss, more => by
      obtain ⟨_, body, changed⟩ := body.twin keeps ss (closing :: more)
      exact ⟨_, .block opening body close,
        .next (keeps.same _) (changed.trans (.next (keeps.same closing) .done))⟩

theorem Declaration.twin (keeps : KeepsKinds R) : ∀ {ts rest : List Token} {s s' : Stmt},
    Declaration rule ts s rest → s.Twin R s' →
      ∀ more, ∃ us, Declaration rule us s' more ∧ Exchanged R rest more ts us
  | _, _, _, _, @Declaration.rootClass _ _ _ closing _ _ _ _ word name opening methods close, s,
      more => by
      cases s with
      | classDecl x parent fs =>
          cases parent
          obtain ⟨_, methods, changed⟩ := methods.twin keeps fs (closing :: more)
          exact ⟨_, .rootClass word (keeps.of x name) opening methods close, .next (keeps.same _)
            (.next x (.next (keeps.same _) (changed.trans (.next (keeps.same closing) .done))))⟩
  | _, _, _, _, @Declaration.subclass _ _ _ closing _ _ _ _ _ _ word name below parent opening
      methods close, s, more => by
      cases s with
      | classDecl x superclass fs =>
          cases superclass with
          | some e =>
              cases e with
              | name y =>
                  obtain ⟨_, methods, changed⟩ := methods.twin keeps fs (closing :: more)
                  exact ⟨_, .subclass word (keeps.of x name) below (keeps.of y parent) opening
                    methods close, .next (keeps.same _) (.next x (.next (keeps.same _) (.next y
                      (.next (keeps.same _) (changed.trans (.next (keeps.same closing) .done))))))⟩
  | _, _, _, _, .funDecl word function, s, more => by
      cases s with
      | function f =>
          obtain ⟨_, function, changed⟩ := function.twin keeps f more
          exact ⟨_, .funDecl word function, .next (keeps.same _) changed⟩
  | _, _, _, _, .varDecl h, s, more => by
      obtain ⟨us, h, changed⟩ := h.twin keeps s more
      exact ⟨us, .varDecl h, changed⟩
  | _, _, _, _, .statement h, s, more => by
      obtain ⟨us, h, changed⟩ := h.twin keeps s more
      exact ⟨us, .statement h, changed⟩

theorem Function.twin (keeps : KeepsKinds R) : ∀ {ts rest : List Token} {f f' : FunctionDecl},
    Function rule ts f rest → f.Twin R f' →
      ∀ more, ∃ us, Function rule us f' more ∧ Exchanged R rest more ts us
  | _, _, _, _, @Function.mk _ _ _ closing braceOpen _ _ braceClose _ _ _ name opening list close
      openBody body closeBody, .mk x ps ss, more => by
      obtain ⟨_, body, changed⟩ := body.twin keeps ss (braceClose :: more)
      obtain ⟨_, list, changed'⟩ := list.twin keeps ps (closing :: braceOpen :: _)
      exact ⟨_, .mk (keeps.of x name) opening list close openBody body closeBody,
        .next x (.next (keeps.same _) (changed'.trans (.next (keeps.same closing)
          (.next (keeps.same braceOpen) (changed.trans (.next (keeps.same braceClose) .done))))))⟩

theorem Functions.twin (keeps : KeepsKinds R) : ∀ {ts rest : List Token}
    {fs fs' : List FunctionDecl}, Functions rule ts fs rest → FunctionDecl.AllTwin R fs fs' →
      ∀ more, ∃ us, Functions rule us fs' more ∧ Exchanged R rest more ts us
  | _, _, _, _, .nil, .nil, _ => ⟨_, .nil, .done⟩
  | _, _, _, _, .cons function functions, .cons f fs, more => by
      obtain ⟨_, functions, changed⟩ := functions.twin keeps fs more
      obtain ⟨_, function, changed'⟩ := function.twin keeps f _
      exact ⟨_, .cons function functions, changed'.trans changed⟩

theorem Declarations.twin (keeps : KeepsKinds R) : ∀ {ts rest : List Token}
    {ss ss' : List Stmt}, Declarations rule ts ss rest → Stmt.AllTwin R ss ss' →
      ∀ more, ∃ us, Declarations rule us ss' more ∧ Exchanged R rest more ts us
  | _, _, _, _, .nil, .nil, _ => ⟨_, .nil, .done⟩
  | _, _, _, _, .cons declaration declarations, .cons s ss, more => by
      obtain ⟨_, declarations, changed⟩ := declarations.twin keeps ss more
      obtain ⟨_, declaration, changed'⟩ := declaration.twin keeps s _
      exact ⟨_, .cons declaration declarations, changed'.trans changed⟩

end

/-- If a tree is a program, every tree of its form is one, of tokens exchanged one by one. -/
theorem Program.twin (keeps : KeepsKinds R) {ts : List Token} {ss ss' : List Stmt}
    (h : Program rule ts ss) (related : Stmt.AllTwin R ss ss') :
    ∃ us, Program rule us ss' ∧ List.Forall₂ R ts us := by
  obtain ⟨_, h, changed⟩ := Declarations.twin keeps h related []
  obtain ⟨front, front', rfl, rfl, all⟩ := exchanged_iff.1 changed
  rw [List.append_nil, List.append_nil] at *
  exact ⟨front', h, all⟩

end Derivation

end LoxLang
