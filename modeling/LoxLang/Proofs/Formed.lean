import LoxLang.Proofs.ProgramGrammar
import LoxLang.Proofs.Spelling

/-!
# What every tree that was read is like

The types of trees allow more than the grammar does. A tree that was read
without errors from scanned tokens is *formed*: it has no depths yet, it
declares and names nothing `this` or `super`, the keywords are spelled as such,
a superclass is given by its name, and no branch and no body of a loop is a
declaration. What resolution and evaluation are good for depends on all of
this.
-/

namespace LoxLang

mutual

/-- An expression as it is read. -/
def Expr.Formed : Expr → Prop
  | .literal _ => True
  | .group inner => inner.Formed
  | .unary _ operand => operand.Formed
  | .binary left _ right => left.Formed ∧ right.Formed
  | .logical left _ right => left.Formed ∧ right.Formed
  | .name x depth => x.IsName ∧ depth = none
  | .assign x depth value => x.IsName ∧ depth = none ∧ value.Formed
  | .call callee _ arguments => callee.Formed ∧ Expr.FormedAll arguments
  | .get object _ => object.Formed
  | .set object _ value => object.Formed ∧ value.Formed
  | .this keyword depth => keyword.lexeme = "this" ∧ depth = none
  | .super keyword depth _ => keyword.lexeme = "super" ∧ depth = none

/-- Expressions as they are read. -/
def Expr.FormedAll : List Expr → Prop
  | [] => True
  | e :: es => e.Formed ∧ Expr.FormedAll es

end

/-- An expression that may be absent, as it is read. -/
def Expr.FormedOpt (o : Option Expr) : Prop := ∀ e ∈ o, e.Formed

/-- Does the statement declare something where it stands? -/
def Stmt.isDeclaration : Stmt → Bool
  | .var .. | .function _ | .classDecl .. => true
  | _ => false

mutual

/-- A statement as it is read. -/
def Stmt.Formed : Stmt → Prop
  | .expr value => value.Formed
  | .print value => value.Formed
  | .var name initial => name.IsName ∧ Expr.FormedOpt initial
  | .block body => Stmt.FormedAll body
  | .ifThen condition consequent =>
    condition.Formed ∧ consequent.Formed ∧ consequent.isDeclaration = false
  | .ifElse condition consequent alternative =>
    condition.Formed ∧ (consequent.Formed ∧ consequent.isDeclaration = false) ∧
      alternative.Formed ∧ alternative.isDeclaration = false
  | .whileDo condition body => condition.Formed ∧ body.Formed ∧ body.isDeclaration = false
  | .function declaration => declaration.Formed
  | .returning _ value => Expr.FormedOpt value
  | .classDecl name superclass methods =>
    name.IsName ∧ (∀ e ∈ superclass, ∃ x : Token, e = .name x none ∧ x.IsName) ∧
      FunctionDecl.FormedAll methods

/-- Statements as they are read. -/
def Stmt.FormedAll : List Stmt → Prop
  | [] => True
  | s :: ss => s.Formed ∧ Stmt.FormedAll ss

/-- A function as it is read. -/
def FunctionDecl.Formed : FunctionDecl → Prop
  | ⟨name, parameters, body⟩ =>
    name.IsName ∧ (∀ p ∈ parameters, p.IsName) ∧ Stmt.FormedAll body

/-- Functions as they are read. -/
def FunctionDecl.FormedAll : List FunctionDecl → Prop
  | [] => True
  | f :: fs => f.Formed ∧ FunctionDecl.FormedAll fs

end

/-! ## Derivations give formed trees -/

namespace Derivation

/-- All tokens are spelled like their kinds. -/
def Spelled (ts : List Token) : Prop := ∀ t ∈ ts, t.Spelled

theorem spelled_cons {t : Token} {ts : List Token} :
    Spelled (t :: ts) ↔ t.Spelled ∧ Spelled ts := List.forall_mem_cons

mutual

theorem Expression.formed : ∀ {ts rest : List Token} {e : Expr}, Expression ts e rest →
    Spelled ts → e.Formed ∧ Spelled rest
  | _, _, _, .assign name _ value, h => by
      obtain ⟨hx, _, h⟩ := (spelled_cons.1 h).imp id spelled_cons.1
      obtain ⟨value, h⟩ := value.formed h
      exact ⟨⟨hx.isName name, rfl, value⟩, h⟩
  | _, _, _, .set call _ _ _ value, h => by
      obtain ⟨call, h⟩ := call.formed h
      obtain ⟨value, h⟩ := value.formed (spelled_cons.1 (spelled_cons.1 (spelled_cons.1 h).2).2).2
      exact ⟨⟨call, value⟩, h⟩
  | _, _, _, .or or, h => or.formed h

theorem Or.formed : ∀ {ts rest : List Token} {e : Expr}, Or ts e rest →
    Spelled ts → e.Formed ∧ Spelled rest
  | _, _, _, .and h, hs => h.formed hs
  | _, _, _, .join left _ right, hs => by
      obtain ⟨left, hs⟩ := left.formed hs
      obtain ⟨right, hs⟩ := right.formed (spelled_cons.1 hs).2
      exact ⟨⟨left, right⟩, hs⟩

theorem And.formed : ∀ {ts rest : List Token} {e : Expr}, And ts e rest →
    Spelled ts → e.Formed ∧ Spelled rest
  | _, _, _, .equality h, hs => h.formed hs
  | _, _, _, .join left _ right, hs => by
      obtain ⟨left, hs⟩ := left.formed hs
      obtain ⟨right, hs⟩ := right.formed (spelled_cons.1 hs).2
      exact ⟨⟨left, right⟩, hs⟩

theorem Equality.formed : ∀ {ts rest : List Token} {e : Expr}, Equality ts e rest →
    Spelled ts → e.Formed ∧ Spelled rest
  | _, _, _, .comparison h, hs => h.formed hs
  | _, _, _, .join left _ right, hs => by
      obtain ⟨left, hs⟩ := left.formed hs
      obtain ⟨right, hs⟩ := right.formed (spelled_cons.1 hs).2
      exact ⟨⟨left, right⟩, hs⟩

theorem Comparison.formed : ∀ {ts rest : List Token} {e : Expr}, Comparison ts e rest →
    Spelled ts → e.Formed ∧ Spelled rest
  | _, _, _, .term h, hs => h.formed hs
  | _, _, _, .join left _ right, hs => by
      obtain ⟨left, hs⟩ := left.formed hs
      obtain ⟨right, hs⟩ := right.formed (spelled_cons.1 hs).2
      exact ⟨⟨left, right⟩, hs⟩

theorem Term.formed : ∀ {ts rest : List Token} {e : Expr}, Term ts e rest →
    Spelled ts → e.Formed ∧ Spelled rest
  | _, _, _, .factor h, hs => h.formed hs
  | _, _, _, .join left _ right, hs => by
      obtain ⟨left, hs⟩ := left.formed hs
      obtain ⟨right, hs⟩ := right.formed (spelled_cons.1 hs).2
      exact ⟨⟨left, right⟩, hs⟩

theorem Factor.formed : ∀ {ts rest : List Token} {e : Expr}, Factor ts e rest →
    Spelled ts → e.Formed ∧ Spelled rest
  | _, _, _, .unary h, hs => h.formed hs
  | _, _, _, .join left _ right, hs => by
      obtain ⟨left, hs⟩ := left.formed hs
      obtain ⟨right, hs⟩ := right.formed (spelled_cons.1 hs).2
      exact ⟨⟨left, right⟩, hs⟩

theorem Unary.formed : ∀ {ts rest : List Token} {e : Expr}, Unary ts e rest →
    Spelled ts → e.Formed ∧ Spelled rest
  | _, _, _, .sign _ h, hs => h.formed (spelled_cons.1 hs).2
  | _, _, _, .call h, hs => h.formed hs

theorem Call.formed : ∀ {ts rest : List Token} {e : Expr}, Call ts e rest →
    Spelled ts → e.Formed ∧ Spelled rest
  | _, _, _, .primary h, hs => h.formed hs
  | _, _, _, .noArguments h _ _, hs => by
      obtain ⟨callee, hs⟩ := h.formed hs
      exact ⟨⟨callee, trivial⟩, (spelled_cons.1 (spelled_cons.1 hs).2).2⟩
  | _, _, _, .arguments h _ list _ _, hs => by
      obtain ⟨callee, hs⟩ := h.formed hs
      obtain ⟨list, hs⟩ := list.formed (spelled_cons.1 hs).2
      exact ⟨⟨callee, list⟩, (spelled_cons.1 hs).2⟩
  | _, _, _, .property h _ _, hs => by
      obtain ⟨object, hs⟩ := h.formed hs
      exact ⟨object, (spelled_cons.1 (spelled_cons.1 hs).2).2⟩

theorem Arguments.formed : ∀ {ts rest : List Token} {es : List Expr}, Arguments ts es rest →
    Spelled ts → Expr.FormedAll es ∧ Spelled rest
  | _, _, _, .last h, hs => by
      obtain ⟨e, hs⟩ := h.formed hs
      exact ⟨⟨e, trivial⟩, hs⟩
  | _, _, _, .more h _ list, hs => by
      obtain ⟨e, hs⟩ := h.formed hs
      obtain ⟨list, hs⟩ := list.formed (spelled_cons.1 hs).2
      exact ⟨⟨e, list⟩, hs⟩

theorem Primary.formed : ∀ {ts rest : List Token} {e : Expr}, Primary ts e rest →
    Spelled ts → e.Formed ∧ Spelled rest
  | _, _, _, .number _, hs | _, _, _, .string _, hs | _, _, _, .true _, hs
  | _, _, _, .false _, hs | _, _, _, .nil _, hs => ⟨trivial, (spelled_cons.1 hs).2⟩
  | _, _, _, .this kind, hs => by
      obtain ⟨hk, hs⟩ := spelled_cons.1 hs
      exact ⟨⟨hk.lexeme_eq kind, rfl⟩, hs⟩
  | _, _, _, .name kind, hs => by
      obtain ⟨hk, hs⟩ := spelled_cons.1 hs
      exact ⟨⟨hk.isName kind, rfl⟩, hs⟩
  | _, _, _, .group _ h _, hs => by
      obtain ⟨e, hs⟩ := h.formed (spelled_cons.1 hs).2
      exact ⟨e, (spelled_cons.1 hs).2⟩
  | _, _, _, .super kind _ _, hs => by
      obtain ⟨hk, hs⟩ := spelled_cons.1 hs
      exact ⟨⟨hk.lexeme_eq kind, rfl⟩, (spelled_cons.1 (spelled_cons.1 hs).2).2⟩

end

section Parts

variable {ts rest : List Token}

theorem OptionalExpression.formed {o : Option Expr} (h : OptionalExpression ts o rest)
    (hs : Spelled ts) : Expr.FormedOpt o ∧ Spelled rest := by
  cases h with
  | none => exact ⟨nofun, hs⟩
  | some h =>
      obtain ⟨e, hs⟩ := h.formed hs
      exact ⟨fun _ he => by cases he; exact e, hs⟩

theorem ExprStmt.formed {s : Stmt} (h : ExprStmt ts s rest) (hs : Spelled ts) :
    (s.Formed ∧ s.isDeclaration = false) ∧ Spelled rest := by
  obtain ⟨h, -⟩ := h
  obtain ⟨e, hs⟩ := h.formed hs
  exact ⟨⟨e, rfl⟩, (spelled_cons.1 hs).2⟩

theorem VarDecl.formed {s : Stmt} (h : VarDecl ts s rest) (hs : Spelled ts) :
    s.Formed ∧ Spelled rest := by
  cases h with
  | bare _ name _ =>
      obtain ⟨hx, hs⟩ := spelled_cons.1 (spelled_cons.1 hs).2
      exact ⟨⟨hx.isName name, nofun⟩, (spelled_cons.1 hs).2⟩
  | initial _ name _ h _ =>
      obtain ⟨hx, hs⟩ := spelled_cons.1 (spelled_cons.1 hs).2
      obtain ⟨e, hs⟩ := h.formed (spelled_cons.1 hs).2
      exact ⟨⟨hx.isName name, fun _ he => by cases he; exact e⟩, (spelled_cons.1 hs).2⟩

theorem ForInitial.formed {o : Option Stmt} (h : ForInitial ts o rest) (hs : Spelled ts) :
    (∀ s ∈ o, s.Formed) ∧ Spelled rest := by
  cases h with
  | varDecl h =>
      obtain ⟨s, hs⟩ := h.formed hs
      exact ⟨fun _ he => by cases he; exact s, hs⟩
  | exprStmt h =>
      obtain ⟨⟨s, -⟩, hs⟩ := h.formed hs
      exact ⟨fun _ he => by cases he; exact s, hs⟩
  | none _ => exact ⟨nofun, (spelled_cons.1 hs).2⟩

theorem Condition.formed {e : Expr} (h : Condition ts e rest) (hs : Spelled ts) :
    e.Formed ∧ Spelled rest := by
  obtain ⟨_, h, _⟩ := h
  obtain ⟨e, hs⟩ := h.formed (spelled_cons.1 hs).2
  exact ⟨e, (spelled_cons.1 hs).2⟩

theorem Parameters.formed {ps : List Token} (h : Parameters ts ps rest) :
    Spelled ts → (∀ p ∈ ps, p.IsName) ∧ Spelled rest := by
  induction h with
  | last name =>
      intro hs
      obtain ⟨hx, hs⟩ := spelled_cons.1 hs
      exact ⟨fun p hp => by cases List.mem_singleton.1 hp; exact hx.isName name, hs⟩
  | more name _ _ ih =>
      intro hs
      obtain ⟨hx, hs⟩ := spelled_cons.1 hs
      obtain ⟨more, hs⟩ := ih (spelled_cons.1 hs).2
      exact ⟨List.forall_mem_cons.2 ⟨hx.isName name, more⟩, hs⟩

theorem ParameterList.formed {ps : List Token} (h : ParameterList ts ps rest) (hs : Spelled ts) :
    (∀ p ∈ ps, p.IsName) ∧ Spelled rest := by
  cases h with
  | none => exact ⟨nofun, hs⟩
  | some h _ => exact h.formed hs

/-- The blocks and the loop that a `for` is written with are formed. -/
theorem forForm_formed {initial : Option Stmt} {condition increment : Option Expr} {body : Stmt}
    (hi : ∀ s ∈ initial, s.Formed) (hc : Expr.FormedOpt condition)
    (hn : Expr.FormedOpt increment) (hb : body.Formed ∧ body.isDeclaration = false) :
    (forForm initial condition increment body).Formed ∧
      (forForm initial condition increment body).isDeclaration = false := by
  have test : (condition.getD (.literal (.bool true))).Formed := by
    cases condition with
    | none => trivial
    | some e => exact hc e rfl
  cases initial with
  | none =>
      cases increment with
      | none => exact ⟨⟨test, hb⟩, rfl⟩
      | some step => exact ⟨⟨test, ⟨hb.1, hn step rfl, trivial⟩, rfl⟩, rfl⟩
  | some first =>
      cases increment with
      | none => exact ⟨⟨hi first rfl, ⟨test, hb⟩, trivial⟩, rfl⟩
      | some step => exact ⟨⟨hi first rfl, ⟨test, ⟨hb.1, hn step rfl, trivial⟩, rfl⟩, trivial⟩, rfl⟩

end Parts

variable {rule : ElseRule}

mutual

theorem Statement.formed : ∀ {isOpen : Bool} {ts rest : List Token} {s : Stmt},
    Statement rule isOpen ts s rest → Spelled ts →
    (s.Formed ∧ s.isDeclaration = false) ∧ Spelled rest
  | _, _, _, _, .exprStmt h, hs => h.formed hs
  | _, _, _, _, .for _ _ first test _ step _ body, hs => by
      obtain ⟨first, hs⟩ := first.formed (spelled_cons.1 (spelled_cons.1 hs).2).2
      obtain ⟨test, hs⟩ := test.formed hs
      obtain ⟨step, hs⟩ := step.formed (spelled_cons.1 hs).2
      obtain ⟨body, hs⟩ := body.formed (spelled_cons.1 hs).2
      exact ⟨forForm_formed first test step body, hs⟩
  | _, _, _, _, .ifThen _ test consequent, hs => by
      obtain ⟨test, hs⟩ := test.formed (spelled_cons.1 hs).2
      obtain ⟨consequent, hs⟩ := consequent.formed hs
      exact ⟨⟨⟨test, consequent⟩, rfl⟩, hs⟩
  | _, _, _, _, .ifElse _ test consequent _ _ alternative, hs => by
      obtain ⟨test, hs⟩ := test.formed (spelled_cons.1 hs).2
      obtain ⟨consequent, hs⟩ := consequent.formed hs
      obtain ⟨alternative, hs⟩ := alternative.formed (spelled_cons.1 hs).2
      exact ⟨⟨⟨test, consequent, alternative⟩, rfl⟩, hs⟩
  | _, _, _, _, .print _ h _, hs => by
      obtain ⟨e, hs⟩ := h.formed (spelled_cons.1 hs).2
      exact ⟨⟨e, rfl⟩, (spelled_cons.1 hs).2⟩
  | _, _, _, _, .return _ h _, hs => by
      obtain ⟨value, hs⟩ := h.formed (spelled_cons.1 hs).2
      exact ⟨⟨value, rfl⟩, (spelled_cons.1 hs).2⟩
  | _, _, _, _, .while _ test body, hs => by
      obtain ⟨test, hs⟩ := test.formed (spelled_cons.1 hs).2
      obtain ⟨body, hs⟩ := body.formed hs
      exact ⟨⟨⟨test, body⟩, rfl⟩, hs⟩
  | _, _, _, _, .block _ body _, hs => by
      obtain ⟨body, hs⟩ := body.formed (spelled_cons.1 hs).2
      exact ⟨⟨body, rfl⟩, (spelled_cons.1 hs).2⟩

theorem Declaration.formed : ∀ {ts rest : List Token} {s : Stmt}, Declaration rule ts s rest →
    Spelled ts → s.Formed ∧ Spelled rest
  | _, _, _, .rootClass _ name _ methods _, hs => by
      obtain ⟨hx, hs⟩ := spelled_cons.1 (spelled_cons.1 hs).2
      obtain ⟨methods, hs⟩ := methods.formed (spelled_cons.1 hs).2
      exact ⟨⟨hx.isName name, nofun, methods⟩, (spelled_cons.1 hs).2⟩
  | _, _, _, .subclass _ name _ parent _ methods _, hs => by
      obtain ⟨hx, hs⟩ := spelled_cons.1 (spelled_cons.1 hs).2
      obtain ⟨hy, hs⟩ := spelled_cons.1 (spelled_cons.1 hs).2
      obtain ⟨methods, hs⟩ := methods.formed (spelled_cons.1 hs).2
      refine ⟨⟨hx.isName name, fun _ he => ?_, methods⟩, (spelled_cons.1 hs).2⟩
      cases he
      exact ⟨_, rfl, hy.isName parent⟩
  | _, _, _, .funDecl _ function, hs => function.formed (spelled_cons.1 hs).2
  | _, _, _, .varDecl declaration, hs => declaration.formed hs
  | _, _, _, .statement statement, hs => by
      obtain ⟨⟨s, -⟩, hs⟩ := statement.formed hs
      exact ⟨s, hs⟩

theorem Function.formed : ∀ {ts rest : List Token} {f : FunctionDecl}, Function rule ts f rest →
    Spelled ts → f.Formed ∧ Spelled rest
  | _, _, _, .mk name _ list _ _ body _, hs => by
      obtain ⟨hx, hs⟩ := spelled_cons.1 hs
      obtain ⟨list, hs⟩ := list.formed (spelled_cons.1 hs).2
      obtain ⟨body, hs⟩ := body.formed (spelled_cons.1 (spelled_cons.1 hs).2).2
      exact ⟨⟨hx.isName name, list, body⟩, (spelled_cons.1 hs).2⟩

theorem Functions.formed : ∀ {ts rest : List Token} {fs : List FunctionDecl},
    Functions rule ts fs rest → Spelled ts → FunctionDecl.FormedAll fs ∧ Spelled rest
  | _, _, _, .nil, hs => ⟨trivial, hs⟩
  | _, _, _, .cons function functions, hs => by
      obtain ⟨function, hs⟩ := function.formed hs
      obtain ⟨functions, hs⟩ := functions.formed hs
      exact ⟨⟨function, functions⟩, hs⟩

theorem Declarations.formed : ∀ {ts rest : List Token} {ss : List Stmt},
    Declarations rule ts ss rest → Spelled ts → Stmt.FormedAll ss ∧ Spelled rest
  | _, _, _, .nil, hs => ⟨trivial, hs⟩
  | _, _, _, .cons declaration declarations, hs => by
      obtain ⟨declaration, hs⟩ := declaration.formed hs
      obtain ⟨declarations, hs⟩ := declarations.formed hs
      exact ⟨⟨declaration, declarations⟩, hs⟩

end

end Derivation

/-! ## What is read from source text -/

namespace Grammar

theorem content_spelled (source : String) : Derivation.Spelled (content (Scan.tokens source)) :=
  fun _ ht => Scan.tokens_spelled ((List.takeWhile_sublist _).subset ht)

theorem program_formed {source : String} {ss : List Stmt}
    (h : program (Scan.tokens source) = (ss, [])) : Stmt.FormedAll ss :=
  ((program_eq_iff.1 h).formed (content_spelled source)).1

theorem soleExpression_formed {source : String} {e : Expr}
    (h : soleExpression (Scan.tokens source) = (some e, [])) : e.Formed :=
  ((soleExpression_eq_iff.1 h).formed (content_spelled source)).1

end Grammar

end LoxLang
