import LoxLang.Proofs.Alike
import LoxLang.Proofs.ProgramGrammar

/-!
# Tokens that stand for each other are read alike

A derivation looks at the kinds of the tokens of its own sentence and at
nothing else. So where a sentence has a derivation, tokens that stand for those
of the sentence, one by one, have one too, whatever else is behind them, and
the trees are alike. Programs can therefore be read one behind the other.
-/

namespace LoxLang

/-- Nodes that have no depths yet may stand for each other. -/
def Likeness.Plain (L : Likeness) : Prop := L.depth none none

namespace Derivation

/-- Tokens that stand for those of a list, one by one, and more tokens behind them. -/
inductive Along (L : Likeness) (more : List Token) : List Token → List Token → Prop
  | done : Along L more [] more
  | next {t t' : Token} {ts us : List Token} (head : L.token t t') (tail : Along L more ts us) :
      Along L more (t :: ts) (t' :: us)

variable {L : Likeness} {more : List Token}

theorem along_nil {us : List Token} (h : Along L more [] us) : us = more := by
  cases h with
  | done => rfl

theorem along_map {f g : Token → Token} {ts : List Token} (h : ∀ t ∈ ts, L.token (f t) (g t)) :
    Along L more (ts.map f) (ts.map g ++ more) := by
  induction ts with
  | nil => exact .done
  | cons t ts ih =>
      obtain ⟨head, h⟩ := List.forall_mem_cons.1 h
      exact .next head (ih h)

theorem kind_of {t t' : Token} {kind : Token.Kind} (h : L.token t t') (hk : t.kind = kind) :
    t'.kind = kind := (L.kind_eq h).symm.trans hk

/-! ## Expressions -/

mutual

theorem Expression.along (plain : L.Plain) : ∀ {ts rest us : List Token} {e : Expr},
    Expression ts e rest → Along L more ts us →
      ∃ e' us', Expression us e' us' ∧ e.Alike L e' ∧ Along L more rest us'
  | _, _, _, _, .assign name eq h, .next x (.next equals tail) => by
      obtain ⟨_, _, h, value, tail⟩ := h.along plain tail
      exact ⟨_, _, .assign (kind_of x name) (kind_of equals eq) h, .assign x plain value, tail⟩
  | _, _, _, _, .set call point name eq h, tail => by
      obtain ⟨_, _, call, object, tail⟩ := call.along plain tail
      have .next dot (.next x (.next equals tail)) := tail
      obtain ⟨_, _, h, value, tail⟩ := h.along plain tail
      exact ⟨_, _, .set call (kind_of dot point) (kind_of x name) (kind_of equals eq) h,
        .set object x value, tail⟩
  | _, _, _, _, .or h, tail => by
      obtain ⟨_, _, h, e, tail⟩ := h.along plain tail
      exact ⟨_, _, .or h, e, tail⟩

theorem Or.along (plain : L.Plain) : ∀ {ts rest us : List Token} {e : Expr},
    Or ts e rest → Along L more ts us →
      ∃ e' us', Or us e' us' ∧ e.Alike L e' ∧ Along L more rest us'
  | _, _, _, _, .and h, tail => by
      obtain ⟨_, _, h, e, tail⟩ := h.along plain tail
      exact ⟨_, _, .and h, e, tail⟩
  | _, _, _, _, .join left operator right, tail => by
      obtain ⟨_, _, left, l, tail⟩ := left.along plain tail
      have .next t tail := tail
      obtain ⟨_, _, right, r, tail⟩ := right.along plain tail
      exact ⟨_, _, .join left (kind_of t operator) right, .logical l t r, tail⟩

theorem And.along (plain : L.Plain) : ∀ {ts rest us : List Token} {e : Expr},
    And ts e rest → Along L more ts us →
      ∃ e' us', And us e' us' ∧ e.Alike L e' ∧ Along L more rest us'
  | _, _, _, _, .equality h, tail => by
      obtain ⟨_, _, h, e, tail⟩ := h.along plain tail
      exact ⟨_, _, .equality h, e, tail⟩
  | _, _, _, _, .join left operator right, tail => by
      obtain ⟨_, _, left, l, tail⟩ := left.along plain tail
      have .next t tail := tail
      obtain ⟨_, _, right, r, tail⟩ := right.along plain tail
      exact ⟨_, _, .join left (kind_of t operator) right, .logical l t r, tail⟩

theorem Equality.along (plain : L.Plain) : ∀ {ts rest us : List Token} {e : Expr},
    Equality ts e rest → Along L more ts us →
      ∃ e' us', Equality us e' us' ∧ e.Alike L e' ∧ Along L more rest us'
  | _, _, _, _, .comparison h, tail => by
      obtain ⟨_, _, h, e, tail⟩ := h.along plain tail
      exact ⟨_, _, .comparison h, e, tail⟩
  | _, _, _, _, .join left operator right, tail => by
      obtain ⟨_, _, left, l, tail⟩ := left.along plain tail
      have .next t tail := tail
      obtain ⟨_, _, right, r, tail⟩ := right.along plain tail
      exact ⟨_, _, .join left (L.kind_eq t ▸ operator) right, .binary l t r, tail⟩

theorem Comparison.along (plain : L.Plain) : ∀ {ts rest us : List Token} {e : Expr},
    Comparison ts e rest → Along L more ts us →
      ∃ e' us', Comparison us e' us' ∧ e.Alike L e' ∧ Along L more rest us'
  | _, _, _, _, .term h, tail => by
      obtain ⟨_, _, h, e, tail⟩ := h.along plain tail
      exact ⟨_, _, .term h, e, tail⟩
  | _, _, _, _, .join left operator right, tail => by
      obtain ⟨_, _, left, l, tail⟩ := left.along plain tail
      have .next t tail := tail
      obtain ⟨_, _, right, r, tail⟩ := right.along plain tail
      exact ⟨_, _, .join left (L.kind_eq t ▸ operator) right, .binary l t r, tail⟩

theorem Term.along (plain : L.Plain) : ∀ {ts rest us : List Token} {e : Expr},
    Term ts e rest → Along L more ts us →
      ∃ e' us', Term us e' us' ∧ e.Alike L e' ∧ Along L more rest us'
  | _, _, _, _, .factor h, tail => by
      obtain ⟨_, _, h, e, tail⟩ := h.along plain tail
      exact ⟨_, _, .factor h, e, tail⟩
  | _, _, _, _, .join left operator right, tail => by
      obtain ⟨_, _, left, l, tail⟩ := left.along plain tail
      have .next t tail := tail
      obtain ⟨_, _, right, r, tail⟩ := right.along plain tail
      exact ⟨_, _, .join left (L.kind_eq t ▸ operator) right, .binary l t r, tail⟩

theorem Factor.along (plain : L.Plain) : ∀ {ts rest us : List Token} {e : Expr},
    Factor ts e rest → Along L more ts us →
      ∃ e' us', Factor us e' us' ∧ e.Alike L e' ∧ Along L more rest us'
  | _, _, _, _, .unary h, tail => by
      obtain ⟨_, _, h, e, tail⟩ := h.along plain tail
      exact ⟨_, _, .unary h, e, tail⟩
  | _, _, _, _, .join left operator right, tail => by
      obtain ⟨_, _, left, l, tail⟩ := left.along plain tail
      have .next t tail := tail
      obtain ⟨_, _, right, r, tail⟩ := right.along plain tail
      exact ⟨_, _, .join left (L.kind_eq t ▸ operator) right, .binary l t r, tail⟩

theorem Unary.along (plain : L.Plain) : ∀ {ts rest us : List Token} {e : Expr},
    Unary ts e rest → Along L more ts us →
      ∃ e' us', Unary us e' us' ∧ e.Alike L e' ∧ Along L more rest us'
  | _, _, _, _, .sign operator h, .next t tail => by
      obtain ⟨_, _, h, e, tail⟩ := h.along plain tail
      exact ⟨_, _, .sign (L.kind_eq t ▸ operator) h, .unary t e, tail⟩
  | _, _, _, _, .call h, tail => by
      obtain ⟨_, _, h, e, tail⟩ := h.along plain tail
      exact ⟨_, _, .call h, e, tail⟩

theorem Call.along (plain : L.Plain) : ∀ {ts rest us : List Token} {e : Expr},
    Call ts e rest → Along L more ts us →
      ∃ e' us', Call us e' us' ∧ e.Alike L e' ∧ Along L more rest us'
  | _, _, _, _, .primary h, tail => by
      obtain ⟨_, _, h, e, tail⟩ := h.along plain tail
      exact ⟨_, _, .primary h, e, tail⟩
  | _, _, _, _, .noArguments h opening close, tail => by
      obtain ⟨_, _, h, callee, tail⟩ := h.along plain tail
      have .next t (.next u tail) := tail
      exact ⟨_, _, .noArguments h (kind_of t opening) (kind_of u close),
        .call callee u .nil, tail⟩
  | _, _, _, _, .arguments h opening list close limit, tail => by
      obtain ⟨_, _, h, callee, tail⟩ := h.along plain tail
      have .next t tail := tail
      obtain ⟨_, _, list, es, tail⟩ := list.along plain tail
      have .next u tail := tail
      exact ⟨_, _, .arguments h (kind_of t opening) list (kind_of u close)
        (es.length_eq ▸ limit), .call callee u es, tail⟩
  | _, _, _, _, .property h point name, tail => by
      obtain ⟨_, _, h, object, tail⟩ := h.along plain tail
      have .next dot (.next x tail) := tail
      exact ⟨_, _, .property h (kind_of dot point) (kind_of x name), .get object x, tail⟩

theorem Arguments.along (plain : L.Plain) : ∀ {ts rest us : List Token} {es : List Expr},
    Arguments ts es rest → Along L more ts us →
      ∃ es' us', Arguments us es' us' ∧ Expr.AllAlike L es es' ∧ Along L more rest us'
  | _, _, _, _, .last h, tail => by
      obtain ⟨_, _, h, e, tail⟩ := h.along plain tail
      exact ⟨_, _, .last h, .cons e .nil, tail⟩
  | _, _, _, _, .more h sep list, tail => by
      obtain ⟨_, _, h, e, tail⟩ := h.along plain tail
      have .next comma tail := tail
      obtain ⟨_, _, list, es, tail⟩ := list.along plain tail
      exact ⟨_, _, .more h (kind_of comma sep) list, .cons e es, tail⟩

theorem Primary.along (plain : L.Plain) : ∀ {ts rest us : List Token} {e : Expr},
    Primary ts e rest → Along L more ts us →
      ∃ e' us', Primary us e' us' ∧ e.Alike L e' ∧ Along L more rest us'
  | _, _, _, _, .number kind, .next t tail => ⟨_, _, .number (kind_of t kind), .literal _, tail⟩
  | _, _, _, _, .string kind, .next t tail => ⟨_, _, .string (kind_of t kind), .literal _, tail⟩
  | _, _, _, _, .true kind, .next t tail => ⟨_, _, .true (kind_of t kind), .literal _, tail⟩
  | _, _, _, _, .false kind, .next t tail => ⟨_, _, .false (kind_of t kind), .literal _, tail⟩
  | _, _, _, _, .nil kind, .next t tail => ⟨_, _, .nil (kind_of t kind), .literal _, tail⟩
  | _, _, _, _, .this kind, .next t tail => ⟨_, _, .this (kind_of t kind), .this t plain, tail⟩
  | _, _, _, _, .name kind, .next t tail => ⟨_, _, .name (kind_of t kind), .name t plain, tail⟩
  | _, _, _, _, .group opening h close, .next t tail => by
      obtain ⟨_, _, h, e, tail⟩ := h.along plain tail
      have .next u tail := tail
      exact ⟨_, _, .group (kind_of t opening) h (kind_of u close), .group e, tail⟩
  | _, _, _, _, .super kind point method, .next t (.next dot (.next x tail)) =>
      ⟨_, _, .super (kind_of t kind) (kind_of dot point) (kind_of x method), .super t plain x, tail⟩

end

/-! ## Parts of statements -/

section Parts

variable {ts rest us : List Token}

theorem Parameters.along {ps : List Token} (h : Parameters ts ps rest) :
    Along L more ts us →
      ∃ ps' us', Parameters us ps' us' ∧ List.Forall₂ L.token ps ps' ∧ Along L more rest us' := by
  induction h generalizing us with
  | last name =>
      intro tail
      have .next x tail := tail
      exact ⟨_, _, .last (kind_of x name), .cons x .nil, tail⟩
  | more name sep _ ih =>
      intro tail
      have .next x (.next comma tail) := tail
      obtain ⟨_, _, h, ps, tail⟩ := ih tail
      exact ⟨_, _, .more (kind_of x name) (kind_of comma sep) h, .cons x ps, tail⟩

theorem ParameterList.along {ps : List Token} (h : ParameterList ts ps rest)
    (tail : Along L more ts us) :
    ∃ ps' us', ParameterList us ps' us' ∧ List.Forall₂ L.token ps ps' ∧ Along L more rest us' := by
  cases h with
  | none => exact ⟨_, _, .none, .nil, tail⟩
  | some h limit =>
      obtain ⟨_, _, h, ps, tail⟩ := h.along tail
      exact ⟨_, _, .some h (ps.length_eq ▸ limit), ps, tail⟩

theorem OptionalExpression.along (plain : L.Plain) {o : Option Expr}
    (h : OptionalExpression ts o rest) (tail : Along L more ts us) :
    ∃ o' us', OptionalExpression us o' us' ∧ Option.Rel (Expr.Alike L) o o' ∧
      Along L more rest us' := by
  cases h with
  | none => exact ⟨_, _, .none, .none, tail⟩
  | some h =>
      obtain ⟨_, _, h, e, tail⟩ := h.along plain tail
      exact ⟨_, _, .some h, .some e, tail⟩

theorem VarDecl.along (plain : L.Plain) {s : Stmt} (h : VarDecl ts s rest)
    (tail : Along L more ts us) :
    ∃ s' us', VarDecl us s' us' ∧ s.Alike L s' ∧ Along L more rest us' := by
  cases h with
  | bare word name stop =>
      have .next t (.next x (.next semi tail)) := tail
      exact ⟨_, _, .bare (kind_of t word) (kind_of x name) (kind_of semi stop), .var x .none, tail⟩
  | initial word name eq h stop =>
      have .next t (.next x (.next equals tail)) := tail
      obtain ⟨_, _, h, e, tail⟩ := h.along plain tail
      have .next semi tail := tail
      exact ⟨_, _, .initial (kind_of t word) (kind_of x name) (kind_of equals eq) h
        (kind_of semi stop), .var x (.some e), tail⟩

theorem ExprStmt.along (plain : L.Plain) {s : Stmt} (h : ExprStmt ts s rest)
    (tail : Along L more ts us) :
    ∃ s' us', ExprStmt us s' us' ∧ s.Alike L s' ∧ Along L more rest us' := by
  obtain ⟨h, stop⟩ := h
  obtain ⟨_, _, h, e, tail⟩ := h.along plain tail
  have .next semi tail := tail
  exact ⟨_, _, .mk h (kind_of semi stop), .expr e, tail⟩

theorem ForInitial.along (plain : L.Plain) {o : Option Stmt} (h : ForInitial ts o rest)
    (tail : Along L more ts us) :
    ∃ o' us', ForInitial us o' us' ∧ Option.Rel (Stmt.Alike L) o o' ∧ Along L more rest us' := by
  cases h with
  | varDecl h =>
      obtain ⟨_, _, h, s, tail⟩ := h.along plain tail
      exact ⟨_, _, .varDecl h, .some s, tail⟩
  | exprStmt h =>
      obtain ⟨_, _, h, s, tail⟩ := h.along plain tail
      exact ⟨_, _, .exprStmt h, .some s, tail⟩
  | none stop =>
      have .next semi tail := tail
      exact ⟨_, _, .none (kind_of semi stop), .none, tail⟩

theorem Condition.along (plain : L.Plain) {e : Expr} (h : Condition ts e rest)
    (tail : Along L more ts us) :
    ∃ e' us', Condition us e' us' ∧ e.Alike L e' ∧ Along L more rest us' := by
  obtain ⟨opening, h, close⟩ := h
  have .next t tail := tail
  obtain ⟨_, _, h, e, tail⟩ := h.along plain tail
  have .next u tail := tail
  exact ⟨_, _, .mk (kind_of t opening) h (kind_of u close), e, tail⟩

theorem forForm_alike {first first' : Option Stmt} {test test' step step' : Option Expr}
    {body body' : Stmt} (hi : Option.Rel (Stmt.Alike L) first first')
    (hc : Option.Rel (Expr.Alike L) test test') (hn : Option.Rel (Expr.Alike L) step step')
    (hb : body.Alike L body') :
    (forForm first test step body).Alike L (forForm first' test' step' body') := by
  have condition : (test.getD (.literal (.bool true))).Alike L
      (test'.getD (.literal (.bool true))) := by
    cases hc with
    | none => exact .literal _
    | some h => exact h
  cases hi with
  | none =>
      cases hn with
      | none => exact .whileDo condition hb
      | some hn => exact .whileDo condition (.block (.cons hb (.cons (.expr hn) .nil)))
  | some hi =>
      cases hn with
      | none => exact .block (.cons hi (.cons (.whileDo condition hb) .nil))
      | some hn =>
          exact .block (.cons hi (.cons (.whileDo condition
            (.block (.cons hb (.cons (.expr hn) .nil)))) .nil))

end Parts

/-! ## Statements -/

variable {rule : ElseRule}

mutual

theorem Statement.along (plain : L.Plain) : ∀ {isOpen : Bool} {ts rest us : List Token} {s : Stmt},
    Statement rule isOpen ts s rest → Along L more ts us →
      ∃ s' us', Statement rule isOpen us s' us' ∧ s.Alike L s' ∧ Along L more rest us'
  | _, _, _, _, _, .exprStmt h, tail => by
      obtain ⟨_, _, h, s, tail⟩ := h.along plain tail
      exact ⟨_, _, .exprStmt h, s, tail⟩
  | _, _, _, _, _, .for word opening first test stop step close body, .next t (.next u tail) => by
      obtain ⟨_, _, first, initial, tail⟩ := first.along plain tail
      obtain ⟨_, _, test, condition, tail⟩ := test.along plain tail
      have .next semi tail := tail
      obtain ⟨_, _, step, increment, tail⟩ := step.along plain tail
      have .next v tail := tail
      obtain ⟨_, _, body, s, tail⟩ := body.along plain tail
      exact ⟨_, _, .for (kind_of t word) (kind_of u opening) first test (kind_of semi stop) step
        (kind_of v close) body, forForm_alike initial condition increment s, tail⟩
  | _, _, _, _, _, .ifThen word test consequent, .next t tail => by
      obtain ⟨_, _, test, condition, tail⟩ := test.along plain tail
      obtain ⟨_, _, consequent, s, tail⟩ := consequent.along plain tail
      exact ⟨_, _, .ifThen (kind_of t word) test consequent, .ifThen condition s, tail⟩
  | _, _, _, _, _, .ifElse word test consequent word' nearest alternative, .next t tail => by
      obtain ⟨_, _, test, condition, tail⟩ := test.along plain tail
      obtain ⟨_, _, consequent, s, tail⟩ := consequent.along plain tail
      have .next u tail := tail
      obtain ⟨_, _, alternative, o, tail⟩ := alternative.along plain tail
      exact ⟨_, _, .ifElse (kind_of t word) test consequent (kind_of u word') nearest alternative,
        .ifElse condition s o, tail⟩
  | _, _, _, _, _, .print word h stop, .next t tail => by
      obtain ⟨_, _, h, e, tail⟩ := h.along plain tail
      have .next semi tail := tail
      exact ⟨_, _, .print (kind_of t word) h (kind_of semi stop), .print e, tail⟩
  | _, _, _, _, _, .return word h stop, .next t tail => by
      obtain ⟨_, _, h, value, tail⟩ := h.along plain tail
      have .next semi tail := tail
      exact ⟨_, _, .return (kind_of t word) h (kind_of semi stop), .returning t value, tail⟩
  | _, _, _, _, _, .while word test body, .next t tail => by
      obtain ⟨_, _, test, condition, tail⟩ := test.along plain tail
      obtain ⟨_, _, body, s, tail⟩ := body.along plain tail
      exact ⟨_, _, .while (kind_of t word) test body, .whileDo condition s, tail⟩
  | _, _, _, _, _, .block opening body close, .next t tail => by
      obtain ⟨_, _, body, ss, tail⟩ := body.along plain tail
      have .next u tail := tail
      exact ⟨_, _, .block (kind_of t opening) body (kind_of u close), .block ss, tail⟩

theorem Declaration.along (plain : L.Plain) : ∀ {ts rest us : List Token} {s : Stmt},
    Declaration rule ts s rest → Along L more ts us →
      ∃ s' us', Declaration rule us s' us' ∧ s.Alike L s' ∧ Along L more rest us'
  | _, _, _, _, .rootClass word name opening methods close, .next t (.next x (.next u tail)) => by
      obtain ⟨_, _, methods, fs, tail⟩ := methods.along plain tail
      have .next v tail := tail
      exact ⟨_, _, .rootClass (kind_of t word) (kind_of x name) (kind_of u opening) methods
        (kind_of v close), .classDecl x .none fs, tail⟩
  | _, _, _, _, .subclass word name below parent opening methods close,
      .next t (.next x (.next less (.next y (.next u tail)))) => by
      obtain ⟨_, _, methods, fs, tail⟩ := methods.along plain tail
      have .next v tail := tail
      exact ⟨_, _, .subclass (kind_of t word) (kind_of x name) (kind_of less below)
        (kind_of y parent) (kind_of u opening) methods (kind_of v close),
        .classDecl x (.some (.name y plain)) fs, tail⟩
  | _, _, _, _, .funDecl word function, .next t tail => by
      obtain ⟨_, _, function, f, tail⟩ := function.along plain tail
      exact ⟨_, _, .funDecl (kind_of t word) function, .function f, tail⟩
  | _, _, _, _, .varDecl h, tail => by
      obtain ⟨_, _, h, s, tail⟩ := h.along plain tail
      exact ⟨_, _, .varDecl h, s, tail⟩
  | _, _, _, _, .statement h, tail => by
      obtain ⟨_, _, h, s, tail⟩ := h.along plain tail
      exact ⟨_, _, .statement h, s, tail⟩

theorem Function.along (plain : L.Plain) : ∀ {ts rest us : List Token} {f : FunctionDecl},
    Function rule ts f rest → Along L more ts us →
      ∃ f' us', Function rule us f' us' ∧ f.Alike L f' ∧ Along L more rest us'
  | _, _, _, _, .mk name opening list close openBody body closeBody, .next x (.next t tail) => by
      obtain ⟨_, _, list, ps, tail⟩ := list.along tail
      have .next u (.next v tail) := tail
      obtain ⟨_, _, body, ss, tail⟩ := body.along plain tail
      have .next w tail := tail
      exact ⟨_, _, .mk (kind_of x name) (kind_of t opening) list (kind_of u close)
        (kind_of v openBody) body (kind_of w closeBody), .mk x ps ss, tail⟩

theorem Functions.along (plain : L.Plain) : ∀ {ts rest us : List Token} {fs : List FunctionDecl},
    Functions rule ts fs rest → Along L more ts us →
      ∃ fs' us', Functions rule us fs' us' ∧ FunctionDecl.AllAlike L fs fs' ∧
        Along L more rest us'
  | _, _, _, _, .nil, tail => ⟨_, _, .nil, .nil, tail⟩
  | _, _, _, _, .cons function functions, tail => by
      obtain ⟨_, _, function, f, tail⟩ := function.along plain tail
      obtain ⟨_, _, functions, fs, tail⟩ := functions.along plain tail
      exact ⟨_, _, .cons function functions, .cons f fs, tail⟩

theorem Declarations.along (plain : L.Plain) : ∀ {ts rest us : List Token} {ss : List Stmt},
    Declarations rule ts ss rest → Along L more ts us →
      ∃ ss' us', Declarations rule us ss' us' ∧ Stmt.AllAlike L ss ss' ∧ Along L more rest us'
  | _, _, _, _, .nil, tail => ⟨_, _, .nil, .nil, tail⟩
  | _, _, _, _, .cons declaration declarations, tail => by
      obtain ⟨_, _, declaration, s, tail⟩ := declaration.along plain tail
      obtain ⟨_, _, declarations, ss, tail⟩ := declarations.along plain tail
      exact ⟨_, _, .cons declaration declarations, .cons s ss, tail⟩

end

/-! ## One program behind the other -/

theorem Declarations.append {ts mid rest : List Token} {ss ss' : List Stmt}
    (h : Declarations rule ts ss mid) :
    Declarations rule mid ss' rest → Declarations rule ts (ss ++ ss') rest := by
  intro h'
  induction ss generalizing ts with
  | nil =>
      cases h with
      | nil => exact h'
  | cons s ss ih =>
      cases h with
      | cons declaration declarations => exact .cons declaration (ih declarations)

/-- Where tokens are a program, tokens that stand for them are one. -/
theorem Program.along (plain : L.Plain) {f g : Token → Token} {ts : List Token} {ss : List Stmt}
    (h : Program rule (ts.map f) ss) (hfg : ∀ t ∈ ts, L.token (f t) (g t)) :
    ∃ ss', Program rule (ts.map g) ss' ∧ Stmt.AllAlike L ss ss' := by
  obtain ⟨ss', rest, derivation, alike, tail⟩ := Declarations.along plain h (along_map hfg)
  rw [along_nil tail, List.append_nil] at derivation
  exact ⟨ss', derivation, alike⟩

end Derivation

end LoxLang
