import LoxLang.Proofs.ProgramGrammar
import LoxLang.Proofs.ReadableTrees
import LoxLang.Proofs.Sessions

/-!
# Printed trees are unambiguous

Every tree that is read without errors, from a source without strings and with
numbers that are finite, can be read back from its printed form. So two trees
with the same printed form are the same but for the lines of their tokens.

Strings have to be left out because they are printed without quotes, and
numbers that are too large because they are all printed alike.
-/

namespace LoxLang

/-! ## Derivations give readable trees -/

namespace Derivation

/-- All tokens can be read back. -/
def Legible (ts : List Token) : Prop := ∀ t ∈ ts, t.Legible

theorem legible_cons {t : Token} {ts : List Token} :
    Legible (t :: ts) ↔ t.Legible ∧ Legible ts := List.forall_mem_cons

mutual

theorem Expression.readable : ∀ {ts rest : List Token} {e : Expr}, Expression ts e rest →
    Legible ts → e.Readable ∧ Legible rest
  | _, _, _, .assign name _ value, hs => by
      obtain ⟨hx, _, hs⟩ := (legible_cons.1 hs).imp id legible_cons.1
      obtain ⟨value, hs⟩ := value.readable hs
      exact ⟨.assign hx name value, hs⟩
  | _, _, _, .set call _ name _ value, hs => by
      obtain ⟨call, hs⟩ := call.readable hs
      obtain ⟨hx, hs⟩ := legible_cons.1 (legible_cons.1 hs).2
      obtain ⟨value, hs⟩ := value.readable (legible_cons.1 hs).2
      exact ⟨.set call hx name value, hs⟩
  | _, _, _, .or or, hs => or.readable hs

theorem Or.readable : ∀ {ts rest : List Token} {e : Expr}, Or ts e rest →
    Legible ts → e.Readable ∧ Legible rest
  | _, _, _, .and h, hs => h.readable hs
  | _, _, _, .join left operator right, hs => by
      obtain ⟨left, hs⟩ := left.readable hs
      obtain ⟨ht, hs⟩ := legible_cons.1 hs
      obtain ⟨right, hs⟩ := right.readable hs
      exact ⟨.logical (by decide) ht operator left right, hs⟩

theorem And.readable : ∀ {ts rest : List Token} {e : Expr}, And ts e rest →
    Legible ts → e.Readable ∧ Legible rest
  | _, _, _, .equality h, hs => h.readable hs
  | _, _, _, .join left operator right, hs => by
      obtain ⟨left, hs⟩ := left.readable hs
      obtain ⟨ht, hs⟩ := legible_cons.1 hs
      obtain ⟨right, hs⟩ := right.readable hs
      exact ⟨.logical (by decide) ht operator left right, hs⟩

theorem Equality.readable : ∀ {ts rest : List Token} {e : Expr}, Equality ts e rest →
    Legible ts → e.Readable ∧ Legible rest
  | _, _, _, .comparison h, hs => h.readable hs
  | _, _, _, .join left operator right, hs => by
      obtain ⟨left, hs⟩ := left.readable hs
      obtain ⟨ht, hs⟩ := legible_cons.1 hs
      obtain ⟨right, hs⟩ := right.readable hs
      refine ⟨?_, hs⟩
      rcases operator with kind | kind <;> exact .binary (by decide) ht kind left right

theorem Comparison.readable : ∀ {ts rest : List Token} {e : Expr}, Comparison ts e rest →
    Legible ts → e.Readable ∧ Legible rest
  | _, _, _, .term h, hs => h.readable hs
  | _, _, _, .join left operator right, hs => by
      obtain ⟨left, hs⟩ := left.readable hs
      obtain ⟨ht, hs⟩ := legible_cons.1 hs
      obtain ⟨right, hs⟩ := right.readable hs
      refine ⟨?_, hs⟩
      rcases operator with kind | kind | kind | kind <;>
        exact .binary (by decide) ht kind left right

theorem Term.readable : ∀ {ts rest : List Token} {e : Expr}, Term ts e rest →
    Legible ts → e.Readable ∧ Legible rest
  | _, _, _, .factor h, hs => h.readable hs
  | _, _, _, .join left operator right, hs => by
      obtain ⟨left, hs⟩ := left.readable hs
      obtain ⟨ht, hs⟩ := legible_cons.1 hs
      obtain ⟨right, hs⟩ := right.readable hs
      refine ⟨?_, hs⟩
      rcases operator with kind | kind <;> exact .binary (by decide) ht kind left right

theorem Factor.readable : ∀ {ts rest : List Token} {e : Expr}, Factor ts e rest →
    Legible ts → e.Readable ∧ Legible rest
  | _, _, _, .unary h, hs => h.readable hs
  | _, _, _, .join left operator right, hs => by
      obtain ⟨left, hs⟩ := left.readable hs
      obtain ⟨ht, hs⟩ := legible_cons.1 hs
      obtain ⟨right, hs⟩ := right.readable hs
      refine ⟨?_, hs⟩
      rcases operator with kind | kind <;> exact .binary (by decide) ht kind left right

theorem Unary.readable : ∀ {ts rest : List Token} {e : Expr}, Unary ts e rest →
    Legible ts → e.Readable ∧ Legible rest
  | _, _, _, .sign operator h, hs => by
      obtain ⟨ht, hs⟩ := legible_cons.1 hs
      obtain ⟨operand, hs⟩ := h.readable hs
      refine ⟨?_, hs⟩
      rcases operator with kind | kind <;> exact .unary (by decide) ht kind operand
  | _, _, _, .call h, hs => h.readable hs

theorem Call.readable : ∀ {ts rest : List Token} {e : Expr}, Call ts e rest →
    Legible ts → e.Readable ∧ Legible rest
  | _, _, _, .primary h, hs => h.readable hs
  | _, _, _, .noArguments h _ close, hs => by
      obtain ⟨callee, hs⟩ := h.readable hs
      obtain ⟨closing, hs⟩ := legible_cons.1 (legible_cons.1 hs).2
      exact ⟨.call callee closing close .nil, hs⟩
  | _, _, _, .arguments h _ list close _, hs => by
      obtain ⟨callee, hs⟩ := h.readable hs
      obtain ⟨list, hs⟩ := list.readable (legible_cons.1 hs).2
      obtain ⟨closing, hs⟩ := legible_cons.1 hs
      exact ⟨.call callee closing close list, hs⟩
  | _, _, _, .property h _ name, hs => by
      obtain ⟨object, hs⟩ := h.readable hs
      obtain ⟨hx, hs⟩ := legible_cons.1 (legible_cons.1 hs).2
      exact ⟨.get object hx name, hs⟩

theorem Arguments.readable : ∀ {ts rest : List Token} {es : List Expr}, Arguments ts es rest →
    Legible ts → Expr.AllReadable es ∧ Legible rest
  | _, _, _, .last h, hs => by
      obtain ⟨e, hs⟩ := h.readable hs
      exact ⟨.singleton e, hs⟩
  | _, _, _, .more h _ list, hs => by
      obtain ⟨e, hs⟩ := h.readable hs
      obtain ⟨list, hs⟩ := list.readable (legible_cons.1 hs).2
      exact ⟨.cons e list, hs⟩

theorem Primary.readable : ∀ {ts rest : List Token} {e : Expr}, Primary ts e rest →
    Legible ts → e.Readable ∧ Legible rest
  | _, _, _, .number kind, hs => by
      obtain ⟨ht, hs⟩ := legible_cons.1 hs
      unfold Token.Legible at ht
      rw [kind] at ht
      exact ⟨.number ht.choose_spec, hs⟩
  | _, _, _, .string kind, hs => by
      obtain ⟨ht, hs⟩ := legible_cons.1 hs
      unfold Token.Legible at ht
      rw [kind] at ht
      exact ht.elim
  | _, _, _, .true _, hs => ⟨.bool true, (legible_cons.1 hs).2⟩
  | _, _, _, .false _, hs => ⟨.bool false, (legible_cons.1 hs).2⟩
  | _, _, _, .nil _, hs => ⟨.nil, (legible_cons.1 hs).2⟩
  | _, _, _, .this kind, hs => by
      obtain ⟨ht, hs⟩ := legible_cons.1 hs
      exact ⟨.this ht kind, hs⟩
  | _, _, _, .name kind, hs => by
      obtain ⟨ht, hs⟩ := legible_cons.1 hs
      exact ⟨.name ht kind, hs⟩
  | _, _, _, .group _ h _, hs => by
      obtain ⟨e, hs⟩ := h.readable (legible_cons.1 hs).2
      exact ⟨.group e, (legible_cons.1 hs).2⟩
  | _, _, _, .super kind _ method, hs => by
      obtain ⟨ht, hs⟩ := legible_cons.1 hs
      obtain ⟨hx, hs⟩ := legible_cons.1 (legible_cons.1 hs).2
      exact ⟨.super ht kind hx method, hs⟩

end

section Parts

variable {ts rest : List Token}

theorem OptionalExpression.readable {o : Option Expr} (h : OptionalExpression ts o rest)
    (hs : Legible ts) : Expr.OptReadable o ∧ Legible rest := by
  cases h with
  | none => exact ⟨.none, hs⟩
  | some h =>
      obtain ⟨e, hs⟩ := h.readable hs
      exact ⟨.some e, hs⟩

theorem ExprStmt.readable {s : Stmt} (h : ExprStmt ts s rest) (hs : Legible ts) :
    s.Readable ∧ Legible rest := by
  obtain ⟨h, -⟩ := h
  obtain ⟨e, hs⟩ := h.readable hs
  exact ⟨.expr e, (legible_cons.1 hs).2⟩

theorem VarDecl.readable {s : Stmt} (h : VarDecl ts s rest) (hs : Legible ts) :
    s.Readable ∧ Legible rest := by
  cases h with
  | bare _ name _ =>
      obtain ⟨hx, hs⟩ := legible_cons.1 (legible_cons.1 hs).2
      exact ⟨.var hx name .none, (legible_cons.1 hs).2⟩
  | initial _ name _ h _ =>
      obtain ⟨hx, hs⟩ := legible_cons.1 (legible_cons.1 hs).2
      obtain ⟨e, hs⟩ := h.readable (legible_cons.1 hs).2
      exact ⟨.var hx name (.some e), (legible_cons.1 hs).2⟩

theorem ForInitial.readable {o : Option Stmt} (h : ForInitial ts o rest) (hs : Legible ts) :
    (∀ s ∈ o, s.Readable) ∧ Legible rest := by
  cases h with
  | varDecl h =>
      obtain ⟨s, hs⟩ := h.readable hs
      exact ⟨fun _ he => by cases he; exact s, hs⟩
  | exprStmt h =>
      obtain ⟨s, hs⟩ := h.readable hs
      exact ⟨fun _ he => by cases he; exact s, hs⟩
  | none _ => exact ⟨fun _ h => (Option.not_mem_none _ h).elim, (legible_cons.1 hs).2⟩

theorem Condition.readable {e : Expr} (h : Condition ts e rest) (hs : Legible ts) :
    e.Readable ∧ Legible rest := by
  obtain ⟨_, h, _⟩ := h
  obtain ⟨e, hs⟩ := h.readable (legible_cons.1 hs).2
  exact ⟨e, (legible_cons.1 hs).2⟩

theorem Parameters.readable {ps : List Token} (h : Parameters ts ps rest) :
    Legible ts → (∀ p ∈ ps, p.Legible ∧ p.kind = .identifier) ∧ Legible rest := by
  induction h with
  | last name =>
      intro hs
      obtain ⟨hx, hs⟩ := legible_cons.1 hs
      exact ⟨List.forall_mem_singleton.2 ⟨hx, name⟩, hs⟩
  | more name _ _ ih =>
      intro hs
      obtain ⟨hx, hs⟩ := legible_cons.1 hs
      obtain ⟨more, hs⟩ := ih (legible_cons.1 hs).2
      exact ⟨List.forall_mem_cons.2 ⟨⟨hx, name⟩, more⟩, hs⟩

theorem ParameterList.readable {ps : List Token} (h : ParameterList ts ps rest) (hs : Legible ts) :
    (∀ p ∈ ps, p.Legible ∧ p.kind = .identifier) ∧ Legible rest := by
  cases h with
  | none => exact ⟨List.forall_mem_nil _, hs⟩
  | some h _ => exact h.readable hs

/-- The blocks and the loop that a `for` is written with are readable. -/
theorem forForm_readable {initial : Option Stmt} {condition increment : Option Expr} {body : Stmt}
    (hi : ∀ s ∈ initial, s.Readable) (hc : Expr.OptReadable condition)
    (hn : Expr.OptReadable increment) (hb : body.Readable) :
    (forForm initial condition increment body).Readable := by
  have test : (condition.getD (.literal (.bool true))).Readable := by
    cases condition with
    | none => exact .bool true
    | some e => exact hc e rfl
  cases initial with
  | none =>
      cases increment with
      | none => exact .whileDo test hb
      | some step => exact .whileDo test (.block (.cons hb (.cons (.expr (hn step rfl)) .nil)))
  | some first =>
      cases increment with
      | none => exact .block (.cons (hi first rfl) (.cons (.whileDo test hb) .nil))
      | some step =>
          have body := Stmt.Readable.block (.cons hb (.cons (.expr (hn step rfl)) .nil))
          exact .block (.cons (hi first rfl) (.cons (.whileDo test body) .nil))

end Parts

variable {rule : ElseRule}

mutual

theorem Statement.readable : ∀ {isOpen : Bool} {ts rest : List Token} {s : Stmt},
    Statement rule isOpen ts s rest → Legible ts → s.Readable ∧ Legible rest
  | _, _, _, _, .exprStmt h, hs => h.readable hs
  | _, _, _, _, .for _ _ first test _ step _ body, hs => by
      obtain ⟨first, hs⟩ := first.readable (legible_cons.1 (legible_cons.1 hs).2).2
      obtain ⟨test, hs⟩ := test.readable hs
      obtain ⟨step, hs⟩ := step.readable (legible_cons.1 hs).2
      obtain ⟨body, hs⟩ := body.readable (legible_cons.1 hs).2
      exact ⟨forForm_readable first test step body, hs⟩
  | _, _, _, _, .ifThen _ test consequent, hs => by
      obtain ⟨test, hs⟩ := test.readable (legible_cons.1 hs).2
      obtain ⟨consequent, hs⟩ := consequent.readable hs
      exact ⟨.ifThen test consequent, hs⟩
  | _, _, _, _, .ifElse _ test consequent _ _ alternative, hs => by
      obtain ⟨test, hs⟩ := test.readable (legible_cons.1 hs).2
      obtain ⟨consequent, hs⟩ := consequent.readable hs
      obtain ⟨alternative, hs⟩ := alternative.readable (legible_cons.1 hs).2
      exact ⟨.ifElse test consequent alternative, hs⟩
  | _, _, _, _, .print _ h _, hs => by
      obtain ⟨e, hs⟩ := h.readable (legible_cons.1 hs).2
      exact ⟨.print e, (legible_cons.1 hs).2⟩
  | _, _, _, _, .return word h _, hs => by
      obtain ⟨keyword, hs⟩ := legible_cons.1 hs
      obtain ⟨value, hs⟩ := h.readable hs
      exact ⟨.returning keyword word value, (legible_cons.1 hs).2⟩
  | _, _, _, _, .while _ test body, hs => by
      obtain ⟨test, hs⟩ := test.readable (legible_cons.1 hs).2
      obtain ⟨body, hs⟩ := body.readable hs
      exact ⟨.whileDo test body, hs⟩
  | _, _, _, _, .block _ body _, hs => by
      obtain ⟨body, -, hs⟩ := body.readable (legible_cons.1 hs).2
      exact ⟨.block body, (legible_cons.1 hs).2⟩

theorem Declaration.readable : ∀ {ts rest : List Token} {s : Stmt}, Declaration rule ts s rest →
    Legible ts → s.Readable ∧ Legible rest
  | _, _, _, .rootClass _ name _ methods _, hs => by
      obtain ⟨hx, hs⟩ := legible_cons.1 (legible_cons.1 hs).2
      obtain ⟨methods, hs⟩ := methods.readable (legible_cons.1 hs).2
      exact ⟨.classDecl hx name .none methods, (legible_cons.1 hs).2⟩
  | _, _, _, .subclass _ name _ parent _ methods _, hs => by
      obtain ⟨hx, hs⟩ := legible_cons.1 (legible_cons.1 hs).2
      obtain ⟨hy, hs⟩ := legible_cons.1 (legible_cons.1 hs).2
      obtain ⟨methods, hs⟩ := methods.readable (legible_cons.1 hs).2
      exact ⟨.classDecl hx name (.some (.name hy parent)) methods, (legible_cons.1 hs).2⟩
  | _, _, _, .funDecl _ function, hs => by
      obtain ⟨function, hs⟩ := function.readable (legible_cons.1 hs).2
      exact ⟨.function function, hs⟩
  | _, _, _, .varDecl declaration, hs => declaration.readable hs
  | _, _, _, .statement statement, hs => statement.readable hs

theorem Function.readable : ∀ {ts rest : List Token} {f : FunctionDecl}, Function rule ts f rest →
    Legible ts → f.Readable ∧ Legible rest
  | _, _, _, .mk name _ list _ _ body _, hs => by
      obtain ⟨hx, hs⟩ := legible_cons.1 hs
      obtain ⟨list, hs⟩ := list.readable (legible_cons.1 hs).2
      obtain ⟨body, -, hs⟩ := body.readable (legible_cons.1 (legible_cons.1 hs).2).2
      exact ⟨.mk hx name list body, (legible_cons.1 hs).2⟩

theorem Functions.readable : ∀ {ts rest : List Token} {fs : List FunctionDecl},
    Functions rule ts fs rest → Legible ts → FunctionDecl.AllReadable fs ∧ Legible rest
  | _, _, _, .nil, hs => ⟨.nil, hs⟩
  | _, _, _, .cons function functions, hs => by
      obtain ⟨function, hs⟩ := function.readable hs
      obtain ⟨functions, hs⟩ := functions.readable hs
      exact ⟨.cons function functions, hs⟩

theorem Declarations.readable : ∀ {ts rest : List Token} {ss : List Stmt},
    Declarations rule ts ss rest → Legible ts →
    Stmt.AllReadable ss ∧ (∀ s ∈ ss, s.Readable) ∧ Legible rest
  | _, _, _, .nil, hs => ⟨.nil, List.forall_mem_nil _, hs⟩
  | _, _, _, .cons declaration declarations, hs => by
      obtain ⟨s, hs⟩ := declaration.readable hs
      obtain ⟨all, each, hs⟩ := declarations.readable hs
      exact ⟨.cons s all, List.forall_mem_cons.2 ⟨s, each⟩, hs⟩

end

end Derivation

/-! ## Sources -/

/-- The source has no string literals, and its number literals are finite. -/
structure Scan.PlainConstants (source : String) : Prop where
  noString : ∀ t ∈ tokens source, ∀ text, t.kind ≠ .string text
  finite : ∀ t ∈ tokens source, ∀ x, t.kind = .number x →
    ∃ negative m, NumberView.of x = .finite negative m

theorem Scan.PlainConstants.legible {source : String} (plain : PlainConstants source) :
    ∀ t ∈ tokens source, t.Legible := by
  intro t ht
  have spelled := tokens_spelled ht
  have fits := pattern_of_mem_tokens ht
  unfold Token.Legible
  cases kind : t.kind with
  | symbol s => exact spelled.lexeme_eq kind
  | identifier =>
      rw [kind] at fits
      exact fits.resolve_right nofun
  | string text => exact plain.noString t ht text kind
  | number x =>
      rw [kind] at fits
      obtain ⟨negative, m, finite⟩ := plain.finite t ht x kind
      have rounded : ∃ d : Decimal, x = d.toFloat := by
        have fits := fits.resolve_right nofun
        generalize t.lexeme.toList = cs at fits
        cases fits with
        | whole => exact ⟨_, rfl⟩
        | fraction => exact ⟨_, rfl⟩
      obtain ⟨d, rfl⟩ := rounded
      exact ⟨m, by rw [finite, Decimal.toFloat_unsigned finite]⟩
  | eof => trivial

namespace Session

variable {source : String}

theorem content_legible (plain : Scan.PlainConstants source) :
    Derivation.Legible (Grammar.content (Scan.tokens source)) :=
  fun t ht => plain.legible t ((List.takeWhile_sublist _).subset ht)

theorem readProgram_readable (plain : Scan.PlainConstants source) {ss : List Stmt}
    (reads : readProgram source = (ss, [])) : ∀ s ∈ ss, s.Readable := by
  have derivation := Grammar.program_eq_iff.1 (readProgram_eq_iff.1 reads).2
  exact (Derivation.Declarations.readable derivation (content_legible plain)).2.1

theorem readExpression_readable (plain : Scan.PlainConstants source) {e : Expr}
    (reads : readExpression source = (some e, [])) : e.Readable := by
  have derivation := Grammar.soleExpression_eq_iff.1 (readExpression_eq_iff.1 reads).2
  exact (derivation.readable (content_legible plain)).1

/-- The printed form is unambiguous. Of programs, or of single expressions, that are read without
errors from sources with plain constants, two statements or expressions with the same printed form
are the same tree, but for the lines of its tokens. -/
theorem printed_unambiguous {source source' : String} (plain : Scan.PlainConstants source)
    (plain' : Scan.PlainConstants source') :
    (∀ ss ss', readProgram source = (ss, []) → readProgram source' = (ss', []) →
      ∀ s ∈ ss, ∀ s' ∈ ss', s.printed = s'.printed → s.onFirstLine = s'.onFirstLine) ∧
    ∀ e e', readExpression source = (some e, []) → readExpression source' = (some e', []) →
      e.printed = e'.printed → e.onFirstLine = e'.onFirstLine := by
  constructor
  · intro ss ss' reads reads' s hs s' hs' same
    have back := (readProgram_readable plain reads s hs).ofPrinted?
    have back' := (readProgram_readable plain' reads' s' hs').ofPrinted?
    exact Option.some.inj (back.symm.trans (same ▸ back'))
  · intro e e' reads reads' same
    have back := (readExpression_readable plain reads).ofPrinted?
    have back' := (readExpression_readable plain' reads').ofPrinted?
    exact Option.some.inj (back.symm.trans (same ▸ back'))

/-- A difference whose parts stand on the given lines. -/
def difference (line line' : Nat) : Expr :=
  .binary (.unary ⟨.symbol .minus, "-", line⟩ (.literal (.number (Numeral.ofLiteral ['1'] []))))
    ⟨.symbol .minus, "-", line'⟩ (.name ⟨.identifier, "x", line'⟩ none)

theorem difference_plain (source : String) (line line' : Nat)
    (tokens : Scan.tokens source = [⟨.symbol .minus, "-", line⟩,
      ⟨.number (Numeral.ofLiteral ['1'] []), "1", line⟩, ⟨.symbol .minus, "-", line'⟩,
      ⟨.identifier, "x", line'⟩, .endOn line']) : Scan.PlainConstants source := by
  constructor
  · rw [tokens]
    simp [Token.endOn]
  · rw [tokens]
    intro t ht x kind
    simp only [List.mem_cons, List.not_mem_nil, or_false] at ht
    rcases ht with rfl | rfl | rfl | rfl | rfl <;> cases kind
    exact ⟨false, ⟨2 ^ 52, -52⟩, by decide +kernel⟩

/-- Two minus signs and a line end: the trees are read from different lines and are not the same,
yet their printed forms are, and so are the trees on one line. -/
theorem difference_unambiguous :
    readExpression "-1 - x" = (some (difference 1 1), []) ∧
      readExpression "-1\n- x" = (some (difference 1 2), []) ∧
      (difference 1 1).onFirstLine = (difference 1 2).onFirstLine := by
  have reads : readExpression "-1 - x" = (some (difference 1 1), []) := by
    with_unfolding_all rfl
  have reads' : readExpression "-1\n- x" = (some (difference 1 2), []) := by
    with_unfolding_all rfl
  have plain : Scan.PlainConstants "-1 - x" := difference_plain _ 1 1 (by with_unfolding_all rfl)
  have plain' : Scan.PlainConstants "-1\n- x" :=
    difference_plain _ 1 2 (by with_unfolding_all rfl)
  exact ⟨reads, reads', (printed_unambiguous plain plain').2 _ _ reads reads' rfl⟩

end Session

end LoxLang
