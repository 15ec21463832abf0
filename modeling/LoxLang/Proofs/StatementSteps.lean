import LoxLang.Proofs.ExpressionGrammar
import LoxLang.Grammar.Program

/-!
# The statement parsers, one step at a time

The parts of statements that hold no statements themselves are compared with
their rules right away: both directions follow from the theorem on
expressions. Each of the mutually recursive parsers gets a lemma on what it
reads in terms of the others, and nothing behind this file opens them.
-/

namespace LoxLang

open LoxLang.Derivation

namespace Grammar

variable {ts rest : List Token} {e : Expr} {s : Symbol} {error opening closing : GrammarError}

/-- The symbol is none that continues an expression. -/
def EndsExpression (s : Symbol) : Prop := 8 ≤ (Token.mk (.symbol s) "" 0).looseness

instance : Decidable (EndsExpression s) := inferInstanceAs (Decidable (8 ≤ _))

/-! ## Clauses -/

theorem closed_reads (hs : EndsExpression s) :
    (closed s error ts).Reads e rest ↔
      ∃ stop, Expression ts e (stop :: rest) ∧ stop.kind = .symbol s := by
  rw [closed, Reply.reads_andThen]
  constructor
  · rintro ⟨e', mid, he, _, h⟩
    obtain ⟨stop, hstop, rfl⟩ := Reply.reads_map.1 (Reply.reads_widen.1 h)
    obtain ⟨rfl, hk⟩ := expect_reads.1 hstop
    exact ⟨stop, expression_sound he, hk⟩
  · rintro ⟨stop, he, hk⟩
    have he := expression_complete he (stops_of_kind hk hs)
    exact ⟨e, _, he, he.length_lt,
      Reply.reads_widen.2 (Reply.reads_map.2 ⟨stop, expect_reads.2 ⟨rfl, hk⟩, rfl⟩)⟩

theorem optionallyClosed_reads {o : Option Expr} (hs : EndsExpression s)
    (hfirst : s ∉ [Symbol.trueWord, .falseWord, .nilWord, .thisWord, .superWord, .leftParen, .bang,
      .minus]) :
    (optionallyClosed s error ts).Reads o rest ↔
      ∃ stop, OptionalExpression ts o (stop :: rest) ∧ stop.kind = .symbol s := by
  have present : NotNext s ts → ((closed s error ts).map some).Reads o rest →
      ∃ stop, OptionalExpression ts o (stop :: rest) ∧ stop.kind = .symbol s := by
    intro _ h
    obtain ⟨e, he, rfl⟩ := Reply.reads_map.1 h
    obtain ⟨stop, he, hk⟩ := (closed_reads hs).1 he
    exact ⟨stop, .some he, hk⟩
  have absent : (∃ stop, OptionalExpression ts o (stop :: rest) ∧ stop.kind = .symbol s) →
      NotNext s ts → ((closed s error ts).map some).Reads o rest := by
    rintro ⟨stop, ho, hk⟩ hno
    cases ho with
    | none => exact absurd hk (notNext_cons.1 hno)
    | some he => exact Reply.reads_map.2 ⟨_, (closed_reads hs).2 ⟨stop, he, hk⟩, rfl⟩
  cases ts with
  | nil => exact ⟨present notNext_nil, fun h => absent h notNext_nil⟩
  | cons t mid =>
      unfold optionallyClosed
      dsimp only
      split
      · next hk =>
          rw [Token.isSymbol_iff] at hk
          constructor
          · rintro h
            obtain ⟨rfl, rfl, -⟩ := Reply.reads_parsed.1 h
            exact ⟨t, .none, hk⟩
          · rintro ⟨stop, ho, -⟩
            cases ho with
            | none => exact Reply.reads_parsed.2 ⟨rfl, rfl, rfl⟩
            | some he => exact absurd hk (notNext_cons.1 (he.notNext hfirst))
      · next hk =>
          rw [Token.isSymbol_iff] at hk
          exact ⟨present (notNext_cons.2 hk), fun h => absent h (notNext_cons.2 hk)⟩

theorem condition_reads :
    (condition opening closing ts).Reads e rest ↔ Condition ts e rest := by
  rw [condition, Reply.reads_andThen]
  constructor
  · rintro ⟨t, mid, ht, _, h⟩
    obtain ⟨rfl, hopen⟩ := expect_reads.1 ht
    obtain ⟨stop, he, hclose⟩ := (closed_reads (by decide)).1 (Reply.reads_widen.1 h)
    exact .mk hopen he hclose
  · rintro ⟨hopen, he, hclose⟩
    exact ⟨_, _, expect_reads.2 ⟨rfl, hopen⟩, by simp,
      Reply.reads_widen.2 ((closed_reads (by decide)).2 ⟨_, he, hclose⟩)⟩

theorem word_of_varDecl {t : Token} {st : Stmt} (h : VarDecl (t :: ts) st rest) :
    t.kind = .symbol .varWord := by
  cases h with
  | bare word _ _ => exact word
  | initial word _ _ _ _ => exact word

theorem variableDeclaration_reads {keyword : Token} {st : Stmt}
    (word : keyword.kind = .symbol .varWord) :
    (variableDeclaration ts).Reads st rest ↔ VarDecl (keyword :: ts) st rest := by
  rw [variableDeclaration, Reply.reads_andThen]
  constructor
  · rintro ⟨x, mid, hx, _, h⟩
    obtain ⟨rfl, name⟩ := expectName_reads.1 hx
    cases mid with
    | nil => simp at h
    | cons t mid =>
        dsimp only at h
        split at h
        · next heq =>
            obtain ⟨e, mid', he, _, h⟩ := Reply.reads_andThen.1 (Reply.reads_widen.1 h)
            obtain ⟨stop, hstop, rfl⟩ := Reply.reads_map.1 (Reply.reads_widen.1 h)
            obtain ⟨rfl, hk⟩ := expect_reads.1 hstop
            exact .initial word name (Token.isSymbol_iff.1 heq) (expression_sound he) hk
        · obtain ⟨stop, hstop, rfl⟩ := Reply.reads_map.1 (Reply.reads_widen.1 h)
          obtain ⟨hmid, hk⟩ := expect_reads.1 hstop
          cases hmid
          exact .bare word name hk
  · intro h
    cases h with
    | bare _ name stop =>
        refine ⟨_, _, expectName_reads.2 ⟨rfl, name⟩, by simp, ?_⟩
        dsimp only
        rw [if_neg (by simp [Token.isSymbol_iff, stop])]
        exact Reply.reads_widen.2 (Reply.reads_map.2 ⟨_, expect_reads.2 ⟨rfl, stop⟩, rfl⟩)
    | initial _ name eq he stop =>
        have he := expression_complete he (stops_of_kind stop (by decide))
        refine ⟨_, _, expectName_reads.2 ⟨rfl, name⟩, by simp, ?_⟩
        dsimp only
        rw [if_pos (Token.isSymbol_iff.2 eq)]
        exact Reply.reads_widen.2 (Reply.reads_andThen.2 ⟨_, _, he, he.length_lt,
          Reply.reads_widen.2 (Reply.reads_map.2 ⟨_, expect_reads.2 ⟨rfl, stop⟩, rfl⟩)⟩)

theorem exprStmt_reads {st : Stmt} :
    ((closed .semicolon error ts).map .expr).Reads st rest ↔ ExprStmt ts st rest := by
  rw [Reply.reads_map]
  constructor
  · rintro ⟨e, he, rfl⟩
    obtain ⟨stop, he, hk⟩ := (closed_reads (by decide)).1 he
    exact .mk he hk
  · rintro ⟨he, hk⟩
    exact ⟨_, (closed_reads (by decide)).2 ⟨_, he, hk⟩, rfl⟩

theorem initialClause_reads {o : Option Stmt} :
    (initialClause ts).Reads o rest ↔ ForInitial ts o rest := by
  have expr : ((closed .semicolon .expressionEnd ts).map fun e => some (.expr e)).Reads o rest ↔
      ∃ st, ExprStmt ts st rest ∧ o = some st := by
    rw [Reply.reads_map]
    constructor
    · rintro ⟨e, he, rfl⟩
      exact ⟨_, exprStmt_reads.1 (Reply.reads_map.2 ⟨e, he, rfl⟩), rfl⟩
    · rintro ⟨st, hst, rfl⟩
      obtain ⟨e, he, rfl⟩ := Reply.reads_map.1 (exprStmt_reads.2 hst)
      exact ⟨e, he, rfl⟩
  cases ts with
  | nil =>
      refine expr.trans ⟨?_, ?_⟩
      · rintro ⟨st, hst, rfl⟩
        exact .exprStmt hst
      · intro h
        cases h with
        | varDecl h => cases h
        | exprStmt h => exact ⟨_, h, rfl⟩
  | cons t mid =>
      unfold initialClause
      dsimp only
      split
      · next hk =>
          rw [Token.isSymbol_iff] at hk
          constructor
          · intro h
            obtain ⟨rfl, rfl, -⟩ := Reply.reads_parsed.1 h
            exact .none hk
          · intro h
            cases h with
            | varDecl h => rw [word_of_varDecl h] at hk; cases hk
            | exprStmt h =>
                obtain ⟨he, -⟩ := h
                exact absurd hk (notNext_cons.1 (he.notNext (by decide)))
            | none => exact Reply.reads_parsed.2 ⟨rfl, rfl, rfl⟩
      · next hsemi =>
          rw [Token.isSymbol_iff] at hsemi
          split
          · next word =>
              rw [Token.isSymbol_iff] at word
              rw [Reply.reads_widen, Reply.reads_map]
              constructor
              · rintro ⟨st, hst, rfl⟩
                exact .varDecl ((variableDeclaration_reads word).1 hst)
              · intro h
                cases h with
                | varDecl h => exact ⟨_, (variableDeclaration_reads word).2 h, rfl⟩
                | exprStmt h =>
                    obtain ⟨he, -⟩ := h
                    exact absurd word (notNext_cons.1 (he.notNext (by decide)))
                | none stop => exact absurd stop hsemi
          · next word =>
              rw [Token.isSymbol_iff] at word
              refine expr.trans ⟨?_, ?_⟩
              · rintro ⟨st, hst, rfl⟩
                exact .exprStmt hst
              · intro h
                cases h with
                | varDecl h => exact absurd (word_of_varDecl h) word
                | exprStmt h => exact ⟨_, h, rfl⟩
                | none stop => exact absurd stop hsemi

theorem forClauses_reads {clauses : ForClauses} :
    (forClauses ts).Reads clauses rest ↔
      ∃ opening mid mid' semi mid'' closing, ts = opening :: mid ∧
        opening.kind = .symbol .leftParen ∧ ForInitial mid clauses.initial mid' ∧
        OptionalExpression mid' clauses.condition (semi :: mid'') ∧
        semi.kind = .symbol .semicolon ∧
        OptionalExpression mid'' clauses.increment (closing :: rest) ∧
        closing.kind = .symbol .rightParen := by
  rw [forClauses, Reply.reads_andThen]
  constructor
  · rintro ⟨opening, mid, ho, _, h⟩
    obtain ⟨rfl, hopen⟩ := expect_reads.1 ho
    obtain ⟨first, mid', hi, _, h⟩ := Reply.reads_andThen.1 (Reply.reads_widen.1 h)
    obtain ⟨test, mid'', hc, _, h⟩ := Reply.reads_andThen.1 (Reply.reads_widen.1 h)
    obtain ⟨step, hn, rfl⟩ := Reply.reads_map.1 (Reply.reads_widen.1 h)
    obtain ⟨semi, hc, stop⟩ := (optionallyClosed_reads (by decide) (by decide)).1 hc
    obtain ⟨closing, hn, close⟩ := (optionallyClosed_reads (by decide) (by decide)).1 hn
    exact ⟨opening, mid, mid', semi, mid'', closing, rfl, hopen, initialClause_reads.1 hi, hc,
      stop, hn, close⟩
  · rintro ⟨opening, mid, mid', semi, mid'', closing, rfl, hopen, hi, hc, stop, hn, close⟩
    have hi := initialClause_reads.2 hi
    have hc : (optionallyClosed .semicolon .forConditionEnd _).Reads _ _ :=
      (optionallyClosed_reads (by decide) (by decide)).2 ⟨semi, hc, stop⟩
    have hn : (optionallyClosed .rightParen .forClose _).Reads _ _ :=
      (optionallyClosed_reads (by decide) (by decide)).2 ⟨closing, hn, close⟩
    exact ⟨opening, mid, expect_reads.2 ⟨rfl, hopen⟩, by simp,
      Reply.reads_widen.2 (Reply.reads_andThen.2 ⟨_, _, hi, hi.length_lt,
        Reply.reads_widen.2 (Reply.reads_andThen.2 ⟨_, _, hc, hc.length_lt,
          Reply.reads_widen.2 (Reply.reads_map.2 ⟨_, hn, rfl⟩)⟩)⟩)⟩

/-- The two ways of writing out a `for` agree. -/
theorem toStmt_eq_forForm (clauses : ForClauses) (body : Stmt) :
    clauses.toStmt body =
      forForm clauses.initial clauses.condition clauses.increment body := by
  obtain ⟨initial, condition, increment⟩ := clauses
  cases initial <;> cases increment <;> rfl

theorem superclass_reads {parent : Option Expr} :
    (superclass ts).Reads parent rest ↔
      (parent = none ∧ ts = rest ∧ NotNext .less ts) ∨
      ∃ less y, ts = less :: y :: rest ∧ less.kind = .symbol .less ∧ y.kind = .identifier ∧
        parent = some (.name y none) := by
  cases ts with
  | nil => simp [superclass, eq_comm]
  | cons t mid =>
      rw [superclass]
      split
      · next hk =>
          rw [Token.isSymbol_iff] at hk
          simp only [Reply.reads_widen, Reply.reads_map, expectName_reads, notNext_cons]
          constructor
          · rintro ⟨y, ⟨rfl, name⟩, rfl⟩
            exact .inr ⟨t, y, rfl, hk, name, rfl⟩
          · rintro (⟨-, -, hno⟩ | ⟨_, y, ⟨⟩, -, name, rfl⟩)
            · exact absurd hk hno
            · exact ⟨y, ⟨rfl, name⟩, rfl⟩
      · next hk =>
          rw [Token.isSymbol_iff] at hk
          rw [Reply.reads_keep]
          constructor
          · rintro ⟨rfl, rfl⟩
            exact .inl ⟨rfl, rfl, notNext_cons.2 hk⟩
          · rintro (⟨rfl, rfl, -⟩ | ⟨_, _, ⟨⟩, hk', -⟩)
            · exact ⟨rfl, rfl⟩
            · exact absurd hk' hk

/-! ## Parameters -/

theorem someParameters_reads {count : Nat} {ps : List Token} :
    (someParameters count ts).Reads ps rest ↔
      count < 255 ∧ ∃ x mid, ts = x :: mid ∧ x.kind = .identifier ∧
        ((∃ closing, ps = [x] ∧ mid = closing :: rest ∧ closing.kind = .symbol .rightParen) ∨
          ∃ comma mid' ps', mid = comma :: mid' ∧ comma.kind = .symbol .comma ∧
            (someParameters (count + 1) mid').Reads ps' rest ∧ ps = x :: ps') := by
  rw [someParameters, Reply.reads_noting, limitReport_eq_nil, Reply.reads_andThen]
  refine and_congr_right fun _ => exists_congr fun x => exists_congr fun mid => ?_
  rw [expectName_reads, and_assoc]
  constructor
  · rintro ⟨rfl, name, _, h⟩
    refine ⟨rfl, name, ?_⟩
    cases mid with
    | nil => simp at h
    | cons t mid =>
        dsimp only at h
        split at h
        · next hc =>
            obtain ⟨ps', hm, rfl⟩ := Reply.reads_map.1 (Reply.reads_widen.1 h)
            exact .inr ⟨t, mid, ps', rfl, Token.isSymbol_iff.1 hc, hm, rfl⟩
        · obtain ⟨closing, hclose, rfl⟩ := Reply.reads_map.1 (Reply.reads_widen.1 h)
          obtain ⟨hmid, hk⟩ := expect_reads.1 hclose
          exact .inl ⟨closing, rfl, hmid, hk⟩
  · rintro ⟨rfl, name, h⟩
    refine ⟨rfl, name, by simp, ?_⟩
    rcases h with ⟨closing, rfl, rfl, hk⟩ | ⟨comma, mid', ps', rfl, hk, hm, rfl⟩
    · dsimp only
      rw [if_neg (by simp [Token.isSymbol_iff, hk])]
      exact Reply.reads_widen.2 (Reply.reads_map.2 ⟨closing, expect_reads.2 ⟨rfl, hk⟩, rfl⟩)
    · dsimp only
      rw [if_pos (Token.isSymbol_iff.2 hk)]
      exact Reply.reads_widen.2 (Reply.reads_map.2 ⟨ps', hm, rfl⟩)

theorem someParameters_sound {count : Nat} {ts ps rest : List Token}
    (h : (someParameters count ts).Reads ps rest) :
    ∃ closing, Parameters ts ps (closing :: rest) ∧ closing.kind = .symbol .rightParen ∧
      count + ps.length ≤ 255 := by
  obtain ⟨limit, x, mid, hts, name, h⟩ := someParameters_reads.1 h
  rcases h with ⟨closing, rfl, rfl, hk⟩ | ⟨comma, mid', ps', rfl, sep, hm, rfl⟩
  · exact ⟨closing, hts ▸ .last name, hk, limit⟩
  · obtain ⟨closing, parameters, hk, limit'⟩ := someParameters_sound hm
    refine ⟨closing, hts ▸ .more name sep parameters, hk, ?_⟩
    rw [List.length_cons]
    omega
termination_by ts.length
decreasing_by subst hts; simp only [List.length_cons]; omega

theorem someParameters_complete {ts ps mid : List Token} (h : Parameters ts ps mid)
    {closing : Token} {count : Nat} (hmid : mid = closing :: rest)
    (hk : closing.kind = .symbol .rightParen) (limit : count + ps.length ≤ 255) :
    (someParameters count ts).Reads ps rest := by
  induction h generalizing count with
  | last name =>
      subst hmid
      exact someParameters_reads.2 ⟨by simp at limit; omega, _, _, rfl, name,
        .inl ⟨closing, rfl, rfl, hk⟩⟩
  | more name sep parameters ih =>
      rw [List.length_cons] at limit
      exact someParameters_reads.2 ⟨by omega, _, _, rfl, name,
        .inr ⟨_, _, _, rfl, sep, ih hmid (by omega), rfl⟩⟩

theorem parameters_reads {ps : List Token} :
    (parameters ts).Reads ps rest ↔
      ∃ closing, ParameterList ts ps (closing :: rest) ∧
        closing.kind = .symbol .rightParen := by
  have some : (someParameters 0 ts).Reads ps rest → ∃ closing,
      ParameterList ts ps (closing :: rest) ∧ closing.kind = .symbol .rightParen := by
    intro h
    obtain ⟨closing, hp, hk, limit⟩ := someParameters_sound h
    exact ⟨closing, .some hp (by omega), hk⟩
  have read : (∃ closing, ParameterList ts ps (closing :: rest) ∧
      closing.kind = .symbol .rightParen) → NotNext .rightParen ts →
      (someParameters 0 ts).Reads ps rest := by
    rintro ⟨closing, hp, hk⟩ hno
    cases hp with
    | none => exact absurd hk (notNext_cons.1 hno)
    | some hp limit => exact someParameters_complete hp rfl hk (by omega)
  cases ts with
  | nil => exact ⟨some, fun h => read h notNext_nil⟩
  | cons t mid =>
      rw [parameters]
      split
      · next hk =>
          rw [Token.isSymbol_iff] at hk
          constructor
          · intro h
            obtain ⟨rfl, rfl, -⟩ := Reply.reads_parsed.1 h
            exact ⟨t, .none, hk⟩
          · rintro ⟨closing, hp, -⟩
            cases hp with
            | none => exact Reply.reads_parsed.2 ⟨rfl, rfl, rfl⟩
            | some hp _ =>
                cases hp with
                | last name => rw [name] at hk; cases hk
                | more name _ _ => rw [name] at hk; cases hk
      · next hk =>
          rw [Token.isSymbol_iff] at hk
          exact ⟨some, fun h => read h (notNext_cons.2 hk)⟩

/-! ## Lists of declarations -/

/-- The declarations were all read, and nothing is reported. -/
def Batch.Reads {n : Nat} (b : Batch n) (ss : List Stmt) (rest : List Token) : Prop :=
  b.stmts = ss ∧ b.rest = rest ∧ b.reports = []

/-- Declarations end at the end of the tokens, and in a block at a closing brace. -/
def EndsDeclarations (inBlock : Bool) (ts : List Token) : Prop :=
  ∀ t tail, ts = t :: tail → inBlock = true ∧ t.kind = .symbol .rightBrace

variable {inBlock : Bool} {ss : List Stmt}

theorem declarations_reads :
    (declarations inBlock ts).Reads ss rest ↔
      (ss = [] ∧ ts = rest ∧ EndsDeclarations inBlock ts) ∨
      ∃ t mid st mid' ss', ts = t :: mid ∧ ¬ EndsDeclarations inBlock ts ∧
        (declaration t mid).Reads st mid' ∧ (declarations inBlock mid').Reads ss' rest ∧
        ss = st :: ss' := by
  cases ts with
  | nil =>
      rw [declarations]
      constructor
      · rintro ⟨rfl, rfl, -⟩
        refine .inl ⟨rfl, rfl, ?_⟩
        intro _ _ h
        cases h
      · rintro (⟨rfl, rfl, -⟩ | ⟨_, _, _, _, _, h, -⟩)
        · exact ⟨rfl, rfl, rfl⟩
        · cases h
  | cons t mid =>
      have ends : EndsDeclarations inBlock (t :: mid) ↔
          (inBlock && t.isSymbol .rightBrace) = true := by
        rw [Bool.and_eq_true, Token.isSymbol_iff]
        constructor
        · exact fun h => h t mid rfl
        · rintro h _ _ ⟨⟩
          exact h
      rw [declarations]
      split
      · next hend =>
          simp only [Batch.Reads, and_true]
          constructor
          · rintro ⟨rfl, rfl⟩
            exact .inl ⟨rfl, rfl, ends.2 hend⟩
          · rintro (⟨rfl, rfl, -⟩ | ⟨_, _, _, _, _, -, hno, -⟩)
            · exact ⟨rfl, rfl⟩
            · exact absurd (ends.2 hend) hno
      · next hend =>
          split
          · next st mid' reports shorter hd =>
              simp only [Batch.Reads, List.append_eq_nil_iff]
              constructor
              · rintro ⟨rfl, rfl, rfl, hr⟩
                exact .inr ⟨t, mid, st, mid', _, rfl, mt ends.1 hend, ⟨shorter, hd⟩,
                  ⟨rfl, rfl, hr⟩, rfl⟩
              · rintro (⟨-, -, hend'⟩ | ⟨_, _, st', mid'', ss', ⟨⟩, -, hst, ⟨rfl, rfl, hr⟩, rfl⟩)
                · exact absurd (ends.1 hend') hend
                · rw [hd, Reply.reads_parsed] at hst
                  obtain ⟨rfl, rfl, rfl⟩ := hst
                  exact ⟨rfl, rfl, rfl, hr⟩
          · next mid' reports reason notLonger hd =>
              simp only [Batch.Reads, List.append_eq_nil_iff, List.cons_ne_nil, and_false,
                false_iff]
              rintro (⟨-, -, hend'⟩ | ⟨_, _, st', mid'', ss', ⟨⟩, -, hst, -⟩)
              · exact absurd (ends.1 hend') hend
              · rw [hd] at hst
                exact Reply.not_reads_refused hst

theorem block_reads :
    (block ts).Reads ss rest ↔
      ∃ close, (declarations true ts).Reads ss (close :: rest) ∧
        close.kind = .symbol .rightBrace := by
  rw [block, Reply.reads_widen, Reply.reads_noting, Reply.reads_map]
  constructor
  · rintro ⟨hr, close, hc, rfl⟩
    obtain ⟨hrest, hk⟩ := expect_reads.1 hc
    exact ⟨close, ⟨rfl, hrest, hr⟩, hk⟩
  · rintro ⟨close, ⟨rfl, hrest, hr⟩, hk⟩
    exact ⟨hr, close, expect_reads.2 ⟨hrest, hk⟩, rfl⟩

end Grammar

end LoxLang
