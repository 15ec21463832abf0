import LoxLang.Proofs.StatementSteps

/-!
# Programs are read by their grammar

What was done for expressions is done for statements: soundness along the
recursion of the parser, completeness along the derivation. What an `else`
needs is carried by the mark of open statements. The parser looks for `else`
behind every statement of an `if`, so an open statement that it has read is
never in front of one, and a statement that may be open is only read where no
`else` follows.
-/

namespace LoxLang

open LoxLang.Derivation Grammar

namespace Grammar

variable {ts rest : List Token} {s : Stmt}

theorem alternative_reads {test : Expr} {consequent : Stmt} :
    (alternative test consequent ts).Reads s rest ↔
      (s = .ifThen test consequent ∧ ts = rest ∧ NotNext .elseWord ts) ∨
      ∃ t mid other, ts = t :: mid ∧ t.kind = .symbol .elseWord ∧
        (statement mid).Reads other rest ∧ s = .ifElse test consequent other := by
  cases ts with
  | nil =>
      rw [alternative, Reply.reads_keep]
      constructor
      · rintro ⟨rfl, rfl⟩
        exact .inl ⟨rfl, rfl, notNext_nil⟩
      · rintro (⟨rfl, rfl, -⟩ | ⟨_, _, _, h, -⟩)
        · exact ⟨rfl, rfl⟩
        · cases h
  | cons t mid =>
      rw [alternative]
      split
      · next hk =>
          rw [Token.isSymbol_iff] at hk
          rw [Reply.reads_widen, Reply.reads_map]
          constructor
          · rintro ⟨other, ho, rfl⟩
            exact .inr ⟨t, mid, other, rfl, hk, ho, rfl⟩
          · rintro (⟨-, -, hno⟩ | ⟨_, _, other, ⟨⟩, -, ho, rfl⟩)
            · exact absurd hk (notNext_cons.1 hno)
            · exact ⟨other, ho, rfl⟩
      · next hk =>
          rw [Token.isSymbol_iff] at hk
          rw [Reply.reads_keep]
          constructor
          · rintro ⟨rfl, rfl⟩
            exact .inl ⟨rfl, rfl, notNext_cons.2 hk⟩
          · rintro (⟨rfl, rfl, -⟩ | ⟨_, _, _, ⟨⟩, hk', -⟩)
            · exact ⟨rfl, rfl⟩
            · exact absurd hk' hk

/-! ## Soundness -/

mutual

/-- An open statement is never read in front of an `else`. -/
theorem statement_sound {ts rest : List Token} {s : Stmt} (h : (statement ts).Reads s rest) :
    ∃ isOpen, Statement .nearest isOpen ts s rest ∧ (isOpen = true → NotNext .elseWord rest) := by
  match ts, h with
  | [], h =>
      rw [statement] at h
      exact ⟨false, .exprStmt (exprStmt_reads.1 h), nofun⟩
  | t :: mid, h =>
      rw [statement] at h
      split at h
      · next word =>
          obtain ⟨clauses, mid', hc, _, h⟩ := Reply.reads_andThen.1 (Reply.reads_widen.1 h)
          obtain ⟨body, hb, rfl⟩ := Reply.reads_map.1 (Reply.reads_widen.1 h)
          have := hc.length_lt
          obtain ⟨isOpen, body, closed⟩ := statement_sound hb
          obtain ⟨opening, ts', _, _, _, _, rfl, hopen, first, test, stop, step, close⟩ :=
            forClauses_reads.1 hc
          rw [toStmt_eq_forForm]
          exact ⟨isOpen, .for word hopen first test stop step close body, closed⟩
      · next word =>
          obtain ⟨test, mid', ht, _, h⟩ := Reply.reads_andThen.1 (Reply.reads_widen.1 h)
          obtain ⟨consequent, mid'', hc, _, h⟩ := Reply.reads_andThen.1 (Reply.reads_widen.1 h)
          have := ht.length_lt
          have := hc.length_lt
          obtain ⟨isOpen, consequent, closed⟩ := statement_sound hc
          rcases alternative_reads.1 h with ⟨rfl, rfl, hno⟩ | ⟨t', ts', other, rfl, word', ho, rfl⟩
          · exact ⟨true, .ifThen word (condition_reads.1 ht) consequent, fun _ => hno⟩
          · simp only [List.length_cons] at *
            obtain ⟨isOpen', other, closed'⟩ := statement_sound ho
            have shut : isOpen = false := by
              rw [← Bool.not_eq_true]
              exact fun h => notNext_cons.1 (closed h) word'
            exact ⟨isOpen', .ifElse word (condition_reads.1 ht) consequent word' (fun _ => shut)
              other, closed'⟩
      · next word =>
          obtain ⟨test, mid', ht, _, h⟩ := Reply.reads_andThen.1 (Reply.reads_widen.1 h)
          obtain ⟨body, hb, rfl⟩ := Reply.reads_map.1 (Reply.reads_widen.1 h)
          have := ht.length_lt
          obtain ⟨isOpen, body, closed⟩ := statement_sound hb
          exact ⟨isOpen, .while word (condition_reads.1 ht) body, closed⟩
      · next word =>
          obtain ⟨value, hv, rfl⟩ := Reply.reads_map.1 (Reply.reads_widen.1 h)
          obtain ⟨semi, value, stop⟩ := (optionallyClosed_reads (by decide) (by decide)).1 hv
          exact ⟨false, .return word value stop, nofun⟩
      · next word =>
          obtain ⟨body, hb, rfl⟩ := Reply.reads_map.1 (Reply.reads_widen.1 h)
          obtain ⟨close, body, hk⟩ := block_sound hb
          exact ⟨false, .block word body hk, nofun⟩
      · next word =>
          obtain ⟨e, he, rfl⟩ := Reply.reads_map.1 (Reply.reads_widen.1 h)
          obtain ⟨semi, he, stop⟩ := (closed_reads (by decide)).1 he
          exact ⟨false, .print word he stop, nofun⟩
      · exact ⟨false, .exprStmt (exprStmt_reads.1 h), nofun⟩
termination_by 8 * ts.length + 1
decreasing_by all_goals simp only [List.length_cons] at *; omega

theorem block_sound {ts rest : List Token} {ss : List Stmt} (h : (block ts).Reads ss rest) :
    ∃ close, Declarations .nearest ts ss (close :: rest) ∧ close.kind = .symbol .rightBrace := by
  obtain ⟨close, hd, hk⟩ := block_reads.1 h
  exact ⟨close, (declarations_sound hd).1, hk⟩
termination_by 8 * ts.length + 4

theorem declarations_sound {inBlock : Bool} {ts rest : List Token} {ss : List Stmt}
    (h : (declarations inBlock ts).Reads ss rest) :
    Declarations .nearest ts ss rest ∧ EndsDeclarations inBlock rest := by
  rcases declarations_reads.1 h with ⟨rfl, rfl, hend⟩ | ⟨t, mid, st, mid', ss', rfl, -, hd, hm, rfl⟩
  · exact ⟨.nil, hend⟩
  · have := hd.length_lt
    obtain ⟨more, hend⟩ := declarations_sound hm
    exact ⟨.cons (declaration_sound hd) more, hend⟩
termination_by 8 * ts.length + 3
decreasing_by all_goals subst_vars; simp only [List.length_cons]; omega

theorem declaration_sound {t : Token} {ts rest : List Token} {s : Stmt}
    (h : (declaration t ts).Reads s rest) : Declaration .nearest (t :: ts) s rest := by
  rw [declaration] at h
  split at h
  · next word => exact classBody_sound word (Reply.reads_widen.1 h)
  · next word =>
      obtain ⟨f, hf, rfl⟩ := Reply.reads_map.1 (Reply.reads_widen.1 h)
      exact .funDecl word (routine_sound hf)
  · next word => exact .varDecl ((variableDeclaration_reads word).1 (Reply.reads_widen.1 h))
  · obtain ⟨_, h, -⟩ := statement_sound h
    exact .statement h
termination_by 8 * (ts.length + 1) + 2
decreasing_by all_goals (try simp only [List.length_cons]); omega

theorem classBody_sound {t : Token} {ts rest : List Token} {s : Stmt}
    (word : t.kind = .symbol .classWord) (h : (classBody ts).Reads s rest) :
    Declaration .nearest (t :: ts) s rest := by
  rw [classBody] at h
  obtain ⟨x, mid, hx, _, h⟩ := Reply.reads_andThen.1 h
  obtain ⟨parent, mid', hp, _, h⟩ := Reply.reads_andThen.1 h
  obtain ⟨brace, mid'', ho, _, h⟩ := Reply.reads_andThen.1 (Reply.reads_widen.1 h)
  obtain ⟨fs, mid3, hm, _, h⟩ := Reply.reads_andThen.1 h
  obtain ⟨close, hc, rfl⟩ := Reply.reads_map.1 (Reply.reads_widen.1 h)
  have methods := methods_sound hm
  obtain ⟨rfl, name⟩ := expectName_reads.1 hx
  obtain ⟨rfl, hopen⟩ := expect_reads.1 ho
  obtain ⟨rfl, hclose⟩ := expect_reads.1 hc
  rcases superclass_reads.1 hp with ⟨rfl, rfl, -⟩ | ⟨less, y, rfl, below, hy, rfl⟩
  · exact .rootClass word name hopen methods hclose
  · exact .subclass word name below hy hopen methods hclose
termination_by 8 * ts.length + 7
decreasing_by omega

theorem methods_sound {ts rest : List Token} {fs : List FunctionDecl}
    (h : (methods ts).Reads fs rest) : Functions .nearest ts fs rest := by
  match ts, h with
  | [], h =>
      rw [methods] at h
      obtain ⟨rfl, rfl⟩ := Reply.reads_keep.1 h
      exact .nil
  | t :: mid, h =>
      rw [methods] at h
      split at h
      · obtain ⟨rfl, rfl⟩ := Reply.reads_keep.1 h
        exact .nil
      · obtain ⟨f, mid', hf, _, h⟩ := Reply.reads_andThen.1 (Reply.reads_widen.1 h)
        obtain ⟨fs', hm, rfl⟩ := Reply.reads_map.1 h
        have := hf.length_lt
        exact .cons (routine_sound hf) (methods_sound hm)
termination_by 8 * ts.length + 6
decreasing_by all_goals simp only [List.length_cons] at *; omega

theorem routine_sound {what : Routine} {ts rest : List Token} {f : FunctionDecl}
    (h : (routine what ts).Reads f rest) : Function .nearest ts f rest := by
  rw [routine] at h
  obtain ⟨x, mid, hx, _, h⟩ := Reply.reads_andThen.1 h
  obtain ⟨paren, mid', hp, _, h⟩ := Reply.reads_andThen.1 (Reply.reads_widen.1 h)
  obtain ⟨ps, mid'', hl, _, h⟩ := Reply.reads_andThen.1 (Reply.reads_widen.1 h)
  obtain ⟨brace, mid3, ho, _, h⟩ := Reply.reads_andThen.1 (Reply.reads_widen.1 h)
  obtain ⟨body, hb, rfl⟩ := Reply.reads_map.1 (Reply.reads_widen.1 h)
  obtain ⟨close, body, closeBody⟩ := block_sound hb
  obtain ⟨rfl, name⟩ := expectName_reads.1 hx
  obtain ⟨rfl, hopen⟩ := expect_reads.1 hp
  obtain ⟨closing, parameters, hclose⟩ := parameters_reads.1 hl
  obtain ⟨rfl, openBody⟩ := expect_reads.1 ho
  exact .mk name hopen parameters hclose openBody body closeBody
termination_by 8 * ts.length + 5
decreasing_by omega

end

end Grammar

/-! ## How statements begin -/

namespace Derivation

variable {rule : ElseRule} {isOpen : Bool} {ts rest : List Token} {s : Stmt}

/-- The symbols that a statement begins with and no expression. -/
def statementSymbols : List Symbol :=
  [.forWord, .ifWord, .printWord, .returnWord, .whileWord, .leftBrace]

/-- May a statement begin with the token? -/
def StartsStatement (t : Token) : Prop :=
  StartsExpression t ∨ ∃ word ∈ statementSymbols, t.kind = .symbol word

theorem StartsStatement.kind_ne {t : Token} (h : StartsStatement t) {word : Symbol}
    (hs : word ∉ [Symbol.trueWord, .falseWord, .nilWord, .thisWord, .superWord, .leftParen, .bang,
      .minus]) (hw : word ∉ statementSymbols) : t.kind ≠ .symbol word := by
  rcases h with h | ⟨word', hm, hk⟩
  · exact h.kind_ne hs
  · intro hk'
    rw [hk] at hk'
    cases hk'
    exact hw hm

theorem Statement.first (h : Statement rule isOpen ts s rest) :
    ∃ t tail, ts = t :: tail ∧ StartsStatement t := by
  cases h with
  | exprStmt h =>
      obtain ⟨he, -⟩ := h
      obtain ⟨t, tail, rfl, ht⟩ := he.first
      exact ⟨t, tail, rfl, .inl ht⟩
  | «for» word => exact ⟨_, _, rfl, .inr ⟨_, by decide, word⟩⟩
  | ifThen word => exact ⟨_, _, rfl, .inr ⟨_, by decide, word⟩⟩
  | ifElse word => exact ⟨_, _, rfl, .inr ⟨_, by decide, word⟩⟩
  | print word => exact ⟨_, _, rfl, .inr ⟨_, by decide, word⟩⟩
  | «return» word => exact ⟨_, _, rfl, .inr ⟨_, by decide, word⟩⟩
  | «while» word => exact ⟨_, _, rfl, .inr ⟨_, by decide, word⟩⟩
  | block word => exact ⟨_, _, rfl, .inr ⟨_, by decide, word⟩⟩

/-- A declaration stands neither in front of an `else` nor of a closing brace. -/
theorem Declaration.first (h : Declaration rule ts s rest) :
    ∃ t tail, ts = t :: tail ∧ t.kind ≠ .symbol .elseWord ∧ t.kind ≠ .symbol .rightBrace := by
  cases h with
  | rootClass word => exact ⟨_, _, rfl, by rw [word]; nofun, by rw [word]; nofun⟩
  | subclass word => exact ⟨_, _, rfl, by rw [word]; nofun, by rw [word]; nofun⟩
  | funDecl word => exact ⟨_, _, rfl, by rw [word]; nofun, by rw [word]; nofun⟩
  | varDecl h =>
      cases h with
      | bare word => exact ⟨_, _, rfl, by rw [word]; nofun, by rw [word]; nofun⟩
      | initial word => exact ⟨_, _, rfl, by rw [word]; nofun, by rw [word]; nofun⟩
  | statement h =>
      obtain ⟨t, tail, rfl, ht⟩ := h.first
      exact ⟨t, tail, rfl, ht.kind_ne (by decide) (by decide), ht.kind_ne (by decide) (by decide)⟩

theorem Declarations.notNext_else {ss : List Stmt} (h : Declarations rule ts ss rest)
    (hr : NotNext .elseWord rest) : NotNext .elseWord ts := by
  cases h with
  | nil => exact hr
  | cons h _ =>
      obtain ⟨t, tail, rfl, ht, -⟩ := h.first
      exact notNext_cons.2 ht

end Derivation

/-! ## Completeness -/

namespace Grammar

variable {ts rest : List Token} {s : Stmt}

theorem EndsDeclarations.notNext_else {inBlock : Bool} (h : EndsDeclarations inBlock ts) :
    NotNext .elseWord ts := by
  intro t tail hts hk
  rw [(h t tail hts).2] at hk
  cases hk

theorem endsDeclarations_brace {close : Token} (hk : close.kind = .symbol .rightBrace) :
    EndsDeclarations true (close :: rest) := by
  rintro _ _ ⟨⟩
  exact ⟨rfl, hk⟩

/-- A statement that begins like an expression is one with a semicolon. -/
theorem statement_of_exprStmt (h : ExprStmt ts s rest) : (statement ts).Reads s rest := by
  have begins : ∃ t tail, ts = t :: tail ∧ StartsExpression t := by
    obtain ⟨he, -⟩ := h
    exact he.first
  obtain ⟨t, tail, rfl, first⟩ := begins
  rw [statement]
  split
  case h_7 => exact exprStmt_reads.2 h
  all_goals next word => exact absurd word (first.kind_ne (by decide))

theorem declaration_of_statement {t : Token} (first : StartsStatement t)
    (h : (statement (t :: ts)).Reads s rest) : (declaration t ts).Reads s rest := by
  rw [declaration]
  split
  case h_4 => exact h
  all_goals next word => exact absurd word (first.kind_ne (by decide) (by decide))

mutual

theorem statement_complete : ∀ {isOpen : Bool} {ts rest : List Token} {s : Stmt},
    Statement .nearest isOpen ts s rest → (isOpen = true → NotNext .elseWord rest) →
    (statement ts).Reads s rest
  | _, _, _, _, .exprStmt h, _ => statement_of_exprStmt h
  | _, _, _, _, .for word opening first test stop step close body, closed => by
      have hb := statement_complete body closed
      have hc : (forClauses _).Reads ⟨_, _, _⟩ _ := forClauses_reads.2
        ⟨_, _, _, _, _, _, rfl, opening, first, test, stop, step, close⟩
      rw [statement, word, ← toStmt_eq_forForm ⟨_, _, _⟩]
      exact Reply.reads_widen.2 (Reply.reads_andThen.2 ⟨_, _, hc, hc.length_lt,
        Reply.reads_widen.2 (Reply.reads_map.2 ⟨_, hb, rfl⟩)⟩)
  | _, _, _, _, .ifThen word test consequent, closed => by
      have ht : (condition .ifOpen .ifClose _).Reads _ _ := condition_reads.2 test
      have hc := statement_complete consequent fun _ => closed rfl
      rw [statement, word]
      exact Reply.reads_widen.2 (Reply.reads_andThen.2 ⟨_, _, ht, ht.length_lt,
        Reply.reads_widen.2 (Reply.reads_andThen.2 ⟨_, _, hc, hc.length_lt,
          alternative_reads.2 (.inl ⟨rfl, rfl, closed rfl⟩)⟩)⟩)
  | _, _, _, _, .ifElse word test consequent word' nearest other, closed => by
      have ht : (condition .ifOpen .ifClose _).Reads _ _ := condition_reads.2 test
      have hc := statement_complete consequent fun h => by rw [nearest rfl] at h; cases h
      have ho := statement_complete other closed
      rw [statement, word]
      exact Reply.reads_widen.2 (Reply.reads_andThen.2 ⟨_, _, ht, ht.length_lt,
        Reply.reads_widen.2 (Reply.reads_andThen.2 ⟨_, _, hc, hc.length_lt,
          alternative_reads.2 (.inr ⟨_, _, _, rfl, word', ho, rfl⟩)⟩)⟩)
  | _, _, _, _, .print word expression stop, _ => by
      have he : (closed .semicolon .printEnd _).Reads _ _ :=
        (closed_reads (by decide)).2 ⟨_, expression, stop⟩
      rw [statement, word]
      exact Reply.reads_widen.2 (Reply.reads_map.2 ⟨_, he, rfl⟩)
  | _, _, _, _, .return word value stop, _ => by
      have hv : (optionallyClosed .semicolon .returnEnd _).Reads _ _ :=
        (optionallyClosed_reads (by decide) (by decide)).2 ⟨_, value, stop⟩
      rw [statement, word]
      exact Reply.reads_widen.2 (Reply.reads_map.2 ⟨_, hv, rfl⟩)
  | _, _, _, _, .while word test body, closed => by
      have ht : (condition .whileOpen .whileClose _).Reads _ _ := condition_reads.2 test
      have hb := statement_complete body closed
      rw [statement, word]
      exact Reply.reads_widen.2 (Reply.reads_andThen.2 ⟨_, _, ht, ht.length_lt,
        Reply.reads_widen.2 (Reply.reads_map.2 ⟨_, hb, rfl⟩)⟩)
  | _, _, _, _, .block opening body close, _ => by
      have hb := block_reads.2
        ⟨_, declarations_complete body (endsDeclarations_brace close), close⟩
      rw [statement, opening]
      exact Reply.reads_widen.2 (Reply.reads_map.2 ⟨_, hb, rfl⟩)

theorem declaration_complete : ∀ {ts rest : List Token} {s : Stmt},
    Declaration .nearest ts s rest → NotNext .elseWord rest →
    ∃ t mid, ts = t :: mid ∧ (declaration t mid).Reads s rest
  | _, _, _, .rootClass word name opening methods close, _ => by
      have hm := functions_complete methods rfl close
      refine ⟨_, _, rfl, ?_⟩
      rw [declaration, word]
      refine Reply.reads_widen.2 ?_
      rw [classBody]
      exact Reply.reads_andThen.2 ⟨_, _, expectName_reads.2 ⟨rfl, name⟩, by simp,
        Reply.reads_andThen.2 ⟨_, _, superclass_reads.2 (.inl ⟨rfl, rfl,
          notNext_cons.2 (by rw [opening]; nofun)⟩), by simp,
          Reply.reads_widen.2 (Reply.reads_andThen.2 ⟨_, _, expect_reads.2 ⟨rfl, opening⟩,
            by simp, Reply.reads_andThen.2 ⟨_, _, hm, hm.length_lt,
              Reply.reads_widen.2 (Reply.reads_map.2 ⟨_, expect_reads.2 ⟨rfl, close⟩, rfl⟩)⟩⟩)⟩⟩
  | _, _, _, .subclass word name below parent opening methods close, _ => by
      have hm := functions_complete methods rfl close
      refine ⟨_, _, rfl, ?_⟩
      rw [declaration, word]
      refine Reply.reads_widen.2 ?_
      rw [classBody]
      exact Reply.reads_andThen.2 ⟨_, _, expectName_reads.2 ⟨rfl, name⟩, by simp,
        Reply.reads_andThen.2 ⟨_, _, superclass_reads.2 (.inr ⟨_, _, rfl, below, parent, rfl⟩),
          by simp only [List.length_cons]; omega,
          Reply.reads_widen.2 (Reply.reads_andThen.2 ⟨_, _, expect_reads.2 ⟨rfl, opening⟩,
            by simp, Reply.reads_andThen.2 ⟨_, _, hm, hm.length_lt,
              Reply.reads_widen.2 (Reply.reads_map.2 ⟨_, expect_reads.2 ⟨rfl, close⟩, rfl⟩)⟩⟩)⟩⟩
  | _, _, _, .funDecl word function, _ => by
      have hf : (routine .function _).Reads _ _ := function_complete function
      refine ⟨_, _, rfl, ?_⟩
      rw [declaration, word]
      exact Reply.reads_widen.2 (Reply.reads_map.2 ⟨_, hf, rfl⟩)
  | [], _, _, .varDecl h, _ => nomatch h
  | t :: mid, _, _, .varDecl h, _ => by
      have word := word_of_varDecl h
      refine ⟨t, mid, rfl, ?_⟩
      rw [declaration, word]
      exact Reply.reads_widen.2 ((variableDeclaration_reads word).2 h)
  | _, _, _, .statement h, hno => by
      have hs := statement_complete h fun _ => hno
      obtain ⟨t, tail, rfl, first⟩ := h.first
      exact ⟨t, tail, rfl, declaration_of_statement first hs⟩

theorem function_complete : ∀ {what : Routine} {ts rest : List Token} {f : FunctionDecl},
    Function .nearest ts f rest → (routine what ts).Reads f rest
  | _, _, _, _, .mk name opening list close openBody body closeBody => by
      have hl := parameters_reads.2 ⟨_, list, close⟩
      have hb := block_reads.2
        ⟨_, declarations_complete body (endsDeclarations_brace closeBody), closeBody⟩
      rw [routine]
      exact Reply.reads_andThen.2 ⟨_, _, expectName_reads.2 ⟨rfl, name⟩, by simp,
        Reply.reads_widen.2 (Reply.reads_andThen.2 ⟨_, _, expect_reads.2 ⟨rfl, opening⟩, by simp,
          Reply.reads_widen.2 (Reply.reads_andThen.2 ⟨_, _, hl, hl.length_lt,
            Reply.reads_widen.2 (Reply.reads_andThen.2 ⟨_, _, expect_reads.2 ⟨rfl, openBody⟩,
              by simp, Reply.reads_widen.2 (Reply.reads_map.2 ⟨_, hb, rfl⟩)⟩)⟩)⟩)⟩

theorem functions_complete : ∀ {ts mid : List Token} {fs : List FunctionDecl},
    Functions .nearest ts fs mid → ∀ {close : Token} {rest : List Token}, mid = close :: rest →
    close.kind = .symbol .rightBrace → (methods ts).Reads fs (close :: rest)
  | _, _, _, .nil, _, _, rfl, close => by
      rw [methods, if_pos (Token.isSymbol_iff.2 close)]
      exact Reply.reads_keep.2 ⟨rfl, rfl⟩
  | _, _, _, .cons function more, _, _, rfl, close => by
      have hf : (routine .method _).Reads _ _ := function_complete function
      have hm := functions_complete more rfl close
      cases function with
      | mk name _ _ _ _ _ _ =>
          rw [methods, if_neg (by rw [Token.isSymbol_iff, name]; nofun)]
          exact Reply.reads_widen.2 (Reply.reads_andThen.2 ⟨_, _, hf, hf.length_lt,
            Reply.reads_map.2 ⟨_, hm, rfl⟩⟩)

theorem declarations_complete : ∀ {inBlock : Bool} {ts rest : List Token} {ss : List Stmt},
    Declarations .nearest ts ss rest → EndsDeclarations inBlock rest →
    (declarations inBlock ts).Reads ss rest
  | _, _, _, _, .nil, hend => declarations_reads.2 (.inl ⟨rfl, rfl, hend⟩)
  | _, _, _, _, .cons first more, hend => by
      have hm := declarations_complete more hend
      obtain ⟨t, mid, rfl, hd⟩ :=
        declaration_complete first (more.notNext_else hend.notNext_else)
      obtain ⟨_, _, ⟨⟩, -, hno⟩ := first.first
      exact declarations_reads.2 (.inr ⟨_, _, _, _, _, rfl, fun h => hno (h _ _ rfl).2, hd, hm,
        rfl⟩)

end

end Grammar

end LoxLang
