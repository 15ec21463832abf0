import LoxLang.Proofs.Acceptance
import LoxLang.Proofs.StatementRecognition
import LoxLang.Proofs.StatementGrammar

/-!
# Statements and declarations are read without an error that unwinds

The rules say two things about an `else` behind an `if` inside an `if`: it can
belong to either. The parser always gives it to the inner one. So a statement
is either read in front of anything, or it may take an `else` itself; in the
second case the statement together with the `else` is derived as well, and an
outer `if` that would have had the `else` is derived without it.
-/

namespace LoxLang.Grammar

open Phrase LoxLang.Derivation

variable {α β : Type} {t : Token} {front back rest ts : List Token}

/-! ## The same for replies -/

variable {size size' : List Token → Nat} {f : (ts : List Token) → Reply α (size ts)}

theorem Accepts.widen (h : Accepts (fun ts => (f ts).reading) front rest)
    (wider : ∀ ts, size ts ≤ size' ts) :
    Accepts (fun ts => ((f ts).widen (wider ts)).reading) front rest :=
  h.of_eq fun _ => Reply.reading_widen _ _

theorem Accepts.replyMap {k : α → β} (h : Accepts (fun ts => (f ts).reading) front rest) :
    Accepts (fun ts => ((f ts).map k).reading) front rest :=
  (h.map k).of_eq fun _ => Reply.reading_map _ _

theorem Accepts.bind {next : α → (rest : List Token) → Reply β (rest.length + 1)}
    (h : Accepts (fun ts => (f ts).reading) front (back ++ rest))
    (h' : ∀ v, Accepts (fun rest => (next v rest).reading) back rest) :
    Accepts (fun ts => ((f ts).andThen fun v rest _ => next v rest).reading) (front ++ back) rest :=
  (h.andThen h').of_eq fun _ => Reply.reading_andThen fun _ _ _ => rfl

/-- An item with something behind it, where a single token is the item. -/
theorem Accepts.bindToken {next : α → (rest : List Token) → Reply β (rest.length + 1)}
    (h : Accepts (fun ts => (f ts).reading) [t] (back ++ rest))
    (h' : ∀ v, Accepts (fun rest => (next v rest).reading) back rest) :
    Accepts (fun ts => ((f ts).andThen fun v rest _ => next v rest).reading) (t :: back) rest :=
  h.bind h'

/-! ## Parts of statements -/

theorem parameters_begin (h : (use .parameters).Derives ts) :
    Begins (fun t => t.kind = .identifier) ts := by
  obtain ⟨t, _, rfl, hk, -⟩ := derives_name_seq.1 (derives_use.1 h)
  exact ⟨t, _, rfl, hk⟩

theorem someParameters_accepts (count : Nat) {front rest : List Token}
    (h : (seq (use .parameters) (word .rightParen)).Derives front) :
    Accepts (fun ts => (someParameters count ts).reading) front rest := by
  obtain ⟨_, closing, rfl, hl, hc⟩ := derives_seq.1 h
  obtain ⟨x, others, rfl, hx, ho⟩ := derives_name_seq.1 (derives_use.1 hl)
  obtain ⟨t, rfl, hk⟩ := derives_word.1 hc
  refine .of_eq (.noting ?_ fun c hc => (limitReport_mild rfl count _ c hc).2)
    (someParameters_reading count)
  rw [List.cons_append, ← List.singleton_append]
  refine .andThen (expectName_accepts hx) fun p => ?_
  rcases derives_many.1 ho with rfl | ⟨_, others, rfl, hf, ho'⟩
  · have hno : ¬t.isSymbol .comma = true := by simp [Token.isSymbol, hk]
    exact .congr ((expect_accepts hk).map _) fun us => if_neg hno
  · obtain ⟨comma, y, rfl, hs, hy⟩ := derives_word_seq.1 hf
    rw [List.cons_append, List.cons_append]
    exact .cons ((someParameters_accepts (count + 1) (.seq (.use (.seq hy ho')) hc)).map _)
      fun us => if_pos (Token.isSymbol_iff.2 hs)
termination_by front.length
decreasing_by all_goals subst_vars; simp only [List.length_append, List.length_cons]; omega

theorem parameters_accepts (h : (seq (maybe (use .parameters)) (word .rightParen)).Derives front) :
    Accepts (fun ts => (parameters ts).reading) front rest := by
  obtain ⟨list, _, rfl, hl, closing⟩ := derives_seq.1 h
  rcases derives_maybe.1 hl with rfl | hl
  · obtain ⟨t, rfl, hk⟩ := derives_word.1 closing
    exact ⟨_, [], congrArg Reply.reading (if_pos (Token.isSymbol_iff.2 hk)), List.forall_mem_nil _⟩
  · have accepts : Accepts (fun ts => (someParameters 0 ts).reading) _ rest :=
      someParameters_accepts 0 (.seq hl closing)
    obtain ⟨t, tail, hts, ht⟩ := (parameters_begin hl).append _
    rw [hts] at accepts ⊢
    have hno : ¬t.isSymbol .rightParen = true := by simp [Token.isSymbol, ht]
    exact .congr accepts fun us => congrArg Reply.reading (if_neg hno)

theorem closed_accepts {s : Symbol} {error : GrammarError} (ends : EndsExpression s)
    (h : (seq (use .expression) (word s)).Derives front) :
    Accepts (fun ts => (closed s error ts).reading) front rest := by
  obtain ⟨e, _, rfl, he, closing⟩ := derives_seq.1 h
  obtain ⟨t, rfl, hk⟩ := derives_word.1 closing
  exact .bind (expression_accepts he (stops_of_kind hk ends)) fun _ =>
    .widen (.replyMap (expect_accepts hk)) _

theorem optionallyClosed_accepts {s : Symbol} {error : GrammarError} (ends : EndsExpression s)
    (hs : s ∉ [Symbol.trueWord, .falseWord, .nilWord, .thisWord, .superWord, .leftParen, .bang,
      .minus]) (h : (seq (maybe (use .expression)) (word s)).Derives front) :
    Accepts (fun ts => (optionallyClosed s error ts).reading) front rest := by
  obtain ⟨e, _, rfl, he, closing⟩ := derives_seq.1 h
  rcases derives_maybe.1 he with rfl | he
  · obtain ⟨t, rfl, hk⟩ := derives_word.1 closing
    exact ⟨_, [], congrArg Reply.reading (if_pos (Token.isSymbol_iff.2 hk)), List.forall_mem_nil _⟩
  · have accepts : Accepts (fun ts => ((closed s error ts).map some).reading) _ rest :=
      .replyMap (closed_accepts ends (.seq he closing))
    obtain ⟨t, tail, hts, ht⟩ := (begins_expression he).append _
    rw [hts] at accepts ⊢
    have hno : ¬t.isSymbol s = true := mt Token.isSymbol_iff.1 (ht.kind_ne hs)
    exact .congr accepts fun us => congrArg Reply.reading (if_neg hno)

theorem condition_accepts {opening closing : GrammarError}
    (h : (seq (word .leftParen) (seq (use .expression) (word .rightParen))).Derives front) :
    Accepts (fun ts => (condition opening closing ts).reading) front rest := by
  obtain ⟨t, _, rfl, hk, h⟩ := derives_word_seq.1 h
  exact .bindToken (expect_accepts hk) fun _ => .widen (closed_accepts (by decide) h) _

theorem variableDeclaration_accepts (h : (seq name
    (seq (maybe (seq (word .equal) (use .expression))) (word .semicolon))).Derives front) :
    Accepts (fun ts => (variableDeclaration ts).reading) front rest := by
  obtain ⟨x, _, rfl, hx, h⟩ := derives_name_seq.1 h
  obtain ⟨value, _, rfl, hv, ending⟩ := derives_seq.1 h
  obtain ⟨t, rfl, hk⟩ := derives_word.1 ending
  rw [← List.singleton_append]
  refine .of_eq (.andThen (expectName_accepts hx) fun _ => ?_) variableDeclaration_reading
  rcases derives_maybe.1 hv with rfl | hv
  · have hno : ¬t.isSymbol .equal = true := by simp [Token.isSymbol, hk]
    exact .congr ((expect_accepts hk).map _) fun us => if_neg hno
  · obtain ⟨equal, e, rfl, hq, he⟩ := derives_word_seq.1 hv
    rw [List.cons_append]
    exact .cons (.andThen (expression_accepts he (stops_of_kind hk (by decide))) fun _ =>
      (expect_accepts hk).map _) fun us => if_pos (Token.isSymbol_iff.2 hq)

theorem initialClause_accepts (h : firstClause.Derives front) :
    Accepts (fun ts => (initialClause ts).reading) front rest := by
  rcases derives_either.1 h with h | h
  · obtain ⟨t, _, rfl, hk, h⟩ := derives_word_seq.1 (derives_use.1 h)
    have hno : ¬t.isSymbol .semicolon = true := by simp [Token.isSymbol, hk]
    exact .cons ((variableDeclaration_accepts h).map some) fun us => by
      rw [initialClause, if_neg hno, if_pos (Token.isSymbol_iff.2 hk), Reply.reading_widen,
        Reply.reading_map]
  · rcases derives_either.1 h with h | h
    · have h := derives_use.1 h
      have accepts : Accepts (fun ts => ((closed .semicolon .expressionEnd ts).map
          fun e => some (Stmt.expr e)).reading) front rest :=
        .replyMap (closed_accepts (by decide) h)
      obtain ⟨e, closing, rfl, he, -⟩ := derives_seq.1 h
      obtain ⟨t, tail, hts, ht⟩ := (begins_expression he).append closing
      rw [hts] at accepts ⊢
      have hno : ¬t.isSymbol .semicolon = true := mt Token.isSymbol_iff.1 (ht.kind_ne (by decide))
      have hno' : ¬t.isSymbol .varWord = true := mt Token.isSymbol_iff.1 (ht.kind_ne (by decide))
      exact .congr accepts fun us => by rw [initialClause, if_neg hno, if_neg hno']
    · obtain ⟨t, rfl, hk⟩ := derives_word.1 h
      exact ⟨_, [], congrArg Reply.reading (if_pos (Token.isSymbol_iff.2 hk)),
        List.forall_mem_nil _⟩

theorem forClauses_accepts (h : (seq (word .leftParen) (seq firstClause
    (seq (seq (maybe (use .expression)) (word .semicolon))
      (seq (maybe (use .expression)) (word .rightParen))))).Derives front) :
    Accepts (fun ts => (forClauses ts).reading) front rest := by
  obtain ⟨t, _, rfl, hk, h⟩ := derives_word_seq.1 h
  obtain ⟨first, _, rfl, hf, h⟩ := derives_seq.1 h
  obtain ⟨test, step, rfl, ht, hs⟩ := derives_seq.1 h
  exact .bindToken (expect_accepts hk) fun _ => .widen (.bind (initialClause_accepts hf) fun _ =>
    .widen (.bind (optionallyClosed_accepts (by decide) (by decide) ht) fun _ =>
      .widen (.replyMap (optionallyClosed_accepts (by decide) (by decide) hs)) _) _) _

theorem superclass_accepts (h : (maybe (seq (word .less) name)).Derives front)
    (hno : NotNext .less rest) : Accepts (fun ts => (superclass ts).reading) front rest := by
  rcases derives_maybe.1 h with rfl | h
  · cases rest with
    | nil => exact .keep rfl
    | cons t rest =>
        exact .keep (congrArg Reply.reading
          (if_neg (mt Token.isSymbol_iff.1 (notNext_cons.1 hno))))
  · obtain ⟨t, _, rfl, hk, h⟩ := derives_word_seq.1 h
    obtain ⟨x, rfl, hx⟩ := derives_name.1 h
    exact .cons ((expectName_accepts hx).map fun x => some (Expr.name x none)) fun us => by
      rw [superclass, if_pos (Token.isSymbol_iff.2 hk), Reply.reading_widen, Reply.reading_map]

/-! ## The rules for statements and declarations, in parts -/

/-- The clauses of a loop, parentheses included. -/
def loopHead : Phrase :=
  seq (word .leftParen) (seq firstClause (seq (seq (maybe (use .expression)) (word .semicolon))
    (seq (maybe (use .expression)) (word .rightParen))))

/-- A condition in parentheses. -/
def testHead : Phrase := seq (word .leftParen) (seq (use .expression) (word .rightParen))

theorem forStmt_parts (h : (use .forStmt).Derives ts) :
    ∃ t head body, ts = t :: (head ++ body) ∧ t.kind = .symbol .forWord ∧
      loopHead.Derives head ∧ (use .statement).Derives body := by
  obtain ⟨t, _, rfl, hk, h⟩ := derives_word_seq.1 (derives_use.1 h)
  obtain ⟨opening, _, rfl, ho, h⟩ := derives_seq.1 h
  obtain ⟨first, _, rfl, hf, h⟩ := derives_seq.1 h
  obtain ⟨test, _, rfl, ht, h⟩ := derives_seq.1 h
  obtain ⟨stop, _, rfl, hs, h⟩ := derives_seq.1 h
  obtain ⟨step, _, rfl, hp, h⟩ := derives_seq.1 h
  obtain ⟨closing, body, rfl, hc, hb⟩ := derives_seq.1 h
  refine ⟨t, opening ++ (first ++ (test ++ stop ++ (step ++ closing))), body, ?_, hk,
    .seq ho (.seq hf (.seq (.seq ht hs) (.seq hp hc))), hb⟩
  simp only [List.append_assoc]

theorem testHead_parts {a : Phrase} (h : (seq (word .leftParen) (seq (use .expression)
    (seq (word .rightParen) a))).Derives ts) :
    ∃ head back, ts = head ++ back ∧ testHead.Derives head ∧ a.Derives back := by
  obtain ⟨opening, _, rfl, ho, h⟩ := derives_seq.1 h
  obtain ⟨test, _, rfl, ht, h⟩ := derives_seq.1 h
  obtain ⟨closing, back, rfl, hc, hb⟩ := derives_seq.1 h
  refine ⟨opening ++ (test ++ closing), back, ?_, .seq ho (.seq ht hc), hb⟩
  simp only [List.append_assoc]

theorem ifStmt_parts (h : (use .ifStmt).Derives ts) :
    ∃ t head body other, ts = t :: (head ++ (body ++ other)) ∧ t.kind = .symbol .ifWord ∧
      testHead.Derives head ∧ (use .statement).Derives body ∧
      (other = [] ∨ ∃ t' back, other = t' :: back ∧ t'.kind = .symbol .elseWord ∧
        (use .statement).Derives back) := by
  obtain ⟨t, _, rfl, hk, h⟩ := derives_word_seq.1 (derives_use.1 h)
  obtain ⟨head, _, rfl, hc, h⟩ := testHead_parts h
  obtain ⟨body, other, rfl, hb, h⟩ := derives_seq.1 h
  refine ⟨t, head, body, other, rfl, hk, hc, hb, ?_⟩
  rcases derives_maybe.1 h with rfl | h
  · exact .inl rfl
  · exact .inr (derives_word_seq.1 h)

theorem whileStmt_parts (h : (use .whileStmt).Derives ts) :
    ∃ t head body, ts = t :: (head ++ body) ∧ t.kind = .symbol .whileWord ∧
      testHead.Derives head ∧ (use .statement).Derives body := by
  obtain ⟨t, _, rfl, hk, h⟩ := derives_word_seq.1 (derives_use.1 h)
  obtain ⟨head, body, rfl, hc, hb⟩ := testHead_parts h
  exact ⟨t, head, body, rfl, hk, hc, hb⟩

theorem derives_forStmt (hk : t.kind = .symbol .forWord) (head : loopHead.Derives front)
    (body : (use .statement).Derives back) : (use .statement).Derives (t :: (front ++ back)) :=
  derives_for (derives_word_seq.2 ⟨t, _, rfl, hk, .seq head body⟩)

theorem derives_whileStmt (hk : t.kind = .symbol .whileWord) (head : testHead.Derives front)
    (body : (use .statement).Derives back) : (use .statement).Derives (t :: (front ++ back)) :=
  derives_while (derives_word_seq.2 ⟨t, _, rfl, hk, .seq head body⟩)

theorem derives_ifElse {other : List Token} {t' : Token} (hk : t.kind = .symbol .ifWord)
    (head : testHead.Derives front) (body : (use .statement).Derives back)
    (hk' : t'.kind = .symbol .elseWord) (h : (use .statement).Derives other) :
    (use .statement).Derives (t :: (front ++ (back ++ t' :: other))) :=
  derives_if (derives_word_seq.2 ⟨t, _, rfl, hk, .seq head
    (.seq body (.once (derives_word_seq.2 ⟨t', _, rfl, hk', h⟩)))⟩)

/-! ## How they begin -/

theorem begins_statement (h : (use .statement).Derives ts) : Begins StartsStatement ts := by
  have keyword {s : Symbol} {a : Phrase} (hs : s ∈ statementSymbols)
      (h : (seq (word s) a).Derives ts) : Begins StartsStatement ts := by
    obtain ⟨t, _, rfl, hk, -⟩ := derives_word_seq.1 h
    exact ⟨t, _, rfl, .inr ⟨s, hs, hk⟩⟩
  have h := derives_use.1 h
  simp only [Nonterminal.rule, oneOf_cons, oneOf_nil, derives_either] at h
  rcases h with h | h | h | h | h | h | h
  · obtain ⟨_, _, rfl, he, -⟩ := derives_seq.1 (derives_use.1 h)
    exact ((begins_expression he).append _).imp fun _ => .inl
  all_goals exact keyword (by decide) (derives_use.1 h)

theorem begins_declaration (h : (use .declaration).Derives ts) :
    Begins (fun t => t.kind ≠ .symbol .elseWord ∧ t.kind ≠ .symbol .rightBrace) ts := by
  have keyword {s : Symbol} {a : Phrase} (hs : s ≠ .elseWord ∧ s ≠ .rightBrace)
      (h : (seq (word s) a).Derives ts) :
      Begins (fun t => t.kind ≠ .symbol .elseWord ∧ t.kind ≠ .symbol .rightBrace) ts := by
    obtain ⟨t, _, rfl, hk, -⟩ := derives_word_seq.1 h
    exact ⟨t, _, rfl, by simpa [hk] using hs⟩
  have h := derives_use.1 h
  simp only [Nonterminal.rule, oneOf_cons, oneOf_nil, derives_either] at h
  rcases h with h | h | h | h
  case inr.inr.inr =>
    exact (begins_statement h).imp fun t ht =>
      ⟨ht.kind_ne (by decide) (by decide), ht.kind_ne (by decide) (by decide)⟩
  all_goals exact keyword (by decide) (derives_use.1 h)

theorem begins_function (h : (use .function).Derives ts) :
    Begins (fun t => t.kind = .identifier) ts := by
  obtain ⟨t, _, rfl, hk, -⟩ := derives_name_seq.1 (derives_use.1 h)
  exact ⟨t, _, rfl, hk⟩

theorem notNext_declarations {inBlock : Bool} (h : (many (use .declaration)).Derives ts)
    (ends : EndsDeclarations inBlock rest) : NotNext .elseWord (ts ++ rest) := by
  rcases derives_many.1 h with rfl | ⟨first, others, rfl, hf, -⟩
  · exact ends.notNext_else
  · obtain ⟨t, tail, rfl, ht, -⟩ := begins_declaration hf
    exact notNext_cons.2 ht

theorem declarations_ends {inBlock : Bool} (ends : EndsDeclarations inBlock rest) :
    Accepts (fun ts => (declarations inBlock ts).reading) [] rest := by
  cases rest with
  | nil => exact .keep (by rw [declarations]; rfl)
  | cons t rest =>
      obtain ⟨rfl, hk⟩ := ends t rest rfl
      exact .keep (declarations_end (Token.isSymbol_iff.2 hk) rest)

/-! ## Where an `else` belongs -/

/-- The statement is read in front of anything. -/
def Shut (front : List Token) : Prop :=
  ∀ rest, Accepts (fun ts => (statement ts).reading) front rest

/-- The statement can have an `else` behind it, and is read if it has none. -/
structure Open (front : List Token) : Prop where
  extends' : ∀ t other, t.kind = .symbol .elseWord → (use .statement).Derives other →
    (use .statement).Derives (front ++ t :: other)
  accepts : ∀ rest, NotNext .elseWord rest →
    Accepts (fun ts => (statement ts).reading) front rest

theorem accepts_of_shut_or_open (h : Shut front ∨ Open front) (hno : NotNext .elseWord rest) :
    Accepts (fun ts => (statement ts).reading) front rest :=
  h.elim (fun h => h rest) fun h => h.accepts rest hno

theorem alternative_none (test : Expr) (consequent : Stmt) (hno : NotNext .elseWord rest) :
    Accepts (fun ts => (alternative test consequent ts).reading) [] rest := by
  cases rest with
  | nil => exact .keep (by rw [alternative]; rfl)
  | cons t rest =>
      have hno := mt Token.isSymbol_iff.1 (notNext_cons.1 hno)
      exact .keep (by rw [alternative, if_neg hno]; rfl)

theorem alternative_some {other : List Token} (test : Expr) (consequent : Stmt)
    (hk : t.kind = .symbol .elseWord) (h : Accepts (fun ts => (statement ts).reading) other rest) :
    Accepts (fun ts => (alternative test consequent ts).reading) (t :: other) rest :=
  .cons (h.map (Stmt.ifElse test consequent)) fun us => by
    rw [alternative, if_pos (Token.isSymbol_iff.2 hk), Reply.reading_widen, Reply.reading_map]

theorem ifThen_open (hk : t.kind = .symbol .ifWord) (head : testHead.Derives front)
    (body : (use .statement).Derives back) (h : Shut back ∨ Open back) :
    Open (t :: (front ++ back)) where
  extends' t' other hk' ho := by
    rw [List.cons_append, List.append_assoc]
    exact derives_ifElse hk head body hk' ho
  accepts rest hno := by
    refine .cons (.bind (condition_accepts head) fun test => .widen ?_ _) (statement_if hk)
    rw [← List.append_nil back]
    exact .bind (accepts_of_shut_or_open h hno) fun consequent =>
      alternative_none test consequent hno

theorem ifElse_accepts {other : List Token} {t' : Token} (hk : t.kind = .symbol .ifWord)
    (head : testHead.Derives front) (shut : Shut back) (hk' : t'.kind = .symbol .elseWord)
    (h : Accepts (fun ts => (statement ts).reading) other rest) :
    Accepts (fun ts => (statement ts).reading) (t :: (front ++ (back ++ t' :: other))) rest :=
  .cons (.bind (condition_accepts head) fun test => .widen (.bind (shut _) fun consequent =>
    alternative_some test consequent hk' h) _) (statement_if hk)

mutual

theorem statement_accepts {front : List Token} (h : (use .statement).Derives front) :
    Shut front ∨ Open front := by
  have h := derives_use.1 h
  simp only [Nonterminal.rule, oneOf_cons, oneOf_nil, derives_either] at h
  rcases h with h | h | h | h | h | h | h
  · left
    intro rest
    have h := derives_use.1 h
    have accepts : Accepts (fun ts => ((closed .semicolon .expressionEnd ts).map
        Stmt.expr).reading) front rest := .replyMap (closed_accepts (by decide) h)
    obtain ⟨e, closing, rfl, he, -⟩ := derives_seq.1 h
    obtain ⟨t, tail, hts, ht⟩ := (begins_expression he).append closing
    rw [hts] at accepts ⊢
    exact .congr accepts (statement_expression ⟨ht.kind_ne (by decide), ht.kind_ne (by decide),
      ht.kind_ne (by decide), ht.kind_ne (by decide), ht.kind_ne (by decide),
      ht.kind_ne (by decide)⟩)
  · obtain ⟨t, head, body, rfl, hk, hh, hb⟩ := forStmt_parts h
    have looped {rest : List Token} (h : Accepts (fun ts => (statement ts).reading) body rest) :
        Accepts (fun ts => (statement ts).reading) (t :: (head ++ body)) rest :=
      .cons (.bind (forClauses_accepts hh) fun clauses => .widen (.replyMap h) _)
        (statement_for hk)
    rcases statement_accepts hb with shut | isOpen
    · exact .inl fun rest => looped (shut rest)
    · refine .inr ⟨fun t' other hk' ho => ?_, fun rest hno => looped (isOpen.accepts rest hno)⟩
      rw [List.cons_append, List.append_assoc]
      exact derives_forStmt hk hh (isOpen.extends' t' other hk' ho)
  · obtain ⟨t, head, body, other, rfl, hk, hh, hb, ho⟩ := ifStmt_parts h
    rcases ho with rfl | ⟨t', other, rfl, hk', ho⟩
    · rw [List.append_nil]
      exact .inr (ifThen_open hk hh hb (statement_accepts hb))
    · rcases statement_accepts hb with shut | isOpen
      · rcases statement_accepts ho with shut' | isOpen'
        · exact .inl fun rest => ifElse_accepts hk hh shut hk' (shut' rest)
        · refine .inr ⟨fun t'' other' hk'' ho' => ?_, fun rest hno =>
            ifElse_accepts hk hh shut hk' (isOpen'.accepts rest hno)⟩
          simp only [List.cons_append, List.append_assoc]
          exact derives_ifElse hk hh hb hk' (isOpen'.extends' t'' other' hk'' ho')
      · -- the `else` belongs to the statement in front of it
        have taken := isOpen.extends' t' other hk' ho
        exact .inr (ifThen_open hk hh taken (statement_accepts taken))
  · obtain ⟨t, _, rfl, hk, h⟩ := derives_word_seq.1 (derives_use.1 h)
    exact .inl fun rest => .cons (.replyMap (closed_accepts (by decide) h)) (statement_print hk)
  · obtain ⟨t, _, rfl, hk, h⟩ := derives_word_seq.1 (derives_use.1 h)
    exact .inl fun rest => .cons (.replyMap (optionallyClosed_accepts (by decide) (by decide) h))
      (statement_return hk)
  · obtain ⟨t, head, body, rfl, hk, hh, hb⟩ := whileStmt_parts h
    have looped {rest : List Token} (h : Accepts (fun ts => (statement ts).reading) body rest) :
        Accepts (fun ts => (statement ts).reading) (t :: (head ++ body)) rest :=
      .cons (.bind (condition_accepts hh) fun test => .widen (.replyMap h) _)
        (statement_while hk)
    rcases statement_accepts hb with shut | isOpen
    · exact .inl fun rest => looped (shut rest)
    · refine .inr ⟨fun t' other hk' ho => ?_, fun rest hno => looped (isOpen.accepts rest hno)⟩
      rw [List.cons_append, List.append_assoc]
      exact derives_whileStmt hk hh (isOpen.extends' t' other hk' ho)
  · obtain ⟨t, _, rfl, hk, h⟩ := derives_word_seq.1 (derives_use.1 h)
    exact .inl fun rest => .cons (.replyMap (block_accepts h)) (statement_block hk)
termination_by 8 * front.length + 1
decreasing_by all_goals subst_vars; simp only [List.length_append, List.length_cons]; omega

theorem block_accepts {front rest : List Token}
    (h : (seq (many (use .declaration)) (word .rightBrace)).Derives front) :
    Accepts (fun ts => (block ts).reading) front rest := by
  obtain ⟨list, _, rfl, hl, closing⟩ := derives_seq.1 h
  obtain ⟨t, rfl, hk⟩ := derives_word.1 closing
  exact .of_eq (.andThen (declarations_accepts true hl (endsDeclarations_brace hk)) fun _ =>
    .replyMap (expect_accepts hk)) block_reading
termination_by 8 * front.length + 4
decreasing_by subst_vars; simp only [List.length_append, List.length_cons]; omega

theorem declarations_accepts (inBlock : Bool) {front rest : List Token}
    (h : (many (use .declaration)).Derives front) (ends : EndsDeclarations inBlock rest) :
    Accepts (fun ts => (declarations inBlock ts).reading) front rest := by
  rcases derives_many.1 h with rfl | ⟨first, others, rfl, hf, ho⟩
  · exact declarations_ends ends
  · obtain ⟨s, reports, hd, mild⟩ := declaration_accepts hf (notNext_declarations ho ends)
    obtain ⟨ss, reports', hm, mild'⟩ := declarations_accepts inBlock ho ends
    have accepts : Accepts (continued inBlock) (first ++ others) rest := by
      refine ⟨s :: ss, reports ++ reports', ?_, List.forall_mem_append.2 ⟨mild, mild'⟩⟩
      rw [List.append_assoc, continued, hd]
      exact congrArg (fun a => (Reading.map (s :: ·) a).noting reports) hm
    obtain ⟨t, tail, rfl, -, ht⟩ := begins_declaration hf
    exact .congr accepts (declarations_continued _ (by simp [Token.isSymbol_iff, ht]))
termination_by 8 * front.length + 3
decreasing_by
  · subst_vars
    simp only [List.length_append]
    omega
  · obtain ⟨t, tail, rfl, -⟩ := begins_declaration hf
    subst_vars
    simp only [List.length_append, List.length_cons]
    omega

theorem declaration_accepts {front rest : List Token} (h : (use .declaration).Derives front)
    (hno : NotNext .elseWord rest) : Accepts declared front rest := by
  have h := derives_use.1 h
  simp only [Nonterminal.rule, oneOf_cons, oneOf_nil, derives_either] at h
  rcases h with h | h | h | h
  · obtain ⟨t, _, rfl, hk, h⟩ := derives_word_seq.1 (derives_use.1 h)
    exact .cons (classBody_accepts h) (declared_class hk)
  · obtain ⟨t, _, rfl, hk, h⟩ := derives_word_seq.1 (derives_use.1 h)
    exact .cons (.replyMap (routine_accepts .function h)) (declared_fun hk)
  · obtain ⟨t, _, rfl, hk, h⟩ := derives_word_seq.1 (derives_use.1 h)
    exact .cons (variableDeclaration_accepts h) (declared_var hk)
  · have accepts := accepts_of_shut_or_open (statement_accepts h) hno
    obtain ⟨t, tail, rfl, ht⟩ := begins_statement h
    exact .congr accepts (declared_statement ⟨ht.kind_ne (by decide) (by decide),
      ht.kind_ne (by decide) (by decide), ht.kind_ne (by decide) (by decide)⟩)
termination_by 8 * front.length + 2
decreasing_by all_goals subst_vars; (try simp only [List.length_cons]); omega

theorem classBody_accepts {front rest : List Token}
    (h : (seq name (seq (maybe (seq (word .less) name)) (seq (word .leftBrace)
      (seq (many (use .function)) (word .rightBrace))))).Derives front) :
    Accepts (fun ts => (classBody ts).reading) front rest := by
  obtain ⟨x, _, rfl, hx, h⟩ := derives_name_seq.1 h
  obtain ⟨parent, _, rfl, hp, h⟩ := derives_seq.1 h
  obtain ⟨opening, _, rfl, ho, h⟩ := derives_word_seq.1 h
  obtain ⟨list, _, rfl, hl, closing⟩ := derives_seq.1 h
  obtain ⟨t, rfl, hk⟩ := derives_word.1 closing
  have hno : NotNext .less (opening :: (list ++ [t]) ++ rest) := notNext_cons.2 (by simp [ho])
  simp only [classBody]
  exact .bindToken (expectName_accepts hx) fun _ => .bind (superclass_accepts hp hno) fun _ =>
    .widen (.bindToken (expect_accepts ho) fun _ =>
      .bind (methods_accepts hl ⟨t, _, rfl, hk⟩) fun _ =>
        .widen (.replyMap (expect_accepts hk)) _) _
termination_by 8 * front.length + 7
decreasing_by subst_vars; simp only [List.length_append, List.length_cons]; omega

theorem methods_accepts {front rest : List Token} (h : (many (use .function)).Derives front)
    (ends : Begins (fun t => t.kind = .symbol .rightBrace) rest) :
    Accepts (fun ts => (methods ts).reading) front rest := by
  rcases derives_many.1 h with rfl | ⟨first, others, rfl, hf, ho⟩
  · obtain ⟨t, rest, rfl, hk⟩ := ends
    exact .keep (by rw [methods, if_pos (Token.isSymbol_iff.2 hk)]; rfl)
  · have accepts := Accepts.bind (routine_accepts .method hf) fun m =>
      .replyMap (k := (m :: ·)) (methods_accepts ho ends)
    obtain ⟨t, tail, rfl, ht⟩ := begins_function hf
    have hno : ¬t.isSymbol .rightBrace = true := by simp [Token.isSymbol, ht]
    exact .congr accepts fun us => by rw [methods, if_neg hno, Reply.reading_widen]
termination_by 8 * front.length + 6
decreasing_by
  all_goals
    obtain ⟨t, tail, rfl, -⟩ := begins_function hf
    subst_vars
    simp only [List.length_append, List.length_cons]
    omega

theorem routine_accepts (what : Routine) {front rest : List Token}
    (h : (use .function).Derives front) :
    Accepts (fun ts => (routine what ts).reading) front rest := by
  obtain ⟨x, _, rfl, hx, h⟩ := derives_name_seq.1 (derives_use.1 h)
  obtain ⟨opening, _, rfl, ho, h⟩ := derives_word_seq.1 h
  obtain ⟨list, _, rfl, hl, h⟩ := derives_seq.1 h
  obtain ⟨closing, _, rfl, hc, body⟩ := derives_word_seq.1 h
  obtain ⟨brace, _, rfl, hb, body⟩ := derives_word_seq.1 (derives_use.1 body)
  simp only [routine]
  refine .bindToken (expectName_accepts hx) fun _ => .widen (.bindToken (expect_accepts ho) fun _ =>
    .widen ?_ _) _
  rw [← List.singleton_append, ← List.append_assoc]
  exact .bind (parameters_accepts (.seq hl (.token hc))) fun _ =>
    .widen (.bindToken (expect_accepts hb) fun _ => .widen (.replyMap (block_accepts body)) _) _
termination_by 8 * front.length + 5
decreasing_by all_goals subst_vars; simp only [List.length_append, List.length_cons]; omega

end

end LoxLang.Grammar
