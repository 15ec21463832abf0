import LoxLang.Proofs.Recognition

/-!
# Statements and declarations recognize their phrases

The same for the rest of the grammar. A declaration that is refused is one more
case: reading resumes behind it, at a place that does not depend on what stands
behind the token found there, and the error that ended it stays the first one.
-/

namespace LoxLang.Grammar

open Phrase

variable {ts us : List Token}

/-! ## Lists of declarations -/

/-- The declaration that the tokens begin with. -/
def declared : List Token → Reading Stmt
  | [] => .refused [] [] ⟨none, .expression⟩
  | t :: ts => (declaration t ts).reading

/-- What was read, as a reading; there is always one. -/
def Batch.reading {n : Nat} (batch : Batch n) : Reading (List Stmt) :=
  .parsed batch.stmts batch.rest batch.reports

/-- A declaration and those behind it, which are read after a refusal as well. -/
def continued (inBlock : Bool) (ts : List Token) : Reading (List Stmt) :=
  match declared ts with
  | .parsed s rest reports => ((declarations inBlock rest).reading.map (s :: ·)).noting reports
  | .refused rest reports reason =>
    (declarations inBlock (resume rest)).reading.noting (reports ++ [reason])

theorem declarations_end {t : Token} (h : t.isSymbol .rightBrace = true) (ts : List Token) :
    (declarations true (t :: ts)).reading = .parsed [] (t :: ts) [] := by
  rw [declarations, if_pos (by rw [h]; rfl)]
  rfl

theorem declarations_continued (inBlock : Bool) {t : Token}
    (h : ¬(inBlock && t.isSymbol .rightBrace) = true) (ts : List Token) :
    (declarations inBlock (t :: ts)).reading = continued inBlock (t :: ts) := by
  rw [declarations, if_neg h, continued, declared]
  cases hd : declaration t ts with
  | parsed s rest reports => rfl
  | refused rest reports reason =>
      simp [Batch.reading, Reading.noting]

theorem unwinding?_continued {inBlock : Bool} {c : Complaint}
    (h : (declared ts).unwinding? = some c) : (continued inBlock ts).unwinding? = some c := by
  unfold continued
  cases hd : declared ts with
  | parsed s rest reports =>
      rw [hd] at h
      rw [Reading.unwinding?, Reading.complaints_noting, List.find?_append,
        show reports.find? (·.error.unwinds) = some c from h, Option.some_or]
  | refused rest reports reason =>
      rw [hd] at h
      rw [Reading.unwinding?, Reading.complaints_noting, List.find?_append,
        show (reports ++ [reason]).find? (·.error.unwinds) = some c from h, Option.some_or]

/-! ## Resuming -/

/-- Where skipping ends is not changed by what stands behind the token found there. -/
theorem skipToBoundary_split (previous : Token) (ts : List Token) :
    ∃ skipped, ts = skipped ++ skipToBoundary previous ts ∧
      ∀ t behind, skipToBoundary previous ts = t :: behind →
        ∀ more, skipToBoundary previous (skipped ++ t :: more) = t :: more := by
  induction ts generalizing previous with
  | nil => exact ⟨[], rfl, nofun⟩
  | cons t ts ih =>
      by_cases h : (previous.isSymbol .semicolon || t.startsStatement) = true
      · refine ⟨[], by rw [skipToBoundary, if_pos h]; rfl, fun u behind left more => ?_⟩
        rw [skipToBoundary, if_pos h] at left
        cases left
        rw [List.nil_append, skipToBoundary, if_pos h]
      · obtain ⟨skipped, split, same⟩ := ih t
        rw [skipToBoundary, if_neg h]
        refine ⟨t :: skipped, congrArg (t :: ·) split, fun u behind left more => ?_⟩
        rw [List.cons_append, skipToBoundary, if_neg h]
        exact same u behind left more

theorem resume_split (t : Token) (ts : List Token) :
    ∃ skipped, t :: ts = t :: skipped ++ resume (t :: ts) ∧
      ∀ u behind, resume (t :: ts) = u :: behind →
        ∀ more, resume (t :: skipped ++ u :: more) = u :: more := by
  obtain ⟨skipped, split, same⟩ := skipToBoundary_split t ts
  exact ⟨skipped, congrArg (t :: ·) split, same⟩

/-- After a refusal the declarations behind it are read. -/
theorem Recognizes.recover {inBlock : Bool} {rest : List Token} {reports : List Complaint}
    {reason : Complaint} (h : Recognizes (use .declaration) declared ts)
    (hf : declared ts = .refused rest reports reason)
    (h' : Recognizes (many (use .declaration)) (fun ts => (declarations inBlock ts).reading)
      (resume rest)) :
    Recognizes (many (use .declaration)) (continued inBlock) ts := by
  obtain ⟨front, split, -, local'⟩ := h.reads
  have unwinds := h.fails _ _ _ hf
  have first : (declared ts).unwinding? ≠ none := hf ▸ Reading.unwinding?_refused unwinds
  have goes : continued inBlock ts =
      (declarations inBlock (resume rest)).reading.noting (reports ++ [reason]) := by
    rw [continued, hf]
  constructor
  · obtain ⟨front', split', -, local''⟩ := h'.reads
    rw [hf] at split local'
    obtain rfl : ts = front ++ rest := split
    cases rest with
    | nil =>
        refine ⟨front, ?_, fun clean => ?_, fun t behind left => ?_⟩
        · rw [goes, resume, declarations]
          rfl
        · cases hc : (declared (front ++ [])).unwinding? with
          | none => exact absurd hc first
          | some c =>
              rw [unwinding?_continued hc] at clean
              cases clean
        · rw [goes, resume, declarations] at left
          cases left
    | cons w ws =>
        obtain ⟨skipped, skips, resumes⟩ := resume_split w ws
        refine ⟨front ++ (w :: skipped ++ front'), ?_, fun clean => ?_, fun t behind left => ?_⟩
        · rw [goes, Reading.rest_noting, List.append_assoc, List.append_assoc, ← split', ← skips]
        · cases hc : (declared (front ++ w :: ws)).unwinding? with
          | none => exact absurd hc first
          | some c =>
              rw [unwinding?_continued hc] at clean
              cases clean
        · rw [goes, Reading.rest_noting] at left
          obtain ⟨found', local''⟩ := local'' t behind left
          obtain ⟨found, local'⟩ := local' w ws rfl
          refine ⟨?_, fun more => ?_⟩
          · rw [goes, Reading.complaints_noting]
            exact List.forall_mem_append.2 ⟨found, found'⟩
          · rw [left] at split'
            have here : resume (w :: skipped ++ (front' ++ t :: more)) = front' ++ t :: more := by
              cases hr : front' ++ t :: behind with
              | nil => simp at hr
              | cons u us =>
                  obtain ⟨us', hus⟩ := exists_cons hr more
                  rw [hus]
                  exact resumes u us (split'.trans hr) us'
            have refused : declared (front ++ (w :: skipped ++ (front' ++ t :: more))) =
                .refused (w :: skipped ++ (front' ++ t :: more)) reports reason := local' _
            rw [List.append_assoc, List.append_assoc, continued, refused]
            dsimp only
            rw [here, goes, Reading.leaving_noting]
            exact congrArg _ (local'' more)
  · intro c hc
    cases hd : (declared ts).unwinding? with
    | none => exact absurd hd first
    | some c' =>
        rw [unwinding?_continued hd] at hc
        cases hc
        obtain ⟨front, rest, split, found, viable, same⟩ := h.stuck c hd
        refine ⟨front, rest, split, found, ?_, fun t behind left more =>
          unwinding?_continued (same t behind left more)⟩
        exact (viable.seq (b := many (use .declaration))).imp fun _ => derives_more
  · rw [goes]
    rintro _ _ _ ⟨⟩

/-- Behind a declaration that was read, others are read. -/
theorem Recognizes.proceed {inBlock : Bool} {s : Stmt} {rest : List Token}
    {reports : List Complaint} (h : Recognizes (use .declaration) declared ts)
    (hf : declared ts = .parsed s rest reports)
    (h' : Recognizes (many (use .declaration)) (fun ts => (declarations inBlock ts).reading) rest) :
    Recognizes (many (use .declaration)) (continued inBlock) ts :=
  .imp (h.goOn hf (h'.map (s :: ·)) (fun us rest hus => by rw [continued, hus])
    fun _ _ => unwinding?_continued) fun _ => derives_more

/-! ## Parts of statements -/

/-- What may follow a parameter behind `count` others: a comma and more of them, or the closing
parenthesis. -/
def parametersRest (count : Nat) (p : Token) : List Token → Reading (List Token)
  | [] => (expect .rightParen .parametersClose []).reading.map fun _ => [p]
  | t :: rest =>
    if t.isSymbol .comma then (someParameters (count + 1) rest).reading.map (p :: ·)
    else (expect .rightParen .parametersClose (t :: rest)).reading.map fun _ => [p]

theorem someParameters_reading (count : Nat) (ts : List Token) :
    (someParameters count ts).reading =
      ((expectName .parameterName ts).reading.andThen (parametersRest count)).noting
        (limitReport .tooManyParameters count ts) := by
  rw [someParameters, Reply.reading_noting]
  congr 1
  refine Reply.reading_andThen fun p rest _ => ?_
  cases rest with
  | nil => rw [Reply.reading_widen, Reply.reading_map, parametersRest]
  | cons t behind =>
      dsimp only [parametersRest]
      split
      · rw [Reply.reading_widen, Reply.reading_map]
      · rw [Reply.reading_widen, Reply.reading_map]

/-- One more parameter in front of others. -/
theorem derives_parameters (h : (seq name (seq (word .comma) (use .parameters))).Derives ts) :
    (use .parameters).Derives ts := by
  obtain ⟨_, _, rfl, first, h⟩ := derives_seq.1 h
  obtain ⟨_, _, rfl, comma, h⟩ := derives_seq.1 h
  obtain ⟨_, _, rfl, second, others⟩ := derives_seq.1 (derives_use.1 h)
  refine .use (.seq first ?_)
  rw [← List.append_assoc]
  exact .more (.seq comma second) others

theorem derives_parameter (h : name.Derives ts) : (use .parameters).Derives ts := by
  rw [← List.append_nil ts]
  exact .use (.seq h .stop)

theorem someParameters_recognizes (count : Nat) (ts : List Token) :
    Recognizes (seq (use .parameters) (word .rightParen))
      (fun ts => (someParameters count ts).reading) ts := by
  refine .of_eq (.noting (.imp (.andThen (q := either (word .rightParen)
    (seq (word .comma) (seq (use .parameters) (word .rightParen))))
    (expectName_recognizes (e := .parameterName) rfl ts) fun p mid _ hm => ?_) fun us h => ?_)
    (limitReport_mild rfl count) fun _ _ _ => rfl) (someParameters_reading count)
  · have shorter := Reply.length_lt_of_reading hm
    cases mid with
    | nil =>
        have closing := (expect_recognizes (s := .rightParen) (e := .parametersClose) rfl []).map
          fun _ => [p]
        exact .imp (.congr_nil closing rfl) fun us => .left
    | cons t rest =>
        by_cases hk : t.isSymbol .comma = true
        · have list := (someParameters_recognizes (count + 1) rest).map (p :: ·)
          exact .imp (list.cons (x := .word .comma) (Token.isSymbol_iff.1 hk) fun us => if_pos hk)
            fun us => .right
        · have closing := (expect_recognizes (s := .rightParen) (e := .parametersClose) rfl
            (t :: rest)).map fun _ => [p]
          exact .imp (closing.congr fun us => if_neg hk) fun us => .left
  · obtain ⟨_, _, rfl, first, h⟩ := derives_seq.1 h
    rcases derives_either.1 h with closing | h
    · exact .seq (derives_parameter first) closing
    · obtain ⟨_, _, rfl, list, closing⟩ := derives_seq.1 (derives_assoc h)
      rw [← List.append_assoc]
      exact .seq (derives_parameters (.seq first list)) closing
termination_by ts.length
decreasing_by simp only [List.length_cons] at *; omega

theorem parameters_recognizes (ts : List Token) :
    Recognizes (seq (maybe (use .parameters)) (word .rightParen))
      (fun ts => (parameters ts).reading) ts := by
  cases ts with
  | nil => exact .imp (.congr_nil (someParameters_recognizes 0 []) rfl) fun us => derives_once
  | cons t rest =>
      by_cases hk : t.isSymbol .rightParen = true
      · have none (us : List Token) : (parameters (t :: us)).reading = .parsed [] us [] := by
          rw [parameters, if_pos hk]
          rfl
        exact .imp (.take (x := .word .rightParen) (Token.isSymbol_iff.1 hk) none)
          fun us => derives_skip
      · have some (us : List Token) :
            (parameters (t :: us)).reading = (someParameters 0 (t :: us)).reading := by
          rw [parameters, if_neg hk]
        exact .imp (.congr (someParameters_recognizes 0 (t :: rest)) some) fun us => derives_once

theorem closed_recognizes {s : Symbol} {error : GrammarError} (unwinds : error.unwinds = true)
    (ts : List Token) :
    Recognizes (seq (use .expression) (word s)) (fun ts => (closed s error ts).reading) ts :=
  .bind (expression_recognizes ts) fun _ mid _ =>
    .widen (.replyMap (expect_recognizes unwinds mid)) _

theorem optionallyClosed_recognizes {s : Symbol} {error : GrammarError}
    (unwinds : error.unwinds = true) (ts : List Token) :
    Recognizes (seq (maybe (use .expression)) (word s))
      (fun ts => (optionallyClosed s error ts).reading) ts := by
  have closing (ts : List Token) :
      Recognizes (seq (use .expression) (word s)) (fun ts => ((closed s error ts).map some).reading)
        ts := .replyMap (closed_recognizes unwinds ts)
  cases ts with
  | nil => exact .imp (.congr_nil (closing []) rfl) fun us => derives_once
  | cons t rest =>
      by_cases hk : t.isSymbol s = true
      · have none (us : List Token) :
            (optionallyClosed s error (t :: us)).reading = .parsed none us [] := by
          rw [optionallyClosed, if_pos hk]
          rfl
        exact .imp (.take (x := .word s) (Token.isSymbol_iff.1 hk) none) fun us => derives_skip
      · have some (us : List Token) : (optionallyClosed s error (t :: us)).reading =
            ((closed s error (t :: us)).map .some).reading := by
          rw [optionallyClosed, if_neg hk]
        exact .imp (.congr (closing (t :: rest)) some) fun us => derives_once

/-- What may follow the name of a variable: an equals sign and a value, and a semicolon. -/
def initializer (x : Token) : List Token → Reading Stmt
  | [] => (expect .semicolon .variableEnd []).reading.map fun _ => .var x none
  | t :: rest =>
    if t.isSymbol .equal then (expression rest).reading.andThen fun e rest' =>
      (expect .semicolon .variableEnd rest').reading.map fun _ => .var x (some e)
    else (expect .semicolon .variableEnd (t :: rest)).reading.map fun _ => .var x none

theorem variableEnd_recognizes (ts : List Token) :
    Recognizes (.word .semicolon) (fun ts => (expect .semicolon .variableEnd ts).reading) ts :=
  expect_recognizes rfl ts

theorem variableDeclaration_reading (ts : List Token) :
    (variableDeclaration ts).reading =
      (expectName .variableName ts).reading.andThen initializer := by
  refine Reply.reading_andThen fun x rest _ => ?_
  cases rest with
  | nil => rw [Reply.reading_widen, Reply.reading_map, initializer]
  | cons t behind =>
      dsimp only [initializer]
      split
      · rw [Reply.reading_widen]
        exact Reply.reading_andThen fun _ _ _ => by rw [Reply.reading_widen, Reply.reading_map]
      · rw [Reply.reading_widen, Reply.reading_map]

theorem variableDeclaration_recognizes (ts : List Token) :
    Recognizes (seq name (seq (maybe (seq (word .equal) (use .expression))) (word .semicolon)))
      (fun ts => (variableDeclaration ts).reading) ts := by
  refine .of_eq (.andThen (expectName_recognizes rfl ts) fun x mid _ _ => ?_)
    variableDeclaration_reading
  cases mid with
  | nil =>
      have ends := (variableEnd_recognizes []).map fun _ => Stmt.var x none
      exact .imp (.congr_nil ends rfl) fun us => derives_skip
  | cons t rest =>
      by_cases hk : t.isSymbol .equal = true
      · have value := (expression_recognizes rest).andThen fun e rest' _ _ =>
          (variableEnd_recognizes rest').map fun _ => Stmt.var x (some e)
        exact .imp (value.cons (x := .word .equal) (Token.isSymbol_iff.1 hk) fun us => if_pos hk)
          fun us h => derives_once (derives_assoc h)
      · have ends := (variableEnd_recognizes (t :: rest)).map fun _ => Stmt.var x none
        exact .imp (ends.congr fun us => if_neg hk) fun us => derives_skip

theorem condition_recognizes {opening closing : GrammarError} (opens : opening.unwinds = true)
    (closes : closing.unwinds = true) (ts : List Token) :
    Recognizes (seq (word .leftParen) (seq (use .expression) (word .rightParen)))
      (fun ts => (condition opening closing ts).reading) ts :=
  .bind (expect_recognizes opens ts) fun _ mid _ => .widen (closed_recognizes closes mid) _

/-- The first clause of a `for` loop. -/
def firstClause : Phrase := oneOf (use .varDecl) [use .exprStmt, word .semicolon]

theorem derives_expressionClause (h : (seq (use .expression) (word .semicolon)).Derives ts) :
    firstClause.Derives ts := .right (.left (.use h))

theorem initialClause_recognizes (ts : List Token) :
    Recognizes firstClause (fun ts => (initialClause ts).reading) ts := by
  have clause (ts : List Token) : Recognizes (seq (use .expression) (word .semicolon))
      (fun ts => ((closed .semicolon .expressionEnd ts).map fun e => some (Stmt.expr e)).reading) ts :=
    .replyMap (closed_recognizes rfl ts)
  cases ts with
  | nil => exact .imp (.congr_nil (clause []) rfl) fun us => derives_expressionClause
  | cons t rest =>
      by_cases hk : t.isSymbol .semicolon = true
      · have none (us : List Token) : (initialClause (t :: us)).reading = .parsed none us [] := by
          rw [initialClause, if_pos hk]
          rfl
        exact .imp (.take (x := .word .semicolon) (Token.isSymbol_iff.1 hk) none)
          fun us h => .right (.right h)
      · by_cases hv : t.isSymbol .varWord = true
        · have variable' (us : List Token) : (initialClause (t :: us)).reading =
              (variableDeclaration us).reading.map some := by
            rw [initialClause, if_neg hk, if_pos hv, Reply.reading_widen, Reply.reading_map]
          exact .imp (((variableDeclaration_recognizes rest).map some).cons (x := .word .varWord)
            (Token.isSymbol_iff.1 hv) variable') fun us h => .left (.use h)
        · have other (us : List Token) : (initialClause (t :: us)).reading =
              ((closed .semicolon .expressionEnd (t :: us)).map
                fun e => some (Stmt.expr e)).reading := by
            rw [initialClause, if_neg hk, if_neg hv]
          exact .imp (.congr (clause (t :: rest)) other) fun us => derives_expressionClause

theorem forClauses_recognizes (ts : List Token) :
    Recognizes (seq (word .leftParen) (seq firstClause
      (seq (seq (maybe (use .expression)) (word .semicolon))
        (seq (maybe (use .expression)) (word .rightParen)))))
      (fun ts => (forClauses ts).reading) ts :=
  .bind (expect_recognizes rfl ts) fun _ mid _ =>
    .widen (.bind (initialClause_recognizes mid) fun _ mid _ =>
      .widen (.bind (optionallyClosed_recognizes rfl mid) fun _ mid _ =>
        .widen (.replyMap (optionallyClosed_recognizes rfl mid)) _) _) _

theorem superclass_recognizes (ts : List Token) :
    Recognizes (maybe (seq (word .less) name)) (fun ts => (superclass ts).reading) ts := by
  cases ts with
  | nil => exact .keep .skip rfl (by simp)
  | cons t rest =>
      by_cases hk : t.isSymbol .less = true
      · have parent := (expectName_recognizes (e := .superclassName) rfl rest).map
          fun x => some (Expr.name x none)
        exact .imp (parent.cons (x := .word .less) (Token.isSymbol_iff.1 hk) fun us => by
          rw [superclass, if_pos hk, Reply.reading_widen, Reply.reading_map]) fun us => .once
      · have same (us : List Token) : (superclass (t :: us)).reading = .parsed none (t :: us) [] := by
          rw [superclass, if_neg hk]
          rfl
        exact .keep_cons .skip same

/-! ## Statements and declarations -/

theorem statement_for {t : Token} (hk : t.kind = .symbol .forWord) (ts : List Token) :
    (statement (t :: ts)).reading = ((forClauses ts).andThen fun clauses rest _ =>
      ((statement rest).map clauses.toStmt).widen (length_le_succ rest)).reading := by
  rw [statement, hk]
  exact Reply.reading_widen _ _

theorem statement_if {t : Token} (hk : t.kind = .symbol .ifWord) (ts : List Token) :
    (statement (t :: ts)).reading = ((condition .ifOpen .ifClose ts).andThen fun test rest _ =>
      ((statement rest).andThen fun consequent rest' _ =>
        alternative test consequent rest').widen (length_le_succ rest)).reading := by
  rw [statement, hk]
  exact Reply.reading_widen _ _

theorem statement_while {t : Token} (hk : t.kind = .symbol .whileWord) (ts : List Token) :
    (statement (t :: ts)).reading = ((condition .whileOpen .whileClose ts).andThen fun test rest _ =>
      ((statement rest).map (.whileDo test)).widen (length_le_succ rest)).reading := by
  rw [statement, hk]
  exact Reply.reading_widen _ _

theorem statement_return {t : Token} (hk : t.kind = .symbol .returnWord) (ts : List Token) :
    (statement (t :: ts)).reading = (returnValue t ts).reading := by
  rw [statement, hk]
  exact Reply.reading_widen _ _

theorem statement_block {t : Token} (hk : t.kind = .symbol .leftBrace) (ts : List Token) :
    (statement (t :: ts)).reading = ((block ts).map .block).reading := by
  rw [statement, hk]
  exact Reply.reading_widen _ _

theorem statement_print {t : Token} (hk : t.kind = .symbol .printWord) (ts : List Token) :
    (statement (t :: ts)).reading = ((closed .semicolon .printEnd ts).map .print).reading := by
  rw [statement, hk]
  exact Reply.reading_widen _ _

/-- A statement that begins with none of the words is an expression statement. -/
theorem statement_expression {t : Token} (hk : t.kind ≠ .symbol .forWord ∧
    t.kind ≠ .symbol .ifWord ∧ t.kind ≠ .symbol .whileWord ∧ t.kind ≠ .symbol .returnWord ∧
    t.kind ≠ .symbol .leftBrace ∧ t.kind ≠ .symbol .printWord) (ts : List Token) :
    (statement (t :: ts)).reading =
      ((closed .semicolon .expressionEnd (t :: ts)).map .expr).reading := by
  obtain ⟨h₁, h₂, h₃, h₄, h₅, h₆⟩ := hk
  rw [statement]
  split <;> first | contradiction | rfl

theorem declared_class {t : Token} (hk : t.kind = .symbol .classWord) (ts : List Token) :
    declared (t :: ts) = (classBody ts).reading := by
  rw [declared, declaration, hk]
  exact Reply.reading_widen _ _

theorem declared_fun {t : Token} (hk : t.kind = .symbol .funWord) (ts : List Token) :
    declared (t :: ts) = ((routine .function ts).map .function).reading := by
  rw [declared, declaration, hk]
  exact Reply.reading_widen _ _

theorem declared_var {t : Token} (hk : t.kind = .symbol .varWord) (ts : List Token) :
    declared (t :: ts) = (variableDeclaration ts).reading := by
  rw [declared, declaration, hk]
  exact Reply.reading_widen _ _

/-- A declaration that begins with none of the words is a statement. -/
theorem declared_statement {t : Token} (hk : t.kind ≠ .symbol .classWord ∧
    t.kind ≠ .symbol .funWord ∧ t.kind ≠ .symbol .varWord) (ts : List Token) :
    declared (t :: ts) = (statement (t :: ts)).reading := by
  obtain ⟨h₁, h₂, h₃⟩ := hk
  rw [declared, declaration]
  split <;> first | contradiction | rfl

theorem block_reading (ts : List Token) :
    (block ts).reading = (declarations true ts).reading.andThen fun stmts rest =>
      ((expect .rightBrace .blockClose rest).map fun _ => stmts).reading := by
  rw [block, Reply.reading_widen, Reply.reading_noting]
  rfl

/-! ## The rules for statements and declarations -/

theorem derives_exprStmt (h : (seq (use .expression) (word .semicolon)).Derives ts) :
    (use .statement).Derives ts := .use (derives_oneOf 0 rfl (.use h))

theorem derives_for (h : (seq (word .forWord) (seq (seq (word .leftParen) (seq firstClause
    (seq (seq (maybe (use .expression)) (word .semicolon))
      (seq (maybe (use .expression)) (word .rightParen))))) (use .statement))).Derives ts) :
    (use .statement).Derives ts := by
  obtain ⟨_, _, rfl, keyword, h⟩ := derives_seq.1 h
  obtain ⟨_, _, rfl, clauses, body⟩ := derives_seq.1 h
  obtain ⟨_, _, rfl, opening, h⟩ := derives_seq.1 clauses
  obtain ⟨_, _, rfl, first, h⟩ := derives_seq.1 h
  obtain ⟨_, _, rfl, second, third⟩ := derives_seq.1 h
  obtain ⟨_, _, rfl, condition, semicolon⟩ := derives_seq.1 second
  obtain ⟨_, _, rfl, increment, closing⟩ := derives_seq.1 third
  simp only [List.append_assoc]
  exact .use (derives_oneOf 1 rfl (.use (.seq keyword (.seq opening (.seq first
    (.seq condition (.seq semicolon (.seq increment (.seq closing body)))))))))

theorem derives_if (h : (seq (word .ifWord) (seq
    (seq (word .leftParen) (seq (use .expression) (word .rightParen)))
    (seq (use .statement) (maybe (seq (word .elseWord) (use .statement)))))).Derives ts) :
    (use .statement).Derives ts := by
  obtain ⟨_, _, rfl, keyword, h⟩ := derives_seq.1 h
  obtain ⟨_, _, rfl, condition, branches⟩ := derives_seq.1 h
  obtain ⟨_, _, rfl, opening, h⟩ := derives_seq.1 condition
  obtain ⟨_, _, rfl, test, closing⟩ := derives_seq.1 h
  simp only [List.append_assoc]
  exact .use (derives_oneOf 2 rfl (.use (.seq keyword (.seq opening (.seq test
    (.seq closing branches))))))

theorem derives_while (h : (seq (word .whileWord) (seq
    (seq (word .leftParen) (seq (use .expression) (word .rightParen)))
    (use .statement))).Derives ts) : (use .statement).Derives ts := by
  obtain ⟨_, _, rfl, keyword, h⟩ := derives_seq.1 h
  obtain ⟨_, _, rfl, condition, body⟩ := derives_seq.1 h
  obtain ⟨_, _, rfl, opening, h⟩ := derives_seq.1 condition
  obtain ⟨_, _, rfl, test, closing⟩ := derives_seq.1 h
  simp only [List.append_assoc]
  exact .use (derives_oneOf 5 rfl (.use (.seq keyword (.seq opening (.seq test
    (.seq closing body))))))

theorem derives_function (h : (seq name (seq (word .leftParen)
    (seq (seq (maybe (use .parameters)) (word .rightParen)) (seq (word .leftBrace)
      (seq (many (use .declaration)) (word .rightBrace)))))).Derives ts) :
    (use .function).Derives ts := by
  obtain ⟨_, _, rfl, x, h⟩ := derives_seq.1 h
  obtain ⟨_, _, rfl, opening, h⟩ := derives_seq.1 h
  obtain ⟨_, _, rfl, list, body⟩ := derives_seq.1 h
  obtain ⟨_, _, rfl, list, closing⟩ := derives_seq.1 list
  rw [List.append_assoc]
  exact .use (.seq x (.seq opening (.seq list (.seq closing (.use body)))))

mutual

theorem statement_recognizes (ts : List Token) :
    Recognizes (use .statement) (fun ts => (statement ts).reading) ts := by
  have plain (ts : List Token) : Recognizes (use .statement)
      (fun ts => ((closed .semicolon .expressionEnd ts).map Stmt.expr).reading) ts :=
    .imp (.replyMap (closed_recognizes rfl ts)) fun us => derives_exprStmt
  cases ts with
  | nil => exact .congr_nil (plain []) (by rw [statement])
  | cons t rest =>
      by_cases hfor : t.kind = .symbol .forWord
      · exact .imp (.cons (x := .word .forWord) (.bind (forClauses_recognizes rest)
          fun clauses mid shorter => .widen (.replyMap (statement_recognizes mid)) _)
          hfor (statement_for hfor)) fun us => derives_for
      by_cases hif : t.kind = .symbol .ifWord
      · exact .imp (.cons (x := .word .ifWord) (.bind (condition_recognizes rfl rfl rest)
          fun test mid shorter => .widen (.bind (statement_recognizes mid)
            fun consequent mid' shorter' => alternative_recognizes test consequent mid') _)
          hif (statement_if hif)) fun us => derives_if
      by_cases hwhile : t.kind = .symbol .whileWord
      · exact .imp (.cons (x := .word .whileWord) (.bind (condition_recognizes rfl rfl rest)
          fun test mid shorter => .widen (.replyMap (statement_recognizes mid)) _)
          hwhile (statement_while hwhile)) fun us => derives_while
      by_cases hreturn : t.kind = .symbol .returnWord
      · exact .imp (.cons (x := .word .returnWord)
          (.replyMap (optionallyClosed_recognizes rfl rest)) hreturn (statement_return hreturn))
          fun us h => .use (derives_oneOf 4 rfl (.use h))
      by_cases hblock : t.kind = .symbol .leftBrace
      · exact .imp (.cons (x := .word .leftBrace) (.replyMap (block_recognizes rest)) hblock
          (statement_block hblock)) fun us h => .use (derives_oneOf 6 rfl (.use h))
      by_cases hprint : t.kind = .symbol .printWord
      · exact .imp (.cons (x := .word .printWord) (.replyMap (closed_recognizes rfl rest)) hprint
          (statement_print hprint)) fun us h => .use (derives_oneOf 3 rfl (.use h))
      exact .congr (plain (t :: rest))
        (statement_expression ⟨hfor, hif, hwhile, hreturn, hblock, hprint⟩)
termination_by 8 * ts.length + 1
decreasing_by all_goals simp only [List.length_cons] at *; omega

theorem alternative_recognizes (test : Expr) (consequent : Stmt) (ts : List Token) :
    Recognizes (maybe (seq (word .elseWord) (use .statement)))
      (fun ts => (alternative test consequent ts).reading) ts := by
  cases ts with
  | nil => exact .keep .skip (by rw [alternative]; rfl) nofun
  | cons t rest =>
      by_cases hk : t.isSymbol .elseWord = true
      · have other := (statement_recognizes rest).map (Stmt.ifElse test consequent)
        exact .imp (other.cons (x := .word .elseWord) (Token.isSymbol_iff.1 hk) fun us => by
          rw [alternative, if_pos hk, Reply.reading_widen, Reply.reading_map]) fun us => .once
      · have same (us : List Token) : (alternative test consequent (t :: us)).reading =
            .parsed (.ifThen test consequent) (t :: us) [] := by
          rw [alternative, if_neg hk]
          rfl
        exact .keep_cons .skip same
termination_by 8 * ts.length
decreasing_by simp only [List.length_cons] at *; omega

theorem block_recognizes (ts : List Token) :
    Recognizes (seq (many (use .declaration)) (word .rightBrace))
      (fun ts => (block ts).reading) ts :=
  .of_eq (.andThen (declarations_recognizes true ts) fun _ mid _ _ =>
    .replyMap (expect_recognizes rfl mid)) block_reading
termination_by 8 * ts.length + 4

theorem declarations_recognizes (inBlock : Bool) (ts : List Token) :
    Recognizes (many (use .declaration)) (fun ts => (declarations inBlock ts).reading) ts := by
  cases ts with
  | nil => exact .keep .stop (by rw [declarations]; rfl) nofun
  | cons t rest =>
      by_cases hb : (inBlock && t.isSymbol .rightBrace) = true
      · obtain ⟨rfl, hk⟩ := (Bool.and_eq_true _ _).mp hb
        exact .keep_cons .stop (declarations_end hk)
      · have first := declaration_recognizes t rest
        refine .congr ?_ (declarations_continued _ hb)
        cases hd : declaration t rest with
        | parsed s rest' reports shorter =>
            have hd : declared (t :: rest) = .parsed s rest' reports := by rw [declared, hd]; rfl
            exact first.proceed hd (declarations_recognizes inBlock rest')
        | refused rest' reports reason notLonger =>
            have shorter := resume_length_le notLonger
            have hd : declared (t :: rest) = .refused rest' reports reason := by
              rw [declared, hd]
              rfl
            exact first.recover hd (declarations_recognizes inBlock (resume rest'))
termination_by 8 * ts.length + 3
decreasing_by all_goals simp only [List.length_cons] at *; omega

theorem declaration_recognizes (t : Token) (ts : List Token) :
    Recognizes (use .declaration) declared (t :: ts) := by
  by_cases hclass : t.kind = .symbol .classWord
  · exact .imp (.cons (x := .word .classWord) (classBody_recognizes ts) hclass
      (declared_class hclass)) fun us h => .use (derives_oneOf 0 rfl (.use h))
  by_cases hfun : t.kind = .symbol .funWord
  · exact .imp (.cons (x := .word .funWord) (.replyMap (routine_recognizes .function ts)) hfun
      (declared_fun hfun)) fun us h => .use (derives_oneOf 1 rfl (.use h))
  by_cases hvar : t.kind = .symbol .varWord
  · exact .imp (.cons (x := .word .varWord) (variableDeclaration_recognizes ts) hvar
      (declared_var hvar)) fun us h => .use (derives_oneOf 2 rfl (.use h))
  exact .imp (.congr (statement_recognizes (t :: ts)) (declared_statement ⟨hclass, hfun, hvar⟩))
    fun us h => .use (derives_oneOf 3 rfl h)
termination_by 8 * (ts.length + 1) + 2
decreasing_by all_goals (try simp only [List.length_cons]); omega

theorem classBody_recognizes (ts : List Token) :
    Recognizes (seq name (seq (maybe (seq (word .less) name)) (seq (word .leftBrace)
      (seq (many (use .function)) (word .rightBrace)))))
      (fun ts => (classBody ts).reading) ts := by
  simp only [classBody]
  exact .bind (expectName_recognizes rfl ts) fun x mid shorter =>
    .bind (superclass_recognizes mid) fun parent mid' shorter' =>
      .widen (.bind (expect_recognizes rfl mid') fun _ mid'' shorter'' =>
        .bind (methods_recognizes mid'') fun list mid₃ _ =>
          .widen (.replyMap (expect_recognizes rfl mid₃)) _) _
termination_by 8 * ts.length + 7
decreasing_by omega

theorem methods_recognizes (ts : List Token) :
    Recognizes (many (use .function)) (fun ts => (methods ts).reading) ts := by
  cases ts with
  | nil => exact .keep .stop (by rw [methods]; rfl) nofun
  | cons t rest =>
      by_cases hk : t.isSymbol .rightBrace = true
      · have same (us : List Token) : (methods (t :: us)).reading = .parsed [] (t :: us) [] := by
          rw [methods, if_pos hk]
          rfl
        exact .keep_cons .stop same
      · refine .imp (.congr (g := fun ts => ((routine .method ts).andThen fun m rest' _ =>
          (methods rest').map (m :: ·)).reading) (.bind (routine_recognizes .method (t :: rest))
            fun m mid _ => .replyMap (methods_recognizes mid)) fun us => ?_) fun us => derives_more
        rw [methods, if_neg hk, Reply.reading_widen]
termination_by 8 * ts.length + 6
decreasing_by all_goals simp only [List.length_cons] at *; omega

theorem routine_recognizes (what : Routine) (ts : List Token) :
    Recognizes (use .function) (fun ts => (routine what ts).reading) ts := by
  simp only [routine]
  exact .imp (.bind (expectName_recognizes rfl ts) fun x mid shorter =>
    .widen (.bind (expect_recognizes rfl mid) fun _ mid' shorter' =>
      .widen (.bind (parameters_recognizes mid') fun list mid'' shorter'' =>
        .widen (.bind (expect_recognizes rfl mid'') fun _ mid₃ shorter₃ =>
          .widen (.replyMap (block_recognizes mid₃)) _) _) _) _) fun us => derives_function
termination_by 8 * ts.length + 5
decreasing_by omega

end

end LoxLang.Grammar
