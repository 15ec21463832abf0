import LoxLang.Proofs.Readings
import LoxLang.Proofs.ExpressionGrammar

/-!
# Every production recognizes its phrase

The productions one by one, in the recursion of the parser itself. What a
production consumes is derived from its phrase unless something unwinds; where
something does, the tokens in front of it begin the phrase.
-/

namespace LoxLang.Grammar

open Phrase LoxLang.Derivation

variable {ts us : List Token} {level : Level}

/-! ## Readings of the productions for expressions -/

/-- What may follow a target: an equals sign and a value. -/
def assignmentRest (target : Expr) : List Token → Reading Expr
  | [] => .parsed target [] []
  | t :: rest =>
    if t.isSymbol .equal then (expression rest).reading.andThen fun value rest' =>
      .parsed (assigned target t value).1 rest' (assigned target t value).2
    else .parsed target (t :: rest) []

theorem expression_reading (ts : List Token) :
    (expression ts).reading = (binary .or ts).reading.andThen assignmentRest := by
  rw [expression]
  refine Reply.reading_andThen fun target rest _ => ?_
  cases rest with
  | nil => rfl
  | cons t behind =>
      dsimp only [assignmentRest]
      split
      · rw [Reply.reading_widen]
        exact Reply.reading_andThen fun _ _ _ => rfl
      · rfl

theorem binary_reading (level : Level) (ts : List Token) :
    (binary level ts).reading =
      (operand level ts).reading.andThen fun left rest => (binaryRest level left rest).reading := by
  rw [binary]
  exact Reply.reading_andThen fun _ _ _ => rfl

theorem binaryRest_reading {t : Token} (level : Level) (left : Expr)
    (h : level.hasOperator t = true) (ts : List Token) :
    (binaryRest level left (t :: ts)).reading = (operand level ts).reading.andThen fun right rest =>
      (binaryRest level (level.node left t right) rest).reading := by
  rw [binaryRest, if_pos h, Reply.reading_widen]
  exact Reply.reading_andThen fun _ _ _ => rfl

theorem call_reading (ts : List Token) :
    (call ts).reading = (primary ts).reading.andThen fun e rest => (callRest e rest).reading := by
  rw [call]
  exact Reply.reading_andThen fun _ _ _ => rfl

theorem callRest_paren {t : Token} (e : Expr) (h : t.isSymbol .leftParen = true)
    (ts : List Token) :
    (callRest e (t :: ts)).reading = (arguments ts).reading.andThen fun a rest =>
      (callRest (.call e a.2 a.1) rest).reading := by
  rw [callRest, if_pos h, Reply.reading_widen]
  exact Reply.reading_andThen fun _ _ _ => rfl

theorem callRest_dot {t : Token} (e : Expr) (h : t.isSymbol .leftParen = false)
    (h' : t.isSymbol .dot = true) (ts : List Token) :
    (callRest e (t :: ts)).reading = (expectName .propertyName ts).reading.andThen fun x rest =>
      (callRest (.get e x) rest).reading := by
  rw [callRest, if_neg (by rw [h]; exact Bool.false_ne_true), if_pos h', Reply.reading_widen]
  exact Reply.reading_andThen fun _ _ _ => rfl

theorem unary_operator {t : Token} (h : (t.isSymbol .bang || t.isSymbol .minus) = true)
    (ts : List Token) : (unary (t :: ts)).reading = (unary ts).reading.map (.unary t) := by
  rw [unary, if_pos h, Reply.reading_widen, Reply.reading_map]

theorem unary_call {t : Token} (h : ¬(t.isSymbol .bang || t.isSymbol .minus) = true)
    (ts : List Token) : (unary (t :: ts)).reading = (call (t :: ts)).reading := by
  rw [unary, if_neg h]

theorem operand_of_some {level tighter : Level} (h : level.tighter = some tighter)
    (ts : List Token) : operand level ts = binary tighter ts := by
  rw [operand]
  split
  · next h' =>
      rw [h] at h'
      cases h'
      rfl
  · next h' =>
      rw [h] at h'
      cases h'

theorem operand_of_none {level : Level} (h : level.tighter = none) (ts : List Token) :
    operand level ts = unary ts := by
  rw [operand]
  split
  · next h' =>
      rw [h] at h'
      cases h'
  · rfl

/-- What may follow an argument behind `count` others: a comma and more of them, or the closing
parenthesis. -/
def argumentsRest (count : Nat) (e : Expr) : List Token → Reading (List Expr × Token)
  | [] => (expect .rightParen .argumentsClose []).reading.map fun paren => ([e], paren)
  | t :: rest =>
    if t.isSymbol .comma then
      (someArguments (count + 1) rest).reading.map fun a => (e :: a.1, a.2)
    else (expect .rightParen .argumentsClose (t :: rest)).reading.map fun paren => ([e], paren)

theorem someArguments_reading (count : Nat) (ts : List Token) :
    (someArguments count ts).reading =
      ((expression ts).reading.andThen (argumentsRest count)).noting
        (limitReport .tooManyArguments count ts) := by
  rw [someArguments, Reply.reading_noting]
  congr 1
  refine Reply.reading_andThen fun e rest _ => ?_
  cases rest with
  | nil => rw [Reply.reading_map, Reply.reading_widen, argumentsRest]
  | cons t behind =>
      dsimp only [argumentsRest]
      split
      · rw [Reply.reading_widen, Reply.reading_map]
      · rw [Reply.reading_widen, Reply.reading_map]

theorem arguments_none {t : Token} (h : t.isSymbol .rightParen = true) (ts : List Token) :
    (arguments (t :: ts)).reading = .parsed ([], t) ts [] := by
  rw [arguments, if_pos h]
  rfl

theorem arguments_some {t : Token} (h : ¬t.isSymbol .rightParen = true) (ts : List Token) :
    (arguments (t :: ts)).reading = (someArguments 0 (t :: ts)).reading := by
  rw [arguments, if_neg h]

theorem primary_super {t : Token} (h : t.kind = .symbol .superWord) (ts : List Token) :
    (primary (t :: ts)).reading = (expect .dot .superDot ts).reading.andThen fun _ rest =>
      (expectName .superMethod rest).reading.map fun method => .super t none method := by
  rw [primary, h]
  dsimp only
  rw [Reply.reading_widen]
  exact Reply.reading_andThen fun _ _ _ => by rw [Reply.reading_widen, Reply.reading_map]

theorem primary_group {t : Token} (h : t.kind = .symbol .leftParen) (ts : List Token) :
    (primary (t :: ts)).reading = (expression ts).reading.andThen fun e rest =>
      (expect .rightParen .groupClose rest).reading.map fun _ => .group e := by
  rw [primary, h]
  dsimp only
  rw [Reply.reading_widen]
  exact Reply.reading_andThen fun _ _ _ => by rw [Reply.reading_widen, Reply.reading_map]

/-! ## Parts of rules -/

theorem derives_seq_empty {a : Phrase} (h : (seq a .empty).Derives ts) : a.Derives ts := by
  obtain ⟨front, _, rfl, ha, he⟩ := derives_seq.1 h
  rwa [derives_empty.1 he, List.append_nil]

theorem derives_assoc {a b c : Phrase} (h : (seq a (seq b c)).Derives ts) :
    (seq (seq a b) c).Derives ts := by
  obtain ⟨_, _, rfl, ha, h⟩ := derives_seq.1 h
  obtain ⟨_, _, rfl, hb, hc⟩ := derives_seq.1 h
  rw [← List.append_assoc]
  exact .seq (.seq ha hb) hc

theorem derives_more {a : Phrase} (h : (seq a (many a)).Derives ts) : (many a).Derives ts := by
  obtain ⟨_, _, rfl, ha, h⟩ := derives_seq.1 h
  exact .more ha h

theorem derives_left {a b c : Phrase} (h : (seq a c).Derives ts) :
    (seq (either a b) c).Derives ts := by
  obtain ⟨_, _, rfl, ha, h⟩ := derives_seq.1 h
  exact .seq (.left ha) h

theorem derives_right {a b c : Phrase} (h : (seq b c).Derives ts) :
    (seq (either a b) c).Derives ts := by
  obtain ⟨_, _, rfl, hb, h⟩ := derives_seq.1 h
  exact .seq (.right hb) h

theorem derives_skip {a b : Phrase} (h : b.Derives ts) : (seq (maybe a) b).Derives ts :=
  .seq .skip h

theorem derives_once {a b : Phrase} (h : (seq a b).Derives ts) : (seq (maybe a) b).Derives ts := by
  obtain ⟨_, _, rfl, ha, h⟩ := derives_seq.1 h
  exact .seq (.once ha) h

/-- A call or a property access. -/
def callTail : Phrase :=
  either (seq (word .leftParen) (seq (maybe (use .arguments)) (word .rightParen)))
    (seq (word .dot) name)

theorem derives_assignment (h : (seq (use (.binary .or))
    (maybe (seq (word .equal) (use .expression)))).Derives ts) : (use .expression).Derives ts := by
  obtain ⟨_, _, rfl, target, h⟩ := derives_seq.1 h
  rcases derives_maybe.1 h with rfl | h
  · rw [List.append_nil]
    exact .use (.use (.right target))
  · obtain ⟨_, _, rfl, equal, value⟩ := derives_seq.1 h
    exact .use (.use (.left (.seq target (.seq equal (derives_use.1 value)))))

/-- One more argument in front of others. -/
theorem derives_arguments (h : (seq (use .expression)
    (seq (word .comma) (use .arguments))).Derives ts) : (use .arguments).Derives ts := by
  obtain ⟨_, _, rfl, first, h⟩ := derives_seq.1 h
  obtain ⟨_, _, rfl, comma, h⟩ := derives_seq.1 h
  obtain ⟨_, _, rfl, second, others⟩ := derives_seq.1 (derives_use.1 h)
  refine .use (.seq first ?_)
  rw [← List.append_assoc]
  exact .more (.seq comma second) others

theorem derives_argument (h : (use .expression).Derives ts) : (use .arguments).Derives ts := by
  rw [← List.append_nil ts]
  exact .use (.seq h .stop)

/-! ## Reports that do not unwind -/

theorem limitReport_mild {error : GrammarError} (mild : error.unwinds = false) (count : Nat)
    (ts : List Token) :
    ∀ c ∈ limitReport error count ts, c.found = ts.head? ∧ c.error.unwinds = false := by
  unfold limitReport
  split
  · exact List.forall_mem_singleton.2 ⟨rfl, mild⟩
  · exact List.forall_mem_nil _

theorem assigned_mild (target : Expr) (equals : Token) (value : Expr) :
    ∀ c ∈ (assigned target equals value).2, c.found.isSome ∧ c.error.unwinds = false := by
  unfold assigned
  split
  · exact List.forall_mem_nil _
  · exact List.forall_mem_nil _
  · exact List.forall_mem_singleton.2 ⟨rfl, rfl⟩

/-! ## Expressions -/

mutual

theorem expression_recognizes (ts : List Token) :
    Recognizes (use .expression) (fun ts => (expression ts).reading) ts := by
  refine .imp (.of_eq (.andThen (binary_recognizes .or ts) fun target mid _ hm => ?_)
    expression_reading) fun us => derives_assignment
  have shorter := Reply.length_lt_of_reading hm
  cases mid with
  | nil => exact .keep .skip rfl nofun
  | cons t rest =>
      by_cases hk : t.isSymbol .equal = true
      · have value := (expression_recognizes rest).andThen fun value rest' _ _ =>
          Recognizes.report (f := fun ts => .parsed (assigned target t value).1 ts
            (assigned target t value).2) .empty (assigned_mild target t value) rfl
            fun _ _ _ _ => rfl
        exact .imp (value.cons (x := .word .equal) (Token.isSymbol_iff.1 hk) fun us => if_pos hk)
          fun us h => .once (derives_seq_empty (derives_assoc h))
      · exact .keep_cons .skip fun us => if_neg hk
termination_by 32 * ts.length + 20
decreasing_by all_goals simp only [List.length_cons, Level.height] at *; omega

theorem binary_recognizes (level : Level) (ts : List Token) :
    Recognizes (use (.binary level)) (fun ts => (binary level ts).reading) ts := by
  refine .imp (.of_eq (.andThen (operand_recognizes level ts) fun left rest _ hm => ?_)
    (binary_reading level)) fun us h => .use h
  have shorter := Reply.length_lt_of_reading hm
  exact binaryRest_recognizes level left rest
termination_by 32 * ts.length + 2 * level.height + 5
decreasing_by all_goals omega

theorem operand_recognizes (level : Level) (ts : List Token) :
    Recognizes (use (.operand level)) (fun ts => (operand level ts).reading) ts := by
  cases h : level.tighter with
  | some tighter =>
      have := Level.height_lt_of_tighter h
      rw [Nonterminal.operand, h]
      exact .of_eq (binary_recognizes tighter ts) fun us => by rw [operand_of_some h]
  | none =>
      rw [Nonterminal.operand, h]
      exact .of_eq (unary_recognizes ts) fun us => by rw [operand_of_none h]
termination_by 32 * ts.length + 2 * level.height + 4
decreasing_by all_goals omega

theorem binaryRest_recognizes (level : Level) (left : Expr) (ts : List Token) :
    Recognizes (many (seq (token (.operator level)) (use (.operand level))))
      (fun ts => (binaryRest level left ts).reading) ts := by
  cases ts with
  | nil => exact .keep .stop (by rw [binaryRest]; rfl) nofun
  | cons t rest =>
      by_cases hk : level.hasOperator t = true
      · have joined := (operand_recognizes level rest).andThen fun right rest' _ hm =>
          have shorter := Reply.length_lt_of_reading hm
          binaryRest_recognizes level (level.node left t right) rest'
        exact .imp (joined.cons (x := .operator level) hk (binaryRest_reading level left hk))
          fun us h => derives_more (derives_assoc h)
      · have same : ∀ us, (binaryRest level left (t :: us)).reading = .parsed left (t :: us) [] :=
          fun us => by rw [binaryRest, if_neg hk]; rfl
        exact .keep_cons .stop same
termination_by 32 * ts.length
decreasing_by
  all_goals
    have : level.height ≤ 5 := by cases level <;> decide
    simp only [List.length_cons] at *
    omega

theorem unary_recognizes (ts : List Token) :
    Recognizes (use .unary) (fun ts => (unary ts).reading) ts := by
  cases ts with
  | nil =>
      have none : (unary []).reading = (call []).reading := by rw [unary]
      exact .imp (.congr_nil (call_recognizes []) none) fun us h => .use (.right h)
  | cons t rest =>
      by_cases hk : (t.isSymbol .bang || t.isSymbol .minus) = true
      · have operand := (unary_recognizes rest).map (Expr.unary t)
        rcases (Bool.or_eq_true _ _).mp hk with ht | ht
        · exact .imp (operand.cons (x := .word .bang) (Token.isSymbol_iff.1 ht) (unary_operator hk))
            fun us h => .use (.left (derives_left h))
        · exact .imp
            (operand.cons (x := .word .minus) (Token.isSymbol_iff.1 ht) (unary_operator hk))
            fun us h => .use (.left (derives_right h))
      · exact .imp (.congr (call_recognizes (t :: rest)) (unary_call hk))
          fun us h => .use (.right h)
termination_by 32 * ts.length + 3
decreasing_by all_goals (try simp only [List.length_cons] at *); omega

theorem call_recognizes (ts : List Token) :
    Recognizes (use .call) (fun ts => (call ts).reading) ts := by
  refine .imp (.of_eq (.andThen (primary_recognizes ts) fun e rest _ hm => ?_) call_reading)
    fun us h => .use h
  have shorter := Reply.length_lt_of_reading hm
  exact callRest_recognizes e rest
termination_by 32 * ts.length + 2
decreasing_by all_goals omega

theorem callRest_recognizes (e : Expr) (ts : List Token) :
    Recognizes (many callTail) (fun ts => (callRest e ts).reading) ts := by
  cases ts with
  | nil => exact .keep .stop (by rw [callRest]; rfl) nofun
  | cons t rest =>
      by_cases hk : t.isSymbol .leftParen = true
      · have called := (arguments_recognizes rest).andThen fun a rest' _ hm =>
          have shorter := Reply.length_lt_of_reading hm
          callRest_recognizes (.call e a.2 a.1) rest'
        exact .imp (called.cons (x := .word .leftParen) (Token.isSymbol_iff.1 hk)
          (callRest_paren e hk)) fun us h => derives_more (derives_left (derives_assoc h))
      · rw [Bool.not_eq_true] at hk
        by_cases hk' : t.isSymbol .dot = true
        · have name := expectName_recognizes (e := .propertyName) rfl rest
          have accessed := name.andThen fun x rest' _ hm =>
            have shorter := Reply.length_lt_of_reading hm
            callRest_recognizes (.get e x) rest'
          exact .imp (accessed.cons (x := .word .dot) (Token.isSymbol_iff.1 hk')
            (callRest_dot e hk hk')) fun us h => derives_more (derives_right (derives_assoc h))
        · have same : ∀ us, (callRest e (t :: us)).reading = .parsed e (t :: us) [] :=
            fun us => by
              rw [callRest, if_neg (by rw [hk]; exact Bool.false_ne_true), if_neg hk']
              rfl
          exact .keep_cons .stop same
termination_by 32 * ts.length
decreasing_by all_goals simp only [List.length_cons] at *; omega

theorem arguments_recognizes (ts : List Token) :
    Recognizes (seq (maybe (use .arguments)) (word .rightParen))
      (fun ts => (arguments ts).reading) ts := by
  cases ts with
  | nil =>
      have none : (arguments []).reading = (someArguments 0 []).reading := by rw [arguments]
      exact .imp (.congr_nil (someArguments_recognizes 0 []) none) fun us => derives_once
  | cons t rest =>
      by_cases hk : t.isSymbol .rightParen = true
      · exact .imp (.take (x := .word .rightParen) (Token.isSymbol_iff.1 hk) (arguments_none hk))
          fun us => derives_skip
      · exact .imp (.congr (someArguments_recognizes 0 (t :: rest)) (arguments_some hk))
          fun us => derives_once
termination_by 32 * ts.length + 22
decreasing_by all_goals (try simp only [List.length_cons] at *); omega

theorem someArguments_recognizes (count : Nat) (ts : List Token) :
    Recognizes (seq (use .arguments) (word .rightParen))
      (fun ts => (someArguments count ts).reading) ts := by
  refine .of_eq (.noting (.imp (.andThen (q := either (word .rightParen)
    (seq (word .comma) (seq (use .arguments) (word .rightParen))))
    (expression_recognizes ts) fun e mid _ hm => ?_) fun us h => ?_)
    (limitReport_mild rfl count) fun _ _ _ => rfl) (someArguments_reading count)
  · have shorter := Reply.length_lt_of_reading hm
    cases mid with
    | nil =>
        have closing := (expect_recognizes (s := .rightParen) (e := .argumentsClose) rfl []).map
          fun paren => ([e], paren)
        exact .imp (.congr_nil closing rfl) fun us => .left
    | cons t rest =>
        by_cases hk : t.isSymbol .comma = true
        · have list := (someArguments_recognizes (count + 1) rest).map fun a => (e :: a.1, a.2)
          exact .imp (list.cons (x := .word .comma) (Token.isSymbol_iff.1 hk) fun us => if_pos hk)
            fun us => .right
        · have closing := (expect_recognizes (s := .rightParen) (e := .argumentsClose) rfl
            (t :: rest)).map fun paren => ([e], paren)
          exact .imp (closing.congr fun us => if_neg hk) fun us => .left
  · obtain ⟨_, _, rfl, first, h⟩ := derives_seq.1 h
    rcases derives_either.1 h with closing | h
    · exact .seq (derives_argument first) closing
    · obtain ⟨_, _, rfl, list, closing⟩ := derives_seq.1 (derives_assoc h)
      rw [← List.append_assoc]
      exact .seq (derives_arguments (.seq first list)) closing
termination_by 32 * ts.length + 21
decreasing_by all_goals (try simp only [List.length_cons] at *); omega

theorem primary_recognizes (ts : List Token) :
    Recognizes (use .primary) (fun ts => (primary ts).reading) ts := by
  cases ts with
  | nil => exact .refuse rfl (by rw [primary]; rfl) nofun
  | cons t rest =>
      have refuses (h : ∀ us, (primary (t :: us)).reading =
          .refused (t :: us) [] ⟨some t, .expression⟩) :
          Recognizes (use .primary) (fun ts => (primary ts).reading) (t :: rest) :=
        .refuse_cons rfl h
      have takes {x : Terminal} {v : Expr} (fits : x.Fits t)
          (h : ∀ us, (primary (t :: us)).reading = .parsed v us []) :
          Recognizes (.token x) (fun ts => (primary ts).reading) (t :: rest) := .take fits h
      cases hk : t.kind with
      | number value =>
          exact .imp (takes (x := .number) ⟨value, hk⟩ fun us => by rw [primary, hk]; rfl)
            fun us h => .use (derives_oneOf 0 rfl h)
      | string text =>
          exact .imp (takes (x := .string) ⟨text, hk⟩ fun us => by rw [primary, hk]; rfl)
            fun us h => .use (derives_oneOf 1 rfl h)
      | identifier =>
          exact .imp (takes (x := .identifier) hk fun us => by rw [primary, hk]; rfl)
            fun us h => .use (derives_oneOf 6 rfl h)
      | eof => exact refuses fun us => by rw [primary, hk]; rfl
      | symbol s =>
          cases s
          case trueWord =>
            exact .imp (takes (x := .word .trueWord) hk fun us => by rw [primary, hk]; rfl)
              fun us h => .use (derives_oneOf 2 rfl h)
          case falseWord =>
            exact .imp (takes (x := .word .falseWord) hk fun us => by rw [primary, hk]; rfl)
              fun us h => .use (derives_oneOf 3 rfl h)
          case nilWord =>
            exact .imp (takes (x := .word .nilWord) hk fun us => by rw [primary, hk]; rfl)
              fun us h => .use (derives_oneOf 4 rfl h)
          case thisWord =>
            exact .imp (takes (x := .word .thisWord) hk fun us => by rw [primary, hk]; rfl)
              fun us h => .use (derives_oneOf 5 rfl h)
          case leftParen =>
            have group := (expression_recognizes rest).andThen fun e rest' _ _ =>
              (expect_recognizes (s := .rightParen) (e := .groupClose) rfl rest').map
                fun _ => Expr.group e
            exact .imp (group.cons (x := .word .leftParen) hk (primary_group hk))
              fun us h => .use (derives_oneOf 7 rfl h)
          case superWord =>
            have dot := expect_recognizes (s := .dot) (e := .superDot) rfl rest
            have method := dot.andThen fun _ rest' _ _ =>
              (expectName_recognizes (e := .superMethod) rfl rest').map fun x => Expr.super t none x
            exact .imp (method.cons (x := .word .superWord) hk (primary_super hk))
              fun us h => .use (derives_oneOf 8 rfl h)
          all_goals exact refuses fun us => by rw [primary, hk]; rfl
termination_by 32 * ts.length + 1
decreasing_by all_goals simp only [List.length_cons]; omega

end

end LoxLang.Grammar
