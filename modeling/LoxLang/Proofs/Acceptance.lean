import LoxLang.Proofs.Recognition

/-!
# Sentences are read without an error that unwinds

Whatever a phrase derives is read by its production, at most with reports that
do not unwind. The parser is greedy, so it must be said what may stand behind
the sentence; that is measured by `Stops`, as it is for the grammar with trees.
-/

namespace LoxLang.Grammar

open Phrase LoxLang.Derivation

variable {α β : Type}

/-- The parser reads just `front` of what it is given, and reports nothing that unwinds. -/
def Accepts (f : List Token → Reading α) (front rest : List Token) : Prop :=
  ∃ v reports, f (front ++ rest) = .parsed v rest reports ∧
    ∀ c ∈ reports, c.error.unwinds = false

variable {f g : List Token → Reading α} {t : Token} {front back rest ts : List Token}

/-! ## Accepting in parts -/

theorem Accepts.andThen {next : α → List Token → Reading β} (h : Accepts f front (back ++ rest))
    (h' : ∀ v, Accepts (next v) back rest) :
    Accepts (fun ts => (f ts).andThen next) (front ++ back) rest := by
  obtain ⟨v, reports, hf, mild⟩ := h
  obtain ⟨v', reports', hn, mild'⟩ := h' v
  refine ⟨v', reports ++ reports', ?_, List.forall_mem_append.2 ⟨mild, mild'⟩⟩
  show (f (front ++ back ++ rest)).andThen next = _
  rw [List.append_assoc, hf, Reading.andThen, hn]
  rfl

theorem Accepts.map (h : Accepts f front rest) (k : α → β) :
    Accepts (fun ts => (f ts).map k) front rest := by
  obtain ⟨v, reports, hf, mild⟩ := h
  exact ⟨k v, reports, congrArg (Reading.map k) hf, mild⟩

theorem Accepts.noting {notes : List Token → List Complaint} (h : Accepts f front rest)
    (mild : ∀ c ∈ notes (front ++ rest), c.error.unwinds = false) :
    Accepts (fun ts => (f ts).noting (notes ts)) front rest := by
  obtain ⟨v, reports, hf, mild'⟩ := h
  exact ⟨v, notes (front ++ rest) ++ reports, congrArg (Reading.noting _) hf,
    List.forall_mem_append.2 ⟨mild, mild'⟩⟩

theorem Accepts.of_eq (h : Accepts g front rest) (same : ∀ us, f us = g us) :
    Accepts f front rest := by rwa [Accepts, same]

/-- Only what the parsers make of lists with the first token at hand matters. -/
theorem Accepts.congr (h : Accepts g (t :: front) rest) (same : ∀ us, f (t :: us) = g (t :: us)) :
    Accepts f (t :: front) rest := by rwa [Accepts, List.cons_append, same]

/-- A parser that goes on behind the first token. -/
theorem Accepts.cons (h : Accepts g front rest) (same : ∀ us, f (t :: us) = g us) :
    Accepts f (t :: front) rest := by rwa [Accepts, List.cons_append, same]

/-- A parser that consumes nothing, and at most reports something. -/
theorem Accepts.report {v : α} {reports : List Complaint} (h : f rest = .parsed v rest reports)
    (mild : ∀ c ∈ reports, c.error.unwinds = false) : Accepts f [] rest := ⟨v, reports, h, mild⟩

/-- A parser that consumes nothing. -/
theorem Accepts.keep {v : α} (h : f rest = .parsed v rest []) : Accepts f [] rest :=
  .report h (List.forall_mem_nil _)

theorem expect_accepts {s : Symbol} {error : GrammarError} (hk : t.kind = .symbol s) :
    Accepts (fun ts => (expect s error ts).reading) [t] rest :=
  ⟨t, [], congrArg Reply.reading (if_pos (Token.isSymbol_iff.2 hk)), nofun⟩

theorem expectName_accepts {error : GrammarError} (hk : t.kind = .identifier) :
    Accepts (fun ts => (expectName error ts).reading) [t] rest :=
  ⟨t, [], by simp [expectName, hk], nofun⟩

/-! ## How sentences begin -/

/-- The tokens begin with one of a kind. -/
def Begins (P : Token → Prop) (ts : List Token) : Prop := ∃ t tail, ts = t :: tail ∧ P t

theorem Begins.append {P : Token → Prop} (h : Begins P front) (back : List Token) :
    Begins P (front ++ back) := by
  obtain ⟨t, tail, rfl, ht⟩ := h
  exact ⟨t, tail ++ back, rfl, ht⟩

theorem Begins.imp {P Q : Token → Prop} (h : Begins P ts) (imp : ∀ t, P t → Q t) :
    Begins Q ts := by
  obtain ⟨t, tail, rfl, ht⟩ := h
  exact ⟨t, tail, rfl, imp t ht⟩

theorem begins_word {P : Token → Prop} {s : Symbol} (h : (word s).Derives ts)
    (hs : ∀ t, t.kind = .symbol s → P t) : Begins P ts := by
  obtain ⟨t, rfl, hk⟩ := derives_word.1 h
  exact ⟨t, [], rfl, hs t hk⟩

/-- The rule for primary expressions. -/
theorem derives_primary (h : (use .primary).Derives ts) :
    (∃ t, ts = [t] ∧ ((∃ value, t.kind = .number value) ∨ (∃ text, t.kind = .string text) ∨
      t.kind = .identifier ∨
      ∃ s ∈ [Symbol.trueWord, .falseWord, .nilWord, .thisWord], t.kind = .symbol s)) ∨
    (∃ opening e closing, ts = opening :: (e ++ [closing]) ∧ opening.kind = .symbol .leftParen ∧
      (use .expression).Derives e ∧ closing.kind = .symbol .rightParen) ∨
    ∃ keyword dot x, ts = [keyword, dot, x] ∧ keyword.kind = .symbol .superWord ∧
      dot.kind = .symbol .dot ∧ x.kind = .identifier := by
  have h := derives_use.1 h
  simp only [Nonterminal.rule, oneOf_cons, oneOf_nil, derives_either] at h
  rcases h with h | h | h | h | h | h | h | h | h
  · obtain ⟨t, rfl, hk⟩ := derives_token.1 h
    exact .inl ⟨t, rfl, .inl hk⟩
  · obtain ⟨t, rfl, hk⟩ := derives_token.1 h
    exact .inl ⟨t, rfl, .inr (.inl hk)⟩
  · obtain ⟨t, rfl, hk⟩ := derives_word.1 h
    exact .inl ⟨t, rfl, .inr (.inr (.inr ⟨_, by decide, hk⟩))⟩
  · obtain ⟨t, rfl, hk⟩ := derives_word.1 h
    exact .inl ⟨t, rfl, .inr (.inr (.inr ⟨_, by decide, hk⟩))⟩
  · obtain ⟨t, rfl, hk⟩ := derives_word.1 h
    exact .inl ⟨t, rfl, .inr (.inr (.inr ⟨_, by decide, hk⟩))⟩
  · obtain ⟨t, rfl, hk⟩ := derives_word.1 h
    exact .inl ⟨t, rfl, .inr (.inr (.inr ⟨_, by decide, hk⟩))⟩
  · obtain ⟨t, rfl, hk⟩ := derives_name.1 h
    exact .inl ⟨t, rfl, .inr (.inr (.inl hk))⟩
  · obtain ⟨t, _, rfl, hopen, h⟩ := derives_word_seq.1 h
    obtain ⟨e, _, rfl, he, closing⟩ := derives_seq.1 h
    obtain ⟨t', rfl, hclose⟩ := derives_word.1 closing
    exact .inr (.inl ⟨t, e, t', rfl, hopen, he, hclose⟩)
  · obtain ⟨t, _, rfl, hk, h⟩ := derives_word_seq.1 h
    obtain ⟨t', _, rfl, hd, h⟩ := derives_word_seq.1 h
    obtain ⟨t'', rfl, hx⟩ := derives_name.1 h
    exact .inr (.inr ⟨t, t', t'', rfl, hk, hd, hx⟩)

theorem begins_primary (h : (use .primary).Derives ts) : Begins StartsPrimary ts := by
  rcases derives_primary h with
    ⟨t, rfl, ⟨_, hk⟩ | ⟨_, hk⟩ | hk | ⟨s, hs, hk⟩⟩ | ⟨t, e, _, rfl, hk, -⟩ | ⟨t, _, _, rfl, hk, -⟩
  case inl.inr.inr.inr =>
    refine ⟨t, [], rfl, ?_⟩
    rw [StartsPrimary, hk]
    exact List.mem_append_left [Symbol.superWord, .leftParen] hs
  all_goals exact ⟨t, _, rfl, by simp [StartsPrimary, hk]⟩

theorem begins_call (h : (use .call).Derives ts) : Begins StartsPrimary ts := by
  obtain ⟨_, _, rfl, h, -⟩ := derives_seq.1 (derives_use.1 h)
  exact (begins_primary h).append _

theorem begins_unary (h : (use .unary).Derives ts) : Begins StartsExpression ts := by
  rcases derives_either.1 (derives_use.1 h) with h | h
  · obtain ⟨_, _, rfl, sign, -⟩ := derives_seq.1 h
    rcases derives_either.1 sign with sign | sign
    · exact (begins_word sign fun t hk => .inr (.inl hk)).append _
    · exact (begins_word sign fun t hk => .inr (.inr hk)).append _
  · exact (begins_call h).imp fun _ => .inl

theorem begins_binary (level : Level) {ts : List Token} (h : (use (.binary level)).Derives ts) :
    Begins StartsExpression ts := by
  obtain ⟨front, _, rfl, first, -⟩ := derives_seq.1 (derives_use.1 h)
  refine .append ?_ _
  unfold Nonterminal.operand at first
  split at first
  · next tighter ht =>
      have := Level.height_lt_of_tighter ht
      exact begins_binary tighter first
  · exact begins_unary first
termination_by level.height

/-- The rules for expressions, in one. -/
theorem derives_expression (h : (use .expression).Derives ts) :
    (use (.binary .or)).Derives ts ∨ ∃ target t value, ts = target ++ t :: value ∧
      (use (.binary .or)).Derives target ∧ t.kind = .symbol .equal ∧
      (use .expression).Derives value := by
  rcases derives_either.1 (derives_use.1 (derives_use.1 h)) with h | h
  · obtain ⟨target, _, rfl, ht, h⟩ := derives_seq.1 h
    obtain ⟨t, value, rfl, hk, hv⟩ := derives_word_seq.1 h
    exact .inr ⟨target, t, value, rfl, ht, hk, .use hv⟩
  · exact .inl h

theorem begins_expression (h : (use .expression).Derives ts) : Begins StartsExpression ts := by
  rcases derives_expression h with h | ⟨target, _, _, rfl, ht, -⟩
  · exact begins_binary .or h
  · exact (begins_binary .or ht).append _

theorem begins_arguments (h : (use .arguments).Derives ts) : Begins StartsExpression ts := by
  obtain ⟨_, _, rfl, he, -⟩ := derives_seq.1 (derives_use.1 h)
  exact (begins_expression he).append _

/-! ## Acceptance -/

theorem Stops.not_isSymbol {n : Nat} {s : Symbol} (h : Stops n (t :: ts))
    (hs : (Token.mk (.symbol s) "" 0).looseness < n) : ¬t.isSymbol s = true := by
  intro hk
  have := h t ts rfl
  rw [Token.isSymbol_iff] at hk
  simp only [Token.looseness, hk] at this hs
  omega

/-- A target that nothing is assigned to. -/
theorem assignmentRest_accepts (e : Expr) (stops : Stops 8 rest) :
    Accepts (assignmentRest e) [] rest := by
  cases rest with
  | nil => exact .keep rfl
  | cons t rest => exact .keep (if_neg (stops.not_isSymbol (by decide)))

theorem binaryRest_ends (level : Level) (left : Expr) (stops : Stops (level.height + 2) rest) :
    Accepts (fun ts => (binaryRest level left ts).reading) [] rest := by
  cases rest with
  | nil => exact .keep (by rw [binaryRest]; rfl)
  | cons t rest =>
      have hno : ¬level.hasOperator t = true := by
        have := stops t rest rfl
        rw [hasOperator_iff]
        omega
      exact .keep (by rw [binaryRest, if_neg hno]; rfl)

theorem callRest_ends (e : Expr) (stops : Stops 1 rest) :
    Accepts (fun ts => (callRest e ts).reading) [] rest := by
  cases rest with
  | nil => exact .keep (by rw [callRest]; rfl)
  | cons t rest =>
      have h := stops.not_isSymbol (s := .leftParen) (by decide)
      have h' := stops.not_isSymbol (s := .dot) (by decide)
      exact .keep (by rw [callRest, if_neg h, if_neg h']; rfl)

/-- What an operand of a level stands in front of. -/
theorem stops_others {level : Level}
    (h : (many (seq (token (.operator level)) (use (.operand level)))).Derives ts)
    (stops : Stops (level.height + 2) rest) : Stops (level.height + 1) (ts ++ rest) := by
  rcases derives_many.1 h with rfl | ⟨_, others, rfl, hf, -⟩
  · exact stops.mono (Nat.le_succ _)
  · obtain ⟨t, right, rfl, hk, -⟩ := derives_token_seq.1 hf
    exact stops_operator hk

theorem derives_sign (h : (oneOf (word .bang) [word .minus]).Derives ts) :
    ∃ t, ts = [t] ∧ IsSign t := by
  rcases derives_either.1 h with h | h
  · obtain ⟨t, rfl, hk⟩ := derives_word.1 h
    exact ⟨t, rfl, .inl hk⟩
  · obtain ⟨t, rfl, hk⟩ := derives_word.1 h
    exact ⟨t, rfl, .inr hk⟩

mutual

theorem expression_accepts {front rest : List Token} (h : (use .expression).Derives front)
    (stops : Stops 8 rest) : Accepts (fun ts => (expression ts).reading) front rest := by
  refine .of_eq ?_ expression_reading
  rcases derives_expression h with h | ⟨target, t, value, rfl, ht, hk, hv⟩
  · rw [← List.append_nil front]
    exact .andThen (binary_accepts .or h (stops.mono (by decide))) fun e =>
      assignmentRest_accepts e stops
  · refine .andThen (binary_accepts .or ht (stops_of_kind hk (by decide))) fun e =>
      .cons ?_ fun us => if_pos (Token.isSymbol_iff.2 hk)
    rw [← List.append_nil value]
    exact .andThen (expression_accepts hv stops) fun v =>
      .report rfl fun c hc => (assigned_mild e t v c hc).2
termination_by 32 * front.length + 20
decreasing_by all_goals subst_vars; simp only [List.length_append, List.length_cons, Level.height]; omega

theorem binary_accepts (level : Level) {front rest : List Token}
    (h : (use (.binary level)).Derives front) (stops : Stops (level.height + 2) rest) :
    Accepts (fun ts => (binary level ts).reading) front rest := by
  refine .of_eq ?_ (binary_reading level)
  obtain ⟨first, others, rfl, hf, ho⟩ := derives_seq.1 (derives_use.1 h)
  exact .andThen (operand_accepts level hf (stops_others ho stops)) fun left =>
    binaryRest_accepts level left ho stops
termination_by 32 * front.length + 2 * level.height + 5
decreasing_by all_goals subst_vars; simp only [List.length_append]; omega

theorem operand_accepts (level : Level) {front rest : List Token}
    (h : (use (.operand level)).Derives front) (stops : Stops (level.height + 1) rest) :
    Accepts (fun ts => (operand level ts).reading) front rest := by
  cases ht : level.tighter with
  | some tighter =>
      have := Level.height_lt_of_tighter ht
      rw [Nonterminal.operand, ht] at h
      exact .of_eq (binary_accepts tighter h (stops.mono (by omega))) fun us => by
        rw [operand_of_some ht]
  | none =>
      rw [Nonterminal.operand, ht] at h
      exact .of_eq (unary_accepts h (stops.mono (by omega))) fun us => by rw [operand_of_none ht]
termination_by 32 * front.length + 2 * level.height + 4
decreasing_by all_goals omega

theorem binaryRest_accepts (level : Level) (left : Expr) {front rest : List Token}
    (h : (many (seq (token (.operator level)) (use (.operand level)))).Derives front)
    (stops : Stops (level.height + 2) rest) :
    Accepts (fun ts => (binaryRest level left ts).reading) front rest := by
  rcases derives_many.1 h with rfl | ⟨_, others, rfl, hf, ho⟩
  · exact binaryRest_ends level left stops
  · obtain ⟨t, right, rfl, hk, hr⟩ := derives_token_seq.1 hf
    rw [List.cons_append]
    exact .cons (.andThen (operand_accepts level hr (stops_others ho stops)) fun e =>
      binaryRest_accepts level _ ho stops) (binaryRest_reading level left hk)
termination_by 32 * front.length
decreasing_by
  all_goals
    have : level.height ≤ 5 := by cases level <;> decide
    subst_vars
    simp only [List.length_append, List.length_cons]
    omega

theorem unary_accepts {front rest : List Token} (h : (use .unary).Derives front)
    (stops : Stops 1 rest) : Accepts (fun ts => (unary ts).reading) front rest := by
  rcases derives_either.1 (derives_use.1 h) with h | h
  · obtain ⟨_, operand, rfl, sign, ho⟩ := derives_seq.1 h
    obtain ⟨t, rfl, hk⟩ := derives_sign sign
    exact .cons ((unary_accepts ho stops).map (Expr.unary t)) (unary_operator (isSign_iff.2 hk))
  · obtain ⟨t, tail, rfl, ht⟩ := begins_call h
    exact .congr (call_accepts h stops) (unary_call (mt isSign_iff.1 ht.not_isSign))
termination_by 32 * front.length + 3
decreasing_by all_goals subst_vars; simp only [List.length_append, List.length_cons] at *; omega

theorem call_accepts {front rest : List Token} (h : (use .call).Derives front)
    (stops : Stops 1 rest) : Accepts (fun ts => (call ts).reading) front rest := by
  refine .of_eq ?_ call_reading
  obtain ⟨first, others, rfl, hf, ho⟩ := derives_seq.1 (derives_use.1 h)
  exact .andThen (primary_accepts hf) fun e => callRest_accepts e ho stops
termination_by 32 * front.length + 2
decreasing_by all_goals subst_vars; simp only [List.length_append]; omega

theorem callRest_accepts (e : Expr) {front rest : List Token} (h : (many callTail).Derives front)
    (stops : Stops 1 rest) : Accepts (fun ts => (callRest e ts).reading) front rest := by
  rcases derives_many.1 h with rfl | ⟨_, others, rfl, hf, ho⟩
  · exact callRest_ends e stops
  · rcases derives_either.1 hf with hf | hf
    · obtain ⟨t, list, rfl, hk, hl⟩ := derives_word_seq.1 hf
      rw [List.cons_append]
      exact .cons (.andThen (arguments_accepts hl) fun a => callRest_accepts _ ho stops)
        (callRest_paren e (Token.isSymbol_iff.2 hk))
    · obtain ⟨t, _, rfl, hk, hx⟩ := derives_word_seq.1 hf
      obtain ⟨x, rfl, hx'⟩ := derives_name.1 hx
      have hno : t.isSymbol .leftParen = false := by simp [Token.isSymbol, hk]
      rw [List.cons_append]
      exact .cons (.andThen (expectName_accepts hx') fun a => callRest_accepts _ ho stops)
        (callRest_dot e hno (Token.isSymbol_iff.2 hk))
termination_by 32 * front.length
decreasing_by all_goals subst_vars; simp only [List.length_append, List.length_cons]; omega

theorem arguments_accepts {front rest : List Token}
    (h : (seq (maybe (use .arguments)) (word .rightParen)).Derives front) :
    Accepts (fun ts => (arguments ts).reading) front rest := by
  obtain ⟨list, _, rfl, hl, closing⟩ := derives_seq.1 h
  rcases derives_maybe.1 hl with rfl | hl
  · obtain ⟨t, rfl, hk⟩ := derives_word.1 closing
    exact ⟨_, [], arguments_none (Token.isSymbol_iff.2 hk) rest, nofun⟩
  · have accepts : Accepts (fun ts => (someArguments 0 ts).reading) _ rest :=
      someArguments_accepts 0 (.seq hl closing)
    obtain ⟨t, tail, hts, ht⟩ := (begins_arguments hl).append _
    rw [hts] at accepts ⊢
    exact .congr accepts (arguments_some (mt Token.isSymbol_iff.1 (ht.kind_ne (by decide))))
termination_by 32 * front.length + 22
decreasing_by subst_vars; omega

theorem someArguments_accepts (count : Nat) {front rest : List Token}
    (h : (seq (use .arguments) (word .rightParen)).Derives front) :
    Accepts (fun ts => (someArguments count ts).reading) front rest := by
  obtain ⟨_, closing, rfl, hl, hc⟩ := derives_seq.1 h
  obtain ⟨e, others, rfl, he, ho⟩ := derives_seq.1 (derives_use.1 hl)
  obtain ⟨t, rfl, hk⟩ := derives_word.1 hc
  refine .of_eq (.noting ?_ fun c hc => (limitReport_mild rfl count _ c hc).2)
    (someArguments_reading count)
  rw [List.append_assoc]
  rcases derives_many.1 ho with rfl | ⟨_, others, rfl, hf, ho'⟩
  · refine .andThen (expression_accepts he (stops_of_kind hk (by decide))) fun e => ?_
    have hno : ¬t.isSymbol .comma = true := by simp [Token.isSymbol, hk]
    exact .congr ((expect_accepts hk).map _) fun us => if_neg hno
  · obtain ⟨comma, e', rfl, hs, he'⟩ := derives_word_seq.1 hf
    refine .andThen (expression_accepts he (stops_of_kind hs (by decide))) fun e => ?_
    rw [List.cons_append, List.cons_append]
    exact .cons ((someArguments_accepts (count + 1) (.seq (.use (.seq he' ho')) hc)).map _)
      fun us => if_pos (Token.isSymbol_iff.2 hs)
termination_by 32 * front.length + 21
decreasing_by all_goals subst_vars; simp only [List.length_append, List.length_cons]; omega

theorem primary_accepts {front rest : List Token} (h : (use .primary).Derives front) :
    Accepts (fun ts => (primary ts).reading) front rest := by
  rcases derives_primary h with ⟨t, rfl, hk⟩ | ⟨t, e, t', rfl, hopen, he, hclose⟩ |
    ⟨t, t', x, rfl, hk, hd, hx⟩
  · have takes {v : Expr} (h : (primary (t :: rest)).reading = .parsed v rest []) :
        Accepts (fun ts => (primary ts).reading) [t] rest := ⟨v, [], h, nofun⟩
    rcases hk with ⟨_, hk⟩ | ⟨_, hk⟩ | hk | ⟨s, hs, hk⟩
    case inr.inr.inr =>
      simp only [List.mem_cons, List.not_mem_nil, or_false] at hs
      rcases hs with rfl | rfl | rfl | rfl <;> exact takes (by rw [primary, hk]; rfl)
    all_goals exact takes (by rw [primary, hk]; rfl)
  · exact .cons (.andThen (expression_accepts he (stops_of_kind hclose (by decide))) fun e =>
      (expect_accepts hclose).map _) (primary_group hopen)
  · refine .cons ?_ (primary_super hk)
    rw [← List.singleton_append]
    exact .andThen (expect_accepts hd) fun _ => (expectName_accepts hx).map _
termination_by 32 * front.length + 1
decreasing_by subst_vars; simp only [List.length_append, List.length_cons]; omega

end

end LoxLang.Grammar
