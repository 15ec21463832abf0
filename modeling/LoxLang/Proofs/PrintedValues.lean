import LoxLang.Proofs.Fuel
import LoxLang.Proofs.ScanJoin
import LoxLang.Proofs.SentencesAlike
import LoxLang.Proofs.Sessions

/-!
# An expression evaluated, and the same expression printed

There are two ways to ask a session for the value of an expression: to evaluate
it, or to run a program that prints it. They read the text with different rules
of the grammar, since an expression must take all tokens and a statement ends
with a semicolon, and they resolve and run different trees. What comes out is
the same: the same session, up to the line that the program prints.

The semicolon stands on a line of its own. The text of the expression may end
with a comment, which would hide it.
-/

namespace LoxLang

open LoxLang.Action MachineM Lexicon

/-- The program that prints the expression of a text. -/
def printing (source : String) : String := "print " ++ source ++ "\n" ++ ";"

/-- The word in front of the expression. -/
def printWord : Token := ⟨.symbol .printWord, "print", 1⟩

/-- The semicolon behind it. -/
def printEnd (source : String) : Token :=
  ⟨.symbol .semicolon, ";", 1 + (("print " ++ source).toList.count '\n' + 1)⟩

/-! ## Scanning -/

namespace Scan

theorem pieces_print (cs : List Char) : pieces ("print ".toList ++ cs) =
    ⟨"print".toList, .token (.symbol .printWord)⟩ :: ⟨[' '], .skipped⟩ :: pieces cs := by
  have word : cut 'p' ("rint ".toList ++ cs) =
      (⟨"print".toList, .token (.symbol .printWord)⟩, ' ' :: cs) := rfl
  exact (pieces_of_cut word).trans (congrArg _ (pieces_of_cut (cut_blank rfl cs)))

theorem inner_print (source : String) : inner 1 (pieces ("print " ++ source).toList) =
    .token LoxLang.printWord :: inner 1 (pieces source.toList) := by
  rw [String.toList_append, pieces_print]
  rfl

/-- The tokens of the program are the word, those of the expression where they were, and the
semicolon. -/
theorem content_printing {source : String} (h : errors source = []) :
    Grammar.content (tokens (printing source)) =
        LoxLang.printWord :: (Grammar.content (tokens source) ++ [printEnd source]) ∧
      errors (printing source) = [] := by
  have front : errors ("print " ++ source) = [] := by
    rw [errors_eq, inner_print]
    rw [errors_eq] at h
    exact h
  have nothing : pieces [] = [] := by rw [pieces]
  have semicolon : pieces ";".toList = [⟨[';'], .token (.symbol .semicolon)⟩] :=
    (pieces_of_cut rfl).trans (congrArg _ nothing)
  have last : Grammar.content (tokens ";") = [⟨.symbol .semicolon, ";", 1⟩] := by
    rw [content_tokens, semicolon]
    rfl
  refine ⟨?_, ?_⟩
  · rw [printing, content_line _ front, last, content_tokens, inner_print, content_tokens]
    rfl
  · rw [printing, errors_line _ front, errors_eq, semicolon]
    rfl

end Scan

/-! ## Parsing -/

/-- The likeness of nothing but itself. -/
def Likeness.same : Likeness where
  token := Eq
  depth := Eq
  kind_eq h := congrArg _ h
  lexeme_eq h := congrArg _ h

mutual

theorem Expr.Alike.eq : ∀ {e e' : Expr}, e.Alike .same e' → e = e'
  | _, _, .literal _ => rfl
  | _, _, .group inner => congrArg _ inner.eq
  | _, _, .unary rfl operand => congrArg _ operand.eq
  | _, _, .binary left rfl right => by rw [left.eq, right.eq]
  | _, _, .logical left rfl right => by rw [left.eq, right.eq]
  | _, _, .name rfl rfl => rfl
  | _, _, .assign rfl rfl value => congrArg _ value.eq
  | _, _, .call callee rfl arguments => by rw [callee.eq, arguments.eq]
  | _, _, .get object rfl => by rw [object.eq]
  | _, _, .set object rfl value => by rw [object.eq, value.eq]
  | _, _, .this rfl rfl => rfl
  | _, _, .super rfl rfl rfl => rfl

theorem Expr.AllAlike.eq : ∀ {es es' : List Expr}, Expr.AllAlike .same es es' → es = es'
  | _, _, .nil => rfl
  | _, _, .cons head tail => by rw [head.eq, tail.eq]

end

/-- A sentence is one whatever stands behind it. -/
theorem Derivation.Expression.append {ts : List Token} {e : Expr}
    (h : Derivation.Expression ts e []) (more : List Token) :
    Derivation.Expression (ts ++ more) e more := by
  have along : Derivation.Along .same more ts (ts ++ more) := by
    simpa using Derivation.along_map (L := .same) (f := id) (g := id) fun _ _ => rfl
  have plain : Likeness.same.Plain := rfl
  obtain ⟨e', rest, derivation, alike, tail⟩ := h.along plain along
  rw [Derivation.along_nil tail, ← alike.eq] at derivation
  exact derivation

namespace Session

theorem readProgram_printing {source : String} {e : Expr}
    (reads : readExpression source = (some e, [])) :
    readProgram (printing source) = ([.print e], []) := by
  obtain ⟨scans, parses⟩ := readExpression_eq_iff.1 reads
  obtain ⟨tokens, clean⟩ := Scan.content_printing scans
  have expression := (Grammar.soleExpression_eq_iff.1 parses).append [printEnd source]
  refine readProgram_eq_iff.2 ⟨clean, Grammar.program_eq_iff.2 ?_⟩
  rw [tokens]
  exact .cons (.statement (.print rfl expression rfl)) .nil

/-! ## Running -/

variable {s t : Session} {source : String} {e : Expr} {fuel : Nat}

/-- The session in which the text of a value has been printed on top. -/
def showing (s : Session) (v : Value) : Session :=
  { s with machine := { s.machine with printed := s.machine.printed.push v.text } }

/-- A text is parsed as an expression in an open session if reading it reports nothing. -/
theorem parseExpression_eq_some_iff (open' : s.hadError = false) :
    (s.parseExpression source).2 = some e ↔ readExpression source = (some e, []) := by
  have static : ∀ d ∈ (readExpression source).2, d.isRuntime = false := reading_static _ _
  unfold parseExpression
  rcases hr : readExpression source with ⟨e', ds⟩
  rw [hr] at static
  dsimp only
  constructor
  · intro h
    split at h
    · cases h
    · next opened =>
        have silent : ds = [] := eq_nil_of_open static (Bool.eq_false_iff.2 opened)
        rw [h, silent]
  · rintro ⟨⟩
    rw [report_nil, open']
    rfl

theorem parseExpression_of_reads (open' : s.hadError = false)
    (reads : readExpression source = (some e, [])) : s.parseExpression source = (s, some e) := by
  refine Prod.ext ?_ ((parseExpression_eq_some_iff open').2 reads)
  show s.report (readExpression source).2 = s
  rw [reads, report_nil]

/-- An expression with errors is not evaluated. -/
theorem evaluate_of_unresolved (open' : s.hadError = false)
    (reads : readExpression source = (some e, [])) (errors : Stmt.staticErrors [.expr e] ≠ [])
    (fuel : Nat) :
    s.evaluate fuel source = some (s.report (staticDiagnostics [.expr e]), none) := by
  have some : staticDiagnostics [.expr e] ≠ [] := mt List.map_eq_nil_iff.1 errors
  rw [evaluate, parseExpression_of_reads open' reads]
  exact if_pos (hadError_report_of_ne_nil s (staticDiagnostics_static _) some)

theorem evaluate_of_open (open' : s.hadError = false)
    (reads : readExpression source = (some e, [])) (clean : Stmt.staticErrors [.expr e] = [])
    (fuel : Nat) :
    s.evaluate fuel source = s.settle (eval fuel (e.annotate .global) s.machine) := by
  rw [evaluate, parseExpression_of_reads open' reads]
  dsimp only
  rw [staticDiagnostics, clean, List.map_nil, report_nil, open', if_neg Bool.false_ne_true]

theorem execProgram_print (fuel : Nat) (e : Expr) (m : Machine) :
    execProgram (fuel + 1) (Stmt.resolve [.print e]) m =
      match eval fuel (e.annotate .global) m with
      | .done v m => .done .next { m with printed := m.printed.push v.text }
      | .failed fault m => .failed fault m
      | .exhausted => .exhausted := by
  show (exec (fuel + 1) (.print (e.annotate .global)) >>= _) m = _
  rw [exec, bind_apply, bind_apply]
  cases eval fuel (e.annotate .global) m <;> rfl

/-- Running the program is evaluating the expression and printing what that gives. -/
theorem run_printing (open' : s.hadError = false) (reads : readExpression source = (some e, []))
    (fuel : Nat) : s.run (fuel + 1) (printing source) =
      (s.evaluate fuel source).map fun (t, v) => (v.map t.showing).getD t := by
  have reads' := readProgram_printing reads
  by_cases clean : Stmt.staticErrors [.expr e] = []
  · rw [run_of_open open' reads' clean, evaluate_of_open open' reads clean, execute,
      execProgram_print]
    cases eval fuel (e.annotate .global) s.machine <;> rfl
  · rw [run_of_unresolved open' reads' clean, evaluate_of_unresolved open' reads clean]
    rfl

/-- Evaluation reports something unless it gives a value. -/
theorem diagnostics_evaluate (open' : s.hadError = false)
    (reads : readExpression source = (some e, [])) {v : Option Value}
    (ends : s.evaluate fuel source = some (t, v)) :
    t.diagnostics = s.diagnostics ↔ v.isSome := by
  by_cases clean : Stmt.staticErrors [.expr e] = []
  · rw [evaluate_of_open open' reads clean] at ends
    cases he : eval fuel (e.annotate .global) s.machine with
    | done a m =>
        rw [he] at ends
        cases ends
        exact iff_of_true rfl rfl
    | failed fault m =>
        rw [he] at ends
        cases ends
        exact iff_of_false (mt List.append_right_eq_self.1 nofun) nofun
    | exhausted =>
        rw [he] at ends
        cases ends
  · rw [evaluate_of_unresolved open' reads clean] at ends
    cases ends
    refine iff_of_false (fun same => ?_) nofun
    exact clean (List.map_eq_nil_iff.1 (List.append_right_eq_self.1 same))

/-- What the program leaves is what the evaluation leaves, up to the line that it prints. -/
theorem evaluate_of_run_printing (open' : s.hadError = false)
    (reads : readExpression source = (some e, [])) (ran : s.run fuel (printing source) = some t) :
    ∃ u v, s.evaluate fuel source = some (u, v) ∧ (v.map u.showing).getD u = t := by
  have more := run_more (Nat.le_succ fuel) ran
  rw [run_printing open' reads] at more
  obtain ⟨⟨u, v⟩, ends, rfl⟩ := Option.map_eq_some_iff.1 more
  exact ⟨u, v, ends, rfl⟩

/-- An expression that is parsed without errors may be evaluated or printed. Evaluation gives a
value exactly if the program that prints the expression reports nothing. Behind the lines that the
evaluation prints, the program then prints the text of the value, and apart from that line the
sessions are the same. In all other cases both report something, and the sessions are the same
with all that was reported. -/
theorem evaluate_agrees_print (open' : s.hadError = false)
    (accepted : (s.parseExpression source).2 = some e) :
    (∀ fuel t v, s.evaluate fuel source = some (t, some v) →
      t.diagnostics = s.diagnostics ∧ s.run (fuel + 1) (printing source) = some (t.showing v)) ∧
    (∀ fuel u, s.run fuel (printing source) = some u → u.diagnostics = s.diagnostics →
      ∃ t v, s.evaluate fuel source = some (t, some v) ∧ u = t.showing v) ∧
    (∀ fuel t, s.evaluate fuel source = some (t, none) →
      t.diagnostics ≠ s.diagnostics ∧ s.run (fuel + 1) (printing source) = some t) ∧
    ∀ fuel u, s.run fuel (printing source) = some u → u.diagnostics ≠ s.diagnostics →
      s.evaluate fuel source = some (u, none) := by
  have reads := (parseExpression_eq_some_iff open').1 accepted
  refine ⟨fun fuel t v ends => ?_, fun fuel u ran silent => ?_, fun fuel t ends => ?_,
    fun fuel u ran reported => ?_⟩
  · refine ⟨(diagnostics_evaluate open' reads ends).2 rfl, ?_⟩
    rw [run_printing open' reads, ends]
    rfl
  · obtain ⟨t, v, ends, rfl⟩ := evaluate_of_run_printing open' reads ran
    cases v with
    | some v => exact ⟨t, v, ends, rfl⟩
    | none => cases (diagnostics_evaluate open' reads ends).1 silent
  · refine ⟨mt (diagnostics_evaluate open' reads ends).1 nofun, ?_⟩
    rw [run_printing open' reads, ends]
    rfl
  · obtain ⟨t, v, ends, rfl⟩ := evaluate_of_run_printing open' reads ran
    cases v with
    | some v => exact absurd ((diagnostics_evaluate open' reads ends).2 rfl) reported
    | none => exact ends

/-- The comment behind the expression ends before the semicolon. -/
theorem commentedNot_printed : ∃ t, (Session.initial fun _ => 0).run 3 (printing "!nil // c") =
    some t ∧ t.machine.printed = #["true"] ∧ t.diagnostics = [] := by
  have accepted : ((Session.initial fun _ => 0).parseExpression "!nil // c").2 =
      some (.unary ⟨.symbol .bang, "!", 1⟩ (.literal .nil)) := by
    with_unfolding_all rfl
  have evaluated : (Session.initial fun _ => 0).evaluate 2 "!nil // c" =
      some (Session.initial fun _ => 0, some (.bool true)) := by
    rw [evaluate_of_open rfl ((parseExpression_eq_some_iff rfl).1 accepted) rfl]
    rfl
  obtain ⟨-, printed⟩ := (evaluate_agrees_print rfl accepted).1 _ _ _ evaluated
  exact ⟨_, printed, rfl, rfl⟩

end Session

end LoxLang
