import LoxLang.Proofs.Resumption

/-!
# Programs one behind the other

A program without errors is read to its end and no further, except that an
`else` could go with its last statement. So whatever stands behind it, unless
that starts with an `else`, is read as if the program were not there: the same
statements come out, and the same errors in the same order.

What stands behind may be any tokens at all. Nothing has to be known about the
errors in it or about where reading resumes after them, for the parser arrives
there with nothing but the tokens.
-/

namespace LoxLang

open LoxLang.Derivation

namespace Derivation

/-- Declarations are derived whatever stands behind them. -/
theorem Declarations.behind {rule : ElseRule} {ts : List Token} {ss : List Stmt}
    (h : Declarations rule ts ss []) (more : List Token) :
    Declarations rule (ts ++ more) ss more := by
  have keeps : KeepsKinds Eq := ⟨fun _ => rfl, fun h => h ▸ rfl⟩
  obtain ⟨us, h, changed⟩ := h.twin keeps (.refl keeps.same ss) more
  obtain ⟨front, front', rfl, rfl, same⟩ := exchanged_iff.1 changed
  obtain rfl := List.forall₂_eq_eq_eq ▸ same
  rwa [List.append_nil]

end Derivation

namespace Grammar

variable {p q ts rest : List Token} {ss : List Stmt}

/-- Behind declarations that are read the others are read, and only they can have errors. -/
theorem declarations_read (h : Declarations .nearest ts ss rest)
    (notElse : NotNext .elseWord rest) :
    (declarations false ts).stmts = ss ++ (declarations false rest).stmts ∧
      (declarations false ts).reports = (declarations false rest).reports := by
  induction ss generalizing ts with
  | nil =>
      cases h
      exact ⟨rfl, rfl⟩
  | cons s ss ih =>
      cases h with
      | cons first more =>
          obtain ⟨t, mid, rfl, _, read⟩ := declaration_complete first (more.notNext_else notElse)
          obtain ⟨stmts, reports⟩ := ih more
          rw [declarations, Bool.false_and, if_neg Bool.false_ne_true]
          split
          · next hd =>
              rw [read] at hd
              cases hd
              exact ⟨congrArg (s :: ·) stmts, reports⟩
          · next hd =>
              rw [read] at hd
              cases hd

/-- Behind a program without errors, anything that does not start with an `else` is read on its own:
the statements are those of the program and those of what follows, and the errors are those of what
follows. -/
theorem program_append (inner : ∀ t ∈ p, t.isEnd = false) (clean : (program p).2 = [])
    (notElse : NotNext .elseWord q) :
    program (p ++ q) = ((program p).1 ++ (program q).1, (program q).2) := by
  have derivation : Program .nearest p (program p).1 := by
    have h := program_eq_iff.1 (Prod.ext rfl clean : program p = ((program p).1, []))
    rwa [content_of_inner inner] at h
  have notElse : NotNext .elseWord (content q) := by
    rintro t tail h
    obtain ⟨r, rfl⟩ : ∃ r, q = t :: r := by
      cases q with
      | nil => cases h
      | cons t' r =>
          rw [content, List.takeWhile_cons] at h
          split at h
          · cases h; exact ⟨r, rfl⟩
          · cases h
    exact notElse t r rfl
  obtain ⟨stmts, reports⟩ := declarations_read (derivation.behind (content q)) notElse
  rw [program, program.eq_1 q, content_append_of_inner inner, stmts, reports]
  refine Prod.ext rfl ?_
  -- an error at the end of what follows stands at the end of the whole
  cases q with
  | nil => rw [content, List.takeWhile_nil, declarations]; rfl
  | cons t more => rw [endToken_append inner]

/-- `)` -/
def strayParen : Token := ⟨.symbol .rightParen, ")", 1⟩

/-- `) print 4;`: the parenthesis is skipped. -/
theorem strayParen_skipped :
    program (strayParen :: printNumber 4 "4") =
      ([.print (.literal (.number 4))], [⟨strayParen, .expression⟩]) := by
  have refuses : (declaration strayParen (printNumber 4 "4")).Refuses
      (strayParen :: printNumber 4 "4") ⟨some strayParen, .expression⟩ := by
    rw [declaration]
    show (statement _).Refuses _ _
    rw [statement]
    exact (expression_refuses (by simp [strayParen, StartsExpression, StartsPrimary,
      IsSign])).andThen.map
  have reads := program_eq_iff.1 (printNumber_read 4 "4" (.endOn 1) rfl)
  rw [content_append (by simp [printNumber, Token.isEnd]) rfl] at reads
  obtain ⟨stmts, -, reports⟩ := declarations_complete reads (endsDeclarations_false_iff.2 rfl)
  obtain ⟨stmts', reports'⟩ := declarations_refused refuses
  have behind : resume (strayParen :: printNumber 4 "4") = printNumber 4 "4" := rfl
  rw [program, content_of_inner (by simp [strayParen, printNumber, Token.isEnd]), stmts', reports',
    behind, stmts, reports]
  rfl

/-- `print 3; ) print 4;`: the error of what follows is the only one. -/
theorem strayParen_behind_print :
    (∀ t ∈ printNumber 3 "3", t.isEnd = false) ∧ (program (printNumber 3 "3")).2 = [] ∧
      NotNext .elseWord (strayParen :: printNumber 4 "4") ∧
      program (printNumber 3 "3" ++ strayParen :: printNumber 4 "4") =
        ([.print (.literal (.number 3)), .print (.literal (.number 4))],
          [⟨strayParen, .expression⟩]) := by
  have inner : ∀ t ∈ printNumber 3 "3", t.isEnd = false := by simp [printNumber, Token.isEnd]
  have reads := program_eq_iff.1 (printNumber_read 3 "3" (.endOn 1) rfl)
  rw [content_append inner rfl, ← content_of_inner inner] at reads
  have read := program_eq_iff.2 reads
  have notElse : NotNext .elseWord (strayParen :: printNumber 4 "4") :=
    notNext_cons.2 (by simp [strayParen])
  refine ⟨inner, congrArg Prod.snd read, notElse, ?_⟩
  rw [program_append inner (congrArg Prod.snd read) notElse, read, strayParen_skipped]
  rfl

end Grammar

end LoxLang
