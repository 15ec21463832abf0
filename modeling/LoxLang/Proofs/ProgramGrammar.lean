import Mathlib.Data.List.TakeWhile
import LoxLang.Proofs.StatementGrammar

/-!
# What is read without errors

The grammar alone does not choose between the derivations of one sentence. An
open statement in front of `else` can always take it, so a derivation that
gives an `else` away can be rearranged until every `else` is with the nearest
`if`. The rule rejects no program, then, it only settles the tree, and the
sentences of the bare grammar are exactly what is read without errors.
-/

namespace LoxLang

open Grammar

namespace Derivation

/-- Some statement reaches from `ts` to behind any `else` branch that `mid` begins with. -/
def TakesElse (ts mid : List Token) : Prop :=
  ∀ otherwise ts' isOpen s rest, mid = otherwise :: ts' → otherwise.kind = .symbol .elseWord →
    Statement .nearest isOpen ts' s rest → ∃ isOpen' s', Statement .nearest isOpen' ts s' rest

theorem Statement.takesElse : ∀ {isOpen : Bool} {ts mid : List Token} {s : Stmt},
    Statement .nearest isOpen ts s mid → isOpen = true → TakesElse ts mid
  | _, _, _, _, .exprStmt _ => nofun
  | _, _, _, _, .for word opening first test stop step close body => fun open' => by
      intro otherwise ts' _ _ rest hmid word' other
      obtain ⟨_, _, body⟩ := body.takesElse open' _ _ _ _ _ hmid word' other
      exact ⟨_, _, .for word opening first test stop step close body⟩
  | _, _, _, _, @Statement.ifThen _ _ _ _ isOpen _ _ _ word test consequent => fun _ => by
      have within := consequent.takesElse
      intro otherwise ts' _ _ rest hmid word' other
      cases isOpen with
      | false =>
          subst hmid
          exact ⟨_, _, .ifElse word test consequent word' (fun _ => rfl) other⟩
      | true =>
          obtain ⟨_, _, consequent⟩ := within rfl _ _ _ _ _ hmid word' other
          exact ⟨_, _, .ifThen word test consequent⟩
  | _, _, _, _, .ifElse word test consequent word' nearest alternative => fun open' => by
      intro otherwise ts' _ _ rest hmid word'' other
      obtain ⟨_, _, alternative⟩ := alternative.takesElse open' _ _ _ _ _ hmid word'' other
      exact ⟨_, _, .ifElse word test consequent word' nearest alternative⟩
  | _, _, _, _, .print _ _ _ => nofun
  | _, _, _, _, .return _ _ _ => nofun
  | _, _, _, _, .while word test body => fun open' => by
      intro otherwise ts' _ _ rest hmid word' other
      obtain ⟨_, _, body⟩ := body.takesElse open' _ _ _ _ _ hmid word' other
      exact ⟨_, _, .while word test body⟩
  | _, _, _, _, .block _ _ _ => nofun

variable {rule : ElseRule}

mutual

theorem Statement.nearest : ∀ {isOpen : Bool} {ts rest : List Token} {s : Stmt},
    Statement rule isOpen ts s rest → ∃ isOpen' s', Statement .nearest isOpen' ts s' rest
  | _, _, _, _, .exprStmt h => ⟨_, _, .exprStmt h⟩
  | _, _, _, _, .for word opening first test stop step close body => by
      obtain ⟨_, _, body⟩ := body.nearest
      exact ⟨_, _, .for word opening first test stop step close body⟩
  | _, _, _, _, .ifThen word test consequent => by
      obtain ⟨_, _, consequent⟩ := consequent.nearest
      exact ⟨_, _, .ifThen word test consequent⟩
  | _, _, _, _, .ifElse word test consequent word' _ alternative => by
      obtain ⟨isOpen, _, consequent⟩ := consequent.nearest
      obtain ⟨_, _, alternative⟩ := alternative.nearest
      cases isOpen with
      | false => exact ⟨_, _, .ifElse word test consequent word' (fun _ => rfl) alternative⟩
      | true =>
          obtain ⟨_, _, consequent⟩ := consequent.takesElse rfl _ _ _ _ _ rfl word' alternative
          exact ⟨_, _, .ifThen word test consequent⟩
  | _, _, _, _, .print word expression stop => ⟨_, _, .print word expression stop⟩
  | _, _, _, _, .return word value stop => ⟨_, _, .return word value stop⟩
  | _, _, _, _, .while word test body => by
      obtain ⟨_, _, body⟩ := body.nearest
      exact ⟨_, _, .while word test body⟩
  | _, _, _, _, .block opening body close => by
      obtain ⟨_, body⟩ := body.nearest
      exact ⟨_, _, .block opening body close⟩

theorem Declaration.nearest : ∀ {ts rest : List Token} {s : Stmt},
    Declaration rule ts s rest → ∃ s', Declaration .nearest ts s' rest
  | _, _, _, .rootClass word name opening methods close => by
      obtain ⟨_, methods⟩ := methods.nearest
      exact ⟨_, .rootClass word name opening methods close⟩
  | _, _, _, .subclass word name below parent opening methods close => by
      obtain ⟨_, methods⟩ := methods.nearest
      exact ⟨_, .subclass word name below parent opening methods close⟩
  | _, _, _, .funDecl word function => by
      obtain ⟨_, function⟩ := function.nearest
      exact ⟨_, .funDecl word function⟩
  | _, _, _, .varDecl declaration => ⟨_, .varDecl declaration⟩
  | _, _, _, .statement statement => by
      obtain ⟨_, _, statement⟩ := statement.nearest
      exact ⟨_, .statement statement⟩

theorem Function.nearest : ∀ {ts rest : List Token} {f : FunctionDecl},
    Function rule ts f rest → ∃ f', Function .nearest ts f' rest
  | _, _, _, .mk name opening list close openBody body closeBody => by
      obtain ⟨_, body⟩ := body.nearest
      exact ⟨_, .mk name opening list close openBody body closeBody⟩

theorem Functions.nearest : ∀ {ts rest : List Token} {fs : List FunctionDecl},
    Functions rule ts fs rest → ∃ fs', Functions .nearest ts fs' rest
  | _, _, _, .nil => ⟨_, .nil⟩
  | _, _, _, .cons function functions => by
      obtain ⟨_, function⟩ := function.nearest
      obtain ⟨_, functions⟩ := functions.nearest
      exact ⟨_, .cons function functions⟩

/-- Every sentence has a derivation in which each `else` is with the nearest `if`. -/
theorem Declarations.nearest : ∀ {ts rest : List Token} {ss : List Stmt},
    Declarations rule ts ss rest → ∃ ss', Declarations .nearest ts ss' rest
  | _, _, _, .nil => ⟨_, .nil⟩
  | _, _, _, .cons declaration declarations => by
      obtain ⟨_, declaration⟩ := declaration.nearest
      obtain ⟨_, declarations⟩ := declarations.nearest
      exact ⟨_, .cons declaration declarations⟩

end

mutual

theorem Statement.any : ∀ {isOpen : Bool} {ts rest : List Token} {s : Stmt},
    Statement rule isOpen ts s rest → Statement .any isOpen ts s rest
  | _, _, _, _, .exprStmt h => .exprStmt h
  | _, _, _, _, .for word opening first test stop step close body =>
      .for word opening first test stop step close body.any
  | _, _, _, _, .ifThen word test consequent => .ifThen word test consequent.any
  | _, _, _, _, .ifElse word test consequent word' _ alternative =>
      .ifElse word test consequent.any word' nofun alternative.any
  | _, _, _, _, .print word expression stop => .print word expression stop
  | _, _, _, _, .return word value stop => .return word value stop
  | _, _, _, _, .while word test body => .while word test body.any
  | _, _, _, _, .block opening body close => .block opening body.any close

theorem Declaration.any : ∀ {ts rest : List Token} {s : Stmt},
    Declaration rule ts s rest → Declaration .any ts s rest
  | _, _, _, .rootClass word name opening methods close =>
      .rootClass word name opening methods.any close
  | _, _, _, .subclass word name below parent opening methods close =>
      .subclass word name below parent opening methods.any close
  | _, _, _, .funDecl word function => .funDecl word function.any
  | _, _, _, .varDecl declaration => .varDecl declaration
  | _, _, _, .statement statement => .statement statement.any

theorem Function.any : ∀ {ts rest : List Token} {f : FunctionDecl},
    Function rule ts f rest → Function .any ts f rest
  | _, _, _, .mk name opening list close openBody body closeBody =>
      .mk name opening list close openBody body.any closeBody

theorem Functions.any : ∀ {ts rest : List Token} {fs : List FunctionDecl},
    Functions rule ts fs rest → Functions .any ts fs rest
  | _, _, _, .nil => .nil
  | _, _, _, .cons function functions => .cons function.any functions.any

/-- A derivation that follows a rule is one. -/
theorem Declarations.any : ∀ {ts rest : List Token} {ss : List Stmt},
    Declarations rule ts ss rest → Declarations .any ts ss rest
  | _, _, _, .nil => .nil
  | _, _, _, .cons declaration declarations => .cons declaration.any declarations.any

end

theorem exists_program_iff {ts : List Token} :
    (∃ ss, Program .nearest ts ss) ↔ ∃ ss, Program .any ts ss := by
  constructor
  · rintro ⟨ss, h⟩
    exact ⟨ss, h.any⟩
  · rintro ⟨_, h⟩
    exact h.nearest

end Derivation

namespace Grammar

open LoxLang.Derivation

variable {ts : List Token} {last : Token}

/-! ## Whole lists of tokens -/

theorem content_append (inner : ∀ t ∈ ts, t.isEnd = false) (ending : last.isEnd = true) :
    content (ts ++ [last]) = ts := by
  rw [content, List.takeWhile_append_of_pos fun t ht => by rw [inner t ht]; rfl]
  simp [ending]

/-- Tokens without an end in front of others. -/
theorem content_append_of_inner (inner : ∀ t ∈ ts, t.isEnd = false) (more : List Token) :
    content (ts ++ more) = ts ++ content more :=
  List.takeWhile_append_of_pos fun t ht => by rw [inner t ht]; rfl

theorem content_of_inner (inner : ∀ t ∈ ts, t.isEnd = false) : content ts = ts := by
  simpa [content] using content_append_of_inner inner []

theorem isEnd_of_mem_content {t : Token} (h : t ∈ content ts) : t.isEnd = false := by
  simpa using List.mem_takeWhile_imp h

theorem isEnd_of_symbol {t : Token} {s : Symbol} (hk : t.kind = .symbol s) : t.isEnd = false := by
  rw [Token.isEnd, hk]

theorem isEnd_endToken (ts : List Token) : (endToken ts).isEnd = true := by
  unfold endToken
  cases h : ts.find? Token.isEnd with
  | none => rfl
  | some t => exact List.find?_some h

theorem endToken_append (inner : ∀ t ∈ ts, t.isEnd = false) (t : Token) (more : List Token) :
    endToken (ts ++ t :: more) = endToken (t :: more) := by
  have front : ts.find? Token.isEnd = none :=
    List.find?_eq_none.2 fun t ht => by simp [inner t ht]
  have last : (ts ++ t :: more).getLast? = (t :: more).getLast? := by
    rw [List.getLast?_append]
    cases h : (t :: more).getLast? with
    | none => exact absurd h (by simp)
    | some _ => rfl
  rw [endToken, endToken, List.find?_append, front, Option.none_or, last]

theorem located_eq_nil {complaints : List Complaint} :
    located last complaints = [] ↔ complaints = [] := List.map_eq_nil_iff

theorem endsDeclarations_false_iff : EndsDeclarations false ts ↔ ts = [] := by
  constructor
  · intro h
    cases ts with
    | nil => rfl
    | cons t tail => cases (h t tail rfl).1
  · rintro rfl _ _ h
    cases h

/-- Outside of blocks declarations are read up to the end, whatever the errors. -/
theorem program_eq_iff {ss : List Stmt} :
    program ts = (ss, []) ↔ Program .nearest (content ts) ss := by
  constructor
  · intro h
    rw [program, Prod.mk.injEq, located_eq_nil] at h
    have reads : (declarations false (content ts)).Reads ss _ := ⟨h.1, rfl, h.2⟩
    obtain ⟨derivation, hend⟩ := declarations_sound reads
    rw [endsDeclarations_false_iff.1 hend] at derivation
    exact derivation
  · intro h
    obtain ⟨hs, -, hr⟩ := declarations_complete h (endsDeclarations_false_iff.2 rfl)
    rw [program, hs, hr]
    rfl

theorem soleExpression_eq_iff {e : Expr} :
    soleExpression ts = (some e, []) ↔ Expression (content ts) e [] := by
  rw [← expression_reads_iff_of_stops stops_nil]
  unfold soleExpression
  split
  · next heq => rw [heq]; simp [located_eq_nil]
  · next heq => rw [heq]; simp
  · next heq => rw [heq]; simp

theorem soleExpression_reports_nil_iff :
    (soleExpression ts).2 = [] ↔ ∃ e, soleExpression ts = (some e, []) := by
  unfold soleExpression
  split <;> simp [located]

/-- Exactly the sentences of the grammar are read without errors, and the tree is that of the
derivation in which each `else` is with the nearest `if`. -/
theorem reads_iff_derivable (inner : ∀ t ∈ ts, t.isEnd = false) (ending : last.isEnd = true) :
    ((program (ts ++ [last])).2 = [] ↔ ∃ ss, Program .any ts ss) ∧
      (∀ ss, program (ts ++ [last]) = (ss, []) ↔ Program .nearest ts ss) ∧
      ((soleExpression (ts ++ [last])).2 = [] ↔ ∃ e, Expression ts e []) ∧
      (∀ e, soleExpression (ts ++ [last]) = (some e, []) ↔ Expression ts e []) := by
  have hc := content_append inner ending
  have programs : ∀ ss, program (ts ++ [last]) = (ss, []) ↔ Program .nearest ts ss := by
    intro ss
    rw [program_eq_iff, hc]
  have expressions : ∀ e, soleExpression (ts ++ [last]) = (some e, []) ↔ Expression ts e [] := by
    intro e
    rw [soleExpression_eq_iff, hc]
  refine ⟨?_, programs, ?_, expressions⟩
  · rw [← exists_program_iff]
    constructor
    · intro h
      exact ⟨(program (ts ++ [last])).1, (programs _).1 (Prod.ext rfl h)⟩
    · rintro ⟨ss, h⟩
      rw [(programs ss).2 h]
  · rw [soleExpression_reports_nil_iff]
    exact exists_congr expressions

/-- `if (a) if (b) c; else d;` -/
def nestedIfs : List Token :=
  [⟨.symbol .ifWord, "if", 1⟩, ⟨.symbol .leftParen, "(", 1⟩, ⟨.identifier, "a", 1⟩,
    ⟨.symbol .rightParen, ")", 1⟩, ⟨.symbol .ifWord, "if", 1⟩, ⟨.symbol .leftParen, "(", 1⟩,
    ⟨.identifier, "b", 1⟩, ⟨.symbol .rightParen, ")", 1⟩, ⟨.identifier, "c", 1⟩,
    ⟨.symbol .semicolon, ";", 1⟩, ⟨.symbol .elseWord, "else", 1⟩, ⟨.identifier, "d", 1⟩,
    ⟨.symbol .semicolon, ";", 1⟩]

/-- The `else` goes with the inner `if`. -/
theorem nestedIfs_read :
    program (nestedIfs ++ [.endOn 1]) =
      ([.ifThen (.name ⟨.identifier, "a", 1⟩ none)
        (.ifElse (.name ⟨.identifier, "b", 1⟩ none) (.expr (.name ⟨.identifier, "c", 1⟩ none))
          (.expr (.name ⟨.identifier, "d", 1⟩ none)))], []) := by
  refine ((reads_iff_derivable (by decide) rfl).2.1 _).2 ?_
  have named : ∀ x rest, Expression (⟨.identifier, x, 1⟩ :: rest) (.name ⟨.identifier, x, 1⟩ none)
      rest := fun _ _ => .or (.and (.equality (.comparison (.term (.factor (.unary (.call (.primary
        (.name rfl)))))))))
  exact .cons (.statement (.ifThen rfl (.mk rfl (named "a" _) rfl)
    (.ifElse rfl (.mk rfl (named "b" _) rfl) (.exprStmt (.mk (named "c" _) rfl)) rfl
      (fun _ => rfl) (.exprStmt (.mk (named "d" _) rfl))))) .nil

end Grammar

end LoxLang
