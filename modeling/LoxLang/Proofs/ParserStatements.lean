import Mathlib.Data.List.Perm.Basic
import LoxLang.Proofs.ParserExpressions

/-!
# Statements with a cursor

The productions for statements follow the parsers of lists as well. Behind a
declaration that fails the parser skips as many tokens as the other drops. With
the token in front of the cursor, which is looked at again for this, no more is
needed than what is left.

A declaration moves the cursor on, whether it fails or not, and the
declarations inside it start behind its own start. So a turn is new when it is
finished, and it makes up for the error that may have ended it.
-/

namespace LoxLang

/-! ## What was read -/

/-- The clauses of a loop with their slots emptied. -/
def ForClauses.plain (clauses : ForClauses) : ForClauses where
  initial := clauses.initial.map (Stmt.mapSlots fun _ => none)
  condition := clauses.condition.map Expr.plain
  increment := clauses.increment.map Expr.plain

/-- The slots of the clauses of a loop. -/
def ForClauses.slots (clauses : ForClauses) : List (Option Nat) :=
  Stmt.allSlots clauses.initial.toList ++ Expr.optSlots clauses.condition ++
    Expr.optSlots clauses.increment

theorem ForClauses.plain_toStmt (clauses : ForClauses) (body : Stmt) :
    (clauses.toStmt body).mapSlots (fun _ => none) =
      clauses.plain.toStmt (body.mapSlots fun _ => none) := by
  obtain ⟨initial, condition, increment⟩ := clauses
  cases initial <;> cases condition <;> cases increment <;> rfl

/-- The increment stands in front of the body and comes behind it in the loop. -/
theorem ForClauses.slots_toStmt (clauses : ForClauses) (body : Stmt) :
    ((clauses.slots ++ body.slots).Perm (clauses.toStmt body).slots) := by
  obtain ⟨initial, condition, increment⟩ := clauses
  cases initial <;> cases condition <;> cases increment <;>
    simp only [ForClauses.toStmt, ForClauses.slots, Stmt.slots, Stmt.allSlots, Expr.optSlots,
      Expr.slots, Option.toList_none, Option.toList_some, Option.getD_none, Option.getD_some,
      List.append_nil, List.nil_append, List.append_assoc, List.Perm.refl, List.perm_append_comm,
      List.perm_append_left_iff]

theorem HoldNumbers.perm {low high : Nat} {ss ss' : List (Option Nat)} (h : HoldNumbers low high ss)
    (perm : ss.Perm ss') : HoldNumbers low high ss' := by
  obtain ⟨ids, rfl, distinct, within⟩ := h
  have both : Relation.Comp (· = List.map some ·) (·.Perm ·) ss' ids := by
    rw [List.eq_map_comp_perm]
    exact perm.symm
  obtain ⟨ids', rfl, perm'⟩ := both
  exact ⟨ids', rfl, perm'.nodup_iff.2 distinct, fun id hid => within id (perm'.mem_iff.1 hid)⟩

namespace Parser

open Grammar

variable {p q r : Parser} {low : Nat} {ts rest : List Token} {t : Token}

/-- A statement that was read, with numbers drawn since a point. -/
abbrev ReadStmt (since : Nat) : Nat → Stmt → Stmt → Prop :=
  Drawn (Stmt.mapSlots fun _ => none) Stmt.slots since

/-- Statements that were read. -/
abbrev ReadStmts (since : Nat) : Nat → List Stmt → List Stmt → Prop :=
  Drawn Stmt.allPlain Stmt.allSlots since

/-- A function that was read. -/
abbrev ReadRoutine (since : Nat) : Nat → FunctionDecl → FunctionDecl → Prop :=
  Drawn (FunctionDecl.mapSlots fun _ => none) FunctionDecl.slots since

/-- Functions that were read. -/
abbrev ReadRoutines (since : Nat) : Nat → List FunctionDecl → List FunctionDecl → Prop :=
  Drawn (FunctionDecl.mapAllSlots fun _ => none) FunctionDecl.allSlots since

/-- An expression that was read, if there is one. -/
abbrev ReadOption (since : Nat) : Nat → Option Expr → Option Expr → Prop :=
  Drawn (Option.map Expr.plain) Expr.optSlots since

/-- An initial clause that was read, if there is one. -/
abbrev ReadInitial (since : Nat) : Nat → Option Stmt → Option Stmt → Prop :=
  Drawn (Option.map (Stmt.mapSlots fun _ => none)) (fun s => Stmt.allSlots s.toList) since

/-- Clauses that were read. -/
abbrev ReadClauses (since : Nat) : Nat → ForClauses → ForClauses → Prop :=
  Drawn ForClauses.plain ForClauses.slots since

section Nodes

variable {since mid high : Nat} {e b : Expr} {o o' : Option Expr} {s s' u u' : Stmt}
  {ss ss' : List Stmt} {f f' : FunctionDecl} {fs fs' : List FunctionDecl}

theorem Read.some (h : Read since high e b) : ReadOption since high (.some e) (.some b) :=
  ⟨congrArg Option.some h.plain_eq, h.numbers⟩

theorem ReadOption.none : ReadOption since high .none .none := ⟨rfl, .nil⟩

theorem ReadStmt.some (h : ReadStmt since high s s') :
    ReadInitial since high (.some s) (.some s') :=
  ⟨congrArg Option.some h.plain_eq, by
    rw [Option.toList_some, Stmt.allSlots, Stmt.allSlots, List.append_nil]
    exact h.numbers⟩

theorem ReadOption.var (h : ReadOption since high o o') :
    ReadStmt since high (.var t o) (.var t o') :=
  ⟨congrArg (Stmt.var t) h.plain_eq, h.numbers⟩

theorem ReadOption.returning (h : ReadOption since high o o') :
    ReadStmt since high (.returning t o) (.returning t o') :=
  ⟨congrArg (Stmt.returning t) h.plain_eq, h.numbers⟩

theorem Read.expr (h : Read since high e b) : ReadStmt since high (.expr e) (.expr b) :=
  ⟨congrArg Stmt.expr h.plain_eq, h.numbers⟩

theorem Read.print (h : Read since high e b) : ReadStmt since high (.print e) (.print b) :=
  ⟨congrArg Stmt.print h.plain_eq, h.numbers⟩

theorem ReadStmts.block (h : ReadStmts since high ss ss') :
    ReadStmt since high (.block ss) (.block ss') :=
  ⟨congrArg Stmt.block h.plain_eq, h.numbers⟩

theorem ReadStmts.routine {ps : List Token} (h : ReadStmts since high ss ss') :
    ReadRoutine since high ⟨t, ps, ss⟩ ⟨t, ps, ss'⟩ :=
  ⟨congrArg (FunctionDecl.mk t ps) h.plain_eq, h.numbers⟩

theorem ReadRoutine.function (h : ReadRoutine since high f f') :
    ReadStmt since high (.function f) (.function f') :=
  ⟨congrArg Stmt.function h.plain_eq, h.numbers⟩

theorem Read.whileDo (test : Read since mid e b) (body : ReadStmt mid high s s')
    (hlow : since ≤ mid) (hhigh : mid ≤ high) :
    ReadStmt since high (.whileDo e s) (.whileDo b s') :=
  ⟨congrArg₂ Stmt.whileDo test.plain_eq body.plain_eq,
    (test.numbers.append body.numbers hlow hhigh).1⟩

theorem Read.ifThen (test : Read since mid e b) (consequent : ReadStmt mid high s s')
    (hlow : since ≤ mid) (hhigh : mid ≤ high) :
    ReadStmt since high (.ifThen e s) (.ifThen b s') :=
  ⟨congrArg₂ Stmt.ifThen test.plain_eq consequent.plain_eq,
    (test.numbers.append consequent.numbers hlow hhigh).1⟩

theorem ReadStmt.ifElse {end' : Nat} (front : ReadStmt since mid (.ifThen e s) (.ifThen b s'))
    (other : ReadStmt mid end' u u') (hlow : since ≤ mid) (hhigh : mid ≤ end') :
    ReadStmt since end' (.ifElse e s u) (.ifElse b s' u') := by
  obtain ⟨plain, numbers⟩ := front
  rw [Stmt.mapSlots, Stmt.ifThen.injEq] at plain
  refine ⟨?_, (numbers.append other.numbers hlow hhigh).1⟩
  rw [Stmt.mapSlots, plain.1, plain.2, other.plain_eq]

theorem ReadStmts.nil : ReadStmts since high [] [] := ⟨rfl, .nil⟩

theorem ReadStmts.cons (head : ReadStmt since mid s s') (tail : ReadStmts mid high ss ss')
    (hlow : since ≤ mid) (hhigh : mid ≤ high) : ReadStmts since high (s :: ss) (s' :: ss') :=
  ⟨congrArg₂ List.cons head.plain_eq tail.plain_eq,
    (head.numbers.append tail.numbers hlow hhigh).1⟩

theorem ReadRoutines.nil : ReadRoutines since high [] [] := ⟨rfl, .nil⟩

theorem ReadRoutines.cons (head : ReadRoutine since mid f f') (tail : ReadRoutines mid high fs fs')
    (hlow : since ≤ mid) (hhigh : mid ≤ high) : ReadRoutines since high (f :: fs) (f' :: fs') :=
  ⟨congrArg₂ List.cons head.plain_eq tail.plain_eq,
    (head.numbers.append tail.numbers hlow hhigh).1⟩

theorem ReadOption.classDecl (parent : ReadOption since mid o o')
    (methods : ReadRoutines mid high fs fs') (hlow : since ≤ mid) (hhigh : mid ≤ high) :
    ReadStmt since high (.classDecl t o fs) (.classDecl t o' fs') :=
  ⟨congrArg₂ (Stmt.classDecl t) parent.plain_eq methods.plain_eq,
    (parent.numbers.append methods.numbers hlow hhigh).1⟩

theorem ReadInitial.clauses {i i' : Option Stmt} {c c' n n' : Option Expr} {mid' : Nat}
    (initial : ReadInitial since mid i i') (condition : ReadOption mid mid' c c')
    (increment : ReadOption mid' high n n') (hlow : since ≤ mid) (hmid : mid ≤ mid')
    (hhigh : mid' ≤ high) : ReadClauses since high ⟨i, c, n⟩ ⟨i', c', n'⟩ := by
  refine ⟨?_, ((initial.numbers.append condition.numbers hlow hmid).1.append increment.numbers
    (Nat.le_trans hlow hmid) hhigh).1⟩
  rw [ForClauses.plain, initial.plain_eq, condition.plain_eq, increment.plain_eq]

theorem ReadClauses.toStmt {clauses clauses' : ForClauses}
    (h : ReadClauses since mid clauses clauses') (body : ReadStmt mid high s s')
    (hlow : since ≤ mid) (hhigh : mid ≤ high) :
    ReadStmt since high (clauses.toStmt s) (clauses'.toStmt s') := by
  refine ⟨?_, (h.numbers.append body.numbers hlow hhigh).1.perm (clauses.slots_toStmt s)⟩
  rw [clauses.plain_toStmt, h.plain_eq, body.plain_eq]

end Nodes

/-! ## Parts of statements -/

theorem closed_follows (ready : p.Ready) (left : p.left = ts) (s : Symbol) (error : GrammarError) :
    Follows low (closed s error) p (Grammar.closed s error ts) (Read p.nextId) := by
  refine (expression_follows ready left).bind ready fun e b q rest _ left ready _ _ read => ?_
  rw [follows_widen, follows_map, bind_pure_comp]
  exact ((follows_expect ready left).imp fun _ _ _ more _ => read.mono (Nat.le_refl _) more).map

theorem optionallyClosed_eq (s : Symbol) (error : GrammarError) : optionallyClosed s error = (do
    if ← check (·.isSymbol s) then (fun _ => none) <$> consume (·.isSymbol s) error
    else some <$> closed s error) := by
  refine bind_congr fun none => ?_
  split <;> simp [closed]

theorem optionallyClosed_follows (ready : p.Ready) (left : p.left = ts) (s : Symbol)
    (error : GrammarError) :
    Follows low (optionallyClosed s error) p (Grammar.optionallyClosed s error ts)
      (ReadOption p.nextId) := by
  have given : ∀ {q}, Stands 0 p q ts → Follows low (some <$> closed s error) q
      ((Grammar.closed s error ts).map some) (ReadOption p.nextId) := fun stands => by
    rw [follows_map]
    exact ((closed_follows stands.ready stands.left s error).imp fun _ _ _ _ read =>
      Read.some (stands.nextId ▸ read)).map
  rw [optionallyClosed_eq]
  cases ts with
  | nil => exact follows_check ready left fun q stands => given stands
  | cons t rest =>
      refine follows_check ready left fun q stands => ?_
      rw [Grammar.optionallyClosed, List.head?_cons, Option.any_some]
      split
      · next ht =>
          show Follows low _ q ((Reply.parsed t rest [] (tail_lt t rest)).map fun _ => none) _
          rw [follows_map]
          exact ((follows_consume (·.isSymbol s) stands.ready stands.left ht).imp
            fun _ _ _ _ _ => .none).map
      · exact given stands

theorem variableDeclaration_follows (ready : p.Ready) (left : p.left = ts) :
    Follows low variableDeclaration p (Grammar.variableDeclaration ts) (ReadStmt p.nextId) := by
  refine (follows_expectName ready left).bind ready fun name _ q rest _ left ready _ numbers eq => ?_
  subst eq
  have bare : ∀ {q' ts}, Stands 0 q q' ts →
      Follows (max low q.current) ((fun _ => Stmt.var name none) <$>
        consume (·.isSymbol .semicolon) .variableEnd) q'
        (expect .semicolon .variableEnd ts) fun high a _ =>
          ReadStmt p.nextId high a (.var name none) := fun s =>
    ((follows_expect s.ready s.left).imp fun _ _ _ _ _ => ReadOption.none.var).map
  cases rest with
  | nil =>
      refine follows_match_false ready left rfl fun q1 s1 => ?_
      rw [follows_widen, follows_map]
      simpa using bare s1
  | cons t rest =>
      dsimp only
      split
      · next ht =>
          refine follows_match_true ready left ht fun q1 s1 _ => ?_
          rw [follows_widen, if_pos rfl, map_eq_pure_bind, bind_assoc]
          refine (expression_follows s1.ready s1.left).bind s1.ready fun e b q2 rest _ left2 ready2
            _ numbers2 read => ?_
          rw [follows_widen, follows_map, pure_bind, bind_pure_comp]
          refine ((follows_expect ready2 left2).imp fun _ _ _ more _ => ?_).map
          exact (Read.some (read.mono (s1.nextId ▸ numbers) more)).var
      · next ht =>
          refine follows_match_false ready left (Bool.eq_false_iff.2 ht) fun q1 s1 => ?_
          rw [follows_widen, follows_map]
          simpa using bare s1

/-- The list of parameters with the closing parenthesis. -/
def closedParameters (count : Nat) : Parsing (List Token) := do
  let list ← someParameters count
  let _ ← consume (·.isSymbol .rightParen) .parametersClose
  pure list

theorem closedParameters_eq (count : Nat) : closedParameters count =
    (let go : Unit → Parsing (List Token) := fun _ => do
      let t ← consume Token.isIdentifier .parameterName
      if ← matchNext (·.isSymbol .comma) then (t :: ·) <$> closedParameters (count + 1)
      else (fun _ => [t]) <$> consume (·.isSymbol .rightParen) .parametersClose
    if maxArguments ≤ count then liftM (noteNext .tooManyParameters) >>= go else go ()) := by
  have behind : ∀ t : Token, ∀ comma : Bool, ((if comma = true then do
          let list ← someParameters (count + 1)
          pure (t :: list)
        else pure [t]) >>= fun list => do
          let _ ← consume (·.isSymbol .rightParen) .parametersClose
          pure list) =
      if comma = true then (t :: ·) <$> closedParameters (count + 1)
      else (fun _ => [t]) <$> consume (·.isSymbol .rightParen) .parametersClose := by
    intro t comma
    split <;> simp [closedParameters]
  rw [closedParameters, someParameters.eq_1]
  split <;> simp only [bind_assoc, behind]

theorem closedParameters_follows {p : Parser} {low : Nat} {ts : List Token} (ready : p.Ready)
    (left : p.left = ts) (count : Nat) :
    Follows low (closedParameters count) p (Grammar.someParameters count ts)
      fun _ a b => a = b := by
  rw [closedParameters_eq, Grammar.someParameters]
  refine follows_limit ready left fun q1 left1 ready1 _ _ => ?_
  refine (follows_expectName ready1 left1).bind ready1 fun t _ q2 rest shorter left2 ready2 _ _
    eq => ?_
  subst eq
  cases rest with
  | nil =>
      refine follows_match_false ready2 left2 rfl fun q3 s3 => ?_
      rw [follows_widen, follows_map]
      exact ((follows_expect s3.ready s3.left).imp fun _ _ _ _ _ => rfl).map
  | cons u rest =>
      dsimp only
      split
      · next hu =>
          rw [follows_widen, follows_map]
          refine follows_match_true ready2 left2 hu fun q3 s3 _ => ?_
          exact ((closedParameters_follows s3.ready s3.left (count + 1)).imp
            fun _ _ _ _ same => congrArg (t :: ·) same).map
      · next hu =>
          refine follows_match_false ready2 left2 (Bool.eq_false_iff.2 hu) fun q3 s3 => ?_
          rw [follows_widen, follows_map]
          exact ((follows_expect s3.ready s3.left).imp fun _ _ _ _ _ => rfl).map
termination_by ts.length
decreasing_by simp only [List.length_cons] at *; omega

theorem parameters_eq : parameters = (do
    if ← check (·.isSymbol .rightParen) then
      (fun _ => []) <$> consume (·.isSymbol .rightParen) .parametersClose
    else closedParameters 0) := by
  refine bind_congr fun none => ?_
  split <;> simp [closedParameters]

theorem parameters_follows (ready : p.Ready) (left : p.left = ts) :
    Follows low parameters p (Grammar.parameters ts) fun _ a b => a = b := by
  rw [parameters_eq]
  cases ts with
  | nil =>
      rw [Grammar.parameters]
      exact follows_check ready left fun q s => closedParameters_follows s.ready s.left 0
  | cons t rest =>
      refine follows_check ready left fun q s => ?_
      rw [Grammar.parameters, List.head?_cons, Option.any_some]
      split
      · next ht =>
          show Follows low _ q ((Reply.parsed t rest [] (tail_lt t rest)).map fun _ => []) _
          rw [follows_map]
          exact ((follows_consume (·.isSymbol .rightParen) s.ready s.left ht).imp
            fun _ _ _ _ _ => rfl).map
      · exact closedParameters_follows s.ready s.left 0

theorem initialClause_follows (ready : p.Ready) (left : p.left = ts) :
    Follows low initialClause p (Grammar.initialClause ts) (ReadInitial p.nextId) := by
  have expression : ∀ {q}, Stands 0 p q ts → Follows low
      ((some ∘ Stmt.expr) <$> closed .semicolon .expressionEnd) q
      ((Grammar.closed .semicolon .expressionEnd ts).map fun e => some (.expr e))
      (ReadInitial p.nextId) := fun s => by
    rw [follows_map]
    exact ((closed_follows s.ready s.left .semicolon .expressionEnd).imp fun _ _ _ _ read =>
      (Read.expr (s.nextId ▸ read)).some).map
  cases ts with
  | nil =>
      refine follows_match_false ready left rfl fun q1 s1 => ?_
      refine follows_match_false s1.ready s1.left rfl fun q2 s2 => ?_
      exact expression (s1.trans s2)
  | cons t rest =>
      rw [Grammar.initialClause]
      split
      · next ht =>
          exact follows_match_true ready left ht fun q s _ => follows_pure s.ready s.left ⟨rfl, .nil⟩
      · next ht =>
          refine follows_match_false ready left (Bool.eq_false_iff.2 ht) fun q1 s1 => ?_
          rw [if_neg Bool.false_ne_true]
          split
          · next hv =>
              refine follows_match_true s1.ready s1.left hv fun q2 s2 _ => ?_
              rw [follows_widen, follows_map]
              refine ((variableDeclaration_follows s2.ready s2.left).imp fun _ _ _ _ read => ?_).map
              rw [s2.nextId, s1.nextId] at read
              exact read.some
          · next hv =>
              refine follows_match_false s1.ready s1.left (Bool.eq_false_iff.2 hv) fun q2 s2 => ?_
              exact expression (s1.trans s2)

theorem forClauses_follows (ready : p.Ready) (left : p.left = ts) :
    Follows low forClauses p (Grammar.forClauses ts) (ReadClauses p.nextId) := by
  refine (follows_expect ready left).bind ready fun _ _ q1 rest1 _ left1 ready1 _ numbers1 _ => ?_
  rw [follows_widen]
  refine (initialClause_follows ready1 left1).bind ready1 fun initial _ q2 rest2 _ left2 ready2 _
    numbers2 read2 => ?_
  rw [follows_widen]
  refine (optionallyClosed_follows ready2 left2 .semicolon .forConditionEnd).bind ready2
    fun condition _ q3 rest3 _ left3 ready3 _ numbers3 read3 => ?_
  rw [follows_widen, follows_map, bind_pure_comp]
  refine ((optionallyClosed_follows ready3 left3 .rightParen .forClose).imp
    fun _ _ _ more read4 => ?_).map
  exact (read2.clauses read3 read4 numbers2 numbers3 more).mono numbers1 (Nat.le_refl _)

theorem condition_follows (ready : p.Ready) (left : p.left = ts) (opening closing : GrammarError) :
    Follows low (condition opening closing) p (Grammar.condition opening closing ts)
      (Read p.nextId) := by
  refine (follows_expect ready left).bind ready fun _ _ q rest _ left ready _ numbers _ => ?_
  rw [follows_widen]
  exact (closed_follows ready left .rightParen closing).imp
    fun _ _ _ _ read => read.mono numbers (Nat.le_refl _)

theorem superclass_follows (ready : p.Ready) (left : p.left = ts) :
    Follows low superclass p (Grammar.superclass ts) (ReadOption p.nextId) := by
  cases ts with
  | nil =>
      exact follows_match_false ready left rfl fun q s => follows_pure s.ready s.left .none
  | cons t rest =>
      rw [Grammar.superclass]
      split
      · next ht =>
          refine follows_match_true ready left ht fun q s _ => ?_
          rw [follows_widen, map_eq_andThen]
          refine (follows_expectName s.ready s.left).bind s.ready fun name _ q' rest _ left ready _
            numbers eq => ?_
          subst eq
          show Follows _ _ q' ((Reply.keep (Expr.name name none) rest).map some) _
          rw [follows_map]
          refine ((occurrence_follows ready left).imp fun _ _ _ _ read => ?_).map
          exact Read.some (read.mono (s.nextId ▸ numbers) (Nat.le_refl _))
      · next ht =>
          exact follows_match_false ready left (Bool.eq_false_iff.2 ht) fun q s =>
            follows_pure s.ready s.left .none

/-! ## Skipping -/

/-- The previous token, where the tokens skipped begin, is in front of the cursor. -/
theorem skipToBoundary_eq {ts : List Token} : ∀ {p : Parser} {t : Token}, p.Ready → p.left = ts →
    p.tokens[p.current - 1]? = some t → ∃ k q, skipToBoundary p = some ((), q) ∧ Steps k p q ∧
      q.left = Grammar.skipToBoundary t ts := by
  induction ts with
  | nil =>
      intro p t ready left _
      obtain ⟨q, hq, steps⟩ := isAtEnd_eq ready
      rw [left] at hq
      refine ⟨0, q, ?_, steps, steps.left_eq.trans left⟩
      rw [skipToBoundary.eq_1]
      exact bind_eq hq
  | cons u rest ih =>
      intro p t ready left front
      obtain ⟨q1, hq1, steps1⟩ := isAtEnd_eq ready
      rw [left] at hq1
      have front1 : q1.tokens[q1.current - 1]? = some t := by
        rw [steps1.tokens, steps1.current]
        exact front
      obtain ⟨q2, hq2, steps2⟩ := previous_eq (steps1.ready ready) front1
      have steps := steps1.trans steps2
      have left2 : q2.left = u :: rest := steps.left_eq.trans left
      obtain ⟨q3, hq3, steps3⟩ := peek_left (steps.ready ready)
      rw [left2] at hq3
      have both := steps.trans steps3
      rw [skipToBoundary.eq_1, bind_eq hq1]
      show ∃ k q, (previous >>= _) q1 = _ ∧ _
      rw [bind_eq hq2, Grammar.skipToBoundary]
      by_cases hs : t.isSymbol .semicolon = true
      · rw [if_pos hs, if_pos (by rw [hs]; rfl)]
        exact ⟨_, q2, rfl, steps, left2⟩
      · rw [if_neg hs, bind_eq hq3]
        by_cases hu : u.startsStatement = true
        · refine ⟨_, q3, ?_, both, ?_⟩
          · rw [List.head?_cons, Option.getD_some, if_pos hu]
            rfl
          · rw [if_pos (by rw [hu, Bool.or_true])]
            exact both.left_eq.trans left
        · have left3 : q3.left = u :: rest := both.left_eq.trans left
          obtain ⟨q4, hq4, steps4, front4⟩ := advance_eq (both.ready ready) left3
          have all := both.trans steps4
          obtain ⟨k, r, hr, stepsr, leftr⟩ := ih (all.ready ready)
            (steps4.left_eq.trans (congrArg (List.drop 1) left3)) front4
          refine ⟨_, r, ?_, all.trans stepsr, ?_⟩
          · rw [List.head?_cons, Option.getD_some, if_neg hu]
            exact (bind_eq hq4).trans hr
          · rw [if_neg (by simp [hs, hu])]
            exact leftr

theorem synchronize_eq (ready : p.Ready) (left : p.left = ts) :
    ∃ k q, synchronize p = some ((), q) ∧ Steps k p q ∧ q.left = resume ts := by
  cases ts with
  | nil =>
      obtain ⟨_, q1, hq1, steps1⟩ := advance_end ready left
      obtain ⟨q2, hq2, steps2⟩ := isAtEnd_eq (steps1.ready ready)
      have both := steps1.trans steps2
      rw [steps1.left_eq, left] at hq2
      refine ⟨_, q2, (bind_eq hq1).trans ?_, both, both.left_eq.trans left⟩
      rw [skipToBoundary.eq_1]
      exact bind_eq hq2
  | cons t rest =>
      obtain ⟨q1, hq1, steps1, front⟩ := advance_eq ready left
      obtain ⟨k, q2, hq2, steps2, left2⟩ := skipToBoundary_eq (steps1.ready ready)
        (steps1.left_eq.trans (congrArg (List.drop 1) left)) front
      exact ⟨_, q2, (bind_eq hq1).trans hq2, steps1.trans steps2, left2⟩

theorem hasMore_eq (inBlock : Bool) (ready : p.Ready) :
    ∃ q, hasMore inBlock p =
        some (p.left.head?.any fun t => !(inBlock && t.isSymbol .rightBrace), q) ∧
      Steps 0 p q := by
  have atEnd : ∀ {q}, Steps 0 p q → ∃ q', (do pure !(← isAtEnd) : Stepping Bool) q =
      some (p.left.head?.any fun _ => true, q') ∧ Steps 0 p q' := fun {q} steps => by
    obtain ⟨q', hq', steps'⟩ := isAtEnd_eq (steps.ready ready)
    rw [steps.left_eq, List.drop_zero] at hq'
    refine ⟨q', (bind_eq hq').trans ?_, steps.trans steps'⟩
    cases p.left <;> rfl
  cases inBlock with
  | false => exact atEnd (.refl ready)
  | true =>
      obtain ⟨q, hq, steps⟩ := check_eq (·.isSymbol .rightBrace) ready
      obtain ⟨q', hq', steps'⟩ := atEnd steps
      cases hl : p.left with
      | nil =>
          rw [hl] at hq hq'
          exact ⟨q', (bind_eq hq).trans hq', steps'⟩
      | cons t rest =>
          rw [hl, List.head?_cons, Option.any_some] at hq hq'
          by_cases ht : t.isSymbol .rightBrace = true
          · rw [ht] at hq
            refine ⟨q, (bind_eq hq).trans ?_, steps⟩
            rw [List.head?_cons, Option.any_some, ht]
            rfl
          · rw [Bool.eq_false_iff.2 ht] at hq
            exact ⟨q', (bind_eq hq).trans (by simpa [ht] using hq'), steps'⟩

/-! ## One turn -/

/-- What a declaration failed with is reported, if it failed. -/
def failing (p : Parser) (failed : Option Complaint) : Parser :=
  { p with reports := p.reports ++ failed.toList.map fun c => ⟨p.locate c, true⟩ }

theorem failing_none (p : Parser) : p.failing none = p := by
  rw [failing, Option.toList_none, List.map_nil, List.append_nil]

/-- A declaration moved the cursor on, perhaps failed, and tokens were skipped then. Its turn is
finished, and starts in front of all that was declared inside it. -/
theorem Moves.turn {k : Nat} {noted : List Complaint} {failed : Option Complaint}
    (body : Moves (p.current + 1) p q noted) (skip : Steps k (q.failing failed) r)
    (on : p.current < r.current) :
    Moves p.current p { r with turns := r.turns ++ [⟨p.current, r.current⟩] }
      (noted ++ failed.toList) where
  tokens := skip.tokens.trans body.tokens
  forward := Nat.le_of_lt on
  inside := (ending_eq body.tokens) ▸ skip.inside
  numbers := skip.nextId ▸ body.numbers
  looks := body.looks.trans ⟨skip.looks.added⟩ body.forward
    (skip.current ▸ Nat.le_add_right q.current k)
  turns := by
    obtain ⟨new, eq, distinct, within, count⟩ := body.turns
    have stop : q.current ≤ r.current := skip.current ▸ Nat.le_add_right q.current k
    refine ⟨new ++ [⟨p.current, r.current⟩], ?_, ?_, ?_, ?_⟩
    · rw [← List.append_assoc, ← eq]
      exact congrArg (· ++ [⟨p.current, r.current⟩]) skip.turns
    · rw [List.map_append]
      refine List.Nodup.append distinct (List.nodup_singleton _) fun start hs hs' => ?_
      obtain ⟨t, ht, rfl⟩ := List.mem_map.1 hs
      have := (within t ht).1
      have : t.start = p.current := List.mem_singleton.1 hs'
      omega
    · intro t ht
      rcases List.mem_append.1 ht with ht | ht
      · have := within t ht
        exact ⟨by omega, this.2.1, Nat.le_trans this.2.2 stop⟩
      · obtain rfl := List.mem_singleton.1 ht
        exact ⟨Nat.le_refl _, on, Nat.le_refl _⟩
    · have added : r.unwound = q.unwound + failed.toList.length := by
        rw [unwound, unwound, skip.reports, failing, List.countP_append]
        cases failed <;> rfl
      have one : failed.toList.length ≤ 1 := by cases failed <;> simp
      rw [List.length_append, List.length_singleton]
      show r.unwound ≤ _
      omega
  reports := by
    obtain ⟨new, eq, errors⟩ := body.reports
    refine ⟨new ++ failed.toList.map fun c => ⟨q.locate c, true⟩, ?_, ?_⟩
    · rw [← List.append_assoc, ← eq]
      exact skip.reports
    · rw [List.map_append, errors, located, located, List.map_append, ← body.tokens]
      cases failed <;> rfl

/-- A declaration follows what is declared: it gives the statement, or drops what failed. Either way
it moves on. -/
def TakesTurn (p : Parser) {n : Nat} : Reply Stmt n → Prop
  | .parsed b rest reports _ => ∃ s q, declaration p = some (some s, q) ∧ p.current < q.current ∧
      q.left = rest ∧ Moves p.current p q reports ∧ ReadStmt p.nextId q.nextId s b
  | .refused rest reports reason _ => ∃ q, declaration p = some (none, q) ∧ p.current < q.current ∧
      q.left = resume rest ∧ Moves p.current p q (reports ++ [reason])

theorem declaration_takesTurn {t : Token} {rest : List Token} {reply : Reply Stmt (rest.length + 1)}
    (ready : p.Ready) (left : p.left = t :: rest)
    (h : Follows (p.current + 1) declared p reply (ReadStmt p.nextId)) : TakesTurn p reply := by
  have on : ∀ {r : Parser}, r.current + r.left.length = p.current + p.left.length →
      r.left.length ≤ rest.length → p.current < r.current := fun same shorter => by
    rw [left, List.length_cons] at same
    omega
  have run : ∀ {result q}, declared.run p = some (result, q) → declaration p = (do
      let s ← recovered result
      finishTurn p.current
      pure s : Stepping (Option Stmt)) q := fun h => by
    rw [declaration.eq_1]
    exact (bind_eq (rfl : (get : Stepping Parser) p = some (p, p))).trans (bind_eq h)
  cases reply with
  | parsed b rest' reports shorter =>
      obtain ⟨s, q, hq, left', moves, read⟩ := h
      have skip : Steps 0 (q.failing none) q := by
        rw [failing_none]
        exact .refl (moves.ready ready)
      have further := on (moves.current_add_left ready) (left' ▸ Nat.le_of_lt_succ shorter)
      have turn := moves.turn skip further
      refine ⟨s, _, (run hq).trans rfl, further, left', ?_, read⟩
      rwa [Option.toList_none, List.append_nil] at turn
  | refused rest' reports reason notLonger =>
      obtain ⟨q, hq, left', moves⟩ := h
      have ready' : (q.failing (some reason)).Ready :=
        ⟨(moves.ready ready).hasEnd, (moves.ready ready).inside⟩
      obtain ⟨k, r, hr, steps, left''⟩ := synchronize_eq ready' left'
      have located : p.locate reason = q.locate reason := by rw [locate, locate, moves.tokens]
      have same := (steps.moves : Moves 0 _ r []).current_add_left ready'
      have further := on (same.trans (moves.current_add_left ready))
        (left'' ▸ resume_length_le notLonger)
      refine ⟨{ r with turns := r.turns ++ [⟨p.current, r.current⟩] }, ?_, further, left'',
        moves.turn steps further⟩
      have recover : recovered (.error (q.locate reason)) q = some (none, r) :=
        (bind_eq (rfl : _ = some ((), q.failing (some reason)))).trans (bind_eq hr)
      rw [run hq, located]
      exact bind_eq recover

/-! ## Productions -/

theorem statement_eq : statement = firstMatch
    [((·.isSymbol .forWord), do
        let clauses ← forClauses
        let body ← statement
        pure (clauses.toStmt body)),
      ((·.isSymbol .ifWord), do
        let test ← condition .ifOpen .ifClose
        let consequent ← statement
        alternative test consequent),
      ((·.isSymbol .whileWord), do
        let test ← condition .whileOpen .whileClose
        let body ← statement
        pure (.whileDo test body)),
      ((·.isSymbol .returnWord), do
        let keyword ← previous
        let value ← optionallyClosed .semicolon .returnEnd
        pure (.returning keyword value)),
      ((·.isSymbol .leftBrace), do
        let body ← block
        pure (.block body)),
      ((·.isSymbol .printWord), do
        let value ← closed .semicolon .printEnd
        pure (.print value))] (do
    let value ← closed .semicolon .expressionEnd
    pure (.expr value)) := statement.eq_1

theorem declared_eq : declared = firstMatch
    [((·.isSymbol .classWord), classBody),
      ((·.isSymbol .funWord), do
        let f ← routine .function
        pure (.function f)),
      ((·.isSymbol .varWord), variableDeclaration)] statement := declared.eq_1

theorem isSymbol_of_ne {s : Symbol} (h : t.kind ≠ .symbol s) : t.isSymbol s = false :=
  Bool.eq_false_iff.2 fun h' => h (Token.isSymbol_iff.1 h')

section Starts

variable {n : Nat} (left : p.left = ts)
  (same : q.current + rest.length = p.current + p.left.length)

include left same

theorem start_of_notLonger (start : low ≤ p.current + 1) (notLonger : rest.length ≤ ts.length) :
    max low q.current ≤ q.current + 1 := by
  rw [left] at same
  omega

theorem start_of_shorter (start : low ≤ p.current + 1) (shorter : rest.length < ts.length) :
    max low q.current ≤ q.current := by
  rw [left] at same
  omega

end Starts

mutual

/-- Declarations in a statement start behind its first token. -/
theorem statement_follows {p : Parser} {low : Nat} {ts : List Token} (ready : p.Ready)
    (left : p.left = ts) (start : low ≤ p.current + 1) :
    Follows low statement p (Grammar.statement ts) (ReadStmt p.nextId) := by
  have expression : ∀ q, Stands 0 p q ts → Follows low (do
      let value ← closed .semicolon .expressionEnd
      pure (.expr value)) q ((Grammar.closed .semicolon .expressionEnd ts).map .expr)
        (ReadStmt p.nextId) := fun q s => by
    rw [follows_map, bind_pure_comp]
    exact ((closed_follows s.ready s.left .semicolon .expressionEnd).imp fun _ _ _ _ read =>
      (s.nextId ▸ read).expr).map
  rw [statement_eq]
  match ts, left with
  | [], left =>
      rw [Grammar.statement]
      exact follows_firstMatch_none ready left (fun _ _ => rfl) expression
  | t :: rest, left =>
      rw [Grammar.statement]
      split
      · next hk =>
          rw [follows_widen]
          refine follows_firstMatch 0 ready left rfl nofun (Token.isSymbol_iff.2 hk)
            fun q1 s1 _ => ?_
          refine (forClauses_follows s1.ready s1.left).bind s1.ready
            fun clauses _ q2 rest2 shorter left2 ready2 same numbers read => ?_
          rw [follows_widen, follows_map, bind_pure_comp]
          refine ((statement_follows ready2 left2 (start_of_notLonger s1.left same
            (by rw [s1.current]; omega) (Nat.le_of_lt shorter))).imp fun _ _ _ more body => ?_).map
          exact (read.toStmt body numbers more).mono (Nat.le_of_eq s1.nextId.symm) (Nat.le_refl _)
      · next hk =>
          rw [follows_widen]
          refine follows_firstMatch 1 ready left rfl (by simp [Token.isSymbol, hk])
            (Token.isSymbol_iff.2 hk) fun q1 s1 _ => ?_
          refine (condition_follows s1.ready s1.left .ifOpen .ifClose).bind s1.ready
            fun test _ q2 rest2 shorter left2 ready2 same numbers read => ?_
          rw [follows_widen]
          have start2 : max low q2.current ≤ q2.current + 1 :=
            start_of_notLonger s1.left same (by rw [s1.current]; omega) (Nat.le_of_lt shorter)
          refine (statement_follows ready2 left2 start2).bind ready2
            fun consequent _ q3 rest3 shorter3 left3 ready3 same3 numbers3 read3 => ?_
          refine (alternative_follows ready3 left3 (start_of_notLonger left2 same3 start2
            (Nat.le_of_lt shorter3)) (read.ifThen read3 numbers numbers3)
            (Nat.le_trans numbers numbers3)).imp fun _ _ _ _ read => ?_
          exact read.mono (Nat.le_of_eq s1.nextId.symm) (Nat.le_refl _)
      · next hk =>
          rw [follows_widen]
          refine follows_firstMatch 2 ready left rfl (by simp [Token.isSymbol, hk])
            (Token.isSymbol_iff.2 hk) fun q1 s1 _ => ?_
          refine (condition_follows s1.ready s1.left .whileOpen .whileClose).bind s1.ready
            fun test _ q2 rest2 shorter left2 ready2 same numbers read => ?_
          rw [follows_widen, follows_map, bind_pure_comp]
          refine ((statement_follows ready2 left2 (start_of_notLonger s1.left same
            (by rw [s1.current]; omega) (Nat.le_of_lt shorter))).imp fun _ _ _ more body => ?_).map
          exact (read.whileDo body numbers more).mono (Nat.le_of_eq s1.nextId.symm) (Nat.le_refl _)
      · next hk =>
          rw [follows_widen, returnValue, follows_map]
          refine follows_firstMatch 3 ready left rfl (by simp [Token.isSymbol, hk])
            (Token.isSymbol_iff.2 hk) fun q1 s1 front => ?_
          refine follows_previous s1.ready s1.left front fun q2 s2 => ?_
          rw [bind_pure_comp]
          refine ((optionallyClosed_follows s2.ready s2.left .semicolon .returnEnd).imp
            fun _ _ _ _ read => ?_).map
          exact ((s2.nextId.trans s1.nextId) ▸ read).returning
      · next hk =>
          rw [follows_widen, follows_map]
          refine follows_firstMatch 4 ready left rfl (by simp [Token.isSymbol, hk])
            (Token.isSymbol_iff.2 hk) fun q1 s1 _ => ?_
          rw [bind_pure_comp]
          exact ((block_follows s1.ready s1.left (s1.current ▸ start)).imp fun _ _ _ _ read =>
            (s1.nextId ▸ read).block).map
      · next hk =>
          rw [follows_widen, follows_map]
          refine follows_firstMatch 5 ready left rfl (by simp [Token.isSymbol, hk])
            (Token.isSymbol_iff.2 hk) fun q1 s1 _ => ?_
          rw [bind_pure_comp]
          exact ((closed_follows s1.ready s1.left .semicolon .printEnd).imp fun _ _ _ _ read =>
            (s1.nextId ▸ read).print).map
      · next =>
          refine follows_firstMatch_none ready left ?_ expression
          simp only [List.forall_mem_cons, List.head?_cons, Option.any_some]
          exact ⟨isSymbol_of_ne ‹_›, isSymbol_of_ne ‹_›, isSymbol_of_ne ‹_›, isSymbol_of_ne ‹_›,
            isSymbol_of_ne ‹_›, isSymbol_of_ne ‹_›, nofun⟩
termination_by 8 * ts.length + 1
decreasing_by all_goals simp only [List.length_cons] at *; omega

theorem alternative_follows {p : Parser} {low since : Nat} {ts : List Token} {e b : Expr}
    {s s' : Stmt} (ready : p.Ready) (left : p.left = ts) (start : low ≤ p.current + 1)
    (read : ReadStmt since p.nextId (.ifThen e s) (.ifThen b s')) (numbers : since ≤ p.nextId) :
    Follows low (alternative e s) p (Grammar.alternative b s' ts) (ReadStmt since) := by
  rw [alternative.eq_1]
  match ts, left with
  | [], left =>
      rw [Grammar.alternative]
      exact follows_match_false ready left rfl fun q s => follows_pure s.ready s.left
        (s.nextId ▸ read)
  | t :: rest, left =>
      rw [Grammar.alternative]
      split
      · next ht =>
          rw [follows_widen, follows_map]
          refine follows_match_true ready left ht fun q s _ => ?_
          rw [if_pos rfl, bind_pure_comp]
          refine ((statement_follows s.ready s.left (by rw [s.current]; omega)).imp
            fun _ _ _ more other => ?_).map
          rw [s.nextId] at other more
          exact read.ifElse other numbers more
      · next ht =>
          exact follows_match_false ready left (Bool.eq_false_iff.2 ht) fun q s =>
            follows_pure s.ready s.left (s.nextId ▸ read)
termination_by 8 * ts.length
decreasing_by simp only [List.length_cons] at *; omega

theorem block_follows {p : Parser} {low : Nat} {ts : List Token} (ready : p.Ready)
    (left : p.left = ts) (start : low ≤ p.current) :
    Follows low block p (Grammar.block ts) (ReadStmts p.nextId) := by
  obtain ⟨ss, q, hq, left', moves, read⟩ := declarations_follows ready left true
  have body : (Except.ok <$> declarations true : Stepping (Except (Located GrammarError) _)) p =
      some (.ok ss, q) := by
    show (declarations true p).bind _ = _
    rw [hq]
    rfl
  have run : block.run p =
      ((fun _ => ss) <$> consume (·.isSymbol .rightBrace) .blockClose).run q := by
    rw [block.eq_1, ← bind_pure_comp]
    exact bind_eq body
  rw [Grammar.block, follows_widen]
  refine .of_moves (moves.mono start) run ?_
  rw [follows_map]
  exact ((follows_expect (moves.ready ready) left').imp fun _ _ _ more _ =>
    read.mono (Nat.le_refl _) more).map
termination_by 8 * ts.length + 4

/-- The declarations of a loop start where the loop does, or behind that. -/
theorem declarations_follows {p : Parser} {ts : List Token} (ready : p.Ready)
    (left : p.left = ts) (inBlock : Bool) :
    ∃ ss q, declarations inBlock p = some (ss, q) ∧
      q.left = (Grammar.declarations inBlock ts).rest ∧
      Moves p.current p q (Grammar.declarations inBlock ts).reports ∧
      ReadStmts p.nextId q.nextId ss (Grammar.declarations inBlock ts).stmts := by
  obtain ⟨q1, hq1, steps⟩ := hasMore_eq inBlock ready
  have s1 := steps.stands ready
  rw [left] at hq1 s1
  rw [declarations.eq_1, bind_eq hq1]
  match ts, left with
  | [], left =>
      rw [Grammar.declarations]
      exact ⟨[], q1, rfl, s1.left, steps.moves, .nil⟩
  | t :: rest, left =>
      rw [Grammar.declarations, List.head?_cons, Option.any_some]
      by_cases h : (inBlock && t.isSymbol .rightBrace) = true
      · rw [if_pos h, h]
        exact ⟨[], q1, rfl, s1.left, steps.moves, .nil⟩
      · rw [if_neg h, Bool.eq_false_iff.2 h, Bool.not_false, if_pos rfl]
        have turn := declaration_takesTurn s1.ready s1.left
          (declared_follows s1.ready s1.left (Nat.le_refl _))
        split
        · next stmt rest' reports shorter hreply =>
            rw [hreply] at turn
            obtain ⟨s, q2, hq2, -, left2, moves2, read2⟩ := turn
            rw [s1.nextId] at read2
            have moves := steps.then moves2
            obtain ⟨ss, q3, hq3, left3, moves3, read3⟩ :=
              declarations_follows (moves2.ready s1.ready) left2 inBlock
            refine ⟨s :: ss, q3, (bind_eq hq2).trans (bind_eq hq3), left3, ?_, ?_⟩
            · exact (s1.current ▸ moves).trans moves3 moves.forward (Nat.le_refl _)
            · exact ReadStmts.cons read2 read3 moves.numbers moves3.numbers
        · next rest' reports reason notLonger hreply =>
            rw [hreply] at turn
            obtain ⟨q2, hq2, -, left2, moves2⟩ := turn
            have moves := steps.then moves2
            have shorter := resume_length_le notLonger
            obtain ⟨ss, q3, hq3, left3, moves3, read3⟩ :=
              declarations_follows (moves2.ready s1.ready) left2 inBlock
            refine ⟨ss, q3, (bind_eq hq2).trans (bind_eq hq3), left3, ?_, ?_⟩
            · have all := Moves.trans (s1.current ▸ moves) moves3 moves.forward (Nat.le_refl _)
              rwa [List.append_assoc, List.singleton_append] at all
            · exact read3.mono moves.numbers (Nat.le_refl _)
termination_by 8 * ts.length + 3
decreasing_by all_goals simp only [List.length_cons]; omega

theorem declared_follows {p : Parser} {low : Nat} {t : Token} {rest : List Token} (ready : p.Ready)
    (left : p.left = t :: rest) (start : low ≤ p.current + 1) :
    Follows low declared p (Grammar.declaration t rest) (ReadStmt p.nextId) := by
  rw [declared_eq, Grammar.declaration]
  split
  · next hk =>
      rw [follows_widen]
      exact follows_firstMatch 0 ready left rfl nofun (Token.isSymbol_iff.2 hk) fun q s _ =>
        s.nextId ▸ classBody_follows s.ready s.left (by rw [s.current]; omega)
  · next hk =>
      rw [follows_widen, follows_map]
      refine follows_firstMatch 1 ready left rfl (by simp [Token.isSymbol, hk])
        (Token.isSymbol_iff.2 hk) fun q s _ => ?_
      rw [bind_pure_comp]
      exact ((routine_follows s.ready s.left (by rw [s.current]; omega) .function).imp
        fun _ _ _ _ read => (s.nextId ▸ read).function).map
  · next hk =>
      rw [follows_widen]
      exact follows_firstMatch 2 ready left rfl (by simp [Token.isSymbol, hk])
        (Token.isSymbol_iff.2 hk) fun q s _ =>
          s.nextId ▸ variableDeclaration_follows s.ready s.left
  · next =>
      refine follows_firstMatch_none ready left ?_ fun q s =>
        s.nextId ▸ statement_follows s.ready s.left (s.current ▸ start)
      simp only [List.forall_mem_cons, List.head?_cons, Option.any_some]
      exact ⟨isSymbol_of_ne ‹_›, isSymbol_of_ne ‹_›, isSymbol_of_ne ‹_›, nofun⟩
termination_by 8 * (rest.length + 1) + 2

theorem classBody_follows {p : Parser} {low : Nat} {ts : List Token} (ready : p.Ready)
    (left : p.left = ts) (start : low ≤ p.current + 1) :
    Follows low classBody p (Grammar.classBody ts) (ReadStmt p.nextId) := by
  rw [classBody.eq_1, Grammar.classBody]
  refine (follows_expectName ready left).bind ready fun name _ q1 rest1 shorter1 left1 ready1 same1
    numbers1 eq => ?_
  subst eq
  refine (superclass_follows ready1 left1).bind ready1 fun parent _ q2 rest2 shorter2 left2 ready2
    same2 numbers2 read2 => ?_
  rw [follows_widen]
  refine (follows_expect ready2 left2).bind ready2 fun _ _ q3 rest3 shorter3 left3 ready3 same3
    numbers3 _ => ?_
  have start1 := start_of_notLonger left same1 start (Nat.le_of_lt shorter1)
  have start2 := start_of_notLonger left1 same2 start1 (Nat.le_of_lt_succ shorter2)
  have start3 := start_of_notLonger left2 same3 start2 (Nat.le_of_lt shorter3)
  refine (methods_follows ready3 left3 start3).bind ready3 fun list _ q4 rest4 _ left4 ready4 _
    numbers4 read4 => ?_
  rw [follows_widen, follows_map, bind_pure_comp]
  refine ((follows_expect ready4 left4).imp fun _ _ _ more _ => ?_).map
  have parent : ReadOption _ _ _ _ := read2.mono (Nat.le_refl _) numbers3
  exact (ReadOption.classDecl parent (read4.mono (Nat.le_refl _) more) (Nat.le_trans numbers2 numbers3)
    (Nat.le_trans numbers4 more)).mono numbers1 (Nat.le_refl _)
termination_by 8 * ts.length + 7

theorem methods_follows {p : Parser} {low : Nat} {ts : List Token} (ready : p.Ready)
    (left : p.left = ts) (start : low ≤ p.current + 1) :
    Follows low methods p (Grammar.methods ts) (ReadRoutines p.nextId) := by
  obtain ⟨q1, hq1, steps⟩ := hasMore_eq true ready
  have s1 := steps.stands ready
  rw [left] at hq1 s1
  rw [methods.eq_1]
  refine .of_steps steps (lift_bind_eq hq1) ?_
  match ts, left with
  | [], left =>
      rw [Grammar.methods]
      exact follows_pure s1.ready s1.left .nil
  | t :: rest, left =>
      rw [Grammar.methods, List.head?_cons, Option.any_some, Bool.true_and]
      by_cases h : t.isSymbol .rightBrace = true
      · rw [if_pos h, h]
        exact follows_pure s1.ready s1.left ReadRoutines.nil
      · rw [if_neg h, Bool.eq_false_iff.2 h, Bool.not_false, if_pos rfl, follows_widen]
        have start1 : low ≤ q1.current + 1 := s1.current ▸ start
        refine (routine_follows s1.ready s1.left start1 .method).bind s1.ready
          fun f _ q2 rest2 shorter left2 ready2 same numbers read => ?_
        have shorter2 : rest2.length ≤ rest.length := Nat.le_of_lt_succ shorter
        rw [follows_map, bind_pure_comp]
        refine ((methods_follows ready2 left2 (start_of_notLonger s1.left same start1
          (Nat.le_of_lt shorter))).imp fun _ _ _ more list => ?_).map
        exact s1.nextId ▸ ReadRoutines.cons read list numbers more
termination_by 8 * ts.length + 6

theorem routine_follows {p : Parser} {low : Nat} {ts : List Token} (ready : p.Ready)
    (left : p.left = ts) (start : low ≤ p.current + 1) (what : Routine) :
    Follows low (routine what) p (Grammar.routine what ts) (ReadRoutine p.nextId) := by
  rw [routine.eq_1, Grammar.routine]
  refine (follows_expectName ready left).bind ready fun name _ q1 rest1 shorter1 left1 ready1 same1
    numbers1 eq => ?_
  subst eq
  rw [follows_widen]
  refine (follows_expect ready1 left1).bind ready1 fun _ _ q2 rest2 shorter2 left2 ready2
    same2 numbers2 _ => ?_
  rw [follows_widen]
  refine (parameters_follows ready2 left2).bind ready2 fun list _ q3 rest3 shorter3 left3 ready3
    same3 numbers3 eq => ?_
  subst eq
  rw [follows_widen]
  refine (follows_expect ready3 left3).bind ready3 fun _ _ q4 rest4 shorter4 left4 ready4
    same4 numbers4 _ => ?_
  rw [follows_widen, follows_map, bind_pure_comp]
  have start1 := start_of_notLonger left same1 start (Nat.le_of_lt shorter1)
  have start2 := start_of_notLonger left1 same2 start1 (Nat.le_of_lt shorter2)
  have start3 := start_of_notLonger left2 same3 start2 (Nat.le_of_lt shorter3)
  have numbers : p.nextId ≤ q4.nextId :=
    Nat.le_trans numbers1 (Nat.le_trans numbers2 (Nat.le_trans numbers3 numbers4))
  exact ((block_follows ready4 left4 (start_of_shorter left3 same4 start3 shorter4)).imp
    fun _ _ _ _ read => read.routine.mono numbers (Nat.le_refl _)).map
termination_by 8 * ts.length + 5

end

end Parser

end LoxLang
