import LoxLang.Proofs.Formed

/-!
# Trees that were read with errors are formed too

Parts of a program with errors are dropped, and what is left is read like any
other program. So the trees that come out are formed whatever the errors, if
only the tokens are spelled like their kinds.
-/

namespace LoxLang

open LoxLang.Derivation

namespace Reply

variable {α β : Type} {n m : Nat}

/-- A value that is read has the property, and what is left is spelled like its kinds. -/
def Gives (P : α → Prop) : Reply α n → Prop
  | parsed v rest _ _ => P v ∧ Spelled rest
  | refused rest _ _ _ => Spelled rest

variable {P : α → Prop} {Q : β → Prop} {r : Reply α n}

theorem Gives.andThen {next : (v : α) → (mid : List Token) → mid.length < n →
    Reply β (mid.length + 1)} (h : r.Gives P)
    (h' : ∀ v mid lt, P v → Spelled mid → (next v mid lt).Gives Q) : (r.andThen next).Gives Q := by
  cases r with
  | refused => exact h
  | parsed v mid reports lt =>
      have := h' v mid lt h.1 h.2
      simp only [Reply.andThen]
      cases hn : next v mid lt <;> rwa [hn] at this

theorem Gives.map {f : α → β} (h : r.Gives P) (h' : ∀ v, P v → Q (f v)) : (r.map f).Gives Q := by
  cases r with
  | refused => exact h
  | parsed v mid reports lt => exact ⟨h' v h.1, h.2⟩

theorem Gives.widen (h : r.Gives P) (wider : n ≤ m) : (r.widen wider).Gives P := by
  cases r <;> exact h

theorem Gives.noting (h : r.Gives P) (earlier : List Complaint) : (r.noting earlier).Gives P := by
  cases r <;> exact h

theorem gives_keep {v : α} {ts : List Token} (hv : P v) (h : Spelled ts) :
    (keep v ts).Gives P := ⟨hv, h⟩

end Reply

namespace Grammar

open Reply

variable {ts : List Token}

/-! ## Expressions -/

theorem expect_gives {s : Symbol} {error : GrammarError} (h : Spelled ts) :
    (expect s error ts).Gives fun _ => True := by
  cases ts with
  | nil => exact h
  | cons t rest =>
      rw [expect]
      split
      · exact ⟨trivial, (spelled_cons.1 h).2⟩
      · exact h

theorem expectName_gives {error : GrammarError} (h : Spelled ts) :
    (expectName error ts).Gives Token.IsName := by
  cases ts with
  | nil => exact h
  | cons t rest =>
      rw [expectName]
      split
      · next hk => exact ⟨(spelled_cons.1 h).1.isName hk, (spelled_cons.1 h).2⟩
      · exact h

theorem assigned_formed {target value : Expr} (ht : target.Formed) (hv : value.Formed)
    (equals : Token) : (assigned target equals value).1.Formed := by
  unfold assigned
  split
  · exact ⟨ht.1, rfl, hv⟩
  · exact ⟨ht, hv⟩
  · exact ht

theorem Level.node_formed {left right : Expr} (hl : left.Formed) (hr : right.Formed) (level : Level)
    (operator : Token) : (level.node left operator right).Formed := by
  cases level <;> exact ⟨hl, hr⟩

mutual

theorem expression_gives {ts : List Token} (h : Spelled ts) :
    (expression ts).Gives Expr.Formed := by
  rw [expression]
  refine .andThen (binary_gives .or h) fun target mid lt ht hm => ?_
  cases mid with
  | nil => exact gives_keep ht hm
  | cons t rest =>
      dsimp only
      split
      · refine .widen (.andThen (expression_gives (spelled_cons.1 hm).2) fun value _ _ hv h => ?_) _
        exact ⟨assigned_formed ht hv t, h⟩
      · exact gives_keep ht hm
termination_by 32 * ts.length + 20
decreasing_by all_goals simp only [List.length_cons, Level.height] at *; omega

theorem binary_gives (level : Level) {ts : List Token} (h : Spelled ts) :
    (binary level ts).Gives Expr.Formed := by
  rw [binary]
  exact .andThen (operand_gives level h) fun left rest _ hl hm => binaryRest_gives level hl hm
termination_by 32 * ts.length + 2 * level.height + 5
decreasing_by all_goals omega

theorem operand_gives (level : Level) {ts : List Token} (h : Spelled ts) :
    (operand level ts).Gives Expr.Formed := by
  rw [operand]
  split
  · next tighter ht =>
      have := Level.height_lt_of_tighter ht
      exact binary_gives tighter h
  · exact unary_gives h
termination_by 32 * ts.length + 2 * level.height + 4
decreasing_by all_goals omega

theorem binaryRest_gives (level : Level) {left : Expr} (hl : left.Formed) {ts : List Token}
    (h : Spelled ts) : (binaryRest level left ts).Gives Expr.Formed := by
  match ts, h with
  | [], h => rw [binaryRest]; exact gives_keep hl h
  | t :: rest, h =>
      rw [binaryRest]
      split
      · exact .widen (.andThen (operand_gives level (spelled_cons.1 h).2) fun right _ _ hr hm =>
          binaryRest_gives level (Level.node_formed hl hr level t) hm) _
      · exact gives_keep hl h
termination_by 32 * ts.length
decreasing_by
  all_goals
    have : level.height ≤ 5 := by cases level <;> decide
    simp only [List.length_cons] at *
    omega

theorem unary_gives {ts : List Token} (h : Spelled ts) : (unary ts).Gives Expr.Formed := by
  match ts, h with
  | [], h => rw [unary]; exact call_gives h
  | t :: rest, h =>
      rw [unary]
      split
      · refine .widen (.map (unary_gives (spelled_cons.1 h).2) fun e he => ?_) _
        exact he
      · exact call_gives h
termination_by 32 * ts.length + 3
decreasing_by all_goals (try simp only [List.length_cons] at *); omega

theorem call_gives {ts : List Token} (h : Spelled ts) : (call ts).Gives Expr.Formed := by
  rw [call]
  exact .andThen (primary_gives h) fun e _ _ he hm => callRest_gives he hm
termination_by 32 * ts.length + 2
decreasing_by all_goals omega

theorem callRest_gives {e : Expr} (he : e.Formed) {ts : List Token} (h : Spelled ts) :
    (callRest e ts).Gives Expr.Formed := by
  match ts, h with
  | [], h => rw [callRest]; exact gives_keep he h
  | t :: rest, h =>
      rw [callRest]
      split
      · exact .widen (.andThen (arguments_gives (spelled_cons.1 h).2) fun _ _ _ ha hm =>
          callRest_gives (e := .call ..) ⟨he, ha⟩ hm) _
      · split
        · exact .widen (.andThen (expectName_gives (spelled_cons.1 h).2) fun _ _ _ _ hm =>
            callRest_gives (e := .get ..) he hm) _
        · exact gives_keep he h
termination_by 32 * ts.length
decreasing_by all_goals simp only [List.length_cons] at *; omega

theorem arguments_gives {ts : List Token} (h : Spelled ts) :
    (arguments ts).Gives fun a => Expr.FormedAll a.1 := by
  match ts, h with
  | [], h => rw [arguments]; exact someArguments_gives 0 h
  | t :: rest, h =>
      rw [arguments]
      split
      · exact ⟨trivial, (spelled_cons.1 h).2⟩
      · exact someArguments_gives 0 h
termination_by 32 * ts.length + 22
decreasing_by all_goals (try simp only [List.length_cons] at *); omega

theorem someArguments_gives (count : Nat) {ts : List Token} (h : Spelled ts) :
    (someArguments count ts).Gives fun a => Expr.FormedAll a.1 := by
  rw [someArguments]
  refine .noting (.andThen (expression_gives h) fun e mid _ he hm => ?_) _
  cases mid with
  | nil => exact .map (.widen (expect_gives hm) _) fun _ _ => ⟨he, trivial⟩
  | cons t rest =>
      dsimp only
      split
      · exact .widen (.map (someArguments_gives (count + 1) (spelled_cons.1 hm).2)
          fun _ hl => ⟨he, hl⟩) _
      · exact .widen (.map (expect_gives hm) fun _ _ => ⟨he, trivial⟩) _
termination_by 32 * ts.length + 21
decreasing_by all_goals (try simp only [List.length_cons] at *); omega

theorem primary_gives {ts : List Token} (h : Spelled ts) : (primary ts).Gives Expr.Formed := by
  match ts, h with
  | [], h => rw [primary]; exact h
  | t :: rest, h =>
      obtain ⟨ht, hr⟩ := spelled_cons.1 h
      rw [primary]
      split
      case h_6 hk => exact ⟨⟨ht.lexeme_eq hk, rfl⟩, hr⟩
      case h_7 hk => exact ⟨⟨ht.isName hk, rfl⟩, hr⟩
      case h_8 hk =>
        exact .widen (.andThen (expect_gives hr) fun _ _ _ _ hm =>
          .widen (.map (expectName_gives hm) fun _ _ => ⟨ht.lexeme_eq hk, rfl⟩) _) _
      case h_9 =>
        refine .widen (.andThen (expression_gives hr) fun _ _ _ he hm =>
          .widen (.map (expect_gives hm) fun _ _ => ?_) _) _
        exact he
      case h_10 => exact h
      all_goals exact ⟨trivial, hr⟩
termination_by 32 * ts.length + 1
decreasing_by all_goals simp only [List.length_cons]; omega

end

/-! ## Parts of statements -/

theorem closed_gives {s : Symbol} {error : GrammarError} (h : Spelled ts) :
    (closed s error ts).Gives Expr.Formed :=
  .andThen (expression_gives h) fun _ _ _ he hm => .widen (.map (expect_gives hm) fun _ _ => he) _

theorem formedOpt_none : Expr.FormedOpt none := fun _ he => absurd he (Option.not_mem_none _)

theorem formedOpt_some {e : Expr} (h : e.Formed) : Expr.FormedOpt (some e) := by
  rintro _ ⟨⟩
  exact h

theorem optionallyClosed_gives {s : Symbol} {error : GrammarError} (h : Spelled ts) :
    (optionallyClosed s error ts).Gives Expr.FormedOpt := by
  cases ts with
  | nil => exact .map (closed_gives h) fun _ => formedOpt_some
  | cons t rest =>
      rw [optionallyClosed]
      split
      · exact ⟨formedOpt_none, (spelled_cons.1 h).2⟩
      · exact .map (closed_gives h) fun _ => formedOpt_some

theorem someParameters_gives (count : Nat) {ts : List Token} (h : Spelled ts) :
    (someParameters count ts).Gives fun ps => ∀ p ∈ ps, p.IsName := by
  rw [someParameters]
  refine .noting (.andThen (expectName_gives h) fun p mid _ hp hm => ?_) _
  have only : ∀ x ∈ [p], x.IsName := List.forall_mem_singleton.2 hp
  cases mid with
  | nil => exact .widen (.map (expect_gives hm) fun _ _ => only) _
  | cons t rest =>
      dsimp only
      split
      · exact .widen (.map (someParameters_gives (count + 1) (spelled_cons.1 hm).2)
          fun _ hl => List.forall_mem_cons.2 ⟨hp, hl⟩) _
      · exact .widen (.map (expect_gives hm) fun _ _ => only) _
termination_by ts.length
decreasing_by simp only [List.length_cons] at *; omega

theorem parameters_gives (h : Spelled ts) :
    (parameters ts).Gives fun ps => ∀ p ∈ ps, p.IsName := by
  cases ts with
  | nil => exact someParameters_gives 0 h
  | cons t rest =>
      rw [parameters]
      split
      · exact ⟨List.forall_mem_nil _, (spelled_cons.1 h).2⟩
      · exact someParameters_gives 0 h

theorem variableDeclaration_gives (h : Spelled ts) :
    (variableDeclaration ts).Gives Stmt.Formed := by
  refine .andThen (expectName_gives h) fun x mid _ hx hm => ?_
  cases mid with
  | nil => exact .widen (.map (expect_gives hm) fun _ _ => ⟨hx, formedOpt_none⟩) _
  | cons t rest =>
      dsimp only
      split
      · exact .widen (.andThen (expression_gives (spelled_cons.1 hm).2) fun _ _ _ he h =>
          .widen (.map (expect_gives h) fun _ _ => ⟨hx, formedOpt_some he⟩) _) _
      · exact .widen (.map (expect_gives hm) fun _ _ => ⟨hx, formedOpt_none⟩) _

theorem initialClause_gives (h : Spelled ts) :
    (initialClause ts).Gives fun o => ∀ s ∈ o, s.Formed := by
  have some {s : Stmt} (hs : s.Formed) : ∀ s' ∈ some s, s'.Formed := by
    rintro _ ⟨⟩
    exact hs
  cases ts with
  | nil => exact .map (closed_gives h) fun _ he => some he
  | cons t rest =>
      rw [initialClause]
      split
      · exact ⟨by simp, (spelled_cons.1 h).2⟩
      · split
        · exact .widen (.map (variableDeclaration_gives (spelled_cons.1 h).2) fun _ => some) _
        · exact .map (closed_gives h) fun _ he => some he

/-- The clauses of a loop are formed. -/
structure ForClauses.Formed (clauses : ForClauses) : Prop where
  initial : ∀ s ∈ clauses.initial, s.Formed
  condition : Expr.FormedOpt clauses.condition
  increment : Expr.FormedOpt clauses.increment

theorem forClauses_gives (h : Spelled ts) : (forClauses ts).Gives ForClauses.Formed :=
  .andThen (expect_gives h) fun _ _ _ _ h =>
    .widen (.andThen (initialClause_gives h) fun _ _ _ hi h =>
      .widen (.andThen (optionallyClosed_gives h) fun _ _ _ hc h =>
        .widen (.map (optionallyClosed_gives h) fun _ hn => ⟨hi, hc, hn⟩) _) _) _

theorem condition_gives {opening closing : GrammarError} (h : Spelled ts) :
    (condition opening closing ts).Gives Expr.Formed :=
  .andThen (expect_gives h) fun _ _ _ _ h => .widen (closed_gives h) _

theorem superclass_gives (h : Spelled ts) :
    (superclass ts).Gives fun o => ∀ e ∈ o, ∃ x : Token, e = .name x none ∧ x.IsName := by
  cases ts with
  | nil => exact gives_keep (by simp) h
  | cons t rest =>
      rw [superclass]
      split
      · refine .widen (.map (expectName_gives (spelled_cons.1 h).2) fun x hx => ?_) _
        rintro _ ⟨⟩
        exact ⟨x, rfl, hx⟩
      · exact gives_keep (by simp) h

/-! ## Statements and declarations -/

/-- A statement that is formed and declares nothing where it stands. -/
def Stmt.Plain (s : Stmt) : Prop := s.Formed ∧ s.isDeclaration = false

theorem resume_spelled (h : Spelled ts) : Spelled (resume ts) := by
  have skips : ∀ {previous : Token} {ts : List Token}, Spelled ts →
      Spelled (skipToBoundary previous ts) := by
    intro previous ts h
    induction ts generalizing previous with
    | nil => exact h
    | cons t rest ih =>
        rw [skipToBoundary]
        split
        · exact h
        · exact ih (spelled_cons.1 h).2
  cases ts with
  | nil => exact h
  | cons t rest => exact skips (spelled_cons.1 h).2

mutual

theorem statement_gives {ts : List Token} (h : Spelled ts) : (statement ts).Gives Stmt.Plain := by
  match ts, h with
  | [], h => rw [statement]; exact .map (closed_gives h) fun _ he => ⟨he, rfl⟩
  | t :: rest, h =>
      have hr := (spelled_cons.1 h).2
      rw [statement]
      split
      · exact .widen (.andThen (forClauses_gives hr) fun clauses _ _ hc hm =>
          .widen (.map (statement_gives hm) fun body hb => by
            rw [toStmt_eq_forForm]
            exact forForm_formed hc.initial hc.condition hc.increment hb) _) _
      · exact .widen (.andThen (condition_gives hr) fun _ _ _ hc hm =>
          .widen (.andThen (statement_gives hm) fun _ _ _ hs hm =>
            alternative_gives hc hs hm) _) _
      · exact .widen (.andThen (condition_gives hr) fun _ _ _ hc hm =>
          .widen (.map (statement_gives hm) fun _ hb => ⟨⟨hc, hb⟩, rfl⟩) _) _
      · exact .widen (.map (optionallyClosed_gives hr) fun _ hv => ⟨hv, rfl⟩) _
      · exact .widen (.map (block_gives hr) fun _ hb => ⟨hb, rfl⟩) _
      · exact .widen (.map (closed_gives hr) fun _ he => ⟨he, rfl⟩) _
      · exact .map (closed_gives h) fun _ he => ⟨he, rfl⟩
termination_by 8 * ts.length + 1
decreasing_by all_goals simp only [List.length_cons] at *; omega

theorem alternative_gives {test : Expr} {consequent : Stmt} (ht : test.Formed)
    (hc : Stmt.Plain consequent) {ts : List Token} (h : Spelled ts) :
    (alternative test consequent ts).Gives Stmt.Plain := by
  match ts, h with
  | [], h => rw [alternative]; exact gives_keep ⟨⟨ht, hc⟩, rfl⟩ h
  | t :: rest, h =>
      rw [alternative]
      split
      · exact .widen (.map (statement_gives (spelled_cons.1 h).2)
          fun _ ho => ⟨⟨ht, hc, ho⟩, rfl⟩) _
      · exact gives_keep ⟨⟨ht, hc⟩, rfl⟩ h
termination_by 8 * ts.length
decreasing_by simp only [List.length_cons] at *; omega

theorem block_gives {ts : List Token} (h : Spelled ts) : (block ts).Gives Stmt.FormedAll := by
  obtain ⟨hs, hr⟩ := declarations_formed true h
  rw [block]
  exact .widen (.noting (.map (expect_gives hr) fun _ _ => hs) _) _
termination_by 8 * ts.length + 4

/-- Whatever the errors, the declarations that are read are formed. -/
theorem declarations_formed (inBlock : Bool) {ts : List Token} (h : Spelled ts) :
    Stmt.FormedAll (declarations inBlock ts).stmts ∧ Spelled (declarations inBlock ts).rest := by
  match ts, h with
  | [], h => rw [declarations]; exact ⟨trivial, h⟩
  | t :: rest, h =>
      have gives := declaration_gives h
      rw [declarations]
      split
      · exact ⟨trivial, h⟩
      · split
        · next s rest' reports shorter hd =>
            rw [hd] at gives
            obtain ⟨hs, hr⟩ := declarations_formed inBlock gives.2
            exact ⟨⟨gives.1, hs⟩, hr⟩
        · next rest' reports reason notLonger hd =>
            have shorter := resume_length_le notLonger
            rw [hd] at gives
            exact declarations_formed inBlock (resume_spelled gives)
termination_by 8 * ts.length + 3
decreasing_by all_goals simp only [List.length_cons] at *; omega

theorem declaration_gives {t : Token} {ts : List Token} (h : Spelled (t :: ts)) :
    (declaration t ts).Gives Stmt.Formed := by
  have hr := (spelled_cons.1 h).2
  rw [declaration]
  split
  · exact .widen (classBody_gives hr) _
  · refine .widen (.map (routine_gives .function hr) fun f hf => ?_) _
    exact hf
  · exact .widen (variableDeclaration_gives hr) _
  · have gives := statement_gives h
    cases hs : statement (t :: ts) with
    | parsed => rw [hs] at gives; exact ⟨gives.1.1, gives.2⟩
    | refused => rw [hs] at gives; exact gives
termination_by 8 * (ts.length + 1) + 2
decreasing_by all_goals (try simp only [List.length_cons]); omega

theorem classBody_gives {ts : List Token} (h : Spelled ts) : (classBody ts).Gives Stmt.Formed := by
  rw [classBody]
  exact .andThen (expectName_gives h) fun _ _ _ hx h =>
    .andThen (superclass_gives h) fun _ _ _ hp h =>
      .widen (.andThen (expect_gives h) fun _ _ _ _ h =>
        .andThen (methods_gives h) fun _ _ _ hm h =>
          .widen (.map (expect_gives h) fun _ _ => ⟨hx, hp, hm⟩) _) _
termination_by 8 * ts.length + 7
decreasing_by omega

theorem methods_gives {ts : List Token} (h : Spelled ts) :
    (methods ts).Gives FunctionDecl.FormedAll := by
  match ts, h with
  | [], h => rw [methods]; exact gives_keep trivial h
  | t :: rest, h =>
      rw [methods]
      split
      · exact gives_keep trivial h
      · exact .widen (.andThen (routine_gives .method h) fun _ _ _ hf hm =>
          .map (methods_gives hm) fun _ hl => ⟨hf, hl⟩) _
termination_by 8 * ts.length + 6
decreasing_by all_goals simp only [List.length_cons] at *; omega

theorem routine_gives (what : Routine) {ts : List Token} (h : Spelled ts) :
    (routine what ts).Gives FunctionDecl.Formed := by
  rw [routine]
  exact .andThen (expectName_gives h) fun _ _ _ hx h =>
    .widen (.andThen (expect_gives h) fun _ _ _ _ h =>
      .widen (.andThen (parameters_gives h) fun _ _ _ hp h =>
        .widen (.andThen (expect_gives h) fun _ _ _ _ h =>
          .widen (.map (block_gives h) fun _ hb => ⟨hx, hp, hb⟩) _) _) _) _
termination_by 8 * ts.length + 5
decreasing_by omega

end

/-- Every tree that is read from tokens spelled like their kinds is formed. -/
theorem program_formedAll (h : Spelled ts) : Stmt.FormedAll (program ts).1 :=
  (declarations_formed false fun _ ht => h _ ((List.takeWhile_sublist _).subset ht)).1

end Grammar

end LoxLang
