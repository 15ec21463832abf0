import Mathlib.Data.List.Basic
import LoxLang.Proofs.StatementRecognition
import LoxLang.Proofs.ProgramGrammar

/-!
# Recovery at a semicolon

A statement with an error is dropped, and tokens are skipped up to a boundary.
If the statement ends with its only semicolon and contains no brace, no `for`
and no other word that starts a statement, then the boundary is just behind
that semicolon, wherever in the statement the error is. What follows is read as
if the statement were not there.

Two things have to be known about the parser for that. In front of the
semicolon it does not refuse behind the semicolon: no production for
expressions consumes a semicolon, and a statement that consumes its semicolon
has been read. And what it has done so far does not depend on what follows.
-/

namespace LoxLang

variable {α β : Type} {t : Token} {ts : List Token}

namespace Grammar

/-- The symbols that stand for an end inside a statement. -/
def inside : List Symbol := [.semicolon, .leftBrace, .rightBrace, .forWord]

/-- The tokens end with a semicolon, and nothing in front of it is a semicolon, a brace or `for`. -/
def Single (ts : List Token) : Prop :=
  ∃ front semi, ts = front ++ [semi] ∧ semi.kind = .symbol .semicolon ∧
    ∀ t ∈ front, ∀ s ∈ inside, t.kind ≠ .symbol s

theorem not_single_nil : ¬Single [] := by
  rintro ⟨front, semi, h, -⟩
  simp at h

/-- Only the semicolon is an end. -/
theorem Single.cases (h : Single (t :: ts)) :
    (t.kind = .symbol .semicolon ∧ ts = []) ∨
      ((∀ s ∈ inside, t.kind ≠ .symbol s) ∧ Single ts) := by
  obtain ⟨front, semi, split, hk, others⟩ := h
  cases front with
  | nil =>
      cases split
      exact .inl ⟨hk, rfl⟩
  | cons u front =>
      cases split
      rw [List.forall_mem_cons] at others
      exact .inr ⟨others.1, front, semi, rfl, hk, others.2⟩

/-- Behind a token that is no semicolon there is one still. -/
theorem Single.tail_of_kind_ne (h : Single (t :: ts)) (hk : t.kind ≠ .symbol .semicolon) :
    Single ts := by
  rcases h.cases with ⟨hk', -⟩ | ⟨-, h⟩
  · exact absurd hk' hk
  · exact h

theorem Single.tail {s : Symbol} (h : Single (t :: ts)) (hk : t.isSymbol s = true)
    (hs : s ≠ .semicolon) : Single ts :=
  h.tail_of_kind_ne (by rw [Token.isSymbol_iff.1 hk]; simpa using hs)

/-- Nothing is left behind a semicolon. -/
theorem Single.nil_of_semicolon (h : Single (t :: ts)) (hk : t.isSymbol .semicolon = true) :
    ts = [] := by
  rcases h.cases with ⟨-, h⟩ | ⟨h, -⟩
  · exact h
  · exact absurd (Token.isSymbol_iff.1 hk) (h _ (by decide))

end Grammar

open Grammar

namespace Reading

/-- The semicolon is left, and nothing is reported that unwinds. -/
def Spares : Reading α → Prop
  | parsed _ rest reports | refused rest reports _ =>
    Single rest ∧ ∀ c ∈ reports, c.error.unwinds = false

/-- If everything is read, the semicolon was the end of it; otherwise it is left. -/
def Settles : Reading α → Prop
  | parsed _ rest reports => rest = [] ∧ ∀ c ∈ reports, c.error.unwinds = false
  | refused rest reports _ => Single rest ∧ ∀ c ∈ reports, c.error.unwinds = false

variable {a : Reading α} {n m : Nat}

theorem Spares.noting {earlier : List Complaint} (h : a.Spares)
    (mild : ∀ c ∈ earlier, c.error.unwinds = false) : (a.noting earlier).Spares := by
  cases a <;> exact ⟨h.1, List.forall_mem_append.2 ⟨mild, h.2⟩⟩

theorem Settles.noting {earlier : List Complaint} (h : a.Settles)
    (mild : ∀ c ∈ earlier, c.error.unwinds = false) : (a.noting earlier).Settles := by
  cases a <;> exact ⟨h.1, List.forall_mem_append.2 ⟨mild, h.2⟩⟩

theorem Spares.widen {r : Reply α n} (h : r.reading.Spares) (wider : n ≤ m) :
    (r.widen wider).reading.Spares := by rwa [Reply.reading_widen]

theorem Settles.widen {r : Reply α n} (h : r.reading.Settles) (wider : n ≤ m) :
    (r.widen wider).reading.Settles := by rwa [Reply.reading_widen]

theorem Spares.map {r : Reply α n} (h : r.reading.Spares) {k : α → β} :
    (r.map k).reading.Spares := by cases r <;> exact h

theorem Settles.map {r : Reply α n} (h : r.reading.Settles) {k : α → β} :
    (r.map k).reading.Settles := by cases r <;> exact h

/-- What comes behind a part that spares the semicolon has it in front of itself. -/
theorem Spares.andThen {r : Reply α n}
    {next : (v : α) → (mid : List Token) → mid.length < n → Reply β (mid.length + 1)}
    (h : r.reading.Spares) (h' : ∀ v mid lt, Single mid → (next v mid lt).reading.Spares) :
    (r.andThen next).reading.Spares := by
  cases r with
  | refused => exact h
  | parsed v mid reports lt =>
      have := (h' v mid lt h.1).noting h.2
      simp only [Reply.andThen]
      cases hn : next v mid lt <;> rwa [hn] at this

theorem Settles.behind {r : Reply α n}
    {next : (v : α) → (mid : List Token) → mid.length < n → Reply β (mid.length + 1)}
    (h : r.reading.Spares) (h' : ∀ v mid lt, Single mid → (next v mid lt).reading.Settles) :
    (r.andThen next).reading.Settles := by
  cases r with
  | refused => exact h
  | parsed v mid reports lt =>
      have := (h' v mid lt h.1).noting h.2
      simp only [Reply.andThen]
      cases hn : next v mid lt <;> rwa [hn] at this

/-- Behind a part that settles the semicolon nothing is left. -/
theorem Settles.andThen {r : Reply α n}
    {next : (v : α) → (mid : List Token) → mid.length < n → Reply β (mid.length + 1)}
    (h : r.reading.Settles) (h' : ∀ v lt, (next v [] lt).reading.Settles) :
    (r.andThen next).reading.Settles := by
  cases r with
  | refused => exact h
  | parsed v mid reports lt =>
      obtain ⟨rfl, mild⟩ := h
      have := (h' v lt).noting mild
      simp only [Reply.andThen]
      cases hn : next v [] lt <;> rwa [hn] at this

theorem spares_parsed {v : α} {reports : List Complaint} (h : Single ts)
    (mild : ∀ c ∈ reports, c.error.unwinds = false) : (parsed v ts reports).Spares := ⟨h, mild⟩

theorem spares_keep {v : α} (h : Single ts) : (parsed v ts []).Spares := ⟨h, List.forall_mem_nil _⟩

theorem spares_refuse {reason : Complaint} (h : Single ts) :
    (refused ts [] reason : Reading α).Spares := ⟨h, List.forall_mem_nil _⟩

theorem settles_refuse {reason : Complaint} (h : Single ts) :
    (refused ts [] reason : Reading α).Settles := ⟨h, List.forall_mem_nil _⟩

end Reading

namespace Grammar

open Reading

/-! ## Expressions -/

theorem expect_spares {s : Symbol} {error : GrammarError} (hs : s ≠ .semicolon) (h : Single ts) :
    (expect s error ts).reading.Spares := by
  cases ts with
  | nil => exact absurd h not_single_nil
  | cons t rest =>
      rw [expect]
      split
      · next hk => exact spares_keep (h.tail hk hs)
      · exact spares_refuse h

theorem expectName_spares {error : GrammarError} (h : Single ts) :
    (expectName error ts).reading.Spares := by
  cases ts with
  | nil => exact absurd h not_single_nil
  | cons t rest =>
      rw [expectName]
      split
      · next hk => exact spares_keep (h.tail_of_kind_ne (by simp [hk]))
      · exact spares_refuse h

theorem semicolon_settles {error : GrammarError} (h : Single ts) :
    (expect .semicolon error ts).reading.Settles := by
  cases ts with
  | nil => exact absurd h not_single_nil
  | cons t rest =>
      rw [expect]
      split
      · next hk => exact ⟨h.nil_of_semicolon hk, List.forall_mem_nil _⟩
      · exact settles_refuse h

theorem Level.not_semicolon {level : Level} (h : level.hasOperator t = true) :
    t.kind ≠ .symbol .semicolon := by
  intro hk
  rw [hasOperator_iff] at h
  simp only [Token.looseness, hk] at h
  have : level.height ≤ 5 := by cases level <;> decide
  omega

mutual

theorem expression_spares {ts : List Token} (h : Single ts) : (expression ts).reading.Spares := by
  rw [expression]
  refine .andThen (binary_spares .or h) fun target mid lt hm => ?_
  cases mid with
  | nil => exact absurd hm not_single_nil
  | cons t rest =>
      dsimp only
      split
      · next hk =>
          refine .widen (.andThen (expression_spares (hm.tail hk (by decide)))
            fun value _ _ hv => ?_) _
          exact spares_parsed hv fun c hc => (assigned_mild target t value c hc).2
      · exact spares_keep hm
termination_by 32 * ts.length + 20
decreasing_by all_goals simp only [List.length_cons, Level.height] at *; omega

theorem binary_spares (level : Level) {ts : List Token} (h : Single ts) :
    (binary level ts).reading.Spares := by
  rw [binary]
  exact .andThen (operand_spares level h) fun left rest _ hm => binaryRest_spares level left hm
termination_by 32 * ts.length + 2 * level.height + 5
decreasing_by all_goals omega

theorem operand_spares (level : Level) {ts : List Token} (h : Single ts) :
    (operand level ts).reading.Spares := by
  cases ht : level.tighter with
  | some tighter =>
      have := Level.height_lt_of_tighter ht
      rw [operand_of_some ht]
      exact binary_spares tighter h
  | none =>
      rw [operand_of_none ht]
      exact unary_spares h
termination_by 32 * ts.length + 2 * level.height + 4
decreasing_by all_goals omega

theorem binaryRest_spares (level : Level) (left : Expr) {ts : List Token} (h : Single ts) :
    (binaryRest level left ts).reading.Spares := by
  match ts, h with
  | [], h => exact absurd h not_single_nil
  | t :: rest, h =>
      rw [binaryRest]
      split
      · next hk =>
          exact .widen (.andThen (operand_spares level
            (h.tail_of_kind_ne (Level.not_semicolon hk))) fun right _ _ hm =>
              binaryRest_spares level _ hm) _
      · exact spares_keep h
termination_by 32 * ts.length
decreasing_by
  all_goals
    have : level.height ≤ 5 := by cases level <;> decide
    simp only [List.length_cons] at *
    omega

theorem unary_spares {ts : List Token} (h : Single ts) : (unary ts).reading.Spares := by
  match ts, h with
  | [], h => exact absurd h not_single_nil
  | t :: rest, h =>
      rw [unary]
      split
      · next hk =>
          have hs : t.kind ≠ .symbol .semicolon := by
            rcases isSign_iff.1 hk with hk | hk <;> rw [hk] <;> nofun
          exact .widen (.map (unary_spares (h.tail_of_kind_ne hs))) _
      · exact call_spares h
termination_by 32 * ts.length + 3
decreasing_by all_goals (try simp only [List.length_cons] at *); omega

theorem call_spares {ts : List Token} (h : Single ts) : (call ts).reading.Spares := by
  rw [call]
  exact .andThen (primary_spares h) fun e _ _ hm => callRest_spares e hm
termination_by 32 * ts.length + 2
decreasing_by all_goals omega

theorem callRest_spares (e : Expr) {ts : List Token} (h : Single ts) :
    (callRest e ts).reading.Spares := by
  match ts, h with
  | [], h => exact absurd h not_single_nil
  | t :: rest, h =>
      rw [callRest]
      split
      · next hk =>
          exact .widen (.andThen (arguments_spares (h.tail hk (by decide))) fun _ _ _ hm =>
            callRest_spares _ hm) _
      · split
        · next hk =>
            exact .widen (.andThen (expectName_spares (h.tail hk (by decide))) fun _ _ _ hm =>
              callRest_spares _ hm) _
        · exact spares_keep h
termination_by 32 * ts.length
decreasing_by all_goals simp only [List.length_cons] at *; omega

theorem arguments_spares {ts : List Token} (h : Single ts) : (arguments ts).reading.Spares := by
  match ts, h with
  | [], h => exact absurd h not_single_nil
  | t :: rest, h =>
      rw [arguments]
      split
      · next hk => exact spares_keep (h.tail hk (by decide))
      · exact someArguments_spares 0 h
termination_by 32 * ts.length + 22
decreasing_by all_goals (try simp only [List.length_cons] at *); omega

theorem someArguments_spares (count : Nat) {ts : List Token} (h : Single ts) :
    (someArguments count ts).reading.Spares := by
  rw [someArguments, Reply.reading_noting]
  refine .noting (.andThen (expression_spares h) fun e mid _ hm => ?_)
    fun c hc => (limitReport_mild rfl count ts c hc).2
  cases mid with
  | nil => exact absurd hm not_single_nil
  | cons t rest =>
      dsimp only
      split
      · next hk =>
          exact .widen (.map (someArguments_spares (count + 1) (hm.tail hk (by decide)))) _
      · exact .widen (.map (expect_spares (by decide) hm)) _
termination_by 32 * ts.length + 21
decreasing_by all_goals (try simp only [List.length_cons] at *); omega

theorem primary_spares {ts : List Token} (h : Single ts) : (primary ts).reading.Spares := by
  match ts, h with
  | [], h => exact absurd h not_single_nil
  | t :: rest, h =>
      rw [primary]
      split
      case h_8 hk =>
        exact .widen (.andThen (expect_spares (by decide) (h.tail_of_kind_ne (by rw [hk]; nofun)))
          fun _ _ _ hm => .widen (.map (expectName_spares hm)) _) _
      case h_9 hk =>
        exact .widen (.andThen (expression_spares (h.tail_of_kind_ne (by rw [hk]; nofun)))
          fun _ _ _ hm => .widen (.map (expect_spares (by decide) hm)) _) _
      case h_10 => exact spares_refuse h
      all_goals
        next hk => exact spares_keep (h.tail_of_kind_ne (by rw [hk]; nofun))
termination_by 32 * ts.length + 1
decreasing_by all_goals simp only [List.length_cons]; omega

end

/-! ## Statements -/

theorem closed_spares {s : Symbol} {error : GrammarError} (hs : s ≠ .semicolon) (h : Single ts) :
    (closed s error ts).reading.Spares :=
  .andThen (expression_spares h) fun _ _ _ hm => .widen (.map (expect_spares hs hm)) _

theorem closed_settles {error : GrammarError} (h : Single ts) :
    (closed .semicolon error ts).reading.Settles :=
  .behind (expression_spares h) fun _ _ _ hm => .widen (.map (semicolon_settles hm)) _

theorem condition_spares {opening closing : GrammarError} (h : Single ts) :
    (condition opening closing ts).reading.Spares :=
  .andThen (expect_spares (by decide) h) fun _ _ _ hm => .widen (closed_spares (by decide) hm) _

theorem returnValue_settles (keyword : Token) (h : Single ts) :
    (returnValue keyword ts).reading.Settles := by
  refine .map ?_
  cases ts with
  | nil => exact absurd h not_single_nil
  | cons t rest =>
      rw [optionallyClosed]
      split
      · next hk => exact ⟨h.nil_of_semicolon hk, List.forall_mem_nil _⟩
      · exact .map (closed_settles h)

theorem variableDeclaration_settles (h : Single ts) :
    (variableDeclaration ts).reading.Settles := by
  refine .behind (expectName_spares h) fun x mid _ hm => ?_
  cases mid with
  | nil => exact absurd hm not_single_nil
  | cons t rest =>
      dsimp only
      split
      · next hk =>
          exact .widen (.behind (expression_spares (hm.tail hk (by decide))) fun _ _ _ hv =>
            .widen (.map (semicolon_settles hv)) _) _
      · exact .widen (.map (semicolon_settles hm)) _

theorem someParameters_spares (count : Nat) {ts : List Token} (h : Single ts) :
    (someParameters count ts).reading.Spares := by
  rw [someParameters, Reply.reading_noting]
  refine .noting (.andThen (expectName_spares h) fun p mid _ hm => ?_)
    fun c hc => (limitReport_mild rfl count ts c hc).2
  cases mid with
  | nil => exact absurd hm not_single_nil
  | cons t rest =>
      dsimp only
      split
      · next hk =>
          exact .widen (.map (someParameters_spares (count + 1) (hm.tail hk (by decide)))) _
      · exact .widen (.map (expect_spares (by decide) hm)) _
termination_by ts.length
decreasing_by simp only [List.length_cons] at *; omega

theorem parameters_spares (h : Single ts) : (parameters ts).reading.Spares := by
  cases ts with
  | nil => exact absurd h not_single_nil
  | cons t rest =>
      rw [parameters]
      split
      · next hk => exact spares_keep (h.tail hk (by decide))
      · exact someParameters_spares 0 h

theorem superclass_spares (h : Single ts) : (superclass ts).reading.Spares := by
  cases ts with
  | nil => exact absurd h not_single_nil
  | cons t rest =>
      rw [superclass]
      split
      · next hk => exact .widen (.map (expectName_spares (h.tail hk (by decide)))) _
      · exact spares_keep h

/-- There is no brace in front of the semicolon. -/
theorem leftBrace_refuses (error : GrammarError) (h : Single ts) :
    ∃ reason, (expect .leftBrace error ts).reading = .refused ts [] reason := by
  cases ts with
  | nil => exact absurd h not_single_nil
  | cons t rest =>
      have hno : ¬t.isSymbol .leftBrace = true := by
        rw [Token.isSymbol_iff]
        intro hk
        rcases h.cases with ⟨hk', -⟩ | ⟨others, -⟩
        · rw [hk] at hk'
          cases hk'
        · exact others _ (by decide) hk
      rw [expect, if_neg hno]
      exact ⟨_, rfl⟩

/-- What would come behind a brace does not come into it. -/
theorem leftBrace_settles {error : GrammarError} (h : Single ts)
    {next : (v : Token) → (mid : List Token) → mid.length < ts.length → Reply α (mid.length + 1)} :
    ((expect .leftBrace error ts).andThen next).reading.Settles := by
  obtain ⟨reason, he⟩ := leftBrace_refuses error h
  cases hr : expect .leftBrace error ts with
  | parsed => rw [hr] at he; cases he
  | refused =>
      rw [hr] at he
      cases he
      exact settles_refuse h

theorem statement_settles {ts : List Token} (h : Single ts) : (statement ts).reading.Settles := by
  match ts, h with
  | [], h => exact absurd h not_single_nil
  | t :: rest, h =>
      have inner {s : Symbol} (hk : t.kind = .symbol s) (hs : s ≠ .semicolon) : Single rest :=
        h.tail (Token.isSymbol_iff.2 hk) hs
      have others {s : Symbol} (hk : t.kind = .symbol s) (hs : s ≠ .semicolon) :
          s ∉ inside := by
        rcases h.cases with ⟨hk', -⟩ | ⟨others, -⟩
        · rw [hk] at hk'
          cases hk'
          exact absurd rfl hs
        · exact fun hs' => others s hs' hk
      rw [statement]
      split
      · next hk => exact absurd (by decide) (others hk (by decide))
      · next hk =>
          exact .widen (.behind (condition_spares (inner hk (by decide))) fun test mid _ hm =>
            .widen (.andThen (statement_settles hm) fun consequent lt => by
              rw [alternative]
              exact ⟨rfl, List.forall_mem_nil _⟩) _) _
      · next hk =>
          exact .widen (.behind (condition_spares (inner hk (by decide))) fun test mid _ hm =>
            .widen (.map (statement_settles hm)) _) _
      · next hk => exact .widen (returnValue_settles t (inner hk (by decide))) _
      · next hk => exact absurd (by decide) (others hk (by decide))
      · next hk => exact .widen (.map (closed_settles (inner hk (by decide)))) _
      · exact .map (closed_settles h)
termination_by ts.length
decreasing_by all_goals simp only [List.length_cons] at *; omega

theorem declared_settles (h : Single ts) : (declared ts).Settles := by
  cases ts with
  | nil => exact absurd h not_single_nil
  | cons t rest =>
      have inner {s : Symbol} (hk : t.kind = .symbol s) (hs : s ≠ .semicolon) : Single rest :=
        h.tail (Token.isSymbol_iff.2 hk) hs
      rw [declared, declaration]
      split
      · next hk =>
          rw [classBody]
          exact .widen (.behind (expectName_spares (inner hk (by decide))) fun _ _ _ hm =>
            .behind (superclass_spares hm) fun _ _ _ hm => .widen (leftBrace_settles hm) _) _
      · next hk =>
          rw [routine]
          exact .widen (.map (.behind (expectName_spares (inner hk (by decide))) fun _ _ _ hm =>
            .widen (.behind (expect_spares (by decide) hm) fun _ _ _ hm =>
              .widen (.behind (parameters_spares hm) fun _ _ _ hm =>
                .widen (leftBrace_settles hm) _) _) _)) _
      · next hk => exact .widen (variableDeclaration_settles (inner hk (by decide))) _
      · exact statement_settles h

/-! ## The boundary -/

/-- Skipping ends just behind the semicolon. -/
theorem skipToBoundary_single {previous : Token} (h : Single (previous :: ts))
    (quiet : ∀ t ∈ ts, t.startsStatement = false) (q : List Token) :
    skipToBoundary previous (ts ++ q) = q := by
  induction ts generalizing previous with
  | nil =>
      rcases h.cases with ⟨hk, -⟩ | ⟨-, h⟩
      · cases q with
        | nil => rfl
        | cons t q => rw [List.nil_append, skipToBoundary, Token.isSymbol_iff.2 hk, Bool.true_or,
            if_pos rfl]
      · exact absurd h not_single_nil
  | cons t ts ih =>
      rw [List.forall_mem_cons] at quiet
      rcases h.cases with ⟨-, h⟩ | ⟨others, h⟩
      · cases h
      · have hno : previous.isSymbol .semicolon = false := by
          rw [← Bool.not_eq_true, Token.isSymbol_iff]
          exact others _ (by decide)
        rw [List.cons_append, skipToBoundary, hno, quiet.1, if_neg (by decide)]
        exact ih h quiet.2

/-- A statement that ends with its only semicolon, without braces, with no `for` and with nothing
behind its first token that starts another statement, and that is dropped. -/
structure BadStatement (bad : List Token) : Prop where
  semicolon : ∃ front semi, bad = front ++ [semi] ∧ semi.kind = .symbol .semicolon ∧
    ∀ t ∈ front, t.kind ≠ .symbol .semicolon
  inner : ∀ t ∈ bad, t.isEnd = false
  braceless : ∀ t ∈ bad, t.kind ≠ .symbol .leftBrace ∧ t.kind ≠ .symbol .rightBrace
  notFor : NotNext .forWord bad
  quiet : ∀ t ∈ bad.tail, t.startsStatement = false
  dropped : (program bad).1 = []

variable {bad : List Token}

theorem BadStatement.single (h : BadStatement bad) : Single bad := by
  obtain ⟨front, semi, rfl, hk, only⟩ := h.semicolon
  refine ⟨front, semi, rfl, hk, fun t ht s hs => ?_⟩
  have braceless := h.braceless t (List.mem_append_left _ ht)
  simp only [inside, List.mem_cons, List.not_mem_nil, or_false] at hs
  rcases hs with rfl | rfl | rfl | rfl
  · exact only t ht
  · exact braceless.1
  · exact braceless.2
  · cases front with
    | nil => cases ht
    | cons u front =>
        rcases List.mem_cons.1 ht with rfl | ht
        · exact h.notFor t _ rfl
        · intro hk
          have := h.quiet t (List.mem_append_left _ ht)
          simp [Token.startsStatement, hk] at this

/-- The declaration is refused in front of its semicolon. -/
theorem BadStatement.refused (h : BadStatement bad) :
    ∃ rest reports reason, declared bad = .refused rest reports reason ∧ Single rest ∧
      ∀ c ∈ reports, c.error.unwinds = false := by
  have settles := declared_settles h.single
  cases hd : declared bad with
  | refused rest reports reason =>
      rw [hd] at settles
      exact ⟨rest, reports, reason, rfl, settles⟩
  | parsed s rest reports =>
      have dropped : (Grammar.declarations false bad).stmts = [] := by
        rw [← content_of_inner h.inner]
        exact h.dropped
      cases bad with
      | nil => cases hd
      | cons t ts =>
          have read := declarations_continued false (t := t) (by simp) ts
          rw [continued, hd] at read
          have stmts : (declarations false (t :: ts)).stmts = s :: (declarations false rest).stmts :=
            (Reading.parsed.inj read).1
          rw [dropped] at stmts
          cases stmts

/-- Whatever follows is read as if the statement were not there, behind what is noticed in it. -/
theorem BadStatement.declarations (h : BadStatement bad) :
    ∃ reports reason, (∀ c ∈ reports ++ [reason], c.found.isSome) ∧
      (∀ c ∈ reports, c.error.unwinds = false) ∧ reason.error.unwinds = true ∧
      ∀ q, (Grammar.declarations false (bad ++ q)).reading =
        (Grammar.declarations false q).reading.noting (reports ++ [reason]) := by
  obtain ⟨rest, reports, reason, hd, single, mild⟩ := h.refused
  cases bad with
  | nil => exact absurd h.single not_single_nil
  | cons t ts =>
      have recognizes := declaration_recognizes t ts
      obtain ⟨front, split, -, same⟩ := recognizes.reads
      rw [hd] at split same
      cases rest with
      | nil => exact absurd single not_single_nil
      | cons w ws =>
          obtain ⟨found, same⟩ := same w ws rfl
          refine ⟨reports, reason, found, mild, recognizes.fails _ _ _ hd, fun q => ?_⟩
          have split : t :: ts = front ++ w :: ws := split
          have quiet : ∀ u ∈ ws, u.startsStatement = false := by
            intro u hu
            refine h.quiet u ?_
            rw [split]
            cases front with
            | nil => exact hu
            | cons => exact List.mem_append_right _ (List.mem_cons_of_mem _ hu)
          have refused : declared (t :: (ts ++ q)) = .refused (w :: (ws ++ q)) reports reason := by
            rw [← List.cons_append, split, List.append_assoc]
            exact same (ws ++ q)
          have resumes : resume (w :: (ws ++ q)) = q := skipToBoundary_single single quiet q
          rw [List.cons_append, declarations_continued _ (by simp), continued, refused]
          dsimp only
          rw [resumes]

theorem located_congr {complaints : List Complaint} (found : ∀ c ∈ complaints, c.found.isSome)
    (last last' : Token) : located last complaints = located last' complaints := by
  refine List.map_congr_left fun c hc => ?_
  obtain ⟨t, ht⟩ := Option.isSome_iff_exists.1 (found c hc)
  rw [ht]
  rfl

/-- A bad statement in front of anything is skipped just behind its semicolon: the statements are
those of what follows, and the errors are those of the bad statement, one of which ends it, and
those of what follows. -/
theorem program_behind_badStatement (h : BadStatement bad) :
    (∀ q, program (bad ++ q) = ((program q).1, (program bad).2 ++ (program q).2)) ∧
      (unwindingErrors bad).length = 1 := by
  obtain ⟨reports, reason, found, mild, unwinds, same⟩ := h.declarations
  have stmts (q : List Token) : (Grammar.declarations false (bad ++ q)).stmts =
      (Grammar.declarations false q).stmts := (Reading.parsed.inj (same q)).1
  have noticed (q : List Token) : (Grammar.declarations false (bad ++ q)).reports =
      reports ++ [reason] ++ (Grammar.declarations false q).reports :=
    (Reading.parsed.inj (same q)).2.2
  have alone : (Grammar.declarations false bad).reports = reports ++ [reason] := by
    have := noticed []
    rwa [List.append_nil, Grammar.declarations, List.append_nil] at this
  constructor
  · intro q
    rw [program, program.eq_1 bad, program.eq_1 q, content_append_of_inner h.inner,
      content_of_inner h.inner, stmts, noticed, alone]
    refine Prod.ext rfl ?_
    rw [located, List.map_append]
    refine congrArg₂ _ (located_congr found _ _) ?_
    cases q with
    | nil => rw [content, List.takeWhile_nil, Grammar.declarations]; rfl
    | cons t more => rw [endToken_append h.inner]; rfl
  · rw [unwindingErrors, program, content_of_inner h.inner, alone, located, List.filter_map,
      List.length_map]
    have none : reports.filter (·.error.unwinds) = [] :=
      List.filter_eq_nil_iff.2 fun c hc => by rw [mild c hc]; exact Bool.false_ne_true
    have split : (reports ++ [reason]).filter (·.error.unwinds) = [reason] := by
      rw [List.filter_append, none, List.nil_append]
      exact List.filter_eq_self.2 (List.forall_mem_singleton.2 unwinds)
    exact congrArg List.length split

/-- `(a + b = c) d;` -/
def strangeTarget : List Token :=
  [⟨.symbol .leftParen, "(", 1⟩, ⟨.identifier, "a", 1⟩, ⟨.symbol .plus, "+", 1⟩,
    ⟨.identifier, "b", 1⟩, ⟨.symbol .equal, "=", 1⟩, ⟨.identifier, "c", 1⟩,
    ⟨.symbol .rightParen, ")", 1⟩, ⟨.identifier, "d", 1⟩, ⟨.symbol .semicolon, ";", 1⟩]

/-- `print d;` -/
def printName : List Token :=
  [⟨.symbol .printWord, "print", 1⟩, ⟨.identifier, "d", 1⟩, ⟨.symbol .semicolon, ";", 1⟩]

/-- Of the two errors the second one ends the statement, and what follows is read. -/
theorem strangeTarget_skipped :
    BadStatement strangeTarget ∧
      program (strangeTarget ++ printName) =
        ([.print (.name ⟨.identifier, "d", 1⟩ none)],
          [⟨⟨.symbol .equal, "=", 1⟩, .assignmentTarget⟩,
            ⟨⟨.identifier, "d", 1⟩, .expressionEnd⟩]) ∧
      (unwindingErrors strangeTarget).length = 1 := by
  have alone : program strangeTarget = ([], [⟨⟨.symbol .equal, "=", 1⟩, .assignmentTarget⟩,
      ⟨⟨.identifier, "d", 1⟩, .expressionEnd⟩]) := by cbv
  have follows : program printName = ([.print (.name ⟨.identifier, "d", 1⟩ none)], []) := by cbv
  have bad : BadStatement strangeTarget :=
    { semicolon := ⟨strangeTarget.take 8, ⟨.symbol .semicolon, ";", 1⟩, rfl, rfl,
        by simp [strangeTarget]⟩
      inner := by simp [strangeTarget, Token.isEnd]
      braceless := by simp [strangeTarget]
      notFor := notNext_cons.2 (by simp)
      quiet := by simp [strangeTarget, Token.startsStatement]
      dropped := congrArg Prod.fst alone }
  obtain ⟨behind, once⟩ := program_behind_badStatement bad
  refine ⟨bad, ?_, once⟩
  rw [behind, follows, alone]
  rfl

end Grammar

end LoxLang
