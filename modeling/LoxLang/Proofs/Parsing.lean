import Mathlib.Data.List.Perm.Subperm
import LoxLang.Proofs.ParserStatements

/-!
# Parsing whole vectors

A parser in front of a vector of tokens always comes to an outcome, whatever
the vector is, and never looks behind the first end. The measure is on the side
of the lists: the parser follows the recursion there, which is on the tokens
left in front of the first end and, while these stay the same, on the
productions still to be entered. Skipping behind a failure may skip nothing
more, but then the failing declaration has left tokens behind itself.

What the parser builds is what the lists give, so nothing else needs to be
proved again about a parser with a cursor.
-/

namespace LoxLang

namespace Parser

open Grammar

variable {ts : List Token} {p q : Parser} {low nextId : Nat}

/-! ## At the start -/

theorem tokens_eq_of_end {tokens : List Token} {t : Token} (ht : t ∈ tokens)
    (ending : t.isEnd = true) :
    ∃ behind, tokens = content tokens ++ endToken tokens :: behind := by
  have split : content tokens ++ tokens.dropWhile (fun t => !t.isEnd) = tokens :=
    List.takeWhile_append_dropWhile
  obtain ⟨last, found⟩ : ∃ last, tokens.find? Token.isEnd = some last :=
    Option.isSome_iff_exists.1 (List.find?_isSome.2 ⟨t, ht, ending⟩)
  have last_eq : endToken tokens = last := by rw [endToken, found, Option.getD_some]
  rw [List.find?_eq_head?_dropWhile_not] at found
  obtain ⟨behind, hd⟩ := List.head?_eq_some_iff.1 found
  exact ⟨behind, by rw [last_eq, ← hd, split]⟩

/-- An end that is missing is put behind the vector. It changes nothing in front of the first end. -/
theorem content_append_end (ts : List Token) (line : Nat) :
    content (ts ++ [.endOn line]) = content ts := by
  rw [content, List.takeWhile_append]
  split
  · next h =>
      rw [content, (List.takeWhile_sublist _).eq_of_length h]
      exact List.append_nil ts
  · rfl

theorem endToken_append_end (ts : List Token) :
    endToken (ts ++ [.endOn ((ts.getLast?.map (·.line)).getD 1)]) = endToken ts := by
  rw [endToken, endToken, List.find?_append]
  cases ts.find? Token.isEnd <;> rfl

theorem start_tokens (nextId : Nat) (ts : List Token) :
    content (start nextId ts).tokens = content ts ∧
      endToken (start nextId ts).tokens = endToken ts ∧
      ∃ behind, (start nextId ts).tokens = content ts ++ endToken ts :: behind := by
  have cases : (∃ t ∈ ts, t.isEnd = true) ∧ (start nextId ts).tokens = ts ∨
      (start nextId ts).tokens = ts ++ [.endOn ((ts.getLast?.map (·.line)).getD 1)] := by
    unfold start
    cases h : ts.getLast? with
    | none => exact .inr (by rw [List.getLast?_eq_none_iff.1 h]; rfl)
    | some t =>
        cases ht : t.isEnd with
        | true => exact .inl ⟨⟨t, List.mem_of_getLast? h, ht⟩, by simp [ht]⟩
        | false => exact .inr (by simp [ht])
  rcases cases with ⟨⟨t, mem, ht⟩, same⟩ | longer
  · rw [same]
    exact ⟨rfl, rfl, tokens_eq_of_end mem ht⟩
  · rw [longer]
    have split := tokens_eq_of_end (List.mem_append_right ts (List.mem_singleton_self
      (Token.endOn ((ts.getLast?.map (·.line)).getD 1)))) rfl
    rw [content_append_end, endToken_append_end] at split
    exact ⟨content_append_end ts _, endToken_append_end ts, split⟩

theorem start_ready (nextId : Nat) (ts : List Token) : (start nextId ts).Ready := by
  obtain ⟨same, last, split⟩ := start_tokens nextId ts
  exact ⟨by rw [same, last]; exact split, Nat.zero_le _⟩

theorem start_left (nextId : Nat) (ts : List Token) : (start nextId ts).left = content ts :=
  (start_tokens nextId ts).1

theorem start_ending (nextId : Nat) (ts : List Token) :
    (start nextId ts).ending = (content ts).length :=
  congrArg List.length (start_tokens nextId ts).1

/-! ## Whole runs -/

/-- How a parser gets through a vector of which `count` tokens are in front of the first end. -/
structure InBounds (count : Nat) (q : Parser) : Prop where
  /-- The cursor never is behind the first end, and nothing in front of the cursor is looked at. -/
  inside : ∀ l ∈ q.looks, l.index ≤ l.cursor ∧ l.cursor ≤ q.current
  stop : q.current ≤ count
  /-- The cursor never moves back. -/
  forward : q.looks.Pairwise fun l l' => l.cursor ≤ l'.cursor
  /-- Every declaration leaves tokens behind. -/
  progress : ∀ t ∈ q.turns, t.start < t.stop ∧ t.stop ≤ q.current
  /-- No two declarations start at the same token. -/
  distinct : (q.turns.map Turn.start).Nodup

theorem InBounds.turns_length_le {count : Nat} (h : InBounds count q) : q.turns.length ≤ count := by
  have within : q.turns.map Turn.start ⊆ List.range count := fun start hs => by
    obtain ⟨t, ht, rfl⟩ := List.mem_map.1 hs
    have := h.progress t ht
    have := h.stop
    exact List.mem_range.2 (by omega)
  have := (List.Nodup.subperm h.distinct within).length_le
  rwa [List.length_map, List.length_range] at this

theorem Moves.inBounds {noted : List Complaint} (h : Moves low (start nextId ts) q noted) :
    InBounds (content ts).length q := by
  obtain ⟨looks, looksEq, sorted, within⟩ := h.looks
  obtain ⟨turns, turnsEq, distinct, progress, -⟩ := h.turns
  obtain rfl : q.looks = looks := looksEq
  obtain rfl : q.turns = turns := turnsEq
  exact ⟨fun l hl => ⟨(within l hl).2.2, (within l hl).2.1⟩, start_ending nextId ts ▸ h.inside,
    sorted, fun t ht => (progress t ht).2, distinct⟩

theorem Moves.reports_eq {noted : List Complaint} (h : Moves low (start nextId ts) q noted) :
    q.reports.map (·.error) = located (endToken ts) noted := by
  obtain ⟨reports, eq, errors⟩ := h.reports
  obtain rfl : q.reports = reports := eq
  rw [errors, (start_tokens nextId ts).2.1]

/-- Outside of blocks nothing is left. -/
theorem declarations_rest (ts : List Token) : (Grammar.declarations false ts).rest = [] := by
  match ts with
  | [] => rw [Grammar.declarations]
  | t :: rest =>
      rw [Grammar.declarations, Bool.false_and, if_neg Bool.false_ne_true]
      split
      · exact declarations_rest _
      · next notLonger _ =>
          have shorter := resume_length_le notLonger
          exact declarations_rest _
termination_by ts.length
decreasing_by all_goals simp only [List.length_cons]; omega

/-- A program is read to the end, with the trees and the errors that the grammar gives. -/
theorem program_follows (nextId : Nat) (ts : List Token) :
    ∃ ss q, program (start nextId ts) = some (ss, q) ∧ q.current = (content ts).length ∧
      Moves 0 (start nextId ts) q (Grammar.declarations false (content ts)).reports ∧
      ReadStmts nextId q.nextId ss (Grammar.program ts).1 := by
  obtain ⟨ss, q, run, left, moves, read⟩ :=
    declarations_follows (start_ready nextId ts) (start_left nextId ts) false
  refine ⟨ss, q, run, ?_, moves, read⟩
  have here := moves.current_add_left (start_ready nextId ts)
  rw [left, declarations_rest, start_left] at here
  exact here.trans (Nat.zero_add _)

/-- An expression is read, and has to take all tokens. -/
theorem soleExpression_follows (nextId : Nat) (ts : List Token) :
    ∃ o q, soleExpression (start nextId ts) = some (o, q) ∧ InBounds (content ts).length q ∧
      nextId ≤ q.nextId ∧ q.turns = [] ∧ q.unwound ≤ 1 ∧
      q.reports.map (·.error) = (Grammar.soleExpression ts).2 ∧
      Drawn (Option.map Expr.plain) Expr.optSlots nextId q.nextId o
        (Grammar.soleExpression ts).1 := by
  have ready := start_ready nextId ts
  have follows := @expression_follows _ ((content ts).length + 1) _ ready (start_left nextId ts)
  have noTurns : ∀ {q noted}, Moves ((content ts).length + 1) (start nextId ts) q noted →
      q.turns = [] ∧ q.unwound = 0 := fun moves => by
    obtain ⟨turns, eq, -, within, count⟩ := moves.turns
    have none : turns = [] := List.eq_nil_iff_forall_not_mem.2 fun t ht => by
      have := within t ht
      have := start_ending nextId ts ▸ moves.inside
      omega
    subst none
    exact ⟨eq, Nat.le_zero.1 count⟩
  unfold Grammar.soleExpression
  revert follows
  cases Grammar.expression (content ts) with
  | refused rest reports reason =>
      rintro ⟨q, run, left, moves⟩
      obtain ⟨turns, unwound⟩ := noTurns moves
      have same : (start nextId ts).locate reason = q.locate reason := by
        rw [locate, locate, moves.tokens]
      have bounds := moves.inBounds
      refine ⟨none, q.failing (some reason), ?_,
        ⟨bounds.inside, bounds.stop, bounds.forward, bounds.progress, bounds.distinct⟩,
        moves.numbers, turns, ?_, ?_, rfl, .nil⟩
      · rw [same] at run
        exact (bind_eq run).trans rfl
      · rw [Parser.unwound, failing, List.countP_append, ← Parser.unwound, unwound]
        exact Nat.le_refl _
      · have last : q.locate reason = ⟨reason.found.getD (endToken ts), reason.error⟩ := by
          rw [locate, moves.tokens, (start_tokens nextId ts).2.1]
        rw [failing, List.map_append, moves.reports_eq]
        show _ ++ [q.locate reason] = located (endToken ts) (reports ++ [reason])
        rw [last, located, located, List.map_append]
        rfl
  | parsed b rest reports =>
      rintro ⟨a, q, run, left, moves, read⟩
      obtain ⟨q1, hq1, steps⟩ := isAtEnd_eq (moves.ready ready)
      rw [left] at hq1
      have moves1 := moves.steps steps
      cases rest with
      | nil =>
          obtain ⟨turns, unwound⟩ := noTurns moves1
          refine ⟨some a, q1, (bind_eq run).trans (bind_eq hq1), moves1.inBounds, moves1.numbers,
            turns, unwound ▸ Nat.zero_le _, moves1.reports_eq, ?_⟩
          exact Read.some (steps.nextId ▸ read)
      | cons t rest =>
          obtain ⟨q2, hq2, moves2, -⟩ := noteNext_eq (max ((content ts).length + 1) q1.current)
            .leftover (moves1.ready ready) (steps.left_eq.trans left)
          have all := moves1.trans moves2 (Nat.le_max_left _ _) (Nat.le_max_right _ _)
          obtain ⟨turns, unwound⟩ := noTurns all
          refine ⟨none, q2, ?_, all.inBounds, all.numbers, turns, unwound ▸ Nat.zero_le _,
            all.reports_eq, rfl, .nil⟩
          exact (bind_eq run).trans ((bind_eq hq1).trans (bind_eq hq2))

/-- A declaration that starts in front of the first end leaves a token behind, also if it fails. -/
theorem declaration_progress (ready : p.Ready) (more : p.current < p.ending) :
    ∃ s q, declaration p = some (s, q) ∧ p.current < q.current ∧ q.current ≤ p.ending := by
  obtain ⟨t, rest, left⟩ : ∃ t rest, p.left = t :: rest := by
    cases h : p.left with
    | nil => exact absurd (getElem?_ending ready h).2 (Nat.ne_of_lt more)
    | cons t rest => exact ⟨t, rest, rfl⟩
  have turn := declaration_takesTurn ready left (declared_follows ready left (Nat.le_refl _))
  revert turn
  cases Grammar.declaration t rest with
  | parsed =>
      rintro ⟨s, q, run, further, -, moves, -⟩
      exact ⟨some s, q, run, further, moves.inside⟩
  | refused =>
      rintro ⟨q, run, further, -, moves⟩
      exact ⟨none, q, run, further, moves.inside⟩

/-- Whatever the vector, parsing ends, and within bounds. A program is read up to the first end, by
declarations each of which leaves tokens behind and starts at a token of its own; so there are no
more errors that unwind than there are tokens in front of that end. The outcome is that of the
grammar. -/
theorem parsing_ends (nextId : Nat) (ts : List Token) :
    (∃ ss q, program (start nextId ts) = some (ss, q) ∧ q.current = (content ts).length ∧
      InBounds (content ts).length q ∧ q.unwound ≤ q.turns.length ∧
      q.turns.length ≤ (content ts).length ∧ Stmt.allPlain ss = (Grammar.program ts).1 ∧
      q.reports.map (·.error) = (Grammar.program ts).2) ∧
    (∃ o q, soleExpression (start nextId ts) = some (o, q) ∧ InBounds (content ts).length q ∧
      q.turns = [] ∧ q.unwound ≤ 1 ∧ o.map Expr.plain = (Grammar.soleExpression ts).1 ∧
      q.reports.map (·.error) = (Grammar.soleExpression ts).2) ∧
    ∀ p : Parser, p.Ready → p.current < p.ending →
      ∃ s q, declaration p = some (s, q) ∧ p.current < q.current ∧ q.current ≤ p.ending := by
  refine ⟨?_, ?_, fun p => declaration_progress⟩
  · obtain ⟨ss, q, run, current, moves, read⟩ := program_follows nextId ts
    obtain ⟨turns, eq, -, -, count⟩ := moves.turns
    obtain rfl : q.turns = turns := eq
    exact ⟨ss, q, run, current, moves.inBounds, (Nat.zero_add q.turns.length) ▸ count,
      moves.inBounds.turns_length_le, read.plain_eq, moves.reports_eq⟩
  · obtain ⟨o, q, run, bounds, -, turns, unwound, reports, read⟩ := soleExpression_follows nextId ts
    exact ⟨o, q, run, bounds, turns, unwound, read.plain_eq, reports⟩

/-- In front of a closing parenthesis a declaration fails, and skips it. -/
theorem closingParen_skipped : ∃ s q,
    declaration (start 0 [⟨.symbol .rightParen, ")", 1⟩]) = some (s, q) ∧ q.current = 1 := by
  have ready := start_ready 0 [⟨.symbol .rightParen, ")", 1⟩]
  have ending : (start 0 [⟨.symbol .rightParen, ")", 1⟩]).ending = 1 := start_ending _ _
  obtain ⟨s, q, run, further, stop⟩ := (parsing_ends 0 []).2.2 _ ready
    (Nat.lt_of_lt_of_eq Nat.zero_lt_one ending.symm)
  exact ⟨s, q, run, Nat.le_antisymm (ending ▸ stop) further⟩

end Parser

end LoxLang
