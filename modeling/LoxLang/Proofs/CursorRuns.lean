import LoxLang.Proofs.Scanning

/-!
# Runs of the cursor

A cursor that is asked for items goes from turn to turn, also through those
that give none. All cursors it comes by are between two lexemes of the text,
with the line ends in front of them counted, until the end has been given:
then they are one behind it. What a turn can do is therefore said by the piece
that is cut off at its place (`Between.turn_cases`).
-/

namespace LoxLang

namespace Scan

namespace Cursor

/-- The cursor behind its first answers. -/
def after : Nat → Cursor → Option Cursor
  | 0, s => some s
  | n + 1, s => do
    let (_, s) ← s.next
    after n s

/-- So many turns from the front of the text lead to the cursor. -/
inductive Reached (source : String) : Nat → Cursor → Prop
  | begin : Reached source 0 (begin source)
  | turn {n : Nat} {s s' : Cursor} {answer : Option Item} (before : Reached source n s)
      (turn : s.Turn answer s') : Reached source (n + 1) s'

/-- The cursor is between two lexemes of the text, on the line that is reached there, or one behind
the end. -/
inductive Between (source : String) (s : Cursor) : Prop
  | inside {pre cs : List Char} (stands : s.Stands pre cs) (whole : s.source = source.toList)
      (line : s.line = 1 + pre.count '\n') : Between source s
  | ended (whole : s.source = source.toList) (past : s.current = s.size + 1) : Between source s

variable {source : String} {s s' s'' : Cursor} {item : Item} {answer answer' : Option Item} {n : Nat}

theorem Between.source_eq (h : Between source s) : s.source = source.toList := by
  cases h with
  | inside _ whole | ended whole => exact whole

/-- A turn goes forward in the same text. -/
theorem Turn.forward (h : s.Turn answer s') : s'.source = s.source ∧ s.current < s'.current := by
  cases h with
  | error _ scanned | token _ scanned | skipped _ scanned =>
      exact scanToken_ahead (s := s.opened) rfl scanned
  | ended => exact ⟨rfl, Nat.lt_succ_self _⟩

/-- There is one turn that a cursor can take. -/
theorem Turn.unique (h : s.Turn answer s') (h' : s.Turn answer' s'') :
    answer = answer' ∧ s' = s'' := by
  cases h with
  | ended last =>
      cases h' with
      | ended => exact ⟨rfl, rfl⟩
      | error inside | token inside | skipped inside => exact absurd last (Nat.ne_of_lt inside)
  | error inside scanned =>
      cases h' with
      | ended last => exact absurd last (Nat.ne_of_lt inside)
      | error _ scanned' =>
          cases scanned.symm.trans scanned'
          exact ⟨rfl, rfl⟩
      | token _ scanned' | skipped _ scanned' => cases scanned.symm.trans scanned'
  | skipped inside scanned pending =>
      cases h' with
      | ended last => exact absurd last (Nat.ne_of_lt inside)
      | error _ scanned' => cases scanned.symm.trans scanned'
      | skipped _ scanned' =>
          cases scanned.symm.trans scanned'
          exact ⟨rfl, rfl⟩
      | token _ scanned' pending' =>
          cases scanned.symm.trans scanned'
          cases pending.symm.trans pending'
  | token inside scanned pending slice =>
      cases h' with
      | ended last => exact absurd last (Nat.ne_of_lt inside)
      | error _ scanned' => cases scanned.symm.trans scanned'
      | skipped _ scanned' pending' =>
          cases scanned.symm.trans scanned'
          cases pending.symm.trans pending'
      | token _ scanned' pending' slice' =>
          cases scanned.symm.trans scanned'
          cases pending.symm.trans pending'
          cases slice.symm.trans slice'
          exact ⟨rfl, rfl⟩

/-- What a turn of a cursor between two lexemes comes to: the piece that is cut off is read, or the
end is given. -/
theorem Between.turn_cases (h : Between source s) (turn : s.Turn answer s') :
    (∃ pre c cs, s.Stands pre (c :: cs) ∧ s.source = source.toList ∧
      s.line = 1 + pre.count '\n' ∧ s' = s.opened.past (cut c cs).1 ∧
      answer = (cut c cs).1.item? (s.line + (cut c cs).1.text.count '\n')) ∨
    (s.current = s.size ∧ s.source = source.toList ∧ s.line = 1 + source.toList.count '\n' ∧
      s' = { s with current := s.current + 1 } ∧ answer = some (.token (.endOn s.line))) := by
  cases h with
  | @inside pre cs stands whole line =>
      cases cs with
      | cons c cs =>
          obtain ⟨answer, behind⟩ := turn.unique stands.turn
          exact .inl ⟨pre, c, cs, stands, whole, line, behind, answer⟩
      | nil =>
          have last : s.current = s.size := stands.size.symm
          obtain ⟨answer, behind⟩ := turn.unique (.ended last)
          have all : pre = source.toList := by rw [← whole, stands.source, List.append_nil]
          exact .inr ⟨last, whole, by rw [line, all], behind, answer⟩
  | ended _ past =>
      have beyond : s.size < s.current := by
        rw [past]
        exact Nat.lt_succ_self _
      cases turn with
      | ended last => exact absurd last (Nat.ne_of_gt beyond)
      | error inside | token inside | skipped inside => exact absurd inside (Nat.lt_asymm beyond)

/-- One turn keeps the cursor between two lexemes. -/
theorem Between.step (h : Between source s) (turn : s.Turn answer s') : Between source s' := by
  rcases h.turn_cases turn with ⟨pre, c, cs, stands, whole, line, rfl, -⟩ |
    ⟨last, whole, -, rfl, -⟩
  · refine .inside stands.past whole ?_
    show s.line + _ = _
    rw [line, List.count_append, Nat.add_assoc]
  · refine .ended whole ?_
    show s.current + 1 = s.size + 1
    rw [last]

/-- All cursors of a run are between two lexemes. -/
theorem Reached.between (h : Reached source n s) : Between source s := by
  induction h with
  | begin => exact .inside ⟨(List.nil_append _).symm, rfl⟩ rfl rfl
  | turn _ turn ih => exact ih.step turn

/-- An item is what a turn gives, after turns that give none. -/
theorem Reached.last_turn (h : Reached source n s) (found : s.next = some (some item, s')) :
    ∃ m t, n ≤ m ∧ Reached source m t ∧ t.Turn (some item) s' := by
  fun_induction Cursor.next s generalizing n with
  | case1 => cases found
  | case2 s inside line e s'' scanned =>
      cases found
      exact ⟨n, s, Nat.le_refl n, h, .error inside scanned⟩
  | case3 s inside s'' scanned kind pending =>
      obtain ⟨lexeme, slice, heq⟩ := Option.map_eq_some_iff.1 found
      cases heq
      exact ⟨n, s, Nat.le_refl n, h, .token inside scanned pending slice⟩
  | case4 s inside s'' scanned pending ih =>
      obtain ⟨m, t, longer, reached, turn⟩ := ih (h.turn (.skipped inside scanned pending)) found
      exact ⟨m, t, Nat.le_of_succ_le longer, reached, turn⟩
  | case5 s _ last =>
      cases found
      exact ⟨n, s, Nat.le_refl n, h, .ended last⟩
  | case6 => cases found

/-- Each answer takes a turn at least, and leaves the other items to come. -/
theorem Feeds.after {its : List Item} {m : Nat} (h : s.Feeds its) (reached : Reached source m s)
    (enough : n ≤ its.length) : ∃ k s', s.after n = some s' ∧ s'.Feeds (its.drop n) ∧
      Reached source k s' ∧ m + n ≤ k := by
  induction n generalizing s its m with
  | zero => exact ⟨m, s, rfl, h, reached, Nat.le_refl m⟩
  | succ n ih =>
      cases its with
      | nil => exact absurd enough (Nat.not_succ_le_zero n)
      | cons item its =>
          obtain ⟨s₁, answer, feeds⟩ := h.next_cons
          obtain ⟨m₁, t, longer, before, turn⟩ := reached.last_turn answer
          obtain ⟨k, s', behind, rest, reached', bound⟩ :=
            ih feeds (before.turn turn) (Nat.le_of_succ_le_succ enough)
          refine ⟨k, s', ?_, rest, reached', by omega⟩
          rw [Cursor.after, answer]
          exact behind

end Cursor

end Scan

end LoxLang
