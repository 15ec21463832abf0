import LoxLang.Proofs.CursorRuns

/-!
# Lines of items

The cursor counts a line end wherever it passes one: between lexemes, and in
strings; a comment ends in front of its line end, so that it is met there. An
item is given the line that is reached when its last character has been read.
That this is the number of line ends up to there follows from where the turns
of the cursor start (`Between.readAt`).
-/

namespace LoxLang

namespace Scan

open Lexicon

/-- The line that an item carries. -/
def Item.line : Item → Nat
  | token t => t.line
  | error line _ => line

/-- The item was read between two byte positions of the text, and it carries the line reached: at
the end of a token, in front of a character that starts nothing, and at the end of the text for a
string that is not closed and for the end itself. -/
inductive Item.ReadAt (source : List Char) (start stop : Nat) : Item → Prop
  | token {kind : Token.Kind} {pre text post : List Char} (split : source = pre ++ (text ++ post))
      (opens : start = (utf8 pre).length) (closes : stop = (utf8 (pre ++ text)).length)
      (inside : kind ≠ .eof) :
      ReadAt source start stop
        (.token ⟨kind, String.ofList text, 1 + (pre ++ text).count '\n'⟩)
  | character {c : Char} {pre post : List Char} (split : source = pre ++ ([c] ++ post))
      (opens : start = (utf8 pre).length) (closes : stop = (utf8 (pre ++ [c])).length) :
      ReadAt source start stop (.error (1 + pre.count '\n') .unexpectedCharacter)
  | openString {pre body : List Char} (split : source = pre ++ '"' :: body)
      (opens : start = (utf8 pre).length) (closes : stop = (utf8 source).length) :
      ReadAt source start stop (.error (1 + source.count '\n') .unterminatedString)
  | ended (closes : stop = (utf8 source).length + 1) :
      ReadAt source start stop (.token (.endOn (1 + source.count '\n')))

/-- A turn gives the item that is read where the turn starts. -/
theorem Cursor.Between.readAt {source : String} {s s' : Cursor} {item : Item}
    (h : Between source s) (turn : s.Turn (some item) s') :
    item.ReadAt source.toList s'.start s'.current := by
  rcases h.turn_cases turn with ⟨pre, c, cs, stands, whole, line, rfl, given⟩ |
    ⟨last, whole, line, rfl, given⟩
  · have split := stands.split
    rw [whole] at split
    have opens : (s.opened.past (cut c cs).1).start = (utf8 pre).length := stands.current
    have closes := stands.past.current
    rw [line] at given
    have known := cut_cases c cs
    generalize cut c cs = taken at split opens closes given known ⊢
    obtain ⟨⟨text, content⟩, rest⟩ := taken
    rcases known with fits | ⟨-, noLine, heq⟩ | ⟨-, heq⟩
    · cases content with
      | skipped => cases given
      | error e => cases fits
      | token kind =>
          cases given
          rw [Nat.add_assoc, ← List.count_append]
          exact .token split opens closes (by rintro rfl; cases fits)
    · cases heq
      cases given
      have noLine : [c].count '\n' = 0 :=
        List.count_eq_zero_of_not_mem (by simpa using noLine.symm)
      rw [noLine, Nat.add_zero]
      exact .character split opens closes
    · cases heq
      cases given
      rw [List.append_nil] at split
      rw [Nat.add_assoc, ← List.count_append, ← split]
      exact .openString split opens (by rw [closes, split])
  · cases given
    rw [line]
    refine .ended ?_
    show s.current + 1 = _
    rw [last, Cursor.size, whole]

/-! ## The order of the lines -/

theorem Piece.line_of_item? {p : Piece} {line : Nat} {item : Item}
    (h : item ∈ p.item? line) : item.line = line := by
  unfold Piece.item? at h
  split at h <;> cases h <;> rfl

theorem line_le_of_mem {line : Nat} {ps : List Piece} {item : Item} (h : item ∈ items line ps) :
    line ≤ item.line := by
  induction ps generalizing line with
  | nil =>
      cases List.mem_singleton.1 h
      exact Nat.le_refl line
  | cons p ps ih =>
      rcases List.mem_append.1 h with here | later
      · rw [Piece.line_of_item? (Option.mem_toList.1 here)]
        exact Nat.le_add_right line _
      · exact Nat.le_trans (Nat.le_add_right line _) (ih later)

/-- Lines never go down along the items. -/
theorem items_pairwise (line : Nat) (ps : List Piece) :
    (items line ps).Pairwise (·.line ≤ ·.line) := by
  induction ps generalizing line with
  | nil => exact List.pairwise_singleton _ _
  | cons p ps ih =>
      refine List.pairwise_append.2 ⟨?_, ih _, fun a ha b hb => ?_⟩
      · cases p.item? (line + p.text.count '\n') with
        | none => exact .nil
        | some item => exact List.pairwise_singleton _ item
      · rw [Piece.line_of_item? (Option.mem_toList.1 ha)]
        exact line_le_of_mem hb

/-- The lines of the items are exact: the cursor gives each item where it is read, a token with
one more than the line ends in front of the end of its lexeme, a character that starts nothing with
those in front of it, and a string that is not closed and the end with those of the whole text. So
lines never go down along the items. -/
theorem item_lines_exact (source : String) :
    (∀ n item, (ofText source)[n]? = some item →
      ∃ s s', (Cursor.begin source).after n = some s ∧ s.next = some (some item, s') ∧
        item.ReadAt source.toList s'.start s'.current) ∧
    (ofText source).Pairwise (·.line ≤ ·.line) := by
  refine ⟨fun n item found => ?_, items_pairwise 1 _⟩
  obtain ⟨bound, at_n⟩ := List.getElem?_eq_some_iff.1 found
  obtain ⟨_, s, behind, rest, reached, -⟩ :=
    (Cursor.begin_feeds source).after .begin (Nat.le_of_lt bound)
  rw [List.drop_eq_getElem_cons bound, at_n] at rest
  obtain ⟨s', answer, -⟩ := rest.next_cons
  obtain ⟨_, t, -, reached', turn⟩ := reached.last_turn answer
  exact ⟨s, s', behind, answer, reached'.between.readAt turn⟩

end Scan

end LoxLang
