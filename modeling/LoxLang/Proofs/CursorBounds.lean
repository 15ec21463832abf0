import LoxLang.Proofs.CursorRuns

/-!
# The cursor stays inside the text

Reading a byte behind the end has no answer, and neither has a slice that
starts or ends inside a character. The scanner never asks for either. The
cursor moves by bytes, also through the characters of a string, and jumps to
the end of a comment, but each turn ends behind a whole piece (`Stands.past`),
so its slices lie between boundaries of characters. A turn goes forward, and
the last one ends one behind the text: there are no more turns than bytes, and
one.
-/

namespace LoxLang

namespace Scan

open Lexicon

/-! ## Slices that can be taken -/

/-- The position is in front of a character, or at the end of the text. -/
def Boundary (cs : List Char) (i : Nat) : Prop :=
  ∃ pre post, cs = pre ++ post ∧ i = (utf8 pre).length

/-- The positions are in order, inside the text and between characters. -/
structure Sliceable (cs : List Char) (i j : Nat) : Prop where
  ordered : i ≤ j
  inside : j ≤ (utf8 cs).length
  left : Boundary cs i
  right : Boundary cs j

variable {cs rest text : List Char} {i j : Nat}

theorem dropBytes_eq_some_iff :
    dropBytes cs i = some rest ↔ ∃ pre, cs = pre ++ rest ∧ i = (utf8 pre).length := by
  constructor
  · intro h
    fun_induction dropBytes cs i with
    | case1 cs =>
        cases h
        exact ⟨[], rfl, rfl⟩
    | case2 => cases h
    | case3 c cs n fits ih =>
        obtain ⟨pre, rfl, length⟩ := ih h
        refine ⟨c :: pre, rfl, ?_⟩
        rw [utf8_cons, List.length_append, length_encode, ← length]
        omega
    | case4 => cases h
  · rintro ⟨pre, rfl, rfl⟩
    exact dropBytes_append pre rest

theorem dropBytes_eq_none_iff : dropBytes cs i = none ↔ ¬ Boundary cs i := by
  rw [Option.eq_none_iff_forall_ne_some]
  constructor
  · rintro none ⟨pre, rest, split, length⟩
    exact none rest (dropBytes_eq_some_iff.2 ⟨pre, split, length⟩)
  · intro no rest some
    obtain ⟨pre, split, length⟩ := dropBytes_eq_some_iff.1 some
    exact no ⟨pre, rest, split, length⟩

theorem takeBytes_eq_some_iff :
    takeBytes cs i = some text ↔ ∃ post, cs = text ++ post ∧ i = (utf8 text).length := by
  constructor
  · intro h
    fun_induction takeBytes cs i generalizing text with
    | case1 cs =>
        cases h
        exact ⟨cs, rfl, rfl⟩
    | case2 => cases h
    | case3 c cs n fits ih =>
        obtain ⟨text, taken, rfl⟩ := Option.map_eq_some_iff.1 h
        obtain ⟨post, rfl, length⟩ := ih taken
        refine ⟨post, rfl, ?_⟩
        rw [utf8_cons, List.length_append, length_encode, ← length]
        omega
    | case4 => cases h
  · rintro ⟨post, rfl, rfl⟩
    exact takeBytes_append text post

/-- A slice is a text that stands between the two positions. -/
theorem slice?_eq_some_iff : slice? cs i j = some text ↔ ∃ pre post,
    cs = pre ++ (text ++ post) ∧ i = (utf8 pre).length ∧ j = (utf8 (pre ++ text)).length := by
  constructor
  · intro h
    unfold slice? at h
    split at h
    · next ordered =>
        obtain ⟨rest, dropped, taken⟩ := Option.bind_eq_some_iff.1 h
        obtain ⟨pre, rfl, rfl⟩ := dropBytes_eq_some_iff.1 dropped
        obtain ⟨post, rfl, length⟩ := takeBytes_eq_some_iff.1 taken
        refine ⟨pre, post, rfl, rfl, ?_⟩
        rw [utf8_append, List.length_append]
        omega
    · cases h
  · rintro ⟨pre, post, rfl, hi, hj⟩
    exact slice?_append pre text post hi hj

theorem sliceable_of_split {pre post : List Char} (split : cs = pre ++ (text ++ post))
    (hi : i = (utf8 pre).length) (hj : j = (utf8 (pre ++ text)).length) : Sliceable cs i j where
  ordered := by
    rw [hi, hj, utf8_append, List.length_append]
    exact Nat.le_add_right _ _
  inside := by
    rw [hj, split, ← List.append_assoc, utf8_append (pre ++ text), List.length_append]
    exact Nat.le_add_right _ _
  left := ⟨pre, text ++ post, split, hi⟩
  right := ⟨pre ++ text, post, by rw [split, List.append_assoc], hj⟩

/-- Between two boundaries in order stands a text. -/
theorem Sliceable.exists_split (h : Sliceable cs i j) : ∃ pre text post,
    cs = pre ++ (text ++ post) ∧ i = (utf8 pre).length ∧ j = (utf8 (pre ++ text)).length := by
  obtain ⟨pre, post, rfl, rfl⟩ := h.left
  obtain ⟨pre', post', split, rfl⟩ := h.right
  have ordered := h.ordered
  rcases List.append_eq_append_iff.1 split with ⟨text, rfl, rfl⟩ | ⟨text, rfl, rfl⟩
  · exact ⟨pre, text, post', rfl, rfl, rfl⟩
  · -- the second position is not in front of the first, so nothing stands between them
    rw [utf8_append, List.length_append] at ordered
    have none : text = [] := by
      by_contra some
      have := List.length_pos_iff.2 (utf8_ne_nil some)
      omega
    subst none
    exact ⟨pre' ++ [], [], post, by simp, rfl, by simp⟩

theorem slice?_eq_none_iff : slice? cs i j = none ↔ ¬ Sliceable cs i j := by
  rw [Option.eq_none_iff_forall_ne_some]
  constructor
  · intro none h
    obtain ⟨pre, text, post, split⟩ := h.exists_split
    exact none text (slice?_eq_some_iff.2 ⟨pre, post, split⟩)
  · intro no text some
    obtain ⟨pre, post, split, hi, hj⟩ := slice?_eq_some_iff.1 some
    exact no (sliceable_of_split split hi hj)

namespace Cursor

theorem advance_eq_none_iff {s : Cursor} : s.advance = none ↔ s.size ≤ s.current := by
  rw [advance, Option.map_eq_none_iff, List.getElem?_eq_none_iff]
  rfl

theorem skipLine_eq_none_iff {s : Cursor} : s.skipLine = none ↔ s.size < s.current := by
  unfold skipLine
  split
  · next inside => split <;> simpa using inside
  · next outside => simpa using outside

/-! ## Turns inside the text -/

/-- A call that reads one lexeme goes forward inside the text, and what is taken out of the text
can be taken: the lexeme, the body of a string, and, as the lexeme starts between characters, all
that is behind its start. -/
structure ReadsInside (s s' : Cursor) : Prop where
  start : s'.start = s.current
  forward : s.current < s'.current
  inside : s'.current ≤ s.size
  lexeme : Sliceable s.source s'.start s'.current
  body : ∀ text, s'.pending = some (.string text) →
    Sliceable s.source (s'.start + 1) (s'.current - 1)

variable {source : String} {s s' : Cursor} {pre cs : List Char} {n : Nat}

/-- The body of a string is what is between its quotes. -/
theorem Stands.body {c : Char} (h : s.Stands pre (c :: cs)) {text : String}
    (string : (cut c cs).1.content = .token (.string text)) :
    Sliceable s.source (s.current + 1) ((s.opened.past (cut c cs).1).current - 1) := by
  have quoted := (pattern_of_token string).string_eq
  have closes := h.past.current
  have split : s.source = (pre ++ ['"']) ++ (text.toList ++ ('"' :: (cut c cs).2)) := by
    rw [h.split, quoted]
    simp
  refine sliceable_of_split split ?_ ?_
  · rw [utf8_append, List.length_append, h.current]
    rfl
  · have quote : (String.utf8EncodeChar '"').length = 1 := rfl
    rw [closes, quoted]
    simp only [utf8_append, utf8_cons, utf8_nil, List.length_append, List.length_nil, quote]
    omega

theorem Stands.readsInside {c : Char} (h : s.Stands pre (c :: cs)) :
    s.ReadsInside (s.opened.past (cut c cs).1) where
  start := rfl
  forward := (scanToken_ahead (s := s.opened) rfl h.scanToken).2
  inside := by
    have size : (s.opened.past (cut c cs).1).size = s.size := rfl
    rw [← size, h.past.size]
    exact Nat.le_add_right _ _
  lexeme := sliceable_of_split h.split h.current h.past.current
  body text pending := by
    have string : (cut c cs).1.content = .token (.string text) := by
      generalize (cut c cs).1 = p at pending
      obtain ⟨w, content⟩ := p
      cases content with
      | token kind => exact congrArg Content.token (Option.some.inj pending)
      | _ => cases pending
    exact h.body string

/-- There are no more turns than bytes have been passed. -/
theorem Reached.turns_le (h : Reached source n s) : n ≤ s.current := by
  induction h with
  | begin => exact Nat.le_refl 0
  | turn _ turn ih => exact Nat.lt_of_le_of_lt ih turn.forward.2

theorem Between.current_le (h : Between source s) : s.current ≤ s.size + 1 := by
  cases h with
  | inside stands =>
      rw [stands.size]
      omega
  | ended _ past => exact Nat.le_of_eq past

/-- A reached cursor has an answer, and the answer leads to a reached cursor. -/
theorem Reached.next_isSome (h : Reached source n s) :
    ∃ answer s', s.next = some (answer, s') ∧ ∃ m, Reached source m s' := by
  cases h.between with
  | inside stands =>
      obtain ⟨item, _, s', -, answer, -⟩ := stands.next
      obtain ⟨m, t, -, reached, turn⟩ := h.last_turn answer
      exact ⟨_, s', answer, m + 1, reached.turn turn⟩
  | ended _ past =>
      have nothing : s.Feeds [] := .ended (by rw [past]; exact Nat.lt_succ_self _)
      exact ⟨none, s, nothing.next_nil, n, h⟩

/-- The end of the text is given after no more answers than the text has bytes, and one. -/
theorem begin_ends (source : String) : ∃ n s, n ≤ (begin source).size + 1 ∧
    (begin source).after n = some s ∧ s.next = some (none, s) := by
  obtain ⟨k, s, behind, rest, reached, turns⟩ :=
    (begin_feeds source).after .begin (Nat.le_refl _)
  rw [List.drop_length] at rest
  refine ⟨_, s, ?_, behind, rest.next_nil⟩
  have inside := reached.between.current_le
  rw [Cursor.size, reached.between.source_eq] at inside
  rw [Nat.zero_add] at turns
  exact Nat.le_trans turns (Nat.le_trans reached.turns_le inside)

end Cursor

/-- Scanning asks for nothing outside the text. A byte, the rest of the text and a slice have no
answer exactly where there is no byte, no boundary between characters, or no stretch between two of
them in order. All calls for a lexeme, from any cursor that turns lead to, have an answer, and so
have all calls for an item: they go forward and stay inside the text, the cursor is at most one
behind the end, and with as many turns as bytes, and one, the search is over. -/
theorem scanning_in_bounds (source : String) :
    ((∀ s : Cursor, s.advance = none ↔ s.size ≤ s.current) ∧
      (∀ s : Cursor, s.skipLine = none ↔ s.size < s.current) ∧
      (∀ cs i, dropBytes cs i = none ↔ ¬ Boundary cs i) ∧
      ∀ cs i j, slice? cs i j = none ↔ ¬ Sliceable cs i j) ∧
    (∀ n s, Cursor.Reached source n s → n ≤ s.current ∧ s.current ≤ s.size + 1 ∧
      (s.current < s.size →
        ∃ report s', s.opened.scanToken = some (report, s') ∧ s.ReadsInside s') ∧
      ∃ answer s', s.next = some (answer, s') ∧ ∃ m, Cursor.Reached source m s') ∧
    ∃ n s, n ≤ (Cursor.begin source).size + 1 ∧ (Cursor.begin source).after n = some s ∧
      s.next = some (none, s) := by
  refine ⟨⟨fun _ => Cursor.advance_eq_none_iff, fun _ => Cursor.skipLine_eq_none_iff,
    fun _ _ => dropBytes_eq_none_iff, fun _ _ _ => slice?_eq_none_iff⟩, fun n s reached => ?_,
    Cursor.begin_ends source⟩
  refine ⟨reached.turns_le, reached.between.current_le, fun inside => ?_, reached.next_isSome⟩
  cases reached.between with
  | @inside pre cs stands =>
      cases cs with
      | nil => exact absurd stands.size.symm (Nat.ne_of_lt inside)
      | cons c cs => exact ⟨_, _, stands.scanToken, stands.readsInside⟩
  | ended _ past => omega

end Scan

end LoxLang
