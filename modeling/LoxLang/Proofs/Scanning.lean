import LoxLang.Proofs.CursorSteps

/-!
# The cursor yields the items of the text

Asked for items again and again, the cursor goes from piece to piece, passes
those that yield nothing, and gives the end of the input once behind the last.
-/

namespace LoxLang

open Lexicon

namespace Scan

namespace Cursor

/-! ## One turn -/

/-- The cursor at the beginning of a lexeme. -/
def opened (s : Cursor) : Cursor := { s with start := s.current, pending := none }

/-- One turn of the search for the next item: a lexeme is read, and it gives an item or none. Once
behind the text, its end is given. -/
inductive Turn (s : Cursor) : Option Item → Cursor → Prop
  | error {line : Nat} {e : LexicalError} {s' : Cursor} (inside : s.current < s.size)
      (scanned : s.opened.scanToken = some (.error (line, e), s')) :
      Turn s (some (.error line e)) s'
  | token {kind : Token.Kind} {lexeme : List Char} {s' : Cursor} (inside : s.current < s.size)
      (scanned : s.opened.scanToken = some (.ok (), s')) (pending : s'.pending = some kind)
      (slice : slice? s'.source s'.start s'.current = some lexeme) :
      Turn s (some (.token ⟨kind, String.ofList lexeme, s'.line⟩)) s'
  | skipped {s' : Cursor} (inside : s.current < s.size)
      (scanned : s.opened.scanToken = some (.ok (), s')) (pending : s'.pending = none) :
      Turn s none s'
  | ended (last : s.current = s.size) :
      Turn s (some (.token (.endOn s.line))) { s with current := s.current + 1 }

variable {s s' : Cursor} {pre cs : List Char}

/-- A turn that gives an item ends the search. -/
theorem Turn.next_some {item : Item} (h : s.Turn (some item) s') :
    s.next = some (some item, s') := by
  cases h with
  | error inside scanned =>
      rw [Cursor.next, if_pos inside]
      split <;> rename_i hs <;> cases hs.symm.trans scanned
      rfl
  | token inside scanned pending slice =>
      rw [Cursor.next, if_pos inside]
      split <;> rename_i hs <;> cases hs.symm.trans scanned
      rw [pending, slice]
      rfl
  | ended last =>
      rw [Cursor.next, if_neg (by rw [last]; exact Nat.lt_irrefl _), if_pos last]

/-- After a turn that gives none the search goes on. -/
theorem Turn.next_none (h : s.Turn none s') : s.next = s'.next := by
  cases h with
  | skipped inside scanned pending =>
      rw [Cursor.next, if_pos inside]
      split <;> rename_i hs <;> cases hs.symm.trans scanned
      rw [pending]

/-- The cursor is between two lexemes, behind the first characters and in front of the others. -/
structure Stands (s : Cursor) (pre cs : List Char) : Prop where
  source : s.source = pre ++ cs
  current : s.current = (utf8 pre).length

theorem Stands.size (h : s.Stands pre cs) : s.size = s.current + (utf8 cs).length := by
  rw [Cursor.size, h.source, utf8_append, List.length_append, h.current]

theorem Stands.inside {c : Char} (h : s.Stands pre (c :: cs)) : s.current < s.size := by
  rw [h.size]
  exact Nat.lt_add_of_pos_right (List.length_pos_iff.2 (utf8_ne_nil (List.cons_ne_nil c cs)))

/-- The lexeme that is read is the piece that is cut off. -/
theorem Stands.scanToken {c : Char} (h : s.Stands pre (c :: cs)) :
    s.opened.scanToken = some (s.opened.read (cut c cs).1) :=
  scanToken_eq ⟨h.source, h.current, by rw [List.append_nil]; exact h.current⟩ rfl

theorem Stands.split {c : Char} (h : s.Stands pre (c :: cs)) :
    s.source = pre ++ ((cut c cs).1.text ++ (cut c cs).2) := by
  rw [cut_append]
  exact h.source

/-- Behind the piece that is cut off the cursor is between two lexemes again. -/
theorem Stands.past {c : Char} (h : s.Stands pre (c :: cs)) :
    (s.opened.past (cut c cs).1).Stands (pre ++ (cut c cs).1.text) (cut c cs).2 where
  source := by
    rw [List.append_assoc]
    exact h.split
  current := by
    rw [utf8_append, List.length_append, ← h.current]
    rfl

theorem Stands.slice? {c : Char} (h : s.Stands pre (c :: cs)) :
    slice? (s.opened.past (cut c cs).1).source s.current (s.opened.past (cut c cs).1).current =
      some (cut c cs).1.text := by
  have behind := h.past
  rw [behind.source, List.append_assoc]
  exact slice?_append pre _ _ h.current behind.current

/-- Inside the text a turn gives what the piece yields that is cut off. -/
theorem Stands.turn {c : Char} (h : s.Stands pre (c :: cs)) :
    s.Turn ((cut c cs).1.item? (s.line + (cut c cs).1.text.count '\n'))
      (s.opened.past (cut c cs).1) := by
  have scanned := h.scanToken
  have slice := h.slice?
  generalize (cut c cs).1 = p at scanned slice ⊢
  obtain ⟨text, content⟩ := p
  cases content with
  | skipped => exact .skipped h.inside scanned rfl
  | token kind => exact .token h.inside scanned rfl slice
  | error e => exact .error h.inside scanned

/-! ## Asking for items -/

/-- These items are to come. -/
inductive Feeds : Cursor → List Item → Prop
  | inside {s : Cursor} {pre cs : List Char} (source : s.source = pre ++ cs)
      (current : s.current = (utf8 pre).length) : Feeds s (items s.line (pieces cs))
  | ended {s : Cursor} (past : s.size < s.current) : Feeds s []

theorem items_ne_nil (line : Nat) (ps : List Piece) : items line ps ≠ [] := by
  induction ps generalizing line with
  | nil => nofun
  | cons p ps ih => exact fun h => ih _ (List.append_eq_nil_iff.1 h).2

theorem Feeds.next_nil (h : s.Feeds []) : s.next = some (none, s) := by
  generalize hits : ([] : List Item) = its at h
  cases h with
  | inside => exact absurd hits.symm (items_ne_nil _ _)
  | ended past => rw [Cursor.next, if_neg (Nat.lt_asymm past), if_neg (Nat.ne_of_gt past)]

/-- One answer inside the text: the item of the next piece that has one, or the end. -/
theorem Stands.next (h : s.Stands pre cs) :
    ∃ item its s', items s.line (pieces cs) = item :: its ∧ s.next = some (some item, s') ∧
      s'.Feeds its := by
  fun_induction pieces cs generalizing s pre with
  | case1 =>
      have last : s.current = s.size := h.size.symm
      refine ⟨_, [], _, rfl, (Turn.ended last).next_some, .ended ?_⟩
      show s.size < s.current + 1
      rw [last]
      exact Nat.lt_succ_self _
  | case2 c cs ih =>
      have turn := h.turn
      have behind := h.past
      rw [items]
      cases item : (cut c cs).1.item? (s.line + (cut c cs).1.text.count '\n') with
      | none =>
          rw [item] at turn
          rw [turn.next_none]
          exact ih behind
      | some item' =>
          rw [item] at turn
          exact ⟨item', _, _, rfl, turn.next_some, .inside behind.source behind.current⟩

theorem Feeds.next_cons {item : Item} {its : List Item} (h : s.Feeds (item :: its)) :
    ∃ s', s.next = some (some item, s') ∧ s'.Feeds its := by
  generalize hits : item :: its = all at h
  cases h with
  | ended => cases hits
  | inside source current =>
      obtain ⟨item', its', s', heq, answer, feeds⟩ := Stands.next ⟨source, current⟩
      cases hits.trans heq
      exact ⟨s', answer, feeds⟩

theorem begin_feeds (source : String) : (Cursor.begin source).Feeds (ofText source) :=
  .inside (List.nil_append _).symm rfl

/-- However often the cursor is asked, it gives the items, and nothing behind them. -/
theorem Feeds.answers {its : List Item} (h : s.Feeds its) (n : Nat) :
    s.answers n = some ((List.range n).map (its[·]?)) := by
  induction n generalizing s its with
  | zero => rfl
  | succ n ih =>
      rw [Cursor.answers, List.range_succ_eq_map, List.map_cons, List.map_map]
      cases its with
      | nil =>
          rw [h.next_nil]
          simp only [Option.bind_eq_bind, Option.bind_some]
          rw [ih h]
          rfl
      | cons item its =>
          obtain ⟨s', answer, feeds⟩ := h.next_cons
          rw [answer]
          simp only [Option.bind_eq_bind, Option.bind_some]
          rw [ih feeds]
          rfl

theorem Feeds.scanTokens {its : List Item} (h : s.Feeds its) :
    s.scanTokens = some (its.filterMap Item.token?, its.filterMap Item.error?) := by
  induction its generalizing s with
  | nil =>
      rw [Cursor.scanTokens]
      split <;> rename_i hs <;> cases hs.symm.trans h.next_nil
      rfl
  | cons item its ih =>
      obtain ⟨s', answer, feeds⟩ := h.next_cons
      rw [Cursor.scanTokens]
      split <;> rename_i hs <;> cases hs.symm.trans answer
      rw [ih feeds]
      cases item <;> rfl

end Cursor

/-! ## What the items are -/

theorem pattern_of_mem {p : Piece} {cs : List Char} {kind : Token.Kind} (h : p ∈ pieces cs)
    (token : p.content = .token kind) : Pattern (.token kind) p.text := by
  fun_induction pieces cs with
  | case1 => cases h
  | case2 c cs ih =>
      rcases List.mem_cons.1 h with rfl | h
      · exact pattern_of_token token
      · exact ih h

/-- A token of the items is a piece that fits a pattern, or the end of the input. -/
theorem mem_items {t : Token} {line : Nat} {ps : List Piece} (h : .token t ∈ items line ps) :
    (∃ p ∈ ps, p.content = .token t.kind ∧ t.lexeme = String.ofList p.text) ∨ t.kind = .eof := by
  induction ps generalizing line with
  | nil =>
      cases List.mem_singleton.1 h
      exact .inr rfl
  | cons p ps ih =>
      rcases List.mem_append.1 h with here | later
      · rw [Option.mem_toList] at here
        unfold Piece.item? at here
        split at here <;> cases here
        exact .inl ⟨p, List.mem_cons_self, ‹_›, rfl⟩
      · rcases ih later with ⟨q, hq, both⟩ | last
        · exact .inl ⟨q, List.mem_cons_of_mem _ hq, both⟩
        · exact .inr last

/-- The end of the input comes last, and nowhere else. -/
theorem items_end (line : Nat) {ps : List Piece} (h : ∀ p ∈ ps, p.content ≠ .token .eof) :
    ∃ its line', items line ps = its ++ [.token (.endOn line')] ∧
      ∀ t, .token t ∈ its → t.kind ≠ .eof := by
  induction ps generalizing line with
  | nil => exact ⟨[], line, rfl, nofun⟩
  | cons p ps ih =>
      obtain ⟨its, line', heq, noEnd⟩ :=
        ih (line + p.text.count '\n') fun q hq => h q (List.mem_cons_of_mem _ hq)
      refine ⟨(p.item? (line + p.text.count '\n')).toList ++ its, line', ?_, fun t ht => ?_⟩
      · rw [items, heq, List.append_assoc]
      · rcases List.mem_append.1 ht with here | later
        · rw [Option.mem_toList] at here
          unfold Piece.item? at here
          split at here <;> cases here
          exact fun eof => h p List.mem_cons_self (eof ▸ ‹_›)
        · exact noEnd t later

theorem no_eof_of_mem {p : Piece} {cs : List Char} (h : p ∈ pieces cs) :
    p.content ≠ .token .eof := by
  intro heq
  cases pattern_of_mem h heq

/-- The lexeme of a token fits the pattern of its kind. -/
theorem pattern_of_mem_tokens {t : Token} {source : String} (h : t ∈ tokens source) :
    Pattern (.token t.kind) t.lexeme.toList ∨ t.kind = .eof := by
  obtain ⟨item, hitem, hit⟩ := List.mem_filterMap.1 h
  cases item with
  | error line e => cases hit
  | token t' =>
      cases hit
      rcases mem_items hitem with ⟨p, hp, content, lexeme⟩ | eof
      · rw [lexeme, String.toList_ofList]
        exact .inl (pattern_of_mem hp content)
      · exact .inr eof

theorem lexeme_string {t : Token} {source : String} {text : String} (h : t ∈ tokens source)
    (hk : t.kind = .string text) : t.lexeme = "\"" ++ text ++ "\"" := by
  rcases pattern_of_mem_tokens h with fits | eof
  · rw [hk] at fits
    rw [← String.toList_inj, fits.string_eq]
    simp
  · rw [hk] at eof
    cases eof

/-- The scanner is the longest-match lexer of the lexical grammar and loses nothing: stretches and
items are those of repeatedly taking the longest prefix that fits a pattern, the stretches are the
source, a cursor over its bytes answers with the items and then with nothing, the end of the input
is the last item and no other, a string token is its payload in quotes, and scanning the whole
input separates the tokens from the errors. -/
theorem scanner_longest_match (source : String) :
    (∀ ps its, Lexes 1 source.toList ps its ↔ ps = pieces source.toList ∧ its = ofText source) ∧
    (pieces source.toList).flatMap (·.text) = source.toList ∧
    (∀ n, (Cursor.begin source).answers n = some ((List.range n).map ((ofText source)[·]?))) ∧
    (∃ its line, ofText source = its ++ [.token (.endOn line)] ∧
      ∀ t, .token t ∈ its → t.kind ≠ .eof) ∧
    (∀ t ∈ tokens source, ∀ text, t.kind = .string text → t.lexeme = "\"" ++ text ++ "\"") ∧
    (Cursor.begin source).scanTokens = some (tokens source, errors source) :=
  ⟨fun _ _ => lexes_iff, flatMap_pieces _, (Cursor.begin_feeds source).answers,
    items_end 1 fun _ => no_eof_of_mem, fun _ ht _ hk => lexeme_string ht hk,
    (Cursor.begin_feeds source).scanTokens⟩

end Scan

end LoxLang
