import LoxLang.Proofs.ProgramGrammar
import LoxLang.Proofs.Scanning

/-!
# Scanning a text in pieces

A line end closes every lexeme but a string, so a text in which all strings are
closed can be scanned apart from what follows on the next line. The items of
the two texts stand behind one another, those of the second with their lines
counted on.
-/

namespace LoxLang

open Lexicon

namespace Scan

/-! ## A cut in front of a line end -/

theorem takeWhile_line {p : Char → Bool} (stop : p '\n' = false) (cs ds : List Char) :
    (cs ++ '\n' :: ds).takeWhile p = cs.takeWhile p := by
  induction cs with
  | nil => rw [List.nil_append, List.takeWhile_cons, stop]; rfl
  | cons c cs ih => rw [List.cons_append, List.takeWhile_cons, List.takeWhile_cons, ih]

theorem dropWhile_line {p : Char → Bool} (stop : p '\n' = false) (cs ds : List Char) :
    (cs ++ '\n' :: ds).dropWhile p = cs.dropWhile p ++ '\n' :: ds := by
  induction cs with
  | nil => rw [List.nil_append, List.dropWhile_cons, stop]; rfl
  | cons c cs ih =>
      rw [List.cons_append, List.dropWhile_cons, List.dropWhile_cons, ih]
      split <;> rfl

/-- A line more, and a text behind it. -/
def before (ds : List Char) (cut : Piece × List Char) : Piece × List Char :=
  (cut.1, cut.2 ++ '\n' :: ds)

variable (cs ds : List Char)

theorem cutComment_line : cutComment (cs ++ '\n' :: ds) = before ds (cutComment cs) := by
  rw [cutComment, takeWhile_line rfl, dropWhile_line rfl]
  rfl

theorem cutWord_line : cutWord (cs ++ '\n' :: ds) = before ds (cutWord cs) := by
  rw [cutWord, takeWhile_line rfl, dropWhile_line rfl]
  rfl

theorem cutNumber_line : cutNumber (cs ++ '\n' :: ds) = before ds (cutNumber cs) := by
  have taken := takeWhile_line (p := isDigit) rfl cs ds
  have left := dropWhile_line (p := isDigit) rfl cs ds
  by_cases fraction : ∃ d rest, cs.dropWhile isDigit = '.' :: d :: rest ∧ isDigit d = true
  · obtain ⟨d, rest, heq, digit⟩ := fraction
    have inner := takeWhile_line (p := isDigit) rfl (d :: rest) ds
    have behind := dropWhile_line (p := isDigit) rfl (d :: rest) ds
    have left : (cs ++ '\n' :: ds).dropWhile isDigit = '.' :: d :: (rest ++ '\n' :: ds) := by
      rw [left, heq]
      rfl
    rw [List.cons_append] at inner behind
    rw [cutNumber_fraction digit heq, cutNumber_fraction digit left, taken, inner, behind]
    rfl
  · have fraction' : ¬ ∃ d rest, (cs ++ '\n' :: ds).dropWhile isDigit = '.' :: d :: rest ∧
        isDigit d = true := by
      rintro ⟨d, rest, heq, digit⟩
      rw [left] at heq
      rcases hcs : cs.dropWhile isDigit with _ | ⟨c, _ | ⟨d', rest'⟩⟩ <;> rw [hcs] at heq <;>
        cases heq
      · exact absurd digit (by decide)
      · exact fraction ⟨d, rest', hcs, digit⟩
    rw [cutNumber_whole fraction, cutNumber_whole fraction', taken, left]
    rfl

/-- A string that is closed on its own is closed by the same quote. -/
theorem cutString_line (h : (cutString cs).1.content ≠ .error .unterminatedString) :
    cutString (cs ++ '\n' :: ds) = before ds (cutString cs) := by
  by_cases quote : '"' ∈ cs
  · obtain ⟨body, rest, rfl, closed⟩ := List.eq_append_cons_of_mem quote
    rw [List.append_assoc, List.cons_append, cutString_closed closed, cutString_closed closed]
    rfl
  · rw [cutString_open quote] at h
    exact absurd rfl h

theorem cutOperator_line (c : Char) :
    cutOperator c (cs ++ '\n' :: ds) = before ds (cutOperator c cs) := by
  unfold cutOperator
  cases beforeEqual? c with
  | none => cases single? c <;> rfl
  | some s =>
      rcases cs with _ | ⟨d, cs⟩
      · cases single? c <;> rfl
      · by_cases equal : d = '='
        · subst equal
          rfl
        · cases single? c <;> simp [equal, before]

theorem cut_line (c : Char) (h : (cut c cs).1.content ≠ .error .unterminatedString) :
    cut c (cs ++ '\n' :: ds) = before ds (cut c cs) := by
  have head : ((cs ++ '\n' :: ds).head? == some '/') = (cs.head? == some '/') := by
    cases cs <;> rfl
  unfold cut at h ⊢
  rw [head]
  by_cases blank : isBlank c = true
  · rw [if_pos blank, if_pos blank]
    rfl
  rw [if_neg blank] at h ⊢
  rw [if_neg blank]
  by_cases comment : (c == '/' && cs.head? == some '/') = true
  · rw [if_pos comment, if_pos comment]
    exact cutComment_line (c :: cs) ds
  rw [if_neg comment] at h ⊢
  rw [if_neg comment]
  by_cases quote : (c == '"') = true
  · rw [if_pos quote] at h ⊢
    rw [if_pos quote]
    exact cutString_line cs ds h
  rw [if_neg quote, if_neg quote]
  by_cases digit : isDigit c = true
  · rw [if_pos digit, if_pos digit]
    exact cutNumber_line (c :: cs) ds
  rw [if_neg digit, if_neg digit]
  by_cases word : isWordStart c = true
  · rw [if_pos word, if_pos word]
    exact cutWord_line (c :: cs) ds
  rw [if_neg word, if_neg word]
  exact cutOperator_line cs ds c

/-! ## Whole texts -/

variable {cs}

/-- The pieces of a text in which all strings are closed, the line end, and the pieces of what
follows. -/
theorem pieces_line (h : ∀ p ∈ pieces cs, p.content ≠ .error .unterminatedString) :
    pieces (cs ++ '\n' :: ds) = pieces cs ++ ⟨['\n'], .skipped⟩ :: pieces ds := by
  fun_induction pieces cs with
  | case1 => exact pieces_of_cut (cut_blank rfl ds)
  | case2 c cs ih =>
      have first := cut_line cs ds c (h _ List.mem_cons_self)
      rw [List.cons_append, pieces_of_cut first, List.cons_append]
      exact congrArg _ (ih fun p hp => h p (List.mem_cons_of_mem _ hp))

end Scan

/-- The token so many lines further down. -/
def Token.lower (lines : Nat) (t : Token) : Token := { t with line := t.line + lines }

theorem Token.lower_lower (k n : Nat) (t : Token) : (t.lower n).lower k = t.lower (n + k) := by
  rw [lower, lower, lower, Nat.add_assoc]

namespace Scan

/-- The item so many lines further down. -/
def Item.lower (lines : Nat) : Item → Item
  | token t => .token (t.lower lines)
  | error line e => .error (line + lines) e

theorem Item.token?_lower (lines : Nat) (item : Item) :
    (item.lower lines).token? = item.token?.map (Token.lower lines) := by
  cases item <;> rfl

theorem Item.error?_lower (lines : Nat) (item : Item) :
    (item.lower lines).error? = item.error?.map fun (line, e) => (line + lines, e) := by
  cases item <;> rfl

theorem Piece.item?_lower (p : Piece) (line lines : Nat) :
    p.item? (line + lines) = (p.item? line).map (Item.lower lines) := by
  unfold Piece.item?
  cases p.content <;> rfl

/-- The items that pieces yield, without the end of the input. -/
def inner (line : Nat) : List Piece → List Item
  | [] => []
  | p :: ps => (p.item? (line + p.text.count '\n')).toList ++ inner (line + p.text.count '\n') ps

theorem inner_lower (line lines : Nat) (ps : List Piece) :
    inner (line + lines) ps = (inner line ps).map (Item.lower lines) := by
  induction ps generalizing line with
  | nil => rfl
  | cons p ps ih =>
      rw [inner, inner, List.map_append, ← ih, Nat.add_right_comm, p.item?_lower]
      cases p.item? (line + p.text.count '\n') <;> rfl

theorem inner_append (line : Nat) (ps qs : List Piece) :
    inner line (ps ++ qs) =
      inner line ps ++ inner (line + (ps.flatMap (·.text)).count '\n') qs := by
  induction ps generalizing line with
  | nil => rfl
  | cons p ps ih =>
      rw [List.cons_append, inner, ih, inner, List.append_assoc, List.flatMap_cons,
        List.count_append, Nat.add_assoc]

theorem items_eq (line : Nat) (ps : List Piece) :
    items line ps =
      inner line ps ++ [.token (.endOn (line + (ps.flatMap (·.text)).count '\n'))] := by
  induction ps generalizing line with
  | nil => rfl
  | cons p ps ih =>
      rw [items, ih, inner, List.append_assoc, List.flatMap_cons, List.count_append, Nat.add_assoc]

theorem inner_noEnd {t : Token} {line : Nat} {ps : List Piece}
    (h : ∀ p ∈ ps, p.content ≠ .token .eof) (ht : .token t ∈ inner line ps) : t.kind ≠ .eof := by
  obtain ⟨its, _, heq, noEnd⟩ := items_end line h
  rw [items_eq] at heq
  rw [(List.append_inj' heq rfl).1] at ht
  exact noEnd t ht

theorem content_tokens (source : String) :
    Grammar.content (tokens source) = (inner 1 (pieces source.toList)).filterMap Item.token? := by
  rw [tokens, ofText, items_eq, List.filterMap_append]
  refine Grammar.content_append (fun t ht => ?_) rfl
  obtain ⟨item, hitem, hit⟩ := List.mem_filterMap.1 ht
  cases item with
  | error => cases hit
  | token t' =>
      cases hit
      have noEnd := inner_noEnd (fun _ => no_eof_of_mem) hitem
      unfold Token.isEnd
      split
      · exact absurd ‹_› noEnd
      · rfl

theorem errors_eq (source : String) :
    errors source = (inner 1 (pieces source.toList)).filterMap Item.error? := by
  rw [errors, ofText, items_eq, List.filterMap_append]
  exact List.append_nil _

/-- The error that a piece is, is among the items. -/
theorem error_mem_inner {p : Piece} {ps : List Piece} {e : LexicalError} (hp : p ∈ ps)
    (he : p.content = .error e) (line : Nat) : ∃ line', .error line' e ∈ inner line ps := by
  induction ps generalizing line with
  | nil => cases hp
  | cons q ps ih =>
      rw [inner]
      rcases List.mem_cons.1 hp with rfl | hp
      · refine ⟨line + p.text.count '\n', List.mem_append_left _ ?_⟩
        rw [Piece.item?, he]
        exact List.mem_singleton_self _
      · obtain ⟨line', found⟩ := ih hp (line + q.text.count '\n')
        exact ⟨line', List.mem_append_right _ found⟩

theorem no_error_of_inner {line : Nat} {ps : List Piece}
    (h : (inner line ps).filterMap Item.error? = []) : ∀ p ∈ ps, ∀ e, p.content ≠ .error e := by
  intro p hp e he
  obtain ⟨line', found⟩ := error_mem_inner hp he line
  cases List.filterMap_eq_nil_iff.1 h _ found

theorem closed_of_errors {source : String}
    (h : ∀ line, (line, .unterminatedString) ∉ errors source) :
    ∀ p ∈ pieces source.toList, p.content ≠ .error .unterminatedString := by
  intro p hp he
  obtain ⟨line, found⟩ := error_mem_inner hp he 1
  refine h line ?_
  rw [errors_eq]
  exact List.mem_filterMap.2 ⟨_, found, rfl⟩

/-- The items of a text in which all strings are closed, and of what follows on the next line. -/
theorem inner_line {cs : List Char} (ds : List Char)
    (h : ∀ p ∈ pieces cs, p.content ≠ .error .unterminatedString) :
    inner 1 (pieces (cs ++ '\n' :: ds)) =
      inner 1 (pieces cs) ++
        (inner 1 (pieces ds)).map (Item.lower (cs.count '\n' + 1)) := by
  rw [pieces_line ds h, inner_append, flatMap_pieces, ← inner_lower]
  rfl

theorem toList_line (p q : String) : (p ++ "\n" ++ q).toList = p.toList ++ '\n' :: q.toList := by
  simp

/-- The tokens of a text are those of its first lines, and those of the others counted on. -/
theorem content_line {p : String} (q : String) (h : errors p = []) :
    Grammar.content (tokens (p ++ "\n" ++ q)) =
      Grammar.content (tokens p) ++
        (Grammar.content (tokens q)).map (Token.lower (p.toList.count '\n' + 1)) := by
  rw [errors_eq] at h
  have closed := fun p hp => no_error_of_inner h p hp .unterminatedString
  rw [content_tokens, content_tokens, content_tokens, toList_line, inner_line _ closed,
    List.filterMap_append, List.filterMap_map, List.map_filterMap]
  simp only [Function.comp_def, Item.token?_lower]

theorem errors_line {p : String} (q : String) (h : errors p = []) :
    errors (p ++ "\n" ++ q) =
      (errors q).map fun (line, e) => (line + (p.toList.count '\n' + 1), e) := by
  rw [errors_eq] at h
  have closed := fun p hp => no_error_of_inner h p hp .unterminatedString
  rw [errors_eq, errors_eq, toList_line, inner_line _ closed, List.filterMap_append, h,
    List.filterMap_map, List.map_filterMap]
  simp only [Function.comp_def, Item.error?_lower, List.nil_append]

/-- Scanning is compositional at line ends. If all strings of a text are closed, the items of the
text with another one on the next line are those of the text without its end, and behind them those
of the other text, so many lines further down as the first text has. -/
theorem ofText_append_line (a b : String)
    (closed : ∀ line, (line, .unterminatedString) ∉ errors a) :
    ∃ its, ofText a = its ++ [.token (.endOn (1 + a.toList.count '\n'))] ∧
      ofText (a ++ "\n" ++ b) = its ++ (ofText b).map (Item.lower (1 + a.toList.count '\n')) := by
  refine ⟨inner 1 (pieces a.toList), ?_, ?_⟩
  · rw [ofText, items_eq, flatMap_pieces]
  · have lines : 1 + (a.toList ++ '\n' :: b.toList).count '\n' =
        1 + b.toList.count '\n' + (1 + a.toList.count '\n') := by
      rw [List.count_append, List.count_cons_self]
      omega
    rw [ofText, ofText, items_eq, items_eq, flatMap_pieces, flatMap_pieces, toList_line,
      inner_line _ (closed_of_errors closed), List.map_append, List.append_assoc, lines,
      Nat.add_comm _ 1]
    rfl

/-- The first half of `!=` in front of a line end is an operator of its own, and a string that is
not closed may follow. -/
theorem bang_above_equal : ofText "@ !\n=\"" =
    [.error 1 .unexpectedCharacter, .token ⟨.symbol .bang, "!", 1⟩,
      .token ⟨.symbol .equal, "=", 2⟩, .error 2 .unterminatedString, .token (.endOn 2)] := by
  have first : ofText "@ !" = [.error 1 .unexpectedCharacter, .token ⟨.symbol .bang, "!", 1⟩] ++
      [.token (.endOn 1)] := by
    with_unfolding_all rfl
  have second : ofText "=\"" = [.token ⟨.symbol .equal, "=", 1⟩, .error 1 .unterminatedString,
      .token (.endOn 1)] := by
    with_unfolding_all rfl
  have closed : ∀ line, (line, .unterminatedString) ∉ errors "@ !" := by
    rw [errors, first]
    intro line
    simp [Item.error?]
  obtain ⟨its, front, joined⟩ := ofText_append_line "@ !" "=\"" closed
  rw [first] at front
  obtain ⟨rfl, -⟩ := List.append_inj' front rfl
  rw [second] at joined
  exact joined

end Scan

/-! ## Pieces joined by line ends -/

/-- The text so many lines further down. -/
def lowerText : Nat → String → String
  | 0, p => p
  | lines + 1, p => "\n" ++ lowerText lines p

theorem Scan.content_empty : Grammar.content (tokens "") = [] := by
  rw [content_tokens, String.toList_empty, pieces]
  rfl

theorem Scan.errors_empty : errors "" = [] := by
  rw [errors_eq, String.toList_empty, pieces]
  rfl

theorem Scan.content_lowerText (lines : Nat) (p : String) :
    Grammar.content (tokens (lowerText lines p)) =
      (Grammar.content (tokens p)).map (Token.lower lines) := by
  induction lines with
  | zero => exact (List.map_id _).symm
  | succ lines ih =>
      have down := content_line (lowerText lines p) errors_empty
      rw [String.empty_append, content_empty, List.nil_append] at down
      rw [lowerText, down, ih, List.map_map]
      simp only [Function.comp_def, Token.lower_lower]
      rfl

theorem Scan.errors_lowerText (lines : Nat) {p : String} (h : errors p = []) :
    errors (lowerText lines p) = [] := by
  induction lines with
  | zero => exact h
  | succ lines ih =>
      have down := errors_line (lowerText lines p) errors_empty
      rw [String.empty_append, ih] at down
      exact down

/-- Pieces put further down, each by as many lines as are given for its number. -/
def placed (down : Nat → Nat) : List String → List String
  | [] => []
  | p :: ps => lowerText (down 0) p :: placed (fun i => down (i + 1)) ps

theorem placed_zero (ps : List String) : placed (fun _ => 0) ps = ps := by
  induction ps with
  | nil => rfl
  | cons p ps ih => exact congrArg (p :: ·) ih

/-- The tokens of pieces, one behind the other. -/
def contents (ps : List String) : List Token :=
  ps.flatMap fun p => Grammar.content (Scan.tokens p)

theorem contents_placed_lower (down : Nat → Nat) (lines : Nat) (ps : List String) :
    (contents (placed down ps)).map (Token.lower lines) =
      contents (placed (fun i => lines + down i) ps) := by
  induction ps generalizing down with
  | nil => rfl
  | cons p ps ih =>
      rw [placed, placed, contents, contents, List.flatMap_cons, List.flatMap_cons, List.map_append]
      refine congrArg₂ (· ++ ·) ?_ (ih _)
      rw [Scan.content_lowerText, Scan.content_lowerText, List.map_map, Nat.add_comm]
      simp only [Function.comp_def, Token.lower_lower]

/-- How many lines are in front of what follows these pieces on the next line. -/
def linesIn : List String → Nat
  | [] => 0
  | p :: ps => p.toList.count '\n' + 1 + linesIn ps

/-- How many lines the joined text has in front of the piece with a number. -/
def joinedAt (ps : List String) (i : Nat) : Nat := linesIn (ps.take i)

/-- The joined text of pieces without lexical errors is scanned as the pieces are, each put where
the joined text has it. -/
theorem content_intercalate {ps : List String} (h : ∀ p ∈ ps, Scan.errors p = []) :
    Grammar.content (Scan.tokens ("\n".intercalate ps)) = contents (placed (joinedAt ps) ps) ∧
      Scan.errors ("\n".intercalate ps) = [] := by
  induction ps with
  | nil => exact ⟨Scan.content_empty, Scan.errors_empty⟩
  | cons p ps ih =>
      obtain ⟨clean, h⟩ := List.forall_mem_cons.1 h
      cases ps with
      | nil =>
          rw [String.intercalate_singleton]
          exact ⟨(List.append_nil _).symm, clean⟩
      | cons q qs =>
          obtain ⟨ihTokens, ihErrors⟩ := ih h
          rw [String.intercalate_cons_cons, Scan.content_line _ clean, Scan.errors_line _ clean,
            ihTokens, ihErrors, contents_placed_lower]
          exact ⟨rfl, rfl⟩

end LoxLang
