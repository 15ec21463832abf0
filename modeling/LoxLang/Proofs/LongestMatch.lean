import LoxLang.Proofs.Spelling
import Mathlib.Data.List.TakeWhile

/-!
# The lexical grammar

What a stretch of source text can be, as a list of patterns that knows nothing
of how text is cut: blanks and comments, which are skipped, and the tokens with
what they stand for. A text is read by taking, again and again, the longest
prefix that fits one of the patterns. Where none fits, a quote opens a string
that is never closed and takes everything behind it, and any other character is
an error of its own.

`cut` does not compare prefixes. It looks at one or two characters, decides for
a rule and never reconsiders. That this comes to the same is the content of
`Pattern.cut`: a prefix that fits a pattern is what is cut off, or what is cut
off is longer.
-/

namespace LoxLang

open Scan

namespace Lexicon

/-- The text is one that reads as the content. -/
inductive Pattern : Content → List Char → Prop
  | blank {c : Char} (is : c = ' ' ∨ c = '\r' ∨ c = '\t' ∨ c = '\n') : Pattern .skipped [c]
  | comment {body : List Char} (oneLine : '\n' ∉ body) : Pattern .skipped ('/' :: '/' :: body)
  | punctuator {s : Symbol} (is : s ∈ Symbol.punctuators) :
      Pattern (.token (.symbol s)) s.spelling.toList
  | keyword {s : Symbol} (is : s ∈ Symbol.keywords) :
      Pattern (.token (.symbol s)) s.spelling.toList
  | identifier {c : Char} {w : List Char} (start : isWordStart c = true)
      (parts : ∀ d ∈ w, isWordPart d = true)
      (free : ∀ s ∈ Symbol.keywords, s.spelling.toList ≠ c :: w) :
      Pattern (.token .identifier) (c :: w)
  | whole {ds : List Char} (nonempty : ds ≠ []) (digits : ∀ d ∈ ds, isDigit d = true) :
      Pattern (.token (.number (Numeral.ofLiteral ds []))) ds
  | fraction {ds fs : List Char} (nonempty : ds ≠ []) (digits : ∀ d ∈ ds, isDigit d = true)
      (nonempty' : fs ≠ []) (digits' : ∀ d ∈ fs, isDigit d = true) :
      Pattern (.token (.number (Numeral.ofLiteral ds fs))) (ds ++ '.' :: fs)
  | string {body : List Char} (closed : '"' ∉ body) :
      Pattern (.token (.string (String.ofList body))) ('"' :: (body ++ ['"']))

/-- The text fits a pattern, the rest stands behind it, and no longer prefix fits one. -/
structure Longest (cs : List Char) (content : Content) (text rest : List Char) : Prop where
  pattern : Pattern content text
  split : text ++ rest = cs
  longest : ∀ content' text', Pattern content' text' → text' <+: cs →
    text'.length ≤ text.length

/-- The characters begin with nothing that fits a pattern. -/
def Fitless (cs : List Char) : Prop := ∀ content text, Pattern content text → ¬ text <+: cs

/-- The stretches of a text that starts on a line, and the items they yield. -/
inductive Lexes : Nat → List Char → List Piece → List Item → Prop
  | done {line : Nat} : Lexes line [] [] [.token (.endOn line)]
  | skip {line : Nat} {cs text rest : List Char} {ps : List Piece} {items : List Item}
      (longest : Longest cs .skipped text rest)
      (more : Lexes (line + text.count '\n') rest ps items) :
      Lexes line cs (⟨text, .skipped⟩ :: ps) items
  | token {line : Nat} {cs text rest : List Char} {kind : Token.Kind} {ps : List Piece}
      {items : List Item} (longest : Longest cs (.token kind) text rest)
      (more : Lexes (line + text.count '\n') rest ps items) :
      Lexes line cs (⟨text, .token kind⟩ :: ps)
        (.token ⟨kind, String.ofList text, line + text.count '\n'⟩ :: items)
  | unexpected {line : Nat} {c : Char} {cs : List Char} {ps : List Piece} {items : List Item}
      (noQuote : c ≠ '"') (none : Fitless (c :: cs)) (more : Lexes line cs ps items) :
      Lexes line (c :: cs) (⟨[c], .error .unexpectedCharacter⟩ :: ps)
        (.error line .unexpectedCharacter :: items)
  | unterminated {line : Nat} {cs : List Char} (none : Fitless ('"' :: cs)) :
      Lexes line ('"' :: cs) [⟨'"' :: cs, .error .unterminatedString⟩]
        [.error (line + cs.count '\n') .unterminatedString,
          .token (.endOn (line + cs.count '\n'))]

/-! ## Which rule is decided for -/

theorem cut_blank {c : Char} (h : isBlank c = true) (cs : List Char) :
    cut c cs = (⟨[c], .skipped⟩, cs) := by
  rw [cut, if_pos h]

theorem cut_comment (cs : List Char) : cut '/' ('/' :: cs) = cutComment ('/' :: '/' :: cs) := rfl

theorem cut_quote (cs : List Char) : cut '"' cs = cutString cs := rfl

/-- A string ends with the next quote. -/
theorem cutString_closed {body : List Char} (h : '"' ∉ body) (rest : List Char) :
    cutString (body ++ '"' :: rest) =
      (⟨'"' :: (body ++ ['"']), .token (.string (String.ofList body))⟩, rest) := by
  have inner : ∀ c ∈ body, (c != '"') = true := fun c hc => bne_iff_ne.2 fun heq => h (heq ▸ hc)
  unfold cutString
  rw [List.takeWhile_append_of_pos inner, List.dropWhile_append_of_pos inner]
  simp

/-- A string goes to the end of the text if there is no other quote. -/
theorem cutString_open {cs : List Char} (h : '"' ∉ cs) :
    cutString cs = (⟨'"' :: cs, .error .unterminatedString⟩, []) := by
  have none : cs.dropWhile (· != '"') = [] :=
    List.dropWhile_eq_nil_iff.2 fun c hc => bne_iff_ne.2 fun heq => h (heq ▸ hc)
  rw [cutString, none]

theorem isBlank_iff {c : Char} :
    isBlank c = true ↔ c = ' ' ∨ c = '\r' ∨ c = '\t' ∨ c = '\n' := by
  simp [isBlank, or_assoc]

/-- A character that is no blank, no slash and no quote starts a number, a word or an operator. -/
theorem cut_other {c : Char} (blank : isBlank c = false) (slash : c ≠ '/') (quote : c ≠ '"')
    (cs : List Char) : cut c cs =
      if isDigit c then cutNumber (c :: cs) else if isWordStart c then cutWord (c :: cs)
        else cutOperator c cs := by
  have slash' : ¬(c == '/' && cs.head? == some '/') = true := by simp [slash]
  rw [cut, if_neg (Bool.eq_false_iff.1 blank), if_neg slash', if_neg (by simpa using quote)]

theorem plain_of_isWordPart {c : Char} (h : isWordPart c = true) :
    isBlank c = false ∧ c ≠ '/' ∧ c ≠ '"' := by
  refine ⟨Bool.eq_false_iff.2 fun hb => ?_, ?_, ?_⟩
  · rcases isBlank_iff.1 hb with rfl | rfl | rfl | rfl <;> exact absurd h (by decide)
  · rintro rfl
    exact absurd h (by decide)
  · rintro rfl
    exact absurd h (by decide)

theorem cut_digit {c : Char} (h : isDigit c = true) (cs : List Char) :
    cut c cs = cutNumber (c :: cs) := by
  obtain ⟨blank, slash, quote⟩ := plain_of_isWordPart (by rw [isWordPart, h, Bool.or_true])
  rw [cut_other blank slash quote, if_pos h]

theorem isDigit_of_isWordStart {c : Char} (h : isWordStart c = true) : isDigit c = false := by
  simp only [isWordStart, isDigit, Bool.or_eq_true, Bool.and_eq_true, decide_eq_true_eq,
    beq_iff_eq, Bool.and_eq_false_iff, decide_eq_false_iff_not, Char.le_def] at h ⊢
  rcases h with (h | h) | rfl
  · exact .inr fun h' => absurd (UInt32.le_trans h.1 h') (by decide)
  · exact .inr fun h' => absurd (UInt32.le_trans h.1 h') (by decide)
  · exact .inr (by decide)

theorem cut_wordStart {c : Char} (h : isWordStart c = true) (cs : List Char) :
    cut c cs = cutWord (c :: cs) := by
  obtain ⟨blank, slash, quote⟩ := plain_of_isWordPart (by rw [isWordPart, h, Bool.true_or])
  rw [cut_other blank slash quote, if_neg (Bool.eq_false_iff.1 (isDigit_of_isWordStart h)), if_pos h]

theorem mem_of_single {c : Char} {s : Symbol} (h : single? c = some s) :
    s ∈ Symbol.punctuators ∧ s.spelling.toList = [c] := by
  rw [← spelling_of_single h, String.toList_ofList]
  unfold single? at h
  split at h <;> cases h <;> decide

theorem mem_of_beforeEqual {c : Char} {s : Symbol} (h : beforeEqual? c = some s) :
    s ∈ Symbol.punctuators ∧ s.spelling.toList = [c, '='] := by
  rw [← spelling_of_beforeEqual h, String.toList_ofList]
  unfold beforeEqual? at h
  split at h <;> cases h <;> decide

/-- A punctuator is one character, or one of four and an equals sign. -/
theorem punctuator_cases {s : Symbol} (h : s ∈ Symbol.punctuators) :
    (∃ c, s.spelling.toList = [c] ∧ single? c = some s) ∨
      ∃ c, s.spelling.toList = [c, '='] ∧ beforeEqual? c = some s := by
  cases s
  case bangEqual | equalEqual | greaterEqual | lessEqual => exact .inr ⟨_, rfl, rfl⟩
  all_goals first | exact .inl ⟨_, rfl, rfl⟩ | exact absurd h (by decide)

theorem plain_of_single {c : Char} {s : Symbol} (h : single? c = some s) :
    isBlank c = false ∧ c ≠ '"' ∧ isDigit c = false ∧ isWordStart c = false := by
  unfold single? at h
  split at h <;> cases h <;> decide

theorem single_of_beforeEqual {c : Char} {s : Symbol} (h : beforeEqual? c = some s) :
    c ≠ '/' ∧ ∃ s', single? c = some s' := by
  unfold beforeEqual? at h
  split at h <;> cases h <;> exact ⟨by decide, _, rfl⟩

theorem cut_single {c : Char} {s : Symbol} (h : single? c = some s) {cs : List Char}
    (slash : c = '/' → cs.head? ≠ some '/') : cut c cs = cutOperator c cs := by
  obtain ⟨blank, quote, digit, word⟩ := plain_of_single h
  have slash' : ¬(c == '/' && cs.head? == some '/') = true := by simpa using slash
  rw [cut, if_neg (Bool.eq_false_iff.1 blank), if_neg slash', if_neg (by simpa using quote),
    if_neg (Bool.eq_false_iff.1 digit), if_neg (Bool.eq_false_iff.1 word)]

theorem cutOperator_equal {c : Char} {s : Symbol} (h : beforeEqual? c = some s)
    (cs : List Char) : cutOperator c ('=' :: cs) = (⟨[c, '='], .token (.symbol s)⟩, cs) := by
  simp only [cutOperator, h]

theorem cutOperator_single {c : Char} {cs : List Char}
    (h : ∀ s rest, beforeEqual? c = some s → cs ≠ '=' :: rest) :
    cutOperator c cs = match single? c with
      | some s => (⟨[c], .token (.symbol s)⟩, cs)
      | none => (⟨[c], .error .unexpectedCharacter⟩, cs) := by
  unfold cutOperator
  split
  · next heq => exact absurd rfl (h _ _ heq)
  · rfl

theorem cutNumber_fraction {cs : List Char} {d : Char} {rest : List Char} (digit : isDigit d = true)
    (h : cs.dropWhile isDigit = '.' :: d :: rest) : cutNumber cs =
      (⟨cs.takeWhile isDigit ++ '.' :: (d :: rest).takeWhile isDigit,
        .token (.number (Numeral.ofLiteral (cs.takeWhile isDigit)
          ((d :: rest).takeWhile isDigit)))⟩, (d :: rest).dropWhile isDigit) := by
  unfold cutNumber
  rw [h]
  simp only [digit, if_true]

theorem cutNumber_whole {cs : List Char}
    (h : ¬ ∃ d rest, cs.dropWhile isDigit = '.' :: d :: rest ∧ isDigit d = true) :
    cutNumber cs = (⟨cs.takeWhile isDigit,
      .token (.number (Numeral.ofLiteral (cs.takeWhile isDigit) []))⟩, cs.dropWhile isDigit) := by
  unfold cutNumber
  dsimp only
  split
  · next d rest heq => rw [if_neg fun digit => h ⟨d, rest, heq, digit⟩]
  · rfl

/-! ## Each rule takes the longest prefix that fits -/

/-- The piece is the text with its content, or it is longer than the text and no error. -/
def Outdone (content : Content) (text : List Char) (p : Piece) : Prop :=
  p = ⟨text, content⟩ ∨ text.length < p.text.length ∧ ∀ e, p.content ≠ .error e

theorem Outdone.of_append {content : Content} {text : List Char} {p : Piece} (more : List Char)
    (h : p.text = text ++ more) (hc : more = [] → p.content = content)
    (he : ∀ e, p.content ≠ .error e) : Outdone content text p := by
  obtain ⟨whole, _⟩ := p
  cases more with
  | nil =>
      refine .inl ?_
      rw [← hc rfl, ← List.append_nil text, ← h]
  | cons d more =>
      refine .inr ⟨?_, he⟩
      rw [h, List.length_append, List.length_cons]
      omega

theorem outdone_comment {body : List Char} (h : '\n' ∉ body) (rest : List Char) :
    Outdone .skipped ('/' :: '/' :: body) (cutComment ('/' :: '/' :: body ++ rest)).1 := by
  refine .of_append (rest.takeWhile (· != '\n')) ?_ (fun _ => rfl) nofun
  refine List.takeWhile_append_of_pos fun c hc => bne_iff_ne.2 ?_
  rintro rfl
  simp [h] at hc

theorem outdone_string {body : List Char} (h : '"' ∉ body) (rest : List Char) :
    Outdone (.token (.string (String.ofList body))) ('"' :: (body ++ ['"']))
      (cutString (body ++ '"' :: rest)).1 := by
  rw [cutString_closed h]
  exact .inl rfl

theorem outdone_word {kind : Token.Kind} {word : List Char} (h : ∀ c ∈ word, isWordPart c = true)
    (hk : wordKind word = kind) (rest : List Char) :
    Outdone (.token kind) word (cutWord (word ++ rest)).1 := by
  have taken : (word ++ rest).takeWhile isWordPart = word ++ rest.takeWhile isWordPart :=
    List.takeWhile_append_of_pos h
  refine .of_append _ taken (fun none => ?_) nofun
  show Content.token (wordKind ((word ++ rest).takeWhile isWordPart)) = _
  rw [taken, none, List.append_nil, hk]

theorem outdone_whole {ds : List Char} (h : ∀ d ∈ ds, isDigit d = true) (rest : List Char) :
    Outdone (.token (.number (Numeral.ofLiteral ds []))) ds (cutNumber (ds ++ rest)).1 := by
  unfold cutNumber
  rw [List.takeWhile_append_of_pos h, List.dropWhile_append_of_pos h]
  dsimp only
  have noFraction : Outdone (.token (.number (Numeral.ofLiteral ds []))) ds
      ⟨ds ++ rest.takeWhile isDigit,
        .token (.number (Numeral.ofLiteral (ds ++ rest.takeWhile isDigit) []))⟩ :=
    .of_append _ rfl (fun none => by rw [none, List.append_nil]) nofun
  split
  · split
    · refine .inr ⟨?_, nofun⟩
      simp only [List.length_append, List.length_cons]
      omega
    · exact noFraction
  · exact noFraction

theorem outdone_fraction {ds fs : List Char} (h : ∀ d ∈ ds, isDigit d = true)
    (nonempty : fs ≠ []) (h' : ∀ d ∈ fs, isDigit d = true) (rest : List Char) :
    Outdone (.token (.number (Numeral.ofLiteral ds fs))) (ds ++ '.' :: fs)
      (cutNumber (ds ++ '.' :: (fs ++ rest))).1 := by
  obtain ⟨f, fs, rfl⟩ := List.exists_cons_of_ne_nil nonempty
  have point : List.takeWhile isDigit ('.' :: (f :: fs ++ rest)) = [] := rfl
  have point' : List.dropWhile isDigit ('.' :: (f :: fs ++ rest)) = '.' :: f :: (fs ++ rest) := rfl
  have digits : (f :: fs ++ rest).takeWhile isDigit = f :: fs ++ rest.takeWhile isDigit :=
    List.takeWhile_append_of_pos h'
  unfold cutNumber
  rw [List.takeWhile_append_of_pos h, List.dropWhile_append_of_pos h, point, point',
    List.append_nil]
  simp only [h' f List.mem_cons_self, if_true]
  refine .of_append (rest.takeWhile isDigit) ?_ (fun none => ?_) nofun
  · show ds ++ '.' :: List.takeWhile isDigit (f :: fs ++ rest) = _
    rw [digits, List.append_assoc]
    rfl
  · show Content.token (.number (Numeral.ofLiteral ds
      (List.takeWhile isDigit (f :: fs ++ rest)))) = _
    rw [digits, none, List.append_nil]

/-- The slash is not taken where it opens a comment, which is longer. -/
theorem outdone_punctuator {s : Symbol} (h : s ∈ Symbol.punctuators) {c : Char}
    {cs : List Char} (hp : s.spelling.toList <+: c :: cs) :
    Outdone (.token (.symbol s)) s.spelling.toList (cut c cs).1 := by
  rcases punctuator_cases h with ⟨d, spelled, hs⟩ | ⟨d, spelled, hs⟩
  · rw [spelled] at hp ⊢
    obtain rfl : d = c := (List.cons_prefix_cons.1 hp).1
    by_cases slash : d = '/' → cs.head? ≠ some '/'
    · rw [cut_single hs slash]
      cases hb : beforeEqual? d with
      | none =>
          rw [cutOperator_single (by rw [hb]; nofun), hs]
          exact .inl rfl
      | some s' =>
          by_cases equal : ∃ rest, cs = '=' :: rest
          · obtain ⟨rest, rfl⟩ := equal
            rw [cutOperator_equal hb]
            exact .inr ⟨Nat.lt_succ_self 1, nofun⟩
          · rw [cutOperator_single fun _ rest _ heq => equal ⟨rest, heq⟩, hs]
            exact .inl rfl
    · obtain ⟨rfl, head⟩ := Classical.not_imp.1 slash
      obtain ⟨rest, rfl⟩ := List.head?_eq_some_iff.1 (Classical.not_not.1 head)
      rw [cut_comment]
      refine .inr ⟨?_, nofun⟩
      show 1 < ('/' :: '/' :: List.takeWhile _ rest).length
      simp
  · rw [spelled] at hp ⊢
    obtain ⟨rfl, rest, rfl⟩ := List.cons_prefix_cons.1 hp
    obtain ⟨slash, s', hs'⟩ := single_of_beforeEqual hs
    rw [cut_single hs' fun heq => absurd heq slash, List.singleton_append, cutOperator_equal hs]
    exact .inl rfl

theorem keyword_word {s : Symbol} (h : s ∈ Symbol.keywords) :
    (∃ c w, s.spelling.toList = c :: w ∧ isWordStart c = true) ∧
      ∀ c ∈ s.spelling.toList, isWordPart c = true := by
  revert h
  cases s <;> first | exact fun h => absurd h (by decide) |
    exact fun _ => ⟨⟨_, _, rfl, by decide⟩, List.all_eq_true.1 rfl⟩

theorem wordKind_keyword {s : Symbol} (h : s ∈ Symbol.keywords) :
    wordKind s.spelling.toList = .symbol s := by
  rw [wordKind, String.ofList_toList, Symbol.keyword?_spelling h]

theorem wordKind_identifier {word : List Char}
    (free : ∀ s ∈ Symbol.keywords, s.spelling.toList ≠ word) : wordKind word = .identifier := by
  rw [wordKind, Symbol.keyword?, List.find?_eq_none.2]
  intro s hs heq
  refine free s hs ?_
  rw [beq_iff_eq.1 heq, String.toList_ofList]

/-- A prefix that fits a pattern is what is cut off, or what is cut off is longer. -/
theorem Pattern.cut {content : Content} {text : List Char} (h : Pattern content text) {c : Char}
    {cs : List Char} (hp : text <+: c :: cs) : Outdone content text (Scan.cut c cs).1 := by
  cases h with
  | blank is =>
      obtain rfl := (List.cons_prefix_cons.1 hp).1
      rw [cut_blank (isBlank_iff.2 is)]
      exact .inl rfl
  | @comment body oneLine =>
      obtain ⟨rfl, rest, rfl⟩ := List.cons_prefix_cons.1 hp
      exact outdone_comment oneLine rest
  | punctuator is => exact outdone_punctuator is hp
  | @keyword s is =>
      obtain ⟨⟨d, w, spelled, start⟩, parts⟩ := keyword_word is
      have kind := wordKind_keyword is
      rw [spelled] at hp parts kind ⊢
      obtain ⟨rfl, rest, rfl⟩ := List.cons_prefix_cons.1 hp
      rw [cut_wordStart start]
      exact outdone_word parts kind rest
  | @identifier d w start parts free =>
      obtain ⟨rfl, rest, rfl⟩ := List.cons_prefix_cons.1 hp
      rw [cut_wordStart start]
      refine outdone_word ?_ (wordKind_identifier free) rest
      exact List.forall_mem_cons.2 ⟨by rw [isWordPart, start, Bool.true_or], parts⟩
  | whole nonempty digits =>
      obtain ⟨d, ds, rfl⟩ := List.exists_cons_of_ne_nil nonempty
      obtain ⟨rfl, rest, rfl⟩ := List.cons_prefix_cons.1 hp
      rw [cut_digit (digits d List.mem_cons_self)]
      exact outdone_whole digits rest
  | @fraction _ fs nonempty digits nonempty' digits' =>
      obtain ⟨d, ds, rfl⟩ := List.exists_cons_of_ne_nil nonempty
      obtain ⟨rfl, rest, rfl⟩ := List.cons_prefix_cons.1 hp
      rw [cut_digit (digits d List.mem_cons_self)]
      have outdone := outdone_fraction digits nonempty' digits' rest
      rwa [← List.cons_append, ← List.append_assoc] at outdone
  | @string body closed =>
      obtain ⟨rfl, rest, rfl⟩ := List.cons_prefix_cons.1 hp
      have outdone := outdone_string closed rest
      rw [cut_quote, List.append_assoc]
      exact outdone

/-! ## What is cut off fits a pattern, or nothing does -/

theorem pattern_word {c : Char} (start : isWordStart c = true) {w : List Char}
    (parts : ∀ d ∈ w, isWordPart d = true) : Pattern (.token (wordKind (c :: w))) (c :: w) := by
  by_cases reserved : ∃ s ∈ Symbol.keywords, s.spelling.toList = c :: w
  · obtain ⟨s, is, spelled⟩ := reserved
    rw [← spelled, wordKind_keyword is]
    exact .keyword is
  · have free : ∀ s ∈ Symbol.keywords, s.spelling.toList ≠ c :: w :=
      fun s is spelled => reserved ⟨s, is, spelled⟩
    rw [wordKind_identifier free]
    exact .identifier start parts free

theorem pattern_number {c : Char} (digit : isDigit c = true) (cs : List Char) :
    Pattern (cutNumber (c :: cs)).1.content (cutNumber (c :: cs)).1.text := by
  have nonempty : (c :: cs).takeWhile isDigit ≠ [] := by
    rw [List.takeWhile_cons_of_pos digit]
    nofun
  have digits : ∀ {l : List Char}, ∀ d ∈ l.takeWhile isDigit, isDigit d = true :=
    fun d hd => List.mem_takeWhile_imp hd
  unfold cutNumber
  dsimp only
  split
  · next f rest heq =>
      split
      · next hf =>
          refine .fraction nonempty digits ?_ digits
          rw [List.takeWhile_cons_of_pos hf]
          nofun
      · exact .whole nonempty digits
  · exact .whole nonempty digits

theorem pattern_single {c : Char} {s : Symbol} (h : single? c = some s) :
    Pattern (.token (.symbol s)) [c] := by
  obtain ⟨is, spelled⟩ := mem_of_single h
  rw [← spelled]
  exact .punctuator is

theorem pattern_beforeEqual {c : Char} {s : Symbol} (h : beforeEqual? c = some s) :
    Pattern (.token (.symbol s)) [c, '='] := by
  obtain ⟨is, spelled⟩ := mem_of_beforeEqual h
  rw [← spelled]
  exact .punctuator is

/-- What the first cut can be: a text that fits a pattern, a single character that is none of the
language's, or a string that is not closed. -/
theorem cut_cases (c : Char) (cs : List Char) :
    Pattern (cut c cs).1.content (cut c cs).1.text ∨
    (c ≠ '"' ∧ c ≠ '\n' ∧ cut c cs = (⟨[c], .error .unexpectedCharacter⟩, cs)) ∨
    (c = '"' ∧ cut c cs = (⟨'"' :: cs, .error .unterminatedString⟩, [])) := by
  unfold cut
  split
  · next blank => exact .inl (.blank (isBlank_iff.1 blank))
  next blank =>
  split
  · next slash =>
      refine .inl ?_
      obtain ⟨rfl, head⟩ : c = '/' ∧ cs.head? = some '/' := by simpa using slash
      obtain ⟨rest, rfl⟩ := List.head?_eq_some_iff.1 head
      show Pattern .skipped ('/' :: '/' :: rest.takeWhile (· != '\n'))
      refine .comment fun hm => ?_
      exact absurd (List.mem_takeWhile_imp hm) (by decide)
  split
  · next quote =>
      obtain rfl : c = '"' := by simpa using quote
      by_cases more : '"' ∈ cs
      · obtain ⟨body, rest, rfl, closed⟩ := List.eq_append_cons_of_mem more
        rw [cutString_closed closed]
        exact .inl (.string closed)
      · exact .inr (.inr ⟨rfl, cutString_open more⟩)
  next quote =>
  split
  · next digit => exact .inl (pattern_number digit cs)
  split
  · next start =>
      refine .inl ?_
      unfold cutWord
      rw [List.takeWhile_cons_of_pos (by rw [isWordPart, start, Bool.true_or])]
      exact pattern_word start fun d hd => List.mem_takeWhile_imp hd
  · by_cases equal : ∃ s rest, beforeEqual? c = some s ∧ cs = '=' :: rest
    · obtain ⟨s, rest, hs, rfl⟩ := equal
      rw [cutOperator_equal hs]
      exact .inl (pattern_beforeEqual hs)
    · rw [cutOperator_single fun s rest hs heq => equal ⟨s, rest, hs, heq⟩]
      cases hs : single? c with
      | some s => exact .inl (pattern_single hs)
      | none =>
          refine .inr (.inl ⟨by simpa using quote, ?_, rfl⟩)
          rintro rfl
          exact blank rfl

theorem pattern_of_token {c : Char} {cs : List Char} {kind : Token.Kind}
    (h : (cut c cs).1.content = .token kind) : Pattern (.token kind) (cut c cs).1.text := by
  rcases cut_cases c cs with fits | ⟨-, -, heq⟩ | ⟨-, heq⟩
  · rwa [h] at fits
  · rw [heq] at h
    cases h
  · rw [heq] at h
    cases h

theorem Pattern.string_eq {text : String} {w : List Char}
    (h : Pattern (.token (.string text)) w) : w = '"' :: (text.toList ++ ['"']) := by
  cases h
  rw [String.toList_ofList]

theorem Pattern.ne_nil {content : Content} {text : List Char} (h : Pattern content text) :
    text ≠ [] := by
  cases h with
  | punctuator is => rcases punctuator_cases is with ⟨_, h, -⟩ | ⟨_, h, -⟩ <;> rw [h] <;> nofun
  | keyword is =>
      obtain ⟨⟨_, _, h, -⟩, -⟩ := keyword_word is
      rw [h]
      nofun
  | whole nonempty _ => exact nonempty
  | fraction => simp
  | _ => nofun

theorem isPrefix_cut (c : Char) (cs : List Char) : (cut c cs).1.text <+: c :: cs :=
  ⟨_, cut_append c cs⟩

/-- What fits a pattern is cut off as a longest prefix. -/
theorem longest_cut {c : Char} {cs : List Char}
    (h : Pattern (cut c cs).1.content (cut c cs).1.text) :
    Longest (c :: cs) (cut c cs).1.content (cut c cs).1.text (cut c cs).2 where
  pattern := h
  split := cut_append c cs
  longest content text pattern hp := by
    rcases pattern.cut hp with same | ⟨longer, -⟩
    · rw [same]
    · exact Nat.le_of_lt longer

/-- There is one longest prefix, and one content that it fits. -/
theorem Longest.cut_eq {content : Content} {text rest : List Char} {c : Char} {cs : List Char}
    (h : Longest (c :: cs) content text rest) : cut c cs = (⟨text, content⟩, rest) := by
  have whole := cut_append c cs
  rcases h.pattern.cut ⟨rest, h.split⟩ with same | ⟨longer, noError⟩
  · rw [same, ← h.split, List.append_cancel_left_eq] at whole
    exact Prod.ext same whole
  · rcases cut_cases c cs with fits | ⟨-, -, heq⟩ | ⟨-, heq⟩
    · exact absurd longer (Nat.not_lt.2 (h.longest _ _ fits (isPrefix_cut c cs)))
    · exact absurd (by rw [heq]) (noError .unexpectedCharacter)
    · exact absurd (by rw [heq]) (noError .unterminatedString)

theorem Fitless.cut_eq {c : Char} {cs : List Char} (h : Fitless (c :: cs)) :
    (c ≠ '"' ∧ c ≠ '\n' ∧ cut c cs = (⟨[c], .error .unexpectedCharacter⟩, cs)) ∨
    (c = '"' ∧ cut c cs = (⟨'"' :: cs, .error .unterminatedString⟩, [])) :=
  (cut_cases c cs).resolve_left fun fits => h _ _ fits (isPrefix_cut c cs)

theorem fitless_of_error {c : Char} {cs : List Char} {e : LexicalError}
    (h : (cut c cs).1.content = .error e) : Fitless (c :: cs) := by
  intro content text pattern hp
  rcases pattern.cut hp with same | ⟨-, noError⟩
  · rw [same] at h
    cases pattern <;> cases h
  · exact noError e h

/-! ## Reading a whole text -/

theorem pieces_of_cut {c : Char} {cs rest : List Char} {p : Piece}
    (h : cut c cs = (p, rest)) : pieces (c :: cs) = p :: pieces rest := by
  rw [pieces, h]

theorem Longest.pieces_eq {cs text rest : List Char} {content : Content}
    (h : Longest cs content text rest) : pieces cs = ⟨text, content⟩ :: pieces rest := by
  cases cs with
  | nil => exact absurd (List.append_eq_nil_iff.1 h.split).1 h.pattern.ne_nil
  | cons c cs => exact pieces_of_cut h.cut_eq

theorem Lexes.eq {line : Nat} {cs : List Char} {ps : List Piece} {its : List Item}
    (h : Lexes line cs ps its) : ps = pieces cs ∧ its = items line (pieces cs) := by
  induction h with
  | done =>
      rw [pieces]
      exact ⟨rfl, rfl⟩
  | skip longest _ ih =>
      rw [longest.pieces_eq, ih.1, ih.2]
      exact ⟨rfl, rfl⟩
  | token longest _ ih =>
      rw [longest.pieces_eq, ih.1, ih.2]
      exact ⟨rfl, rfl⟩
  | unexpected noQuote none _ ih =>
      obtain ⟨-, noLine, heq⟩ := none.cut_eq.resolve_right fun h => noQuote h.1
      rw [pieces_of_cut heq, ih.1, ih.2, items]
      simp [Piece.item?, noLine]
  | @unterminated line cs none =>
      obtain ⟨-, heq⟩ := none.cut_eq.resolve_left fun h => h.1 rfl
      rw [pieces_of_cut heq, pieces, items]
      simp [Piece.item?, items]

/-- The stretches and items of a text are what the lexical grammar says. -/
theorem lexes_pieces (line : Nat) (cs : List Char) :
    Lexes line cs (pieces cs) (items line (pieces cs)) := by
  fun_induction pieces cs generalizing line with
  | case1 => exact .done
  | case2 c cs ih =>
      rcases cut_cases c cs with fits | ⟨noQuote, noLine, heq⟩ | ⟨rfl, heq⟩
      · have longest := longest_cut fits
        have more := ih (line + (cut c cs).1.text.count '\n')
        rw [items]
        revert longest more
        rcases cut c cs with ⟨⟨text, content⟩, rest⟩
        intro longest more
        cases content with
        | skipped => exact .skip longest more
        | token kind => exact .token longest more
        | error e => cases longest.pattern
      · have more := ih line
        have none := fitless_of_error (congrArg (·.1.content) heq)
        rw [heq] at more ⊢
        have started := Lexes.unexpected noQuote none more
        rw [items]
        simpa [Piece.item?, noLine] using started
      · have none := fitless_of_error (congrArg (·.1.content) heq)
        rw [heq]
        have started : Lexes line _ _ _ := .unterminated none
        rw [pieces, items]
        simpa [Piece.item?, items] using started

theorem lexes_iff {line : Nat} {cs : List Char} {ps : List Piece} {its : List Item} :
    Lexes line cs ps its ↔ ps = pieces cs ∧ its = items line (pieces cs) := by
  refine ⟨Lexes.eq, ?_⟩
  rintro ⟨rfl, rfl⟩
  exact lexes_pieces line cs

end Lexicon

end LoxLang
