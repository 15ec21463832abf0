import LoxLang.Proofs.Cuts
import LoxLang.Proofs.Renaming
import LoxLang.Proofs.ScanJoin

/-!
# Other names in a source text

A name in a text can be replaced by another one where it stands, and the text
is cut as before: the pieces are those of the first text with the name
replaced. What a cut looks at behind a piece is one character, or two behind a
number, and where these begin a word it is of no account which word that is.
-/

namespace LoxLang

open Lexicon

namespace Scan

/-! ## Texts that begin alike -/

/-- The two texts are the same up to a place where both begin a word, or up to their end. -/
inductive Looks : List Char → List Char → Prop
  | done : Looks [] []
  | same {c : Char} {cs ds : List Char} (more : Looks cs ds) : Looks (c :: cs) (c :: ds)
  | word {c d : Char} {cs ds : List Char} (left : isWordStart c = true)
      (right : isWordStart d = true) : Looks (c :: cs) (d :: ds)

theorem Looks.append (text : List Char) {cs ds : List Char} (h : Looks cs ds) :
    Looks (text ++ cs) (text ++ ds) := by
  induction text with
  | nil => exact h
  | cons c text ih => exact .same ih

/-- A character that begins no word stands in front of both texts or of none. -/
theorem Looks.head_eq {cs ds : List Char} (h : Looks cs ds) {c : Char}
    (plain : isWordStart c = false) : cs.head? = some c ↔ ds.head? = some c := by
  cases h with
  | done => exact Iff.rfl
  | same => exact Iff.rfl
  | word left right =>
      constructor <;> intro first <;> cases first
      · rw [left] at plain
        cases plain
      · rw [right] at plain
        cases plain

variable {p : Char → Bool} {text cs ds : List Char}

/-- What takes all characters that begin words, or none of them, takes the same from the front. -/
theorem Looks.takeWhile (h : Looks cs ds)
    (even : ∀ c d, isWordStart c = true → isWordStart d = true → p c = p d)
    (taken : (text ++ cs).takeWhile p = text) : (text ++ ds).takeWhile p = text := by
  obtain ⟨all, stop⟩ := takeWhile_eq_iff.1 taken
  refine takeWhile_eq_iff.2 ⟨all, ?_⟩
  cases h with
  | done => exact stop
  | same => exact stop
  | word left right =>
      intro _ first
      cases first
      rw [even _ _ right left]
      exact stop _ rfl

theorem ne_of_isWordStart {c d : Char} (h : isWordStart c = true) (hd : isWordStart d = false) :
    (c != d) = true := by
  refine bne_iff_ne.2 ?_
  rintro rfl
  rw [h] at hd
  cases hd

theorem even_isDigit : ∀ c d, isWordStart c = true → isWordStart d = true →
    isDigit c = isDigit d := fun _ _ left right => by
  rw [isDigit_of_isWordStart left, isDigit_of_isWordStart right]

/-! ## A cut in front of another text -/

theorem Looks.seesFraction (h : Looks cs ds) (sees : SeesFraction ds) : SeesFraction cs := by
  obtain ⟨d, rest, rfl, digit⟩ := sees
  cases h with
  | word _ right => exact absurd right (by decide)
  | same more =>
      cases more with
      | same => exact ⟨d, _, rfl, digit⟩
      | word _ right => exact absurd digit (by rw [isDigit_of_isWordStart right]; nofun)

/-- What cuts a word off in front of a text does so in front of one that looks like it. -/
theorem Looks.cuts_word {c : Char} {w : List Char} {content : Content} (h : Looks cs ds)
    (cuts : Cuts (c :: w) content cs) (start : isWordStart c = true)
    (kind : content = .token (wordKind (c :: w))) : Cuts (c :: w) content ds := by
  rw [kind]
  refine Scan.cuts_word start (h.takeWhile (fun _ _ left right => ?_) (cuts.word start))
  rw [isWordPart, isWordPart, left, right, Bool.true_or, Bool.true_or]

/-- The piece that is cut off in front of a text is also cut off in front of one that looks like
it. -/
theorem Looks.cuts {content : Content} (h : Looks cs ds) (fits : Pattern content text)
    (cuts : Cuts text content cs) : Cuts text content ds := by
  cases fits with
  | blank is => exact cuts_blank (isBlank_iff.2 is)
  | @comment body oneLine =>
      have before := cuts _ _ rfl
      rw [List.cons_append, cut_comment, ← List.cons_append, ← List.cons_append] at before
      have taken := h.takeWhile (fun _ _ left right => by
        rw [ne_of_isWordStart left rfl, ne_of_isWordStart right rfl])
        (congrArg (·.1.text) before)
      intro c _ first
      cases first
      rw [List.cons_append, cut_comment, ← List.cons_append, ← List.cons_append,
        cutComment_eq taken]
  | @punctuator s is =>
      rcases punctuator_cases is with ⟨c, spelled, hs⟩ | ⟨c, spelled, hs⟩
      · rw [spelled] at cuts ⊢
        obtain ⟨slash, equal⟩ := (cuts_single hs).1 cuts
        refine (cuts_single hs).2 ⟨fun heq => ?_, fun double => ?_⟩
        · exact fun head => slash heq ((h.head_eq rfl).2 head)
        · exact fun head => equal double ((h.head_eq rfl).2 head)
      · rw [spelled]
        exact cuts_double hs
  | @keyword s is =>
      obtain ⟨⟨c, w, spelled, start⟩, -⟩ := keyword_word is
      have kind := wordKind_keyword is
      rw [spelled] at cuts kind ⊢
      exact h.cuts_word cuts start (by rw [kind])
  | @identifier d w start parts free =>
      exact h.cuts_word cuts start (by rw [wordKind_identifier free])
  | whole nonempty digits =>
      obtain ⟨taken, noFraction⟩ := cuts.whole nonempty digits
      exact cuts_whole digits (fun sees => noFraction (h.seesFraction sees))
        (h.takeWhile even_isDigit taken)
  | fraction nonempty digits nonempty' digits' =>
      exact cuts_fraction nonempty digits nonempty' digits'
        (h.takeWhile even_isDigit (cuts.fraction nonempty digits nonempty' digits'))
  | string closed => exact cuts_string closed

/-! ## Pieces with another name -/

variable {x y : String}

/-- The second piece is the first, or the name `y` where the first is the name `x`. -/
inductive Piece.Renamed (x y : String) : Piece → Piece → Prop
  | same (p : Piece) : Renamed x y p p
  | name : Renamed x y ⟨x.toList, .token .identifier⟩ ⟨y.toList, .token .identifier⟩

/-- What an identifier is spelled like: a word that is none of the language's. -/
theorem identifier_word (h : Pattern (.token .identifier) text) :
    (∃ c w, text = c :: w ∧ isWordStart c = true) ∧ (∀ c ∈ text, isWordPart c = true) ∧
      wordKind text = .identifier := by
  cases h with
  | @identifier c w start parts free =>
      refine ⟨⟨c, w, rfl, start⟩, List.forall_mem_cons.2 ⟨?_, parts⟩, wordKind_identifier free⟩
      rw [isWordPart, start, Bool.true_or]

/-- An identifier in front of a text, in front of which another one ends, ends there too. -/
theorem Looks.cuts_other (h : Looks cs ds)
    (hx : Pattern (.token .identifier) x.toList)
    (hy : Pattern (.token .identifier) y.toList)
    (cuts : Cuts x.toList (.token .identifier) cs) :
    Cuts y.toList (.token .identifier) ds := by
  obtain ⟨⟨c, w, spelled, start⟩, parts, -⟩ := identifier_word hx
  obtain ⟨⟨c', w', spelled', start'⟩, parts', kind'⟩ := identifier_word hy
  have other : Cuts y.toList (.token .identifier) cs := by
    rw [spelled] at cuts
    rw [spelled'] at parts' kind' ⊢
    rw [← kind']
    exact Scan.cuts_word start'
      (takeWhile_eq_iff.2 ⟨parts', (takeWhile_eq_iff.1 (cuts.word start)).2⟩)
  rw [spelled'] at other kind' ⊢
  exact h.cuts_word other start' (by rw [kind'])

theorem looks_names (hx : Pattern (.token .identifier) x.toList)
    (hy : Pattern (.token .identifier) y.toList) (cs ds : List Char) :
    Looks (x.toList ++ cs) (y.toList ++ ds) := by
  obtain ⟨⟨c, w, spelled, start⟩, -, -⟩ := identifier_word hx
  obtain ⟨⟨c', w', spelled', start'⟩, -, -⟩ := identifier_word hy
  rw [spelled, spelled']
  exact .word start start'

/-- A text without errors is cut as before when an identifier in it is replaced by another. -/
theorem pieces_renamed (hx : Pattern (.token .identifier) x.toList)
    (hy : Pattern (.token .identifier) y.toList) {ps' : List Piece}
    (clean : ∀ p ∈ pieces cs, ∀ e, p.content ≠ .error e)
    (h : List.Forall₂ (Piece.Renamed x y) (pieces cs) ps') :
    pieces (ps'.flatMap (·.text)) = ps' ∧ Looks cs (ps'.flatMap (·.text)) := by
  fun_induction pieces cs generalizing ps' with
  | case1 =>
      cases h
      exact ⟨by rw [List.flatMap_nil, pieces], .done⟩
  | case2 c cs ih =>
      obtain ⟨noError, clean⟩ := List.forall_mem_cons.1 clean
      have fits : Pattern (cut c cs).1.content (cut c cs).1.text := by
        rcases cut_cases c cs with fits | ⟨-, -, heq⟩ | ⟨-, heq⟩
        · exact fits
        · exact absurd (by rw [heq]) (noError .unexpectedCharacter)
        · exact absurd (by rw [heq]) (noError .unterminatedString)
      have cuts := cuts_cut c cs
      rw [← cut_append c cs]
      generalize cut c cs = first at *
      obtain ⟨p, rest⟩ := first
      cases h with
      | @cons _ _ _ ps' head tail =>
          obtain ⟨others, looks⟩ := ih clean tail
          rw [List.flatMap_cons]
          cases head with
          | same =>
              rw [(looks.cuts fits cuts).pieces_eq fits.ne_nil, others]
              exact ⟨rfl, looks.append _⟩
          | name =>
              rw [(looks.cuts_other hx hy cuts).pieces_eq hy.ne_nil, others]
              exact ⟨rfl, looks_names hx hy _ _⟩

/-! ## Tokens with another name -/

theorem identifier_count (h : Pattern (.token .identifier) text) : text.count '\n' = 0 :=
  List.count_eq_zero.2 fun line => absurd ((identifier_word h).2.1 _ line) (by decide)

/-- What a piece with other tokens yields is what some piece with other names yields. -/
theorem Piece.exists_renamed (hx : Pattern (.token .identifier) x.toList)
    (hy : Pattern (.token .identifier) y.toList) {line : Nat} {p : Piece}
    (name : p.text = x.toList → p.content = .token .identifier) {us : List Token}
    (h : List.Forall₂ (Token.Renaming x y) ((p.item? line).toList.filterMap Item.token?) us) :
    ∃ p', Piece.Renamed x y p p' ∧ p'.text.count '\n' = p.text.count '\n' ∧
      (p'.item? line).toList.filterMap Item.token? = us ∧
      (p'.item? line).toList.filterMap Item.error? =
        (p.item? line).toList.filterMap Item.error? := by
  obtain ⟨text, content⟩ := p
  cases content with
  | skipped =>
      cases h
      exact ⟨_, .same _, rfl, rfl, rfl⟩
  | error e =>
      cases h
      exact ⟨_, .same _, rfl, rfl, rfl⟩
  | token kind =>
      cases h with
      | cons token rest =>
          cases rest
          obtain ⟨marked, rfl⟩ := token
          by_cases renamed : marked = true ∧ String.ofList text = x
          · have spelled : text = x.toList := by rw [← renamed.2, String.toList_ofList]
            subst spelled
            cases name rfl
            refine ⟨_, .name, ?_, ?_, rfl⟩
            · rw [identifier_count hx, identifier_count hy]
            · show [(⟨.identifier, String.ofList y.toList, line⟩ : Token)] =
                [⟨.identifier, renamedName x y marked (String.ofList x.toList), line⟩]
              rw [String.ofList_toList, renamedName, if_pos renamed]
          · refine ⟨_, .same _, rfl, ?_, rfl⟩
            show [(⟨kind, String.ofList text, line⟩ : Token)] =
              [⟨kind, renamedName x y marked (String.ofList text), line⟩]
            rw [renamedName, if_neg renamed]

theorem forall₂_append_left {α β : Type} {R : α → β → Prop} {as bs : List α} {cs : List β}
    (h : List.Forall₂ R (as ++ bs) cs) :
    ∃ cs₁ cs₂, List.Forall₂ R as cs₁ ∧ List.Forall₂ R bs cs₂ ∧ cs = cs₁ ++ cs₂ := by
  induction as generalizing cs with
  | nil => exact ⟨[], cs, .nil, h, rfl⟩
  | cons a as ih =>
      cases h with
      | cons head tail =>
          obtain ⟨cs₁, cs₂, first, others, rfl⟩ := ih tail
          exact ⟨_ :: cs₁, cs₂, .cons head first, others, rfl⟩

theorem exists_pieces (hx : Pattern (.token .identifier) x.toList)
    (hy : Pattern (.token .identifier) y.toList) {line : Nat} {ps : List Piece}
    (names : ∀ p ∈ ps, p.text = x.toList → p.content = .token .identifier) {us : List Token}
    (h : List.Forall₂ (Token.Renaming x y) ((inner line ps).filterMap Item.token?) us) :
    ∃ ps', List.Forall₂ (Piece.Renamed x y) ps ps' ∧
      (inner line ps').filterMap Item.token? = us ∧
      (inner line ps').filterMap Item.error? = (inner line ps).filterMap Item.error? := by
  induction ps generalizing line us with
  | nil =>
      cases h
      exact ⟨[], .nil, rfl, rfl⟩
  | cons p ps ih =>
      obtain ⟨name, names⟩ := List.forall_mem_cons.1 names
      rw [inner, List.filterMap_append] at h
      obtain ⟨us, vs, first, others, rfl⟩ := forall₂_append_left h
      obtain ⟨p', piece, lines, tokens, errors⟩ := p.exists_renamed hx hy name first
      obtain ⟨ps', pieces, tokens', errors'⟩ := ih names others
      refine ⟨p' :: ps', .cons piece pieces, ?_, ?_⟩
      · rw [inner, List.filterMap_append, lines, tokens, tokens']
      · rw [inner, inner, List.filterMap_append, List.filterMap_append, lines, errors, errors']

/-- A piece that is spelled like an identifier is one. -/
theorem content_of_text (hx : Pattern (.token .identifier) x.toList) {p : Piece}
    (h : p ∈ pieces cs) (spelled : p.text = x.toList) : p.content = .token .identifier := by
  obtain ⟨⟨c, w, word, start⟩, -, kind⟩ := identifier_word hx
  fun_induction pieces cs with
  | case1 => cases h
  | case2 d cs ih =>
      rcases List.mem_cons.1 h with rfl | h
      · have cuts := cuts_cut d cs
        rw [spelled, word] at cuts
        have before := cuts _ _ rfl
        rw [cut_wordStart start] at before
        have content := congrArg (·.1.content) before
        dsimp only [cutWord] at content
        rw [← content, ← kind, word]
        have text := cuts.word start
        rw [List.cons_append] at text
        rw [text]
      · exact ih h

/-- Where tokens of a text without errors may be called otherwise, there is a text with these
tokens: the same one with the name replaced. -/
theorem exists_renamed_text (hx : Pattern (.token .identifier) x.toList)
    (hy : Pattern (.token .identifier) y.toList) {source : String} (clean : errors source = [])
    {us : List Token}
    (h : List.Forall₂ (Token.Renaming x y) (Grammar.content (tokens source)) us) :
    ∃ source', List.Forall₂ (Piece.Renamed x y) (pieces source.toList) (pieces source'.toList) ∧
      Grammar.content (tokens source') = us ∧ errors source' = [] := by
  rw [content_tokens] at h
  rw [errors_eq] at clean
  obtain ⟨ps', renamed, tokens, errors⟩ :=
    exists_pieces hx hy (fun _ hp => content_of_text hx hp) h
  have cut := (pieces_renamed hx hy (no_error_of_inner clean) renamed).1
  refine ⟨String.ofList (ps'.flatMap (·.text)), ?_, ?_, ?_⟩
  · rw [String.toList_ofList, cut]
    exact renamed
  · rw [content_tokens, String.toList_ofList, cut, tokens]
  · rw [errors_eq, String.toList_ofList, cut, errors, clean]

end Scan

end LoxLang
