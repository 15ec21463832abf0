import LoxLang.Proofs.Cuts
import LoxLang.Proofs.ScanJoin

/-!
# Tokens written with spaces between them

The lexemes of tokens, written one behind another with single spaces between
them, are scanned to tokens of the same kinds with the same lexemes. A lexeme
was the longest match where it was read, with whatever stood behind it there.
It fits its pattern all the same, and a space extends no pattern of a token, so
it is the longest match in front of a space too (`cuts_token`). This is a law
of any tokens whose lexemes fit, and those of a source text do, be there errors
between them or not.
-/

namespace LoxLang

open Lexicon

namespace Scan

/-- The lexemes of tokens with single spaces between them. -/
def spaced (ts : List Token) : String := " ".intercalate (ts.map (·.lexeme))

theorem toList_spaced_cons_cons (t u : Token) (ts : List Token) :
    (spaced (t :: u :: ts)).toList = t.lexeme.toList ++ ' ' :: (spaced (u :: ts)).toList := by
  rw [spaced, List.map_cons, List.map_cons, String.intercalate_cons_cons, String.toList_append,
    String.toList_append, List.append_assoc]
  rfl

/-- What a token is apart from its line. -/
def unlined (t : Token) : Token.Kind × String := (t.kind, t.lexeme)

variable {text cs : List Char}

/-- A token in front of a blank or the end is the first item. -/
theorem items_token {kind : Token.Kind} (fits : Pattern (.token kind) text)
    (ends : ∀ c ∈ cs.head?, isBlank c = true) (line : Nat) :
    items line (pieces (text ++ cs)) =
      .token ⟨kind, String.ofList text, line + text.count '\n'⟩ ::
        items (line + text.count '\n') (pieces cs) := by
  rw [(cuts_token fits ends).pieces_eq fits.ne_nil]
  rfl

/-- Nothing stands behind the last token. -/
theorem ends_nil : ∀ c ∈ ([] : List Char).head?, isBlank c = true := by
  rintro c ⟨⟩

/-- A text without line ends that fits the pattern of a token is that one token. -/
theorem ofText_token {kind : Token.Kind} (fits : Pattern (.token kind) text) (oneLine : '\n' ∉ text) :
    ofText (String.ofList text) =
      [.token ⟨kind, String.ofList text, 1⟩, .token (.endOn 1)] := by
  have only := items_token fits ends_nil 1
  rw [List.append_nil, List.count_eq_zero.2 oneLine, pieces] at only
  rw [ofText, String.toList_ofList, only]
  rfl

theorem items_space (line : Nat) : items line (pieces (' ' :: cs)) = items line (pieces cs) := by
  rw [pieces_of_cut (cut_blank rfl cs)]
  rfl

/-- Tokens whose lexemes fit are scanned again from their lexemes. -/
theorem items_spaced {ts : List Token} (fits : ∀ t ∈ ts, Pattern (.token t.kind) t.lexeme.toList)
    (line : Nat) : ∃ (us : List Token) (last : Nat),
      items line (pieces (spaced ts).toList) = us.map .token ++ [.token (.endOn last)] ∧
        us.map unlined = ts.map unlined := by
  induction ts generalizing line with
  | nil =>
      refine ⟨[], line, ?_, rfl⟩
      rw [spaced, List.map_nil, String.intercalate_nil, String.toList_empty, pieces]
      rfl
  | cons t ts ih =>
      obtain ⟨fit, fits⟩ := List.forall_mem_cons.1 fits
      have again : unlined ⟨t.kind, String.ofList t.lexeme.toList,
          line + t.lexeme.toList.count '\n'⟩ = unlined t := by
        rw [unlined, String.ofList_toList, unlined]
      cases ts with
      | nil =>
          have only := items_token fit ends_nil line
          rw [List.append_nil, pieces] at only
          rw [spaced, List.map_singleton, String.intercalate_singleton, only]
          exact ⟨[_], _, rfl, by rw [List.map_singleton, again, List.map_singleton]⟩
      | cons u ts =>
          obtain ⟨us, last, more, same⟩ := ih fits (line + t.lexeme.toList.count '\n')
          rw [toList_spaced_cons_cons, items_token fit (by rintro _ ⟨⟩; rfl), items_space, more]
          exact ⟨_ :: us, last, rfl, by rw [List.map_cons, again, same, ← List.map_cons]⟩

/-- The tokens of a text are those in front of its end, and the end. -/
theorem tokens_eq (source : String) : tokens source =
    Grammar.content (tokens source) ++ [.endOn (1 + source.toList.count '\n')] := by
  rw [content_tokens, tokens, ofText, items_eq, flatMap_pieces, List.filterMap_append]
  rfl

/-- Tokens survive being written again. The lexemes of the tokens of a source text, without its
end, are scanned without errors where they stand with single spaces between them, and to tokens of
the same kinds with the same payloads and lexemes, and then the end. -/
theorem tokens_survive_spacing (source : String) :
    ∃ (ts us : List Token) (last last' : Nat), tokens source = ts ++ [.endOn last] ∧
      ofText (spaced ts) = us.map .token ++ [.token (.endOn last')] ∧
      us.map unlined = ts.map unlined := by
  have fits : ∀ t ∈ Grammar.content (tokens source), Pattern (.token t.kind) t.lexeme.toList := by
    intro t ht
    have noEnd := Grammar.isEnd_of_mem_content ht
    rcases pattern_of_mem_tokens ((List.takeWhile_prefix _).subset ht) with fits | eof
    · exact fits
    · rw [Token.isEnd, eof] at noEnd
      cases noEnd
  obtain ⟨us, last, scanned, same⟩ := items_spaced fits 1
  exact ⟨_, us, _, last, tokens_eq source, scanned, same⟩

end Scan

end LoxLang
