import Mathlib.Data.List.Permutation
import LoxLang.Proofs.StatementAcceptance
import LoxLang.Proofs.ProgramGrammar
import LoxLang.Proofs.Parsing

/-!
# The first error points at the first impossible token

The grammar has assignments to any `or` expression and lists of any length, so
that what violates it is just what ends a declaration. Up to the first such
error the parser has only read what begins a program, and the token at which it
is found cannot go on with that: if it could, the parser would have to read the
continuation without an error, but it stops at that token whatever follows.
-/

namespace LoxLang.Grammar

open Phrase

variable {ts front : List Token} {last t : Token}

/-- The last token is an end of the input, and the only one. -/
def EndsOnce (ts : List Token) : Prop :=
  ∃ front last, ts = front ++ [last] ∧ (∀ t ∈ front, t.isEnd = false) ∧ last.isEnd = true

theorem isProgram_append (ending : last.isEnd = true) :
    IsProgram (front ++ [last]) ↔ (many (use .declaration)).Derives front := by
  constructor
  · rintro ⟨front', last', split, -, h⟩
    obtain ⟨rfl, -⟩ := List.append_inj' split rfl
    exact h
  · exact fun h => ⟨front, last, rfl, ending, h⟩

/-- A beginning of declarations is one of a program. -/
theorem beginsProgram_of_viable (h : (many (use .declaration)).Viable front) :
    BeginsProgram front := by
  obtain ⟨more, h⟩ := h
  refine ⟨more ++ [.endOn 1], ?_⟩
  rw [← List.append_assoc]
  exact (isProgram_append rfl).2 h

/-- A beginning of a program that does not contain the end is one of declarations. -/
theorem viable_of_beginsProgram (inner : ∀ t ∈ front, t.isEnd = false) (h : BeginsProgram front) :
    (many (use .declaration)).Viable front := by
  obtain ⟨more, front', last, split, ending, h⟩ := h
  rcases List.eq_nil_or_concat more with rfl | ⟨more, last', rfl⟩
  · -- the end of the program would be in front of the cut
    have := inner last (by rw [← List.append_nil front, split]; simp)
    rw [ending] at this
    cases this
  · rw [List.concat_eq_append, ← List.append_assoc] at split
    obtain ⟨rfl, -⟩ := List.append_inj' split rfl
    exact ⟨more, h⟩

/-- What begins a program and has its end is a program. -/
theorem isProgram_of_beginsProgram (ending : last.isEnd = true)
    (h : BeginsProgram (front ++ [last])) : IsProgram (front ++ [last]) := by
  obtain ⟨more, front', last', split, -, h⟩ := h
  rcases List.eq_nil_or_concat more with rfl | ⟨more, last'', rfl⟩
  · rw [List.append_nil] at split
    obtain ⟨rfl, -⟩ := List.append_inj' split rfl
    exact (isProgram_append ending).2 h
  · rw [List.concat_eq_append, ← List.append_assoc] at split
    obtain ⟨rfl, -⟩ := List.append_inj' split rfl
    have := h.inner last (by simp)
    rw [ending] at this
    cases this

/-- Declarations are read without an error that unwinds if and only if they are derived. -/
theorem unwinding?_declarations :
    (declarations false ts).reading.unwinding? = none ↔ (many (use .declaration)).Derives ts := by
  constructor
  · intro clean
    obtain ⟨front, split, derives, -⟩ := (declarations_recognizes false ts).reads
    rw [show (declarations false ts).reading.rest = [] from Parser.declarations_rest ts,
      List.append_nil] at split
    rw [split]
    exact derives clean
  · intro h
    have accepts : Accepts (fun ts => (declarations false ts).reading) ts [] :=
      declarations_accepts false h (endsDeclarations_false_iff.2 rfl)
    obtain ⟨v, reports, hd, mild⟩ := accepts
    have hd : (declarations false (ts ++ [])).reading = _ := hd
    rw [List.append_nil] at hd
    rw [hd]
    exact Reading.unwinding?_eq_none.2 mild

theorem head?_unwindingErrors (inner : ∀ t ∈ front, t.isEnd = false) (ending : last.isEnd = true) :
    (unwindingErrors (front ++ [last])).head? =
      (declarations false front).reading.unwinding?.map fun c => ⟨c.found.getD last, c.error⟩ := by
  have located' : endToken (front ++ [last]) = last := by
    rw [endToken_append inner, endToken, List.find?_cons_of_pos ending]
    rfl
  rw [unwindingErrors, program, content_append inner ending, located', located, List.filter_map,
    List.head?_map, List.head?_filter]
  rfl

/-- If the tokens are no program, the first error that ends a declaration is found at the first
token that cannot go on with a program; if they are one, there is no such error. -/
theorem first_unwinding_error (ends : EndsOnce ts) :
    (IsProgram ts → unwindingErrors ts = []) ∧
      (¬IsProgram ts → ∃ i e, (unwindingErrors ts).head? = some e ∧ ts[i]? = some e.token ∧
        BeginsProgram (ts.take i) ∧ ¬BeginsProgram (ts.take (i + 1))) := by
  obtain ⟨front, last, rfl, inner, ending⟩ := ends
  have first := head?_unwindingErrors inner ending
  rw [isProgram_append ending, ← unwinding?_declarations]
  constructor
  · intro clean
    rw [clean] at first
    exact List.head?_eq_none_iff.1 first
  · intro unclean
    obtain ⟨c, hc⟩ := Option.ne_none_iff_exists'.1 unclean
    obtain ⟨read, rest, rfl, found, viable, same⟩ :=
      (declarations_recognizes false front).stuck c hc
    rw [hc] at first
    refine ⟨read.length, _, first, ?_, ?_, ?_⟩
    · rw [List.append_assoc, List.getElem?_append_right (Nat.le_refl _), Nat.sub_self]
      cases rest <;> simp [found]
    · rw [List.append_assoc, List.take_left]
      exact beginsProgram_of_viable viable
    · intro begins
      cases rest with
      | nil =>
          rw [List.append_nil, List.take_of_length_le (by simp)] at begins
          have h := (isProgram_append ending).1 (isProgram_of_beginsProgram ending begins)
          rw [List.append_nil] at hc
          rw [unwinding?_declarations.2 h] at hc
          cases hc
      | cons t behind =>
          have cut : (read ++ t :: behind ++ [last]).take (read.length + 1) = read ++ [t] := by
            rw [List.append_assoc, List.take_length_add_append]
            rfl
          rw [cut] at begins
          have inner' : ∀ u ∈ read ++ [t], u.isEnd = false := fun u hu => inner u (by
            simp only [List.mem_append, List.mem_cons] at hu ⊢
            tauto)
          obtain ⟨more, h⟩ := viable_of_beginsProgram inner' begins
          rw [List.append_assoc, List.singleton_append] at h
          have stops := same t behind rfl more
          rw [unwinding?_declarations.2 h] at stops
          cases stops

/-- `print \x7d` -/
def strayBrace : List Token :=
  [⟨.symbol .printWord, "print", 1⟩, ⟨.symbol .rightBrace, "\x7d", 1⟩, .endOn 1]

/-- The word begins a program, and the brace cannot go on with it. -/
theorem strayBrace_found :
    EndsOnce strayBrace ∧ ¬IsProgram strayBrace ∧
      unwindingErrors strayBrace = [⟨⟨.symbol .rightBrace, "\x7d", 1⟩, .expression⟩] ∧
      BeginsProgram (strayBrace.take 1) ∧ ¬BeginsProgram (strayBrace.take 2) := by
  have ends : EndsOnce strayBrace :=
    ⟨strayBrace.take 2, .endOn 1, rfl, by simp [strayBrace, Token.isEnd], rfl⟩
  have errors : unwindingErrors strayBrace =
      [⟨⟨.symbol .rightBrace, "\x7d", 1⟩, .expression⟩] := by cbv
  obtain ⟨clean, stray⟩ := first_unwinding_error ends
  have noProgram : ¬IsProgram strayBrace := fun h => by
    rw [clean h] at errors
    cases errors
  obtain ⟨i, e, first, found, begins, stops⟩ := stray noProgram
  rw [errors] at first
  cases first
  -- the brace is the token at position 1 and no other
  rcases i with _ | _ | _ | i
  · cases found
  · exact ⟨ends, noProgram, errors, begins, stops⟩
  · cases found
  · cases found

end LoxLang.Grammar
