import LoxLang.Text.Nested

/-!
# Writing nested lists

A text shows some parts if they are what it consists of, whatever stands behind
it, as long as that ends the last word. Texts that show parts are put together
from words, blanks and parentheses, and the text of a nested list is read as
that list again: reading keeps track of the lists that are open, and a list
that is read through is one more item of the list around it.
-/

namespace LoxLang.Nested

/-! ## From a text to its parts -/

/-- Does the character end a word? -/
def separates (c : Char) : Bool := c == ' ' || c == '(' || c == ')'

/-- A text that can stand behind a word without adding to it. -/
def Ends (cs : List Char) : Prop := ∀ c ∈ cs.head?, separates c = true

/-- The text is one word. -/
abbrev IsWord (w : List Char) : Prop := w ≠ [] ∧ ∀ c ∈ w, separates c = false

/-- The text consists of the parts, whatever is behind it. -/
def Shows (text : List Char) (ps : List Part) : Prop :=
  ∀ rest, Ends rest → partsAfter [] (text ++ rest) = ps ++ partsAfter [] rest

theorem partsAfter_word {cs : List Char} (free : ∀ c ∈ cs, separates c = false)
    (w rest : List Char) : partsAfter w (cs ++ rest) = partsAfter (w ++ cs) rest := by
  induction cs generalizing w with
  | nil => rw [List.append_nil, List.nil_append]
  | cons c cs ih =>
      obtain ⟨letter, free⟩ := List.forall_mem_cons.1 free
      simp only [separates, Bool.or_eq_false_iff, beq_eq_false_iff_ne] at letter
      rw [List.cons_append, partsAfter.eq_def]
      split
      · contradiction
      · next h => exact absurd (List.cons.inj h).1 letter.1.1
      · next h => exact absurd (List.cons.inj h).1 letter.1.2
      · next h => exact absurd (List.cons.inj h).1 letter.2
      · next h =>
          obtain ⟨rfl, rfl⟩ := List.cons.inj h
          rw [ih free, List.append_assoc, List.singleton_append]

theorem partsAfter_ended {rest : List Char} (h : Ends rest) (w : List Char) :
    partsAfter w rest = ended w ++ partsAfter [] rest := by
  cases rest with
  | nil => exact (List.append_nil _).symm
  | cons c cs =>
      have ends := h c rfl
      simp only [separates, Bool.or_eq_true, beq_iff_eq] at ends
      rcases ends with (rfl | rfl) | rfl <;> rfl

namespace Shows

variable {text text' : List Char} {ps ps' : List Part}

theorem nil : Shows [] [] := fun _ _ => rfl

theorem word {w : List Char} (is : IsWord w) : Shows w [.word (String.ofList w)] := by
  intro rest ends
  rw [partsAfter_word is.2, List.nil_append, partsAfter_ended ends]
  obtain ⟨c, cs, rfl⟩ := List.exists_cons_of_ne_nil is.1
  rfl

theorem append (h : Shows text ps) (h' : Shows text' ps') (ends : Ends text') :
    Shows (text ++ text') (ps ++ ps') := by
  intro rest hrest
  have behind : Ends (text' ++ rest) := by
    cases text' with
    | nil => exact hrest
    | cons c cs => exact ends
  rw [List.append_assoc, h _ behind, h' _ hrest, List.append_assoc]

theorem blank (h : Shows text ps) : Shows (' ' :: text) ps := h

theorem list (h : Shows text ps) :
    Shows ('(' :: (text ++ [')'])) (.opening :: (ps ++ [.closing])) := by
  intro rest _
  have inner := h (')' :: rest) (by rintro _ ⟨⟩; rfl)
  simp only [List.cons_append, List.append_assoc, List.nil_append]
  exact congrArg (Part.opening :: ·) inner

end Shows

/-- The text shows the parts, and it can stand behind a word. -/
structure Tail (text : List Char) (ps : List Part) : Prop where
  shows : Shows text ps
  ends : Ends text

namespace Tail

variable {text text' : List Char} {ps ps' : List Part}

theorem nil : Tail [] [] := ⟨.nil, nofun⟩

theorem cons (h : Shows text ps) (tail : Tail text' ps') :
    Tail (' ' :: (text ++ text')) (ps ++ ps') :=
  ⟨(h.append tail.shows tail.ends).blank, by rintro _ ⟨⟩; rfl⟩

/-- A list may follow a word with no blank between them. -/
theorem list (h : Shows text ps) (tail : Tail text' ps') :
    Tail ('(' :: (text ++ [')']) ++ text') (.opening :: (ps ++ [.closing]) ++ ps') :=
  ⟨h.list.append tail.shows tail.ends, by rintro _ ⟨⟩; rfl⟩

/-- A list with a word at its head. -/
theorem headed {w : List Char} (is : IsWord w) (tail : Tail text ps) :
    Shows ('(' :: (w ++ text ++ [')']))
      (.opening :: .word (String.ofList w) :: (ps ++ [.closing])) :=
  ((Shows.word is).append tail.shows tail.ends).list

end Tail

/-! ## From the parts to the list -/

mutual

/-- What the text of a nested list consists of. -/
def parts : Nested → List Part
  | .word w => [.word w]
  | .list items => .opening :: (allParts items ++ [.closing])

/-- What the text of several nested lists consists of. -/
def allParts : List Nested → List Part
  | [] => []
  | n :: ns => n.parts ++ allParts ns

end

mutual

theorem ofParts?_parts (ps : List Part) (items : List Nested) (outer : List (List Nested)) :
    ∀ n : Nested, ofParts? (n.parts ++ ps) (items :: outer) = ofParts? ps ((n :: items) :: outer)
  | .word w => by rw [parts, List.singleton_append, ofParts?]
  | .list ns => by
      rw [parts, List.cons_append, ofParts?, List.append_assoc, ofParts?_allParts, List.append_nil,
        List.singleton_append, ofParts?, List.reverse_reverse]

theorem ofParts?_allParts (ps : List Part) (items : List Nested) (outer : List (List Nested)) :
    ∀ ns : List Nested, ofParts? (allParts ns ++ ps) (items :: outer) =
      ofParts? ps ((ns.reverse ++ items) :: outer)
  | [] => by rw [allParts, List.nil_append, List.reverse_nil, List.nil_append]
  | n :: ns => by
      rw [allParts, List.append_assoc, ofParts?_parts, ofParts?_allParts, List.reverse_cons,
        List.append_assoc, List.singleton_append]

end

/-- A text that shows a nested list is read as that list. -/
theorem ofText?_of_shows {text : String} {n : Nested} (h : Shows text.toList n.parts) :
    ofText? text = some n := by
  have all := h [] nofun
  rw [List.append_nil] at all
  rw [ofText?, all, ofParts?_parts]
  rfl

end LoxLang.Nested
