/-!
# Nested lists as text

A text of words and parentheses is a nested list. A blank or a parenthesis ends
a word, and a blank does nothing else, so there may be one in front of a
parenthesis or not.
-/

namespace LoxLang

/-- A word, or a list of such. -/
inductive Nested where
  | word (text : String)
  | list (items : List Nested)

namespace Nested

/-- What a text consists of, apart from blanks. -/
inductive Part where
  | opening
  | closing
  | word (text : String)
deriving DecidableEq, Repr

/-- The word that ends here, if there is one. -/
def ended : List Char → List Part
  | [] => []
  | c :: w => [.word (String.ofList (c :: w))]

/-- The parts of a text that stands behind the beginning of a word. -/
def partsAfter (w : List Char) : List Char → List Part
  | [] => ended w
  | ' ' :: cs => ended w ++ partsAfter [] cs
  | '(' :: cs => ended w ++ .opening :: partsAfter [] cs
  | ')' :: cs => ended w ++ .closing :: partsAfter [] cs
  | c :: cs => partsAfter (w ++ [c]) cs

/-- The nested list that parts are, with the lists that are open in front of them: the innermost
first, and the items of each in reverse. -/
def ofParts? : List Part → List (List Nested) → Option Nested
  | [], [[n]] => some n
  | .word w :: ps, items :: outer => ofParts? ps ((.word w :: items) :: outer)
  | .opening :: ps, outer => ofParts? ps ([] :: outer)
  | .closing :: ps, items :: items' :: outer =>
    ofParts? ps ((.list items.reverse :: items') :: outer)
  | _, _ => none

/-- The nested list that a text is. -/
def ofText? (text : String) : Option Nested := ofParts? (partsAfter [] text.toList) [[]]

end Nested

end LoxLang
