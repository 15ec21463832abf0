import LoxLang.Token

/-!
# Cutting source text into tokens

The text is cut into pieces, and no character is lost: the pieces' texts
concatenate to the source. At each point the piece is the longest stretch that
one rule matches: a blank, a comment up to the end of its line, a string up to
the next quote, a number, a word, an operator. A character that starts nothing
is a piece of its own, and a string that never closes is one piece up to the
end of the input.

Lines are counted over the pieces afterwards. What a piece yields stands on the
line on which the piece ends.
-/

namespace LoxLang

/-- What is wrong with a stretch of source that is no token. -/
inductive LexicalError where
  | unexpectedCharacter
  | unterminatedString
deriving DecidableEq, Repr

/-- The wording of a lexical error. -/
def LexicalError.message : LexicalError → String
  | .unexpectedCharacter => "Unexpected character."
  | .unterminatedString => "Unterminated string."

namespace Scan

/-- What a stretch of source is: skipped, a token, or an error. -/
inductive Content where
  | skipped
  | token (kind : Token.Kind)
  | error (e : LexicalError)
deriving Inhabited

/-- A stretch of source with what it is. -/
structure Piece where
  text : List Char
  content : Content
deriving Inhabited

/-- Characters that separate tokens. -/
def isBlank (c : Char) : Bool :=
  c == ' ' || c == '\r' || c == '\t' || c == '\n'

/-- The ten decimal digits. -/
def isDigit (c : Char) : Bool := '0' ≤ c && c ≤ '9'

/-- Characters that start a word: the ASCII letters and the underscore. -/
def isWordStart (c : Char) : Bool :=
  ('a' ≤ c && c ≤ 'z') || ('A' ≤ c && c ≤ 'Z') || c == '_'

/-- Characters that continue a word. -/
def isWordPart (c : Char) : Bool := isWordStart c || isDigit c

/-- Operators and punctuators of one character. -/
def single? : Char → Option Symbol
  | '(' => some .leftParen
  | ')' => some .rightParen
  | '\x7b' => some .leftBrace
  | '\x7d' => some .rightBrace
  | ',' => some .comma
  | '.' => some .dot
  | '-' => some .minus
  | '+' => some .plus
  | ';' => some .semicolon
  | '/' => some .slash
  | '*' => some .star
  | '!' => some .bang
  | '=' => some .equal
  | '<' => some .less
  | '>' => some .greater
  | _ => none

/-- Operators of two characters, the second of which is an equals sign. -/
def beforeEqual? : Char → Option Symbol
  | '!' => some .bangEqual
  | '=' => some .equalEqual
  | '<' => some .lessEqual
  | '>' => some .greaterEqual
  | _ => none

/-- The kind of a word: reserved, or an identifier. -/
def wordKind (word : List Char) : Token.Kind :=
  match Symbol.keyword? (String.ofList word) with
  | some s => .symbol s
  | none => .identifier

/-- A comment: everything up to the end of the line. -/
def cutComment (cs : List Char) : Piece × List Char :=
  (⟨cs.takeWhile (· != '\n'), .skipped⟩, cs.dropWhile (· != '\n'))

/-- A string whose opening quote has been read. -/
def cutString (cs : List Char) : Piece × List Char :=
  let body := cs.takeWhile (· != '"')
  match cs.dropWhile (· != '"') with
  | [] => (⟨'"' :: cs, .error .unterminatedString⟩, [])
  | quote :: rest => (⟨'"' :: (body ++ [quote]), .token (.string (String.ofList body))⟩, rest)

/-- A number: digits, and a fraction if a point with a digit behind it follows. -/
def cutNumber (cs : List Char) : Piece × List Char :=
  let whole := cs.takeWhile isDigit
  let rest := cs.dropWhile isDigit
  match rest with
  | '.' :: d :: rest' =>
    if isDigit d then
      let fraction := (d :: rest').takeWhile isDigit
      (⟨whole ++ '.' :: fraction, .token (.number (Numeral.ofLiteral whole fraction))⟩,
        (d :: rest').dropWhile isDigit)
    else (⟨whole, .token (.number (Numeral.ofLiteral whole []))⟩, rest)
  | _ => (⟨whole, .token (.number (Numeral.ofLiteral whole []))⟩, rest)

/-- A word: a letter or underscore with what continues it. -/
def cutWord (cs : List Char) : Piece × List Char :=
  let word := cs.takeWhile isWordPart
  (⟨word, .token (wordKind word)⟩, cs.dropWhile isWordPart)

/-- An operator, the longer one where two fit, or a character that starts nothing. -/
def cutOperator (c : Char) (cs : List Char) : Piece × List Char :=
  match beforeEqual? c, cs with
  | some s, '=' :: rest => (⟨[c, '='], .token (.symbol s)⟩, rest)
  | _, _ =>
    match single? c with
    | some s => (⟨[c], .token (.symbol s)⟩, cs)
    | none => (⟨[c], .error .unexpectedCharacter⟩, cs)

/-- The first piece of `c :: cs`, and what is left. -/
def cut (c : Char) (cs : List Char) : Piece × List Char :=
  if isBlank c then (⟨[c], .skipped⟩, cs)
  else if c == '/' && cs.head? == some '/' then cutComment (c :: cs)
  else if c == '"' then cutString cs
  else if isDigit c then cutNumber (c :: cs)
  else if isWordStart c then cutWord (c :: cs)
  else cutOperator c cs

/-- No character is lost in a cut. -/
theorem cut_append (c : Char) (cs : List Char) :
    (cut c cs).1.text ++ (cut c cs).2 = c :: cs := by
  unfold cut
  split
  · rfl
  split
  · exact List.takeWhile_append_dropWhile
  split
  · rename_i h
    obtain rfl : c = '"' := by simpa using h
    unfold cutString
    have whole := List.takeWhile_append_dropWhile (p := (· != '"')) (l := cs)
    split
    · simp
    · rename_i h
      rw [h] at whole
      simpa using whole
  split
  · unfold cutNumber
    have whole := List.takeWhile_append_dropWhile (p := isDigit) (l := c :: cs)
    dsimp only
    split
    · rename_i d rest h
      split
      · have fraction := List.takeWhile_append_dropWhile (p := isDigit) (l := d :: rest)
        rw [h] at whole
        simp only [List.append_assoc, List.cons_append, fraction, whole]
      · exact whole
    · exact whole
  split
  · exact List.takeWhile_append_dropWhile
  · unfold cutOperator
    split
    · rfl
    · split <;> rfl

/-- A piece is never empty, so cutting ends. -/
theorem cut_rest_length (c : Char) (cs : List Char) : (cut c cs).2.length < (c :: cs).length := by
  have nonempty : (cut c cs).1.text ≠ [] := by
    unfold cut
    split
    · simp
    split
    · rename_i h
      obtain ⟨rfl, -⟩ : c = '/' ∧ _ := by simpa using h
      simp [cutComment]
    split
    · unfold cutString
      split <;> simp
    split
    · rename_i h
      unfold cutNumber
      dsimp only
      split
      · split <;> simp [h]
      · simp [h]
    split
    · rename_i h
      simp [cutWord, isWordPart, h]
    · unfold cutOperator
      split
      · simp
      · split <;> simp
  have whole := congrArg List.length (cut_append c cs)
  have := List.length_pos_iff.2 nonempty
  simp only [List.length_append] at whole
  omega

/-- All pieces of a text, in order. -/
def pieces : List Char → List Piece
  | [] => []
  | c :: cs => (cut c cs).1 :: pieces (cut c cs).2
termination_by cs => cs.length
decreasing_by exact cut_rest_length c cs

/-- The pieces of a text are the text. -/
theorem flatMap_pieces (cs : List Char) : (pieces cs).flatMap (·.text) = cs := by
  fun_induction pieces cs with
  | case1 => rfl
  | case2 c cs ih => rw [List.flatMap_cons, ih, cut_append]

end Scan

/-- What scanning yields: a token, or an error with its line. -/
inductive Scan.Item where
  | token (t : Token)
  | error (line : Nat) (e : LexicalError)
deriving Inhabited

namespace Scan

/-- What a piece that ends on `line` yields. -/
def Piece.item? (p : Piece) (line : Nat) : Option Item :=
  match p.content with
  | .skipped => none
  | .token kind => some (.token ⟨kind, String.ofList p.text, line⟩)
  | .error e => some (.error line e)

/-- What pieces yield, the first of them starting on `line`, and the end of the input. -/
def items (line : Nat) : List Piece → List Item
  | [] => [.token (.endOn line)]
  | p :: ps =>
    let line' := line + p.text.count '\n'
    (p.item? line').toList ++ items line' ps

/-- The items of a source text. -/
def ofText (source : String) : List Item :=
  items 1 (pieces source.toList)

/-- The token of an item, if it is one. -/
def Item.token? : Item → Option Token
  | token t => some t
  | error .. => none

/-- The error of an item, if it is one, with its line. -/
def Item.error? : Item → Option (Nat × LexicalError)
  | token _ => none
  | error line e => some (line, e)

/-- The tokens of a source text. -/
def tokens (source : String) : List Token :=
  (ofText source).filterMap Item.token?

/-- The lexical errors of a source text, with their lines. -/
def errors (source : String) : List (Nat × LexicalError) :=
  (ofText source).filterMap Item.error?

end Scan

end LoxLang
