/-!
# JSON string literals

A text is quoted by escaping the quote, the backslash and the control
characters; everything else, non-ASCII text and the delete character included,
stands for itself. Five controls have a short escape, the others are written
with four hexadecimal digits in lower case.
-/

namespace LoxLang.Text

/-- The escape of one character, or the character itself. -/
def escapeChar (c : Char) : List Char :=
  match c with
  | '"' => ['\\', '"']
  | '\\' => ['\\', '\\']
  | '\x08' => ['\\', 'b']
  | '\t' => ['\\', 't']
  | '\n' => ['\\', 'n']
  | '\x0c' => ['\\', 'f']
  | '\r' => ['\\', 'r']
  | c =>
    if c.toNat < 0x20 then
      ['\\', 'u', '0', '0', Nat.digitChar (c.toNat / 16), Nat.digitChar (c.toNat % 16)]
    else [c]

/-- A text as a JSON string. -/
def quoted (s : String) : String :=
  String.ofList ('"' :: (s.toList.flatMap escapeChar ++ ['"']))

example : quoted "a\"\n\x01" = "\"a\\\"\\n\\u0001\"" := by decide

end LoxLang.Text
