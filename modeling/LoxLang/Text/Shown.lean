import LoxLang.Text.Visible

/-!
# Names in messages

A message shows a name in quotes, so that one can tell where it begins and ends
and what it holds: the quote and the backslash are escaped, and so is every
character that cannot be seen. Four controls have a short escape, the others
are written as their code point.
-/

namespace LoxLang.Text

/-- The code point of a character in hexadecimal, in braces. -/
def codePointEscape (c : Char) : List Char :=
  ['\\', 'u', '\x7b'] ++ Nat.toDigits 16 c.toNat ++ ['\x7d']

/-- The escape of one character, or the character itself. -/
def showChar (c : Char) : List Char :=
  match c with
  | '"' => ['\\', '"']
  | '\\' => ['\\', '\\']
  | '\x00' => ['\\', '0']
  | '\t' => ['\\', 't']
  | '\n' => ['\\', 'n']
  | '\r' => ['\\', 'r']
  | c => if isVisible c then [c] else codePointEscape c

/-- A name in quotes, as messages show it. -/
def shown (s : String) : String :=
  String.ofList ('"' :: (s.toList.flatMap showChar ++ ['"']))

example : showChar '\u0301' = ['\\', 'u', '\x7b', '3', '0', '1', '\x7d'] := by decide +kernel
example : showChar '\u3164' = codePointEscape '\u3164' := by decide +kernel
example : showChar '\uff9e' = ['\uff9e'] := by decide +kernel
example : showChar 'é' = ['é'] := by decide +kernel

end LoxLang.Text
