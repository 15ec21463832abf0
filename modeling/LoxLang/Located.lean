import LoxLang.Token

/-!
# Errors at tokens

Syntax, scope and evaluation rules all fail at a token, which supplies the line
and the place that a report names.
-/

namespace LoxLang

/-- An error of some kind and the token that it is about. -/
structure Located (ε : Type) where
  token : Token
  error : ε

end LoxLang
