import LoxLang.Text.Utf8

/-!
# Source files

What reading a file gives: its bytes, or why there are none. A source text is
the bytes decoded.
-/

namespace LoxLang

/-- Why a file gave no text. -/
inductive ReadError where
  | missing
  | notDirectory
  | isDirectory
  | denied
  | nameTooLong
  | zeroByteInName
  | undecodable (error : Text.Utf8Error)
  | other (message : String)
deriving DecidableEq, Repr

/-- The wording of a read error. -/
def ReadError.message : ReadError → String
  | missing => "No such file or directory (os error 2)"
  | denied => "Permission denied (os error 13)"
  | notDirectory => "Not a directory (os error 20)"
  | isDirectory => "Is a directory (os error 21)"
  | nameTooLong => "File name too long (os error 36)"
  | zeroByteInName => "file name contained an unexpected NUL byte"
  | undecodable error => error.message
  | other message => message

/-- The contents of a file, or why there are none. -/
abbrev Contents := Except ReadError (List UInt8)

/-- The text of a file. -/
def Contents.text (contents : Contents) : Except ReadError String := do
  (Text.Utf8.decode (← contents)).mapError .undecodable

end LoxLang
