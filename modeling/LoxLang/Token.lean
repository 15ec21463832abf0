import LoxLang.Symbol
import LoxLang.Numeral
import LoxLang.Text.Quoted

/-!
# Tokens

A token is a kind, the stretch of source it was read from and a line. Kinds
with a payload carry it decoded, so nothing downstream reads a lexeme again:
lexemes serve names, messages and listings only.
-/

namespace LoxLang

/-- What a token is. -/
inductive Token.Kind where
  | symbol (s : Symbol)
  | identifier
  | string (text : String)
  | number (value : Float)
  | eof
deriving Inhabited

/-- A kind, its source text, and the line on which that text ends. -/
structure Token where
  kind : Token.Kind
  lexeme : String
  line : Nat
deriving Inhabited

namespace Token

/-- The name under which listings show a kind. -/
def Kind.name : Kind → String
  | symbol s => s.name
  | identifier => "IDENTIFIER"
  | string _ => "STRING"
  | number _ => "NUMBER"
  | eof => "EOF"

/-- The end of the input on a given line. -/
def endOn (line : Nat) : Token := ⟨.eof, "", line⟩

/-- Is the token this symbol? -/
def isSymbol (t : Token) (s : Symbol) : Bool :=
  match t.kind with
  | .symbol s' => s' == s
  | _ => false

theorem isSymbol_iff {t : Token} {s : Symbol} : t.isSymbol s = true ↔ t.kind = .symbol s := by
  unfold isSymbol
  split <;> simp_all

/-- Is the token the end of the input? -/
def isEnd (t : Token) : Bool :=
  match t.kind with
  | .eof => true
  | _ => false

/-- Where a diagnostic points. -/
def location (t : Token) : String :=
  if t.isEnd then "at end" else "at '" ++ t.lexeme ++ "'"

/-- The payload column of a listing. -/
def Kind.payloadText : Kind → String
  | string text => text
  | number value => Numeral.listingText value
  | _ => "null"

/-- One line of a token listing. -/
def listing (t : Token) : String :=
  t.kind.name ++ " " ++ t.lexeme ++ " " ++ t.kind.payloadText

/-- The kind in a JSON record: a name, or an object that maps the name to the payload. -/
def Kind.json : Kind → String
  | string text => "\x7b\"STRING\":" ++ Text.quoted text ++ "\x7d"
  | number value => "\x7b\"NUMBER\":" ++ Numeral.jsonText value ++ "\x7d"
  | k => Text.quoted k.name

/-- A token as a JSON record. -/
def json (t : Token) : String :=
  "\x7b\"token_type\":" ++ t.kind.json ++ ",\"lexeme\":" ++ Text.quoted t.lexeme
    ++ ",\"line\":" ++ String.ofList (Nat.toDigits 10 t.line) ++ "\x7d"

end Token

end LoxLang
