import LoxLang.Grammar.Statement
import LoxLang.Located

/-!
# Programs and single expressions

The two ways to read a whole list of tokens. The list ends at its first
end-of-input token; one that has none is taken to end on the line of its last
token. Complaints come out located: the one at the end of the input stands at
that end token.
-/

namespace LoxLang.Grammar

/-- The tokens in front of the first end of the input. -/
def content (ts : List Token) : List Token :=
  ts.takeWhile fun t => !t.isEnd

/-- The first end of the input, or the one that is missing. -/
def endToken (ts : List Token) : Token :=
  (ts.find? Token.isEnd).getD (.endOn ((ts.getLast?.map (·.line)).getD 1))

/-- Complaints with their tokens, the end of the input being `last`. -/
def located (last : Token) (complaints : List Complaint) : List (Located GrammarError) :=
  complaints.map fun c => ⟨c.found.getD last, c.error⟩

/-- A program, and all errors in the order in which they were noticed. Declarations with an error
that could not be read around are left out. -/
def program (ts : List Token) : List Stmt × List (Located GrammarError) :=
  let batch := declarations false (content ts)
  (batch.stmts, located (endToken ts) batch.reports)

/-- A single expression that takes all tokens, and the errors. -/
def soleExpression (ts : List Token) : Option Expr × List (Located GrammarError) :=
  match expression (content ts) with
  | .parsed e [] reports _ => (some e, located (endToken ts) reports)
  | .parsed _ (t :: _) reports _ =>
    (none, located (endToken ts) (reports ++ [⟨some t, .leftover⟩]))
  | .refused _ reports reason _ => (none, located (endToken ts) (reports ++ [reason]))

end LoxLang.Grammar
