import LoxLang.Tree

/-!
# Trees as text

The printed form is the fully parenthesised prefix form, so that precedence and
association can be read off it. Depths and lines are not part of it. Operators
and names are printed by their lexemes.
-/

namespace LoxLang

/-- The text of a constant; a string stands for itself, without quotes. -/
def Literal.printed : Literal → String
  | .number value => Numeral.treeText value
  | .string text => text
  | .bool true => "true"
  | .bool false => "false"
  | .nil => "nil"

mutual

/-- An expression as text. -/
def Expr.printed : Expr → String
  | .literal value => value.printed
  | .group inner => "(group " ++ inner.printed ++ ")"
  | .unary operator operand => "(" ++ operator.lexeme ++ " " ++ operand.printed ++ ")"
  | .binary left operator right =>
    "(" ++ operator.lexeme ++ " " ++ left.printed ++ " " ++ right.printed ++ ")"
  | .logical left operator right =>
    "(" ++ operator.lexeme ++ " " ++ left.printed ++ " " ++ right.printed ++ ")"
  | .name x _ => x.lexeme
  | .assign x _ value => "(= " ++ x.lexeme ++ " " ++ value.printed ++ ")"
  | .call callee _ arguments => "(call " ++ callee.printed ++ Expr.printedAll arguments ++ ")"
  | .get object property => "(. " ++ object.printed ++ " " ++ property.lexeme ++ ")"
  | .set object property value =>
    "(.= " ++ object.printed ++ " " ++ property.lexeme ++ " " ++ value.printed ++ ")"
  | .this _ _ => "this"
  | .super _ _ method => "(super " ++ method.lexeme ++ ")"

/-- Expressions, each with a blank in front. -/
def Expr.printedAll : List Expr → String
  | [] => ""
  | e :: es => " " ++ e.printed ++ Expr.printedAll es

end

mutual

/-- A statement as text. -/
def Stmt.printed : Stmt → String
  | .expr value => "(; " ++ value.printed ++ ")"
  | .print value => "(print " ++ value.printed ++ ")"
  | .var name none => "(var " ++ name.lexeme ++ ")"
  | .var name (some initial) => "(var " ++ name.lexeme ++ " " ++ initial.printed ++ ")"
  | .block body => "(block" ++ Stmt.printedAll body ++ ")"
  | .ifThen condition consequent =>
    "(if " ++ condition.printed ++ " " ++ consequent.printed ++ ")"
  | .ifElse condition consequent alternative =>
    "(if-else " ++ condition.printed ++ " " ++ consequent.printed ++ " "
      ++ alternative.printed ++ ")"
  | .whileDo condition body => "(while " ++ condition.printed ++ " " ++ body.printed ++ ")"
  | .function declaration => declaration.printed "fun"
  | .returning _ none => "(return)"
  | .returning _ (some value) => "(return " ++ value.printed ++ ")"
  | .classDecl name none methods =>
    "(class " ++ name.lexeme ++ FunctionDecl.printedAll methods ++ ")"
  | .classDecl name (some superclass) methods =>
    "(class " ++ name.lexeme ++ " < " ++ superclass.printed ++ FunctionDecl.printedAll methods
      ++ ")"

/-- Statements, each with a blank in front. -/
def Stmt.printedAll : List Stmt → String
  | [] => ""
  | s :: ss => " " ++ s.printed ++ Stmt.printedAll ss

/-- A function as text, under the word that says what it is. -/
def FunctionDecl.printed (word : String) : FunctionDecl → String
  | ⟨name, parameters, body⟩ =>
    "(" ++ word ++ " " ++ name.lexeme ++ "("
      ++ " ".intercalate (parameters.map (·.lexeme)) ++ ")" ++ Stmt.printedAll body ++ ")"

/-- Methods, each with a blank in front. -/
def FunctionDecl.printedAll : List FunctionDecl → String
  | [] => ""
  | m :: ms => " " ++ m.printed "method" ++ FunctionDecl.printedAll ms

end

end LoxLang
