import LoxLang.Text.Nested
import LoxLang.Token.Scan
import LoxLang.Tree

/-!
# Trees from text

The printed form of a tree is a nested list: a node is the list of its parts
behind a word that says what it is. This reads such lists back. A word is the
token that it is scanned as, so that an operator, a name and a constant are each
what they would be in a source of that word alone.

Neither lines nor spacing are printed, so all tokens come out on the first line,
and a tree comes back as it would be had its source stood on one line.
-/

namespace LoxLang

/-! ## Trees on one line -/

/-- The token, on the first line. -/
def Token.onFirstLine (t : Token) : Token := { t with line := 1 }

mutual

/-- The expression with all its tokens on the first line. -/
def Expr.onFirstLine : Expr → Expr
  | .literal value => .literal value
  | .group inner => .group inner.onFirstLine
  | .unary operator operand => .unary operator.onFirstLine operand.onFirstLine
  | .binary left operator right =>
    .binary left.onFirstLine operator.onFirstLine right.onFirstLine
  | .logical left operator right =>
    .logical left.onFirstLine operator.onFirstLine right.onFirstLine
  | .name x depth => .name x.onFirstLine depth
  | .assign x depth value => .assign x.onFirstLine depth value.onFirstLine
  | .call callee paren arguments =>
    .call callee.onFirstLine paren.onFirstLine (Expr.allOnFirstLine arguments)
  | .get object property => .get object.onFirstLine property.onFirstLine
  | .set object property value =>
    .set object.onFirstLine property.onFirstLine value.onFirstLine
  | .this keyword depth => .this keyword.onFirstLine depth
  | .super keyword depth method => .super keyword.onFirstLine depth method.onFirstLine

/-- The same for expressions. -/
def Expr.allOnFirstLine : List Expr → List Expr
  | [] => []
  | e :: es => e.onFirstLine :: Expr.allOnFirstLine es

end

mutual

/-- The statement with all its tokens on the first line. -/
def Stmt.onFirstLine : Stmt → Stmt
  | .expr value => .expr value.onFirstLine
  | .print value => .print value.onFirstLine
  | .var name initial => .var name.onFirstLine (initial.map Expr.onFirstLine)
  | .block body => .block (Stmt.allOnFirstLine body)
  | .ifThen condition consequent => .ifThen condition.onFirstLine consequent.onFirstLine
  | .ifElse condition consequent alternative =>
    .ifElse condition.onFirstLine consequent.onFirstLine alternative.onFirstLine
  | .whileDo condition body => .whileDo condition.onFirstLine body.onFirstLine
  | .function declaration => .function declaration.onFirstLine
  | .returning keyword value => .returning keyword.onFirstLine (value.map Expr.onFirstLine)
  | .classDecl name superclass methods =>
    .classDecl name.onFirstLine (superclass.map Expr.onFirstLine)
      (FunctionDecl.allOnFirstLine methods)

/-- The same for statements. -/
def Stmt.allOnFirstLine : List Stmt → List Stmt
  | [] => []
  | s :: ss => s.onFirstLine :: Stmt.allOnFirstLine ss

/-- The same for a function. -/
def FunctionDecl.onFirstLine : FunctionDecl → FunctionDecl
  | ⟨name, parameters, body⟩ =>
    ⟨name.onFirstLine, parameters.map Token.onFirstLine, Stmt.allOnFirstLine body⟩

/-- The same for functions. -/
def FunctionDecl.allOnFirstLine : List FunctionDecl → List FunctionDecl
  | [] => []
  | f :: fs => f.onFirstLine :: FunctionDecl.allOnFirstLine fs

end

/-! ## Expressions -/

/-- The token of a source that is one word. -/
def Token.ofWord? (word : String) : Option Token :=
  match Scan.ofText word with
  | [.token t, .token _] => some t
  | _ => none

/-- The expression that is one token. -/
def Token.atom? (t : Token) : Option Expr :=
  match t.kind with
  | .identifier => some (.name t none)
  | .symbol .thisWord => some (.this t none)
  | _ => t.literal?.map .literal

/-- What an operator makes of its operands. -/
def Expr.ofOperator? (t : Token) : List Expr → Option Expr
  | [operand] => some (.unary t operand)
  | [left, right] =>
    if t.isSymbol .orWord || t.isSymbol .andWord then some (.logical left t right)
    else some (.binary left t right)
  | _ => none

/-- The expression with the given word at its head; names are given as expressions. -/
def Expr.ofForm? (head : String) (items : List Expr) : Option Expr :=
  match head, items with
  | "group", [inner] => some (.group inner)
  | "=", [.name x _, value] => some (.assign x none value)
  | "call", callee :: arguments => do
    some (.call callee (← Token.ofWord? Symbol.rightParen.spelling) arguments)
  | ".", [object, .name x _] => some (.get object x)
  | ".=", [object, .name x _, value] => some (.set object x value)
  | "super", [.name x _] => do
    some (.super (← Token.ofWord? Symbol.superWord.spelling) none x)
  | _, _ => do Expr.ofOperator? (← Token.ofWord? head) items

namespace Nested

mutual

/-- The expression that a nested list is. -/
def expr? : Nested → Option Expr
  | .word w => do (← Token.ofWord? w).atom?
  | .list (.word head :: items) => do Expr.ofForm? head (← exprs? items)
  | .list _ => none

/-- The expressions that nested lists are. -/
def exprs? : List Nested → Option (List Expr)
  | [] => some []
  | n :: ns => do some ((← n.expr?) :: (← exprs? ns))

end

/-! ## Statements -/

/-- The tokens that words are. -/
def tokens? : List Nested → Option (List Token)
  | [] => some []
  | .word w :: ns => do some ((← Token.ofWord? w) :: (← tokens? ns))
  | .list _ :: _ => none

mutual

/-- The statement that a nested list is. -/
def stmt? : Nested → Option Stmt
  | .list [.word ";", value] => do some (.expr (← value.expr?))
  | .list [.word "print", value] => do some (.print (← value.expr?))
  | .list [.word "var", .word x] => do some (.var (← Token.ofWord? x) none)
  | .list [.word "var", .word x, initial] => do
    some (.var (← Token.ofWord? x) (some (← initial.expr?)))
  | .list (.word "block" :: body) => do some (.block (← stmts? body))
  | .list [.word "if", condition, consequent] => do
    some (.ifThen (← condition.expr?) (← consequent.stmt?))
  | .list [.word "if-else", condition, consequent, alternative] => do
    some (.ifElse (← condition.expr?) (← consequent.stmt?) (← alternative.stmt?))
  | .list [.word "while", condition, body] => do
    some (.whileDo (← condition.expr?) (← body.stmt?))
  | .list (.word "fun" :: declaration) => do some (.function (← routine? declaration))
  | .list [.word "return"] => do
    some (.returning (← Token.ofWord? Symbol.returnWord.spelling) none)
  | .list [.word "return", value] => do
    some (.returning (← Token.ofWord? Symbol.returnWord.spelling) (some (← value.expr?)))
  | .list (.word "class" :: .word x :: .word "<" :: superclass :: methods) => do
    some (.classDecl (← Token.ofWord? x) (some (← superclass.expr?)) (← methods? methods))
  | .list (.word "class" :: .word x :: methods) => do
    some (.classDecl (← Token.ofWord? x) none (← methods? methods))
  | _ => none

/-- The statements that nested lists are. -/
def stmts? : List Nested → Option (List Stmt)
  | [] => some []
  | n :: ns => do some ((← n.stmt?) :: (← stmts? ns))

/-- The function of a name, a list of parameters and statements. -/
def routine? : List Nested → Option FunctionDecl
  | .word x :: .list parameters :: body => do
    some ⟨← Token.ofWord? x, ← tokens? parameters, ← stmts? body⟩
  | _ => none

/-- The methods that nested lists are. -/
def methods? : List Nested → Option (List FunctionDecl)
  | [] => some []
  | .list (.word "method" :: declaration) :: ns => do
    some ((← routine? declaration) :: (← methods? ns))
  | _ => none

end

end Nested

/-! ## From text -/

/-- The expression that is printed like this, on one line. -/
def Expr.ofPrinted? (text : String) : Option Expr := do (← Nested.ofText? text).expr?

/-- The statement that is printed like this, on one line. -/
def Stmt.ofPrinted? (text : String) : Option Stmt := do (← Nested.ofText? text).stmt?

end LoxLang
