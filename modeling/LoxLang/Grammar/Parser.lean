import LoxLang.Grammar.Program

/-!
# Parsing with a cursor

The grammar as a parser at work: a cursor stands in front of a token of a
vector, the parser looks at tokens through it and moves it on. Every look goes
by position. A position behind the end of the vector has no token, and then the
parser has no outcome at all; the same holds of a parser that does not end.

The parser builds trees whose occurrences are numbered. A number is drawn when
a node is made. The node may be dropped later, because it becomes the target of
an assignment or because reading fails, and its number is then lost.

Two records are kept of the work, which nothing in it depends on: of every look
where the cursor stood and which position was read, and of every declaration
where the cursor stood in front of it and behind it.

Productions call one another, and nothing in their form says that this ends. A
recursive call is given by `apply`, with the arguments behind it. What is
defined is the same as with an ordinary application, which would also note down
the place of the call in the file.
-/

namespace LoxLang

/-- A look at a token: where the cursor stands, and the position read. -/
structure Look where
  cursor : Nat
  index : Nat

/-- A declaration that has been dealt with: where the cursor stood before and behind it. -/
structure Turn where
  start : Nat
  stop : Nat

/-- An error that was reported. One that unwinds has ended a declaration, or the whole expression;
after any other the parser went on. -/
structure Report where
  error : Located GrammarError
  unwinds : Bool

/-- A parser at work. -/
structure Parser where
  tokens : List Token
  current : Nat
  reports : List Report
  /-- The number for the next node. -/
  nextId : Nat
  looks : List Look
  turns : List Turn

/-- In front of a vector of tokens, which gets an end if it does not have one as its last token. -/
def Parser.start (nextId : Nat) (ts : List Token) : Parser where
  tokens := match ts.getLast? with
    | some t => if t.isEnd then ts else ts ++ [.endOn t.line]
    | none => [.endOn 1]
  current := 0
  reports := []
  nextId := nextId
  looks := []
  turns := []

/-- A step of a parser that gives a value. -/
abbrev Stepping := StateT Parser Option

/-- A production: it gives a value or unwinds with an error. -/
abbrev Parsing := ExceptT (Located GrammarError) Stepping

/-- Is the token an identifier? -/
def Token.isIdentifier (t : Token) : Bool :=
  match t.kind with
  | .identifier => true
  | _ => false

/-- Is the token a number or a string? -/
def Token.isConstant (t : Token) : Bool :=
  match t.kind with
  | .number _ | .string _ => true
  | _ => false

namespace Parser

open Grammar (maxArguments)

/-! ## Looking and moving on -/

/-- The token at a position. -/
def look (index : Nat) : Stepping Token := fun p =>
  match p.tokens[index]? with
  | some t => some (t, { p with looks := p.looks ++ [⟨p.current, index⟩] })
  | none => none

/-- The token behind the cursor. -/
def peek : Stepping Token := do look (← get).current

/-- The token in front of the cursor; at the start that is the token behind it. -/
def previous : Stepping Token := do look ((← get).current - 1)

def isAtEnd : Stepping Bool := do pure (← peek).isEnd

/-- Is the next token, unless it is the end, of a sort? -/
def check (sort : Token → Bool) : Stepping Bool := do
  if ← isAtEnd then pure false else pure (sort (← peek))

/-- The next token, which is left behind. The end is never left behind. -/
def advance : Stepping Token := do
  if !(← isAtEnd) then modify fun p => { p with current := p.current + 1 }
  previous

/-- The next token is left behind if it is of a sort. -/
def matchNext (sort : Token → Bool) : Stepping Bool := do
  if ← check sort then
    let _ ← advance
    pure true
  else pure false

/-- The next token is left behind if it is one of the symbols, which are tried in order. -/
def matchAny : List Symbol → Stepping Bool
  | [] => pure false
  | s :: more => do if ← matchNext (·.isSymbol s) then pure true else matchAny more

/-- The next token, which must be of a sort. -/
def consume (sort : Token → Bool) (error : GrammarError) : Parsing Token := do
  if ← check sort then advance else throw ⟨← peek, error⟩

/-! ## Numbers and records -/

def freshId : Stepping Nat := fun p => some (p.nextId, { p with nextId := p.nextId + 1 })

def report (error : Located GrammarError) (unwinds : Bool) : Stepping Unit :=
  modify fun p => { p with reports := p.reports ++ [⟨error, unwinds⟩] }

/-- An error at the next token, after which the parser goes on. -/
def noteNext (error : GrammarError) : Stepping Unit := do report ⟨← peek, error⟩ false

/-- A declaration dealt with that started at a position. -/
def finishTurn (start : Nat) : Stepping Unit :=
  modify fun p => { p with turns := p.turns ++ [⟨start, p.current⟩] }

/-- An occurrence of a name. -/
def occurrence (name : Token) : Stepping Expr := do pure (.name name (some (← freshId)))

/-! ## Expressions -/

/-- What an assignment makes of the expression in front of it. -/
def assigned (target : Expr) (equals : Token) (value : Expr) : Stepping Expr :=
  match target with
  | .name x _ => do pure (.assign x (some (← freshId)) value)
  | .get object property => pure (.set object property value)
  | other => do
    report ⟨equals, .assignmentTarget⟩ false
    pure other

mutual

def expression : Parsing Expr := do
  let target : Expr ← by apply binary; exact .or
  if ← matchNext (·.isSymbol .equal) then
    let equals ← previous
    let value : Expr ← by apply expression
    assigned target equals value
  else pure target
partial_fixpoint

def binary (level : Level) : Parsing Expr := do
  let left : Expr ← by apply operand; exact level
  by apply binaryRest; exact level; exact left
partial_fixpoint

def operand (level : Level) : Parsing Expr :=
  match level.tighter with
  | some tighter => by apply binary; exact tighter
  | none => by apply unary
partial_fixpoint

def binaryRest (level : Level) (left : Expr) : Parsing Expr := do
  if ← matchAny level.operators then
    let operator ← previous
    let right : Expr ← by apply operand; exact level
    by apply binaryRest; exact level; exact level.node left operator right
  else pure left
partial_fixpoint

def unary : Parsing Expr := do
  if ← matchAny [.bang, .minus] then
    let operator ← previous
    let right : Expr ← by apply unary
    pure (.unary operator right)
  else by apply call
partial_fixpoint

def call : Parsing Expr := do
  let e : Expr ← by apply primary
  by apply callRest; exact e
partial_fixpoint

def callRest (e : Expr) : Parsing Expr := do
  if ← matchNext (·.isSymbol .leftParen) then
    let e : Expr ← by apply finishCall; exact e
    by apply callRest; exact e
  else if ← matchNext (·.isSymbol .dot) then
    let property ← consume Token.isIdentifier .propertyName
    by apply callRest; exact .get e property
  else pure e
partial_fixpoint

def finishCall (callee : Expr) : Parsing Expr := do
  let list ← if ← check (·.isSymbol .rightParen) then pure []
    else by apply arguments; exact 0
  let paren ← consume (·.isSymbol .rightParen) .argumentsClose
  pure (.call callee paren list)
partial_fixpoint

/-- Arguments, behind `count` others. -/
def arguments (count : Nat) : Parsing (List Expr) := do
  if maxArguments ≤ count then noteNext .tooManyArguments
  let e : Expr ← by apply expression
  if ← matchNext (·.isSymbol .comma) then
    let list : List Expr ← by apply arguments; exact count + 1
    pure (e :: list)
  else pure [e]
partial_fixpoint

def primary : Parsing Expr := do
  if ← matchNext (·.isSymbol .falseWord) then pure (.literal (.bool false))
  else if ← matchNext (·.isSymbol .trueWord) then pure (.literal (.bool true))
  else if ← matchNext (·.isSymbol .nilWord) then pure (.literal .nil)
  else if ← matchNext Token.isConstant then
    match (← previous).literal? with
    | some value => pure (.literal value)
    | none => by apply reference
  else by apply reference
partial_fixpoint

/-- A primary expression that is no constant. -/
def reference : Parsing Expr := do
  if ← matchNext (·.isSymbol .superWord) then
    let keyword ← previous
    let _ ← consume (·.isSymbol .dot) .superDot
    let method ← consume Token.isIdentifier .superMethod
    pure (.super keyword (some (← freshId)) method)
  else if ← matchNext (·.isSymbol .thisWord) then
    let id ← freshId
    pure (.this (← previous) (some id))
  else if ← matchNext Token.isIdentifier then occurrence (← previous)
  else if ← matchNext (·.isSymbol .leftParen) then
    let e : Expr ← by apply expression
    let _ ← consume (·.isSymbol .rightParen) .groupClose
    pure (.group e)
  else throw ⟨← peek, .expression⟩
partial_fixpoint

end

/-! ## Parts of statements -/

/-- An expression and the given symbol behind it. -/
def closed (s : Symbol) (error : GrammarError) : Parsing Expr := do
  let e ← expression
  let _ ← consume (·.isSymbol s) error
  pure e

/-- An expression, unless the given symbol is next, and that symbol behind it. -/
def optionallyClosed (s : Symbol) (error : GrammarError) : Parsing (Option Expr) := do
  let e ← if ← check (·.isSymbol s) then pure none else some <$> expression
  let _ ← consume (·.isSymbol s) error
  pure e

/-- A variable declaration behind its keyword. -/
def variableDeclaration : Parsing Stmt := do
  let name ← consume Token.isIdentifier .variableName
  let initial ← if ← matchNext (·.isSymbol .equal) then some <$> expression else pure none
  let _ ← consume (·.isSymbol .semicolon) .variableEnd
  pure (.var name initial)

/-- Parameters, behind `count` others. -/
def someParameters (count : Nat) : Parsing (List Token) := do
  if maxArguments ≤ count then noteNext .tooManyParameters
  let p ← consume Token.isIdentifier .parameterName
  if ← matchNext (·.isSymbol .comma) then
    let list : List Token ← by apply someParameters; exact count + 1
    pure (p :: list)
  else pure [p]
partial_fixpoint

/-- The parameters behind the opening parenthesis, and the closing one. -/
def parameters : Parsing (List Token) := do
  let list ← if ← check (·.isSymbol .rightParen) then pure [] else someParameters 0
  let _ ← consume (·.isSymbol .rightParen) .parametersClose
  pure list

/-- The initial clause of a `for` loop with its semicolon. -/
def initialClause : Parsing (Option Stmt) := do
  if ← matchNext (·.isSymbol .semicolon) then pure none
  else if ← matchNext (·.isSymbol .varWord) then some <$> variableDeclaration
  else (some ∘ Stmt.expr) <$> closed .semicolon .expressionEnd

/-- The clauses of a `for` loop behind its keyword. -/
def forClauses : Parsing ForClauses := do
  let _ ← consume (·.isSymbol .leftParen) .forOpen
  let initial ← initialClause
  let condition ← optionallyClosed .semicolon .forConditionEnd
  let increment ← optionallyClosed .rightParen .forClose
  pure { initial, condition, increment }

/-- A condition in parentheses. -/
def condition (opening closing : GrammarError) : Parsing Expr := do
  let _ ← consume (·.isSymbol .leftParen) opening
  closed .rightParen closing

/-- The superclass of a class declaration, if it has one. -/
def superclass : Parsing (Option Expr) := do
  if ← matchNext (·.isSymbol .less) then
    let name ← consume Token.isIdentifier .superclassName
    some <$> occurrence name
  else pure none

/-- Tokens are skipped until a boundary between statements is likely. -/
def skipToBoundary : Stepping Unit := do
  if ← isAtEnd then pure ()
  else if (← previous).isSymbol .semicolon then pure ()
  else if (← peek).startsStatement then pure ()
  else
    let _ ← advance
    by apply skipToBoundary
partial_fixpoint

/-- The token at which an error was found is skipped, and more up to a boundary. -/
def synchronize : Stepping Unit := do
  let _ ← advance
  skipToBoundary

/-- The statement of a declaration, if there is one. A failure is reported, and tokens are skipped. -/
def recovered : Except (Located GrammarError) Stmt → Stepping (Option Stmt)
  | .ok s => pure (some s)
  | .error e => do
    report e true
    synchronize
    pure none

/-- Are there more declarations? In a block a closing brace ends them. -/
def hasMore (inBlock : Bool) : Stepping Bool := do
  if inBlock then
    if ← check (·.isSymbol .rightBrace) then pure false
    else pure !(← isAtEnd)
  else pure !(← isAtEnd)

/-! ## Statements and declarations -/

mutual

def statement : Parsing Stmt := do
  if ← matchNext (·.isSymbol .forWord) then
    let clauses ← forClauses
    let body : Stmt ← by apply statement
    pure (clauses.toStmt body)
  else if ← matchNext (·.isSymbol .ifWord) then
    let test ← condition .ifOpen .ifClose
    let consequent : Stmt ← by apply statement
    by apply alternative; exact test; exact consequent
  else if ← matchNext (·.isSymbol .whileWord) then
    let test ← condition .whileOpen .whileClose
    let body : Stmt ← by apply statement
    pure (.whileDo test body)
  else if ← matchNext (·.isSymbol .returnWord) then
    let keyword ← previous
    let value ← optionallyClosed .semicolon .returnEnd
    pure (.returning keyword value)
  else if ← matchNext (·.isSymbol .leftBrace) then
    let body : List Stmt ← by apply block
    pure (.block body)
  else if ← matchNext (·.isSymbol .printWord) then
    let value ← closed .semicolon .printEnd
    pure (.print value)
  else
    let value ← closed .semicolon .expressionEnd
    pure (.expr value)
partial_fixpoint

/-- The branch behind `else`, if there is one. -/
def alternative (test : Expr) (consequent : Stmt) : Parsing Stmt := do
  if ← matchNext (·.isSymbol .elseWord) then
    let other : Stmt ← by apply statement
    pure (.ifElse test consequent other)
  else pure (.ifThen test consequent)
partial_fixpoint

/-- Declarations up to and with the closing brace. -/
def block : Parsing (List Stmt) := do
  let body ← (Except.ok <$> (by apply declarations; exact true) :
    Stepping (Except (Located GrammarError) (List Stmt)))
  let _ ← consume (·.isSymbol .rightBrace) .blockClose
  pure body
partial_fixpoint

/-- Declarations as long as there are more, without those that fail. -/
def declarations (inBlock : Bool) : Stepping (List Stmt) := do
  if ← hasMore inBlock then
    let s : Option Stmt ← by apply declaration
    let more : List Stmt ← by apply declarations; exact inBlock
    pure (s.toList ++ more)
  else pure []
partial_fixpoint

/-- A declaration. If it fails, that is reported and tokens are skipped. -/
def declaration : Stepping (Option Stmt) := do
  let start := (← get).current
  let result ← (by apply declared : Parsing Stmt).run
  let s ← recovered result
  finishTurn start
  pure s
partial_fixpoint

/-- What is declared, or else a statement. -/
def declared : Parsing Stmt := do
  if ← matchNext (·.isSymbol .classWord) then by apply classBody
  else if ← matchNext (·.isSymbol .funWord) then
    let f : FunctionDecl ← by apply routine; exact .function
    pure (.function f)
  else if ← matchNext (·.isSymbol .varWord) then variableDeclaration
  else by apply statement
partial_fixpoint

/-- A class declaration behind its keyword. -/
def classBody : Parsing Stmt := do
  let name ← consume Token.isIdentifier .className
  let parent ← superclass
  let _ ← consume (·.isSymbol .leftBrace) .classBodyOpen
  let list : List FunctionDecl ← by apply methods
  let _ ← consume (·.isSymbol .rightBrace) .classBodyClose
  pure (.classDecl name parent list)
partial_fixpoint

/-- Methods up to a closing brace. -/
def methods : Parsing (List FunctionDecl) := do
  if ← hasMore true then
    let f : FunctionDecl ← by apply routine; exact .method
    let more : List FunctionDecl ← by apply methods
    pure (f :: more)
  else pure []
partial_fixpoint

/-- A function or method from its name on. -/
def routine (what : Routine) : Parsing FunctionDecl := do
  let name ← consume Token.isIdentifier (.routineName what)
  let _ ← consume (·.isSymbol .leftParen) (.parametersOpen what)
  let list ← parameters
  let _ ← consume (·.isSymbol .leftBrace) (.bodyOpen what)
  let body : List Stmt ← by apply block
  pure ⟨name, list, body⟩
partial_fixpoint

end

/-! ## Whole vectors -/

/-- A whole program. -/
def program : Stepping (List Stmt) := declarations false

/-- An expression with nothing behind it. -/
def soleExpression : Stepping (Option Expr) := do
  match ← expression.run with
  | .ok e =>
    if ← isAtEnd then pure (some e)
    else
      noteNext .leftover
      pure none
  | .error e =>
    report e true
    pure none

end Parser

end LoxLang
