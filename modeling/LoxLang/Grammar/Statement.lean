import LoxLang.Grammar.Expression

/-!
# The grammar of statements

```text
program     → declaration* EOF
declaration → class | fun | var | statement
class       → "class" IDENT ( "<" IDENT )? "{" routine* "}"
fun         → "fun" routine
routine     → IDENT "(" parameters? ")" block
var         → "var" IDENT ( "=" expression )? ";"
statement   → expression ";" | for | if | print | return | while | block
for         → "for" "(" ( var | expression ";" | ";" )
              expression? ";" expression? ")" statement
if          → "if" "(" expression ")" statement ( "else" statement )?
print       → "print" expression ";"
return      → "return" expression? ";"
while       → "while" "(" expression ")" statement
block       → "{" declaration* "}"
parameters  → IDENT ( "," IDENT )*
```

A declaration that is refused is dropped: its error joins the reports, tokens
are skipped up to the next likely statement boundary, and reading goes on
there. At least one token is skipped, so the loop over declarations ends.
-/

namespace LoxLang

/-- Does the token begin a statement or declaration that nothing else begins with? -/
def Token.startsStatement (t : Token) : Bool :=
  match t.kind with
  | .symbol s =>
    [Symbol.classWord, .funWord, .varWord, .forWord, .ifWord, .whileWord, .printWord,
      .returnWord].contains s
  | _ => false

namespace Grammar

/-- What is left after skipping to a statement boundary behind `previous`: just behind a semicolon,
or in front of a token that starts a statement. -/
def skipToBoundary (previous : Token) : List Token → List Token
  | [] => []
  | t :: rest =>
    if previous.isSymbol .semicolon || t.startsStatement then t :: rest
    else skipToBoundary t rest

/-- Where reading resumes after a refusal; the token refused is always skipped. -/
def resume : List Token → List Token
  | [] => []
  | t :: rest => skipToBoundary t rest

theorem skipToBoundary_length_le (previous : Token) (ts : List Token) :
    (skipToBoundary previous ts).length ≤ ts.length := by
  induction ts generalizing previous with
  | nil => exact Nat.le_refl _
  | cons t rest ih =>
      unfold skipToBoundary
      split
      · exact Nat.le_refl _
      · exact Nat.le_succ_of_le (ih t)

theorem resume_length_le {ts : List Token} {n : Nat} (h : ts.length ≤ n + 1) :
    (resume ts).length ≤ n := by
  cases ts with
  | nil => exact Nat.zero_le n
  | cons t rest => exact Nat.le_trans (skipToBoundary_length_le t rest) (Nat.le_of_succ_le_succ h)

/-- Parameters behind the opening parenthesis, `count` of them read already, up to and with the
closing one. -/
def someParameters (count : Nat) (ts : List Token) : Reply (List Token) ts.length :=
  ((expectName .parameterName ts).andThen fun p rest _ =>
    match rest with
    | [] => ((expect .rightParen .parametersClose []).map fun _ => [p]).widen nil_length_le
    | t :: rest =>
      if t.isSymbol .comma then
        ((someParameters (count + 1) rest).map (p :: ·)).widen
          (tail_le_succ t rest)
      else ((expect .rightParen .parametersClose (t :: rest)).map fun _ => [p]).widen
        (cons_length_le t rest)).noting (limitReport .tooManyParameters count ts)
termination_by ts.length
decreasing_by simp only [List.length_cons] at *; omega

/-- The parameter list behind the opening parenthesis, up to and with the closing one. -/
def parameters (ts : List Token) : Reply (List Token) ts.length :=
  match ts with
  | [] => someParameters 0 []
  | t :: rest =>
    if t.isSymbol .rightParen then .parsed [] rest [] (tail_lt t rest)
    else someParameters 0 (t :: rest)

/-- A variable declaration behind its keyword. -/
def variableDeclaration (ts : List Token) : Reply Stmt ts.length :=
  (expectName .variableName ts).andThen fun name rest _ =>
    match rest with
    | [] => ((expect .semicolon .variableEnd []).map fun _ => .var name none).widen nil_length_le
    | t :: rest =>
      if t.isSymbol .equal then
        ((expression rest).andThen fun initial rest' _ =>
          ((expect .semicolon .variableEnd rest').map fun _ => .var name (some initial)).widen
            (length_le_succ rest')).widen (tail_le_succ t rest)
      else
        ((expect .semicolon .variableEnd (t :: rest)).map fun _ => .var name none).widen
          (cons_length_le t rest)

/-- An expression and the given token behind it. -/
def closed (s : Symbol) (error : GrammarError) (ts : List Token) : Reply Expr ts.length :=
  (expression ts).andThen fun e rest _ =>
    ((expect s error rest).map fun _ => e).widen (length_le_succ rest)

/-- An optional expression and the given token behind it. -/
def optionallyClosed (s : Symbol) (error : GrammarError) (ts : List Token) :
    Reply (Option Expr) ts.length :=
  match ts with
  | [] => (closed s error []).map some
  | t :: rest =>
    if t.isSymbol s then .parsed none rest [] (tail_lt t rest)
    else (closed s error (t :: rest)).map some

/-- The initial clause of a `for` loop with its semicolon. -/
def initialClause (ts : List Token) : Reply (Option Stmt) ts.length :=
  match ts with
  | [] => (closed .semicolon .expressionEnd []).map fun e => some (.expr e)
  | t :: rest =>
    if t.isSymbol .semicolon then .parsed none rest [] (tail_lt t rest)
    else if t.isSymbol .varWord then ((variableDeclaration rest).map some).widen (tail_le t rest)
    else (closed .semicolon .expressionEnd (t :: rest)).map fun e => some (.expr e)

/-- The clauses of a `for` loop, parentheses included. -/
def forClauses (ts : List Token) : Reply ForClauses ts.length :=
  (expect .leftParen .forOpen ts).andThen fun _ rest _ =>
    ((initialClause rest).andThen fun initial rest _ =>
      ((optionallyClosed .semicolon .forConditionEnd rest).andThen fun condition rest _ =>
        ((optionallyClosed .rightParen .forClose rest).map fun increment =>
          { initial, condition, increment }).widen (length_le_succ rest)).widen
            (length_le_succ rest)).widen (length_le_succ rest)

/-- A condition in parentheses. -/
def condition (opening closing : GrammarError) (ts : List Token) : Reply Expr ts.length :=
  (expect .leftParen opening ts).andThen fun _ rest _ =>
    (closed .rightParen closing rest).widen (length_le_succ rest)

/-- A return statement behind its keyword. -/
def returnValue (keyword : Token) (ts : List Token) : Reply Stmt ts.length :=
  (optionallyClosed .semicolon .returnEnd ts).map (.returning keyword)

/-- The superclass of a class declaration, if it has one. -/
def superclass (ts : List Token) : Reply (Option Expr) (ts.length + 1) :=
  match ts with
  | [] => .keep none []
  | t :: rest =>
    if t.isSymbol .less then
      ((expectName .superclassName rest).map fun name => some (.name name none)).widen
        (tail_le_succ t rest)
    else .keep none (t :: rest)

/-- Declarations that were read, with what is left; this never fails. -/
structure Batch (bound : Nat) where
  stmts : List Stmt
  rest : List Token
  reports : List Complaint
  notLonger : rest.length ≤ bound

mutual

/-- A statement that declares nothing itself. -/
def statement (ts : List Token) : Reply Stmt ts.length :=
  match ts with
  | [] => (closed .semicolon .expressionEnd []).map .expr
  | t :: rest =>
    match t.kind with
    | .symbol .forWord =>
      ((forClauses rest).andThen fun clauses rest' _ =>
        ((statement rest').map clauses.toStmt).widen (length_le_succ rest')).widen (tail_le t rest)
    | .symbol .ifWord =>
      ((condition .ifOpen .ifClose rest).andThen fun test rest' _ =>
        ((statement rest').andThen fun consequent rest'' _ =>
          alternative test consequent rest'').widen (length_le_succ rest')).widen (tail_le t rest)
    | .symbol .whileWord =>
      ((condition .whileOpen .whileClose rest).andThen fun test rest' _ =>
        ((statement rest').map (.whileDo test)).widen (length_le_succ rest')).widen (tail_le t rest)
    | .symbol .returnWord => (returnValue t rest).widen (tail_le t rest)
    | .symbol .leftBrace => ((block rest).map .block).widen (tail_le t rest)
    | .symbol .printWord => ((closed .semicolon .printEnd rest).map .print).widen (tail_le t rest)
    | _ => (closed .semicolon .expressionEnd (t :: rest)).map .expr
termination_by 8 * ts.length + 1
decreasing_by all_goals simp only [List.length_cons] at *; omega

/-- The branch behind `else`, which belongs to the nearest `if` that can take it. -/
def alternative (test : Expr) (consequent : Stmt) (ts : List Token) :
    Reply Stmt (ts.length + 1) :=
  match ts with
  | [] => .keep (.ifThen test consequent) []
  | t :: rest =>
    if t.isSymbol .elseWord then
      ((statement rest).map (.ifElse test consequent)).widen
        (tail_le_succ t rest)
    else .keep (.ifThen test consequent) (t :: rest)
termination_by 8 * ts.length
decreasing_by simp only [List.length_cons] at *; omega

/-- Declarations up to and with the closing brace. -/
def block (ts : List Token) : Reply (List Stmt) ts.length :=
  let batch := declarations true ts
  ((expect .rightBrace .blockClose batch.rest).map fun _ => batch.stmts).noting batch.reports
    |>.widen batch.notLonger
termination_by 8 * ts.length + 4

/-- Declarations up to the end of the input, or up to a closing brace inside a block. -/
def declarations (inBlock : Bool) (ts : List Token) : Batch ts.length :=
  match ts with
  | [] => ⟨[], [], [], Nat.le_refl _⟩
  | t :: rest =>
    if inBlock && t.isSymbol .rightBrace then ⟨[], t :: rest, [], Nat.le_refl _⟩
    else match declaration t rest with
      | .parsed stmt rest' reports shorter =>
        let more := declarations inBlock rest'
        ⟨stmt :: more.stmts, more.rest, reports ++ more.reports, by
          have := more.notLonger
          simp only [List.length_cons] at *
          omega⟩
      | .refused rest' reports reason notLonger =>
        let more := declarations inBlock (resume rest')
        ⟨more.stmts, more.rest, reports ++ reason :: more.reports, by
          have := more.notLonger
          have := resume_length_le notLonger
          simp only [List.length_cons] at *
          omega⟩
termination_by 8 * ts.length + 3
decreasing_by
  · simp only [List.length_cons]
    omega
  · simp only [List.length_cons]
    omega
  · have := resume_length_le notLonger
    simp only [List.length_cons]
    omega

/-- The declaration or statement that starts with `t`. -/
def declaration (t : Token) (ts : List Token) : Reply Stmt (ts.length + 1) :=
  match t.kind with
  | .symbol .classWord => (classBody ts).widen (length_le_succ ts)
  | .symbol .funWord => ((routine .function ts).map .function).widen (length_le_succ ts)
  | .symbol .varWord => (variableDeclaration ts).widen (length_le_succ ts)
  | _ => statement (t :: ts)
termination_by 8 * (ts.length + 1) + 2
decreasing_by all_goals (try simp only [List.length_cons]); omega

/-- A class declaration behind its keyword. -/
def classBody (ts : List Token) : Reply Stmt ts.length :=
  (expectName .className ts).andThen fun name rest _ =>
    (superclass rest).andThen fun parent rest _ =>
      ((expect .leftBrace .classBodyOpen rest).andThen fun _ rest _ =>
        (methods rest).andThen fun list rest _ =>
          ((expect .rightBrace .classBodyClose rest).map fun _ =>
            .classDecl name parent list).widen (length_le_succ rest)).widen (length_le_succ rest)
termination_by 8 * ts.length + 7
decreasing_by omega

/-- Methods up to a closing brace, which is left. -/
def methods (ts : List Token) : Reply (List FunctionDecl) (ts.length + 1) :=
  match ts with
  | [] => .keep [] []
  | t :: rest =>
    if t.isSymbol .rightBrace then .keep [] (t :: rest)
    else
      ((routine .method (t :: rest)).andThen fun m rest' _ =>
        (methods rest').map (m :: ·)).widen (cons_length_le t rest)
termination_by 8 * ts.length + 6
decreasing_by all_goals simp only [List.length_cons] at *; omega

/-- A function or method from its name on. -/
def routine (what : Routine) (ts : List Token) : Reply FunctionDecl ts.length :=
  (expectName (.routineName what) ts).andThen fun name rest _ =>
    ((expect .leftParen (.parametersOpen what) rest).andThen fun _ rest _ =>
      ((parameters rest).andThen fun list rest _ =>
        ((expect .leftBrace (.bodyOpen what) rest).andThen fun _ rest _ =>
          ((block rest).map fun body => ⟨name, list, body⟩).widen (length_le_succ rest)).widen
            (length_le_succ rest)).widen (length_le_succ rest)).widen (length_le_succ rest)
termination_by 8 * ts.length + 5
decreasing_by omega

end

end Grammar

end LoxLang
