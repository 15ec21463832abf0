import LoxLang.Grammar.Reply
import LoxLang.Tree

/-!
# The grammar of expressions

```text
expression → assignment
assignment → ( call "." )? IDENT "=" assignment | or
or         → and        ( "or" and )*
and        → equality   ( "and" equality )*
equality   → comparison ( ( "!=" | "==" ) comparison )*
comparison → term       ( ( ">" | ">=" | "<" | "<=" ) term )*
term       → factor     ( ( "-" | "+" ) factor )*
factor     → unary      ( ( "/" | "*" ) unary )*
unary      → ( "!" | "-" ) unary | call
call       → primary ( "(" arguments? ")" | "." IDENT )*
arguments  → expression ( "," expression )*
primary    → NUMBER | STRING | "true" | "false" | "nil" | "this"
           | IDENT | "(" expression ")" | "super" "." IDENT
```

The six binary levels differ in their operators only, so one pair of functions
serves them all. An assignment is read as a whole `or` expression first; only
at the equals sign is it known to be a target, and a target that is neither a
name nor a property is reported after its value has been read.

Every function below recurses on a shorter list of tokens, or on the same list
at a tighter level.
-/

namespace LoxLang

/-- The levels of left-associative binary operators, the loosest first. -/
inductive Level where
  | or
  | and
  | equality
  | comparison
  | term
  | factor
deriving DecidableEq, Repr

namespace Level

/-- The next tighter level; operands of the tightest are unary expressions. -/
def tighter : Level → Option Level
  | .or => some .and
  | .and => some .equality
  | .equality => some .comparison
  | .comparison => some .term
  | .term => some .factor
  | .factor => none

/-- How many levels are tighter. -/
def height : Level → Nat
  | .or => 5
  | .and => 4
  | .equality => 3
  | .comparison => 2
  | .term => 1
  | .factor => 0

/-- The operators of a level. -/
def operators : Level → List Symbol
  | .or => [.orWord]
  | .and => [.andWord]
  | .equality => [.bangEqual, .equalEqual]
  | .comparison => [.greater, .greaterEqual, .less, .lessEqual]
  | .term => [.minus, .plus]
  | .factor => [.star, .slash]

/-- The node that an operator of the level builds; the two loosest levels short-circuit. -/
def node (level : Level) (left : Expr) (operator : Token) (right : Expr) : Expr :=
  match level with
  | .or | .and => .logical left operator right
  | _ => .binary left operator right

/-- Is the token an operator of the level? -/
def hasOperator (level : Level) (t : Token) : Bool :=
  level.operators.any t.isSymbol

theorem height_lt_of_tighter {a b : Level} (h : a.tighter = some b) : b.height < a.height := by
  cases a <;> simp only [tighter, Option.some.injEq, reduceCtorEq] at h <;> subst h <;> decide

end Level

namespace Grammar

/-- An expression with a value assigned to it: a name or a property is a target, and anything else
is reported at the equals sign and stands for itself. -/
def assigned (target : Expr) (equals : Token) (value : Expr) : Expr × List Complaint :=
  match target with
  | .name x _ => (.assign x none value, [])
  | .get object property => (.set object property value, [])
  | other => (other, [⟨some equals, .assignmentTarget⟩])

mutual

/-- An expression: an assignment, or an expression of the loosest binary level. -/
def expression (ts : List Token) : Reply Expr ts.length :=
  (binary .or ts).andThen fun target rest _ =>
    match rest with
    | [] => .keep target []
    | t :: rest =>
      if t.isSymbol .equal then
        ((expression rest).andThen fun value rest' _ =>
          let (e, reports) := assigned target t value
          .parsed e rest' reports (length_lt_succ rest')).widen (tail_le_succ t rest)
      else .keep target (t :: rest)
termination_by 32 * ts.length + 20
decreasing_by all_goals simp only [List.length_cons, Level.height] at *; omega

/-- Operands of a level joined by its operators, from the left. -/
def binary (level : Level) (ts : List Token) : Reply Expr ts.length :=
  (operand level ts).andThen fun left rest _ => binaryRest level left rest
termination_by 32 * ts.length + 2 * level.height + 5
decreasing_by all_goals omega

/-- An operand of a level. -/
def operand (level : Level) (ts : List Token) : Reply Expr ts.length :=
  match _h : level.tighter with
  | some tighter => binary tighter ts
  | none => unary ts
termination_by 32 * ts.length + 2 * level.height + 4
decreasing_by
  · have := Level.height_lt_of_tighter _h
    omega
  · omega

/-- What may follow the first operand of a level. -/
def binaryRest (level : Level) (left : Expr) (ts : List Token) : Reply Expr (ts.length + 1) :=
  match ts with
  | [] => .keep left []
  | t :: rest =>
    if level.hasOperator t then
      ((operand level rest).andThen fun right rest' _ =>
        binaryRest level (level.node left t right) rest').widen
          (tail_le_succ t rest)
    else .keep left (t :: rest)
termination_by 32 * ts.length
decreasing_by
  all_goals
    have : level.height ≤ 5 := by cases level <;> decide
    simp only [List.length_cons] at *
    omega

/-- Unary operators and their operand. -/
def unary (ts : List Token) : Reply Expr ts.length :=
  match ts with
  | [] => call []
  | t :: rest =>
    if t.isSymbol .bang || t.isSymbol .minus then
      ((unary rest).map (.unary t)).widen (tail_le t rest)
    else call (t :: rest)
termination_by 32 * ts.length + 3
decreasing_by all_goals (try simp only [List.length_cons] at *); omega

/-- A primary expression with calls and property accesses behind it. -/
def call (ts : List Token) : Reply Expr ts.length :=
  (primary ts).andThen fun e rest _ => callRest e rest
termination_by 32 * ts.length + 2
decreasing_by all_goals omega

/-- Calls and property accesses on `e`. -/
def callRest (e : Expr) (ts : List Token) : Reply Expr (ts.length + 1) :=
  match ts with
  | [] => .keep e []
  | t :: rest =>
    if t.isSymbol .leftParen then
      ((arguments rest).andThen fun (list, paren) rest' _ =>
        callRest (.call e paren list) rest').widen (tail_le_succ t rest)
    else if t.isSymbol .dot then
      ((expectName .propertyName rest).andThen fun property rest' _ =>
        callRest (.get e property) rest').widen (tail_le_succ t rest)
    else .keep e (t :: rest)
termination_by 32 * ts.length
decreasing_by all_goals simp only [List.length_cons] at *; omega

/-- Arguments up to and with the closing parenthesis. -/
def arguments (ts : List Token) : Reply (List Expr × Token) ts.length :=
  match ts with
  | [] => someArguments 0 []
  | t :: rest =>
    if t.isSymbol .rightParen then .parsed ([], t) rest [] (tail_lt t rest)
    else someArguments 0 (t :: rest)
termination_by 32 * ts.length + 22
decreasing_by all_goals (try simp only [List.length_cons] at *); omega

/-- At least one more argument behind `count` others, up to and with the closing parenthesis. -/
def someArguments (count : Nat) (ts : List Token) : Reply (List Expr × Token) ts.length :=
  ((expression ts).andThen fun e rest _ =>
    match rest with
    | [] =>
      (expect .rightParen .argumentsClose []).widen nil_length_le |>.map fun paren => ([e], paren)
    | t :: rest =>
      if t.isSymbol .comma then
        ((someArguments (count + 1) rest).map fun (list, paren) => (e :: list, paren)).widen
          (tail_le_succ t rest)
      else
        ((expect .rightParen .argumentsClose (t :: rest)).map fun paren => ([e], paren)).widen
          (cons_length_le t rest)).noting (limitReport .tooManyArguments count ts)
termination_by 32 * ts.length + 21
decreasing_by all_goals (try simp only [List.length_cons] at *); omega

/-- The expressions that no operator takes apart. -/
def primary (ts : List Token) : Reply Expr ts.length :=
  match ts with
  | [] => .refuse .expression []
  | t :: rest =>
    match t.kind with
    | .number value => .parsed (.literal (.number value)) rest [] (tail_lt t rest)
    | .string text => .parsed (.literal (.string text)) rest [] (tail_lt t rest)
    | .symbol .trueWord => .parsed (.literal (.bool true)) rest [] (tail_lt t rest)
    | .symbol .falseWord => .parsed (.literal (.bool false)) rest [] (tail_lt t rest)
    | .symbol .nilWord => .parsed (.literal .nil) rest [] (tail_lt t rest)
    | .symbol .thisWord => .parsed (.this t none) rest [] (tail_lt t rest)
    | .identifier => .parsed (.name t none) rest [] (tail_lt t rest)
    | .symbol .superWord =>
      ((expect .dot .superDot rest).andThen fun _ rest' _ =>
        ((expectName .superMethod rest').map fun method => .super t none method).widen
          (length_le_succ rest')).widen (tail_le t rest)
    | .symbol .leftParen =>
      ((expression rest).andThen fun e rest' _ =>
        ((expect .rightParen .groupClose rest').map fun _ => .group e).widen
          (length_le_succ rest')).widen (tail_le t rest)
    | _ => .refuse .expression (t :: rest)
termination_by 32 * ts.length + 1
decreasing_by all_goals simp only [List.length_cons] at *; omega

end

end Grammar

end LoxLang
