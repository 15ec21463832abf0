import LoxLang.Tree

/-!
# The grammar as rules of derivation

The grammar of the language, one predicate for each nonterminal and one
constructor for each alternative. `Expression ts e rest` says that `ts` begins
with a sentence of the nonterminal, that `e` is the tree of its derivation,
and that `rest` is what stands behind the sentence. No rule looks at `rest`,
so a derivation depends on the tokens of its own sentence only.

The trees settle what a sentence alone leaves open:

* a binary rule is left-recursive, so operators of one level group to the
  left, while `Unary` and `Expression` recurse to the right;
* an `if` statement is the one place where the grammar is ambiguous. The rules
  of statements take an `ElseRule`: under `any` an `else` may go with every
  `if` that can take it, under `nearest` only with the innermost one. For that
  a statement carries whether it is *open*, that is, whether an `else` behind
  it could still become part of it;
* a `for` statement has no tree of its own, it derives `forForm`.

Lists of parameters and of arguments have at most 255 members.
-/

namespace LoxLang.Derivation

mutual

/-- `assignment → ( call "." )? IDENT "=" assignment | or` -/
inductive Expression : List Token → Expr → List Token → Prop
  | assign (name : x.kind = .identifier) (eq : equals.kind = .symbol .equal)
      (expression : Expression ts value rest) :
      Expression (x :: equals :: ts) (.assign x none value) rest
  | set (call : Call ts e (dot :: x :: equals :: mid)) (point : dot.kind = .symbol .dot)
      (name : x.kind = .identifier) (eq : equals.kind = .symbol .equal)
      (expression : Expression mid value rest) :
      Expression ts (.set e x value) rest
  | or (or : Or ts e rest) : Expression ts e rest

/-- `or → and ( "or" and )*` -/
inductive Or : List Token → Expr → List Token → Prop
  | and (and : And ts e rest) : Or ts e rest
  | join (left : Or ts l (t :: mid)) (operator : t.kind = .symbol .orWord)
      (right : And mid r rest) :
      Or ts (.logical l t r) rest

/-- `and → equality ( "and" equality )*` -/
inductive And : List Token → Expr → List Token → Prop
  | equality (equality : Equality ts e rest) : And ts e rest
  | join (left : And ts l (t :: mid)) (operator : t.kind = .symbol .andWord)
      (right : Equality mid r rest) :
      And ts (.logical l t r) rest

/-- `equality → comparison ( ( "!=" | "==" ) comparison )*` -/
inductive Equality : List Token → Expr → List Token → Prop
  | comparison (comparison : Comparison ts e rest) : Equality ts e rest
  | join (left : Equality ts l (t :: mid))
      (operator : t.kind = .symbol .bangEqual ∨ t.kind = .symbol .equalEqual)
      (right : Comparison mid r rest) :
      Equality ts (.binary l t r) rest

/-- `comparison → term ( ( ">" | ">=" | "<" | "<=" ) term )*` -/
inductive Comparison : List Token → Expr → List Token → Prop
  | term (term : Term ts e rest) : Comparison ts e rest
  | join (left : Comparison ts l (t :: mid))
      (operator : t.kind = .symbol .greater ∨ t.kind = .symbol .greaterEqual ∨
        t.kind = .symbol .less ∨ t.kind = .symbol .lessEqual)
      (right : Term mid r rest) :
      Comparison ts (.binary l t r) rest

/-- `term → factor ( ( "-" | "+" ) factor )*` -/
inductive Term : List Token → Expr → List Token → Prop
  | factor (factor : Factor ts e rest) : Term ts e rest
  | join (left : Term ts l (t :: mid))
      (operator : t.kind = .symbol .minus ∨ t.kind = .symbol .plus) (right : Factor mid r rest) :
      Term ts (.binary l t r) rest

/-- `factor → unary ( ( "/" | "*" ) unary )*` -/
inductive Factor : List Token → Expr → List Token → Prop
  | unary (unary : Unary ts e rest) : Factor ts e rest
  | join (left : Factor ts l (t :: mid))
      (operator : t.kind = .symbol .slash ∨ t.kind = .symbol .star) (right : Unary mid r rest) :
      Factor ts (.binary l t r) rest

/-- `unary → ( "!" | "-" ) unary | call` -/
inductive Unary : List Token → Expr → List Token → Prop
  | sign (operator : t.kind = .symbol .bang ∨ t.kind = .symbol .minus) (unary : Unary ts e rest) :
      Unary (t :: ts) (.unary t e) rest
  | call (call : Call ts e rest) : Unary ts e rest

/-- `call → primary ( "(" arguments? ")" | "." IDENT )*` -/
inductive Call : List Token → Expr → List Token → Prop
  | primary (primary : Primary ts e rest) : Call ts e rest
  | noArguments (call : Call ts f (opening :: closing :: rest))
      (open' : opening.kind = .symbol .leftParen) (close : closing.kind = .symbol .rightParen) :
      Call ts (.call f closing []) rest
  | arguments (call : Call ts f (opening :: mid)) (open' : opening.kind = .symbol .leftParen)
      (arguments : Arguments mid es (closing :: rest))
      (close : closing.kind = .symbol .rightParen) (limit : es.length ≤ 255) :
      Call ts (.call f closing es) rest
  | property (call : Call ts e (dot :: x :: rest)) (point : dot.kind = .symbol .dot)
      (name : x.kind = .identifier) :
      Call ts (.get e x) rest

/-- `arguments → expression ( "," expression )*` -/
inductive Arguments : List Token → List Expr → List Token → Prop
  | last (expression : Expression ts e rest) : Arguments ts [e] rest
  | more (expression : Expression ts e (comma :: mid)) (sep : comma.kind = .symbol .comma)
      (arguments : Arguments mid es rest) :
      Arguments ts (e :: es) rest

/-- `primary → NUMBER | STRING | "true" | "false" | "nil" | "this" | IDENT
| "(" expression ")" | "super" "." IDENT` -/
inductive Primary : List Token → Expr → List Token → Prop
  | number (kind : t.kind = .number v) : Primary (t :: rest) (.literal (.number v)) rest
  | string (kind : t.kind = .string s) : Primary (t :: rest) (.literal (.string s)) rest
  | true (kind : t.kind = .symbol .trueWord) : Primary (t :: rest) (.literal (.bool true)) rest
  | false (kind : t.kind = .symbol .falseWord) :
      Primary (t :: rest) (.literal (.bool false)) rest
  | nil (kind : t.kind = .symbol .nilWord) : Primary (t :: rest) (.literal .nil) rest
  | this (kind : t.kind = .symbol .thisWord) : Primary (t :: rest) (.this t none) rest
  | name (kind : t.kind = .identifier) : Primary (t :: rest) (.name t none) rest
  | group (open' : opening.kind = .symbol .leftParen)
      (expression : Expression ts e (closing :: rest))
      (close : closing.kind = .symbol .rightParen) :
      Primary (opening :: ts) (.group e) rest
  | super (kind : keyword.kind = .symbol .superWord) (point : dot.kind = .symbol .dot)
      (method : x.kind = .identifier) :
      Primary (keyword :: dot :: x :: rest) (.super keyword none x) rest

end

/-! ## Statements -/

/-- Which `if` an `else` may go with. -/
inductive ElseRule where
  | any
  | nearest

/-- The statement that a `for` stands for: a `while` whose body ends with the increment, in a block
that starts with the initial clause. A part that is absent leaves no trace, except that an absent
condition is `true`. -/
def forForm (initial : Option Stmt) (condition increment : Option Expr) (body : Stmt) : Stmt :=
  let test := condition.getD (.literal (.bool true))
  match initial, increment with
  | none, none => .whileDo test body
  | none, some step => .whileDo test (.block [body, .expr step])
  | some first, none => .block [first, .whileDo test body]
  | some first, some step => .block [first, .whileDo test (.block [body, .expr step])]

/-- `parameters → IDENT ( "," IDENT )*` -/
inductive Parameters : List Token → List Token → List Token → Prop
  | last (name : x.kind = .identifier) : Parameters (x :: rest) [x] rest
  | more (name : x.kind = .identifier) (sep : comma.kind = .symbol .comma)
      (parameters : Parameters ts ps rest) :
      Parameters (x :: comma :: ts) (x :: ps) rest

/-- `parameters?` -/
inductive ParameterList : List Token → List Token → List Token → Prop
  | none : ParameterList ts [] ts
  | some (parameters : Parameters ts ps rest) (limit : ps.length ≤ 255) :
      ParameterList ts ps rest

/-- `expression?` -/
inductive OptionalExpression : List Token → Option Expr → List Token → Prop
  | none : OptionalExpression ts none ts
  | some (expression : Expression ts e rest) : OptionalExpression ts (some e) rest

/-- `varDecl → "var" IDENT ( "=" expression )? ";"` -/
inductive VarDecl : List Token → Stmt → List Token → Prop
  | bare (word : keyword.kind = .symbol .varWord) (name : x.kind = .identifier)
      (stop : semi.kind = .symbol .semicolon) :
      VarDecl (keyword :: x :: semi :: rest) (.var x none) rest
  | initial (word : keyword.kind = .symbol .varWord) (name : x.kind = .identifier)
      (eq : equals.kind = .symbol .equal) (expression : Expression ts e (semi :: rest))
      (stop : semi.kind = .symbol .semicolon) :
      VarDecl (keyword :: x :: equals :: ts) (.var x (some e)) rest

/-- `exprStmt → expression ";"` -/
inductive ExprStmt : List Token → Stmt → List Token → Prop
  | mk (expression : Expression ts e (semi :: rest)) (stop : semi.kind = .symbol .semicolon) :
      ExprStmt ts (.expr e) rest

/-- `varDecl | exprStmt | ";"` -/
inductive ForInitial : List Token → Option Stmt → List Token → Prop
  | varDecl (declaration : VarDecl ts s rest) : ForInitial ts (some s) rest
  | exprStmt (statement : ExprStmt ts s rest) : ForInitial ts (some s) rest
  | none (stop : semi.kind = .symbol .semicolon) : ForInitial (semi :: rest) none rest

/-- `"(" expression ")"` -/
inductive Condition : List Token → Expr → List Token → Prop
  | mk (open' : opening.kind = .symbol .leftParen)
      (expression : Expression ts e (closing :: rest))
      (close : closing.kind = .symbol .rightParen) :
      Condition (opening :: ts) e rest

mutual

/-- `statement → exprStmt | forStmt | ifStmt | printStmt | returnStmt | whileStmt | block`, with
the mark of an open statement. -/
inductive Statement (rule : ElseRule) : Bool → List Token → Stmt → List Token → Prop
  | exprStmt (statement : ExprStmt ts s rest) : Statement rule false ts s rest
  | for (word : keyword.kind = .symbol .forWord) (open' : opening.kind = .symbol .leftParen)
      (first : ForInitial ts initial mid)
      (test : OptionalExpression mid condition (semi :: ts'))
      (stop : semi.kind = .symbol .semicolon)
      (step : OptionalExpression ts' increment (closing :: mid'))
      (close : closing.kind = .symbol .rightParen) (body : Statement rule isOpen mid' s rest) :
      Statement rule isOpen (keyword :: opening :: ts) (forForm initial condition increment s) rest
  | ifThen (word : keyword.kind = .symbol .ifWord) (test : Condition ts e mid)
      (consequent : Statement rule isOpen mid s rest) :
      Statement rule true (keyword :: ts) (.ifThen e s) rest
  | ifElse (word : keyword.kind = .symbol .ifWord) (test : Condition ts e mid)
      (consequent : Statement rule isOpen mid s (otherwise :: ts'))
      (word' : otherwise.kind = .symbol .elseWord) (nearest : rule = .nearest → isOpen = false)
      (alternative : Statement rule isOpen' ts' s' rest) :
      Statement rule isOpen' (keyword :: ts) (.ifElse e s s') rest
  | print (word : keyword.kind = .symbol .printWord)
      (expression : Expression ts e (semi :: rest)) (stop : semi.kind = .symbol .semicolon) :
      Statement rule false (keyword :: ts) (.print e) rest
  | return (word : keyword.kind = .symbol .returnWord)
      (value : OptionalExpression ts condition (semi :: rest))
      (stop : semi.kind = .symbol .semicolon) :
      Statement rule false (keyword :: ts) (.returning keyword condition) rest
  | while (word : keyword.kind = .symbol .whileWord) (test : Condition ts e mid)
      (body : Statement rule isOpen mid s rest) :
      Statement rule isOpen (keyword :: ts) (.whileDo e s) rest
  | block (open' : braceOpen.kind = .symbol .leftBrace)
      (body : Declarations rule ts ss (braceClose :: rest))
      (close : braceClose.kind = .symbol .rightBrace) :
      Statement rule false (braceOpen :: ts) (.block ss) rest

/-- `declaration → classDecl | funDecl | varDecl | statement` -/
inductive Declaration (rule : ElseRule) : List Token → Stmt → List Token → Prop
  | rootClass (word : keyword.kind = .symbol .classWord) (name : x.kind = .identifier)
      (open' : braceOpen.kind = .symbol .leftBrace)
      (methods : Functions rule ts fs (braceClose :: rest))
      (close : braceClose.kind = .symbol .rightBrace) :
      Declaration rule (keyword :: x :: braceOpen :: ts) (.classDecl x none fs) rest
  | subclass (word : keyword.kind = .symbol .classWord) (name : x.kind = .identifier)
      (below : less.kind = .symbol .less) (parent : y.kind = .identifier)
      (open' : braceOpen.kind = .symbol .leftBrace)
      (methods : Functions rule ts fs (braceClose :: rest))
      (close : braceClose.kind = .symbol .rightBrace) :
      Declaration rule (keyword :: x :: less :: y :: braceOpen :: ts)
        (.classDecl x (some (.name y none)) fs) rest
  | funDecl (word : keyword.kind = .symbol .funWord) (function : Function rule ts f rest) :
      Declaration rule (keyword :: ts) (.function f) rest
  | varDecl (declaration : VarDecl ts s rest) : Declaration rule ts s rest
  | statement (statement : Statement rule isOpen ts s rest) : Declaration rule ts s rest

/-- `function → IDENT "(" parameters? ")" "{" declaration* "}"` -/
inductive Function (rule : ElseRule) : List Token → FunctionDecl → List Token → Prop
  | mk (name : x.kind = .identifier) (open' : opening.kind = .symbol .leftParen)
      (parameters : ParameterList ts ps (closing :: braceOpen :: mid))
      (close : closing.kind = .symbol .rightParen)
      (openBody : braceOpen.kind = .symbol .leftBrace)
      (body : Declarations rule mid ss (braceClose :: rest))
      (closeBody : braceClose.kind = .symbol .rightBrace) :
      Function rule (x :: opening :: ts) ⟨x, ps, ss⟩ rest

/-- `function*` -/
inductive Functions (rule : ElseRule) : List Token → List FunctionDecl → List Token → Prop
  | nil : Functions rule ts [] ts
  | cons (function : Function rule ts f mid) (functions : Functions rule mid fs rest) :
      Functions rule ts (f :: fs) rest

/-- `declaration*` -/
inductive Declarations (rule : ElseRule) : List Token → List Stmt → List Token → Prop
  | nil : Declarations rule ts [] ts
  | cons (declaration : Declaration rule ts s mid)
      (declarations : Declarations rule mid ss rest) :
      Declarations rule ts (s :: ss) rest

end

/-- `program → declaration* EOF`, for the tokens in front of the end. -/
def Program (rule : ElseRule) (ts : List Token) (program : List Stmt) : Prop :=
  Declarations rule ts program []

end LoxLang.Derivation
