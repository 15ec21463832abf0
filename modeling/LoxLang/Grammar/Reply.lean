import LoxLang.Token

/-!
# Replies of a parser

A parser takes a list of tokens and either consumes some of them and builds a
value, or refuses. In both cases it says what is left. The type bounds that
rest: success consumes at least one token of the `bound`, refusal gives back no
more than there was. Recursion on the input is justified by these bounds alone.

Errors come in two sorts. One ends the attempt and travels with the refusal.
The others are reports: the parser noticed something wrong, is not confused by
it, and goes on. Reports are kept in order on both outcomes.
-/

namespace LoxLang

/-- What kind of declaration with parameters and a body is being read. -/
inductive Routine where
  | function
  | method
deriving DecidableEq, Repr

/-- The word for it in messages. -/
def Routine.word : Routine → String
  | .function => "function"
  | .method => "method"

/-- What the grammar misses or forbids at a token. -/
inductive GrammarError where
  | className
  | superclassName
  | classBodyOpen
  | classBodyClose
  | routineName (what : Routine)
  | parametersOpen (what : Routine)
  | tooManyParameters
  | parameterName
  | parametersClose
  | bodyOpen (what : Routine)
  | variableName
  | variableEnd
  | forOpen
  | forConditionEnd
  | forClose
  | ifOpen
  | ifClose
  | whileOpen
  | whileClose
  | returnEnd
  | printEnd
  | expressionEnd
  | blockClose
  | assignmentTarget
  | tooManyArguments
  | argumentsClose
  | propertyName
  | superDot
  | superMethod
  | groupClose
  | expression
  | leftover
deriving DecidableEq, Repr

/-- The wording of a grammar error. -/
def GrammarError.message : GrammarError → String
  | className => "Expect class name."
  | superclassName => "Expect superclass name."
  | classBodyOpen => "Expect '\x7b' before class body."
  | classBodyClose => "Expect '\x7d' after class body."
  | routineName what => "Expect " ++ what.word ++ " name."
  | parametersOpen what => "Expect '(' after " ++ what.word ++ " name."
  | tooManyParameters => "Can't have more than 255 parameters."
  | parameterName => "Expect parameter name."
  | parametersClose => "Expect ')' after parameters."
  | bodyOpen what => "Expect '\x7b' before " ++ what.word ++ " body."
  | variableName => "Expect variable name."
  | variableEnd => "Expect ';' after variable declaration."
  | forOpen => "Expect '(' after 'for'."
  | forConditionEnd => "Expect ';' after loop condition."
  | forClose => "Expect ')' after for clauses."
  | ifOpen => "Expect '(' after 'if'."
  | ifClose => "Expect ')' after if condition."
  | whileOpen => "Expect '(' after 'while'."
  | whileClose => "Expect ')' after condition."
  | returnEnd => "Expect ';' after return value."
  | printEnd => "Expect ';' after value."
  | expressionEnd => "Expect ';' after expression."
  | blockClose => "Expect '\x7d' after block."
  | assignmentTarget => "Invalid assignment target."
  | tooManyArguments => "Can't have more than 255 arguments."
  | argumentsClose => "Expect ')' after arguments."
  | propertyName => "Expect property name after '.'."
  | superDot => "Expect '.' after 'super'."
  | superMethod => "Expect superclass method name."
  | groupClose => "Expect ')' after expression."
  | expression => "Expect expression."
  | leftover => "Expect end of expression."

/-! ## Bounds

The recursion of a parser is on what is left, and these are the comparisons that come up. -/

theorem tail_lt (t : Token) (rest : List Token) : rest.length < (t :: rest).length :=
  Nat.lt_succ_self _

theorem tail_le (t : Token) (rest : List Token) : rest.length ≤ (t :: rest).length :=
  Nat.le_succ _

theorem tail_le_succ (t : Token) (rest : List Token) : rest.length ≤ (t :: rest).length + 1 :=
  Nat.le_succ_of_le (tail_le t rest)

theorem length_le_succ (ts : List Token) : ts.length ≤ ts.length + 1 := Nat.le_succ _

theorem length_lt_succ (ts : List Token) : ts.length < ts.length + 1 := Nat.lt_succ_self _

theorem cons_length_le (t : Token) (rest : List Token) :
    (t :: rest).length ≤ (t :: rest).length + 1 := Nat.le_succ _

theorem nil_length_le : ([] : List Token).length ≤ ([] : List Token).length + 1 :=
  Nat.le_succ _

/-! ## Replies -/

/-- A grammar error and the token at which it was noticed; none stands for the end of the input. -/
structure Complaint where
  found : Option Token
  error : GrammarError

/-- The outcome of a parser on at most `bound` tokens. -/
inductive Reply (α : Type) (bound : Nat) where
  | parsed (value : α) (rest : List Token) (reports : List Complaint)
      (shorter : rest.length < bound)
  | refused (rest : List Token) (reports : List Complaint) (reason : Complaint)
      (notLonger : rest.length ≤ bound)

namespace Reply

variable {α β : Type} {n m : Nat}

/-- A parser followed by another on the rest; reports accumulate in order. -/
def andThen : Reply α n →
    ((value : α) → (rest : List Token) → rest.length < n → Reply β (rest.length + 1)) → Reply β n
  | parsed value rest reports shorter, next =>
    match next value rest shorter with
    | parsed value' rest' reports' shorter' =>
      parsed value' rest' (reports ++ reports') (by omega)
    | refused rest' reports' reason notLonger =>
      refused rest' (reports ++ reports') reason (by omega)
  | refused rest reports reason notLonger, _ => refused rest reports reason notLonger

/-- A function applied to the value. -/
def map (f : α → β) : Reply α n → Reply β n
  | parsed value rest reports shorter => parsed (f value) rest reports shorter
  | refused rest reports reason notLonger => refused rest reports reason notLonger

/-- A reply within a bound is one within any larger bound. -/
def widen (h : n ≤ m) : Reply α n → Reply α m
  | parsed value rest reports shorter => parsed value rest reports (by omega)
  | refused rest reports reason notLonger => refused rest reports reason (by omega)

/-- Reports made before a parser started. -/
def noting (earlier : List Complaint) : Reply α n → Reply α n
  | parsed value rest reports shorter => parsed value rest (earlier ++ reports) shorter
  | refused rest reports reason notLonger => refused rest (earlier ++ reports) reason notLonger

/-- A reply that consumes nothing of the tokens at hand. -/
def keep (value : α) (ts : List Token) : Reply α (ts.length + 1) :=
  parsed value ts [] (length_lt_succ ts)

/-- A refusal at the first of the tokens at hand. -/
def refuse (error : GrammarError) (ts : List Token) : Reply α ts.length :=
  refused ts [] ⟨ts.head?, error⟩ (by omega)

end Reply

namespace Grammar

/-- The given symbol, or a refusal with the given error. -/
def expect (s : Symbol) (error : GrammarError) (ts : List Token) : Reply Token ts.length :=
  match ts with
  | [] => .refuse error []
  | t :: rest =>
    if t.isSymbol s then .parsed t rest [] (tail_lt t rest) else .refuse error (t :: rest)

/-- An identifier, or a refusal with the given error. -/
def expectName (error : GrammarError) (ts : List Token) : Reply Token ts.length :=
  match ts with
  | [] => .refuse error []
  | t :: rest =>
    match t.kind with
    | .identifier => .parsed t rest [] (tail_lt t rest)
    | _ => .refuse error (t :: rest)

/-- The most parameters of a function and the most arguments of a call. -/
def maxArguments : Nat := 255

/-- A report at the next token, if `count` items have been read and one more is coming. -/
def limitReport (error : GrammarError) (count : Nat) (ts : List Token) : List Complaint :=
  if maxArguments ≤ count then [⟨ts.head?, error⟩] else []

end Grammar

end LoxLang
