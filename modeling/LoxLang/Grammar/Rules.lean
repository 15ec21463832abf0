import LoxLang.Grammar.Program

/-!
# The grammar as a table

The rules of the grammar as data, one phrase for each nonterminal, and what a
phrase derives: lists of tokens, without trees. Two things that are part of the
grammar proper are left out here. An assignment may have any `or` expression in
front of its equals sign, and there is no limit on parameters and arguments.
What violates these two only is noticed by the parser and does not stop it.

A program is a list of declarations and the end of the input.
-/

namespace LoxLang

/-- Is this an error that ends the declaration in which it is noticed? After the others the parser
goes on as if nothing were wrong. -/
def GrammarError.unwinds : GrammarError → Bool
  | .assignmentTarget | .tooManyParameters | .tooManyArguments => false
  | _ => true

namespace Grammar

/-- The errors of a program that end a declaration, in the order in which they are noticed. -/
def unwindingErrors (ts : List Token) : List (Located GrammarError) :=
  (program ts).2.filter (·.error.unwinds)

/-- The tokens that rules tell apart. -/
inductive Terminal where
  | word (s : Symbol)
  | operator (level : Level)
  | identifier
  | number
  | string

/-- Is the token one of these? -/
def Terminal.Fits (x : Terminal) (t : Token) : Prop :=
  match x with
  | word s => t.kind = .symbol s
  | operator level => level.hasOperator t = true
  | identifier => t.kind = .identifier
  | number => ∃ value, t.kind = .number value
  | string => ∃ text, t.kind = .string text

/-- The left sides of rules. The six levels of binary operators have rules of one form. -/
inductive Nonterminal where
  | declaration | classDecl | funDecl | function | parameters | varDecl
  | statement | exprStmt | forStmt | ifStmt | printStmt | returnStmt | whileStmt | block
  | expression | assignment | binary (level : Level) | unary | call | arguments | primary

/-- The right sides of rules. -/
inductive Phrase where
  | empty
  | token (x : Terminal)
  | use (n : Nonterminal)
  | seq (a b : Phrase)
  | either (a b : Phrase)
  | maybe (a : Phrase)
  | many (a : Phrase)

namespace Phrase

/-- A symbol. -/
def word (s : Symbol) : Phrase := token (.word s)

/-- An identifier. -/
def name : Phrase := token .identifier

/-- One phrase behind the other. -/
def all : List Phrase → Phrase
  | [] => empty
  | [a] => a
  | a :: b :: more => seq a (all (b :: more))

/-- One of the phrases, of which there is at least one. -/
def oneOf (a : Phrase) : List Phrase → Phrase
  | [] => a
  | b :: more => either a (oneOf b more)

end Phrase

/-- What an operator of the level stands between. -/
def Nonterminal.operand (level : Level) : Nonterminal :=
  match level.tighter with
  | some tighter => .binary tighter
  | none => .unary

open Phrase in
/-- The rules. -/
def Nonterminal.rule : Nonterminal → Phrase
  | declaration => oneOf (use classDecl) [use funDecl, use varDecl, use statement]
  | classDecl => all [word .classWord, name, maybe (all [word .less, name]), word .leftBrace,
      many (use function), word .rightBrace]
  | funDecl => all [word .funWord, use function]
  | function => all [name, word .leftParen, maybe (use parameters), word .rightParen, use block]
  | parameters => all [name, many (all [word .comma, name])]
  | varDecl => all [word .varWord, name, maybe (all [word .equal, use expression]),
      word .semicolon]
  | statement => oneOf (use exprStmt) [use forStmt, use ifStmt, use printStmt, use returnStmt,
      use whileStmt, use block]
  | exprStmt => all [use expression, word .semicolon]
  | forStmt => all [word .forWord, word .leftParen,
      oneOf (use varDecl) [use exprStmt, word .semicolon], maybe (use expression),
      word .semicolon, maybe (use expression), word .rightParen, use statement]
  | ifStmt => all [word .ifWord, word .leftParen, use expression, word .rightParen,
      use statement, maybe (all [word .elseWord, use statement])]
  | printStmt => all [word .printWord, use expression, word .semicolon]
  | returnStmt => all [word .returnWord, maybe (use expression), word .semicolon]
  | whileStmt => all [word .whileWord, word .leftParen, use expression, word .rightParen,
      use statement]
  | block => all [word .leftBrace, many (use declaration), word .rightBrace]
  | expression => use assignment
  | assignment => either (all [use (binary .or), word .equal, use assignment]) (use (binary .or))
  | binary level => all [use (operand level),
      many (all [token (.operator level), use (operand level)])]
  | unary => either (all [oneOf (word .bang) [word .minus], use unary]) (use call)
  | call => all [use primary, many (either
      (all [word .leftParen, maybe (use arguments), word .rightParen]) (all [word .dot, name]))]
  | arguments => all [use expression, many (all [word .comma, use expression])]
  | primary => oneOf (token .number) [token .string, word .trueWord, word .falseWord,
      word .nilWord, word .thisWord, name,
      all [word .leftParen, use expression, word .rightParen],
      all [word .superWord, word .dot, name]]

namespace Phrase

/-- The lists of tokens that a phrase stands for. -/
inductive Derives : Phrase → List Token → Prop
  | empty : Derives empty []
  | token {x : Terminal} {t : Token} (fits : x.Fits t) : Derives (token x) [t]
  | use {n : Nonterminal} {ts : List Token} (rule : Derives n.rule ts) : Derives (use n) ts
  | seq {a b : Phrase} {ts us : List Token} (first : Derives a ts) (second : Derives b us) :
      Derives (seq a b) (ts ++ us)
  | left {a b : Phrase} {ts : List Token} (h : Derives a ts) : Derives (either a b) ts
  | right {a b : Phrase} {ts : List Token} (h : Derives b ts) : Derives (either a b) ts
  | skip {a : Phrase} : Derives (maybe a) []
  | once {a : Phrase} {ts : List Token} (h : Derives a ts) : Derives (maybe a) ts
  | stop {a : Phrase} : Derives (many a) []
  | more {a : Phrase} {ts us : List Token} (first : Derives a ts) (others : Derives (many a) us) :
      Derives (many a) (ts ++ us)

/-- The tokens can be the beginning of what the phrase stands for. -/
def Viable (p : Phrase) (ts : List Token) : Prop := ∃ more, p.Derives (ts ++ more)

end Phrase

/-- `program → declaration* EOF` -/
def IsProgram (ts : List Token) : Prop :=
  ∃ front last, ts = front ++ [last] ∧ last.isEnd = true ∧
    (Phrase.many (.use .declaration)).Derives front

/-- The tokens can be the beginning of a program. -/
def BeginsProgram (ts : List Token) : Prop := ∃ more, IsProgram (ts ++ more)

end Grammar

end LoxLang
