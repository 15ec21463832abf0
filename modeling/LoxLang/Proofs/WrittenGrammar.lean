import LoxLang.Proofs.ProgramGrammar
import LoxLang.Proofs.WrittenTrees

/-!
# The grammar of programs as they are written

The rules of derivation for statements once more, with trees in which a `for`
statement has a node of its own. Expressions, declarations of variables and
lists of parameters are derived as before, since no statement stands in them.

The sentences are the same: a tree without `for` nodes is derived from some
tokens exactly if it is what a tree with such nodes stands for that is derived
from them.
-/

namespace LoxLang.Written

open LoxLang.Derivation (ElseRule OptionalExpression Condition ParameterList Expression)

/-- `varDecl | exprStmt | ";"` -/
inductive ForInitial : List Token → Option Initial → List Token → Prop
  | varDecl (declaration : Derivation.VarDecl ts (.var x value) rest) :
      ForInitial ts (some (.var x value)) rest
  | exprStmt (statement : Derivation.ExprStmt ts (.expr e) rest) :
      ForInitial ts (some (.expr e)) rest
  | none (stop : semi.kind = .symbol .semicolon) : ForInitial (semi :: rest) none rest

mutual

/-- `statement → exprStmt | forStmt | ifStmt | printStmt | returnStmt | whileStmt | block`, with
the mark of an open statement. -/
inductive Statement (rule : ElseRule) : Bool → List Token → Stmt → List Token → Prop
  | exprStmt (statement : Derivation.ExprStmt ts (.expr e) rest) :
      Statement rule false ts (.expr e) rest
  | for (word : keyword.kind = .symbol .forWord) (open' : opening.kind = .symbol .leftParen)
      (first : ForInitial ts initial mid)
      (test : OptionalExpression mid condition (semi :: ts'))
      (stop : semi.kind = .symbol .semicolon)
      (step : OptionalExpression ts' increment (closing :: mid'))
      (close : closing.kind = .symbol .rightParen) (body : Statement rule isOpen mid' s rest) :
      Statement rule isOpen (keyword :: opening :: ts) (.forDo initial condition increment s) rest
  | ifThen (word : keyword.kind = .symbol .ifWord) (test : Condition ts e mid)
      (consequent : Statement rule isOpen mid s rest) :
      Statement rule true (keyword :: ts) (.ifThen e s) rest
  | ifElse (word : keyword.kind = .symbol .ifWord) (test : Condition ts e mid)
      (consequent : Statement rule isOpen mid s (otherwise :: ts'))
      (word' : otherwise.kind = .symbol .elseWord) (nearest : rule = .nearest → isOpen = false)
      (alternative : Statement rule isOpen' ts' s' rest) :
      Statement rule isOpen' (keyword :: ts) (.ifElse e s s') rest
  | print (word : keyword.kind = .symbol .printWord)
      (expression : Expression ts e (semi :: rest)) (stop : semi.kind = .symbol .semicolon) :
      Statement rule false (keyword :: ts) (.print e) rest
  | return (word : keyword.kind = .symbol .returnWord)
      (value : OptionalExpression ts condition (semi :: rest))
      (stop : semi.kind = .symbol .semicolon) :
      Statement rule false (keyword :: ts) (.returning keyword condition) rest
  | while (word : keyword.kind = .symbol .whileWord) (test : Condition ts e mid)
      (body : Statement rule isOpen mid s rest) :
      Statement rule isOpen (keyword :: ts) (.whileDo e s) rest
  | block (open' : braceOpen.kind = .symbol .leftBrace)
      (body : Declarations rule ts ss (braceClose :: rest))
      (close : braceClose.kind = .symbol .rightBrace) :
      Statement rule false (braceOpen :: ts) (.block ss) rest

/-- `declaration → classDecl | funDecl | varDecl | statement` -/
inductive Declaration (rule : ElseRule) : List Token → Stmt → List Token → Prop
  | rootClass (word : keyword.kind = .symbol .classWord) (name : x.kind = .identifier)
      (open' : braceOpen.kind = .symbol .leftBrace)
      (methods : Functions rule ts fs (braceClose :: rest))
      (close : braceClose.kind = .symbol .rightBrace) :
      Declaration rule (keyword :: x :: braceOpen :: ts) (.classDecl x none fs) rest
  | subclass (word : keyword.kind = .symbol .classWord) (name : x.kind = .identifier)
      (below : less.kind = .symbol .less) (parent : y.kind = .identifier)
      (open' : braceOpen.kind = .symbol .leftBrace)
      (methods : Functions rule ts fs (braceClose :: rest))
      (close : braceClose.kind = .symbol .rightBrace) :
      Declaration rule (keyword :: x :: less :: y :: braceOpen :: ts)
        (.classDecl x (some (.name y none)) fs) rest
  | funDecl (word : keyword.kind = .symbol .funWord) (function : Function rule ts f rest) :
      Declaration rule (keyword :: ts) (.function f) rest
  | varDecl (declaration : Derivation.VarDecl ts (.var x value) rest) :
      Declaration rule ts (.var x value) rest
  | statement (statement : Statement rule isOpen ts s rest) : Declaration rule ts s rest

/-- `function → IDENT "(" parameters? ")" "{" declaration* "}"` -/
inductive Function (rule : ElseRule) : List Token → FunctionDecl → List Token → Prop
  | mk (name : x.kind = .identifier) (open' : opening.kind = .symbol .leftParen)
      (parameters : ParameterList ts ps (closing :: braceOpen :: mid))
      (close : closing.kind = .symbol .rightParen)
      (openBody : braceOpen.kind = .symbol .leftBrace)
      (body : Declarations rule mid ss (braceClose :: rest))
      (closeBody : braceClose.kind = .symbol .rightBrace) :
      Function rule (x :: opening :: ts) ⟨x, ps, ss⟩ rest

/-- `function*` -/
inductive Functions (rule : ElseRule) : List Token → List FunctionDecl → List Token → Prop
  | nil : Functions rule ts [] ts
  | cons (function : Function rule ts f mid) (functions : Functions rule mid fs rest) :
      Functions rule ts (f :: fs) rest

/-- `declaration*` -/
inductive Declarations (rule : ElseRule) : List Token → List Stmt → List Token → Prop
  | nil : Declarations rule ts [] ts
  | cons (declaration : Declaration rule ts s mid)
      (declarations : Declarations rule mid ss rest) :
      Declarations rule ts (s :: ss) rest

end

/-- `program → declaration* EOF`, for the tokens in front of the end. -/
def Program (rule : ElseRule) (ts : List Token) (program : List Stmt) : Prop :=
  Declarations rule ts program []

variable {rule : ElseRule}

/-! ## Trees that are derived -/

mutual

theorem Statement.formed : ∀ {isOpen : Bool} {ts rest : List Token} {u : Stmt},
    Statement rule isOpen ts u rest → u.Formed ∧ u.isDeclaration = false
  | _, _, _, _, .exprStmt _ | _, _, _, _, .print _ _ _ | _, _, _, _, .return _ _ _ =>
      ⟨trivial, rfl⟩
  | _, _, _, _, .for _ _ _ _ _ _ _ body | _, _, _, _, .while _ _ body => ⟨body.formed, rfl⟩
  | _, _, _, _, .ifThen _ _ consequent => ⟨consequent.formed, rfl⟩
  | _, _, _, _, .ifElse _ _ consequent _ _ alternative =>
      ⟨⟨consequent.formed, alternative.formed⟩, rfl⟩
  | _, _, _, _, .block _ body _ => ⟨body.formed, rfl⟩

theorem Declaration.formed : ∀ {ts rest : List Token} {u : Stmt},
    Declaration rule ts u rest → u.Formed
  | _, _, _, .rootClass _ _ _ methods _ | _, _, _, .subclass _ _ _ _ _ methods _ => methods.formed
  | _, _, _, .funDecl _ function => function.formed
  | _, _, _, .varDecl _ => trivial
  | _, _, _, .statement statement => statement.formed.1

theorem Function.formed : ∀ {ts rest : List Token} {f : FunctionDecl},
    Function rule ts f rest → f.Formed
  | _, _, _, .mk _ _ _ _ _ body _ => body.formed

theorem Functions.formed : ∀ {ts rest : List Token} {fs : List FunctionDecl},
    Functions rule ts fs rest → FunctionDecl.FormedAll fs
  | _, _, _, .nil => trivial
  | _, _, _, .cons function functions => ⟨function.formed, functions.formed⟩

theorem Declarations.formed : ∀ {ts rest : List Token} {us : List Stmt},
    Declarations rule ts us rest → Stmt.FormedAll us
  | _, _, _, .nil => trivial
  | _, _, _, .cons declaration declarations => ⟨declaration.formed, declarations.formed⟩

end

/-! ## The same sentences -/

theorem desugar_forDo (initial : Option Initial) (condition increment : Option Expr) (body : Stmt) :
    (Stmt.forDo initial condition increment body).desugar =
      Derivation.forForm (initial.map (·.desugar)) condition increment body.desugar := by
  cases initial <;> cases increment <;> rfl

theorem ForInitial.desugar {ts rest : List Token} {initial : Option Initial}
    (h : ForInitial ts initial rest) :
    Derivation.ForInitial ts (initial.map (·.desugar)) rest := by
  cases h with
  | varDecl declaration => exact .varDecl declaration
  | exprStmt statement => exact .exprStmt statement
  | none stop => exact .none stop

mutual

theorem Statement.desugar : ∀ {isOpen : Bool} {ts rest : List Token} {u : Stmt},
    Statement rule isOpen ts u rest → Derivation.Statement rule isOpen ts u.desugar rest
  | _, _, _, _, .exprStmt h => .exprStmt h
  | _, _, _, _, .for word opening first test stop step close body =>
      desugar_forDo .. ▸ .for word opening first.desugar test stop step close body.desugar
  | _, _, _, _, .ifThen word test consequent => .ifThen word test consequent.desugar
  | _, _, _, _, .ifElse word test consequent word' nearest alternative =>
      .ifElse word test consequent.desugar word' nearest alternative.desugar
  | _, _, _, _, .print word expression stop => .print word expression stop
  | _, _, _, _, .return word value stop => .return word value stop
  | _, _, _, _, .while word test body => .while word test body.desugar
  | _, _, _, _, .block opening body close => .block opening body.desugar close

theorem Declaration.desugar : ∀ {ts rest : List Token} {u : Stmt},
    Declaration rule ts u rest → Derivation.Declaration rule ts u.desugar rest
  | _, _, _, .rootClass word name opening methods close =>
      .rootClass word name opening methods.desugar close
  | _, _, _, .subclass word name below parent opening methods close =>
      .subclass word name below parent opening methods.desugar close
  | _, _, _, .funDecl word function => .funDecl word function.desugar
  | _, _, _, .varDecl declaration => .varDecl declaration
  | _, _, _, .statement statement => .statement statement.desugar

theorem Function.desugar : ∀ {ts rest : List Token} {f : FunctionDecl},
    Function rule ts f rest → Derivation.Function rule ts f.desugar rest
  | _, _, _, .mk name opening list close openBody body closeBody =>
      .mk name opening list close openBody body.desugar closeBody

theorem Functions.desugar : ∀ {ts rest : List Token} {fs : List FunctionDecl},
    Functions rule ts fs rest → Derivation.Functions rule ts (FunctionDecl.desugarAll fs) rest
  | _, _, _, .nil => .nil
  | _, _, _, .cons function functions => .cons function.desugar functions.desugar

theorem Declarations.desugar : ∀ {ts rest : List Token} {us : List Stmt},
    Declarations rule ts us rest → Derivation.Declarations rule ts (Stmt.desugarAll us) rest
  | _, _, _, .nil => .nil
  | _, _, _, .cons declaration declarations => .cons declaration.desugar declarations.desugar

end

theorem eq_var_of_varDecl {ts rest : List Token} {s : LoxLang.Stmt}
    (h : Derivation.VarDecl ts s rest) : ∃ x value, s = .var x value := by
  cases h <;> exact ⟨_, _, rfl⟩

theorem eq_expr_of_exprStmt {ts rest : List Token} {s : LoxLang.Stmt}
    (h : Derivation.ExprStmt ts s rest) : ∃ e, s = .expr e := by
  cases h
  exact ⟨_, rfl⟩

theorem exists_forInitial {ts rest : List Token} {initial : Option LoxLang.Stmt}
    (h : Derivation.ForInitial ts initial rest) :
    ∃ u, ForInitial ts u rest ∧ u.map (·.desugar) = initial := by
  cases h with
  | varDecl declaration =>
      obtain ⟨x, value, rfl⟩ := eq_var_of_varDecl declaration
      exact ⟨_, .varDecl declaration, rfl⟩
  | exprStmt statement =>
      obtain ⟨e, rfl⟩ := eq_expr_of_exprStmt statement
      exact ⟨_, .exprStmt statement, rfl⟩
  | none stop => exact ⟨_, .none stop, rfl⟩

mutual

theorem exists_statement : ∀ {isOpen : Bool} {ts rest : List Token} {s : LoxLang.Stmt},
    Derivation.Statement rule isOpen ts s rest →
      ∃ u, Statement rule isOpen ts u rest ∧ u.desugar = s
  | _, _, _, _, .exprStmt statement => by
      obtain ⟨e, rfl⟩ := eq_expr_of_exprStmt statement
      exact ⟨_, .exprStmt statement, rfl⟩
  | _, _, _, _, .for word opening first test stop step close body => by
      obtain ⟨initial, first', rfl⟩ := exists_forInitial first
      obtain ⟨u, body', rfl⟩ := exists_statement body
      exact ⟨_, .for word opening first' test stop step close body', desugar_forDo ..⟩
  | _, _, _, _, .ifThen word test consequent => by
      obtain ⟨u, consequent', rfl⟩ := exists_statement consequent
      exact ⟨_, .ifThen word test consequent', rfl⟩
  | _, _, _, _, .ifElse word test consequent word' nearest alternative => by
      obtain ⟨u, consequent', rfl⟩ := exists_statement consequent
      obtain ⟨v, alternative', rfl⟩ := exists_statement alternative
      exact ⟨_, .ifElse word test consequent' word' nearest alternative', rfl⟩
  | _, _, _, _, .print word expression stop => ⟨_, .print word expression stop, rfl⟩
  | _, _, _, _, .return word value stop => ⟨_, .return word value stop, rfl⟩
  | _, _, _, _, .while word test body => by
      obtain ⟨u, body', rfl⟩ := exists_statement body
      exact ⟨_, .while word test body', rfl⟩
  | _, _, _, _, .block opening body close => by
      obtain ⟨us, body', rfl⟩ := exists_declarations body
      exact ⟨_, .block opening body' close, rfl⟩

theorem exists_declaration : ∀ {ts rest : List Token} {s : LoxLang.Stmt},
    Derivation.Declaration rule ts s rest → ∃ u, Declaration rule ts u rest ∧ u.desugar = s
  | _, _, _, .rootClass word name opening methods close => by
      obtain ⟨fs, methods', rfl⟩ := exists_functions methods
      exact ⟨_, .rootClass word name opening methods' close, rfl⟩
  | _, _, _, .subclass word name below parent opening methods close => by
      obtain ⟨fs, methods', rfl⟩ := exists_functions methods
      exact ⟨_, .subclass word name below parent opening methods' close, rfl⟩
  | _, _, _, .funDecl word function => by
      obtain ⟨f, function', rfl⟩ := exists_function function
      exact ⟨_, .funDecl word function', rfl⟩
  | _, _, _, .varDecl declaration => by
      obtain ⟨x, value, rfl⟩ := eq_var_of_varDecl declaration
      exact ⟨_, .varDecl declaration, rfl⟩
  | _, _, _, .statement statement => by
      obtain ⟨u, statement', rfl⟩ := exists_statement statement
      exact ⟨_, .statement statement', rfl⟩

theorem exists_function : ∀ {ts rest : List Token} {f : LoxLang.FunctionDecl},
    Derivation.Function rule ts f rest → ∃ u, Function rule ts u rest ∧ u.desugar = f
  | _, _, _, .mk name opening list close openBody body closeBody => by
      obtain ⟨us, body', rfl⟩ := exists_declarations body
      exact ⟨_, .mk name opening list close openBody body' closeBody, rfl⟩

theorem exists_functions : ∀ {ts rest : List Token} {fs : List LoxLang.FunctionDecl},
    Derivation.Functions rule ts fs rest →
      ∃ us, Functions rule ts us rest ∧ FunctionDecl.desugarAll us = fs
  | _, _, _, .nil => ⟨_, .nil, rfl⟩
  | _, _, _, .cons function functions => by
      obtain ⟨u, function', rfl⟩ := exists_function function
      obtain ⟨us, functions', rfl⟩ := exists_functions functions
      exact ⟨_, .cons function' functions', rfl⟩

theorem exists_declarations : ∀ {ts rest : List Token} {ss : List LoxLang.Stmt},
    Derivation.Declarations rule ts ss rest →
      ∃ us, Declarations rule ts us rest ∧ Stmt.desugarAll us = ss
  | _, _, _, .nil => ⟨_, .nil, rfl⟩
  | _, _, _, .cons declaration declarations => by
      obtain ⟨u, declaration', rfl⟩ := exists_declaration declaration
      obtain ⟨us, declarations', rfl⟩ := exists_declarations declarations
      exact ⟨_, .cons declaration' declarations', rfl⟩

end

/-- The tree of a program is what a tree as it is written stands for. -/
theorem exists_program_iff {ts : List Token} {ss : List LoxLang.Stmt} :
    (∃ us, Program rule ts us ∧ Stmt.desugarAll us = ss) ↔ Derivation.Program rule ts ss := by
  constructor
  · rintro ⟨us, h, rfl⟩
    exact h.desugar
  · exact exists_declarations

end LoxLang.Written
