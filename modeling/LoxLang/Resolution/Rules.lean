import LoxLang.Resolution.Context

/-!
# The static rules in terms of the text

What a program may not do, with nothing said about how it is checked. The marks
of a tree list in textual order what the rules speak of: where blocks, functions
and classes begin and end, and what is declared, read and returned between. A
variable counts as declared behind its initializer, and a function or a class
from its name on. The superclass of a class is named inside of it.

Read from the front, marks give what is around a point. The rules say which
marks are wrong there, and `Accounts` that a list of errors has one for each
mark that is wrong and no other.
-/

namespace LoxLang

/-- What a program can be inside of. -/
inductive Enclosure where
  | block
  | function
  | method
  | initializer
  | rootClass
  | subclass
deriving DecidableEq, Repr

namespace Enclosure

/-- Is this a function of some kind? -/
def isFunction : Enclosure → Bool
  | function | method | initializer => true
  | block | rootClass | subclass => false

/-- Is this a class? -/
def isClass : Enclosure → Bool
  | rootClass | subclass => true
  | block | function | method | initializer => false

end Enclosure

/-- What one comes past in the text of a program. A variable that is read in the initializer of a
variable comes with the name of that. -/
inductive Mark where
  | enter (enclosure : Enclosure)
  | leave
  | declare (name : Token)
  | read (own : Option Token) (name : Token)
  | this (keyword : Token)
  | super (keyword : Token)
  | inherits (name superclass : Token)
  | returns (keyword : Token) (hasValue : Bool)

/-! ## The marks of a tree -/

mutual

/-- The marks of an expression, which may stand in the initializer of a variable. -/
def Expr.marks (own : Option Token) : Expr → List Mark
  | .literal _ => []
  | .group inner => inner.marks own
  | .unary _ operand => operand.marks own
  | .binary left _ right => left.marks own ++ right.marks own
  | .logical left _ right => left.marks own ++ right.marks own
  | .name x _ => [.read own x]
  | .assign _ _ value => value.marks own
  | .call callee _ arguments => callee.marks own ++ Expr.marksAll own arguments
  | .get object _ => object.marks own
  | .set object _ value => object.marks own ++ value.marks own
  | .this keyword _ => [.this keyword]
  | .super keyword _ _ => [.super keyword]

/-- The marks of expressions, one behind the other. -/
def Expr.marksAll (own : Option Token) : List Expr → List Mark
  | [] => []
  | e :: es => e.marks own ++ Expr.marksAll own es

end

/-- The marks of an expression that may be absent. -/
def Expr.marksOpt (own : Option Token) : Option Expr → List Mark
  | none => []
  | some e => e.marks own

/-- The mark of naming a superclass. -/
def Expr.inheritance (name : Token) : Option Expr → List Mark
  | some (.name x _) => [.inherits name x]
  | _ => []

mutual

/-- The marks of a statement. -/
def Stmt.marks : Stmt → List Mark
  | .expr value => value.marks none
  | .print value => value.marks none
  | .var name initial => Expr.marksOpt (some name) initial ++ [.declare name]
  | .block body => .enter .block :: (Stmt.marksAll body ++ [.leave])
  | .ifThen condition consequent => condition.marks none ++ consequent.marks
  | .ifElse condition consequent alternative =>
    condition.marks none ++ consequent.marks ++ alternative.marks
  | .whileDo condition body => condition.marks none ++ body.marks
  | .function f => .declare f.name :: f.marks .function
  | .returning keyword value => .returns keyword value.isSome :: Expr.marksOpt none value
  | .classDecl name superclass methods =>
    .declare name :: .enter (if superclass.isSome then .subclass else .rootClass) ::
      (Expr.inheritance name superclass ++ Expr.marksOpt none superclass
        ++ FunctionDecl.methodMarks methods ++ [.leave])

/-- The marks of statements, one behind the other. -/
def Stmt.marksAll : List Stmt → List Mark
  | [] => []
  | s :: ss => s.marks ++ Stmt.marksAll ss

/-- The marks of a function of some kind, without its name: parameters and body are in one
scope. -/
def FunctionDecl.marks (kind : Enclosure) : FunctionDecl → List Mark
  | ⟨_, parameters, body⟩ =>
    .enter kind :: (parameters.map .declare ++ Stmt.marksAll body ++ [.leave])

/-- The marks of methods, whose names declare nothing. -/
def FunctionDecl.methodMarks : List FunctionDecl → List Mark
  | [] => []
  | f :: fs =>
    f.marks (if f.isInitializer then .initializer else .method) ++ FunctionDecl.methodMarks fs

end

/-! ## The rules -/

/-- What is around a point, innermost first, each with the names declared in it so far. -/
abbrev Nesting := List (Enclosure × List String)

namespace Nesting

/-- What is around, behind a mark. -/
def pass : Nesting → Mark → Nesting
  | around, .enter enclosure => (enclosure, []) :: around
  | around, .leave => around.tail
  | (enclosure, names) :: around, .declare x => (enclosure, x.lexeme :: names) :: around
  | [], .declare _ => []
  | around, .read .. | around, .this _ | around, .super _ | around, .inherits ..
  | around, .returns .. => around

/-- What is around, behind marks. -/
def passAll (around : Nesting) (marks : List Mark) : Nesting := marks.foldl pass around

/-- The kind of the innermost function around. -/
def function? (around : Nesting) : Option Enclosure := (around.map (·.1)).find? (·.isFunction)

/-- The kind of the innermost class around. -/
def class? (around : Nesting) : Option Enclosure := (around.map (·.1)).find? (·.isClass)

/-- The innermost scope is not the global one, and declares the name. -/
def DeclaresHere (around : Nesting) (x : String) : Prop := ∃ scope ∈ around.head?, x ∈ scope.2

/-- The innermost scope is not the global one, and does not declare the name. -/
def LacksHere (around : Nesting) (x : String) : Prop := ∃ scope ∈ around.head?, x ∉ scope.2

end Nesting

/-- The mark is wrong where this is around it, and the error is about that. -/
inductive Breaks (around : Nesting) : Mark → Located StaticError → Prop
  | topLevelReturn {keyword : Token} {hasValue : Bool} (outside : around.function? = none) :
      Breaks around (.returns keyword hasValue) ⟨keyword, .topLevelReturn⟩
  | initializerReturn {keyword : Token} (inside : around.function? = some .initializer) :
      Breaks around (.returns keyword true) ⟨keyword, .initializerReturn⟩
  | thisOutsideClass {keyword : Token} (outside : around.class? = none) :
      Breaks around (.this keyword) ⟨keyword, .thisOutsideClass⟩
  | superOutsideClass {keyword : Token} (outside : around.class? = none) :
      Breaks around (.super keyword) ⟨keyword, .superOutsideClass⟩
  | superWithoutSuperclass {keyword : Token} (inside : around.class? = some .rootClass) :
      Breaks around (.super keyword) ⟨keyword, .superWithoutSuperclass⟩
  | selfInheritance {name superclass : Token} (same : superclass.lexeme = name.lexeme) :
      Breaks around (.inherits name superclass) ⟨superclass, .selfInheritance⟩
  | redeclared {name : Token} (declared : around.DeclaresHere name.lexeme) :
      Breaks around (.declare name) ⟨name, .redeclared⟩
  | ownInitializer {own name : Token} (same : name.lexeme = own.lexeme)
      (undeclared : around.LacksHere own.lexeme) :
      Breaks around (.read (some own) name) ⟨name, .ownInitializer⟩

/-- The errors are, up to their order, one for each place among the marks and each rule that the
mark there breaks. A place is given by the marks in front of it. -/
def Accounts (around : Nesting) (marks : List Mark) (errors : List (Located StaticError)) : Prop :=
  ∃ violations : List (List Mark × Located StaticError),
    violations.Nodup ∧
    (∀ before e, (before, e) ∈ violations ↔ ∃ mark after,
      marks = before ++ mark :: after ∧ Breaks (around.passAll before) mark e) ∧
    errors.Perm (violations.map (·.2))

end LoxLang
