import Mathlib.Data.List.Nodup
import Mathlib.Logic.Basic
import LoxLang.Proofs.Formed
import LoxLang.Proofs.Sessions
import LoxLang.Session.Tabled

/-!
# Numbered trees

Numbering a tree fills its slots, in the order of resolution, with numbers that
follow on one another, and changes nothing else. A tree that was read without
errors has empty slots, so it is what is left of the numbered tree when the
numbers are taken away again. This makes numbering in order a `Numbering`.
-/

namespace LoxLang

/-! ## The numbers of a numbered tree -/

theorem numbersFrom_add (n k l : Nat) :
    numbersFrom n k ++ numbersFrom (n + k) l = numbersFrom n (k + l) := by
  rw [numbersFrom, numbersFrom, ← List.map_append, List.range'_append_1]
  rfl

mutual

theorem Expr.slots_numberFrom (n : Nat) : ∀ e : Expr,
    (e.numberFrom n).slots = numbersFrom n e.slots.length
  | .literal _ => rfl
  | .group inner => inner.slots_numberFrom n
  | .unary _ operand => operand.slots_numberFrom n
  | .binary left _ right | .logical left _ right => by
      rw [Expr.numberFrom, Expr.slots, Expr.slots, List.length_append, ← numbersFrom_add,
        left.slots_numberFrom, right.slots_numberFrom]
  | .name _ _ | .this _ _ | .super _ _ _ => rfl
  | .assign _ _ value => by
      rw [Expr.numberFrom, Expr.slots, Expr.slots, List.length_append, ← numbersFrom_add,
        value.slots_numberFrom]
      rfl
  | .call callee _ arguments => by
      rw [Expr.numberFrom, Expr.slots, Expr.slots, List.length_append, ← numbersFrom_add,
        callee.slots_numberFrom, Expr.slots_numberAllFrom]
  | .get object _ => object.slots_numberFrom n
  | .set object _ value => by
      rw [Expr.numberFrom, Expr.slots, Expr.slots, List.length_append, ← numbersFrom_add,
        value.slots_numberFrom, object.slots_numberFrom]

theorem Expr.slots_numberAllFrom (n : Nat) : ∀ es : List Expr,
    Expr.allSlots (Expr.numberAllFrom n es) = numbersFrom n (Expr.allSlots es).length
  | [] => rfl
  | e :: es => by
      rw [Expr.numberAllFrom, Expr.allSlots, Expr.allSlots, List.length_append, ← numbersFrom_add,
        e.slots_numberFrom, Expr.slots_numberAllFrom]

end

theorem Expr.optSlots_numberFrom (n : Nat) : ∀ o : Option Expr,
    Expr.optSlots (o.map (·.numberFrom n)) = numbersFrom n (Expr.optSlots o).length
  | none => rfl
  | some e => e.slots_numberFrom n

mutual

theorem Stmt.slots_numberFrom (n : Nat) : ∀ s : Stmt,
    (s.numberFrom n).slots = numbersFrom n s.slots.length
  | .expr value | .print value => value.slots_numberFrom n
  | .var _ initial => Expr.optSlots_numberFrom n initial
  | .block body => Stmt.slots_numberAllFrom n body
  | .ifThen condition consequent => by
      rw [Stmt.numberFrom, Stmt.slots, Stmt.slots, List.length_append, ← numbersFrom_add,
        condition.slots_numberFrom, consequent.slots_numberFrom]
  | .ifElse condition consequent alternative => by
      rw [Stmt.numberFrom, Stmt.slots, Stmt.slots, List.length_append, List.length_append,
        ← numbersFrom_add, ← numbersFrom_add, condition.slots_numberFrom,
        consequent.slots_numberFrom, alternative.slots_numberFrom]
  | .whileDo condition body => by
      rw [Stmt.numberFrom, Stmt.slots, Stmt.slots, List.length_append, ← numbersFrom_add,
        condition.slots_numberFrom, body.slots_numberFrom]
  | .function declaration => declaration.slots_numberFrom n
  | .returning _ value => Expr.optSlots_numberFrom n value
  | .classDecl _ superclass methods => by
      rw [Stmt.numberFrom, Stmt.slots, Stmt.slots, List.length_append, ← numbersFrom_add,
        Expr.optSlots_numberFrom, FunctionDecl.slots_numberAllFrom]

theorem Stmt.slots_numberAllFrom (n : Nat) : ∀ ss : List Stmt,
    Stmt.allSlots (Stmt.numberAllFrom n ss) = numbersFrom n (Stmt.allSlots ss).length
  | [] => rfl
  | s :: ss => by
      rw [Stmt.numberAllFrom, Stmt.allSlots, Stmt.allSlots, List.length_append, ← numbersFrom_add,
        s.slots_numberFrom, Stmt.slots_numberAllFrom]

theorem FunctionDecl.slots_numberFrom (n : Nat) : ∀ f : FunctionDecl,
    (f.numberFrom n).slots = numbersFrom n f.slots.length
  | ⟨_, _, body⟩ => Stmt.slots_numberAllFrom n body

theorem FunctionDecl.slots_numberAllFrom (n : Nat) : ∀ fs : List FunctionDecl,
    FunctionDecl.allSlots (FunctionDecl.numberAllFrom n fs) =
      numbersFrom n (FunctionDecl.allSlots fs).length
  | [] => rfl
  | f :: fs => by
      rw [FunctionDecl.numberAllFrom, FunctionDecl.allSlots, FunctionDecl.allSlots,
        List.length_append, ← numbersFrom_add, f.slots_numberFrom,
        FunctionDecl.slots_numberAllFrom]

end

/-! ## What numbering leaves alone -/

mutual

theorem Expr.plain_numberFrom (n : Nat) : ∀ e : Expr, (e.numberFrom n).plain = e.plain
  | .literal _ | .name _ _ | .this _ _ | .super _ _ _ => rfl
  | .group inner => congrArg Expr.group (inner.plain_numberFrom n)
  | .unary operator operand => congrArg (Expr.unary operator) (operand.plain_numberFrom n)
  | .binary left operator right =>
      congrArg₂ (Expr.binary · operator) (left.plain_numberFrom _) (right.plain_numberFrom _)
  | .logical left operator right =>
      congrArg₂ (Expr.logical · operator) (left.plain_numberFrom _) (right.plain_numberFrom _)
  | .assign x _ value => congrArg (Expr.assign x none) (value.plain_numberFrom n)
  | .call callee paren arguments =>
      congrArg₂ (Expr.call · paren) (callee.plain_numberFrom _)
        (Expr.plain_numberAllFrom _ arguments)
  | .get object property => congrArg (Expr.get · property) (object.plain_numberFrom n)
  | .set object property value =>
      congrArg₂ (Expr.set · property) (object.plain_numberFrom _) (value.plain_numberFrom _)

theorem Expr.plain_numberAllFrom (n : Nat) : ∀ es : List Expr,
    Expr.mapAllSlots (fun _ => none) (Expr.numberAllFrom n es) =
      Expr.mapAllSlots (fun _ => none) es
  | [] => rfl
  | e :: es => congrArg₂ List.cons (e.plain_numberFrom _) (Expr.plain_numberAllFrom _ es)

end

theorem Expr.optPlain_numberFrom (n : Nat) : ∀ o : Option Expr,
    (o.map (·.numberFrom n)).map Expr.plain = o.map Expr.plain
  | none => rfl
  | some e => congrArg some (e.plain_numberFrom n)

mutual

theorem Stmt.plain_numberFrom (n : Nat) : ∀ s : Stmt,
    (s.numberFrom n).mapSlots (fun _ => none) = s.mapSlots fun _ => none
  | .expr value => congrArg Stmt.expr (value.plain_numberFrom n)
  | .print value => congrArg Stmt.print (value.plain_numberFrom n)
  | .var name initial => congrArg (Stmt.var name) (Expr.optPlain_numberFrom n initial)
  | .block body => congrArg Stmt.block (Stmt.plain_numberAllFrom n body)
  | .ifThen condition consequent =>
      congrArg₂ Stmt.ifThen (condition.plain_numberFrom _) (consequent.plain_numberFrom _)
  | .ifElse condition consequent alternative => by
      rw [Stmt.numberFrom, Stmt.mapSlots, Stmt.mapSlots, consequent.plain_numberFrom,
        alternative.plain_numberFrom]
      exact congrArg (Stmt.ifElse · _ _) (condition.plain_numberFrom n)
  | .whileDo condition body =>
      congrArg₂ Stmt.whileDo (condition.plain_numberFrom _) (body.plain_numberFrom _)
  | .function declaration => congrArg Stmt.function (declaration.plain_numberFrom n)
  | .returning keyword value => congrArg (Stmt.returning keyword) (Expr.optPlain_numberFrom n value)
  | .classDecl name superclass methods =>
      congrArg₂ (Stmt.classDecl name) (Expr.optPlain_numberFrom _ superclass)
        (FunctionDecl.plain_numberAllFrom _ methods)

theorem Stmt.plain_numberAllFrom (n : Nat) : ∀ ss : List Stmt,
    Stmt.allPlain (Stmt.numberAllFrom n ss) = Stmt.allPlain ss
  | [] => rfl
  | s :: ss => congrArg₂ List.cons (s.plain_numberFrom _) (Stmt.plain_numberAllFrom _ ss)

theorem FunctionDecl.plain_numberFrom (n : Nat) : ∀ f : FunctionDecl,
    (f.numberFrom n).mapSlots (fun _ => none) = f.mapSlots fun _ => none
  | ⟨name, parameters, body⟩ =>
      congrArg (FunctionDecl.mk name parameters) (Stmt.plain_numberAllFrom n body)

theorem FunctionDecl.plain_numberAllFrom (n : Nat) : ∀ fs : List FunctionDecl,
    FunctionDecl.mapAllSlots (fun _ => none) (FunctionDecl.numberAllFrom n fs) =
      FunctionDecl.mapAllSlots (fun _ => none) fs
  | [] => rfl
  | f :: fs =>
      congrArg₂ List.cons (f.plain_numberFrom _) (FunctionDecl.plain_numberAllFrom _ fs)

end

/-! ## Trees as they are read -/

mutual

theorem Expr.Formed.plain_eq : ∀ {e : Expr}, e.Formed → e.plain = e
  | .literal _, _ => rfl
  | .group inner, h => congrArg Expr.group (Expr.Formed.plain_eq (e := inner) h)
  | .unary operator operand, h =>
      congrArg (Expr.unary operator) (Expr.Formed.plain_eq (e := operand) h)
  | .binary _ operator _, ⟨left, right⟩ =>
      congrArg₂ (Expr.binary · operator) left.plain_eq right.plain_eq
  | .logical _ operator _, ⟨left, right⟩ =>
      congrArg₂ (Expr.logical · operator) left.plain_eq right.plain_eq
  | .name x _, ⟨_, depth⟩ => congrArg (Expr.name x) depth.symm
  | .assign x _ _, ⟨_, depth, value⟩ => congrArg₂ (Expr.assign x) depth.symm value.plain_eq
  | .call _ paren _, ⟨callee, arguments⟩ =>
      congrArg₂ (Expr.call · paren) callee.plain_eq (Expr.FormedAll.plain_eq arguments)
  | .get object property, h =>
      congrArg (Expr.get · property) (Expr.Formed.plain_eq (e := object) h)
  | .set _ property _, ⟨object, value⟩ =>
      congrArg₂ (Expr.set · property) object.plain_eq value.plain_eq
  | .this keyword _, ⟨_, depth⟩ => congrArg (Expr.this keyword) depth.symm
  | .super keyword _ method, ⟨_, depth⟩ => congrArg (Expr.super keyword · method) depth.symm

theorem Expr.FormedAll.plain_eq : ∀ {es : List Expr}, Expr.FormedAll es →
    Expr.mapAllSlots (fun _ => none) es = es
  | [], _ => rfl
  | _ :: _, ⟨head, tail⟩ => congrArg₂ List.cons head.plain_eq (Expr.FormedAll.plain_eq tail)

end

theorem Expr.FormedOpt.plain_eq {o : Option Expr} (h : Expr.FormedOpt o) :
    o.map Expr.plain = o := by
  cases o with
  | none => rfl
  | some e => exact congrArg some (h e rfl).plain_eq

mutual

theorem Stmt.Formed.plain_eq : ∀ {s : Stmt}, s.Formed → s.mapSlots (fun _ => none) = s
  | .expr value, h => congrArg Stmt.expr (Expr.Formed.plain_eq (e := value) h)
  | .print value, h => congrArg Stmt.print (Expr.Formed.plain_eq (e := value) h)
  | .var name _, ⟨_, initial⟩ => congrArg (Stmt.var name) initial.plain_eq
  | .block body, h => congrArg Stmt.block (@Stmt.FormedAll.plain_eq body h)
  | .ifThen _ _, ⟨condition, consequent, _⟩ =>
      congrArg₂ Stmt.ifThen condition.plain_eq consequent.plain_eq
  | .ifElse _ _ _, ⟨condition, ⟨consequent, _⟩, alternative, _⟩ => by
      rw [Stmt.mapSlots, consequent.plain_eq, alternative.plain_eq]
      exact congrArg (Stmt.ifElse · _ _) condition.plain_eq
  | .whileDo _ _, ⟨condition, body, _⟩ => congrArg₂ Stmt.whileDo condition.plain_eq body.plain_eq
  | .function declaration, h =>
      congrArg Stmt.function (FunctionDecl.Formed.plain_eq (f := declaration) h)
  | .returning keyword _, h => congrArg (Stmt.returning keyword) (Expr.FormedOpt.plain_eq h)
  | .classDecl name _ _, ⟨_, superclass, methods⟩ => by
      have read : Expr.FormedOpt _ := fun e he => by
        obtain ⟨x, rfl, isName⟩ := superclass e he
        exact ⟨isName, rfl⟩
      exact congrArg₂ (Stmt.classDecl name) read.plain_eq (FunctionDecl.FormedAll.plain_eq methods)

theorem Stmt.FormedAll.plain_eq : ∀ {ss : List Stmt}, Stmt.FormedAll ss → Stmt.allPlain ss = ss
  | [], _ => rfl
  | _ :: _, ⟨head, tail⟩ => congrArg₂ List.cons head.plain_eq (Stmt.FormedAll.plain_eq tail)

theorem FunctionDecl.Formed.plain_eq : ∀ {f : FunctionDecl}, f.Formed →
    f.mapSlots (fun _ => none) = f
  | ⟨name, parameters, _⟩, ⟨_, _, body⟩ =>
      congrArg (FunctionDecl.mk name parameters) (Stmt.FormedAll.plain_eq body)

theorem FunctionDecl.FormedAll.plain_eq : ∀ {fs : List FunctionDecl}, FunctionDecl.FormedAll fs →
    FunctionDecl.mapAllSlots (fun _ => none) fs = fs
  | [], _ => rfl
  | _ :: _, ⟨head, tail⟩ => congrArg₂ List.cons head.plain_eq (FunctionDecl.FormedAll.plain_eq tail)

end

/-! ## Numbering in order -/

theorem holdNumbers_numbersFrom (n count : Nat) :
    HoldNumbers n (n + count) (numbersFrom n count) :=
  ⟨List.range' n count, rfl, List.nodup_range', fun _ h => List.mem_range'_1.1 h⟩

theorem Session.readProgram_plain {source : String} (clean : (readProgram source).2 = []) :
    Stmt.allPlain (readProgram source).1 = (readProgram source).1 := by
  rcases reads : readProgram source with ⟨program, ds⟩
  rw [reads] at clean
  cases clean
  exact (Grammar.program_formed (readProgram_eq_iff.1 reads).2).plain_eq

theorem Session.readExpression_plain {source : String} (clean : (readExpression source).2 = []) :
    (readExpression source).1.map Expr.plain = (readExpression source).1 := by
  rcases reads : readExpression source with ⟨expression, ds⟩
  rw [reads] at clean
  cases clean
  refine Expr.FormedOpt.plain_eq fun e given => ?_
  cases given
  exact Grammar.soleExpression_formed (readExpression_eq_iff.1 reads).2

/-- Every text takes as many numbers as its tree has slots, in the order of resolution. -/
def Numbering.inOrder : Numbering where
  program n source :=
    let program := (Session.readProgram source).1
    (Stmt.numberAllFrom n program, n + (Stmt.allSlots program).length)
  expression n source :=
    let expression := (Session.readExpression source).1
    (expression.map (·.numberFrom n), n + (Expr.optSlots expression).length)
  program_le n _ := Nat.le_add_right n _
  expression_le n _ := Nat.le_add_right n _
  program_plain n source clean :=
    (Stmt.plain_numberAllFrom n _).trans (Session.readProgram_plain clean)
  program_numbers n source _ := by
    rw [Stmt.slots_numberAllFrom]
    exact holdNumbers_numbersFrom n _
  expression_plain n source clean :=
    (Expr.optPlain_numberFrom n _).trans (Session.readExpression_plain clean)
  expression_numbers n source _ := by
    rw [Expr.optSlots_numberFrom]
    exact holdNumbers_numbersFrom n _

end LoxLang
