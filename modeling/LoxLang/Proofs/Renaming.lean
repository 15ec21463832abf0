import LoxLang.Proofs.HeldCode
import LoxLang.Proofs.Resolved
import LoxLang.Proofs.Twins
import LoxLang.Tree.Renaming
import LoxLang.Tree.Slots

/-!
# Renamed trees

What a renaming does to a tree, as a relation that is kept by going into the
tree: the scopes around a statement are marked or not, and each scope in it may
be marked or not. A tree in which one scope has been renamed is the case in
which one mark is set.

The relation asks for what makes a renaming harmless. No variable in the tree
has the new name. And in a marked scope only variables and parameters have the
old name, since functions and classes keep their names: programs can print
them.
-/

namespace LoxLang

section Renaming

variable (x y : String)

/-! ## Names -/

variable {x y}

theorem renamedName_false (z : String) : renamedName x y false z = z :=
  if_neg fun h => Bool.false_ne_true h.1

theorem renamedName_of_ne {marked : Bool} {z : String} (h : marked = true → z ≠ x) :
    renamedName x y marked z = z := if_neg fun named => h named.1 named.2

/-- Names that are not the new one stay apart, wherever they are renamed. -/
theorem renamedName_ne {marked marked' : Bool} {z w : String} (hz : z ≠ y) (hw : w ≠ y)
    (h : z ≠ w) : renamedName x y marked z ≠ renamedName x y marked' w := by
  unfold renamedName
  split
  · next first =>
      split
      · next second => exact absurd (first.2.trans second.2.symm) h
      · exact hw.symm
  · split
    · exact hz
    · exact h

@[simp] theorem Token.renamed_false (t : Token) : t.renamed x y false = t := by
  rw [Token.renamed, renamedName_false]

theorem Token.renamed_of_ne {marked : Bool} {t : Token} (h : marked = true → t.lexeme ≠ x) :
    t.renamed x y marked = t := by
  rw [Token.renamed, renamedName_of_ne h]

variable (x y)

/-- A variable can have either name. -/
structure Renamable : Prop where
  old_this : x ≠ "this"
  old_super : x ≠ "super"
  new_this : y ≠ "this"
  new_super : y ≠ "super"

/-! ## The relation -/

mutual

/-- The second expression is the first with `x` renamed `y` where it refers to a marked scope. -/
inductive Expr.Renamed (marks : Marks) : Expr → Expr → Prop
  | literal (value : Literal) : Expr.Renamed marks (.literal value) (.literal value)
  | group {e e' : Expr} (inner : Expr.Renamed marks e e') :
      Expr.Renamed marks (.group e) (.group e')
  | unary {operator : Token} {e e' : Expr} (operand : Expr.Renamed marks e e') :
      Expr.Renamed marks (.unary operator e) (.unary operator e')
  | binary {operator : Token} {l l' r r' : Expr} (left : Expr.Renamed marks l l')
      (right : Expr.Renamed marks r r') :
      Expr.Renamed marks (.binary l operator r) (.binary l' operator r')
  | logical {operator : Token} {l l' r r' : Expr} (left : Expr.Renamed marks l l')
      (right : Expr.Renamed marks r r') :
      Expr.Renamed marks (.logical l operator r) (.logical l' operator r')
  | name {t : Token} (depth : Option Nat) (lacks : t.lexeme ≠ y) :
      Expr.Renamed marks (.name t depth) (.name (t.renamed x y (marks.leads depth)) depth)
  | assign {t : Token} (depth : Option Nat) (lacks : t.lexeme ≠ y) {e e' : Expr}
      (value : Expr.Renamed marks e e') :
      Expr.Renamed marks (.assign t depth e)
        (.assign (t.renamed x y (marks.leads depth)) depth e')
  | call {paren : Token} {e e' : Expr} {es es' : List Expr} (callee : Expr.Renamed marks e e')
      (arguments : Expr.AllRenamed marks es es') :
      Expr.Renamed marks (.call e paren es) (.call e' paren es')
  | get {property : Token} {e e' : Expr} (object : Expr.Renamed marks e e') :
      Expr.Renamed marks (.get e property) (.get e' property)
  | set {property : Token} {e e' v v' : Expr} (object : Expr.Renamed marks e e')
      (value : Expr.Renamed marks v v') :
      Expr.Renamed marks (.set e property v) (.set e' property v')
  | this {keyword : Token} (depth : Option Nat) (spelled : keyword.lexeme = "this") :
      Expr.Renamed marks (.this keyword depth) (.this keyword depth)
  | super (keyword : Token) (depth : Option Nat) (method : Token) :
      Expr.Renamed marks (.super keyword depth method) (.super keyword depth method)

inductive Expr.AllRenamed (marks : Marks) : List Expr → List Expr → Prop
  | nil : Expr.AllRenamed marks [] []
  | cons {e e' : Expr} {es es' : List Expr} (head : Expr.Renamed marks e e')
      (tail : Expr.AllRenamed marks es es') : Expr.AllRenamed marks (e :: es) (e' :: es')

end

mutual

/-- The second statement is the first with `x` renamed `y` in the marked scopes around it and in
scopes of it. -/
inductive Stmt.Renamed : Marks → Stmt → Stmt → Prop
  | expr {marks : Marks} {e e' : Expr} (value : e.Renamed x y marks e') :
      Stmt.Renamed marks (.expr e) (.expr e')
  | print {marks : Marks} {e e' : Expr} (value : e.Renamed x y marks e') :
      Stmt.Renamed marks (.print e) (.print e')
  | var {marks : Marks} {t : Token} {o o' : Option Expr} (lacks : t.lexeme ≠ y)
      (initial : Option.Rel (Expr.Renamed x y marks) o o') :
      Stmt.Renamed marks (.var t o) (.var (t.renamed x y (marks 0)) o')
  | block {marks : Marks} {ss ss' : List Stmt} (marked : Bool)
      (body : Stmt.AllRenamed (marks.push marked) ss ss') :
      Stmt.Renamed marks (.block ss) (.block ss')
  | ifThen {marks : Marks} {e e' : Expr} {s s' : Stmt} (condition : e.Renamed x y marks e')
      (consequent : Stmt.Renamed marks s s') : Stmt.Renamed marks (.ifThen e s) (.ifThen e' s')
  | ifElse {marks : Marks} {e e' : Expr} {s s' o o' : Stmt} (condition : e.Renamed x y marks e')
      (consequent : Stmt.Renamed marks s s') (alternative : Stmt.Renamed marks o o') :
      Stmt.Renamed marks (.ifElse e s o) (.ifElse e' s' o')
  | whileDo {marks : Marks} {e e' : Expr} {s s' : Stmt} (condition : e.Renamed x y marks e')
      (body : Stmt.Renamed marks s s') : Stmt.Renamed marks (.whileDo e s) (.whileDo e' s')
  | function {marks : Marks} {f f' : FunctionDecl} (lacks : f.name.lexeme ≠ y)
      (other : marks 0 = true → f.name.lexeme ≠ x)
      (declaration : FunctionDecl.Renamed marks f f') :
      Stmt.Renamed marks (.function f) (.function f')
  | returning {marks : Marks} {t : Token} {o o' : Option Expr}
      (value : Option.Rel (Expr.Renamed x y marks) o o') :
      Stmt.Renamed marks (.returning t o) (.returning t o')
  | classDecl {marks : Marks} {t : Token} {o o' : Option Expr} {fs fs' : List FunctionDecl}
      (lacks : t.lexeme ≠ y) (other : marks 0 = true → t.lexeme ≠ x)
      (superclass : Option.Rel (Expr.Renamed x y marks) o o')
      (methods : FunctionDecl.AllRenamed (marks.inMethods o.isSome) fs fs') :
      Stmt.Renamed marks (.classDecl t o fs) (.classDecl t o' fs')

inductive Stmt.AllRenamed : Marks → List Stmt → List Stmt → Prop
  | nil {marks : Marks} : Stmt.AllRenamed marks [] []
  | cons {marks : Marks} {s s' : Stmt} {ss ss' : List Stmt} (head : Stmt.Renamed marks s s')
      (tail : Stmt.AllRenamed marks ss ss') : Stmt.AllRenamed marks (s :: ss) (s' :: ss')

/-- The second function is the first with `x` renamed `y` in the marked scopes around it and in
scopes of it, its own among them. -/
inductive FunctionDecl.Renamed : Marks → FunctionDecl → FunctionDecl → Prop
  | mk {marks : Marks} {t : Token} {ps : List Token} {ss ss' : List Stmt} (marked : Bool)
      (lacks : ∀ p ∈ ps, p.lexeme ≠ y) (body : Stmt.AllRenamed (marks.push marked) ss ss') :
      FunctionDecl.Renamed marks ⟨t, ps, ss⟩ ⟨t, ps.map (·.renamed x y marked), ss'⟩

inductive FunctionDecl.AllRenamed : Marks → List FunctionDecl → List FunctionDecl → Prop
  | nil {marks : Marks} : FunctionDecl.AllRenamed marks [] []
  | cons {marks : Marks} {f f' : FunctionDecl} {fs fs' : List FunctionDecl}
      (head : FunctionDecl.Renamed marks f f') (tail : FunctionDecl.AllRenamed marks fs fs') :
      FunctionDecl.AllRenamed marks (f :: fs) (f' :: fs')

end

/-! ## The form of a renamed tree -/

/-- The second token is the first, or the first called `y` instead of `x`. -/
def Token.Renaming (t t' : Token) : Prop := ∃ marked, t' = t.renamed x y marked

variable {x y}

theorem Token.Renaming.refl (t : Token) : t.Renaming x y t := ⟨false, t.renamed_false.symm⟩

theorem Token.renaming_keepsKinds : Derivation.KeepsKinds (Token.Renaming x y) where
  same := .refl
  kind := by
    rintro t _ ⟨marked, rfl⟩
    rfl

theorem Token.forall₂_renaming (marked : Bool) (ps : List Token) :
    List.Forall₂ (Token.Renaming x y) ps (ps.map (·.renamed x y marked)) :=
  List.forall₂_map_right_iff.2 (List.forall₂_same.2 fun _ _ => ⟨marked, rfl⟩)

section Declarations

variable {marks : Marks} {f f' : FunctionDecl}

theorem FunctionDecl.Renamed.name_eq (h : f.Renamed x y marks f') : f'.name = f.name := by
  cases h
  rfl

theorem FunctionDecl.Renamed.isInitializer_eq (h : f.Renamed x y marks f') :
    f'.isInitializer = f.isInitializer := by
  rw [FunctionDecl.isInitializer, h.name_eq, FunctionDecl.isInitializer]

theorem FunctionDecl.Renamed.arity_eq (h : f.Renamed x y marks f') :
    f'.parameters.length = f.parameters.length := by
  cases h
  exact List.length_map _

theorem FunctionDecl.AllRenamed.forall₂ : ∀ {fs fs' : List FunctionDecl},
    FunctionDecl.AllRenamed x y marks fs fs' → List.Forall₂ (FunctionDecl.Renamed x y marks) fs fs'
  | _, _, .nil => .nil
  | _, _, .cons head tail => .cons head tail.forall₂

end Declarations

section Form

variable {marks : Marks} (f : Option Nat → Option Nat)

mutual

theorem Expr.Renamed.twin : ∀ {e e' : Expr}, e.Renamed x y marks e' →
    (e.mapSlots f).Twin (Token.Renaming x y) (e'.mapSlots f)
  | _, _, .literal _ => .literal _
  | _, _, .group inner => .group inner.twin
  | _, _, .unary operand => .unary (.refl _) operand.twin
  | _, _, .binary left right => .binary left.twin (.refl _) right.twin
  | _, _, .logical left right => .logical left.twin (.refl _) right.twin
  | _, _, .name _ _ => .name ⟨_, rfl⟩
  | _, _, .assign _ _ value => .assign ⟨_, rfl⟩ value.twin
  | _, _, .call callee arguments => .call callee.twin (.refl _) arguments.twin
  | _, _, .get object => .get object.twin (.refl _)
  | _, _, .set object value => .set object.twin (.refl _) value.twin
  | _, _, .this _ _ => .this (.refl _)
  | _, _, .super _ _ _ => .super (.refl _) (.refl _)

theorem Expr.AllRenamed.twin : ∀ {es es' : List Expr}, Expr.AllRenamed x y marks es es' →
    Expr.AllTwin (Token.Renaming x y) (Expr.mapAllSlots f es) (Expr.mapAllSlots f es')
  | _, _, .nil => .nil
  | _, _, .cons head tail => .cons head.twin tail.twin

end

theorem Expr.rel_twin {o o' : Option Expr} (h : Option.Rel (Expr.Renamed x y marks) o o') :
    Option.Rel (Expr.Twin (Token.Renaming x y)) (o.map (·.mapSlots f))
      (o'.map (·.mapSlots f)) := by
  cases h with
  | none => exact .none
  | some h => exact .some (h.twin f)

mutual

/-- A renamed tree has the form of the tree. -/
theorem Stmt.Renamed.twin : ∀ {marks : Marks} {s s' : Stmt}, s.Renamed x y marks s' →
    (s.mapSlots f).Twin (Token.Renaming x y) (s'.mapSlots f)
  | _, _, _, .expr value => .expr (value.twin f)
  | _, _, _, .print value => .print (value.twin f)
  | _, _, _, .var _ initial => .var ⟨_, rfl⟩ (Expr.rel_twin f initial)
  | _, _, _, .block _ body => .block body.twin
  | _, _, _, .ifThen condition consequent => .ifThen (condition.twin f) consequent.twin
  | _, _, _, .ifElse condition consequent alternative =>
      .ifElse (condition.twin f) consequent.twin alternative.twin
  | _, _, _, .whileDo condition body => .whileDo (condition.twin f) body.twin
  | _, _, _, .function _ _ declaration => .function declaration.twin
  | _, _, _, .returning value => .returning (.refl _) (Expr.rel_twin f value)
  | _, _, _, .classDecl _ _ superclass methods =>
      .classDecl (.refl _) (Expr.rel_twin f superclass) methods.twin

theorem Stmt.AllRenamed.twin : ∀ {marks : Marks} {ss ss' : List Stmt},
    Stmt.AllRenamed x y marks ss ss' →
      Stmt.AllTwin (Token.Renaming x y) (Stmt.mapAllSlots f ss) (Stmt.mapAllSlots f ss')
  | _, _, _, .nil => .nil
  | _, _, _, .cons head tail => .cons head.twin tail.twin

theorem FunctionDecl.Renamed.twin : ∀ {marks : Marks} {g g' : FunctionDecl},
    g.Renamed x y marks g' → (g.mapSlots f).Twin (Token.Renaming x y) (g'.mapSlots f)
  | _, _, _, .mk marked _ body => .mk (.refl _) (Token.forall₂_renaming marked _) body.twin

theorem FunctionDecl.AllRenamed.twin : ∀ {marks : Marks} {gs gs' : List FunctionDecl},
    FunctionDecl.AllRenamed x y marks gs gs' →
      FunctionDecl.AllTwin (Token.Renaming x y) (FunctionDecl.mapAllSlots f gs)
        (FunctionDecl.mapAllSlots f gs')
  | _, _, _, .nil => .nil
  | _, _, _, .cons head tail => .cons head.twin tail.twin

end

end Form

/-! ## Its occurrences -/

/-- The occurrences have the same sort and depth, and the second token is the first or that with
the other name. -/
structure Occurrence.Renaming (x y : String) (o o' : Occurrence) : Prop where
  sort : o'.sort = o.sort
  depth : o'.depth = o.depth
  token : o.token.Renaming x y o'.token

open List (rel_append)

section Occurrences

variable {marks : Marks}

mutual

theorem Expr.Renamed.occurrences : ∀ {e e' : Expr}, e.Renamed x y marks e' →
    List.Forall₂ (Occurrence.Renaming x y) e.occurrences e'.occurrences
  | _, _, .literal _ => .nil
  | _, _, .group inner => inner.occurrences
  | _, _, .unary operand => operand.occurrences
  | _, _, .binary left right => rel_append left.occurrences right.occurrences
  | _, _, .logical left right => rel_append left.occurrences right.occurrences
  | _, _, .name _ _ => .cons ⟨rfl, rfl, _, rfl⟩ .nil
  | _, _, .assign _ _ value => .cons ⟨rfl, rfl, _, rfl⟩ value.occurrences
  | _, _, .call callee arguments => rel_append callee.occurrences arguments.occurrences
  | _, _, .get object => object.occurrences
  | _, _, .set object value => rel_append object.occurrences value.occurrences
  | _, _, .this _ _ => .cons ⟨rfl, rfl, .refl _⟩ .nil
  | _, _, .super _ _ _ => .cons ⟨rfl, rfl, .refl _⟩ .nil

theorem Expr.AllRenamed.occurrences : ∀ {es es' : List Expr}, Expr.AllRenamed x y marks es es' →
    List.Forall₂ (Occurrence.Renaming x y) (Expr.occurrencesAll es) (Expr.occurrencesAll es')
  | _, _, .nil => .nil
  | _, _, .cons head tail => rel_append head.occurrences tail.occurrences

end

theorem Expr.rel_occurrences {o o' : Option Expr}
    (h : Option.Rel (Expr.Renamed x y marks) o o') :
    List.Forall₂ (Occurrence.Renaming x y) (Expr.occurrencesOpt o) (Expr.occurrencesOpt o') := by
  cases h with
  | none => exact .nil
  | some h => exact h.occurrences

mutual

/-- The occurrences in a renamed tree are at the same places with the same depths. -/
theorem Stmt.Renamed.occurrences : ∀ {marks : Marks} {s s' : Stmt}, s.Renamed x y marks s' →
    List.Forall₂ (Occurrence.Renaming x y) s.occurrences s'.occurrences
  | _, _, _, .expr value => value.occurrences
  | _, _, _, .print value => value.occurrences
  | _, _, _, .var _ initial => Expr.rel_occurrences initial
  | _, _, _, .block _ body => body.occurrences
  | _, _, _, .ifThen condition consequent =>
      rel_append condition.occurrences consequent.occurrences
  | _, _, _, .ifElse condition consequent alternative =>
      rel_append (rel_append condition.occurrences consequent.occurrences)
        alternative.occurrences
  | _, _, _, .whileDo condition body => rel_append condition.occurrences body.occurrences
  | _, _, _, .function _ _ declaration => declaration.occurrences
  | _, _, _, .returning value => Expr.rel_occurrences value
  | _, _, _, .classDecl _ _ superclass methods =>
      rel_append (Expr.rel_occurrences superclass) methods.occurrences

theorem Stmt.AllRenamed.occurrences : ∀ {marks : Marks} {ss ss' : List Stmt},
    Stmt.AllRenamed x y marks ss ss' →
      List.Forall₂ (Occurrence.Renaming x y) (Stmt.occurrencesAll ss) (Stmt.occurrencesAll ss')
  | _, _, _, .nil => .nil
  | _, _, _, .cons head tail => rel_append head.occurrences tail.occurrences

theorem FunctionDecl.Renamed.occurrences : ∀ {marks : Marks} {f f' : FunctionDecl},
    f.Renamed x y marks f' →
      List.Forall₂ (Occurrence.Renaming x y) f.occurrences f'.occurrences
  | _, _, _, .mk _ _ body => body.occurrences

theorem FunctionDecl.AllRenamed.occurrences : ∀ {marks : Marks} {fs fs' : List FunctionDecl},
    FunctionDecl.AllRenamed x y marks fs fs' →
      List.Forall₂ (Occurrence.Renaming x y) (FunctionDecl.occurrencesAll fs)
        (FunctionDecl.occurrencesAll fs')
  | _, _, _, .nil => .nil
  | _, _, _, .cons head tail => rel_append head.occurrences tail.occurrences

end

end Occurrences

/-! ## Renaming an expression

An expression has no scopes in it, so that the marks say all. -/

mutual

theorem Expr.Renamed.eq_rename {marks : Marks} : ∀ {e e' : Expr}, e.Renamed x y marks e' →
    e' = e.rename x y marks
  | _, _, .literal _ | _, _, .name _ _ | _, _, .this _ _ | _, _, .super _ _ _ => rfl
  | _, _, .group inner => congrArg Expr.group inner.eq_rename
  | _, _, .unary operand => congrArg (Expr.unary _) operand.eq_rename
  | _, _, .binary left right => congrArg₂ (Expr.binary · _ ·) left.eq_rename right.eq_rename
  | _, _, .logical left right => congrArg₂ (Expr.logical · _ ·) left.eq_rename right.eq_rename
  | _, _, .assign _ _ value => congrArg (Expr.assign _ _) value.eq_rename
  | _, _, .call callee arguments =>
      congrArg₂ (Expr.call · _ ·) callee.eq_rename arguments.eq_renameAll
  | _, _, .get object => congrArg (Expr.get · _) object.eq_rename
  | _, _, .set object value => congrArg₂ (Expr.set · _ ·) object.eq_rename value.eq_rename

theorem Expr.AllRenamed.eq_renameAll {marks : Marks} : ∀ {es es' : List Expr},
    Expr.AllRenamed x y marks es es' → es' = Expr.renameAll x y marks es
  | _, _, .nil => rfl
  | _, _, .cons head tail => congrArg₂ (· :: ·) head.eq_rename tail.eq_renameAll

end

/-! ## Nothing renamed -/

theorem Marks.push_clear : Marks.clear.push false = .clear := by
  funext depth
  cases depth <;> rfl

theorem Marks.inMethods_clear (hasSuperclass : Bool) :
    Marks.clear.inMethods hasSuperclass = .clear := by
  cases hasSuperclass <;> simp [inMethods, push_clear]

theorem Marks.leads_clear (depth : Option Nat) : Marks.clear.leads depth = false := by
  cases depth <;> rfl

mutual

theorem Expr.rename_clear : ∀ e : Expr, e.rename x y .clear = e
  | .literal _ | .this .. | .super .. => rfl
  | .group e => by rw [Expr.rename, e.rename_clear]
  | .unary _ e => by rw [Expr.rename, e.rename_clear]
  | .binary l _ r => by rw [Expr.rename, l.rename_clear, r.rename_clear]
  | .logical l _ r => by rw [Expr.rename, l.rename_clear, r.rename_clear]
  | .name _ _ => by rw [Expr.rename, Marks.leads_clear, Token.renamed_false]
  | .assign _ _ v => by
      rw [Expr.rename, Marks.leads_clear, Token.renamed_false, v.rename_clear]
  | .call e _ es => by rw [Expr.rename, e.rename_clear, Expr.renameAll_clear es]
  | .get o _ => by rw [Expr.rename, o.rename_clear]
  | .set o _ v => by rw [Expr.rename, o.rename_clear, v.rename_clear]

theorem Expr.renameAll_clear : ∀ es : List Expr, Expr.renameAll x y .clear es = es
  | [] => rfl
  | e :: es => by rw [Expr.renameAll, e.rename_clear, Expr.renameAll_clear es]

end

theorem Expr.map_rename_clear (o : Option Expr) : o.map (·.rename x y .clear) = o := by
  cases o with
  | none => rfl
  | some e => exact congrArg some e.rename_clear

mutual

theorem Stmt.rename_clear : ∀ s : Stmt, s.rename x y .clear = s
  | .expr e => by rw [Stmt.rename, e.rename_clear]
  | .print e => by rw [Stmt.rename, e.rename_clear]
  | .var t o => by
      rw [Stmt.rename, Expr.map_rename_clear, Marks.clear, Token.renamed_false]
  | .block ss => by rw [Stmt.rename, Marks.push_clear, Stmt.renameAll_clear ss]
  | .ifThen e s => by rw [Stmt.rename, e.rename_clear, s.rename_clear]
  | .ifElse e s o => by rw [Stmt.rename, e.rename_clear, s.rename_clear, o.rename_clear]
  | .whileDo e s => by rw [Stmt.rename, e.rename_clear, s.rename_clear]
  | .function f => by rw [Stmt.rename, f.rename_clear]
  | .returning _ o => by rw [Stmt.rename, Expr.map_rename_clear]
  | .classDecl _ o fs => by
      rw [Stmt.rename, Expr.map_rename_clear, Marks.inMethods_clear,
        FunctionDecl.renameAll_clear fs]

theorem Stmt.renameAll_clear : ∀ ss : List Stmt, Stmt.renameAll x y .clear ss = ss
  | [] => rfl
  | s :: ss => by rw [Stmt.renameAll, s.rename_clear, Stmt.renameAll_clear ss]

theorem FunctionDecl.rename_clear : ∀ f : FunctionDecl, f.rename x y .clear = f
  | ⟨_, _, ss⟩ => by rw [FunctionDecl.rename, Marks.push_clear, Stmt.renameAll_clear ss]

theorem FunctionDecl.renameAll_clear : ∀ fs : List FunctionDecl,
    FunctionDecl.renameAll x y .clear fs = fs
  | [] => rfl
  | f :: fs => by
      rw [FunctionDecl.renameAll, f.rename_clear, FunctionDecl.renameAll_clear fs]

end

end Renaming

end LoxLang
