import Mathlib.Data.List.Nodup
import LoxLang.Resolution.Rules
import LoxLang.Proofs.Contexts
import LoxLang.Proofs.Parsing

/-!
# The static errors are the broken rules

Resolution reports one error for each rule that is broken at some place of the
program, and no other. The walk goes along with the marks of the tree: what it
knows at a point agrees with what the marks say is around the point. Every step
keeps the agreement, and where it holds, the errors of the step are those of its
marks.

Behind a block, a function or a class the marks say what they said before it, so
the walk is right to go on from the context it had there.
-/

namespace LoxLang

open Nesting

/-! ## Errors of marks that follow one another -/

namespace Accounts

variable {around : Nesting} {marks others : List Mark} {errors errors' : List (Located StaticError)}

theorem nil : Accounts around [] [] :=
  ⟨[], .nil, fun _ _ => by simp, .refl _⟩

theorem perm (h : Accounts around marks errors) (same : errors'.Perm errors) :
    Accounts around marks errors' := by
  obtain ⟨violations, distinct, complete, errors⟩ := h
  exact ⟨violations, distinct, complete, same.trans errors⟩

/-- The errors of a single mark. -/
theorem single {m : Mark} (distinct : errors.Nodup)
    (h : ∀ e, e ∈ errors ↔ Breaks around m e) : Accounts around [m] errors := by
  refine ⟨errors.map ([], ·), distinct.map fun _ _ h => (Prod.mk.inj h).2, fun before e => ?_, ?_⟩
  · rw [List.mem_map]
    constructor
    · rintro ⟨e', he, ⟨⟩⟩
      exact ⟨m, [], rfl, (h _).1 he⟩
    · rintro ⟨m', after, split, breaks⟩
      cases before with
      | nil =>
          cases split
          exact ⟨e, (h e).2 breaks, rfl⟩
      | cons => cases List.cons.inj split with | intro _ h => simp at h
  · rw [List.map_map]
    exact .of_eq (List.map_id errors).symm

/-- Where a mark stands in two lists put together. -/
theorem split_append {before after : List Mark} {m : Mark} :
    marks ++ others = before ++ m :: after ↔
      (∃ rest, marks = before ++ m :: rest ∧ after = rest ++ others) ∨
        ∃ between, before = marks ++ between ∧ others = between ++ m :: after := by
  rw [List.append_eq_append_iff]
  constructor
  · rintro (⟨between, hb, ho⟩ | ⟨_ | ⟨m', rest⟩, hm, ho⟩)
    · exact .inr ⟨between, hb, ho⟩
    · exact .inr ⟨[], by simp [hm], ho.symm⟩
    · obtain ⟨rfl, rfl⟩ := List.cons.inj ho
      exact .inl ⟨rest, hm, rfl⟩
  · rintro (⟨rest, hm, rfl⟩ | ⟨between, hb, ho⟩)
    · exact .inr ⟨m :: rest, hm, rfl⟩
    · exact .inl ⟨between, hb, ho⟩

theorem append (h : Accounts around marks errors)
    (h' : Accounts (around.passAll marks) others errors') :
    Accounts around (marks ++ others) (errors ++ errors') := by
  obtain ⟨first, distinct, complete, same⟩ := h
  obtain ⟨second, distinct', complete', same'⟩ := h'
  refine ⟨first ++ second.map fun v => (marks ++ v.1, v.2),
    distinct.append (distinct'.map fun v w h => ?_) ?_, fun before e => ?_, ?_⟩
  · obtain ⟨hb, he⟩ := Prod.mk.inj h
    exact Prod.ext (List.append_cancel_left hb) he
  · -- a place in the first list has all of its marks from there
    rintro ⟨before, e⟩ hf hs
    obtain ⟨m, after, split, -⟩ := (complete before e).1 hf
    obtain ⟨v, -, hv⟩ := List.mem_map.1 hs
    have longer := congrArg List.length split
    rw [← (Prod.mk.inj hv).1] at longer
    simp only [List.length_append, List.length_cons] at longer
    omega
  · rw [List.mem_append, complete, List.mem_map]
    simp only [split_append]
    constructor
    · rintro (⟨m, after, split, breaks⟩ | ⟨⟨between, e⟩, hv, ⟨⟩⟩)
      · exact ⟨m, after ++ others, .inl ⟨after, split, rfl⟩, breaks⟩
      · obtain ⟨m, after, split, breaks⟩ := (complete' between e).1 hv
        refine ⟨m, after, .inr ⟨between, rfl, split⟩, ?_⟩
        rwa [passAll, List.foldl_append]
    · rintro ⟨m, after, ⟨rest, split, -⟩ | ⟨between, rfl, split⟩, breaks⟩
      · exact .inl ⟨m, rest, split, breaks⟩
      · refine .inr ⟨(between, e), (complete' between e).2 ⟨m, after, split, ?_⟩, rfl⟩
        rwa [passAll, List.foldl_append] at breaks
  · rw [List.map_append, List.map_map]
    exact same.append same'

/-- A mark that breaks no rule. -/
theorem fine {m : Mark} (h : ∀ e, ¬Breaks around m e) : Accounts around [m] [] :=
  .single .nil fun e => ⟨nofun, fun breaks => absurd breaks (h e)⟩

/-- Marks inside of something. -/
theorem enclosed {enclosure : Enclosure} (h : Accounts ((enclosure, []) :: around) marks errors) :
    Accounts around (.enter enclosure :: (marks ++ [.leave])) errors := by
  have opening : Accounts around [.enter enclosure] [] := fine fun _ breaks => nomatch breaks
  have closing : Accounts (passAll ((enclosure, []) :: around) marks) [.leave] [] :=
    fine fun _ breaks => nomatch breaks
  exact (opening.append (h.append closing)).perm (by simp)

end Accounts

/-! ## What is around behind a tree -/

namespace Nesting

/-- Behind the marks, all is around that was before them. -/
def Still (marks : List Mark) : Prop := ∀ around, passAll around marks = around

/-- Behind the marks, all is around that was before them, but for what they declare in the
innermost scope. -/
def Balanced (marks : List Mark) : Prop :=
  ∀ scope around, ∃ scope', passAll (scope :: around) marks = scope' :: around

variable {marks others : List Mark} {around : Nesting}

theorem passAll_append :
    around.passAll (marks ++ others) = (around.passAll marks).passAll others :=
  List.foldl_append

theorem Still.balanced (h : Still marks) : Balanced marks := fun scope _ => ⟨scope, h _⟩

theorem Still.nil : Still [] := fun _ => rfl

theorem Still.append (h : Still marks) (h' : Still others) : Still (marks ++ others) :=
  fun around => by rw [passAll_append, h, h']

theorem Balanced.append (h : Balanced marks) (h' : Balanced others) :
    Balanced (marks ++ others) := by
  intro scope around
  obtain ⟨scope', heq⟩ := h scope around
  rw [passAll_append, heq]
  exact h' scope' around

theorem Balanced.declare (h : Balanced marks) (x : Token) : Balanced (.declare x :: marks) :=
  fun _ around => h _ around

theorem Balanced.declareAll (parameters : List Token) : Balanced (parameters.map .declare) := by
  induction parameters with
  | nil => exact Still.nil.balanced
  | cons p ps ih => exact ih.declare p

/-- Nothing is left behind an enclosure. -/
theorem Balanced.enclosed (h : Balanced marks) (enclosure : Enclosure) :
    Still (.enter enclosure :: (marks ++ [.leave])) := by
  intro around
  obtain ⟨scope, heq⟩ := h (enclosure, []) around
  show passAll ((enclosure, []) :: around) (marks ++ [.leave]) = around
  rw [passAll_append, heq]
  rfl

end Nesting

mutual

theorem Expr.marks_still (own : Option Token) : ∀ e : Expr, Still (e.marks own)
  | .literal _ => .nil
  | .name .. | .this .. | .super .. => fun _ => rfl
  | .group e | .unary _ e | .get e _ | .assign _ _ e => e.marks_still own
  | .binary left _ right | .logical left _ right | .set left _ right =>
      (left.marks_still own).append (right.marks_still own)
  | .call callee _ arguments =>
      (callee.marks_still own).append (Expr.marksAll_still own arguments)

theorem Expr.marksAll_still (own : Option Token) : ∀ es : List Expr, Still (Expr.marksAll own es)
  | [] => .nil
  | e :: es => (e.marks_still own).append (Expr.marksAll_still own es)

end

theorem Expr.marksOpt_still (own : Option Token) : ∀ o : Option Expr, Still (Expr.marksOpt own o)
  | none => .nil
  | some e => e.marks_still own

theorem Expr.inheritance_still (name : Token) (o : Option Expr) :
    Still (Expr.inheritance name o) := by
  intro around
  unfold Expr.inheritance
  split <;> rfl

mutual

theorem Stmt.marks_balanced : ∀ s : Stmt, Balanced s.marks
  | .expr value | .print value => (value.marks_still none).balanced
  | .returning keyword value => (Still.append
      (show Still [.returns keyword value.isSome] from fun _ => rfl)
      (Expr.marksOpt_still none value)).balanced
  | .var name initial => (Expr.marksOpt_still (some name) initial).balanced.append
      (Still.nil.balanced.declare name)
  | .block body => ((Stmt.marksAll_balanced body).enclosed _).balanced
  | .ifThen condition consequent =>
      (condition.marks_still none).balanced.append consequent.marks_balanced
  | .ifElse condition consequent alternative =>
      ((condition.marks_still none).balanced.append consequent.marks_balanced).append
        alternative.marks_balanced
  | .whileDo condition body => (condition.marks_still none).balanced.append body.marks_balanced
  | .function f => (f.marks_still .function).balanced.declare _
  | .classDecl name superclass methods =>
      ((((Expr.inheritance_still name superclass).append
        (Expr.marksOpt_still none superclass)).append
          (FunctionDecl.methodMarks_still methods)).balanced.enclosed _).balanced.declare _

theorem Stmt.marksAll_balanced : ∀ ss : List Stmt, Balanced (Stmt.marksAll ss)
  | [] => Still.nil.balanced
  | s :: ss => s.marks_balanced.append (Stmt.marksAll_balanced ss)

theorem FunctionDecl.marks_still (kind : Enclosure) : ∀ f : FunctionDecl, Still (f.marks kind)
  | ⟨_, parameters, body⟩ =>
      ((Balanced.declareAll parameters).append (Stmt.marksAll_balanced body)).enclosed kind

theorem FunctionDecl.methodMarks_still : ∀ fs : List FunctionDecl,
    Still (FunctionDecl.methodMarks fs)
  | [] => .nil
  | f :: fs => (f.marks_still _).append (FunctionDecl.methodMarks_still fs)

end

/-! ## The walk and the text -/

/-- The kinds of function and class that the walk is in are those around by the text. -/
structure KindsAgree (c : Context) (around : Nesting) : Prop where
  topLevel : c.body = .topLevel ↔ around.function? = none
  initializer : c.body = .initializer ↔ around.function? = some .initializer
  outside : c.classBody = .outside ↔ around.class? = none
  root : c.classBody = .root ↔ around.class? = some .rootClass

/-- What the walk knows at a statement is what is around by the text. -/
structure NestingAgrees (c : Context) (around : Nesting) : Prop extends KindsAgree c around where
  isGlobal : c.scopes = [] ↔ around = []
  here : ∀ x, c.declaresHere x = true ↔ around.DeclaresHere x
  settled : ∀ x, c.isPending x = false

/-- What the walk knows at an expression is what is around by the text. In the initializer of a
variable, that variable is pending if it is not declared in the scope yet. -/
structure ReadsAgree (own : Option Token) (c : Context) (around : Nesting) : Prop where
  outside : c.classBody = .outside ↔ around.class? = none
  root : c.classBody = .root ↔ around.class? = some .rootClass
  pending : ∀ x : Token, c.isPending x.lexeme = true ↔
    ∃ y, own = some y ∧ x.lexeme = y.lexeme ∧ around.LacksHere y.lexeme

namespace NestingAgrees

variable {c : Context} {around : Nesting}

theorem global : NestingAgrees .global [] where
  topLevel := by simp [Context.global, Nesting.function?]
  initializer := by simp [Context.global, Nesting.function?]
  outside := by simp [Context.global, Nesting.class?]
  root := by simp [Context.global, Nesting.class?]
  isGlobal := by simp [Context.global]
  here x := by simp [Context.global, Context.declaresHere, DeclaresHere]
  settled _ := rfl

/-- At an expression of its own, as opposed to one that initializes a variable. -/
theorem reads (h : NestingAgrees c around) : ReadsAgree none c around where
  outside := h.outside
  root := h.root
  pending x := by simp [h.settled]

/-- A fresh scope declares nothing. -/
theorem fresh {enclosure : Enclosure} {c : Context}
    (kinds : KindsAgree c.enter ((enclosure, []) :: around)) :
    NestingAgrees c.enter ((enclosure, []) :: around) where
  toKindsAgree := kinds
  isGlobal := by simp [Context.enter]
  here x := by simp [Context.enter, Context.declaresHere, Context.declares, DeclaresHere]
  settled _ := rfl

theorem enterBlock (h : NestingAgrees c around) :
    NestingAgrees c.enter ((.block, []) :: around) :=
  fresh ⟨h.topLevel, h.initializer, h.outside, h.root⟩

/-- Exactly a local scope without the name lacks it. -/
theorem lacksHere_iff (h : NestingAgrees c around) (x : String) :
    around.LacksHere x ↔ c.scopes ≠ [] ∧ c.declaresHere x = false := by
  rw [← Bool.not_eq_true, h.here, ne_eq, h.isGlobal]
  cases around <;> simp [LacksHere, DeclaresHere]

/-- In the initializer of a variable. -/
theorem declare (h : NestingAgrees c around) (x : Token) :
    ReadsAgree (some x) (c.declare x.lexeme) around where
  outside := by rw [(Context.declare_kinds c _).2]; exact h.outside
  root := by rw [(Context.declare_kinds c _).2]; exact h.root
  pending y := by
    have settled := h.settled y.lexeme
    simp only [Option.some.injEq, exists_eq_left', h.lacksHere_iff]
    cases hs : c.scopes with
    | nil => simp [Context.declare, hs, settled]
    | cons scope outer =>
        simp only [Context.isPending, hs] at settled
        by_cases hd : Context.declares scope x.lexeme = true
        · simp [Context.declare, hs, hd, Context.declaresHere, Context.isPending, settled]
        · by_cases hy : y.lexeme = x.lexeme
          · simp [Context.declare, hs, hd, Context.declaresHere, Context.isPending, hy]
          · simp [Context.declare, hs, hd, Context.isPending, List.lookup_cons,
              beq_false_of_ne hy, beq_eq_false_iff_ne.1 settled, hy]

theorem introduce (h : NestingAgrees c around) (x : Token) :
    NestingAgrees (c.introduce x.lexeme) (around.pass (.declare x)) := by
  cases hs : c.scopes with
  | nil =>
      obtain rfl := h.isGlobal.1 hs
      rw [Context.introduce_of_nil hs]
      exact h
  | cons scope outer =>
      obtain ⟨scope', heq, hl⟩ := Context.introduce_scopes hs x.lexeme
      obtain ⟨hb, hc⟩ := Context.introduce_kinds c x.lexeme
      match around, h with
      | [], h => exact absurd (h.isGlobal.2 rfl) (by simp [hs])
      | (enclosure, names) :: around, h =>
          refine ⟨⟨?_, ?_, ?_, ?_⟩, ?_, fun y => ?_, fun y => ?_⟩
          · rw [hb]; exact h.topLevel
          · rw [hb]; exact h.initializer
          · rw [hc]; exact h.outside
          · rw [hc]; exact h.root
          · simp [heq, Nesting.pass]
          · have here := h.here y
            simp only [Context.declaresHere, hs, Context.declares, DeclaresHere, List.head?_cons,
              Option.mem_def, Option.some.injEq, exists_eq_left'] at here
            simp only [Context.declaresHere, heq, Context.declares, hl, Nesting.pass, DeclaresHere,
              List.head?_cons, Option.mem_def, Option.some.injEq, exists_eq_left', List.mem_cons]
            split <;> simp_all
          · have settled := h.settled y
            simp only [Context.isPending, hs, heq, hl] at settled ⊢
            split <;> simp_all

end NestingAgrees

/-! ## The errors at a mark -/

section Marks

variable {own : Option Token} {c : Context} {around : Nesting}

/-- A mark that is wrong under a condition. -/
theorem Accounts.ite {m : Mark} {P : Prop} [Decidable P] {error : Located StaticError}
    (h : ∀ e, Breaks around m e ↔ P ∧ e = error) :
    Accounts around [m] (if P then [error] else []) := by
  split
  · next hp => exact .single (List.nodup_singleton _) fun e => by simp [h, hp]
  · next hp => exact .fine fun e breaks => hp ((h e).1 breaks).1

theorem ReadsAgree.read (h : ReadsAgree own c around) (x : Token) :
    Accounts around [.read own x] (c.ownInitializerError x) := by
  refine .ite fun e => ?_
  rw [h.pending x]
  constructor
  · rintro (_ | _ | _ | _ | _ | _ | _ | ⟨same, undeclared⟩)
    exact ⟨⟨_, rfl, same, undeclared⟩, rfl⟩
  · rintro ⟨⟨y, rfl, same, undeclared⟩, rfl⟩
    exact .ownInitializer same undeclared

theorem ReadsAgree.this (h : ReadsAgree own c around) (keyword : Token) :
    Accounts around [.this keyword] (c.thisErrors none keyword) := by
  refine .ite fun e => ?_
  rw [h.outside]
  constructor
  · rintro (_ | _ | outside)
    exact ⟨outside, rfl⟩
  · rintro ⟨outside, rfl⟩
    exact .thisOutsideClass outside

theorem ReadsAgree.super (h : ReadsAgree own c around) (keyword : Token) :
    Accounts around [.super keyword] (c.superErrors none keyword) := by
  have breaks (e : Located StaticError) : Breaks around (.super keyword) e ↔
      c.classBody = .outside ∧ e = ⟨keyword, .superOutsideClass⟩ ∨
        c.classBody = .root ∧ e = ⟨keyword, .superWithoutSuperclass⟩ := by
    rw [h.outside, h.root]
    constructor
    · rintro (_ | _ | _ | outside | inside)
      · exact .inl ⟨outside, rfl⟩
      · exact .inr ⟨inside, rfl⟩
    · rintro (⟨outside, rfl⟩ | ⟨inside, rfl⟩)
      · exact .superOutsideClass outside
      · exact .superWithoutSuperclass inside
  unfold Context.superErrors
  cases hc : c.classBody <;> rw [hc] at breaks
  · exact .single (List.nodup_singleton _) fun e => by simp [breaks]
  · exact .single (List.nodup_singleton _) fun e => by simp [breaks]
  · exact .fine fun e => by simp [breaks]

theorem NestingAgrees.returns (h : NestingAgrees c around) (keyword : Token) (hasValue : Bool) :
    Accounts around [.returns keyword hasValue] (c.returnErrors hasValue keyword) := by
  have breaks (e : Located StaticError) : Breaks around (.returns keyword hasValue) e ↔
      c.body = .topLevel ∧ e = ⟨keyword, .topLevelReturn⟩ ∨
        (c.body = .initializer ∧ hasValue = true) ∧ e = ⟨keyword, .initializerReturn⟩ := by
    rw [h.topLevel, h.initializer]
    constructor
    · rintro (outside | inside)
      · exact .inl ⟨outside, rfl⟩
      · exact .inr ⟨⟨inside, rfl⟩, rfl⟩
    · rintro (⟨outside, rfl⟩ | ⟨⟨inside, rfl⟩, rfl⟩)
      · exact .topLevelReturn outside
      · exact .initializerReturn inside
  unfold Context.returnErrors
  cases hb : c.body <;> rw [hb] at breaks
  · exact .single (List.nodup_singleton _) fun e => by simp [breaks]
  · exact .fine fun e => by simp [breaks]
  · exact .fine fun e => by simp [breaks]
  · exact .ite fun e => by simp [breaks]

theorem NestingAgrees.redeclaration (h : NestingAgrees c around) (x : Token) :
    Accounts around [.declare x] (c.redeclaration x) := by
  refine .ite fun e => ?_
  rw [h.here]
  constructor
  · rintro (_ | _ | _ | _ | _ | _ | declared)
    exact ⟨declared, rfl⟩
  · rintro ⟨declared, rfl⟩
    exact .redeclared declared

theorem Accounts.inheritance (name : Token) (superclass : Option Expr) :
    Accounts around (Expr.inheritance name superclass)
      ((superclass.map (·.selfInheritance name)).getD []) := by
  unfold Expr.inheritance
  split
  · next x depth =>
      refine .ite fun e => ?_
      rw [beq_iff_eq]
      constructor
      · rintro (_ | _ | _ | _ | _ | same)
        exact ⟨same, rfl⟩
      · rintro ⟨same, rfl⟩
        exact .selfInheritance same
  · next other =>
      cases superclass with
      | none => exact .nil
      | some e =>
          cases e with
          | name x depth => exact absurd rfl (other x depth)
          | _ => exact .nil

end Marks

/-! ## The errors of a tree -/

/-- What is behind marks that leave all as it is. -/
theorem Accounts.append_still {around : Nesting} {marks others : List Mark}
    {errors errors' : List (Located StaticError)} (still : Still marks)
    (h : Accounts around marks errors) (h' : Accounts around others errors') :
    Accounts around (marks ++ others) (errors ++ errors') :=
  h.append (by rwa [still around])

section Expressions

variable {own : Option Token} {c : Context} {around : Nesting}

mutual

theorem Expr.errors_account (h : ReadsAgree own c around) : ∀ e : Expr,
    Accounts around (e.plain.marks own) (e.plain.errors c)
  | .literal _ => .nil
  | .name x _ => (h.read x).perm (.of_eq (List.append_nil _))
  | .this keyword _ => h.this keyword
  | .super keyword _ _ => h.super keyword
  | .group e | .unary _ e | .get e _ => Expr.errors_account h e
  | .assign _ _ value => (Expr.errors_account h value).perm (.of_eq (List.append_nil _))
  | .binary left _ right | .logical left _ right =>
      (Expr.errors_account h left).append_still (left.plain.marks_still own)
        (Expr.errors_account h right)
  | .set object _ value =>
      ((Expr.errors_account h object).append_still (object.plain.marks_still own)
        (Expr.errors_account h value)).perm List.perm_append_comm
  | .call callee _ arguments =>
      (Expr.errors_account h callee).append_still (callee.plain.marks_still own)
        (Expr.errorsAll_account h arguments)

theorem Expr.errorsAll_account (h : ReadsAgree own c around) : ∀ es : List Expr,
    Accounts around (Expr.marksAll own (Expr.mapAllSlots (fun _ => none) es))
      (Expr.errorsAll c (Expr.mapAllSlots (fun _ => none) es))
  | [] => .nil
  | e :: es => (Expr.errors_account h e).append_still (e.plain.marks_still own)
      (Expr.errorsAll_account h es)

end

theorem Expr.errorsOpt_account (h : ReadsAgree own c around) : ∀ o : Option Expr,
    Accounts around (Expr.marksOpt own (o.map Expr.plain)) (Expr.errorsOpt c (o.map Expr.plain))
  | none => .nil
  | some e => Expr.errors_account h e

end Expressions

/-- From wherever the first context is, the marks lead to where the second is, and the errors are
those of the marks. -/
def Checks (c : Context) (marks : List Mark) (errors : List (Located StaticError)) (c' : Context) :
    Prop :=
  ∀ around, NestingAgrees c around →
    Accounts around marks errors ∧ NestingAgrees c' (around.passAll marks)

namespace Checks

variable {c c' c'' : Context} {marks others : List Mark} {errors errors' : List (Located StaticError)}

theorem nil : Checks c [] [] c := fun _ agrees => ⟨.nil, agrees⟩

theorem append (h : Checks c marks errors c') (h' : Checks c' others errors' c'') :
    Checks c (marks ++ others) (errors ++ errors') c'' := by
  intro around agrees
  obtain ⟨accounts, agrees⟩ := h around agrees
  obtain ⟨accounts', agrees⟩ := h' _ agrees
  rw [passAll_append]
  exact ⟨accounts.append accounts', agrees⟩

/-- What leaves all around as it is leaves the context as it is. -/
theorem stays (still : Still marks)
    (h : ∀ {around : Nesting}, NestingAgrees c around → Accounts around marks errors) :
    Checks c marks errors c := by
  intro around agrees
  refine ⟨h agrees, ?_⟩
  rw [still]
  exact agrees

theorem expression (e : Expr) : Checks c (e.plain.marks none) (e.plain.errors c) c :=
  .stays (e.plain.marks_still none) fun agrees => Expr.errors_account agrees.reads e

theorem declare (x : Token) :
    Checks c [.declare x] (c.redeclaration x) (c.introduce x.lexeme) :=
  fun _ agrees => ⟨agrees.redeclaration x, agrees.introduce x⟩

theorem parameters (ps : List Token) : ∀ c : Context,
    Checks c (ps.map .declare) (c.parameterErrors ps)
      (ps.foldl (fun c p => c.introduce p.lexeme) c) := by
  induction ps with
  | nil => exact fun _ => .nil
  | cons p ps ih => exact fun c => (declare p).append (ih _)

end Checks

/-- What the body of a function is by the text. -/
def Body.enclosure : Body → Enclosure
  | .topLevel => .block
  | .function => .function
  | .method => .method
  | .initializer => .initializer

/-- In front of its parameters, a function in a class is in that class, whatever is around that. -/
theorem NestingAgrees.enterFunction {kind : Body} {c : Context} {around : Nesting}
    (isFunction : kind ≠ .topLevel) (outside : c.classBody = .outside ↔ around.class? = none)
    (root : c.classBody = .root ↔ around.class? = some .rootClass) :
    NestingAgrees { c.enter with body := kind } ((kind.enclosure, []) :: around) := by
  refine fresh (c := { c with body := kind }) ⟨?_, ?_, ?_, ?_⟩
  · cases kind <;> simp_all [Context.enter, Body.enclosure, Nesting.function?, Enclosure.isFunction]
  · cases kind <;> simp_all [Context.enter, Body.enclosure, Nesting.function?, Enclosure.isFunction]
  · cases kind <;> exact outside
  · cases kind <;> exact root

/-- Inside a class, which has a superclass or not. -/
theorem class?_enter (hasSuperclass : Bool) (c : Context) (around : Nesting) :
    let inside : Nesting := (if hasSuperclass then .subclass else .rootClass, []) :: around
    ((c.inMethods hasSuperclass).classBody = .outside ↔ inside.class? = none) ∧
      ((c.inMethods hasSuperclass).classBody = .root ↔ inside.class? = some .rootClass) := by
  cases hasSuperclass <;> simp [Context.inMethods, Nesting.class?, Enclosure.isClass]

/-- Naming a superclass, and reading it. -/
theorem superclass_account {c : Context} {around : Nesting} (h : NestingAgrees c around)
    (name : Token) (superclass : Option Expr) :
    let parent := superclass.map Expr.plain
    Accounts ((if parent.isSome then .subclass else .rootClass, []) :: around)
      (Expr.inheritance name parent ++ Expr.marksOpt none parent)
      ((parent.map (·.selfInheritance name)).getD [] ++ Expr.errorsOpt c.inSuperclass parent) := by
  refine (Accounts.inheritance name _).append_still (Expr.inheritance_still _ _) ?_
  cases superclass with
  | none => exact .nil
  | some e =>
      refine Expr.errors_account ⟨?_, ?_, fun x => ?_⟩ e
      · simp [Context.inSuperclass, Nesting.class?, Enclosure.isClass]
      · simp [Context.inSuperclass, Nesting.class?, Enclosure.isClass]
      · have settled : c.inSuperclass.isPending x.lexeme = false := h.settled x.lexeme
        simp [settled]

mutual

theorem Stmt.checks (c : Context) : ∀ s : Stmt,
    Checks c (s.mapSlots fun _ => none).marks ((s.mapSlots fun _ => none).errors c)
      ((s.mapSlots fun _ => none).after c)
  | .expr value | .print value => .expression value
  | .returning keyword value => by
      refine .stays (Still.append (show Still [.returns keyword _] from fun _ => rfl)
        (Expr.marksOpt_still none _)) fun agrees => ?_
      exact (agrees.returns keyword _).append (Expr.errorsOpt_account agrees.reads value)
  | .var name initial => by
      intro around agrees
      have accounts := Expr.errorsOpt_account (agrees.declare name) initial
      have still := Expr.marksOpt_still (some name) (initial.map Expr.plain)
      refine ⟨(accounts.append_still still (agrees.redeclaration name)).perm
        List.perm_append_comm, ?_⟩
      exact (passAll_append.trans (congrArg (passAll · [.declare name]) (still around))).symm ▸
        agrees.introduce name
  | .block body =>
      .stays ((Stmt.marksAll_balanced _).enclosed _) fun agrees =>
        (Stmt.checksAll c.enter body _ agrees.enterBlock).1.enclosed
  | .ifThen condition consequent => (Checks.expression condition).append (consequent.checks c)
  | .whileDo condition body => (Checks.expression condition).append (body.checks c)
  | .ifElse condition consequent alternative =>
      ((Checks.expression condition).append (consequent.checks c)).append (alternative.checks _)
  | .function f =>
      (Checks.declare (f.mapSlots fun _ => none).name).append <|
        .stays (FunctionDecl.marks_still .function _) fun agrees =>
          FunctionDecl.errors_account .function nofun _ _ agrees.outside agrees.root f
  | .classDecl name superclass methods => by
      intro around agrees
      have inner := agrees.introduce name
      obtain ⟨outside, root⟩ := class?_enter (superclass.map Expr.plain).isSome
        (c.introduce name.lexeme) (around.pass (.declare name))
      have still := (Expr.inheritance_still name (superclass.map Expr.plain)).append
        (Expr.marksOpt_still none (superclass.map Expr.plain))
      have inside := (superclass_account inner name superclass).append_still still
        (FunctionDecl.methodErrors_account _ _ outside root methods)
      refine ⟨((agrees.redeclaration name).append inside.enclosed).perm (.of_eq ?_), ?_⟩
      · exact (congrArg (· ++ _) (List.append_assoc ..)).trans (List.append_assoc ..)
      · exact ((still.append (FunctionDecl.methodMarks_still _)).balanced.enclosed _
          (around.pass (.declare name))).symm ▸ inner

theorem Stmt.checksAll (c : Context) : ∀ ss : List Stmt,
    Checks c (Stmt.marksAll (Stmt.allPlain ss)) (Stmt.errorsAll c (Stmt.allPlain ss))
      ((Stmt.allPlain ss).foldl Stmt.after c)
  | [] => .nil
  | s :: ss => (s.checks c).append (Stmt.checksAll _ ss)

theorem FunctionDecl.errors_account (kind : Body) (isFunction : kind ≠ .topLevel) (c : Context)
    (around : Nesting) (outside : c.classBody = .outside ↔ around.class? = none)
    (root : c.classBody = .root ↔ around.class? = some .rootClass) : ∀ f : FunctionDecl,
    Accounts around ((f.mapSlots fun _ => none).marks kind.enclosure)
      ((f.mapSlots fun _ => none).errors kind c)
  | ⟨_, parameters, body⟩ => by
      have agrees := NestingAgrees.enterFunction (c := c) isFunction outside root
      have inner := (Checks.parameters parameters { c.enter with body := kind }).append
        (Stmt.checksAll (c.inFunction kind parameters) body)
      exact (inner _ agrees).1.enclosed

theorem FunctionDecl.methodErrors_account (c : Context) (around : Nesting)
    (outside : c.classBody = .outside ↔ around.class? = none)
    (root : c.classBody = .root ↔ around.class? = some .rootClass) : ∀ fs : List FunctionDecl,
    Accounts around (FunctionDecl.methodMarks (FunctionDecl.mapAllSlots (fun _ => none) fs))
      (FunctionDecl.methodErrors c (FunctionDecl.mapAllSlots (fun _ => none) fs))
  | [] => .nil
  | f :: fs => by
      have first := FunctionDecl.errors_account (f.mapSlots fun _ => none).methodBody
        (by unfold FunctionDecl.methodBody; split <;> nofun) c around outside root f
      rw [show Body.enclosure _ = if (f.mapSlots fun _ => none).isInitializer then
        Enclosure.initializer else .method by unfold FunctionDecl.methodBody; split <;> rfl] at first
      exact first.append_still (FunctionDecl.marks_still _ _)
        (FunctionDecl.methodErrors_account c around outside root fs)

end

/-- Of every program that is read, with errors or without, resolution reports the rules that are
broken: one error for each place and each rule that is broken there, and nothing else. -/
theorem staticErrors_account (ts : List Token) :
    Accounts [] (Stmt.marksAll (Grammar.program ts).1)
      (Stmt.staticErrors (Grammar.program ts).1) := by
  obtain ⟨ss, q, -, -, -, read⟩ := Parser.program_follows 0 ts
  rw [← read.plain_eq]
  exact (Stmt.checksAll .global ss [] .global).1

end LoxLang
