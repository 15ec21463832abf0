import LoxLang.Proofs.Contexts
import LoxLang.Proofs.RecoveredTrees
import LoxLang.Proofs.Surroundings
import LoxLang.Resolution.Annotate
import LoxLang.Tree.Slots

/-!
# Depths are lexical distances

Resolution goes through a program once and keeps a stack of scopes. What it
finds for an occurrence is the distance that the text says, whether the program
breaks static rules or not.

The stack of resolution agrees with the scopes that the outline by itself puts
around a point, apart from the names `this` and `super`, which take the place of
the sorts of scopes. Every step of resolution keeps the two in agreement, and
wherever they agree, the depth that is found is the right one.
-/

namespace LoxLang

open Surroundings

/-! ## Outlines of whole trees -/

namespace Landmark

/-- Behind the landmarks, the scopes around are those before. -/
def Still (marks : List Landmark) : Prop := ∀ around, passAll around marks = around

/-- Behind the landmarks, the scopes around are those before, but for what the innermost
declares. -/
def Balanced (marks : List Landmark) : Prop :=
  ∀ scope around, ∃ scope', passAll (scope :: around) marks = scope' :: around

variable {marks others : List Landmark}

theorem Still.balanced (h : Still marks) : Balanced marks := fun scope _ => ⟨scope, h _⟩

theorem Still.occurrences (os : List Occurrence) : Still (os.map .occur) :=
  fun _ => passAll_occurrences os

theorem Still.append (h : Still marks) (h' : Still others) : Still (marks ++ others) :=
  fun around => by rw [passAll_append, h, h']

theorem Balanced.append (h : Balanced marks) (h' : Balanced others) :
    Balanced (marks ++ others) := by
  intro scope around
  obtain ⟨scope', heq⟩ := h scope around
  rw [passAll_append, heq]
  exact h' scope' around

theorem Balanced.declare (h : Balanced marks) (x : String) : Balanced (.declare x :: marks) :=
  fun _ around => h _ around

theorem Balanced.declareAll (parameters : List Token) :
    Balanced (parameters.map fun p => .declare p.lexeme) := by
  induction parameters with
  | nil => exact fun scope _ => ⟨scope, rfl⟩
  | cons p ps ih => exact ih.declare p.lexeme

/-- A scope leaves nothing behind. -/
theorem Balanced.enclosed (h : Balanced marks) (sort : ScopeSort) :
    Still (.enter sort :: (marks ++ [.leave])) := by
  intro around
  obtain ⟨scope, heq⟩ := h (sort, []) around
  rw [passAll_cons, Surroundings.pass, passAll_append, heq]
  rfl

end Landmark

open Landmark

theorem Expr.outline_still (e : Expr) : Still e.outline := .occurrences _

theorem Expr.outlineOpt_still (o : Option Expr) : Still (Expr.outlineOpt o) := .occurrences _

mutual

theorem Stmt.outline_balanced : ∀ s : Stmt, Balanced s.outline
  | .expr value | .print value => value.outline_still.balanced
  | .returning _ value => (Expr.outlineOpt_still value).balanced
  | .var name initial => (Expr.outlineOpt_still initial).balanced.declare _
  | .block body => ((Stmt.outlineAll_balanced body).enclosed _).balanced
  | .ifThen condition consequent =>
      condition.outline_still.balanced.append consequent.outline_balanced
  | .ifElse condition consequent alternative =>
      (condition.outline_still.balanced.append consequent.outline_balanced).append
        alternative.outline_balanced
  | .whileDo condition body => condition.outline_still.balanced.append body.outline_balanced
  | .function declaration => declaration.outline_still.balanced.declare _
  | .classDecl name superclass methods => by
      have body := (FunctionDecl.outlineAll_still methods).balanced.enclosed .this
      refine ((Expr.outlineOpt_still superclass).append ?_).balanced.declare _
      split
      · exact body.balanced.enclosed .super
      · exact body

theorem Stmt.outlineAll_balanced : ∀ ss : List Stmt, Balanced (Stmt.outlineAll ss)
  | [] => fun scope _ => ⟨scope, rfl⟩
  | s :: ss => s.outline_balanced.append (Stmt.outlineAll_balanced ss)

theorem FunctionDecl.outline_still : ∀ f : FunctionDecl, Still f.outline
  | ⟨_, parameters, body⟩ => ((Balanced.declareAll parameters).append
      (Stmt.outlineAll_balanced body)).enclosed _

theorem FunctionDecl.outlineAll_still : ∀ fs : List FunctionDecl, Still (FunctionDecl.outlineAll fs)
  | [] => fun _ => rfl
  | f :: fs => f.outline_still.append (FunctionDecl.outlineAll_still fs)

end

/-! ## The scopes of resolution -/

/-- A scope of resolution is one that the text gives. The names `this` and `super` stand for its
sort. -/
structure ScopeAgrees (scope : Declared) (s : ScopeSort × List String) : Prop where
  names : ∀ x, x ≠ "this" → x ≠ "super" → (Context.declares scope x = true ↔ x ∈ s.2)
  this : Context.declares scope "this" = true ↔ s.1 = .this
  super : Context.declares scope "super" = true ↔ s.1 = .super

theorem ScopeAgrees.plain : ScopeAgrees [] (.plain, []) :=
  ⟨fun _ _ _ => by simp [Context.declares], by simp [Context.declares], by simp [Context.declares]⟩

theorem ScopeAgrees.forThis : ScopeAgrees [("this", .ready)] (.this, []) := by
  refine ⟨fun x hx _ => ?_, ?_, ?_⟩ <;> simp [Context.declares, *]

theorem ScopeAgrees.forSuper : ScopeAgrees [("super", .ready)] (.super, []) := by
  refine ⟨fun x _ hx => ?_, ?_, ?_⟩ <;> simp [Context.declares, *]

theorem ScopeAgrees.declare {scope scope' : Declared} {s : ScopeSort × List String}
    (h : ScopeAgrees scope s) {x : Token} (hx : x.IsName)
    (hs : ∀ y, Context.declares scope' y = true ↔
      y = x.lexeme ∨ Context.declares scope y = true) :
    ScopeAgrees scope' (s.1, x.lexeme :: s.2) where
  names y this super := by rw [hs, h.names y this super, List.mem_cons]
  this := by rw [hs, h.this, or_iff_right hx.not_this.symm]
  super := by rw [hs, h.super, or_iff_right hx.not_super.symm]

/-- Resolution finds the first scope with the name, which is the first one with what the name means
there. -/
theorem findIdx?_agrees {scopes : List Declared} {around : Surroundings} {x : String}
    {means : ScopeSort × List String → Prop} (h : List.Forall₂ ScopeAgrees scopes around)
    (hx : ∀ {scope s}, ScopeAgrees scope s → (Context.declares scope x = true ↔ means s))
    {depth : Nat} : scopes.findIdx? (Context.declares · x) = some depth ↔
      IsFirst (around.There · means) depth := by
  induction h generalizing depth with
  | nil => exact ⟨nofun, fun first => absurd first.1 not_there_nil⟩
  | cons head _ ih =>
      rw [List.findIdx?_cons]
      cases depth with
      | zero =>
          rw [isFirst_zero, there_cons_zero, ← hx head]
          split <;> simp [*]
      | succ depth =>
          simp only [isFirst_succ, there_cons_zero, there_cons_succ, ← hx head, ← ih]
          split <;> simp [*]

/-- The context is one that the text gives. The kind of its class says what there is around, and no
point of a program is between the two scopes of a class. -/
structure Agrees (c : Context) (around : Surroundings) : Prop where
  scopes : List.Forall₂ ScopeAgrees c.scopes around
  inside : ¬around.Has 0 .super
  outside : c.classBody = .outside → ∀ depth, ¬around.Has depth .this
  root : c.classBody = .root → ∃ inner, IsFirst (around.Has · .this) inner ∧
    ¬around.Has (inner + 1) .super
  derived : c.classBody = .derived → ∃ inner, IsFirst (around.Has · .this) inner ∧
    IsFirst (around.Has · .super) (inner + 1)

namespace Agrees

variable {c c' : Context} {around : Surroundings}

theorem global : Agrees .global [] :=
  ⟨.nil, not_there_nil, fun _ _ => not_there_nil, nofun, nofun⟩

theorem withBody (h : Agrees c around) (kind : Body) : Agrees { c with body := kind } around :=
  ⟨h.scopes, h.inside, h.outside, h.root, h.derived⟩

theorem enter (h : Agrees c around) : Agrees c.enter (around.pass (.enter .plain)) := by
  have skip : ∀ {sort depth}, sort ≠ .plain → IsFirst (around.Has · sort) depth →
      IsFirst (Has (around.pass (.enter .plain)) · sort) (depth + 1) := fun hs first =>
    isFirst_succ.2 ⟨fun has => hs (there_cons_zero.1 has).symm, first⟩
  refine ⟨.cons .plain h.scopes, nofun, fun hc depth => ?_, fun hc => ?_, fun hc => ?_⟩
  · cases depth with
    | zero => exact nofun
    | succ depth => exact h.outside hc depth
  · obtain ⟨inner, this, super⟩ := h.root hc
    exact ⟨inner + 1, skip nofun this, super⟩
  · obtain ⟨inner, this, super⟩ := h.derived hc
    exact ⟨inner + 1, skip nofun this, skip nofun super⟩

/-- A declaration in the innermost scope, if there is one. -/
theorem declaring (h : Agrees c around) {x : Token} (hx : x.IsName)
    (kind : c'.classBody = c.classBody) (none : c.scopes = [] → c'.scopes = [])
    (some : ∀ {scope outer}, c.scopes = scope :: outer →
      ∃ scope', c'.scopes = scope' :: outer ∧ ∀ y, Context.declares scope' y = true ↔
        y = x.lexeme ∨ Context.declares scope y = true) :
    Agrees c' (around.pass (.declare x.lexeme)) := by
  obtain ⟨scopes, inside, outside, root, derived⟩ := h
  refine ⟨?_, ?_, ?_, ?_, ?_⟩
  · generalize hs : c.scopes = scopes' at scopes
    cases scopes with
    | nil =>
        rw [none hs]
        exact .nil
    | cons head tail =>
        obtain ⟨scope', heq, hd⟩ := some hs
        rw [heq]
        exact .cons (head.declare hx hd) tail
  all_goals simpa only [has_declare, kind]

theorem declare (h : Agrees c around) {x : Token} (hx : x.IsName) :
    Agrees (c.declare x.lexeme) (around.pass (.declare x.lexeme)) := by
  refine h.declaring hx (Context.declare_kinds c _).2 (fun hs => ?_) fun {scope outer} hs => ?_
  · unfold Context.declare
    rw [hs]
    exact hs
  · unfold Context.declare
    rw [hs]
    by_cases hd : Context.declares scope x.lexeme = true
    · refine ⟨scope, by simp [hd, hs], fun y => ⟨.inr, ?_⟩⟩
      rintro (rfl | h)
      · exact hd
      · exact h
    · refine ⟨(x.lexeme, .pending) :: scope, by simp [hd], fun y => ?_⟩
      unfold Context.declares
      rw [List.lookup_cons]
      split <;> simp_all

theorem introduce (h : Agrees c around) {x : Token} (hx : x.IsName) :
    Agrees (c.introduce x.lexeme) (around.pass (.declare x.lexeme)) := by
  refine h.declaring hx (Context.introduce_kinds c _).2 (fun hs => ?_) fun {scope outer} hs => ?_
  · rw [Context.introduce_of_nil hs, hs]
  · obtain ⟨scope', heq, hl⟩ := Context.introduce_scopes hs x.lexeme
    refine ⟨scope', heq, fun y => ?_⟩
    unfold Context.declares
    rw [hl]
    split <;> simp_all

theorem introduceAll {ps : List Token} (hp : ∀ p ∈ ps, p.IsName) (h : Agrees c around) :
    Agrees (ps.foldl (fun c p => c.introduce p.lexeme) c)
      (around.passAll (ps.map fun p => .declare p.lexeme)) := by
  induction ps generalizing c around with
  | nil => exact h
  | cons p ps ih =>
      obtain ⟨hx, hp⟩ := List.forall_mem_cons.1 hp
      exact ih hp (h.introduce hx)

theorem inFunction (h : Agrees c around) (kind : Body) {ps : List Token}
    (hp : ∀ p ∈ ps, p.IsName) : Agrees (c.inFunction kind ps)
      ((around.pass (.enter .plain)).passAll (ps.map fun p => .declare p.lexeme)) :=
  introduceAll hp (h.enter.withBody kind)

theorem inRoot (h : Agrees c around) :
    Agrees (c.inMethods false) (around.pass (.enter .this)) :=
  ⟨.cons .forThis h.scopes, nofun, nofun, fun _ => ⟨0, isFirst_zero.2 (there_cons_zero.2 rfl),
    h.inside⟩, nofun⟩

theorem inDerived (h : Agrees c around) :
    Agrees (c.inMethods true) ((around.pass (.enter .super)).pass (.enter .this)) := by
  refine ⟨.cons .forThis (.cons .forSuper h.scopes), nofun, nofun, nofun, fun _ => ⟨0, ?_, ?_⟩⟩
  · exact isFirst_zero.2 (there_cons_zero.2 rfl)
  · exact isFirst_succ.2 ⟨nofun, isFirst_zero.2 ⟨_, rfl, rfl⟩⟩

/-! ### What is found there -/

/-- What resolution finds for a name is what the text says. -/
theorem depthOf?_iff (h : List.Forall₂ ScopeAgrees c.scopes around) {x : Token} (hx : x.IsName)
    {depth : Nat} :
    c.depthOf? x.lexeme = some depth ↔ IsFirst (around.Knows · x.lexeme) depth :=
  findIdx?_agrees h fun agrees => agrees.names _ hx.not_this hx.not_super

theorem fits_name (h : List.Forall₂ ScopeAgrees c.scopes around) {x : Token} (hx : x.IsName) :
    around.Fits ⟨.name, x, c.annotated none x⟩ := fun _ => depthOf?_iff h hx

theorem fits_assign (h : List.Forall₂ ScopeAgrees c.scopes around) {x : Token} (hx : x.IsName) :
    around.Fits ⟨.assign, x, c.annotated none x⟩ := fun _ => depthOf?_iff h hx

theorem fits_this (h : Agrees c around) {keyword : Token} (hk : keyword.lexeme = "this") :
    around.Fits ⟨.this, keyword, c.annotatedThis none keyword⟩ := by
  intro depth
  unfold Context.annotatedThis
  split
  · next hc => exact ⟨nofun, fun first => absurd first.1 (h.outside hc depth)⟩
  · unfold Context.annotated
    rw [hk]
    exact findIdx?_agrees h.scopes (·.this)

theorem fits_super (h : Agrees c around) {keyword : Token} (hk : keyword.lexeme = "super") :
    around.Fits ⟨.super, keyword, c.annotatedSuper none keyword⟩ := by
  intro depth
  have found : c.depthOf? "super" = some depth ↔ IsFirst (around.Has · .super) depth :=
    findIdx?_agrees h.scopes (·.super)
  unfold Context.annotatedSuper Context.annotated
  rw [hk]
  cases hc : c.classBody with
  | outside =>
      refine ⟨nofun, ?_⟩
      rintro ⟨inner, this, -⟩
      exact absurd this.1 (h.outside hc inner)
  | root =>
      obtain ⟨inner, this, super⟩ := h.root hc
      refine ⟨nofun, ?_⟩
      rintro ⟨_, this', rfl, super'⟩
      exact absurd super' (this.unique this' ▸ super)
  | derived =>
      obtain ⟨inner, this, super⟩ := h.derived hc
      refine found.trans ⟨fun first => ?_, ?_⟩
      · obtain rfl := super.unique first
        exact ⟨inner, this, rfl, first.1⟩
      · rintro ⟨_, this', rfl, -⟩
        exact this.unique this' ▸ super

end Agrees

/-! ## Trees -/

mutual

theorem Expr.annotate_fits {c : Context} {around : Surroundings} (h : Agrees c around) :
    ∀ {e : Expr}, e.Formed → ∀ o ∈ (e.annotate c).occurrences, around.Fits o
  | .literal _, _ => nofun
  | .group inner, formed => Expr.annotate_fits h (e := inner) formed
  | .unary _ operand, formed => Expr.annotate_fits h (e := operand) formed
  | .get object _, formed => Expr.annotate_fits h (e := object) formed
  | .binary _ _ _, formed | .logical _ _ _, formed | .set _ _ _, formed =>
      List.forall_mem_append.2 ⟨Expr.annotate_fits h formed.1, Expr.annotate_fits h formed.2⟩
  | .name _ _, ⟨hx, rfl⟩ => List.forall_mem_singleton.2 (Agrees.fits_name h.scopes hx)
  | .assign _ _ _, ⟨hx, rfl, value⟩ =>
      List.forall_mem_cons.2 ⟨Agrees.fits_assign h.scopes hx, Expr.annotate_fits h value⟩
  | .call _ _ _, formed =>
      List.forall_mem_append.2 ⟨Expr.annotate_fits h formed.1, Expr.annotateAll_fits h formed.2⟩
  | .this _ _, ⟨hk, rfl⟩ => List.forall_mem_singleton.2 (h.fits_this hk)
  | .super _ _ _, ⟨hk, rfl⟩ => List.forall_mem_singleton.2 (h.fits_super hk)

theorem Expr.annotateAll_fits {c : Context} {around : Surroundings} (h : Agrees c around) :
    ∀ {es : List Expr}, Expr.FormedAll es →
      ∀ o ∈ Expr.occurrencesAll (Expr.annotateAll c es), around.Fits o
  | [], _ => nofun
  | _ :: _, formed =>
      List.forall_mem_append.2 ⟨Expr.annotate_fits h formed.1, Expr.annotateAll_fits h formed.2⟩

end

theorem Expr.annotateOpt_fits {c : Context} {around : Surroundings} (h : Agrees c around)
    {e : Option Expr} (formed : Expr.FormedOpt e) :
    around.Resolved (Expr.outlineOpt (e.map (·.annotate c))) := by
  refine resolved_occurrences.2 ?_
  cases e with
  | none => exact nofun
  | some e => exact Expr.annotate_fits h (formed e rfl)

theorem resolved_declares {around : Surroundings} (xs : List Token) :
    around.Resolved (xs.map fun x => .declare x.lexeme) := by
  induction xs generalizing around with
  | nil => exact trivial
  | cons x xs ih => exact ⟨nofun, ih⟩

theorem resolved_enclosed {around : Surroundings} {sort : ScopeSort} {marks : List Landmark} :
    around.Resolved (.enter sort :: (marks ++ [.leave])) ↔
      (around.pass (.enter sort)).Resolved marks := by
  simp [Resolved, resolved_append]

/-- From wherever the first context is, the landmarks lead to where the second is, and all
occurrences among them have the right depths. -/
def Passes (c : Context) (marks : List Landmark) (c' : Context) : Prop :=
  ∀ around, Agrees c around → around.Resolved marks ∧ Agrees c' (around.passAll marks)

namespace Passes

variable {c c' c'' : Context} {marks others : List Landmark}

theorem nil : Passes c [] c := fun _ agrees => ⟨trivial, agrees⟩

theorem append (h : Passes c marks c') (h' : Passes c' others c'') :
    Passes c (marks ++ others) c'' := by
  intro around agrees
  obtain ⟨resolved, agrees⟩ := h around agrees
  rw [resolved_append, passAll_append]
  exact ⟨⟨resolved, (h' _ agrees).1⟩, (h' _ agrees).2⟩

theorem introduce {x : Token} (hx : x.IsName) (h : Passes (c.introduce x.lexeme) marks c') :
    Passes c (.declare x.lexeme :: marks) c' := by
  intro around agrees
  obtain ⟨resolved, agrees⟩ := h _ (agrees.introduce hx)
  exact ⟨⟨nofun, resolved⟩, agrees⟩

/-- What leaves the scopes as they are leaves the context as it is. -/
theorem stays (still : Still marks)
    (h : ∀ {around : Surroundings}, Agrees c around → around.Resolved marks) :
    Passes c marks c := by
  intro around agrees
  refine ⟨h agrees, ?_⟩
  rw [still]
  exact agrees

theorem expression {e : Expr} (formed : e.Formed) : Passes c (e.annotate c).outline c :=
  stays (Expr.outline_still _) fun agrees =>
    resolved_occurrences.2 (Expr.annotate_fits agrees formed)

end Passes

mutual

theorem Stmt.annotate_passes (c : Context) : ∀ {s : Stmt}, s.Formed →
    Passes c (s.annotate c).outline (s.after c)
  | .expr _, formed | .print _, formed => Passes.expression (by exact formed)
  | .returning _ _, formed =>
      .stays (Expr.outlineOpt_still _) fun agrees => Expr.annotateOpt_fits agrees formed
  | .var name initial, ⟨hx, formed⟩ => by
      intro around agrees
      refine ⟨⟨nofun, Expr.annotateOpt_fits (agrees.declare hx) formed⟩, ?_⟩
      rw [Stmt.annotate, Stmt.outline, passAll_cons, Expr.outlineOpt_still]
      exact agrees.introduce hx
  | .block body, formed =>
      .stays ((Stmt.outlineAll_balanced _).enclosed _) fun agrees =>
        resolved_enclosed.2 (Stmt.annotateAll_passes c.enter formed _ agrees.enter).1
  | .ifThen _ _, ⟨condition, consequent, _⟩ | .whileDo _ _, ⟨condition, consequent, _⟩ =>
      (Passes.expression condition).append (Stmt.annotate_passes c consequent)
  | .ifElse _ _ _, ⟨condition, ⟨consequent, _⟩, alternative, _⟩ =>
      ((Passes.expression condition).append (Stmt.annotate_passes c consequent)).append
        (Stmt.annotate_passes _ alternative)
  | .function ⟨_, _, _⟩, formed =>
      .introduce formed.1 (FunctionDecl.annotate_passes .function _ formed)
  | .classDecl name none methods, ⟨hx, _, formed⟩ => by
      refine .introduce hx (.append .nil (.stays ?_ fun agrees => ?_))
      · exact (FunctionDecl.outlineAll_still _).balanced.enclosed _
      · exact resolved_enclosed.2 (FunctionDecl.annotateMethods_passes _ formed _ agrees.inRoot).1
  | .classDecl name (some superclass) methods, ⟨hx, named, formed⟩ => by
      obtain ⟨x, rfl, hs⟩ := named superclass rfl
      have body (c : Context) :=
        (FunctionDecl.outlineAll_still (FunctionDecl.annotateMethods c methods)).balanced.enclosed .this
      refine .introduce hx (.append (.stays (Expr.outlineOpt_still _) fun agrees => ?_)
        (.stays ((body _).balanced.enclosed _) fun agrees => ?_))
      · exact resolved_occurrences.2
          (List.forall_mem_singleton.2 (Agrees.fits_name agrees.scopes hs))
      · exact resolved_enclosed.2 (resolved_enclosed.2
          (FunctionDecl.annotateMethods_passes _ formed _ agrees.inDerived).1)

theorem Stmt.annotateAll_passes (c : Context) : ∀ {ss : List Stmt}, Stmt.FormedAll ss →
    Passes c (Stmt.outlineAll (Stmt.annotateAll c ss)) (ss.foldl Stmt.after c)
  | [], _ => .nil
  | s :: _, ⟨first, others⟩ => (Stmt.annotate_passes c first).append
      (Stmt.annotateAll_passes (s.after c) others)

theorem FunctionDecl.annotate_passes (kind : Body) (c : Context) : ∀ {f : FunctionDecl}, f.Formed →
    Passes c (f.annotate kind c).outline c
  | ⟨_, parameters, body⟩, ⟨_, hp, formed⟩ => by
      refine .stays (FunctionDecl.outline_still _) fun agrees => resolved_enclosed.2 ?_
      exact resolved_append.2 ⟨resolved_declares _,
        (Stmt.annotateAll_passes _ formed _ (agrees.inFunction kind hp)).1⟩

theorem FunctionDecl.annotateMethods_passes (c : Context) : ∀ {fs : List FunctionDecl},
    FunctionDecl.FormedAll fs →
    Passes c (FunctionDecl.outlineAll (FunctionDecl.annotateMethods c fs)) c
  | [], _ => .nil
  | f :: _, ⟨first, others⟩ => (FunctionDecl.annotate_passes f.methodBody c first).append
      (FunctionDecl.annotateMethods_passes c others)

end

/-! ## Nothing but depths -/

mutual

theorem Expr.plain_annotate (c : Context) : ∀ {e : Expr}, e.Formed → (e.annotate c).plain = e
  | .literal _, _ => rfl
  | .group inner, formed => congrArg Expr.group (Expr.plain_annotate c (e := inner) formed)
  | .unary _ operand, formed =>
      congrArg (Expr.unary _) (Expr.plain_annotate c (e := operand) formed)
  | .get object _, formed =>
      congrArg (Expr.get · _) (Expr.plain_annotate c (e := object) formed)
  | .binary _ operator _, formed =>
      congrArg₂ (Expr.binary · operator) (Expr.plain_annotate c formed.1)
        (Expr.plain_annotate c formed.2)
  | .logical _ operator _, formed =>
      congrArg₂ (Expr.logical · operator) (Expr.plain_annotate c formed.1)
        (Expr.plain_annotate c formed.2)
  | .set _ property _, formed =>
      congrArg₂ (Expr.set · property) (Expr.plain_annotate c formed.1)
        (Expr.plain_annotate c formed.2)
  | .call _ paren _, formed =>
      congrArg₂ (Expr.call · paren) (Expr.plain_annotate c formed.1)
        (Expr.plain_annotateAll c formed.2)
  | .assign x _ _, ⟨_, rfl, value⟩ => congrArg (Expr.assign x none) (Expr.plain_annotate c value)
  | .name _ _, ⟨_, rfl⟩ | .this _ _, ⟨_, rfl⟩ | .super _ _ _, ⟨_, rfl⟩ => rfl

theorem Expr.plain_annotateAll (c : Context) : ∀ {es : List Expr}, Expr.FormedAll es →
    Expr.mapAllSlots (fun _ => none) (Expr.annotateAll c es) = es
  | [], _ => rfl
  | _ :: _, formed => congrArg₂ List.cons (Expr.plain_annotate c formed.1)
      (Expr.plain_annotateAll c formed.2)

end

theorem Expr.plain_annotateOpt (c : Context) {e : Option Expr} (formed : Expr.FormedOpt e) :
    (e.map (·.annotate c)).map Expr.plain = e := by
  cases e with
  | none => rfl
  | some e => exact congrArg some (Expr.plain_annotate c (formed e rfl))

mutual

theorem Stmt.plain_annotate (c : Context) : ∀ {s : Stmt}, s.Formed →
    (s.annotate c).mapSlots (fun _ => none) = s
  | .expr value, formed => congrArg Stmt.expr (Expr.plain_annotate c (e := value) formed)
  | .print value, formed => congrArg Stmt.print (Expr.plain_annotate c (e := value) formed)
  | .var name _, formed => congrArg (Stmt.var name) (Expr.plain_annotateOpt _ formed.2)
  | .returning keyword value, formed =>
      congrArg (Stmt.returning keyword) (Expr.plain_annotateOpt c (e := value) formed)
  | .block _, formed => congrArg Stmt.block (Stmt.plain_annotateAll _ (by exact formed))
  | .ifThen _ _, ⟨condition, consequent, _⟩ =>
      congrArg₂ Stmt.ifThen (Expr.plain_annotate c condition) (Stmt.plain_annotate c consequent)
  | .whileDo _ _, ⟨condition, body, _⟩ =>
      congrArg₂ Stmt.whileDo (Expr.plain_annotate c condition) (Stmt.plain_annotate c body)
  | .ifElse _ _ _, ⟨condition, ⟨consequent, _⟩, alternative, _⟩ => by
      rw [Stmt.annotate, Stmt.mapSlots, ← Expr.plain, Expr.plain_annotate c condition,
        Stmt.plain_annotate c consequent, Stmt.plain_annotate _ alternative]
  | .function f, formed =>
      congrArg Stmt.function (FunctionDecl.plain_annotate .function _ (f := f) formed)
  | .classDecl name _ _, ⟨_, named, formed⟩ => by
      refine congrArg₂ (Stmt.classDecl name) (Expr.plain_annotateOpt _ fun e he => ?_)
        (FunctionDecl.plain_annotateMethods _ formed)
      obtain ⟨x, rfl, hx⟩ := named e he
      exact ⟨hx, rfl⟩

theorem Stmt.plain_annotateAll (c : Context) : ∀ {ss : List Stmt}, Stmt.FormedAll ss →
    Stmt.allPlain (Stmt.annotateAll c ss) = ss
  | [], _ => rfl
  | _ :: _, formed => congrArg₂ List.cons (Stmt.plain_annotate c formed.1)
      (Stmt.plain_annotateAll _ formed.2)

theorem FunctionDecl.plain_annotate (kind : Body) (c : Context) : ∀ {f : FunctionDecl}, f.Formed →
    (f.annotate kind c).mapSlots (fun _ => none) = f
  | ⟨name, parameters, _⟩, ⟨_, _, formed⟩ =>
      congrArg (FunctionDecl.mk name parameters) (Stmt.plain_annotateAll _ formed)

theorem FunctionDecl.plain_annotateMethods (c : Context) : ∀ {fs : List FunctionDecl},
    FunctionDecl.FormedAll fs →
    FunctionDecl.mapAllSlots (fun _ => none) (FunctionDecl.annotateMethods c fs) = fs
  | [], _ => rfl
  | _ :: _, formed => congrArg₂ List.cons (FunctionDecl.plain_annotate _ c formed.1)
      (FunctionDecl.plain_annotateMethods c formed.2)

end

/-! ## Programs -/

/-- Of every program that is read, with errors or without, resolution gives the same tree with the
depths in it that the text says. -/
theorem resolve_lexicalDepths {ts : List Token} (h : Derivation.Spelled ts) :
    LexicalDepths (Stmt.outlineAll (Stmt.resolve (Grammar.program ts).1)) ∧
      Stmt.allPlain (Stmt.resolve (Grammar.program ts).1) = (Grammar.program ts).1 := by
  have formed := Grammar.program_formedAll h
  exact ⟨(Stmt.annotateAll_passes .global formed [] .global).1.lexicalDepths,
    Stmt.plain_annotateAll .global formed⟩

/-- `for (var i;;) for (var j;;) print i;` -/
def nestedLoops : List Token :=
  [⟨.symbol .forWord, "for", 1⟩, ⟨.symbol .leftParen, "(", 1⟩, ⟨.symbol .varWord, "var", 1⟩,
    ⟨.identifier, "i", 1⟩, ⟨.symbol .semicolon, ";", 1⟩, ⟨.symbol .semicolon, ";", 1⟩,
    ⟨.symbol .rightParen, ")", 1⟩,
    ⟨.symbol .forWord, "for", 1⟩, ⟨.symbol .leftParen, "(", 1⟩, ⟨.symbol .varWord, "var", 1⟩,
    ⟨.identifier, "j", 1⟩, ⟨.symbol .semicolon, ";", 1⟩, ⟨.symbol .semicolon, ";", 1⟩,
    ⟨.symbol .rightParen, ")", 1⟩,
    ⟨.symbol .printWord, "print", 1⟩, ⟨.identifier, "i", 1⟩, ⟨.symbol .semicolon, ";", 1⟩,
    .endOn 1]

/-- The variable of the outer loop is one scope out. -/
theorem nestedLoops_depths :
    Derivation.Spelled nestedLoops ∧
      Distance [.enter .plain, .declare "i", .enter .plain, .declare "j"]
        ⟨.name, ⟨.identifier, "i", 1⟩, some 1⟩ 1 := by
  have spelled : Derivation.Spelled nestedLoops := by
    simp [Derivation.Spelled, Token.Spelled, nestedLoops, Token.endOn, Symbol.spelling]
    decide
  obtain ⟨depths, -⟩ := resolve_lexicalDepths spelled
  have read : (Grammar.program nestedLoops).1 =
      [.block [.var ⟨.identifier, "i", 1⟩ none, .whileDo (.literal (.bool true))
        (.block [.var ⟨.identifier, "j", 1⟩ none, .whileDo (.literal (.bool true))
          (.print (.name ⟨.identifier, "i", 1⟩ none))])]] := by cbv
  have outline : Stmt.outlineAll (Stmt.resolve (Grammar.program nestedLoops).1) =
      [.enter .plain, .declare "i", .enter .plain, .declare "j",
        .occur ⟨.name, ⟨.identifier, "i", 1⟩, some 1⟩, .leave, .leave] := by
    rw [read]
    rfl
  exact ⟨spelled, ((depths _ _ [.leave, .leave] outline).1 1).1 rfl⟩

end LoxLang
