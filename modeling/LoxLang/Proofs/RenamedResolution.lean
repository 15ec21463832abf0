import LoxLang.Proofs.Recording
import LoxLang.Proofs.RenamedScopes

/-!
# Resolving a renamed program

A renamed tree without its depths is resolved in contexts in which the marked
scopes declare `y` where they declared `x`. There a name that may be renamed
leads as far out as before: the scopes in front of the one it leads to declare
it neither under the old name nor under the new one.
-/

namespace LoxLang

section Renaming

variable (x y : String)

/-- A scope that declares `y` instead of `x` if it is marked. -/
def Declared.rename (marked : Bool) (scope : Declared) : Declared :=
  scope.map fun (z, r) => (renamedName x y marked z, r)

/-- A context in which the marked scopes declare `y` instead of `x`. -/
def Context.rename (marks : Marks) (c : Context) : Context :=
  { c with scopes := c.scopes.mapIdx fun depth => Declared.rename x y (marks depth) }

variable {x y}

/-! ## Names -/

/-- What is found one scope further out is marked there. -/
theorem Marks.leads_map_succ (marks : Marks) (found : Option Nat) :
    marks.leads (found.map (· + 1)) = Marks.leads (fun depth => marks (depth + 1)) found := by
  cases found <;> rfl

theorem Token.renamed_lexeme (marked : Bool) (t : Token) :
    (t.renamed x y marked).lexeme = renamedName x y marked t.lexeme := rfl

/-! ## Lookups in renamed scopes -/

section Scopes

variable {scope : Declared} {z : String}

theorem lookup_cons_none {w : String} {r : Readiness}
    (h : List.lookup z ((w, r) :: scope) = none) : w ≠ z ∧ scope.lookup z = none := by
  rw [List.lookup_cons] at h
  split at h
  · cases h
  · next hne => exact ⟨fun heq => beq_eq_false_iff_ne.1 hne heq.symm, h⟩

theorem lookup_rename (hy : scope.lookup y = none) (hz : z ≠ y) (marked : Bool) :
    (Declared.rename x y marked scope).lookup (renamedName x y marked z) = scope.lookup z := by
  induction scope with
  | nil => rfl
  | cons entry scope ih =>
      obtain ⟨w, r⟩ := entry
      obtain ⟨hw, hy⟩ := lookup_cons_none hy
      rw [Declared.rename, List.map_cons, List.lookup_cons, List.lookup_cons]
      by_cases same : z = w
      · subst same
        simp
      · rw [beq_false_of_ne same, beq_false_of_ne (renamedName_ne hz hw same)]
        exact ih hy

/-- What a scope does not declare it declares under no name that it may have elsewhere. -/
theorem lookup_rename_none (hy : scope.lookup y = none) (hz : z ≠ y)
    (h : scope.lookup z = none) (marked marked' : Bool) :
    (Declared.rename x y marked scope).lookup (renamedName x y marked' z) = none := by
  induction scope with
  | nil => rfl
  | cons entry scope ih =>
      obtain ⟨w, r⟩ := entry
      obtain ⟨hw, hy⟩ := lookup_cons_none hy
      obtain ⟨other, h⟩ := lookup_cons_none h
      rw [Declared.rename, List.map_cons, List.lookup_cons,
        beq_false_of_ne (renamedName_ne hz hw other.symm)]
      exact ih hy h

end Scopes

/-! ## Renamed contexts -/

namespace Context

variable {c : Context} {marks : Marks} {z : String}

theorem rename_scopes_cons {scope : Declared} {outer : List Declared}
    (h : c.scopes = scope :: outer) : (c.rename x y marks).scopes =
      Declared.rename x y (marks 0) scope ::
        outer.mapIdx fun depth => Declared.rename x y (marks (depth + 1)) := by
  rw [rename, h, List.mapIdx_cons]

theorem findIdx?_rename {scopes : List Declared} (misses : Misses scopes y) (hz : z ≠ y)
    (marks : Marks) :
    (scopes.mapIdx fun depth => Declared.rename x y (marks depth)).findIdx?
        (declares · (renamedName x y (marks.leads (scopes.findIdx? (declares · z))) z)) =
      scopes.findIdx? (declares · z) := by
  induction scopes generalizing marks with
  | nil => rfl
  | cons scope outer ih =>
      obtain ⟨hy, misses⟩ := misses_cons.1 misses
      rw [List.mapIdx_cons, List.findIdx?_cons, List.findIdx?_cons]
      by_cases here : declares scope z = true
      · rw [if_pos here]
        refine if_pos ?_
        unfold declares at here ⊢
        rw [Marks.leads, lookup_rename hy hz]
        exact here
      · have none : scope.lookup z = none := Option.not_isSome_iff_eq_none.1 here
        have missing : ¬ declares (Declared.rename x y (marks 0) scope)
            (renamedName x y (marks.leads ((outer.findIdx? (declares · z)).map (· + 1))) z) := by
          rw [declares, lookup_rename_none hy hz none]
          exact Bool.false_ne_true
        rw [if_neg here, if_neg missing]
        rw [Marks.leads_map_succ]
        exact congrArg _ (ih misses fun depth => marks (depth + 1))

/-- A name leads as far out as before. -/
theorem depthOf?_rename (misses : Misses c.scopes y) (hz : z ≠ y) (marks : Marks) :
    (c.rename x y marks).depthOf? (renamedName x y (marks.leads (c.depthOf? z)) z) =
      c.depthOf? z := findIdx?_rename misses hz marks

theorem isPending_rename (misses : Misses c.scopes y) (hz : z ≠ y) (marks : Marks) :
    (c.rename x y marks).isPending (renamedName x y (marks.leads (c.depthOf? z)) z) =
      c.isPending z := by
  cases hs : c.scopes with
  | nil =>
      unfold isPending
      rw [rename, hs]
      rfl
  | cons scope outer =>
      rw [hs] at misses
      have hy := (misses_cons.1 misses).1
      unfold isPending
      rw [rename_scopes_cons hs, hs]
      dsimp only
      by_cases here : declares scope z = true
      · have depth : c.depthOf? z = some 0 := by
          rw [depthOf?, hs, List.findIdx?_cons, if_pos here]
        rw [depth, Marks.leads, lookup_rename hy hz]
      · have none : scope.lookup z = none := Option.not_isSome_iff_eq_none.1 here
        rw [lookup_rename_none hy hz none, none]

theorem declaresHere_rename (misses : Misses c.scopes y) (hz : z ≠ y) (marks : Marks) :
    (c.rename x y marks).declaresHere (renamedName x y (marks 0) z) = c.declaresHere z := by
  cases hs : c.scopes with
  | nil =>
      unfold declaresHere
      rw [rename, hs]
      rfl
  | cons scope outer =>
      rw [hs] at misses
      unfold declaresHere
      rw [rename_scopes_cons hs, hs]
      dsimp only
      rw [declares, declares, lookup_rename (misses_cons.1 misses).1 hz]

theorem misses_enter (misses : Misses c.scopes y) : Misses c.enter.scopes y :=
  misses_cons.2 ⟨rfl, misses⟩

theorem misses_introduce (misses : Misses c.scopes y) (hz : z ≠ y) :
    Misses (c.introduce z).scopes y := by
  cases hs : c.scopes with
  | nil => rwa [introduce_of_nil hs]
  | cons scope outer =>
      rw [hs] at misses
      obtain ⟨hy, misses⟩ := misses_cons.1 misses
      obtain ⟨scope', heq, hl⟩ := introduce_scopes hs z
      rw [heq]
      refine misses_cons.2 ⟨?_, misses⟩
      rw [hl, if_neg hz.symm, hy]

theorem misses_declare (misses : Misses c.scopes y) (hz : z ≠ y) :
    Misses (c.declare z).scopes y := by
  unfold declare
  cases hs : c.scopes with
  | nil =>
      exact misses
  | cons scope outer =>
      dsimp only
      split
      · exact misses
      · rw [hs] at misses
        obtain ⟨hy, misses⟩ := misses_cons.1 misses
        refine misses_cons.2 ⟨?_, misses⟩
        rw [List.lookup_cons, beq_false_of_ne hz.symm]
        exact hy

theorem misses_inFunction (misses : Misses c.scopes y) {ps : List Token} (lack : Lack y ps)
    (kind : Body) : Misses (c.inFunction kind ps).scopes y := by
  have stays : ∀ {c : Context}, Misses c.scopes y →
      Misses (ps.foldl (fun c p => c.introduce p.lexeme) c).scopes y := by
    induction ps with
    | nil => exact id
    | cons p ps ih =>
        obtain ⟨name, lack⟩ := List.forall_mem_cons.1 lack
        exact fun misses => ih lack (misses_introduce misses name)
  exact stays (misses_enter misses)

theorem misses_inMethods (misses : Misses c.scopes y) (names : Renamable x y)
    (hasSuperclass : Bool) : Misses (c.inMethods hasSuperclass).scopes y := by
  have single : ∀ {z : String}, y ≠ z → List.lookup y [(z, Readiness.ready)] = none := by
    intro z other
    rw [List.lookup_cons, beq_false_of_ne other]
    rfl
  rw [inMethods_scopes]
  refine misses_cons.2 ⟨single names.new_this, ?_⟩
  cases hasSuperclass with
  | false => exact misses
  | true => exact misses_cons.2 ⟨single names.new_super, misses⟩

theorem enter_rename (marks : Marks) (marked : Bool) :
    c.enter.rename x y (marks.push marked) = (c.rename x y marks).enter := by
  rw [rename, enter, List.mapIdx_cons]
  rfl

theorem declare_rename (misses : Misses c.scopes y) (hz : z ≠ y) (marks : Marks) :
    (c.declare z).rename x y marks =
      (c.rename x y marks).declare (renamedName x y (marks 0) z) := by
  have here := declaresHere_rename (x := x) misses hz marks
  unfold declaresHere at here
  unfold declare
  cases hs : c.scopes with
  | nil =>
      rw [rename, hs]
      rfl
  | cons scope outer =>
      rw [hs, rename_scopes_cons hs] at here
      rw [rename_scopes_cons hs]
      dsimp only at here ⊢
      rw [here]
      split
      · rfl
      · rw [rename, List.mapIdx_cons]
        rfl

theorem define_rename (marks : Marks) :
    (c.define z).rename x y marks =
      (c.rename x y marks).define (renamedName x y (marks 0) z) := by
  unfold define
  cases hs : c.scopes with
  | nil =>
      rw [rename, hs]
      rfl
  | cons scope outer =>
      rw [rename_scopes_cons hs]
      dsimp only
      rw [rename, List.mapIdx_cons]
      rfl

theorem introduce_rename (misses : Misses c.scopes y) (hz : z ≠ y) (marks : Marks) :
    (c.introduce z).rename x y marks =
      (c.rename x y marks).introduce (renamedName x y (marks 0) z) := by
  rw [introduce, define_rename, declare_rename misses hz, introduce]

theorem enter_body_rename (marks : Marks) (marked : Bool) (kind : Body) :
    Context.rename x y (marks.push marked) { c.enter with body := kind } =
      { (c.rename x y marks).enter with body := kind } := by
  rw [rename, enter, List.mapIdx_cons]
  rfl

theorem inMethods_rename (marks : Marks) (hasSuperclass : Bool) :
    (c.inMethods hasSuperclass).rename x y (marks.inMethods hasSuperclass) =
      (c.rename x y marks).inMethods hasSuperclass := by
  cases hasSuperclass with
  | false =>
      rw [rename, inMethods_scopes, List.mapIdx_cons]
      rfl
  | true =>
      rw [rename, inMethods_scopes, aroundMethods_scopes, List.mapIdx_cons, List.mapIdx_cons]
      rfl

theorem introduceAll_rename (misses : Misses c.scopes y) {ps : List Token} (lack : Lack y ps)
    (marks : Marks) :
    (ps.foldl (fun c p => c.introduce p.lexeme) c).rename x y marks =
      (ps.map (·.renamed x y (marks 0))).foldl (fun c p => c.introduce p.lexeme)
        (c.rename x y marks) := by
  induction ps generalizing c with
  | nil => rfl
  | cons p ps ih =>
      obtain ⟨name, lack⟩ := List.forall_mem_cons.1 lack
      rw [List.foldl_cons, ih (misses_introduce misses name) lack, introduce_rename misses name,
        ← Token.renamed_lexeme]
      rfl

theorem inFunction_rename (misses : Misses c.scopes y) {ps : List Token}
    (lack : Lack y ps) (kind : Body) (marks : Marks) (marked : Bool) :
    (c.inFunction kind ps).rename x y (marks.push marked) =
      (c.rename x y marks).inFunction kind (ps.map (·.renamed x y marked)) := by
  have inner : Misses { c.enter with body := kind }.scopes y := misses_enter misses
  refine (introduceAll_rename inner lack (marks.push marked)).trans ?_
  rw [enter_body_rename]
  rfl

theorem redeclaration_rename (misses : Misses c.scopes y) {t : Token} (name : t.lexeme ≠ y)
    (marks : Marks) (clean : c.redeclaration t = []) :
    (c.rename x y marks).redeclaration (t.renamed x y (marks 0)) = [] := by
  rw [redeclaration, Token.renamed_lexeme, declaresHere_rename misses name,
    fresh_of_redeclaration clean]
  rfl

theorem parameterErrors_rename (misses : Misses c.scopes y) {ps : List Token} (lack : Lack y ps)
    (marks : Marks) (clean : c.parameterErrors ps = []) :
    (c.rename x y marks).parameterErrors (ps.map (·.renamed x y (marks 0))) = [] := by
  induction ps generalizing c with
  | nil => rfl
  | cons p ps ih =>
      obtain ⟨name, lack⟩ := List.forall_mem_cons.1 lack
      obtain ⟨first, others⟩ := List.append_eq_nil_iff.1 clean
      have rest := ih (misses_introduce misses name) lack others
      rw [introduce_rename misses name, ← Token.renamed_lexeme] at rest
      rw [List.map_cons, parameterErrors, redeclaration_rename misses name marks first, rest]
      rfl

end Context

/-! ## Expressions -/

open List (forall_mem_cons forall_mem_append)

section Expressions

variable {c : Context} {marks : Marks}

/-- A depth that is found in a renamed context is the one that was there. -/
theorem Context.annotated_rename (misses : Misses c.scopes y) {t : Token} (name : t.lexeme ≠ y) :
    (c.rename x y marks).annotated none
        (t.renamed x y (marks.leads (c.annotated none t))) = c.annotated none t := by
  rw [annotated, annotated, Token.renamed_lexeme]
  exact depthOf?_rename misses name marks

theorem Context.annotated_keyword (misses : Misses c.scopes y) (marks : Marks) {t : Token}
    (name : t.lexeme ≠ y) (other : t.lexeme ≠ x) :
    (c.rename x y marks).annotated none t = c.annotated none t := by
  have found := depthOf?_rename (x := x) misses name marks
  rwa [renamedName_of_ne fun _ => other] at found

mutual

/-- A renamed expression without its depths is resolved to what it is. -/
theorem Expr.annotate_rename (names : Renamable x y) (misses : Misses c.scopes y) : ∀ {e : Expr},
    e.Formed → Lack y e.tokens →
      (((e.annotate c).rename x y marks).mapSlots fun _ => none).annotate (c.rename x y marks) =
        (e.annotate c).rename x y marks
  | .literal _, _, _ => rfl
  | .group e, formed, lack => congrArg Expr.group (Expr.annotate_rename names misses formed lack)
  | .unary t e, formed, lack => congrArg (Expr.unary t)
      (Expr.annotate_rename names misses formed (forall_mem_cons.1 lack).2)
  | .binary l t r, ⟨fl, fr⟩, lack => by
      obtain ⟨left, right⟩ := forall_mem_append.1 lack
      exact congrArg₂ (Expr.binary · t ·) (Expr.annotate_rename names misses fl left)
        (Expr.annotate_rename names misses fr (forall_mem_cons.1 right).2)
  | .logical l t r, ⟨fl, fr⟩, lack => by
      obtain ⟨left, right⟩ := forall_mem_append.1 lack
      exact congrArg₂ (Expr.logical · t ·) (Expr.annotate_rename names misses fl left)
        (Expr.annotate_rename names misses fr (forall_mem_cons.1 right).2)
  | .name t _, ⟨_, rfl⟩, lack =>
      congrArg (Expr.name _) (Context.annotated_rename misses (lack t List.mem_cons_self))
  | .assign t _ v, ⟨_, rfl, fv⟩, lack => by
      obtain ⟨name, value⟩ := forall_mem_cons.1 lack
      exact congrArg₂ (Expr.assign _ · ·) (Context.annotated_rename misses name)
        (Expr.annotate_rename names misses fv value)
  | .call e t es, ⟨fe, fs⟩, lack => by
      obtain ⟨callee, arguments⟩ := forall_mem_append.1 lack
      exact congrArg₂ (Expr.call · t ·) (Expr.annotate_rename names misses fe callee)
        (Expr.annotateAll_rename names misses fs (forall_mem_cons.1 arguments).2)
  | .get o t, formed, lack => congrArg (Expr.get · t)
      (Expr.annotate_rename names misses formed (forall_mem_append.1 lack).1)
  | .set o t v, ⟨fo, fv⟩, lack => by
      obtain ⟨object, value⟩ := forall_mem_append.1 lack
      exact congrArg₂ (Expr.set · t ·) (Expr.annotate_rename names misses fo object)
        (Expr.annotate_rename names misses fv (forall_mem_cons.1 value).2)
  | .this t _, ⟨spelled, rfl⟩, lack => by
      have found := Context.annotated_keyword misses marks (lack t List.mem_cons_self)
        (spelled ▸ names.old_this.symm)
      refine congrArg (Expr.this t) ?_
      rw [Context.annotatedThis, Context.annotatedThis, found]
      rfl
  | .super t _ m, ⟨spelled, rfl⟩, lack => by
      have found := Context.annotated_keyword misses marks (lack t List.mem_cons_self)
        (spelled ▸ names.old_super.symm)
      refine congrArg (Expr.super t · m) ?_
      rw [Context.annotatedSuper, Context.annotatedSuper, found]
      rfl

theorem Expr.annotateAll_rename (names : Renamable x y) (misses : Misses c.scopes y) :
    ∀ {es : List Expr}, Expr.FormedAll es → Lack y (Expr.allTokens es) →
      Expr.annotateAll (c.rename x y marks) (Expr.mapAllSlots (fun _ => none)
        (Expr.renameAll x y marks (Expr.annotateAll c es))) =
        Expr.renameAll x y marks (Expr.annotateAll c es)
  | [], _, _ => rfl
  | _ :: _, formed, lack => by
      obtain ⟨head, tail⟩ := forall_mem_append.1 lack
      exact congrArg₂ (· :: ·) (Expr.annotate_rename names misses formed.1 head)
        (Expr.annotateAll_rename names misses formed.2 tail)

end

theorem Context.ownInitializerError_rename (misses : Misses c.scopes y) {t : Token}
    (name : t.lexeme ≠ y) (clean : c.ownInitializerError t = []) :
    (c.rename x y marks).ownInitializerError
        (t.renamed x y (marks.leads (c.annotated none t))) = [] := by
  unfold ownInitializerError at clean ⊢
  rw [Token.renamed_lexeme, annotated, Option.none_or, isPending_rename misses name]
  split at clean
  · cases clean
  · next ready => rw [if_neg ready]

mutual

/-- A renamed expression without its depths has no errors if the expression has none. -/
theorem Expr.errors_rename (misses : Misses c.scopes y) : ∀ {e : Expr}, e.Formed →
    Lack y e.tokens → e.errors c = [] →
      (((e.annotate c).rename x y marks).mapSlots fun _ => none).errors (c.rename x y marks) = []
  | .literal _, _, _, _ => rfl
  | .group e, formed, lack, clean => Expr.errors_rename (e := e) misses formed lack clean
  | .unary _ e, formed, lack, clean =>
      Expr.errors_rename (e := e) misses formed (forall_mem_cons.1 lack).2 clean
  | .binary _ _ _, ⟨fl, fr⟩, lack, clean => by
      obtain ⟨left, right⟩ := forall_mem_append.1 lack
      obtain ⟨cl, cr⟩ := List.append_eq_nil_iff.1 clean
      exact List.append_eq_nil_iff.2 ⟨Expr.errors_rename misses fl left cl,
        Expr.errors_rename misses fr (forall_mem_cons.1 right).2 cr⟩
  | .logical _ _ _, ⟨fl, fr⟩, lack, clean => by
      obtain ⟨left, right⟩ := forall_mem_append.1 lack
      obtain ⟨cl, cr⟩ := List.append_eq_nil_iff.1 clean
      exact List.append_eq_nil_iff.2 ⟨Expr.errors_rename misses fl left cl,
        Expr.errors_rename misses fr (forall_mem_cons.1 right).2 cr⟩
  | .name t _, ⟨_, rfl⟩, lack, clean =>
      List.append_eq_nil_iff.2 ⟨Context.ownInitializerError_rename misses
        (lack t List.mem_cons_self) (List.append_eq_nil_iff.1 clean).1, rfl⟩
  | .assign _ _ _, ⟨_, rfl, fv⟩, lack, clean =>
      List.append_eq_nil_iff.2 ⟨Expr.errors_rename misses fv (forall_mem_cons.1 lack).2
        (List.append_eq_nil_iff.1 clean).1, rfl⟩
  | .call _ _ _, ⟨fe, fs⟩, lack, clean => by
      obtain ⟨callee, arguments⟩ := forall_mem_append.1 lack
      obtain ⟨ce, cs⟩ := List.append_eq_nil_iff.1 clean
      exact List.append_eq_nil_iff.2 ⟨Expr.errors_rename misses fe callee ce,
        Expr.errorsAll_rename misses fs (forall_mem_cons.1 arguments).2 cs⟩
  | .get o _, formed, lack, clean =>
      Expr.errors_rename (e := o) misses formed (forall_mem_append.1 lack).1 clean
  | .set _ _ _, ⟨fo, fv⟩, lack, clean => by
      obtain ⟨object, value⟩ := forall_mem_append.1 lack
      obtain ⟨cv, co⟩ := List.append_eq_nil_iff.1 clean
      exact List.append_eq_nil_iff.2
        ⟨Expr.errors_rename misses fv (forall_mem_cons.1 value).2 cv,
          Expr.errors_rename misses fo object co⟩
  | .this _ _, ⟨_, rfl⟩, _, clean => clean
  | .super _ _ _, ⟨_, rfl⟩, _, clean => clean

theorem Expr.errorsAll_rename (misses : Misses c.scopes y) : ∀ {es : List Expr},
    Expr.FormedAll es → Lack y (Expr.allTokens es) → Expr.errorsAll c es = [] →
      Expr.errorsAll (c.rename x y marks) (Expr.mapAllSlots (fun _ => none)
        (Expr.renameAll x y marks (Expr.annotateAll c es))) = []
  | [], _, _, _ => rfl
  | _ :: _, formed, lack, clean => by
      obtain ⟨head, tail⟩ := forall_mem_append.1 lack
      obtain ⟨ce, cs⟩ := List.append_eq_nil_iff.1 clean
      exact List.append_eq_nil_iff.2 ⟨Expr.errors_rename misses formed.1 head ce,
        Expr.errorsAll_rename misses formed.2 tail cs⟩

end

end Expressions

/-! ## Statements -/

section Statements

variable {c : Context} {marks : Marks}

theorem FunctionDecl.name_mem_tokens (f : FunctionDecl) : f.name ∈ f.tokens := by
  cases f
  exact List.mem_cons_self

theorem FunctionDecl.name_annotate (kind : Body) (c : Context) (f : FunctionDecl) :
    (f.annotate kind c).name = f.name := by
  cases f
  rfl

theorem Context.introduce_rename_of_ne (misses : Misses c.scopes y) {t : Token}
    (name : t.lexeme ≠ y) (other : marks 0 = true → t.lexeme ≠ x) :
    (c.rename x y marks).introduce t.lexeme = (c.introduce t.lexeme).rename x y marks := by
  rw [introduce_rename misses name, renamedName_of_ne other]

theorem Context.redeclaration_rename_of_ne (misses : Misses c.scopes y) {t : Token}
    (name : t.lexeme ≠ y) (other : marks 0 = true → t.lexeme ≠ x)
    (clean : c.redeclaration t = []) : (c.rename x y marks).redeclaration t = [] := by
  have none := redeclaration_rename (x := x) misses name marks clean
  rwa [Token.renamed_of_ne other] at none

/-- A superclass with another name is not the class either. -/
theorem Token.selfInheritance_renamed {z t : Token} (hz : z.lexeme ≠ y) (ht : t.lexeme ≠ y)
    (clean : Expr.selfInheritance t (.name z none) = []) (marked : Bool) :
    Expr.selfInheritance t (.name (z.renamed x y marked) none) = [] := by
  unfold Expr.selfInheritance at clean ⊢
  dsimp only at clean ⊢
  split at clean
  · cases clean
  · next other =>
      have apart : renamedName x y marked z.lexeme ≠ renamedName x y false t.lexeme :=
        renamedName_ne hz ht fun same => other (beq_iff_eq.2 same)
      rw [renamedName_false, ← Token.renamed_lexeme] at apart
      exact if_neg fun same => apart (beq_iff_eq.1 same)

theorem Stmt.misses_after {s : Stmt} (formed : s.Formed) (misses : Misses c.scopes y)
    (lack : Lack y s.tokens) : Misses (s.after c).scopes y := by
  rw [Stmt.after_declared formed]
  cases s with
  | var t _ => exact Context.misses_introduce misses (forall_mem_cons.1 lack).1
  | function f => exact Context.misses_introduce misses (lack _ f.name_mem_tokens)
  | classDecl t _ _ => exact Context.misses_introduce misses (forall_mem_cons.1 lack).1
  | _ => exact misses

/-- A renamed expression, without its depths, is resolved to what it is, without errors. -/
structure Expr.Follows (x y : String) (marks : Marks) (c : Context) (e' : Expr) : Prop where
  resolved : (e'.mapSlots fun _ => none).annotate (c.rename x y marks) = e'
  clean : (e'.mapSlots fun _ => none).errors (c.rename x y marks) = []

theorem Expr.Renamed.follows (names : Renamable x y) (misses : Misses c.scopes y) {e e' : Expr}
    (formed : e.Formed) (lack : Lack y e.tokens) (clean : e.errors c = [])
    (h : (e.annotate c).Renamed x y marks e') : Expr.Follows x y marks c e' := by
  obtain rfl := h.eq_rename
  exact ⟨Expr.annotate_rename names misses formed lack, Expr.errors_rename misses formed lack clean⟩

/-- A renamed statement without its depths: it is resolved to what it is, without errors, and the
context behind it is the renamed one. -/
structure Stmt.Follows (x y : String) (marks : Marks) (c c' : Context) (s' : Stmt) : Prop where
  resolved : (s'.mapSlots fun _ => none).annotate (c.rename x y marks) = s'
  clean : (s'.mapSlots fun _ => none).errors (c.rename x y marks) = []
  after : (s'.mapSlots fun _ => none).after (c.rename x y marks) = c'.rename x y marks

structure Stmt.AllFollow (x y : String) (marks : Marks) (c : Context) (ss' : List Stmt) : Prop where
  resolved : Stmt.annotateAll (c.rename x y marks) (Stmt.mapAllSlots (fun _ => none) ss') = ss'
  clean : Stmt.errorsAll (c.rename x y marks) (Stmt.mapAllSlots (fun _ => none) ss') = []

structure FunctionDecl.Follows (x y : String) (marks : Marks) (kind : Body) (c : Context)
    (f' : FunctionDecl) : Prop where
  resolved : (f'.mapSlots fun _ => none).annotate kind (c.rename x y marks) = f'
  clean : (f'.mapSlots fun _ => none).errors kind (c.rename x y marks) = []

structure FunctionDecl.AllFollow (x y : String) (marks : Marks) (c : Context)
    (fs' : List FunctionDecl) : Prop where
  resolved : FunctionDecl.annotateMethods (c.rename x y marks)
    (FunctionDecl.mapAllSlots (fun _ => none) fs') = fs'
  clean : FunctionDecl.methodErrors (c.rename x y marks)
    (FunctionDecl.mapAllSlots (fun _ => none) fs') = []

mutual

theorem Stmt.Renamed.follows (names : Renamable x y) : ∀ {s : Stmt} {c : Context} {marks : Marks},
    s.Formed → s.errors c = [] → Lack y s.tokens → Misses c.scopes y →
      ∀ s', (s.annotate c).Renamed x y marks s' → Stmt.Follows x y marks c (s.after c) s'
  | .expr e, c, marks, formed, clean, lack, misses => by
      intro s' h
      cases h with
      | expr value =>
          obtain ⟨resolved, errors⟩ := value.follows names misses formed lack clean
          exact ⟨congrArg Stmt.expr resolved, errors, rfl⟩
  | .print e, c, marks, formed, clean, lack, misses => by
      intro s' h
      cases h with
      | print value =>
          obtain ⟨resolved, errors⟩ := value.follows names misses formed lack clean
          exact ⟨congrArg Stmt.print resolved, errors, rfl⟩
  | .var t none, c, marks, _, clean, lack, misses => by
      obtain ⟨name, -⟩ := forall_mem_cons.1 lack
      have fresh := Context.redeclaration_rename (x := x) misses name marks
        (List.append_eq_nil_iff.1 clean).1
      have after := Context.introduce_rename (x := x) misses name marks
      rw [← Token.renamed_lexeme] at after
      intro s' h
      cases h with
      | var _ initial =>
          cases initial
          exact ⟨rfl, List.append_eq_nil_iff.2 ⟨fresh, rfl⟩, after.symm⟩
  | .var t (some e), c, marks, ⟨_, formed⟩, clean, lack, misses => by
      obtain ⟨fresh, clean⟩ := List.append_eq_nil_iff.1 clean
      obtain ⟨name, lack⟩ := forall_mem_cons.1 lack
      have fresh := Context.redeclaration_rename (x := x) misses name marks fresh
      have after := Context.introduce_rename (x := x) misses name marks
      intro s' h
      cases h with
      | var _ initial =>
          cases initial with
          | some value =>
              obtain ⟨resolved, errors⟩ := value.follows names
                (Context.misses_declare misses name) (formed e rfl) lack clean
              rw [Context.declare_rename misses name] at resolved errors
              rw [← Token.renamed_lexeme] at after resolved errors
              exact ⟨congrArg (Stmt.var _ <| some ·) resolved,
                List.append_eq_nil_iff.2 ⟨fresh, errors⟩, after.symm⟩
  | .block ss, c, marks, formed, clean, lack, misses => by
      intro s' h
      cases h with
      | block marked body =>
          obtain ⟨resolved, errors⟩ := Stmt.AllRenamed.follow names formed clean lack
            (Context.misses_enter misses) _ body
          rw [Context.enter_rename] at resolved errors
          exact ⟨congrArg Stmt.block resolved, errors, rfl⟩
  | .ifThen e s, c, marks, ⟨fe, fs, _⟩, clean, lack, misses => by
      obtain ⟨test, consequent⟩ := forall_mem_append.1 lack
      obtain ⟨ce, cs⟩ := List.append_eq_nil_iff.1 clean
      intro s' h
      cases h with
      | ifThen he hs =>
          obtain ⟨resolved, errors⟩ := he.follows names misses fe test ce
          obtain ⟨resolved', errors', after⟩ :=
            Stmt.Renamed.follows names fs cs consequent misses _ hs
          exact ⟨congrArg₂ Stmt.ifThen resolved resolved',
            List.append_eq_nil_iff.2 ⟨errors, errors'⟩, after⟩
  | .ifElse e s o, c, marks, ⟨fe, ⟨fs, _⟩, fo, _⟩, clean, lack, misses => by
      obtain ⟨test, lack⟩ := forall_mem_append.1 lack
      obtain ⟨consequent, alternative⟩ := forall_mem_append.1 lack
      obtain ⟨clean, co⟩ := List.append_eq_nil_iff.1 clean
      obtain ⟨ce, cs⟩ := List.append_eq_nil_iff.1 clean
      intro s' h
      cases h with
      | ifElse he hs ho =>
          obtain ⟨resolved, errors⟩ := he.follows names misses fe test ce
          obtain ⟨resolved₁, errors₁, after₁⟩ :=
            Stmt.Renamed.follows names fs cs consequent misses _ hs
          -- The alternative is resolved in the context behind the consequent.
          obtain ⟨resolved₂, errors₂, after₂⟩ :=
            Stmt.Renamed.follows names fo co alternative
              (Stmt.misses_after fs misses consequent) _ ho
          rw [← after₁] at resolved₂ errors₂ after₂
          refine ⟨?_, List.append_eq_nil_iff.2
            ⟨List.append_eq_nil_iff.2 ⟨errors, errors₁⟩, errors₂⟩, after₂⟩
          rw [Stmt.mapSlots, Stmt.annotate, resolved, resolved₁, resolved₂]
  | .whileDo e s, c, marks, ⟨fe, fs, _⟩, clean, lack, misses => by
      obtain ⟨test, body⟩ := forall_mem_append.1 lack
      obtain ⟨ce, cs⟩ := List.append_eq_nil_iff.1 clean
      intro s' h
      cases h with
      | whileDo he hs =>
          obtain ⟨resolved, errors⟩ := he.follows names misses fe test ce
          obtain ⟨resolved', errors', after⟩ :=
            Stmt.Renamed.follows names fs cs body misses _ hs
          exact ⟨congrArg₂ Stmt.whileDo resolved resolved',
            List.append_eq_nil_iff.2 ⟨errors, errors'⟩, after⟩
  | .function f, c, marks, formed, clean, lack, misses => by
      obtain ⟨fresh, clean⟩ := List.append_eq_nil_iff.1 clean
      have name := lack _ f.name_mem_tokens
      intro s' h
      cases h with
      | @function _ _ f' _ other declaration =>
          have same : f'.name = f.name := declaration.name_eq.trans (f.name_annotate _ _)
          rw [FunctionDecl.name_annotate] at other
          have fresh := Context.redeclaration_rename_of_ne misses name other fresh
          have inner := Context.introduce_rename_of_ne misses name other
          obtain ⟨resolved, errors⟩ := FunctionDecl.Renamed.follows names formed clean lack
            (Context.misses_introduce misses name) _ declaration
          rw [← inner, ← same] at resolved errors
          rw [← same] at fresh inner
          refine ⟨?_, ?_, ?_⟩
          · rw [Stmt.mapSlots, Stmt.annotate, FunctionDecl.name_mapSlots, resolved]
          · rw [Stmt.mapSlots, Stmt.errors, FunctionDecl.name_mapSlots, fresh, errors]
            rfl
          · rw [Stmt.mapSlots, Stmt.after, FunctionDecl.name_mapSlots, inner, same]
            rfl
  | .returning t none, c, marks, _, clean, _, _ => by
      intro s' h
      cases h with
      | returning value =>
          cases value
          exact ⟨rfl, clean, rfl⟩
  | .returning t (some e), c, marks, formed, clean, lack, misses => by
      obtain ⟨clean, ce⟩ := List.append_eq_nil_iff.1 clean
      intro s' h
      cases h with
      | returning value =>
          cases value with
          | some value =>
              obtain ⟨resolved, errors⟩ := value.follows names misses (formed e rfl)
                (forall_mem_cons.1 lack).2 ce
              exact ⟨congrArg (Stmt.returning t <| some ·) resolved,
                List.append_eq_nil_iff.2 ⟨clean, errors⟩, rfl⟩
  | .classDecl t none fs, c, marks, ⟨_, _, formed⟩, clean, lack, misses => by
      obtain ⟨name, methods⟩ := forall_mem_cons.1 lack
      obtain ⟨clean, cm⟩ := List.append_eq_nil_iff.1 clean
      have fresh := (List.append_eq_nil_iff.1 (List.append_eq_nil_iff.1 clean).1).1
      have inner := Context.misses_introduce misses name
      intro s' h
      cases h with
      | classDecl _ other superclass hm =>
          cases superclass
          have after := Context.introduce_rename_of_ne misses name other
          obtain ⟨resolved, errors⟩ := FunctionDecl.AllRenamed.follow names formed cm methods
            (Context.misses_inMethods inner names false) _ hm
          have around := (c.introduce t.lexeme).inMethods_rename (x := x) (y := y) marks false
          rw [Option.map_none, Option.isSome_none, around, ← after] at resolved errors
          refine ⟨congrArg (Stmt.classDecl t none) resolved, ?_, after⟩
          rw [Stmt.mapSlots, Stmt.errors,
            Context.redeclaration_rename_of_ne misses name other fresh]
          exact errors
  | .classDecl t (some e) fs, c, marks, ⟨_, named, formed⟩, clean, lack, misses => by
      obtain ⟨z, rfl, isName⟩ := named e rfl
      obtain ⟨name, lack⟩ := forall_mem_cons.1 lack
      obtain ⟨superclass, methods⟩ := forall_mem_append.1 lack
      obtain ⟨clean, cm⟩ := List.append_eq_nil_iff.1 clean
      obtain ⟨clean, ce⟩ := List.append_eq_nil_iff.1 clean
      obtain ⟨fresh, self⟩ := List.append_eq_nil_iff.1 clean
      have inner := Context.misses_introduce misses name
      have inner' : Misses (c.introduce t.lexeme).inSuperclass.scopes y := inner
      have formedName : (Expr.name z none).Formed := ⟨isName, rfl⟩
      have apart := Token.selfInheritance_renamed (x := x)
        (superclass z List.mem_cons_self) name self
      intro s' h
      cases h with
      | classDecl _ other he hm =>
          cases he with
          | some he =>
              obtain ⟨resolved, errors⟩ := he.follows names inner' formedName superclass ce
              obtain rfl := he.eq_rename
              have after := Context.introduce_rename_of_ne misses name other
              obtain ⟨resolved', errors'⟩ := FunctionDecl.AllRenamed.follow names formed cm methods
                (Context.misses_inMethods inner names true) _ hm
              have around := (c.introduce t.lexeme).inMethods_rename (x := x) (y := y) marks true
              have before : (c.introduce t.lexeme).inSuperclass.rename x y marks =
                  ((c.rename x y marks).introduce t.lexeme).inSuperclass := by
                rw [after]
                rfl
              rw [before] at resolved errors
              rw [Option.map_some, Option.isSome_some, Option.isSome_some, around, ← after]
                at resolved' errors'
              refine ⟨?_, ?_, after⟩
              · exact congrArg₂ (Stmt.classDecl t <| some · ) resolved resolved'
              · have fresh := Context.redeclaration_rename_of_ne misses name other fresh
                exact List.append_eq_nil_iff.2 ⟨List.append_eq_nil_iff.2
                  ⟨List.append_eq_nil_iff.2 ⟨fresh, apart _⟩, errors⟩, errors'⟩

theorem Stmt.AllRenamed.follow (names : Renamable x y) : ∀ {ss : List Stmt} {c : Context}
    {marks : Marks}, Stmt.FormedAll ss → Stmt.errorsAll c ss = [] → Lack y (Stmt.allTokens ss) →
      Misses c.scopes y → ∀ ss', Stmt.AllRenamed x y marks (Stmt.annotateAll c ss) ss' →
        Stmt.AllFollow x y marks c ss'
  | [], c, marks, _, _, _, _ => by
      intro _ h
      cases h
      exact ⟨rfl, rfl⟩
  | s :: ss, c, marks, formed, clean, lack, misses => by
      obtain ⟨head, tail⟩ := forall_mem_append.1 lack
      obtain ⟨cs, cr⟩ := List.append_eq_nil_iff.1 clean
      intro _ h
      cases h with
      | cons hs hr =>
          obtain ⟨resolved, errors, after⟩ :=
            Stmt.Renamed.follows names formed.1 cs head misses _ hs
          have others := Stmt.AllRenamed.follow names formed.2 cr tail
            (Stmt.misses_after formed.1 misses head) _ hr
          obtain ⟨resolved', errors'⟩ := others
          rw [← after] at resolved' errors'
          exact ⟨congrArg₂ (· :: ·) resolved resolved',
            List.append_eq_nil_iff.2 ⟨errors, errors'⟩⟩

theorem FunctionDecl.Renamed.follows (names : Renamable x y) : ∀ {f : FunctionDecl} {kind : Body}
    {c : Context} {marks : Marks}, f.Formed → f.errors kind c = [] → Lack y f.tokens →
      Misses c.scopes y → ∀ f', (f.annotate kind c).Renamed x y marks f' →
        FunctionDecl.Follows x y marks kind c f'
  | ⟨t, ps, ss⟩, kind, c, marks, ⟨_, _, formed⟩, clean, lack, misses => by
      obtain ⟨parameters, body⟩ := forall_mem_append.1 (forall_mem_cons.1 lack).2
      obtain ⟨cp, cs⟩ := List.append_eq_nil_iff.1 clean
      intro _ h
      cases h with
      | mk marked _ hs =>
          obtain ⟨resolved, errors⟩ := Stmt.AllRenamed.follow names formed cs body
            (Context.misses_inFunction misses parameters kind) _ hs
          rw [Context.inFunction_rename misses parameters] at resolved errors
          have inner : Misses { c.enter with body := kind }.scopes y :=
            Context.misses_enter misses
          have distinct := Context.parameterErrors_rename (x := x) inner parameters
            (marks.push marked) cp
          rw [Context.enter_body_rename] at distinct
          exact ⟨congrArg (FunctionDecl.mk t _) resolved,
            List.append_eq_nil_iff.2 ⟨distinct, errors⟩⟩

theorem FunctionDecl.AllRenamed.follow (names : Renamable x y) : ∀ {fs : List FunctionDecl}
    {c : Context} {marks : Marks}, FunctionDecl.FormedAll fs →
      FunctionDecl.methodErrors c fs = [] → Lack y (FunctionDecl.allTokens fs) →
      Misses c.scopes y →
      ∀ fs', FunctionDecl.AllRenamed x y marks (FunctionDecl.annotateMethods c fs) fs' →
        FunctionDecl.AllFollow x y marks c fs'
  | [], c, marks, _, _, _, _ => by
      intro _ h
      cases h
      exact ⟨rfl, rfl⟩
  | f :: fs, c, marks, formed, clean, lack, misses => by
      obtain ⟨head, tail⟩ := forall_mem_append.1 lack
      obtain ⟨cf, cr⟩ := List.append_eq_nil_iff.1 clean
      intro _ h
      cases h with
      | @cons _ _ f' _ _ hf hr =>
          obtain ⟨resolved, errors⟩ :=
            FunctionDecl.Renamed.follows names formed.1 cf head misses _ hf
          obtain ⟨resolved', errors'⟩ :=
            FunctionDecl.AllRenamed.follow names formed.2 cr tail misses _ hr
          have same : (f'.mapSlots fun _ => none).methodBody = f.methodBody := by
            have name := (hf.name_eq).trans (f.name_annotate f.methodBody c)
            rw [FunctionDecl.methodBody_mapSlots, FunctionDecl.methodBody, FunctionDecl.methodBody,
              FunctionDecl.isInitializer, FunctionDecl.isInitializer, name]
          rw [← same] at resolved errors
          exact ⟨congrArg₂ (· :: ·) resolved resolved',
            List.append_eq_nil_iff.2 ⟨errors, errors'⟩⟩

end

end Statements

end Renaming

end LoxLang
