import LoxLang.Proofs.Renaming

/-!
# Renaming one declaration

In a program without errors a scope declares no name twice. So where a scope
declares a variable, all that it declares under that name is the variable, and
a tree in which the variable has another name is a renamed tree with one scope
marked.
-/

namespace LoxLang

/-! ## What a scope declares -/

/-- The name that the statement declares where it stands. -/
def Stmt.declared? : Stmt → Option String
  | .var name _ => some name.lexeme
  | .function f => some f.name.lexeme
  | .classDecl name _ _ => some name.lexeme
  | _ => none

section Declared

variable {c : Context} {x : String}

theorem Context.declaresHere_introduce (y : String) (h : c.declaresHere x = true) :
    (c.introduce y).declaresHere x = true := by
  cases hs : c.scopes with
  | nil => rwa [introduce_of_nil hs]
  | cons scope outer =>
      obtain ⟨scope', heq, hl⟩ := introduce_scopes hs y
      unfold declaresHere declares at h ⊢
      rw [hs] at h
      rw [heq]
      dsimp only at h ⊢
      rw [hl]
      split
      · rfl
      · exact h

theorem Context.declaresHere_introduce_self (h : c.scopes.isEmpty = false) :
    (c.introduce x).declaresHere x = true := by
  cases hs : c.scopes with
  | nil => rw [hs] at h; cases h
  | cons scope outer =>
      obtain ⟨scope', heq, hl⟩ := introduce_scopes hs x
      unfold declaresHere declares
      rw [heq]
      dsimp only
      rw [hl, if_pos rfl]
      rfl

/-- What is behind a statement as it is read: the name that it declares, if it declares one. -/
theorem Stmt.after_declared {s : Stmt} (formed : s.Formed) :
    s.after c = (s.declared?.map c.introduce).getD c := by
  cases s with
  | var | function | classDecl => rfl
  | expr | print | block | returning => rfl
  | ifThen | ifElse | whileDo => exact Stmt.after_eq formed rfl

theorem Stmt.declaresHere_after {s : Stmt} (formed : s.Formed) (h : c.declaresHere x = true) :
    (s.after c).declaresHere x = true := by
  rw [Stmt.after_declared formed]
  cases s.declared? with
  | none => exact h
  | some y => exact Context.declaresHere_introduce y h

theorem Stmt.declaresHere_after_self {s : Stmt} (formed : s.Formed)
    (inside : c.scopes.isEmpty = false) (declared : s.declared? = some x) :
    (s.after c).declaresHere x = true := by
  rw [Stmt.after_declared formed, declared]
  exact Context.declaresHere_introduce_self inside

/-- What is declared already is not declared again. -/
theorem Stmt.declared?_ne {s : Stmt} (h : c.declaresHere x = true) (clean : s.errors c = []) :
    s.declared? ≠ some x := by
  have again : ∀ {t : Token}, c.redeclaration t = [] → some t.lexeme ≠ some x := by
    intro t fresh same
    cases same
    rw [Context.fresh_of_redeclaration fresh] at h
    cases h
  cases s with
  | var => exact again (List.append_eq_nil_iff.1 clean).1
  | function => exact again (List.append_eq_nil_iff.1 clean).1
  | classDecl =>
      exact again (List.append_eq_nil_iff.1 (List.append_eq_nil_iff.1
        (List.append_eq_nil_iff.1 clean).1).1).1
  | _ => nofun

theorem Stmt.declared?_ne_of_mem {ss : List Stmt} (formed : Stmt.FormedAll ss)
    (h : c.declaresHere x = true) (clean : Stmt.errorsAll c ss = []) :
    ∀ s ∈ ss, s.declared? ≠ some x := by
  induction ss generalizing c with
  | nil => nofun
  | cons s ss ih =>
      obtain ⟨first, others⟩ := List.append_eq_nil_iff.1 clean
      exact List.forall_mem_cons.2 ⟨Stmt.declared?_ne h first,
        ih formed.2 (Stmt.declaresHere_after formed.1 h) others⟩

/-- A scope declares no name twice. -/
theorem Stmt.eq_of_declared {ss : List Stmt} (formed : Stmt.FormedAll ss)
    (inside : c.scopes.isEmpty = false) (clean : Stmt.errorsAll c ss = []) :
    ∀ s ∈ ss, ∀ r ∈ ss, s.declared? = some x → r.declared? = some x → s = r := by
  induction ss generalizing c with
  | nil => nofun
  | cons first ss ih =>
      obtain ⟨-, clean⟩ := List.append_eq_nil_iff.1 clean
      have others := ih formed.2 ((Stmt.after_isEmpty c first).trans inside) clean
      have once : first.declared? = some x → ∀ s ∈ ss, s.declared? ≠ some x := fun declared =>
        Stmt.declared?_ne_of_mem formed.2
          (Stmt.declaresHere_after_self formed.1 inside declared) clean
      intro s hs r hr declared declared'
      rcases List.mem_cons.1 hs with rfl | hs' <;> rcases List.mem_cons.1 hr with rfl | hr'
      · rfl
      · exact absurd declared' (once declared r hr')
      · exact absurd declared (once declared' s hs')
      · exact others s hs' r hr' declared declared'

theorem Context.declaresHere_introduceAll (ps : List Token) (h : c.declaresHere x = true) :
    (ps.foldl (fun c p => c.introduce p.lexeme) c).declaresHere x = true := by
  induction ps generalizing c with
  | nil => exact h
  | cons p ps ih => exact ih (Context.declaresHere_introduce _ h)

theorem Context.declaresHere_parameters {ps : List Token} {c : Context}
    (inside : c.scopes.isEmpty = false) {p : Token} (hp : p ∈ ps) :
    (ps.foldl (fun c p => c.introduce p.lexeme) c).declaresHere p.lexeme = true := by
  induction ps generalizing c with
  | nil => cases hp
  | cons q ps ih =>
      rcases List.mem_cons.1 hp with rfl | hp
      · exact Context.declaresHere_introduceAll ps (Context.declaresHere_introduce_self inside)
      · exact ih ((Context.introduce_isEmpty _ _).trans inside) hp

end Declared

/-! ## All that is called `x` in a scope is renamed -/

section Renaming

variable {x y : String}

/-- If the statement declares `x` where it stands, as a variable. -/
def Stmt.OnlyVariable (x : String) (s : Stmt) : Prop :=
  s.declared? = some x → s.isVariable x = true

theorem Stmt.isVariable_eq {s : Stmt} (h : s.isVariable x = true) :
    ∃ t o, s = .var t o ∧ t.lexeme = x := by
  cases s with
  | var t o => exact ⟨t, o, rfl, beq_iff_eq.1 h⟩
  | _ => cases h

theorem Stmt.onlyVariable_of_not {s : Stmt} (h : s.isDeclaration = false) : s.OnlyVariable x := by
  cases s with
  | var | function | classDecl => cases h
  | _ => nofun

theorem Stmt.ne_of_onlyVariable {s : Stmt} (h : s.OnlyVariable x) (other : s.isVariable x = false)
    {z : String} (declared : s.declared? = some z) : z ≠ x := by
  rintro rfl
  rw [h declared] at other
  cases other

/-- A scope that declares a variable declares nothing else under its name. -/
theorem Stmt.onlyVariable_of_any {c : Context} {ss : List Stmt} (formed : Stmt.FormedAll ss)
    (inside : c.scopes.isEmpty = false) (clean : Stmt.errorsAll c ss = [])
    (h : ss.any (·.isVariable x) = true) : ∀ s ∈ ss, s.OnlyVariable x := by
  obtain ⟨r, hr, variable'⟩ := List.any_eq_true.1 h
  obtain ⟨t, o, rfl, rfl⟩ := Stmt.isVariable_eq variable'
  intro s hs declared
  rw [Stmt.eq_of_declared formed inside clean s hs _ hr declared rfl]
  exact variable'

theorem FunctionDecl.Renamed.unmarked {marks : Marks} {t : Token} {ps : List Token}
    {ss ss' : List Stmt} (lacks : ∀ p ∈ ps, p.lexeme ≠ y)
    (body : Stmt.AllRenamed x y (marks.push false) ss ss') :
    FunctionDecl.Renamed x y marks ⟨t, ps, ss⟩ ⟨t, ps, ss'⟩ := by
  have renamed := FunctionDecl.Renamed.mk (t := t) false lacks body
  have same : ps.map (·.renamed x y false) = ps := by simp
  rwa [same] at renamed

/-- Nothing in the trees is called `y`. -/
def Lack (y : String) (ts : List Token) : Prop := ∀ t ∈ ts, t.lexeme ≠ y

open List (forall_mem_cons forall_mem_append)

mutual

/-- A resolved expression with `x` renamed in the marked scopes around it. -/
theorem Expr.renamed_rename {marks : Marks} {c : Context} : ∀ {e : Expr}, e.Formed →
    Lack y e.tokens → (e.annotate c).Renamed x y marks ((e.annotate c).rename x y marks)
  | .literal _, _, _ => .literal _
  | .group _, formed, lack => .group (Expr.renamed_rename formed lack)
  | .unary _ _, formed, lack => .unary (Expr.renamed_rename formed (forall_mem_cons.1 lack).2)
  | .binary _ _ _, ⟨formed, formed'⟩, lack => by
      obtain ⟨left, right⟩ := forall_mem_append.1 lack
      exact .binary (Expr.renamed_rename formed left)
        (Expr.renamed_rename formed' (forall_mem_cons.1 right).2)
  | .logical _ _ _, ⟨formed, formed'⟩, lack => by
      obtain ⟨left, right⟩ := forall_mem_append.1 lack
      exact .logical (Expr.renamed_rename formed left)
        (Expr.renamed_rename formed' (forall_mem_cons.1 right).2)
  | .name t _, _, lack => .name _ (lack t List.mem_cons_self)
  | .assign _ _ _, ⟨_, _, formed⟩, lack =>
      .assign _ (forall_mem_cons.1 lack).1 (Expr.renamed_rename formed (forall_mem_cons.1 lack).2)
  | .call _ _ _, ⟨formed, formed'⟩, lack => by
      obtain ⟨callee, arguments⟩ := forall_mem_append.1 lack
      exact .call (Expr.renamed_rename formed callee)
        (Expr.renamed_renameAll formed' (forall_mem_cons.1 arguments).2)
  | .get _ _, formed, lack => .get (Expr.renamed_rename formed (forall_mem_append.1 lack).1)
  | .set _ _ _, ⟨formed, formed'⟩, lack => by
      obtain ⟨object, value⟩ := forall_mem_append.1 lack
      exact .set (Expr.renamed_rename formed object)
        (Expr.renamed_rename formed' (forall_mem_cons.1 value).2)
  | .this _ _, ⟨spelled, _⟩, _ => .this _ spelled
  | .super .., _, _ => .super _ _ _

theorem Expr.renamed_renameAll {marks : Marks} {c : Context} : ∀ {es : List Expr},
    Expr.FormedAll es → Lack y (Expr.allTokens es) →
      Expr.AllRenamed x y marks (Expr.annotateAll c es)
        (Expr.renameAll x y marks (Expr.annotateAll c es))
  | [], _, _ => .nil
  | _ :: _, formed, lack => by
      obtain ⟨head, tail⟩ := forall_mem_append.1 lack
      exact .cons (Expr.renamed_rename formed.1 head) (Expr.renamed_renameAll formed.2 tail)

end

theorem Expr.renamed_renameOpt {marks : Marks} {c : Context} {o : Option Expr}
    (formed : Expr.FormedOpt o) (lack : Lack y (Expr.optTokens o)) :
    Option.Rel (Expr.Renamed x y marks) (o.map (·.annotate c))
      ((o.map (·.annotate c)).map (·.rename x y marks)) := by
  cases o with
  | none => exact .none
  | some e => exact .some (Expr.renamed_rename (formed e rfl) lack)

theorem Expr.formedOpt_superclass {o : Option Expr}
    (named : ∀ e ∈ o, ∃ t : Token, e = .name t none ∧ t.IsName) : Expr.FormedOpt o := by
  intro e he
  obtain ⟨t, rfl, name⟩ := named e he
  exact ⟨name, rfl⟩

mutual

/-- A resolved statement with `x` renamed in the marked scopes around it. -/
theorem Stmt.renamed_rename {marks : Marks} {c : Context} : ∀ {s : Stmt}, s.Formed →
    Lack y s.tokens → (marks 0 = true → s.OnlyVariable x) →
      (s.annotate c).Renamed x y marks ((s.annotate c).rename x y marks)
  | .expr _, formed, lack, _ => .expr (Expr.renamed_rename formed lack)
  | .print _, formed, lack, _ => .print (Expr.renamed_rename formed lack)
  | .var _ _, ⟨_, formed⟩, lack, _ =>
      .var (forall_mem_cons.1 lack).1 (Expr.renamed_renameOpt formed (forall_mem_cons.1 lack).2)
  | .block _, formed, lack, _ => .block false (Stmt.renamed_renameAll formed lack nofun)
  | .ifThen _ s, ⟨formedTest, formed, other⟩, lack, _ => by
      obtain ⟨test, consequent⟩ := forall_mem_append.1 lack
      exact .ifThen (Expr.renamed_rename formedTest test)
        (Stmt.renamed_rename formed consequent fun _ => Stmt.onlyVariable_of_not other)
  | .ifElse _ s o, ⟨formedTest, ⟨formed, other⟩, formed', other'⟩, lack, _ => by
      obtain ⟨test, lack⟩ := forall_mem_append.1 lack
      obtain ⟨consequent, alternative⟩ := forall_mem_append.1 lack
      exact .ifElse (Expr.renamed_rename formedTest test)
        (Stmt.renamed_rename formed consequent fun _ => Stmt.onlyVariable_of_not other)
        (Stmt.renamed_rename formed' alternative fun _ => Stmt.onlyVariable_of_not other')
  | .whileDo _ s, ⟨formedTest, formed, other⟩, lack, _ => by
      obtain ⟨test, body⟩ := forall_mem_append.1 lack
      exact .whileDo (Expr.renamed_rename formedTest test)
        (Stmt.renamed_rename formed body fun _ => Stmt.onlyVariable_of_not other)
  | .function ⟨_, _, _⟩, formed, lack, only =>
      .function (forall_mem_cons.1 lack).1 (fun h => Stmt.ne_of_onlyVariable (only h) rfl rfl)
        (FunctionDecl.renamed_rename formed lack)
  | .returning _ _, formed, lack, _ =>
      .returning (Expr.renamed_renameOpt formed (forall_mem_cons.1 lack).2)
  | .classDecl _ o _, ⟨_, named, formed⟩, lack, only => by
      obtain ⟨name, lack⟩ := forall_mem_cons.1 lack
      obtain ⟨superclass, methods⟩ := forall_mem_append.1 lack
      refine .classDecl name (fun h => Stmt.ne_of_onlyVariable (only h) rfl rfl)
        (Expr.renamed_renameOpt (Expr.formedOpt_superclass named) superclass) ?_
      rw [Option.isSome_map]
      exact FunctionDecl.renamed_renameAll formed methods

theorem Stmt.renamed_renameAll {marks : Marks} {c : Context} : ∀ {ss : List Stmt},
    Stmt.FormedAll ss → Lack y (Stmt.allTokens ss) →
    (marks 0 = true → ∀ s ∈ ss, s.OnlyVariable x) →
      Stmt.AllRenamed x y marks (Stmt.annotateAll c ss)
        (Stmt.renameAll x y marks (Stmt.annotateAll c ss))
  | [], _, _, _ => .nil
  | _ :: _, formed, lack, only => by
      obtain ⟨head, tail⟩ := forall_mem_append.1 lack
      exact .cons (Stmt.renamed_rename formed.1 head fun h => (forall_mem_cons.1 (only h)).1)
        (Stmt.renamed_renameAll formed.2 tail fun h => (forall_mem_cons.1 (only h)).2)

theorem FunctionDecl.renamed_rename {marks : Marks} {kind : Body} {c : Context} :
    ∀ {f : FunctionDecl}, f.Formed → Lack y f.tokens →
      (f.annotate kind c).Renamed x y marks ((f.annotate kind c).rename x y marks)
  | ⟨_, _, _⟩, ⟨_, _, formed⟩, lack => by
      obtain ⟨parameters, body⟩ := forall_mem_append.1 (forall_mem_cons.1 lack).2
      exact .unmarked parameters (Stmt.renamed_renameAll formed body nofun)

theorem FunctionDecl.renamed_renameAll {marks : Marks} {c : Context} :
    ∀ {fs : List FunctionDecl}, FunctionDecl.FormedAll fs → Lack y (FunctionDecl.allTokens fs) →
      FunctionDecl.AllRenamed x y marks (FunctionDecl.annotateMethods c fs)
        (FunctionDecl.renameAll x y marks (FunctionDecl.annotateMethods c fs))
  | [], _, _ => .nil
  | _ :: _, formed, lack => by
      obtain ⟨head, tail⟩ := forall_mem_append.1 lack
      exact .cons (FunctionDecl.renamed_rename formed.1 head)
        (FunctionDecl.renamed_renameAll formed.2 tail)

end

/-! ## One scope marked -/

theorem Expr.renamed_self {c : Context} {e : Expr} (formed : e.Formed) (lack : Lack y e.tokens) :
    (e.annotate c).Renamed x y .clear (e.annotate c) := by
  have renamed : (e.annotate c).Renamed x y .clear _ := Expr.renamed_rename formed lack
  rwa [Expr.rename_clear] at renamed

theorem Expr.renamed_selfOpt {c : Context} {o : Option Expr} (formed : Expr.FormedOpt o)
    (lack : Lack y (Expr.optTokens o)) :
    Option.Rel (Expr.Renamed x y .clear) (o.map (·.annotate c)) (o.map (·.annotate c)) := by
  cases o with
  | none => exact .none
  | some e => exact .some (Expr.renamed_self (formed e rfl) lack)

theorem Stmt.renamed_self {c : Context} {s : Stmt} (formed : s.Formed) (lack : Lack y s.tokens) :
    (s.annotate c).Renamed x y .clear (s.annotate c) := by
  have renamed : (s.annotate c).Renamed x y .clear _ := Stmt.renamed_rename formed lack nofun
  rwa [Stmt.rename_clear] at renamed

theorem Stmt.allRenamed_self {c : Context} {ss : List Stmt} (formed : Stmt.FormedAll ss)
    (lack : Lack y (Stmt.allTokens ss)) :
    Stmt.AllRenamed x y .clear (Stmt.annotateAll c ss) (Stmt.annotateAll c ss) := by
  have renamed : Stmt.AllRenamed x y .clear (Stmt.annotateAll c ss) _ :=
    Stmt.renamed_renameAll formed lack nofun
  rwa [Stmt.renameAll_clear] at renamed

theorem FunctionDecl.renamed_self {kind : Body} {c : Context} {f : FunctionDecl}
    (formed : f.Formed) (lack : Lack y f.tokens) :
    (f.annotate kind c).Renamed x y .clear (f.annotate kind c) := by
  have renamed : (f.annotate kind c).Renamed x y .clear _ :=
    FunctionDecl.renamed_rename formed lack
  rwa [FunctionDecl.rename_clear] at renamed

theorem FunctionDecl.allRenamed_self {c : Context} {fs : List FunctionDecl}
    (formed : FunctionDecl.FormedAll fs) (lack : Lack y (FunctionDecl.allTokens fs)) :
    FunctionDecl.AllRenamed x y .clear (FunctionDecl.annotateMethods c fs)
      (FunctionDecl.annotateMethods c fs) := by
  have renamed : FunctionDecl.AllRenamed x y .clear (FunctionDecl.annotateMethods c fs) _ :=
    FunctionDecl.renamed_renameAll formed lack
  rwa [FunctionDecl.renameAll_clear] at renamed

theorem Stmt.any_isVariable_annotate (c : Context) (ss : List Stmt) :
    (Stmt.annotateAll c ss).any (·.isVariable x) = ss.any (·.isVariable x) := by
  induction ss generalizing c with
  | nil => rfl
  | cons s ss ih =>
      rw [Stmt.annotateAll, List.any_cons, List.any_cons, ih]
      cases s <;> rfl

/-- In a scope with a parameter or a variable `x`, all that is called `x` is renamed. -/
theorem Stmt.allRenamed_scope {c : Context} {ss : List Stmt} (formed : Stmt.FormedAll ss)
    (lack : Lack y (Stmt.allTokens ss)) (only : ∀ s ∈ ss, s.OnlyVariable x) :
    Stmt.AllRenamed x y (Marks.clear.push true) (Stmt.annotateAll c ss)
      (Stmt.renameScope x y (Stmt.annotateAll c ss)) :=
  Stmt.renamed_renameAll formed lack fun _ => only

theorem Context.onlyVariable_of_function {c : Context} {kind : Body} {ps : List Token}
    {ss : List Stmt} (formed : Stmt.FormedAll ss)
    (clean : Stmt.errorsAll (c.inFunction kind ps) ss = [])
    (h : (ps.any (·.lexeme == x) || ss.any (·.isVariable x)) = true) :
    ∀ s ∈ ss, s.OnlyVariable x := by
  rcases Bool.or_eq_true _ _ ▸ h with parameter | variable'
  · obtain ⟨p, hp, same⟩ := List.any_eq_true.1 parameter
    obtain rfl := beq_iff_eq.1 same
    have declared : (c.inFunction kind ps).declaresHere p.lexeme = true :=
      Context.declaresHere_parameters rfl hp
    intro s hs again
    exact absurd again (Stmt.declared?_ne_of_mem formed declared clean s hs)
  · exact Stmt.onlyVariable_of_any formed (c.inFunction_isEmpty kind ps) clean variable'

mutual

/-- A resolved statement with one variable of a scope in it renamed. -/
theorem Stmt.renamed_of_renamings {c : Context} : ∀ {s : Stmt}, s.Formed → s.errors c = [] →
    Lack y s.tokens → ∀ s' ∈ (s.annotate c).renamings x y, (s.annotate c).Renamed x y .clear s'
  | .block ss, formed, clean, lack => by
      intro s' h
      rcases List.mem_append.1 h with h | h
      · split at h
        · next variable' =>
            cases List.mem_singleton.1 h
            rw [Stmt.any_isVariable_annotate] at variable'
            exact .block true (Stmt.allRenamed_scope formed lack
              (Stmt.onlyVariable_of_any formed rfl clean variable'))
        · cases h
      · obtain ⟨ss', mem, rfl⟩ := List.mem_map.1 h
        have body := Stmt.allRenamed_of_renamings formed clean lack ss' mem
        exact .block false (by rwa [Marks.push_clear])
  | .ifThen e s, ⟨formedTest, formed, _⟩, clean, lack => by
      obtain ⟨test, consequent⟩ := forall_mem_append.1 lack
      intro _ h
      obtain ⟨s', mem, rfl⟩ := List.mem_map.1 h
      exact .ifThen (Expr.renamed_self formedTest test)
        (Stmt.renamed_of_renamings formed (List.append_eq_nil_iff.1 clean).2 consequent s' mem)
  | .ifElse e s o, ⟨formedTest, ⟨formed, _⟩, formed', _⟩, clean, lack => by
      obtain ⟨test, lack⟩ := forall_mem_append.1 lack
      obtain ⟨consequent, alternative⟩ := forall_mem_append.1 lack
      obtain ⟨clean, clean'⟩ := List.append_eq_nil_iff.1 clean
      intro _ h
      rcases List.mem_append.1 h with h | h
      · obtain ⟨s', mem, rfl⟩ := List.mem_map.1 h
        exact .ifElse (Expr.renamed_self formedTest test)
          (Stmt.renamed_of_renamings formed (List.append_eq_nil_iff.1 clean).2 consequent s' mem)
          (Stmt.renamed_self formed' alternative)
      · obtain ⟨o', mem, rfl⟩ := List.mem_map.1 h
        exact .ifElse (Expr.renamed_self formedTest test) (Stmt.renamed_self formed consequent)
          (Stmt.renamed_of_renamings formed' clean' alternative o' mem)
  | .whileDo e s, ⟨formedTest, formed, _⟩, clean, lack => by
      obtain ⟨test, body⟩ := forall_mem_append.1 lack
      intro _ h
      obtain ⟨s', mem, rfl⟩ := List.mem_map.1 h
      exact .whileDo (Expr.renamed_self formedTest test)
        (Stmt.renamed_of_renamings formed (List.append_eq_nil_iff.1 clean).2 body s' mem)
  | .function f, formed, clean, lack => by
      intro _ h
      obtain ⟨f', mem, rfl⟩ := List.mem_map.1 h
      have declaration := FunctionDecl.renamed_of_renamings formed
        (List.append_eq_nil_iff.1 clean).2 lack f' mem
      obtain ⟨t, ps, ss⟩ := f
      exact .function (forall_mem_cons.1 lack).1 nofun declaration
  | .classDecl t o fs, ⟨_, named, formed⟩, clean, lack => by
      obtain ⟨name, lack⟩ := forall_mem_cons.1 lack
      obtain ⟨superclass, methods⟩ := forall_mem_append.1 lack
      intro _ h
      obtain ⟨fs', mem, rfl⟩ := List.mem_map.1 h
      have inner := FunctionDecl.allRenamed_of_renamings formed
        (List.append_eq_nil_iff.1 clean).2 methods fs' mem
      rw [← Marks.inMethods_clear
        (o.map (·.annotate (c.introduce t.lexeme).inSuperclass)).isSome] at inner
      exact .classDecl name nofun
        (Expr.renamed_selfOpt (Expr.formedOpt_superclass named) superclass) inner
  | .expr _, _, _, _ | .print _, _, _, _ | .var .., _, _, _ | .returning .., _, _, _ =>
      fun _ h => absurd h List.not_mem_nil

theorem Stmt.allRenamed_of_renamings {c : Context} : ∀ {ss : List Stmt}, Stmt.FormedAll ss →
    Stmt.errorsAll c ss = [] → Lack y (Stmt.allTokens ss) →
    ∀ ss' ∈ Stmt.allRenamings x y (Stmt.annotateAll c ss),
      Stmt.AllRenamed x y .clear (Stmt.annotateAll c ss) ss'
  | [], _, _, _ => fun _ h => absurd h List.not_mem_nil
  | s :: ss, formed, clean, lack => by
      obtain ⟨head, tail⟩ := forall_mem_append.1 lack
      obtain ⟨clean, clean'⟩ := List.append_eq_nil_iff.1 clean
      intro _ h
      rcases List.mem_append.1 h with h | h
      · obtain ⟨s', mem, rfl⟩ := List.mem_map.1 h
        exact .cons (Stmt.renamed_of_renamings formed.1 clean head s' mem)
          (Stmt.allRenamed_self formed.2 tail)
      · obtain ⟨ss', mem, rfl⟩ := List.mem_map.1 h
        exact .cons (Stmt.renamed_self formed.1 head)
          (Stmt.allRenamed_of_renamings formed.2 clean' tail ss' mem)

theorem FunctionDecl.renamed_of_renamings {kind : Body} {c : Context} :
    ∀ {f : FunctionDecl}, f.Formed → f.errors kind c = [] → Lack y f.tokens →
      ∀ f' ∈ (f.annotate kind c).renamings x y, (f.annotate kind c).Renamed x y .clear f'
  | ⟨_, ps, ss⟩, ⟨_, _, formed⟩, clean, lack => by
      obtain ⟨parameters, body⟩ := forall_mem_append.1 (forall_mem_cons.1 lack).2
      have clean := (List.append_eq_nil_iff.1 clean).2
      intro _ h
      rcases List.mem_append.1 h with h | h
      · split at h
        · next named =>
            cases List.mem_singleton.1 h
            rw [Stmt.any_isVariable_annotate] at named
            exact .mk true parameters (Stmt.allRenamed_scope formed body
              (Context.onlyVariable_of_function formed clean named))
        · cases h
      · obtain ⟨ss', mem, rfl⟩ := List.mem_map.1 h
        have body := Stmt.allRenamed_of_renamings formed clean body ss' mem
        exact .unmarked parameters (by rwa [Marks.push_clear])

theorem FunctionDecl.allRenamed_of_renamings {c : Context} : ∀ {fs : List FunctionDecl},
    FunctionDecl.FormedAll fs → FunctionDecl.methodErrors c fs = [] →
    Lack y (FunctionDecl.allTokens fs) →
    ∀ fs' ∈ FunctionDecl.allRenamings x y (FunctionDecl.annotateMethods c fs),
      FunctionDecl.AllRenamed x y .clear (FunctionDecl.annotateMethods c fs) fs'
  | [], _, _, _ => fun _ h => absurd h List.not_mem_nil
  | _ :: _, formed, clean, lack => by
      obtain ⟨head, tail⟩ := forall_mem_append.1 lack
      obtain ⟨clean, clean'⟩ := List.append_eq_nil_iff.1 clean
      intro _ h
      rcases List.mem_append.1 h with h | h
      · obtain ⟨f', mem, rfl⟩ := List.mem_map.1 h
        exact .cons (FunctionDecl.renamed_of_renamings formed.1 clean head f' mem)
          (FunctionDecl.allRenamed_self formed.2 tail)
      · obtain ⟨fs', mem, rfl⟩ := List.mem_map.1 h
        exact .cons (FunctionDecl.renamed_self formed.1 head)
          (FunctionDecl.allRenamed_of_renamings formed.2 clean' tail fs' mem)

end

end Renaming

end LoxLang
