import LoxLang.Proofs.Spelling
import LoxLang.Resolution.Context

/-!
# Names seen from a context

Where a name leads from a point of a program: to the innermost tracked scope
that declares it, or to none. `Sees` says it scope by scope, so that facts about
a changed context are found by looking at its innermost scope.

Two invariants hold on the way through a formed program. At a statement no name
is pending, and inside a class the scopes are there that the class puts around
its methods. In an initializer the variable itself may be pending, and nothing
else.
-/

namespace LoxLang

/-! ## Names in scopes -/

/-- The innermost of the scopes that declares the name is `depth` scopes out, and the name is as
ready there as `r` says. -/
inductive Sees : List Declared → String → Nat → Readiness → Prop
  | here {scope : Declared} {outer : List Declared} {x : String} {r : Readiness}
      (h : scope.lookup x = some r) : Sees (scope :: outer) x 0 r
  | out {scope : Declared} {outer : List Declared} {x : String} {depth : Nat} {r : Readiness}
      (h : scope.lookup x = none) (sees : Sees outer x depth r) :
      Sees (scope :: outer) x (depth + 1) r

/-- No scope declares the name. -/
def Misses (scopes : List Declared) (x : String) : Prop := ∀ scope ∈ scopes, scope.lookup x = none

section Names

variable {scope : Declared} {scopes outer : List Declared} {x : String} {depth : Nat}
  {r : Readiness} {c : Context}

theorem sees_zero : Sees (scope :: outer) x 0 r ↔ scope.lookup x = some r :=
  ⟨fun | .here h => h, .here⟩

theorem sees_succ :
    Sees (scope :: outer) x (depth + 1) r ↔ scope.lookup x = none ∧ Sees outer x depth r :=
  ⟨fun | .out h sees => ⟨h, sees⟩, fun ⟨h, sees⟩ => .out h sees⟩

theorem misses_cons : Misses (scope :: outer) x ↔ scope.lookup x = none ∧ Misses outer x :=
  List.forall_mem_cons

/-- The depth that resolution gives to a name. -/
theorem findIdx?_declares :
    (∃ depth r, scopes.findIdx? (Context.declares · x) = some depth ∧ Sees scopes x depth r) ∨
      scopes.findIdx? (Context.declares · x) = none ∧ Misses scopes x := by
  induction scopes with
  | nil => exact .inr ⟨rfl, nofun⟩
  | cons scope outer ih =>
      rw [List.findIdx?_cons]
      cases h : scope.lookup x with
      | some r =>
          refine .inl ⟨0, r, ?_, .here h⟩
          rw [if_pos (by rw [Context.declares, h]; rfl)]
      | none =>
          rw [if_neg (by rw [Context.declares, h]; nofun)]
          rcases ih with ⟨depth, r, heq, sees⟩ | ⟨heq, misses⟩
          · exact .inl ⟨depth + 1, r, by rw [heq]; rfl, .out h sees⟩
          · exact .inr ⟨by rw [heq]; rfl, misses_cons.2 ⟨h, misses⟩⟩

theorem depthOf?_cases (c : Context) (x : String) :
    (∃ depth r, c.depthOf? x = some depth ∧ Sees c.scopes x depth r) ∨
      c.depthOf? x = none ∧ Misses c.scopes x := findIdx?_declares

theorem Sees.not_misses (h : Sees scopes x depth r) : ¬ Misses scopes x := by
  induction h with
  | here h =>
      intro misses
      rw [(misses_cons.1 misses).1] at h
      cases h
  | out _ _ ih => exact fun misses => ih (misses_cons.1 misses).2

theorem Sees.unique {depth' : Nat} {r' : Readiness} (h : Sees scopes x depth r)
    (h' : Sees scopes x depth' r') : depth = depth' ∧ r = r' := by
  induction h generalizing depth' with
  | here h =>
      cases h' with
      | here h' =>
          rw [h] at h'
          cases h'
          exact ⟨rfl, rfl⟩
      | out h' _ => rw [h] at h'; cases h'
  | out h _ ih =>
      cases h' with
      | here h' => rw [h] at h'; cases h'
      | out _ sees =>
          obtain ⟨rfl, rfl⟩ := ih sees
          exact ⟨rfl, rfl⟩

theorem Sees.depthOf?_eq (h : Sees c.scopes x depth r) : c.depthOf? x = some depth := by
  rcases depthOf?_cases c x with ⟨depth', r', heq, sees⟩ | ⟨-, misses⟩
  · rw [heq, (h.unique sees).1]
  · exact absurd misses h.not_misses

end Names

/-! ## Contexts on the way -/

namespace Context

/-- What an occurrence with this depth refers to: a name that is ready, or no tracked name. -/
def Refers (c : Context) (x : String) : Option Nat → Prop
  | some depth => Sees c.scopes x depth .ready
  | none => Misses c.scopes x

/-- What holds of the contexts of statements: no name is pending, and inside a class there are the
scopes that the class puts around its methods. -/
structure Sound (c : Context) : Prop where
  settled : ∀ x depth, ¬ Sees c.scopes x depth .pending
  receiver : c.classBody ≠ .outside → ∃ depth, Sees c.scopes "this" depth .ready
  parent : c.classBody = .derived → ∃ depth, Sees c.scopes "this" depth .ready ∧
    Sees c.scopes "super" (depth + 1) .ready

theorem Sound.global : Sound .global := ⟨nofun, fun h => absurd rfl h, nofun⟩

theorem sees_enter {c : Context} {x : String} {depth : Nat} {r : Readiness} :
    Sees c.enter.scopes x depth r ↔ ∃ outer, depth = outer + 1 ∧ Sees c.scopes x outer r := by
  cases depth with
  | zero =>
      refine ⟨fun h => ?_, nofun⟩
      cases sees_zero.1 h
  | succ depth =>
      rw [show c.enter.scopes = [] :: c.scopes from rfl, sees_succ]
      constructor
      · rintro ⟨-, h⟩
        exact ⟨depth, rfl, h⟩
      · rintro ⟨_, ⟨⟩, h⟩
        exact ⟨rfl, h⟩

theorem Sound.enter {c : Context} (h : c.Sound) : c.enter.Sound where
  settled x depth hs := by
    obtain ⟨_, -, hs⟩ := sees_enter.1 hs
    exact h.settled _ _ hs
  receiver hc := by
    obtain ⟨depth, hs⟩ := h.receiver hc
    exact ⟨depth + 1, sees_enter.2 ⟨depth, rfl, hs⟩⟩
  parent hc := by
    obtain ⟨depth, hs, hs'⟩ := h.parent hc
    exact ⟨depth + 1, sees_enter.2 ⟨depth, rfl, hs⟩, sees_enter.2 ⟨depth + 1, rfl, hs'⟩⟩

/-- The kind of the function around a point has no part in what its names refer to. -/
theorem Sound.withBody {c : Context} (h : c.Sound) (kind : Body) : { c with body := kind }.Sound :=
  ⟨h.settled, h.receiver, h.parent⟩

/-- An introduced name is ready in the innermost scope, and nothing else changes. -/
theorem introduce_scopes {c : Context} {scope : Declared} {outer : List Declared}
    (h : c.scopes = scope :: outer) (x : String) :
    ∃ scope', (c.introduce x).scopes = scope' :: outer ∧
      ∀ y, scope'.lookup y = if y = x then some .ready else scope.lookup y := by
  obtain ⟨_, body, classBody⟩ := c
  cases h
  unfold introduce declare define
  by_cases hd : declares scope x = true
  · simp only [hd, if_true]
    refine ⟨_, rfl, fun y => ?_⟩
    rw [List.lookup_cons]
    split <;> simp_all
  · simp only [hd]
    refine ⟨_, rfl, fun y => ?_⟩
    rw [List.lookup_cons, List.lookup_cons]
    split <;> simp_all

theorem introduce_of_nil {c : Context} (h : c.scopes = []) (x : String) : c.introduce x = c := by
  unfold introduce declare define
  rw [h]
  dsimp only
  rw [h]

theorem declare_kinds (c : Context) (x : String) :
    (c.declare x).body = c.body ∧ (c.declare x).classBody = c.classBody := by
  unfold declare
  split
  · exact ⟨rfl, rfl⟩
  · split <;> exact ⟨rfl, rfl⟩

theorem define_kinds (c : Context) (x : String) :
    (c.define x).body = c.body ∧ (c.define x).classBody = c.classBody := by
  unfold define
  split <;> exact ⟨rfl, rfl⟩

theorem introduce_kinds (c : Context) (x : String) :
    (c.introduce x).body = c.body ∧ (c.introduce x).classBody = c.classBody := by
  obtain ⟨hb, hc⟩ := declare_kinds c x
  obtain ⟨hb', hc'⟩ := define_kinds (c.declare x) x
  exact ⟨hb'.trans hb, hc'.trans hc⟩

/-- An introduced name is seen in the innermost scope, if one is tracked. -/
theorem sees_introduce_self {c : Context} {x : String} (h : c.scopes ≠ []) :
    Sees (c.introduce x).scopes x 0 .ready := by
  cases hs : c.scopes with
  | nil => exact absurd hs h
  | cons scope outer =>
      obtain ⟨scope', heq, hl⟩ := introduce_scopes hs x
      rw [heq, sees_zero, hl, if_pos rfl]

/-- Other names are seen as before. -/
theorem sees_introduce_of_ne {c : Context} {x y : String} (hne : y ≠ x) {depth : Nat}
    {r : Readiness} : Sees (c.introduce x).scopes y depth r ↔ Sees c.scopes y depth r := by
  cases hs : c.scopes with
  | nil => rw [introduce_of_nil hs, hs]
  | cons scope outer =>
      obtain ⟨scope', heq, hl⟩ := introduce_scopes hs x
      rw [heq]
      cases depth with
      | zero => rw [sees_zero, sees_zero, hl, if_neg hne]
      | succ depth => rw [sees_succ, sees_succ, hl, if_neg hne]

theorem Sound.introduce {c : Context} (h : c.Sound) {x : Token} (hx : x.IsName) :
    (c.introduce x.lexeme).Sound where
  settled y depth hs := by
    by_cases hy : y = x.lexeme
    · subst hy
      cases hc : c.scopes with
      | nil =>
          rw [introduce_of_nil hc] at hs
          exact h.settled _ _ hs
      | cons scope outer =>
          have := (hs.unique (sees_introduce_self (by rw [hc]; nofun))).2
          cases this
    · exact h.settled _ _ ((sees_introduce_of_ne hy).1 hs)
  receiver hc := by
    rw [(introduce_kinds c _).2] at hc
    obtain ⟨depth, hs⟩ := h.receiver hc
    exact ⟨depth, (sees_introduce_of_ne hx.not_this.symm).2 hs⟩
  parent hc := by
    rw [(introduce_kinds c _).2] at hc
    obtain ⟨depth, hs, hs'⟩ := h.parent hc
    exact ⟨depth, (sees_introduce_of_ne hx.not_this.symm).2 hs,
      (sees_introduce_of_ne hx.not_super.symm).2 hs'⟩

theorem Sound.introduceAll {ps : List Token} (hp : ∀ p ∈ ps, p.IsName) {c : Context}
    (h : c.Sound) : (ps.foldl (fun c p => c.introduce p.lexeme) c).Sound := by
  induction ps generalizing c with
  | nil => exact h
  | cons p ps ih =>
      obtain ⟨hx, hp⟩ := List.forall_mem_cons.1 hp
      exact ih hp (h.introduce hx)

theorem Sound.inFunction {c : Context} (h : c.Sound) (kind : Body) {ps : List Token}
    (hp : ∀ p ∈ ps, p.IsName) : (c.inFunction kind ps).Sound :=
  Sound.introduceAll hp (h.enter.withBody kind)

/-- The scope around the `this` scope of the methods. -/
def aroundMethods (c : Context) (hasSuperclass : Bool) : Context :=
  if hasSuperclass then c.enter.define "super" else c

theorem inMethods_scopes (c : Context) (hasSuperclass : Bool) :
    (c.inMethods hasSuperclass).scopes =
      [("this", .ready)] :: (c.aroundMethods hasSuperclass).scopes := rfl

theorem aroundMethods_scopes (c : Context) :
    (c.aroundMethods true).scopes = [("super", .ready)] :: c.scopes := rfl

theorem Sound.inMethods {c : Context} (h : c.Sound) (hasSuperclass : Bool) :
    (c.inMethods hasSuperclass).Sound where
  settled x depth hs := by
    have single : ∀ y : String, List.lookup x [(y, Readiness.ready)] ≠ some .pending := by
      intro y
      rw [List.lookup_cons]
      split <;> simp
    rw [inMethods_scopes] at hs
    cases hs with
    | here hl => exact single _ hl
    | out _ hs =>
        cases hasSuperclass with
        | false => exact h.settled _ _ hs
        | true =>
            rw [aroundMethods_scopes] at hs
            cases hs with
            | here hl => exact single _ hl
            | out _ hs => exact h.settled _ _ hs
  receiver _ := ⟨0, .here rfl⟩
  parent hc := by
    cases hasSuperclass with
    | false => cases hc
    | true => exact ⟨0, .here rfl, .out rfl (.here rfl)⟩

/-- What holds of the contexts of expressions: in an initializer, the innermost scope may declare
pending names. -/
structure Calm (c : Context) : Prop where
  settled : ∀ x depth, Sees c.scopes x depth .pending → depth = 0 ∧ c.isPending x = true
  receiver : c.classBody ≠ .outside → ∃ depth, Sees c.scopes "this" depth .ready
  parent : c.classBody = .derived → ∃ depth, Sees c.scopes "this" depth .ready ∧
    Sees c.scopes "super" (depth + 1) .ready

theorem Sound.calm {c : Context} (h : c.Sound) : c.Calm :=
  ⟨fun x depth hs => absurd hs (h.settled x depth), h.receiver, h.parent⟩

theorem sees_declare_of_ne {c : Context} {x y : String} (hne : y ≠ x) {depth : Nat}
    {r : Readiness} : Sees (c.declare x).scopes y depth r ↔ Sees c.scopes y depth r := by
  unfold declare
  split
  · rfl
  · next scope outer hs =>
      split
      · rfl
      · have skip : List.lookup y ((x, Readiness.pending) :: scope) = scope.lookup y := by
          rw [List.lookup_cons, beq_false_of_ne hne]
        rw [hs]
        cases depth with
        | zero => rw [sees_zero, sees_zero, skip]
        | succ depth => rw [sees_succ, sees_succ, skip]

theorem Sound.declare {c : Context} (h : c.Sound) {x : Token} (hx : x.IsName) :
    (c.declare x.lexeme).Calm where
  settled y depth hs := by
    by_cases hy : y = x.lexeme
    · subst hy
      unfold Context.declare at hs ⊢
      split
      · next hc =>
          simp only [hc] at hs
          cases hs
      · next scope outer hc =>
          simp only [hc] at hs
          split
          · next hd =>
              rw [if_pos hd] at hs
              exact absurd hs (h.settled _ _)
          · next hd =>
              rw [if_neg hd] at hs
              obtain ⟨rfl, -⟩ := hs.unique (.here List.lookup_cons_self)
              exact ⟨rfl, by simp [isPending]⟩
    · exact absurd ((sees_declare_of_ne hy).1 hs) (h.settled _ _)
  receiver hc := by
    rw [(declare_kinds c _).2] at hc
    obtain ⟨depth, hs⟩ := h.receiver hc
    exact ⟨depth, (sees_declare_of_ne hx.not_this.symm).2 hs⟩
  parent hc := by
    rw [(declare_kinds c _).2] at hc
    obtain ⟨depth, hs, hs'⟩ := h.parent hc
    exact ⟨depth, (sees_declare_of_ne hx.not_this.symm).2 hs,
      (sees_declare_of_ne hx.not_super.symm).2 hs'⟩

theorem sees_of_isPending {c : Context} {x : String} (h : c.isPending x = true) :
    Sees c.scopes x 0 .pending := by
  unfold isPending at h
  split at h
  · cases h
  · next scope outer hs =>
      rw [hs]
      exact .here (beq_iff_eq.1 h)

/-- Only the declared variable itself can be pending in its initializer. -/
theorem Sound.eq_of_isPending {c : Context} (h : c.Sound) {x y : String}
    (hp : (c.declare x).isPending y = true) : y = x := by
  by_cases hne : y = x
  · exact hne
  · exact absurd ((sees_declare_of_ne hne).1 (sees_of_isPending hp)) (h.settled _ _)

theorem Sound.isPending_eq {c : Context} (h : c.Sound) (x : String) : c.isPending x = false :=
  Bool.eq_false_iff.2 fun hp => h.settled _ _ (sees_of_isPending hp)

/-- Pending names are local. -/
theorem Sound.scopes_of_isPending {c : Context} (h : c.Sound) {x y : String}
    (hp : (c.declare x).isPending y = true) : c.scopes.isEmpty = false := by
  cases hs : c.scopes with
  | cons => rfl
  | nil =>
      unfold Context.declare at hp
      rw [hs] at hp
      dsimp only at hp
      rw [h.isPending_eq] at hp
      cases hp

theorem introduce_isEmpty (c : Context) (x : String) :
    (c.introduce x).scopes.isEmpty = c.scopes.isEmpty := by
  cases hs : c.scopes with
  | nil => rw [introduce_of_nil hs, hs]
  | cons scope outer =>
      obtain ⟨scope', heq, -⟩ := introduce_scopes hs x
      rw [heq]
      rfl

theorem inFunction_isEmpty (c : Context) (kind : Body) (ps : List Token) :
    (c.inFunction kind ps).scopes.isEmpty = false := by
  have stays : ∀ {c : Context}, c.scopes.isEmpty = false →
      (ps.foldl (fun c p => c.introduce p.lexeme) c).scopes.isEmpty = false := by
    induction ps with
    | nil => exact id
    | cons p ps ih => exact fun h => ih ((introduce_isEmpty _ _).trans h)
  exact stays rfl

/-- A name that is not pending refers to what its depth says. -/
theorem Calm.refers {c : Context} (h : c.Calm) {x : String} (hp : c.isPending x = false) :
    c.Refers x (c.depthOf? x) := by
  rcases depthOf?_cases c x with ⟨depth, r, heq, sees⟩ | ⟨heq, misses⟩
  · rw [heq]
    cases r with
    | ready => exact sees
    | pending => rw [(h.settled _ _ sees).2] at hp; cases hp
  · rw [heq]
    exact misses

end Context

end LoxLang
