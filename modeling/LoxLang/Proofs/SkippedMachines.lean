import LoxLang.Proofs.Alike
import LoxLang.Proofs.SkippedScopes
import LoxLang.Proofs.WrittenEvaluation

/-!
# Machines with and without the extra scopes

A machine that runs a program without `for` statements makes a frame for every
extra scope. What a frame was made for is written down when it is made: a list
that grows with the store says for each frame which one stands for it where the
program runs as it is written, or that none does. A frame that none stands for
never binds anything, so it is passed over by every search.

The scopes that are in force, and those that closures keep, have the frames that
the layers say: one on each side for a kept layer, and one on the first side only
for an extra one.
-/

namespace LoxLang

open Layers (Steps)
open Written (Place State)

/-- For each frame the one that stands for it, the first frame first. -/
abbrev SkippedFrames := List (Option Nat)

section Frames

variable {w w' : SkippedFrames} {frame : Nat} {o : Option Nat}

theorem SkippedFrames.getElem?_mono (more : w <+: w') (h : w[frame]? = some o) :
    w'[frame]? = some o := by
  obtain ⟨later, rfl⟩ := more
  exact List.getElem?_append_left (List.getElem?_eq_some_iff.1 h).1 ▸ h

/-- A frame is an old one or the new one. -/
theorem SkippedFrames.getElem?_concat {o' : Option Nat} (h : (w ++ [o])[frame]? = some o') :
    w[frame]? = some o' ∨ frame = w.length ∧ o = o' := by
  rw [List.getElem?_append] at h
  split at h
  · exact .inl h
  · obtain ⟨here, same⟩ := List.getElem?_eq_some_iff.1 h
    rw [List.length_singleton] at here
    refine .inr ⟨by omega, ?_⟩
    rwa [List.getElem_singleton] at same

end Frames

/-- The frames of the two scopes stand for each other as the layers say, and in the global scope
they are the global ones. -/
inductive Layers.Fit (w : SkippedFrames) : Layers → Scope → Scope → Prop
  | global (here : w[Machine.globalFrame]? = some (some Machine.globalFrame)) :
      Layers.Fit w [] Machine.globalScope Machine.globalScope
  | kept {layers : Layers} {scope scope' : Scope} {frame frame' : Nat}
      (here : w[frame]? = some (some frame')) (outer : layers.Fit w scope scope') :
      Layers.Fit w (.kept :: layers) (frame :: scope) (frame' :: scope')
  | extra {layers : Layers} {scope scope' : Scope} {frame : Nat} (here : w[frame]? = some none)
      (outer : layers.Fit w scope scope') :
      Layers.Fit w (.extra :: layers) (frame :: scope) scope'

namespace Layers.Fit

variable {w w' : SkippedFrames} {layers : Layers} {scope scope' : Scope}

theorem mono (h : layers.Fit w scope scope') (more : w <+: w') : layers.Fit w' scope scope' := by
  induction h with
  | global here => exact .global (SkippedFrames.getElem?_mono more here)
  | kept here _ ih => exact .kept (SkippedFrames.getElem?_mono more here) ih
  | extra here _ ih => exact .extra (SkippedFrames.getElem?_mono more here) ih

/-- Depths that lead to the same layer lead to frames that stand for each other. -/
theorem at_steps (h : layers.Fit w scope scope') {n n' : Nat} (steps : Steps layers n n') :
    ∃ frame frame', scope[n]? = some frame ∧ scope'[n']? = some frame' ∧
      w[frame]? = some (some frame') := by
  induction steps generalizing scope scope' with
  | here =>
      cases h with
      | kept here _ => exact ⟨_, _, rfl, rfl, here⟩
  | kept _ ih =>
      cases h with
      | kept _ outer => exact ih outer
  | extra _ ih =>
      cases h with
      | extra _ outer => exact ih outer

/-- Where something may be declared, the innermost frames stand for each other. -/
theorem innermost (h : layers.Fit w scope scope') (isOpen : layers.Open) :
    ∃ frame outer frame' outer', scope = frame :: outer ∧ scope' = frame' :: outer' ∧
      w[frame]? = some (some frame') := by
  cases h with
  | global here => exact ⟨_, _, _, _, rfl, rfl, here⟩
  | kept here _ => exact ⟨_, _, _, _, rfl, rfl, here⟩
  | extra => exact absurd rfl isOpen

end Layers.Fit

/-! ## Values -/

/-- The closures have the same code but for depths, and their scopes fit. `within` leads from the
layers of the scope to those that the declaration is seen from. -/
structure Closure.Skips (w : SkippedFrames) (within : Layers → Layers) (f : Closure)
    (f' : Closure Place) : Prop where
  code : ∃ layers : Layers, layers.Fit w f.scope f'.scope.scope ∧ (within layers).Open ∧
    Stmt.AllSkip (.kept :: within layers) f.declaration.body f'.scope.body
  name : f'.declaration.name = f.declaration.name
  parameters : f'.declaration.parameters = f.declaration.parameters
  isInitializer : f'.isInitializer = f.isInitializer

/-- A method is kept without the scope of `this`. -/
def Closure.MethodSkips (w : SkippedFrames) (f : Closure) (f' : Closure Place) : Prop :=
  f.Skips w (.kept :: ·) f'

structure ClassLayer.Skips (w : SkippedFrames) (k : ClassLayer) (k' : ClassLayer Place) :
    Prop where
  id : k'.id = k.id
  name : k'.name = k.name
  methods : List.Forall₂
    (fun entry entry' => entry'.1 = entry.1 ∧ entry.2.MethodSkips w entry'.2) k.methods k'.methods

/-- The classes have the same methods but for depths, and so do their superclasses. -/
def Class.Skips (w : SkippedFrames) (k : Class) (k' : Class Place) : Prop :=
  List.Forall₂ (ClassLayer.Skips w) k.layers k'.layers

/-- The values are the same but for depths in the code that they carry. -/
inductive Value.Skips (w : SkippedFrames) : Value → Value Place → Prop
  | nil : Value.Skips w .nil .nil
  | bool (b : Bool) : Value.Skips w (.bool b) (.bool b)
  | number (x : Float) : Value.Skips w (.number x) (.number x)
  | string (s : String) : Value.Skips w (.string s) (.string s)
  | clock : Value.Skips w .clock .clock
  | function {id : Nat} {f : Closure} {f' : Closure Place} (closure : f.Skips w (·) f') :
      Value.Skips w (.function id f) (.function id f')
  | ofClass {k : Class} {k' : Class Place} (ofClass : k.Skips w k') :
      Value.Skips w (.ofClass k) (.ofClass k')
  | object {id : Nat} {k : Class} {k' : Class Place} (ofClass : k.Skips w k') :
      Value.Skips w (.object id k) (.object id k')

inductive Flow.Skips (w : SkippedFrames) : Flow → Flow Place → Prop
  | next : Flow.Skips w .next .next
  | returned {v : Value} {v' : Value Place} (value : v.Skips w v') :
      Flow.Skips w (.returned v) (.returned v')

inductive Callable.Skips (w : SkippedFrames) : Callable → Callable Place → Prop
  | clock : Callable.Skips w .clock .clock
  | closure {f : Closure} {f' : Closure Place} (closure : f.Skips w (·) f') :
      Callable.Skips w (.closure f) (.closure f')
  | construct {k : Class} {k' : Class Place} (ofClass : k.Skips w k') :
      Callable.Skips w (.construct k) (.construct k')

/-! ## Machines -/

/-- A frame holds what the one that stands for it holds, and nothing if none does. -/
structure Store.Skips (w : SkippedFrames) (s : Store Value) (s' : Store (Value Place)) :
    Prop where
  tracked : w.length = s.frames.size
  inside : ∀ {frame frame' : Nat}, w[frame]? = some (some frame') → frame' < s'.frames.size
  distinct : ∀ {frame other frame' : Nat}, w[frame]? = some (some frame') →
    w[other]? = some (some frame') → other = frame
  read : ∀ {frame frame' : Nat}, w[frame]? = some (some frame') → ∀ x,
    Option.Rel (Value.Skips w) (s.read? frame x) (s'.read? frame' x)
  empty : ∀ {frame : Nat}, w[frame]? = some none → ∀ x, s.read? frame x = none

/-- The objects have the same fields. -/
structure FieldsSkip (w : SkippedFrames) (s : Store Value) (s' : Store (Value Place)) : Prop where
  size : s'.frames.size = s.frames.size
  read : ∀ id x, Option.Rel (Value.Skips w) (s.read? id x) (s'.read? id x)

/-- Everything that a state holds besides bindings, fields and the scope in force. -/
def Written.State.rest (m : State) : Nat × Nat × Array String × (Nat → Float) × Nat :=
  (m.calls, m.nextId, m.printed, m.clock, m.readings)

/-- The machines are the same but for the extra frames. -/
structure Machine.Skips (w : SkippedFrames) (m : Machine) (m' : State) : Prop where
  store : m.store.Skips w m'.store
  globals : w[Machine.globalFrame]? = some (some Machine.globalFrame)
  fields : FieldsSkip w ⟨m.fields⟩ ⟨m'.fields⟩
  rest : m'.rest = m.rest.2

variable {w w' : SkippedFrames}

/-! ## More frames -/

section Growth

variable {within : Layers → Layers} {f : Closure} {f' : Closure Place} {k : Class}
  {k' : Class Place} {v : Value} {v' : Value Place}

theorem Closure.Skips.mono (h : f.Skips w within f') (more : w <+: w') :
    f.Skips w' within f' := by
  obtain ⟨layers, fit, code⟩ := h.code
  exact ⟨⟨layers, fit.mono more, code⟩, h.name, h.parameters, h.isInitializer⟩

theorem Class.Skips.mono (h : k.Skips w k') (more : w <+: w') : k.Skips w' k' :=
  List.Forall₂.imp (fun _ _ layer => ⟨layer.id, layer.name, layer.methods.imp fun _ _ =>
    And.imp_right fun method => Closure.Skips.mono method more⟩) h

theorem Value.Skips.mono (h : v.Skips w v') (more : w <+: w') : v.Skips w' v' := by
  cases h with
  | nil => exact .nil
  | bool b => exact .bool b
  | number x => exact .number x
  | string s => exact .string s
  | clock => exact .clock
  | function h => exact .function (h.mono more)
  | ofClass h => exact .ofClass (h.mono more)
  | object h => exact .object (h.mono more)

theorem Value.allSkip_mono {vs : List Value} {vs' : List (Value Place)}
    (h : List.Forall₂ (Value.Skips w) vs vs') (more : w <+: w') :
    List.Forall₂ (Value.Skips w') vs vs' := h.imp fun _ _ hv => hv.mono more

end Growth

/-! ## What values show -/

/-- A value without the code that it carries: what operators and printing see of it. -/
def Value.bare {σ : Type} : Value σ → Value Unit
  | .nil => .nil
  | .bool b => .bool b
  | .number x => .number x
  | .string s => .string s
  | .clock => .clock
  | .function id f => .function id ⟨⟨f.declaration.name, [], []⟩, (), false⟩
  | .ofClass k => .ofClass ⟨⟨k.own.id, k.own.name, []⟩, []⟩
  | .object id k => .object id ⟨⟨k.own.id, k.own.name, []⟩, []⟩

section Bare

variable {σ : Type} (v u : Value σ)

theorem Value.truthy_bare : v.bare.truthy = v.truthy := by
  cases v <;> rfl

theorem Value.text_bare : v.bare.text = v.text := by
  cases v with
  | bool b => cases b <;> rfl
  | _ => rfl

theorem Value.same_bare : v.bare.same u.bare = v.same u := by
  cases v <;> cases u <;> rfl

theorem Value.unary_bare (operator : Token.Kind) :
    v.bare.unary operator = (v.unary operator).map Value.bare := by
  by_cases minus : operator = .symbol .minus
  · subst minus
    cases v <;> rfl
  by_cases bang : operator = .symbol .bang
  · subst bang
    cases v <;> rfl
  · rw [Value.unary_of_ne v minus bang, Value.unary_of_ne v.bare minus bang]
    rfl

theorem Value.numeric_bare {f : Float → Float → Value Unit} {g : Float → Float → Value σ}
    (hf : ∀ x y, f x y = (g x y).bare) :
    Value.numeric f v.bare u.bare = (Value.numeric g v u).map Value.bare := by
  cases v with
  | number x =>
      cases u with
      | number y => exact congrArg Except.ok (hf x y)
      | _ => rfl
  | _ => cases u <;> rfl

theorem Value.add_bare : v.bare.add u.bare = (v.add u).map Value.bare := by
  cases v <;> cases u <;> rfl

theorem Value.binary_bare (operator : Token.Kind) :
    v.bare.binary operator u.bare = (v.binary operator u).map Value.bare := by
  unfold Value.binary
  split
  · exact v.add_bare u
  · exact v.numeric_bare u fun _ _ => rfl
  · exact v.numeric_bare u fun _ _ => rfl
  · exact v.numeric_bare u fun _ _ => rfl
  · exact v.numeric_bare u fun _ _ => rfl
  · exact v.numeric_bare u fun _ _ => rfl
  · exact v.numeric_bare u fun _ _ => rfl
  · exact v.numeric_bare u fun _ _ => rfl
  · rw [Value.same_bare]
    rfl
  · rw [Value.same_bare]
    rfl
  · rfl

end Bare

theorem Class.Skips.own {k : Class} {k' : Class Place} (h : k.Skips w k') :
    k.own.Skips w k'.own := (List.forall₂_cons.1 h).1

/-- Data that shows the same is the same. -/
theorem Value.IsData.skips {v : Value} {v' : Value Place} (h : v.IsData)
    (same : v'.bare = v.bare) : v.Skips w v' := by
  cases h with
  | bool b =>
      cases v' <;> cases same
      exact .bool b
  | number x =>
      cases v' <;> cases same
      exact .number x
  | string s =>
      cases v' <;> cases same
      exact .string s

namespace Value.Skips

variable {v u : Value} {v' u' : Value Place}

theorem bare_eq (h : v.Skips w v') : v'.bare = v.bare := by
  cases h with
  | function h => rw [Value.bare, Value.bare, h.name]
  | ofClass h => rw [Value.bare, Value.bare, h.own.id, h.own.name]
  | object h => rw [Value.bare, Value.bare, h.own.id, h.own.name]
  | _ => rfl

theorem truthy_eq (h : v.Skips w v') : v'.truthy = v.truthy := by
  rw [← Value.truthy_bare, h.bare_eq, Value.truthy_bare]

theorem text_eq (h : v.Skips w v') : v'.text = v.text := by
  rw [← Value.text_bare, h.bare_eq, Value.text_bare]

theorem unary_eq (h : v.Skips w v') (operator : Token.Kind) :
    (v'.unary operator).map Value.bare = (v.unary operator).map Value.bare := by
  rw [← Value.unary_bare, h.bare_eq, Value.unary_bare]

theorem binary_eq (h : v.Skips w v') (hu : u.Skips w u') (operator : Token.Kind) :
    (v'.binary operator u').map Value.bare = (v.binary operator u).map Value.bare := by
  rw [← Value.binary_bare, h.bare_eq, hu.bare_eq, Value.binary_bare]

theorem shortCircuits_eq (h : v.Skips w v') (t : Token) :
    v'.shortCircuits t = v.shortCircuits t := by
  rw [Value.shortCircuits, Value.shortCircuits, h.truthy_eq]

theorem callable (h : v.Skips w v') : Option.Rel (Callable.Skips w) v.callable? v'.callable? := by
  cases h with
  | clock => exact .some .clock
  | function closure => exact .some (.closure closure)
  | ofClass h => exact .some (.construct h)
  | _ => exact .none

end Value.Skips

/-! ## Methods -/

theorem FunctionDecl.Skips.name_eq {layers : Layers} {f : FunctionDecl} {f' : Written.FunctionDecl}
    (h : f.Skips layers f') : f'.name = f.name := by
  cases h
  rfl

theorem FunctionDecl.Skips.isInitializer_eq {layers : Layers} {f : FunctionDecl}
    {f' : Written.FunctionDecl} (h : f.Skips layers f') : f'.isInitializer = f.isInitializer := by
  rw [Written.FunctionDecl.isInitializer, h.name_eq, FunctionDecl.isInitializer]

/-- Functions closed over scopes that fit. -/
theorem FunctionDecl.Skips.closed {layers : Layers} {within : Layers → Layers}
    {scope scope' : Scope} {isInitializer : Bool} {f : FunctionDecl} {f' : Written.FunctionDecl}
    (h : f.Skips (within layers) f') (fit : layers.Fit w scope scope')
    (isOpen : (within layers).Open) :
    Closure.Skips w within ⟨f, scope, isInitializer⟩ (f'.closed scope' isInitializer) := by
  cases h with
  | mk x ps body => exact ⟨⟨layers, fit, isOpen, body⟩, rfl, rfl, rfl⟩

theorem FunctionDecl.AllSkip.forall₂ {layers : Layers} :
    ∀ {fs : List FunctionDecl} {fs' : List Written.FunctionDecl},
      FunctionDecl.AllSkip layers fs fs' → List.Forall₂ (FunctionDecl.Skips layers) fs fs'
  | _, _, .nil => .nil
  | _, _, .cons head tail => .cons head tail.forall₂

/-- The methods of a class, closed over scopes that fit. -/
theorem FunctionDecl.AllSkip.methodTable {layers : Layers} {scope scope' : Scope}
    {fs : List FunctionDecl} {fs' : List Written.FunctionDecl}
    (h : FunctionDecl.AllSkip (.kept :: layers) fs fs') (fit : layers.Fit w scope scope') :
    List.Forall₂ (fun entry entry' => entry'.1 = entry.1 ∧ entry.2.MethodSkips w entry'.2)
      (MachineM.methodTable scope fs) (Written.methodTable scope' fs') := by
  unfold MachineM.methodTable Written.methodTable
  rw [List.forall₂_map_left_iff, List.forall₂_map_right_iff, List.forall₂_reverse_iff]
  refine h.forall₂.imp fun f f' hf => ⟨congrArg Token.lexeme hf.name_eq, ?_⟩
  rw [hf.isInitializer_eq]
  exact hf.closed fit .kept

theorem lookup_skips {ms : List (String × Closure)} {ms' : List (String × Closure Place)}
    (h : List.Forall₂ (fun entry entry' => entry'.1 = entry.1 ∧ entry.2.MethodSkips w entry'.2)
      ms ms') (x : String) :
    Option.Rel (Closure.MethodSkips w) (ms.lookup x) (ms'.lookup x) := by
  induction h with
  | nil => exact .none
  | @cons entry entry' _ _ h _ ih =>
      obtain ⟨name, f⟩ := entry
      obtain ⟨name', g⟩ := entry'
      obtain ⟨same, h⟩ := h
      cases same
      rw [List.lookup_cons, List.lookup_cons]
      cases x == name with
      | true => exact .some h
      | false => exact ih

theorem Class.Skips.method {k : Class} {k' : Class Place} (h : k.Skips w k') (x : String) :
    Option.Rel (Closure.MethodSkips w) (k.method? x) (k'.method? x) := by
  unfold Class.Skips at h
  unfold Class.method?
  generalize k.layers = layers, k'.layers = layers' at h
  induction h with
  | nil => exact .none
  | cons h _ ih =>
      rw [List.findSome?_cons, List.findSome?_cons]
      rcases rel_cases (lookup_skips h.methods x) with ⟨h₁, h₂⟩ | ⟨f, g, h₁, h₂, hf⟩
      · rw [h₁, h₂]
        exact ih
      · rw [h₁, h₂]
        exact .some hf

theorem Callable.Skips.arity_eq {f : Callable} {f' : Callable Place} (h : f.Skips w f') :
    f'.arity = f.arity := by
  cases h with
  | clock => rfl
  | closure h => exact congrArg List.length h.parameters
  | construct h =>
      simp only [Callable.arity]
      rcases rel_cases (h.method initializerName) with ⟨h₁, h₂⟩ | ⟨f, g, h₁, h₂, hf⟩
      · rw [Class.initializer?, Class.initializer?, h₁, h₂]
      · rw [Class.initializer?, Class.initializer?, h₁, h₂]
        exact congrArg List.length hf.parameters

/-! ## Stores -/

section Stores

variable {s : Store Value} {s' : Store (Value Place)} {v : Value} {v' : Value Place}
  {frame frame' : Nat} {x : String} {layers : Layers} {scope scope' : Scope}

namespace Store.Skips

theorem binds_eq (h : s.Skips w s') (here : w[frame]? = some (some frame')) (x : String) :
    s'.binds frame' x = s.binds frame x := by
  unfold Store.binds
  rcases rel_cases (h.read here x) with ⟨h₁, h₂⟩ | ⟨v, v', h₁, h₂, -⟩ <;> rw [h₁, h₂] <;> rfl

theorem write (h : s.Skips w s') (here : w[frame]? = some (some frame')) (hv : v.Skips w v') :
    (s.write frame x v).Skips w (s'.write frame' x v') where
  tracked := by rw [Store.size_write, h.tracked]
  inside hf := by
    rw [Store.size_write]
    exact h.inside hf
  distinct := h.distinct
  read {other other'} hf y := by
    have inside : frame < s.frames.size := by
      rw [← h.tracked]
      exact (List.getElem?_eq_some_iff.1 here).1
    -- No two frames have one that stands for both, so only this one sees the write.
    have same : other' = frame' ↔ other = frame := by
      constructor
      · rintro rfl
        exact h.distinct here hf
      · rintro rfl
        exact Option.some.inj (Option.some.inj (hf.symm.trans here))
    rw [Store.read?_write, Store.read?_write]
    simp only [same, inside, h.inside here, and_true]
    split
    · exact .some hv
    · exact h.read hf y
  empty {other} hf y := by
    have other_ne : other ≠ frame := by
      rintro rfl
      cases here.symm.trans hf
    rw [Store.read?_write, if_neg fun at' => other_ne at'.1]
    exact h.empty hf y

/-- A new frame on each side; they stand for each other. -/
theorem enter (h : s.Skips w s') (outer outer' : Scope) :
    (s.enter outer).2.Skips (w ++ [some s'.frames.size]) (s'.enter outer').2 where
  tracked := by rw [List.length_append, Store.size_enter, h.tracked, List.length_singleton]
  inside hf := by
    rw [Store.size_enter]
    obtain old | ⟨-, new⟩ := SkippedFrames.getElem?_concat hf
    · exact Nat.lt_succ_of_lt (h.inside old)
    · cases new
      exact Nat.lt_succ_self _
  distinct hf ho := by
    obtain old | ⟨rfl, new⟩ := SkippedFrames.getElem?_concat hf
    · obtain old' | ⟨-, new'⟩ := SkippedFrames.getElem?_concat ho
      · exact h.distinct old old'
      · cases new'
        exact absurd (h.inside old) (Nat.lt_irrefl _)
    · obtain old' | ⟨rfl, -⟩ := SkippedFrames.getElem?_concat ho
      · cases new
        exact absurd (h.inside old') (Nat.lt_irrefl _)
      · rfl
  read hf x := by
    rw [Store.read?_enter, Store.read?_enter]
    obtain old | ⟨rfl, new⟩ := SkippedFrames.getElem?_concat hf
    · exact rel_imp (fun _ _ hv => hv.mono (List.prefix_append ..)) (h.read old x)
    · cases new
      rw [Store.read?_of_size_le h.tracked.ge, Store.read?_of_size_le le_rfl]
      exact .none
  empty hf x := by
    rw [Store.read?_enter]
    obtain old | ⟨rfl, new⟩ := SkippedFrames.getElem?_concat hf
    · exact h.empty old x
    · cases new

/-- A new frame on the first side only; none stands for it. -/
theorem enterExtra (h : s.Skips w s') (outer : Scope) :
    (s.enter outer).2.Skips (w ++ [none]) s' where
  tracked := by rw [List.length_append, Store.size_enter, h.tracked, List.length_singleton]
  inside hf := by
    obtain old | ⟨-, new⟩ := SkippedFrames.getElem?_concat hf
    · exact h.inside old
    · cases new
  distinct hf ho := by
    obtain old | ⟨-, new⟩ := SkippedFrames.getElem?_concat hf
    · obtain old' | ⟨-, new'⟩ := SkippedFrames.getElem?_concat ho
      · exact h.distinct old old'
      · cases new'
    · cases new
  read hf x := by
    rw [Store.read?_enter]
    obtain old | ⟨-, new⟩ := SkippedFrames.getElem?_concat hf
    · exact rel_imp (fun _ _ hv => hv.mono (List.prefix_append ..)) (h.read old x)
    · cases new
  empty hf x := by
    rw [Store.read?_enter]
    obtain old | ⟨rfl, -⟩ := SkippedFrames.getElem?_concat hf
    · exact h.empty old x
    · exact Store.read?_of_size_le h.tracked.ge x

theorem define (h : s.Skips w s') (fit : layers.Fit w scope scope') (isOpen : layers.Open)
    (hv : v.Skips w v') : (s.define scope x v).Skips w (s'.define scope' x v') := by
  obtain ⟨frame, outer, frame', outer', rfl, rfl, here⟩ := fit.innermost isOpen
  exact h.write here hv

/-- Where depths lead to the same layer, the name is bound in both frames or in none. -/
theorem frameAt? (h : s.Skips w s') (fit : layers.Fit w scope scope') {n n' : Nat}
    (steps : Steps layers n n') (x : String) :
    Option.Rel (fun frame frame' => w[frame]? = some (some frame')) (s.frameAt? scope n x)
      (s'.frameAt? scope' n' x) := by
  obtain ⟨frame, frame', hn, hn', here⟩ := fit.at_steps steps
  unfold Store.frameAt?
  rw [hn, hn', Option.filter_some, Option.filter_some, h.binds_eq here]
  split
  · exact .some here
  · exact .none

theorem getAt? (h : s.Skips w s') (fit : layers.Fit w scope scope') {n n' : Nat}
    (steps : Steps layers n n') (x : String) :
    Option.Rel (Value.Skips w) (s.getAt? scope n x) (s'.getAt? scope' n' x) := by
  unfold Store.getAt?
  rcases rel_cases (h.frameAt? fit steps x) with ⟨h₁, h₂⟩ | ⟨frame, frame', h₁, h₂, here⟩ <;>
    rw [h₁, h₂]
  · exact .none
  · exact h.read here x

/-- A search by name passes over the extra frames. -/
theorem frame? (h : s.Skips w s') (fit : layers.Fit w scope scope') (x : String) :
    Option.Rel (fun frame frame' => w[frame]? = some (some frame')) (s.frame? scope x)
      (s'.frame? scope' x) := by
  unfold Store.frame?
  induction fit with
  | global here =>
      rw [Machine.globalScope, List.find?_singleton, List.find?_singleton, h.binds_eq here]
      split
      · exact .some here
      · exact .none
  | @kept _ _ _ frame frame' here _ ih =>
      rw [List.find?_cons, List.find?_cons, h.binds_eq here]
      cases s.binds frame x with
      | true => exact .some here
      | false => exact ih
  | @extra _ _ _ frame here _ ih =>
      have nothing : s.binds frame x = false := by
        rw [Store.binds, h.empty here, Option.isSome_none]
      rw [List.find?_cons, nothing]
      exact ih

end Store.Skips

end Stores

end LoxLang
