import LoxLang.Proofs.Correspondence
import LoxLang.Proofs.Renaming

/-!
# Machines of renamed programs

When a program and the program with a renamed variable run, their machines hold
the same frames. In a frame that was made for a renamed scope the variable is
found under its other name. Which frames these are is written down as they are
made, so that a list of marks grows with the store. Where a scope is in force,
its frames are marked as the scopes of the tree are, and so they are for the
scopes that closures keep.
-/

namespace LoxLang

/-- Which frames were made for a renamed scope, the first frame first. -/
abbrev MarkedFrames := List Bool

/-- The frames of a scope are marked as the marks say. -/
def Marks.Fit (marks : Marks) (w : MarkedFrames) (scope : Scope) : Prop :=
  ∀ depth frame, scope[depth]? = some frame → w[frame]? = some (marks depth)

section Marks

variable {marks : Marks} {w w' : MarkedFrames} {scope : Scope} {frame : Nat} {marked : Bool}

theorem getElem?_of_isPrefix (more : w <+: w') (h : w[frame]? = some marked) :
    w'[frame]? = some marked := by
  obtain ⟨later, rfl⟩ := more
  exact List.getElem?_append_left (List.getElem?_eq_some_iff.1 h).1 ▸ h

theorem Marks.Fit.mono (h : marks.Fit w scope) (more : w <+: w') : marks.Fit w' scope :=
  fun depth frame hd => getElem?_of_isPrefix more (h depth frame hd)

theorem Marks.Fit.push (h : marks.Fit w scope) (here : w[frame]? = some marked) :
    (marks.push marked).Fit w (frame :: scope) := by
  intro depth other hd
  cases depth with
  | zero =>
      cases hd
      exact here
  | succ depth => exact h depth other hd

end Marks

variable (x y : String)

/-! ## Values -/

/-- The closures have the same scope, and the declaration of the second is that of the first with
the variable renamed as the frames say. `within` leads from the marks of the scope to those that the
declaration is seen from. -/
structure Closure.Renamed (w : MarkedFrames) (within : Marks → Marks) (f f' : Closure) : Prop where
  declaration : ∃ marks : Marks, marks.Fit w f.scope ∧
    f.declaration.Renamed x y (within marks) f'.declaration
  scope : f'.scope = f.scope
  isInitializer : f'.isInitializer = f.isInitializer

/-- A method is kept without the scope of `this`. -/
def Closure.MethodRenamed (w : MarkedFrames) (f f' : Closure) : Prop :=
  f.Renamed x y w (·.push false) f'

structure ClassLayer.Renamed (w : MarkedFrames) (k k' : ClassLayer) : Prop where
  id : k'.id = k.id
  name : k'.name = k.name
  methods : List.Forall₂
    (fun entry entry' => entry'.1 = entry.1 ∧ entry.2.MethodRenamed x y w entry'.2)
    k.methods k'.methods

/-- The classes have the same methods but for renamed variables, and so do their superclasses. -/
def Class.Renamed (w : MarkedFrames) (k k' : Class) : Prop :=
  List.Forall₂ (ClassLayer.Renamed x y w) k.layers k'.layers

/-- The values are the same but for renamed variables in the code that they carry. -/
inductive Value.Renamed (w : MarkedFrames) : Value → Value → Prop
  | nil : Value.Renamed w .nil .nil
  | bool (b : Bool) : Value.Renamed w (.bool b) (.bool b)
  | number (n : Float) : Value.Renamed w (.number n) (.number n)
  | string (s : String) : Value.Renamed w (.string s) (.string s)
  | clock : Value.Renamed w .clock .clock
  | function {id : Nat} {f f' : Closure} (closure : f.Renamed x y w (·) f') :
      Value.Renamed w (.function id f) (.function id f')
  | ofClass {k k' : Class} (ofClass : k.Renamed x y w k') :
      Value.Renamed w (.ofClass k) (.ofClass k')
  | object {id : Nat} {k k' : Class} (ofClass : k.Renamed x y w k') :
      Value.Renamed w (.object id k) (.object id k')

inductive Flow.Renamed (w : MarkedFrames) : Flow → Flow → Prop
  | next : Flow.Renamed w .next .next
  | returned {v v' : Value} (value : v.Renamed x y w v') :
      Flow.Renamed w (.returned v) (.returned v')

inductive Callable.Renamed (w : MarkedFrames) : Callable → Callable → Prop
  | clock : Callable.Renamed w .clock .clock
  | closure {f f' : Closure} (closure : f.Renamed x y w (·) f') :
      Callable.Renamed w (.closure f) (.closure f')
  | construct {k k' : Class} (ofClass : k.Renamed x y w k') :
      Callable.Renamed w (.construct k) (.construct k')

/-! ## Machines -/

/-- The frames hold the same values under the same names, but for the variable in those that are
marked. -/
structure Store.Renamed (w : MarkedFrames) (s s' : Store Value) : Prop where
  size : s'.frames.size = s.frames.size
  marked : w.length = s.frames.size
  read : ∀ {frame marked}, w[frame]? = some marked → ∀ {z}, z ≠ y →
    Option.Rel (Value.Renamed x y w) (s.read? frame z)
      (s'.read? frame (renamedName x y marked z))

/-- The objects have the same fields. -/
structure FieldsRenamed (w : MarkedFrames) (s s' : Store Value) : Prop where
  size : s'.frames.size = s.frames.size
  read : ∀ id z, Option.Rel (Value.Renamed x y w) (s.read? id z) (s'.read? id z)

/-- The machines are the same but for the renamed variable. No variable of the global scope is
renamed. -/
structure Machine.Renamed (w : MarkedFrames) (m m' : Machine) : Prop where
  store : m.store.Renamed x y w m'.store
  globals : w[Machine.globalFrame]? = some false
  fields : FieldsRenamed x y w ⟨m.fields⟩ ⟨m'.fields⟩
  rest : m'.rest = m.rest

variable {x y} {w w' : MarkedFrames}

/-! ## More frames -/

section Growth

variable {within : Marks → Marks} {f f' : Closure} {k k' : Class} {v v' : Value}

theorem Closure.Renamed.mono (h : f.Renamed x y w within f') (more : w <+: w') :
    f.Renamed x y w' within f' := by
  obtain ⟨marks, fit, declaration⟩ := h.declaration
  exact ⟨⟨marks, fit.mono more, declaration⟩, h.scope, h.isInitializer⟩

theorem ClassLayer.Renamed.mono {k k' : ClassLayer} (h : k.Renamed x y w k') (more : w <+: w') :
    k.Renamed x y w' k' :=
  ⟨h.id, h.name, h.methods.imp fun _ _ => And.imp_right fun method =>
    Closure.Renamed.mono method more⟩

theorem Class.Renamed.mono (h : k.Renamed x y w k') (more : w <+: w') : k.Renamed x y w' k' :=
  List.Forall₂.imp (fun _ _ layer => layer.mono more) h

theorem Value.Renamed.mono (h : v.Renamed x y w v') (more : w <+: w') : v.Renamed x y w' v' := by
  cases h with
  | nil => exact .nil
  | bool b => exact .bool b
  | number n => exact .number n
  | string s => exact .string s
  | clock => exact .clock
  | function h => exact .function (h.mono more)
  | ofClass h => exact .ofClass (h.mono more)
  | object h => exact .object (h.mono more)

theorem Value.forall₂_mono {vs vs' : List Value} (h : List.Forall₂ (Value.Renamed x y w) vs vs')
    (more : w <+: w') : List.Forall₂ (Value.Renamed x y w') vs vs' :=
  h.imp fun _ _ hv => hv.mono more

end Growth

/-! ## What values show -/

/-- What operators and printing see of a value. -/
def Value.face : Value → Value
  | .function id f => .function id ⟨⟨f.declaration.name, [], []⟩, [], false⟩
  | .ofClass k => .ofClass ⟨⟨k.own.id, k.own.name, []⟩, []⟩
  | .object id k => .object id ⟨⟨k.own.id, k.own.name, []⟩, []⟩
  | v => v

section Faces

variable (v u : Value)

theorem Value.truthy_face : v.face.truthy = v.truthy := by
  cases v <;> rfl

theorem Value.text_face : v.face.text = v.text := by
  cases v with
  | bool b => rfl
  | _ => rfl

theorem Value.same_face : v.face.same u.face = v.same u := by
  cases v <;> cases u <;> rfl

theorem Value.unary_face (operator : Token.Kind) : v.face.unary operator = v.unary operator := by
  by_cases minus : operator = .symbol .minus
  · subst minus
    cases v <;> rfl
  by_cases bang : operator = .symbol .bang
  · subst bang
    cases v <;> rfl
  · rw [Value.unary_of_ne v minus bang, Value.unary_of_ne v.face minus bang]

theorem Value.numeric_face (f : Float → Float → Value) :
    Value.numeric f v.face u.face = Value.numeric f v u := by
  cases v <;> cases u <;> rfl

theorem Value.add_face : v.face.add u.face = v.add u := by
  cases v <;> cases u <;> rfl

theorem Value.binary_face (operator : Token.Kind) :
    v.face.binary operator u.face = v.binary operator u := by
  simp only [Value.binary, Value.add_face, Value.numeric_face, Value.same_face]

end Faces

theorem Class.Renamed.own {k k' : Class} (h : k.Renamed x y w k') : k.own.Renamed x y w k'.own :=
  (List.forall₂_cons.1 h).1

namespace Value.Renamed

variable {v v' u u' : Value}

theorem face_eq (h : v.Renamed x y w v') : v'.face = v.face := by
  cases h with
  | function h =>
      obtain ⟨marks, -, declaration⟩ := h.declaration
      rw [Value.face, Value.face, declaration.name_eq]
  | ofClass h => rw [Value.face, Value.face, h.own.id, h.own.name]
  | object h => rw [Value.face, Value.face, h.own.id, h.own.name]
  | _ => rfl

theorem truthy_eq (h : v.Renamed x y w v') : v'.truthy = v.truthy := by
  rw [← Value.truthy_face, h.face_eq, Value.truthy_face]

theorem text_eq (h : v.Renamed x y w v') : v'.text = v.text := by
  rw [← Value.text_face, h.face_eq, Value.text_face]

theorem unary_eq (h : v.Renamed x y w v') (operator : Token.Kind) :
    v'.unary operator = v.unary operator := by
  rw [← Value.unary_face, h.face_eq, Value.unary_face]

theorem binary_eq (h : v.Renamed x y w v') (hu : u.Renamed x y w u') (operator : Token.Kind) :
    v'.binary operator u' = v.binary operator u := by
  rw [← Value.binary_face, h.face_eq, hu.face_eq, Value.binary_face]

theorem shortCircuits_eq (h : v.Renamed x y w v') (t : Token) :
    v'.shortCircuits t = v.shortCircuits t := by
  rw [Value.shortCircuits, Value.shortCircuits, h.truthy_eq]

theorem callable (h : v.Renamed x y w v') :
    Option.Rel (Callable.Renamed x y w) v.callable? v'.callable? := by
  cases h with
  | clock => exact .some .clock
  | function closure => exact .some (.closure closure)
  | ofClass h => exact .some (.construct h)
  | _ => exact .none

end Value.Renamed

/-! ## Methods -/

theorem lookup_renamed {ms ms' : List (String × Closure)}
    (h : List.Forall₂
      (fun entry entry' => entry'.1 = entry.1 ∧ entry.2.MethodRenamed x y w entry'.2) ms ms')
    (z : String) :
    Option.Rel (Closure.MethodRenamed x y w) (ms.lookup z) (ms'.lookup z) := by
  induction h with
  | nil => exact .none
  | @cons entry entry' _ _ h _ ih =>
      obtain ⟨name, f⟩ := entry
      obtain ⟨name', g⟩ := entry'
      obtain ⟨same, h⟩ := h
      cases same
      rw [List.lookup_cons, List.lookup_cons]
      cases z == name with
      | true => exact .some h
      | false => exact ih

theorem Class.Renamed.method {k k' : Class} (h : k.Renamed x y w k') (z : String) :
    Option.Rel (Closure.MethodRenamed x y w) (k.method? z) (k'.method? z) := by
  unfold Class.Renamed at h
  unfold Class.method?
  generalize k.layers = layers, k'.layers = layers' at h
  induction h with
  | nil => exact .none
  | cons h _ ih =>
      rw [List.findSome?_cons, List.findSome?_cons]
      rcases rel_cases (lookup_renamed h.methods z) with ⟨h₁, h₂⟩ | ⟨f, g, h₁, h₂, hf⟩
      · rw [h₁, h₂]
        exact ih
      · rw [h₁, h₂]
        exact .some hf

theorem Callable.Renamed.arity_eq {f f' : Callable} (h : f.Renamed x y w f') :
    f'.arity = f.arity := by
  cases h with
  | clock => rfl
  | closure h =>
      obtain ⟨_, -, declaration⟩ := h.declaration
      exact declaration.arity_eq
  | construct h =>
      simp only [Callable.arity]
      rcases rel_cases (h.method initializerName) with ⟨h₁, h₂⟩ | ⟨f, g, h₁, h₂, hf⟩
      · rw [Class.initializer?, Class.initializer?, h₁, h₂]
      · obtain ⟨_, -, declaration⟩ := hf.declaration
        rw [Class.initializer?, Class.initializer?, h₁, h₂]
        exact declaration.arity_eq

/-! ## Tables -/

/-- Names that are not the new one are the same after renaming only if they were before. -/
theorem renamedName_inj {marked : Bool} {z u : String} (hz : z ≠ y) (hu : u ≠ y) :
    renamedName x y marked z = renamedName x y marked u ↔ z = u :=
  ⟨fun same => by_contra fun h => renamedName_ne hz hu h same, congrArg _⟩

section Tables

variable {s s' : Store Value} {v v' : Value} {frame : Nat} {marked : Bool} {z : String}

theorem Store.Renamed.binds_eq (h : s.Renamed x y w s') (here : w[frame]? = some marked)
    (hz : z ≠ y) : s'.binds frame (renamedName x y marked z) = s.binds frame z := by
  unfold Store.binds
  rcases rel_cases (h.read here hz) with ⟨h₁, h₂⟩ | ⟨v, v', h₁, h₂, -⟩ <;> rw [h₁, h₂]
  rfl

theorem Store.Renamed.write (h : s.Renamed x y w s') (here : w[frame]? = some marked)
    (hz : z ≠ y) (hv : v.Renamed x y w v') :
    (s.write frame z v).Renamed x y w (s'.write frame (renamedName x y marked z) v') where
  size := by rw [Store.size_write, Store.size_write, h.size]
  marked := by rw [Store.size_write, h.marked]
  read {other m} hm {u} hu := by
    rw [Store.read?_write, Store.read?_write, h.size]
    by_cases same : other = frame
    · subst same
      cases Option.some.inj (hm.symm.trans here)
      simp only [true_and, renamedName_inj hu hz]
      split
      · exact .some hv
      · exact h.read here hu
    · rw [if_neg fun at' => same at'.1, if_neg fun at' => same at'.1]
      exact h.read hm hu

/-- A new frame may be marked or not. -/
theorem Store.Renamed.enter (h : s.Renamed x y w s') (outer : Scope) (marked : Bool) :
    (s.enter outer).2.Renamed x y (w ++ [marked]) (s'.enter outer).2 where
  size := by rw [Store.size_enter, Store.size_enter, h.size]
  marked := by rw [List.length_append, Store.size_enter, h.marked, List.length_singleton]
  read {frame m} hm {z} hz := by
    rw [Store.read?_enter, Store.read?_enter]
    rcases Nat.lt_or_ge frame w.length with old | new
    · rw [List.getElem?_append_left old] at hm
      exact rel_imp (fun _ _ hv => hv.mono (List.prefix_append ..)) (h.read hm hz)
    · rw [h.marked] at new
      rw [Store.read?_of_size_le new, Store.read?_of_size_le (h.size ▸ new)]
      exact .none

theorem Store.Renamed.define {marks : Marks} {scope : Scope} (h : s.Renamed x y w s')
    (fit : marks.Fit w scope) (hz : z ≠ y) (hv : v.Renamed x y w v') :
    (s.define scope z v).Renamed x y w (s'.define scope (renamedName x y (marks 0) z) v') := by
  cases scope with
  | nil => exact h
  | cons frame outer => exact h.write (fit 0 frame rfl) hz hv

theorem Store.Renamed.frameAt?_eq {marks : Marks} {scope : Scope} (h : s.Renamed x y w s')
    (fit : marks.Fit w scope) (hz : z ≠ y) (distance : Nat) :
    s'.frameAt? scope distance (renamedName x y (marks distance) z) =
      s.frameAt? scope distance z := by
  unfold Store.frameAt?
  cases hd : scope[distance]? with
  | none => rfl
  | some frame =>
      rw [Option.filter_some, Option.filter_some, h.binds_eq (fit distance frame hd) hz]

theorem Store.Renamed.getAt? {marks : Marks} {scope : Scope} (h : s.Renamed x y w s')
    (fit : marks.Fit w scope) (hz : z ≠ y) (distance : Nat) :
    Option.Rel (Value.Renamed x y w) (s.getAt? scope distance z)
      (s'.getAt? scope distance (renamedName x y (marks distance) z)) := by
  unfold Store.getAt?
  rw [h.frameAt?_eq fit hz]
  cases hf : s.frameAt? scope distance z with
  | none => exact .none
  | some frame => exact h.read (fit distance frame (Store.frame_of_frameAt? hf)) hz

end Tables

end LoxLang
