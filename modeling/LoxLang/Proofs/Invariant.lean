import LoxLang.Proofs.Effects
import LoxLang.Proofs.Resolved

/-!
# The invariant of evaluation

What ties a run to the contexts of resolution. A scope is *placed* at a context
if it has a frame for each tracked scope and each frame binds what its scope
declares and has ready. Functions and methods are kept in values and run much
later, so the invariant is about the whole heap: every closure in it is a
resolved declaration together with a scope placed at its context. Frames never
lose names, hence a scope that was placed stays placed.

`this` and `super` are bound like variables, but never assigned to. Wherever
they are bound, they are bound to an object and to a class.
-/

namespace LoxLang

/-! ## Scopes at contexts -/

/-- The scope has a frame for each tracked scope, and the frame binds the names that are ready. -/
inductive Placed (s : Store Value) : List Declared → Scope → Prop
  | global : Placed s [] Machine.globalScope
  | frame {declared : Declared} {scopes : List Declared} {frame : Nat} {outer : Scope}
      (inside : frame < s.frames.size)
      (ready : ∀ x, declared.lookup x = some .ready → s.binds frame x = true)
      (placed : Placed s scopes outer) : Placed s (declared :: scopes) (frame :: outer)

/-- The innermost frame binds only names that its tracked scope has ready. -/
def Exact (s : Store Value) : List Declared → Scope → Prop
  | declared :: _, frame :: _ => ∀ x, s.binds frame x = true → declared.lookup x = some .ready
  | _, _ => True

/-- The scope is placed and its innermost frame binds nothing else. -/
structure Stands (s : Store Value) (scopes : List Declared) (scope : Scope) : Prop where
  placed : Placed s scopes scope
  exact : Exact s scopes scope

section Scopes

variable {s s' : Store Value} {grows : Option Nat} {c : Context} {scopes : List Declared}
  {scope : Scope} {x : String} {depth : Nat}

theorem Placed.mono (h : Placed s scopes scope) (hs : s.Extends grows s') :
    Placed s' scopes scope := by
  induction h with
  | global => exact .global
  | frame inside ready _ ih =>
      exact .frame (Nat.lt_of_lt_of_le inside hs.size) (fun x hx => hs.kept (ready x hx)) ih

/-- A name that is ready is bound in the frame that its depth leads to. -/
theorem Placed.bound (h : Placed s scopes scope) (hs : Sees scopes x depth .ready) :
    ∃ frame, scope[depth]? = some frame ∧ s.binds frame x = true := by
  induction h generalizing depth with
  | global => cases hs
  | frame inside ready _ ih =>
      cases hs with
      | here hl => exact ⟨_, rfl, ready x hl⟩
      | out _ hs => exact ih hs

theorem Placed.frameAt? (h : Placed s scopes scope) (hs : Sees scopes x depth .ready) :
    ∃ frame, s.frameAt? scope depth x = some frame := by
  obtain ⟨frame, heq, hb⟩ := h.bound hs
  exact ⟨frame, Option.filter_eq_some_iff.2 ⟨heq, hb⟩⟩

theorem Placed.getAt? (h : Placed s scopes scope) (hs : Sees scopes x depth .ready) :
    ∃ v, s.getAt? scope depth x = some v := by
  obtain ⟨frame, heq⟩ := h.frameAt? hs
  rw [Store.getAt?, heq]
  exact Option.isSome_iff_exists.1 (Store.binds_of_frameAt? heq)

theorem Placed.enter (h : Placed s scopes scope) :
    Placed (s.enter scope).2 ([] :: scopes) (s.enter scope).1 :=
  .frame (by rw [Store.size_enter]; omega) nofun (h.mono (.enter s scope))

/-- A new frame with one name in it is placed where that name is all that is declared. -/
theorem Placed.openWith (h : Placed s scopes scope) (x : String) (v : Value) :
    Placed ((s.enter scope).2.define (s.enter scope).1 x v) ([(x, .ready)] :: scopes)
      (s.enter scope).1 := by
  refine .frame ?_ (fun y hy => ?_)
    (h.mono (.define_enter s scope x v))
  · show s.frames.size < ((s.enter scope).2.write s.frames.size x v).frames.size
    rw [Store.size_write, Store.size_enter]
    exact Nat.lt_succ_self _
  · show ((s.enter scope).2.write s.frames.size x v).binds s.frames.size y = true
    rw [Store.binds_write, Store.size_enter]
    rw [List.lookup_cons] at hy
    split at hy
    · next heq => exact .inl ⟨rfl, beq_iff_eq.1 heq, Nat.lt_succ_self _⟩
    · cases hy

theorem Stands.mono (h : Stands s scopes scope) (hs : s.Extends none s') :
    Stands s' scopes scope := by
  refine ⟨h.placed.mono hs, ?_⟩
  obtain ⟨placed, exact⟩ := h
  cases placed with
  | global => trivial
  | frame inside _ _ => exact fun x hx => exact x (hs.exact inside nofun hx)

/-- A new frame binds nothing. -/
theorem Stands.enter (h : Placed s scopes scope) (fresh : ∀ x, s.binds s.frames.size x = false) :
    Stands (s.enter scope).2 ([] :: scopes) (s.enter scope).1 := by
  refine ⟨h.enter, fun x hx => ?_⟩
  rw [Store.binds_enter, fresh] at hx
  cases hx

/-- A name that is pending is not bound yet. -/
theorem Stands.frameAt?_of_pending (h : Stands s scopes scope) (hp : Sees scopes x 0 .pending) :
    s.frameAt? scope 0 x = none := by
  obtain ⟨placed, exact⟩ := h
  cases placed with
  | global => cases hp
  | frame _ _ _ =>
      refine Option.filter_eq_none_iff.2 fun frame hf hb => ?_
      cases hf
      have ready := sees_zero.1 hp
      rw [exact x hb] at ready
      cases ready

theorem Exact.introduce (h : Exact s c.scopes scope) (x : String) (v : Value) :
    Exact (s.define scope x v) (c.introduce x).scopes scope := by
  cases hc : c.scopes with
  | nil =>
      rw [Context.introduce_of_nil hc, hc]
      trivial
  | cons declared outer =>
      obtain ⟨declared', heq, hl⟩ := Context.introduce_scopes hc x
      rw [hc] at h
      rw [heq]
      cases scope with
      | nil => trivial
      | cons frame rest =>
          intro y hy
          rw [hl]
          split
          · rfl
          · next hne =>
              rcases Store.binds_write.1 hy with ⟨-, heq, -⟩ | hb
              · exact absurd heq hne
              · exact h y hb

/-- Defining a name that is introduced keeps a scope in its place. -/
theorem Stands.introduce (h : Stands s c.scopes scope) (v : Value) :
    Stands (s.define scope x v) (c.introduce x).scopes scope := by
  refine ⟨?_, h.exact.introduce x v⟩
  have placed := h.placed
  cases hc : c.scopes with
  | nil =>
      rw [hc] at placed
      rw [Context.introduce_of_nil hc, hc]
      cases placed
      exact .global
  | cons declared outer =>
      obtain ⟨declared', heq, hl⟩ := Context.introduce_scopes hc x
      rw [hc] at placed
      rw [heq]
      cases placed with
      | frame inside ready placed =>
          refine .frame ?_ (fun y hy => ?_) (placed.mono (.define s _ x v))
          · rw [Store.define, Store.size_write]
            exact inside
          · rw [hl] at hy
            rw [Store.define, Store.binds_write]
            split at hy
            · next heq => exact .inl ⟨rfl, heq, inside⟩
            · exact .inr (ready y hy)

/-- A name that is pending asks for nothing. -/
theorem Stands.declare (h : Stands s c.scopes scope) (fresh : c.declaresHere x = false) :
    Stands s (c.declare x).scopes scope := by
  unfold Context.declare Context.declaresHere at *
  split at fresh
  · next hc =>
      rw [hc]
      exact hc ▸ h
  · next declared outer hc =>
      obtain ⟨placed, exact⟩ := h
      rw [if_neg (by rw [fresh]; nofun)]
      rw [hc] at placed exact
      have absent : declared.lookup x = none := by
        simpa [Context.declares] using fresh
      have skip : ∀ y, List.lookup y ((x, Readiness.pending) :: declared) = some .ready ↔
          declared.lookup y = some .ready := by
        intro y
        rw [List.lookup_cons]
        split
        · next hy => rw [beq_iff_eq.1 hy, absent]; simp
        · rfl
      cases placed with
      | frame inside ready placed =>
          exact ⟨.frame inside (fun y hy => ready y ((skip y).1 hy)) placed,
            fun y hy => (skip y).2 (exact y hy)⟩

end Scopes

/-! ## Values and heaps -/

/-- The closure is a resolved function in a scope placed at its context. An initializer finds
`this` next to it. -/
def Closure.Sound (s : Store Value) (f : Closure) : Prop :=
  ∃ (kind : Body) (c : Context) (declaration : FunctionDecl),
    FunctionDecl.Resolved false kind c declaration f.declaration ∧
    Placed s c.scopes f.scope ∧
    (f.isInitializer = true → kind = .initializer ∧ Sees c.scopes "this" 0 .ready)

/-- The closure is a resolved method, in a scope to which only `this` has to be added. -/
def Closure.SoundMethod (s : Store Value) (f : Closure) : Prop :=
  ∃ (c : Context) (hasSuperclass : Bool) (declaration : FunctionDecl),
    FunctionDecl.Resolved false declaration.methodBody (c.inMethods hasSuperclass) declaration
      f.declaration ∧
    Placed s (c.aroundMethods hasSuperclass).scopes f.scope ∧
    f.isInitializer = declaration.isInitializer

/-- All methods of the class are resolved. -/
def Class.Sound (s : Store Value) (k : Class) : Prop :=
  ∀ layer ∈ k.layers, ∀ entry ∈ layer.methods, entry.2.SoundMethod s

/-- What a value holds is resolved. -/
def Value.Sound (s : Store Value) : Value → Prop
  | .function _ f => f.Sound s
  | .ofClass k | .object _ k => k.Sound s
  | .nil | .bool _ | .number _ | .string _ | .clock => True

/-- The value that a statement returns, if it does, is one that may be returned. -/
def Flow.Sound (s : Store Value) : Flow → Prop
  | .next => True
  | .returned v => v.Sound s

/-- The value may be bound to the name: `this` is an object, and `super` is a class. -/
def Value.Fits (x : String) (v : Value) : Prop :=
  (x = "this" → ∃ id k, v = .object id k) ∧ (x = "super" → ∃ k, v = .ofClass k)

/-- Everything in the store and in the fields of objects is resolved. -/
structure HeapSound (s : Store Value) (fields : Array (Bindings Value)) : Prop where
  globalFrame : Machine.globalFrame < s.frames.size
  bindings : ∀ frame x v, s.read? frame x = some v → v.Sound s ∧ v.Fits x
  fields : ∀ (id : Nat) x v, fields[id]?.bind (·.get? x) = some v → v.Sound s

/-- The invariant. -/
def Machine.Sound (m : Machine) : Prop := HeapSound m.store m.fields

section Heaps

variable {s s' : Store Value} {grows : Option Nat} {fields : Array (Bindings Value)} {x : String}
  {v : Value}

theorem Closure.Sound.mono {f : Closure} (h : f.Sound s) (hs : s.Extends grows s') :
    f.Sound s' := by
  obtain ⟨kind, c, declaration, resolved, placed, hi⟩ := h
  exact ⟨kind, c, declaration, resolved, placed.mono hs, hi⟩

theorem Closure.SoundMethod.mono {f : Closure} (h : f.SoundMethod s) (hs : s.Extends grows s') :
    f.SoundMethod s' := by
  obtain ⟨c, hasSuperclass, declaration, resolved, placed, hi⟩ := h
  exact ⟨c, hasSuperclass, declaration, resolved, placed.mono hs, hi⟩

theorem Class.Sound.mono {k : Class} (h : k.Sound s) (hs : s.Extends grows s') : k.Sound s' :=
  fun layer hl entry he => (h layer hl entry he).mono hs

theorem Value.Sound.mono (h : v.Sound s) (hs : s.Extends grows s') : v.Sound s' := by
  cases v with
  | nil | bool | number | string | clock => trivial
  | function id f => exact Closure.Sound.mono h hs
  | ofClass k => exact Class.Sound.mono h hs
  | object id k => exact Class.Sound.mono h hs

theorem Value.fits_of_isName {t : Token} (h : t.IsName) (v : Value) : v.Fits t.lexeme :=
  ⟨fun heq => absurd heq h.not_this, fun heq => absurd heq h.not_super⟩

/-- A method found in a sound class is sound. -/
theorem Class.Sound.method {k : Class} (h : k.Sound s) {f : Closure} (hf : k.method? x = some f) :
    f.SoundMethod s := by
  obtain ⟨layer, hl, hm⟩ := List.exists_of_findSome?_eq_some hf
  obtain ⟨_, _, heq, -⟩ := List.lookup_eq_some_iff.1 hm
  exact h layer hl (x, f) (by rw [heq]; simp)

theorem HeapSound.get? (h : HeapSound s fields) {scope : Scope} (hr : s.get? scope x = some v) :
    v.Sound s ∧ v.Fits x := by
  obtain ⟨frame, -, hr⟩ := Option.bind_eq_some_iff.1 hr
  exact h.bindings _ _ _ hr

theorem HeapSound.getAt? (h : HeapSound s fields) {scope : Scope} {distance : Nat}
    (hr : s.getAt? scope distance x = some v) : v.Sound s ∧ v.Fits x := by
  obtain ⟨frame, -, hr⟩ := Option.bind_eq_some_iff.1 hr
  exact h.bindings _ _ _ hr

/-- The value may hold a scope that is placed only once the name is bound. -/
theorem HeapSound.write (h : HeapSound s fields) {frame : Nat} (hv : v.Sound (s.write frame x v))
    (fits : v.Fits x) (hs : s.Extends grows (s.write frame x v)) :
    HeapSound (s.write frame x v) fields where
  globalFrame := by
    rw [Store.size_write]
    exact h.globalFrame
  bindings frame' y w hr := by
    rw [Store.read?_write] at hr
    split at hr
    · next heq =>
        cases hr
        rw [heq.2.1]
        exact ⟨hv, fits⟩
    · obtain ⟨hw, hf⟩ := h.bindings _ _ _ hr
      exact ⟨hw.mono hs, hf⟩
  fields id y w hr := (h.fields _ _ _ hr).mono hs

theorem HeapSound.define (h : HeapSound s fields) (scope : Scope)
    (hv : v.Sound (s.define scope x v)) (fits : v.Fits x) :
    HeapSound (s.define scope x v) fields := by
  have hs := Store.Extends.define s scope x v
  cases scope with
  | nil => exact h
  | cons frame outer => exact h.write hv fits hs

theorem HeapSound.enter (h : HeapSound s fields) (outer : Scope) :
    HeapSound (s.enter outer).2 fields where
  globalFrame := by
    rw [Store.size_enter]
    exact Nat.lt_succ_of_lt h.globalFrame
  bindings frame y w hr := by
    rw [Store.read?_enter] at hr
    obtain ⟨hw, hf⟩ := h.bindings _ _ _ hr
    exact ⟨hw.mono (.enter s outer), hf⟩
  fields id y w hr := (h.fields _ _ _ hr).mono (.enter s outer)

theorem HeapSound.setField (h : HeapSound s fields) {id : Nat} (hv : v.Sound s) :
    HeapSound s (fields.modify id (·.set x v)) where
  globalFrame := h.globalFrame
  bindings := h.bindings
  fields id' y w hr := by
    rw [Array.getElem?_modify] at hr
    split at hr
    · obtain ⟨b, hb, hw⟩ := Option.bind_eq_some_iff.1 hr
      obtain ⟨b, hb', rfl⟩ := Option.map_eq_some_iff.1 hb
      rw [Bindings.get?_set] at hw
      split at hw
      · cases hw
        exact hv
      · exact h.fields id' y w (by rw [hb']; exact hw)
    · exact h.fields _ _ _ hr

theorem HeapSound.newObject (h : HeapSound s fields) : HeapSound s (fields.push .empty) where
  globalFrame := h.globalFrame
  bindings := h.bindings
  fields id y w hr := by
    rw [Array.getElem?_push] at hr
    split at hr
    · cases hr
    · exact h.fields _ _ _ hr

/-- Nothing is bound in a frame that does not exist. -/
theorem Store.binds_size (s : Store Value) (x : String) : s.binds s.frames.size x = false := by
  simp [binds, read?]

end Heaps

end LoxLang
