import LoxLang.Proofs.Preservation

/-!
# Finding methods and binding them

A property that is no field is a method of the object's class, and a method
after `super` is one of a superclass. Both are looked up in the chain of a
class, from the nearest declaration on, and both are bound to an object in the
same way: in a new frame around the scope of the method, which holds `this`.
-/

namespace LoxLang

open LoxLang.Action MachineM

/-! ## Bindings at a distance -/

namespace Store

variable {s : Store Value} {scope outer : Scope} {frame distance : Nat} {x : String} {v w : Value}

theorem getAt?_zero : s.getAt? (frame :: outer) 0 x = s.read? frame x := by
  rw [getAt?, frameAt?, List.getElem?_cons_zero]
  cases read : s.read? frame x with
  | none =>
      rw [Option.filter_some_neg (by simp [binds, read])]
      rfl
  | some v =>
      rw [Option.filter_some_pos (by simp [binds, read])]
      exact read

theorem getAt?_succ : s.getAt? (frame :: outer) (distance + 1) x = s.getAt? outer distance x := rfl

/-- What a name has just been defined to be is all that can be found there. -/
theorem eq_of_getAt?_define (h : (s.define scope x v).getAt? scope 0 x = some w) : w = v := by
  cases scope with
  | nil => cases h
  | cons frame outer =>
      rw [getAt?_zero, define, read?_write] at h
      split at h
      · cases h
        rfl
      · next missing =>
          have inside := lt_of_binds (show s.binds frame x = true by rw [binds, h]; rfl)
          exact absurd ⟨rfl, rfl, inside⟩ missing

/-- A new frame has what is defined there. -/
theorem getAt?_open : ((s.enter outer).2.define (s.enter outer).1 x v).getAt?
    (s.enter outer).1 0 x = some v := by
  rw [show (s.enter outer).1 = s.frames.size :: outer from rfl, getAt?_zero, define, read?_write,
    if_pos ⟨rfl, rfl, by rw [size_enter]; exact Nat.lt_succ_self _⟩]

end Store

theorem MachineM.lookUp_of_getAt? {m : Machine} {name : Token} {distance : Nat} {v : Value}
    (found : m.store.getAt? m.scope distance name.lexeme = some v) :
    lookUp name (some distance) m = .done v m := by
  unfold lookUp
  dsimp only
  rw [found]

/-! ## The chain of a class -/

namespace Class

variable {k : Class} {x : String} {method : Closure}

/-- Of the declarations of the class, its own first, the nearest one that has a method of this name
has this one. -/
def Provides (k : Class) (x : String) (method : Closure) : Prop :=
  ∃ nearer layer further, k.layers = nearer ++ layer :: further ∧
    layer.methods.lookup x = some method ∧ ∀ other ∈ nearer, other.methods.lookup x = none

/-- No declaration of the class has a method of this name. -/
def Lacks (k : Class) (x : String) : Prop := ∀ layer ∈ k.layers, layer.methods.lookup x = none

theorem method?_eq_some_iff : k.method? x = some method ↔ k.Provides x method :=
  List.findSome?_eq_some_iff

theorem method?_eq_none_iff : k.method? x = none ↔ k.Lacks x := List.findSome?_eq_none_iff

end Class

/-! ## Binding -/

/-- The function is the method, in a scope of its own: there is one frame more around it. -/
def Closure.Binds (f method : Closure) : Prop :=
  ∃ frame, f = { method with scope := frame :: method.scope }

/-- The function is the method bound to the object: its own frame holds `this`. -/
structure Closure.Bound (f method : Closure) (object : Value) (s : Store Value) : Prop where
  binds : f.Binds method
  this : s.getAt? f.scope 0 "this" = some object

namespace MachineM

variable {m : Machine} {k : Class} {object : Value} {name : Token} {method : Closure}

/-- The method of a class, bound to an object. -/
def boundMethod (k : Class) (object : Value) (name : Token) : MachineM Value :=
  match k.method? name.lexeme with
  | some method => bindMethod method object >>= newFunction
  | none => raise name .undefinedProperty

theorem bindMethod_done (method : Closure) (object : Value) (m : Machine) :
    ∃ f m', bindMethod method object m = .done f m' ∧ f.Bound method object m'.store :=
  ⟨_, _, rfl, ⟨_, rfl⟩, Store.getAt?_open⟩

theorem boundMethod_of_provides (provides : k.Provides name.lexeme method) (object : Value)
    (m : Machine) : ∃ id f m', boundMethod k object name m = .done (.function id f) m' ∧
      f.Bound method object m'.store := by
  obtain ⟨f, m', bound, isBound⟩ := bindMethod_done method object m
  refine ⟨m'.nextId, f, { m' with nextId := m'.nextId + 1 }, ?_, isBound⟩
  rw [boundMethod, Class.method?_eq_some_iff.2 provides]
  exact bind_of_done bound

theorem boundMethod_of_lacks (lacks : k.Lacks name.lexeme) (object : Value) (m : Machine) :
    boundMethod k object name m = .failed ⟨name, .undefinedProperty⟩ m := by
  rw [boundMethod, Class.method?_eq_none_iff.2 lacks]
  rfl

/-- The only reason why there may be no such method. -/
theorem boundMethod_fails_iff (object : Value) (m : Machine) :
    (∃ m', boundMethod k object name m = .failed ⟨name, .undefinedProperty⟩ m') ↔
      k.Lacks name.lexeme := by
  refine ⟨fun ⟨m', fails⟩ => ?_, fun lacks => ⟨m, boundMethod_of_lacks lacks object m⟩⟩
  refine Class.method?_eq_none_iff.1 ?_
  cases found : k.method? name.lexeme with
  | none => rfl
  | some method =>
      obtain ⟨_, _, _, done, -⟩ :=
        boundMethod_of_provides (Class.method?_eq_some_iff.1 found) object m
      cases done.symm.trans fails

/-- Where `super` and `this` are found, the superclass decides. -/
theorem superMethod_of_found {keyword target : Token} {distance id : Nat} {parent : Class}
    (above : m.store.getAt? m.scope (distance + 1) "super" = some (.ofClass parent))
    (this : m.store.getAt? m.scope distance "this" = some (.object id k)) :
    superMethod keyword (some (distance + 1)) target m =
      boundMethod parent (.object id k) target m := by
  have parents : (read fun m => m.store.getAt? m.scope (distance + 1) "super" : MachineM _) m =
      .done (some (.ofClass parent)) m := congrArg (Outcome.done · m) above
  have objects : (read fun m => if distance + 1 = 0 then none else
      m.store.getAt? m.scope (distance + 1 - 1) "this" : MachineM _) m =
      .done (some (.object id k)) m := congrArg (Outcome.done · m) this
  unfold superMethod
  dsimp only
  rw [bind_of_done parents]
  dsimp only
  rw [bind_of_done objects]
  rfl

theorem property_of_field {id : Nat} {v : Value}
    (field : m.fields[id]?.bind (·.get? name.lexeme) = some v) :
    property id k name m = .done v m := by
  have read : field? id name.lexeme m = .done (some v) m := congrArg (Outcome.done · m) field
  rw [property, bind_of_done read]
  rfl

/-- Without such a field the class decides. -/
theorem property_of_none {id : Nat} (field : m.fields[id]?.bind (·.get? name.lexeme) = none) :
    property id k name m = boundMethod k (.object id k) name m := by
  have read : field? id name.lexeme m = .done none m := congrArg (Outcome.done · m) field
  rw [property, bind_of_done read]
  rfl

end MachineM

end LoxLang
