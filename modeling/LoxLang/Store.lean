/-!
# Scopes and their bindings

A frame is one table of bindings. A scope is the list of frames visible from a
point, innermost first, so the enclosing scope of a scope is its tail and
walking outward is a walk along the list. Scopes are immutable; the store holds
the contents of the frames, and closures that share a frame see each other's
writes.

There are two ways to reach a binding: by name, in the first frame that has it,
or by name and distance, in one frame only.
-/

namespace LoxLang

/-- A table from names to values; each name occurs once. -/
structure Bindings (α : Type) where
  entries : List (String × α)
deriving Inhabited

namespace Bindings

variable {α : Type}

/-- The table without entries. -/
def empty : Bindings α := ⟨[]⟩

/-- The value of a name. -/
def get? (b : Bindings α) (x : String) : Option α := b.entries.lookup x

/-- The value of a name replaced, or the name added behind the others. -/
def setIn (x : String) (v : α) : List (String × α) → List (String × α)
  | [] => [(x, v)]
  | (y, w) :: rest => if x == y then (y, v) :: rest else (y, w) :: setIn x v rest

/-- A table in which `x` has the value `v`. -/
def set (b : Bindings α) (x : String) (v : α) : Bindings α := ⟨setIn x v b.entries⟩

theorem lookup_setIn (x y : String) (v : α) (entries : List (String × α)) :
    (setIn x v entries).lookup y = if y = x then some v else entries.lookup y := by
  induction entries with
  | nil =>
      by_cases h : y = x
      · simp [setIn, h]
      · simp [setIn, h, List.lookup_cons, beq_eq_false_iff_ne.2 h]
  | cons entry rest ih =>
      obtain ⟨z, w⟩ := entry
      by_cases hz : x = z
      · subst hz
        by_cases h : y = x
        · simp [setIn, h]
        · simp [setIn, h, List.lookup_cons, beq_eq_false_iff_ne.2 h]
      · by_cases h : y = z
        · subst h
          simp [setIn, hz, Ne.symm hz]
        · simp [setIn, hz, List.lookup_cons, beq_eq_false_iff_ne.2 h, ih]

/-- A table answers with what was set last. -/
@[simp] theorem get?_set (b : Bindings α) (x y : String) (v : α) :
    (b.set x v).get? y = if y = x then some v else b.get? y :=
  lookup_setIn x y v b.entries

@[simp] theorem get?_empty (x : String) : (empty : Bindings α).get? x = none := rfl

end Bindings

/-- The frames visible from a point, innermost first. -/
abbrev Scope := List Nat

/-- The contents of all frames there are. -/
structure Store (α : Type) where
  frames : Array (Bindings α)

namespace Store

variable {α : Type}

/-- A store without frames. -/
def empty : Store α := ⟨#[]⟩

/-- The value of a name in one frame. -/
def read? (s : Store α) (frame : Nat) (x : String) : Option α :=
  s.frames[frame]?.bind (·.get? x)

/-- Is the name bound in the frame? -/
def binds (s : Store α) (frame : Nat) (x : String) : Bool := (s.read? frame x).isSome

/-- The name bound to a value in one frame. -/
def write (s : Store α) (frame : Nat) (x : String) (v : α) : Store α :=
  ⟨s.frames.modify frame (·.set x v)⟩

/-- A frame answers with what was written to it last; other frames and names keep their value. -/
theorem read?_write (s : Store α) (frame other : Nat) (x y : String) (v : α) :
    (s.write frame x v).read? other y =
      if other = frame ∧ y = x ∧ frame < s.frames.size then some v else s.read? other y := by
  unfold read? write
  rw [Array.getElem?_modify]
  by_cases same : frame = other
  · subst same
    rcases Nat.lt_or_ge frame s.frames.size with inside | outside
    · by_cases h : y = x <;> simp [inside, h]
    · simp [Nat.not_lt.2 outside]
  · simp [same, Ne.symm same]

/-- A new, empty frame inside a scope, and the scope that it makes. -/
def enter (s : Store α) (outer : Scope) : Scope × Store α :=
  (s.frames.size :: outer, ⟨s.frames.push .empty⟩)

/-- A new frame binds nothing, so no reading changes. -/
@[simp] theorem read?_enter (s : Store α) (outer : Scope) (frame : Nat) (x : String) :
    (s.enter outer).2.read? frame x = s.read? frame x := by
  simp only [read?, enter, Array.getElem?_push]
  split
  · rename_i h
    subst h
    simp
  · rfl

/-- The name bound in the innermost frame, whatever is bound further out. -/
def define (s : Store α) (scope : Scope) (x : String) (v : α) : Store α :=
  match scope with
  | [] => s
  | frame :: _ => s.write frame x v

/-- The first frame that binds a name. -/
def frame? (s : Store α) (scope : Scope) (x : String) : Option Nat :=
  scope.find? (s.binds · x)

/-- The frame `distance` steps out, if it binds the name. -/
def frameAt? (s : Store α) (scope : Scope) (distance : Nat) (x : String) : Option Nat :=
  scope[distance]?.filter (s.binds · x)

/-- The value of a name in the first frame that has it. -/
def get? (s : Store α) (scope : Scope) (x : String) : Option α :=
  (s.frame? scope x).bind (s.read? · x)

/-- The name set to a value in the first frame that has it, if there is one. -/
def assign? (s : Store α) (scope : Scope) (x : String) (v : α) : Option (Store α) :=
  (s.frame? scope x).map (s.write · x v)

/-- The value of a name in the frame `distance` steps out. -/
def getAt? (s : Store α) (scope : Scope) (distance : Nat) (x : String) : Option α :=
  (s.frameAt? scope distance x).bind (s.read? · x)

/-- The name set to a value in the frame `distance` steps out, if that has it. -/
def assignAt? (s : Store α) (scope : Scope) (distance : Nat) (x : String) (v : α) :
    Option (Store α) :=
  (s.frameAt? scope distance x).map (s.write · x v)

end Store

end LoxLang
