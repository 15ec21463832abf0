import LoxLang.Proofs.Effects
import LoxLang.Proofs.MethodLookup

/-!
# By name and by distance

A forest is what one gets by making scopes, on their own or inside others, and
binding names in them, in any order. A scope inside another shares its frames,
so a frame is reached from many scopes and at many distances.

Looking a name up comes to the binding at the least distance at which there is
one, and an assignment by name writes to that binding. What is written is seen
from exactly the scopes that share it: since a frame has one scope around it
for good, two distances lead to one frame only if they lead to one scope.
-/

namespace LoxLang

variable {α : Type}

/-! ## One store -/

namespace Store

variable {s s' : Store α} {scope : Scope} {frame k : Nat} {x y : String} {v : α}

/-- Looking the name up leads to the binding `k` scopes out: there is one, and none further in. -/
def Reaches (s : Store α) (scope : Scope) (x : String) (k : Nat) : Prop :=
  (s.getAt? scope k x).isSome ∧ ∀ j < k, s.getAt? scope j x = none

theorem getAt?_eq_bind (s : Store α) (scope : Scope) (k : Nat) (x : String) :
    s.getAt? scope k x = scope[k]?.bind (s.read? · x) := by
  unfold getAt? frameAt?
  cases scope[k]? with
  | none => rfl
  | some frame =>
      rw [Option.filter_some, Option.bind_some, binds]
      cases found : s.read? frame x with
      | none => rfl
      | some v => simp [found]

theorem getAt?_eq_none_iff : s.getAt? scope k x = none ↔
    ∀ frame, scope[k]? = some frame → s.binds frame x = false := by
  rw [getAt?_eq_bind, Option.bind_eq_none_iff]
  simp only [binds, Option.isSome_eq_false_iff, Option.isNone_iff_eq_none]

theorem getAt?_isSome_iff : (s.getAt? scope k x).isSome ↔
    ∃ frame, scope[k]? = some frame ∧ s.binds frame x = true := by
  rw [getAt?_eq_bind]
  cases scope[k]? <;> simp [binds]

/-- The search by name stops at the least distance at which there is a binding. -/
theorem frame?_eq_some_iff : s.frame? scope x = some frame ↔
    ∃ k, s.Reaches scope x k ∧ scope[k]? = some frame := by
  rw [frame?, List.find?_eq_some_iff_getElem]
  constructor
  · rintro ⟨binds, k, inside, here, before⟩
    have at_k : scope[k]? = some frame := List.getElem?_eq_some_iff.2 ⟨inside, here⟩
    refine ⟨k, ⟨getAt?_isSome_iff.2 ⟨frame, at_k, binds⟩, fun j lt => ?_⟩, at_k⟩
    refine getAt?_eq_none_iff.2 fun other at_j => ?_
    obtain ⟨within, rfl⟩ := List.getElem?_eq_some_iff.1 at_j
    simpa using before j lt
  · rintro ⟨k, ⟨found, before⟩, at_k⟩
    obtain ⟨other, at_k', binds⟩ := getAt?_isSome_iff.1 found
    cases at_k.symm.trans at_k'
    obtain ⟨inside, here⟩ := List.getElem?_eq_some_iff.1 at_k
    refine ⟨binds, k, inside, here, fun j lt => ?_⟩
    have none := getAt?_eq_none_iff.1 (before j lt) _ (List.getElem?_eq_getElem (lt.trans inside))
    simpa using none

theorem Reaches.exists_frame (h : s.Reaches scope x k) :
    ∃ frame, scope[k]? = some frame ∧ s.binds frame x = true ∧ s.frame? scope x = some frame := by
  obtain ⟨frame, here, binds⟩ := getAt?_isSome_iff.1 h.1
  exact ⟨frame, here, binds, frame?_eq_some_iff.2 ⟨k, h, here⟩⟩

theorem Reaches.get?_eq (h : s.Reaches scope x k) : s.get? scope x = s.getAt? scope k x := by
  obtain ⟨frame, here, -, found⟩ := h.exists_frame
  rw [get?, found, getAt?_eq_bind, here]

theorem Reaches.assign?_eq (h : s.Reaches scope x k) (v : α) :
    s.assign? scope x v = s.assignAt? scope k x v := by
  obtain ⟨frame, here, binds, found⟩ := h.exists_frame
  rw [assign?, found, assignAt?, frameAt?, here, Option.filter_some, if_pos binds]

/-- Either some distance is the least with a binding, or there is none with one. -/
theorem reaches_or_none (s : Store α) (scope : Scope) (x : String) :
    (∃ k, s.Reaches scope x k) ∨ s.frame? scope x = none ∧ ∀ k, s.getAt? scope k x = none := by
  cases found : s.frame? scope x with
  | some frame =>
      obtain ⟨k, reaches, -⟩ := frame?_eq_some_iff.1 found
      exact .inl ⟨k, reaches⟩
  | none =>
      refine .inr ⟨rfl, fun k => getAt?_eq_none_iff.2 fun frame here => ?_⟩
      have none := List.find?_eq_none.1 found frame (List.mem_of_getElem? here)
      exact Bool.eq_false_iff.2 none

/-- Looking up gives the value at the least distance that has one. -/
theorem get?_eq_some_iff_reaches : s.get? scope x = some v ↔
    ∃ k, s.Reaches scope x k ∧ s.getAt? scope k x = some v := by
  constructor
  · intro found
    rcases s.reaches_or_none scope x with ⟨k, reaches⟩ | ⟨none, -⟩
    · exact ⟨k, reaches, reaches.get?_eq ▸ found⟩
    · rw [get?, none] at found
      cases found
  · rintro ⟨k, reaches, found⟩
    rw [reaches.get?_eq, found]

theorem get?_eq_none_iff_getAt? : s.get? scope x = none ↔ ∀ k, s.getAt? scope k x = none := by
  rcases s.reaches_or_none scope x with ⟨k, reaches⟩ | ⟨none, nowhere⟩
  · have found := reaches.1
    rw [reaches.get?_eq]
    exact ⟨fun h => by simp [h] at found, fun h => h k⟩
  · simp [get?, none, nowhere]

theorem assign?_isSome_eq (s : Store α) (scope : Scope) (x : String) (v : α) :
    (s.assign? scope x v).isSome = (s.get? scope x).isSome := by
  rcases s.reaches_or_none scope x with ⟨k, reaches⟩ | ⟨none, -⟩
  · obtain ⟨frame, here, binds, found⟩ := reaches.exists_frame
    rw [assign?, get?, found]
    exact binds.symm
  · rw [assign?, get?, none]
    rfl

theorem assignAt?_eq_some (h : s.assignAt? scope k x v = some s') :
    ∃ frame, scope[k]? = some frame ∧ s.binds frame x = true ∧ s' = s.write frame x v := by
  obtain ⟨frame, found, rfl⟩ := Option.map_eq_some_iff.1 h
  exact ⟨frame, (Option.filter_eq_some_iff.1 found).1, binds_of_frameAt? found, rfl⟩

end Store

/-! ## Forests -/

/-- Scopes, in the order in which they were made, and the contents of their frames. -/
structure Forest (α : Type) where
  store : Store α
  scopes : List Scope

namespace Forest

/-- What can be done with scopes. A scope is given by its place among those that there are. -/
inductive Operation (α : Type) where
  | new
  | child (scope : Nat)
  | define (scope : Nat) (x : String) (v : α)
  | assign (scope : Nat) (x : String) (v : α)
  | assignAt (scope distance : Nat) (x : String) (v : α)

/-- One scope more, inside another one or, if that is empty, on its own. -/
def grow (f : Forest α) (outer : Scope) : Forest α :=
  ⟨(f.store.enter outer).2, f.scopes ++ [(f.store.enter outer).1]⟩

/-- The forest with another store, if there is one; otherwise the operation fails. -/
def settle (f : Forest α) : Option (Store α) → Forest α × Bool
  | some store => (⟨store, f.scopes⟩, true)
  | none => (f, false)

/-- An operation, and whether it succeeds. -/
def perform (f : Forest α) : Operation α → Forest α × Bool
  | .new => (f.grow [], true)
  | .child i =>
    match f.scopes[i]? with
    | some outer => (f.grow outer, true)
    | none => (f, false)
  | .define i x v => f.settle (f.scopes[i]?.map (f.store.define · x v))
  | .assign i x v => f.settle (f.scopes[i]?.bind (f.store.assign? · x v))
  | .assignAt i k x v => f.settle (f.scopes[i]?.bind (f.store.assignAt? · k x v))

/-- The forests that operations build, whether they succeed or fail. -/
inductive Built : Forest α → Prop
  | empty : Built ⟨.empty, []⟩
  | perform {f : Forest α} (before : Built f) (operation : Operation α) :
      Built (f.perform operation).1

/-- The frames of scopes exist, and a frame has the same scope around it wherever it is found. -/
structure Formed (f : Forest α) : Prop where
  inside : ∀ scope ∈ f.scopes, ∀ frame ∈ scope, frame < f.store.frames.size
  shared : ∀ s ∈ f.scopes, ∀ t ∈ f.scopes, ∀ (j k frame : Nat), s[j]? = some frame →
    t[k]? = some frame → s.drop j = t.drop k

variable {f : Forest α} {scope outer : Scope} {store' : Store α} {k : Nat} {x : String} {v : α}

theorem Formed.of_size (h : f.Formed) (size : store'.frames.size = f.store.frames.size) :
    Formed ⟨store', f.scopes⟩ :=
  ⟨fun scope hs frame hf => size ▸ h.inside scope hs frame hf, h.shared⟩

theorem Formed.settle (h : f.Formed) {o : Option (Store α)}
    (size : ∀ store' ∈ o, store'.frames.size = f.store.frames.size) : (f.settle o).1.Formed := by
  cases o with
  | none => exact h
  | some store' => exact h.of_size (size store' rfl)

/-- Around the new frame is the given scope, and no scope that was there has the new frame. -/
theorem Formed.grow (h : f.Formed) (outer_mem : outer = [] ∨ outer ∈ f.scopes) :
    (f.grow outer).Formed := by
  have outer_inside : ∀ frame ∈ outer, frame < f.store.frames.size := by
    rcases outer_mem with rfl | mem
    · nofun
    · exact h.inside outer mem
  have inside : ∀ scope ∈ (f.grow outer).scopes, ∀ frame ∈ scope,
      frame < f.store.frames.size + 1 := by
    intro scope hs frame hf
    rcases List.mem_append.1 hs with old | new
    · exact Nat.lt_succ_of_lt (h.inside scope old frame hf)
    · cases List.mem_singleton.1 new
      rcases List.mem_cons.1 hf with rfl | further
      · exact Nat.lt_succ_self _
      · exact Nat.lt_succ_of_lt (outer_inside frame further)
  have with_new : ∀ t ∈ f.scopes, ∀ (j k frame : Nat), (f.store.enter outer).1[j]? = some frame →
      t[k]? = some frame → (f.store.enter outer).1.drop j = t.drop k := by
    intro t ht j k frame hj hk
    cases j with
    | zero =>
        cases hj
        exact absurd (h.inside t ht _ (List.mem_of_getElem? hk)) (Nat.lt_irrefl _)
    | succ j =>
        rcases outer_mem with rfl | mem
        · cases hj
        · exact h.shared outer mem t ht j k frame hj hk
  have new_new : ∀ (j k frame : Nat), (f.store.enter outer).1[j]? = some frame →
      (f.store.enter outer).1[k]? = some frame →
        (f.store.enter outer).1.drop j = (f.store.enter outer).1.drop k := by
    have other : ∀ i frame, outer[i]? = some frame → frame ≠ f.store.frames.size :=
      fun i frame hi => Nat.ne_of_lt (outer_inside frame (List.mem_of_getElem? hi))
    intro j k frame hj hk
    cases j with
    | zero =>
        cases k with
        | zero => rfl
        | succ k =>
            cases hj
            exact absurd rfl (other k _ hk)
    | succ j =>
        cases k with
        | zero =>
            cases hk
            exact absurd rfl (other j _ hj)
        | succ k =>
            rcases outer_mem with rfl | mem
            · cases hj
            · exact h.shared outer mem outer mem j k frame hj hk
  refine ⟨fun scope hs frame hf => ?_, fun s hs t ht j k frame hj hk => ?_⟩
  · have size : (f.grow outer).store.frames.size = f.store.frames.size + 1 :=
      Store.size_enter f.store outer
    rw [size]
    exact inside scope hs frame hf
  · rcases List.mem_append.1 hs with old | new
    · rcases List.mem_append.1 ht with old' | new'
      · exact h.shared s old t old' j k frame hj hk
      · cases List.mem_singleton.1 new'
        exact (with_new s old k j frame hk hj).symm
    · cases List.mem_singleton.1 new
      rcases List.mem_append.1 ht with old' | new'
      · exact with_new t old' j k frame hj hk
      · cases List.mem_singleton.1 new'
        exact new_new j k frame hj hk

theorem size_define (s : Store α) (scope : Scope) (x : String) (v : α) :
    (s.define scope x v).frames.size = s.frames.size := by
  cases scope with
  | nil => rfl
  | cons frame outer => exact Store.size_write s frame x v

/-- One operation keeps a forest formed. -/
theorem Formed.perform (h : f.Formed) (operation : Operation α) :
    (f.perform operation).1.Formed := by
  cases operation with
  | new => exact h.grow (.inl rfl)
  | child i =>
      rw [Forest.perform]
      cases hi : f.scopes[i]? with
      | none => exact h
      | some outer => exact h.grow (.inr (List.mem_of_getElem? hi))
  | define i x v =>
      refine h.settle fun store' hs => ?_
      obtain ⟨scope, -, rfl⟩ := Option.map_eq_some_iff.1 hs
      exact size_define f.store scope x v
  | assign i x v =>
      refine h.settle fun store' hs => ?_
      obtain ⟨scope, -, assigned⟩ := Option.bind_eq_some_iff.1 hs
      obtain ⟨frame, -, rfl⟩ := Option.map_eq_some_iff.1 assigned
      exact Store.size_write f.store frame x v
  | assignAt i k x v =>
      refine h.settle fun store' hs => ?_
      obtain ⟨scope, -, assigned⟩ := Option.bind_eq_some_iff.1 hs
      obtain ⟨frame, -, -, rfl⟩ := Store.assignAt?_eq_some assigned
      exact Store.size_write f.store frame x v

theorem Built.formed (h : f.Built) : f.Formed := by
  induction h with
  | empty => exact ⟨nofun, nofun⟩
  | perform _ operation ih => exact ih.perform operation

/-- In the second store `x` has the value `v` in the scope that is `k` steps out of the given one,
from wherever that is reached, and all other bindings of all scopes are as in the forest. -/
def Sets (f : Forest α) (scope : Scope) (k : Nat) (x : String) (v : α) (store' : Store α) : Prop :=
  ∀ other ∈ f.scopes, ∀ j y, store'.getAt? other j y =
    if other.drop j = scope.drop k ∧ y = x then some v else f.store.getAt? other j y

/-- An assignment by distance writes to one binding only. -/
theorem Formed.sets (h : f.Formed) (hs : scope ∈ f.scopes)
    (assigned : f.store.assignAt? scope k x v = some store') : f.Sets scope k x v store' := by
  obtain ⟨frame, here, binds, rfl⟩ := Store.assignAt?_eq_some assigned
  intro other ho j y
  rw [Store.getAt?_eq_bind, Store.getAt?_eq_bind]
  cases at_j : other[j]? with
  | none =>
      have away : ¬ (other.drop j = scope.drop k ∧ y = x) := by
        rintro ⟨same, -⟩
        have head : (other.drop j)[0]? = (scope.drop k)[0]? := by rw [same]
        rw [List.getElem?_drop, List.getElem?_drop, Nat.add_zero, Nat.add_zero, at_j, here] at head
        cases head
      rw [if_neg away]
      rfl
  | some frame' =>
      have same_scope : other.drop j = scope.drop k ↔ frame' = frame := by
        constructor
        · intro same
          have head : (other.drop j)[0]? = (scope.drop k)[0]? := by rw [same]
          rw [List.getElem?_drop, List.getElem?_drop, Nat.add_zero, Nat.add_zero, at_j, here]
            at head
          exact Option.some.inj head
        · rintro rfl
          exact h.shared other ho scope hs j k frame' at_j here
      rw [Option.bind_some, Option.bind_some, Store.read?_write]
      simp only [same_scope, Store.lt_of_binds binds, and_true]

/-- The scopes from which a lookup leads to the binding see what is written to it. -/
theorem Sets.get? (h : f.Sets scope k x v store') {other : Scope} (ho : other ∈ f.scopes) {j : Nat}
    (reaches : f.store.Reaches other x j) (same : other.drop j = scope.drop k) :
    store'.get? other x = some v := by
  have here : store'.getAt? other j x = some v := by
    rw [h other ho j x, if_pos ⟨same, rfl⟩]
  refine Store.get?_eq_some_iff_reaches.2 ⟨j, ⟨by rw [here]; rfl, fun i lt => ?_⟩, here⟩
  have further_in := h other ho i x
  split at further_in
  · next at_i =>
      -- The binding would have been found further in as well.
      have found : (f.store.getAt? other i x).isSome := by
        obtain ⟨frame, at_j, binds⟩ := Store.getAt?_isSome_iff.1 reaches.1
        have head : (other.drop i)[0]? = (other.drop j)[0]? := by rw [at_i.1, same]
        rw [List.getElem?_drop, List.getElem?_drop, Nat.add_zero, Nat.add_zero, at_j] at head
        exact Store.getAt?_isSome_iff.2 ⟨frame, head, binds⟩
      rw [reaches.2 i lt] at found
      cases found
  · rw [further_in, reaches.2 i lt]

/-- In every forest that operations build, looking a name up gives the value at the least distance
that has one, and fails if none has. An assignment by name succeeds exactly if the lookup does. It
is the assignment by that distance, it sets this one binding and no other, and every scope whose
lookup leads to the binding has the new value. Operations that fail change nothing. -/
theorem Built.addresses_agree (built : f.Built) (hs : scope ∈ f.scopes) (x : String) :
    (∀ v, f.store.get? scope x = some v ↔
      ∃ k, f.store.Reaches scope x k ∧ f.store.getAt? scope k x = some v) ∧
    (f.store.get? scope x = none ↔ ∀ k, f.store.getAt? scope k x = none) ∧
    (∀ v, (f.store.assign? scope x v).isSome = (f.store.get? scope x).isSome) ∧
    (∀ v store', f.store.assign? scope x v = some store' →
      ∃ k, f.store.Reaches scope x k ∧ f.store.assignAt? scope k x v = some store' ∧
        f.Sets scope k x v store' ∧
        ∀ other ∈ f.scopes, ∀ j, f.store.Reaches other x j → other.drop j = scope.drop k →
          store'.get? other x = some v) ∧
    (∀ k v store', f.store.assignAt? scope k x v = some store' → f.Sets scope k x v store') ∧
    ∀ operation, (f.perform operation).2 = false → (f.perform operation).1 = f := by
  have formed := built.formed
  refine ⟨fun v => Store.get?_eq_some_iff_reaches, Store.get?_eq_none_iff_getAt?,
    fun v => f.store.assign?_isSome_eq scope x v, fun v store' assigned => ?_,
    fun k v store' => formed.sets hs, fun operation failed => ?_⟩
  · rcases f.store.reaches_or_none scope x with ⟨k, reaches⟩ | ⟨none, -⟩
    · have by_distance : f.store.assignAt? scope k x v = some store' :=
        (reaches.assign?_eq v).symm.trans assigned
      have sets := formed.sets hs by_distance
      exact ⟨k, reaches, by_distance, sets, fun other ho j => sets.get? ho⟩
    · rw [Store.assign?, none] at assigned
      cases assigned
  · have settled : ∀ o : Option (Store α), (f.settle o).2 = false → (f.settle o).1 = f := by
      rintro (_ | store') h
      · rfl
      · cases h
    cases operation with
    | new => cases failed
    | child i =>
        rw [Forest.perform] at failed ⊢
        cases hi : f.scopes[i]? with
        | none => rfl
        | some outer =>
            rw [hi] at failed
            cases failed
    | define | assign | assignAt => exact settled _ failed

/-- Two scopes inside one that binds `a`; the first of them binds `a` as well. -/
def siblings : Forest Nat :=
  ([.new, .define 0 "a" 1, .child 0, .child 0, .define 1 "a" 2] : List (Operation Nat)).foldl
    (fun f operation => (f.perform operation).1) ⟨.empty, []⟩

/-- An assignment in the second scope is seen in the one around it, and not in the first. -/
theorem siblings_assign : ∃ store', siblings.store.assign? [2, 0] "a" 3 = some store' ∧
    store'.get? [0] "a" = some 3 ∧ store'.get? [1, 0] "a" = some 2 := by
  have built : siblings.Built :=
    .perform (.perform (.perform (.perform (.perform .empty .new) _) _) _) _
  have member : [2, 0] ∈ siblings.scopes := by decide
  obtain ⟨-, -, -, assigns, -⟩ := built.addresses_agree member "a"
  obtain ⟨k, reaches, -, sets, seen⟩ := assigns 3 _ rfl
  have only : k = 1 := by
    have least := Nat.lt_trichotomy k 1
    rcases least with before | same | behind
    · cases Nat.lt_one_iff.1 before
      exact absurd reaches.1 (by decide)
    · exact same
    · exact absurd (reaches.2 1 behind) (by decide)
  subst only
  refine ⟨_, rfl, seen [0] (by decide) 0 ⟨by decide, nofun⟩ rfl, ?_⟩
  refine Store.get?_eq_some_iff_reaches.2 ⟨0, ⟨?_, nofun⟩, ?_⟩
  · rw [sets [1, 0] (by decide)]
    decide
  · rw [sets [1, 0] (by decide)]
    decide

end Forest

end LoxLang
