import Mathlib.Data.List.Induction
import LoxLang.Tree.Outline

/-!
# The scopes around a point of a program

Lexical distances are put in terms of all that stands in front of a point. Read
from the front, an outline gives a stack: the scopes around the point, innermost
first, each with its sort and with the names declared in it so far.

By induction on what stands in front of a point, this stack is what the text
says about enclosing scopes and about the declarations in them. So the distance
of an occurrence can be found by looking at the stack, and this is put in a form
that follows an outline step by step.
-/

namespace LoxLang

open Landmark

/-- The scopes around a point, innermost first: their sorts and the names declared in them. -/
abbrev Surroundings := List (ScopeSort × List String)

namespace Surroundings

/-- The scopes around, behind a landmark. -/
def pass : Surroundings → Landmark → Surroundings
  | around, .enter sort => (sort, []) :: around
  | around, .leave => around.tail
  | (sort, names) :: around, .declare x => (sort, x :: names) :: around
  | [], .declare _ => []
  | around, .occur _ => around

/-- The scopes around, behind landmarks. -/
def passAll (around : Surroundings) (marks : List Landmark) : Surroundings :=
  marks.foldl pass around

/-- There is a scope around, `depth` scopes out, and the property holds of it. -/
def There (around : Surroundings) (depth : Nat) (P : ScopeSort × List String → Prop) : Prop :=
  ∃ scope, around[depth]? = some scope ∧ P scope

/-- A scope of the sort is around. -/
abbrev Has (around : Surroundings) (depth : Nat) (sort : ScopeSort) : Prop :=
  around.There depth (·.1 = sort)

/-- A scope with the name is around. -/
abbrev Knows (around : Surroundings) (depth : Nat) (x : String) : Prop :=
  around.There depth (x ∈ ·.2)

variable {around : Surroundings} {depth : Nat} {sort : ScopeSort} {x : String}
  {scope : ScopeSort × List String} {P : ScopeSort × List String → Prop}

theorem there_cons_zero : There (scope :: around) 0 P ↔ P scope := by simp [There]

theorem there_cons_succ : There (scope :: around) (depth + 1) P ↔ There around depth P := Iff.rfl

theorem not_there_nil : ¬There [] depth P := by
  rintro ⟨scope, h, -⟩
  cases h

theorem there_tail : There around.tail depth P ↔ There around (depth + 1) P := by
  cases around with
  | nil => exact ⟨fun h => absurd h not_there_nil, fun h => absurd h not_there_nil⟩
  | cons => exact Iff.rfl

theorem has_tail : Has around.tail depth sort ↔ Has around (depth + 1) sort := there_tail

theorem knows_tail : Knows around.tail depth x ↔ Knows around (depth + 1) x := there_tail

/-- A declaration changes no scope's sort. -/
theorem has_declare : (around.pass (.declare x)).Has depth sort ↔ around.Has depth sort := by
  cases around with
  | nil => rfl
  | cons scope around => cases depth <;> simp [pass, there_cons_zero, there_cons_succ]

end Surroundings

open Surroundings

/-! ## What the text says about the scopes around a point -/

section Text

variable {before since : List Landmark} {m : Landmark} {depth : Nat} {sort : ScopeSort} {x : String}

theorem outward_snoc : outward (since ++ [m]) = (outward since).bind (Landmark.pass · m) := by
  rw [outward, List.foldlM_append, outward]
  cases List.foldlM Landmark.pass 0 since <;> simp

/-- What stands behind the beginning of a scope, up to and with one more landmark. -/
theorem encloses_snoc :
    Encloses (before ++ [m]) depth sort ↔ (m = .enter sort ∧ depth = 0) ∨
      ∃ inner, Encloses before inner sort ∧ Landmark.pass inner m = some depth := by
  constructor
  · rintro ⟨outside, since, split, h⟩
    rcases List.eq_nil_or_concat since with rfl | ⟨since, m', rfl⟩
    · obtain ⟨-, hm⟩ := List.append_inj' split rfl
      cases hm
      cases h
      exact .inl ⟨rfl, rfl⟩
    · rw [List.concat_eq_append, ← List.cons_append, ← List.append_assoc] at split
      obtain ⟨rfl, hm⟩ := List.append_inj' split rfl
      cases hm
      rw [List.concat_eq_append, outward_snoc, Option.bind_eq_some_iff] at h
      obtain ⟨inner, h, passes⟩ := h
      exact .inr ⟨inner, ⟨outside, since, rfl, h⟩, passes⟩
  · rintro (⟨rfl, rfl⟩ | ⟨inner, ⟨outside, since, rfl, h⟩, passes⟩)
    · exact ⟨before, [], rfl, rfl⟩
    · refine ⟨outside, since ++ [m], by simp, ?_⟩
      rw [outward_snoc, h]
      exact passes

theorem declaresAt_snoc :
    DeclaresAt (before ++ [m]) depth x ↔
      (m = .declare x ∧ depth = 0 ∧ ∃ sort, Encloses before 0 sort) ∨
      ∃ inner, DeclaresAt before inner x ∧ Landmark.pass inner m = some depth := by
  constructor
  · rintro ⟨outside, sort, between, since, split, hb, hs⟩
    rcases List.eq_nil_or_concat since with rfl | ⟨since, m', rfl⟩
    · rw [← List.cons_append, ← List.append_assoc] at split
      obtain ⟨rfl, hm⟩ := List.append_inj' split rfl
      cases hm
      cases hs
      exact .inl ⟨rfl, rfl, sort, outside, between, rfl, hb⟩
    · rw [List.concat_eq_append, ← List.cons_append, ← List.cons_append, ← List.append_assoc,
        ← List.append_assoc] at split
      obtain ⟨rfl, hm⟩ := List.append_inj' split rfl
      cases hm
      rw [List.concat_eq_append, outward_snoc, Option.bind_eq_some_iff] at hs
      obtain ⟨inner, hs, passes⟩ := hs
      exact .inr ⟨inner, ⟨outside, sort, between, since, by simp, hb, hs⟩, passes⟩
  · rintro (⟨rfl, rfl, sort, outside, since, rfl, h⟩ |
      ⟨inner, ⟨outside, sort, between, since, rfl, hb, hs⟩, passes⟩)
    · exact ⟨outside, sort, since, [], by simp, h, rfl⟩
    · refine ⟨outside, sort, between, since ++ [m], by simp, hb, ?_⟩
      rw [outward_snoc, hs]
      exact passes

theorem passAll_snoc : passAll [] (before ++ [m]) = (passAll [] before).pass m := by
  rw [passAll, List.foldl_append, passAll]
  rfl

/-- The scopes around a point are those that enclose it by the text. -/
theorem encloses_iff : Encloses before depth sort ↔ (passAll [] before).Has depth sort := by
  induction before using List.reverseRecOn generalizing depth with
  | nil =>
      refine ⟨?_, fun h => absurd h not_there_nil⟩
      rintro ⟨outside, since, split, -⟩
      simp at split
  | append_singleton before m ih =>
      rw [encloses_snoc, passAll_snoc]
      cases m with
      | enter kind =>
          cases depth with
          | zero => simp [Surroundings.pass, there_cons_zero, Landmark.pass]
          | succ depth => simp [Surroundings.pass, there_cons_succ, Landmark.pass, ih]
      | leave =>
          rw [Surroundings.pass, has_tail, ← ih]
          constructor
          · rintro (⟨h, -⟩ | ⟨_ | inner, h, passes⟩)
            · cases h
            · cases passes
            · cases passes
              exact h
          · exact fun h => .inr ⟨depth + 1, h, rfl⟩
      | declare y =>
          rw [Surroundings.has_declare]
          simp [Landmark.pass, ih]
      | occur o => simp [Surroundings.pass, Landmark.pass, ih]

/-- The names in these scopes are those that are declared in them by the text. -/
theorem declaresAt_iff : DeclaresAt before depth x ↔ (passAll [] before).Knows depth x := by
  induction before using List.reverseRecOn generalizing depth with
  | nil =>
      refine ⟨?_, fun h => absurd h not_there_nil⟩
      rintro ⟨outside, sort, between, since, split, -⟩
      simp at split
  | append_singleton before m ih =>
      rw [declaresAt_snoc, passAll_snoc]
      cases m with
      | enter kind =>
          cases depth with
          | zero => simp [Surroundings.pass, there_cons_zero, Landmark.pass]
          | succ depth => simp [Surroundings.pass, there_cons_succ, Landmark.pass, ih]
      | leave =>
          rw [Surroundings.pass, knows_tail, ← ih]
          constructor
          · rintro (⟨h, -⟩ | ⟨_ | inner, h, passes⟩)
            · cases h
            · cases passes
            · cases passes
              exact h
          · exact fun h => .inr ⟨depth + 1, h, rfl⟩
      | declare y =>
          simp only [encloses_iff, Landmark.pass, ih, Option.some.injEq, exists_eq_right]
          cases passAll [] before with
          | nil => simp [Surroundings.pass, not_there_nil]
          | cons scope around =>
              obtain ⟨sort, names⟩ := scope
              cases depth with
              | zero => simp [Surroundings.pass, there_cons_zero, eq_comm]
              | succ depth => simp [Surroundings.pass, there_cons_succ]
      | occur o => simp [Surroundings.pass, Landmark.pass, ih]

end Text

/-! ## Numbers that come first -/

theorem isFirst_zero {P : Nat → Prop} : IsFirst P 0 ↔ P 0 := by simp [IsFirst]

theorem isFirst_succ {P : Nat → Prop} {n : Nat} :
    IsFirst P (n + 1) ↔ ¬P 0 ∧ IsFirst (fun n => P (n + 1)) n := by
  constructor
  · rintro ⟨h, before⟩
    exact ⟨before 0 (Nat.succ_pos n), h, fun m hm => before (m + 1) (Nat.succ_lt_succ hm)⟩
  · rintro ⟨h, first, before⟩
    refine ⟨first, fun m hm => ?_⟩
    cases m with
    | zero => exact h
    | succ m => exact before m (Nat.lt_of_succ_lt_succ hm)

theorem IsFirst.unique {P : Nat → Prop} {n m : Nat} (h : IsFirst P n) (h' : IsFirst P m) :
    n = m := by
  rcases Nat.lt_trichotomy n m with lt | eq | gt
  · exact absurd h.1 (h'.2 n lt)
  · exact eq
  · exact absurd h'.1 (h.2 m gt)

/-! ## Distances seen from the scopes around -/

namespace Surroundings

/-- How many scopes out an occurrence leads. -/
def Finds (around : Surroundings) (o : Occurrence) (depth : Nat) : Prop :=
  match o.sort with
  | .name | .assign => IsFirst (around.Knows · o.token.lexeme) depth
  | .this => IsFirst (around.Has · .this) depth
  | .super => ∃ inner, IsFirst (around.Has · .this) inner ∧ depth = inner + 1 ∧
      around.Has depth .super

/-- The occurrence has the depth that it leads to, if it leads anywhere. -/
def Fits (around : Surroundings) (o : Occurrence) : Prop :=
  ∀ depth, o.depth = some depth ↔ around.Finds o depth

/-- All occurrences have the depths that they lead to. -/
def Resolved : Surroundings → List Landmark → Prop
  | _, [] => True
  | around, m :: marks => (∀ o, m = .occur o → around.Fits o) ∧ Resolved (around.pass m) marks

variable {around : Surroundings} {marks others : List Landmark} {m : Landmark}

theorem passAll_cons : around.passAll (m :: marks) = (around.pass m).passAll marks := rfl

theorem passAll_append :
    around.passAll (marks ++ others) = (around.passAll marks).passAll others :=
  List.foldl_append

theorem resolved_append :
    around.Resolved (marks ++ others) ↔
      around.Resolved marks ∧ (around.passAll marks).Resolved others := by
  induction marks generalizing around with
  | nil => simp [Resolved, passAll]
  | cons m marks ih => simp [Resolved, ih, passAll_cons, and_assoc]

/-- Occurrences change nothing. -/
theorem passAll_occurrences (os : List Occurrence) : around.passAll (os.map .occur) = around := by
  induction os with
  | nil => rfl
  | cons o os ih => exact ih

theorem resolved_occurrences {os : List Occurrence} :
    around.Resolved (os.map .occur) ↔ ∀ o ∈ os, around.Fits o := by
  induction os with
  | nil => simp [Resolved]
  | cons o os ih => simp [Resolved, pass, ih]

end Surroundings

/-- What an occurrence leads to is its distance by the text. -/
theorem distance_iff {before : List Landmark} {o : Occurrence} {depth : Nat} :
    Distance before o depth ↔ (passAll [] before).Finds o depth := by
  unfold Distance Finds
  cases o.sort <;> simp only [encloses_iff, declaresAt_iff]

/-- An outline that is resolved step by step has the depths that the text says. -/
theorem Surroundings.Resolved.lexicalDepths {outline : List Landmark} (h : Resolved [] outline) :
    LexicalDepths outline := by
  rintro before o after rfl
  have fits : (passAll [] before).Fits o := (resolved_append.1 h).2.1 o rfl
  refine ⟨fun depth => (fits depth).trans distance_iff.symm, fun none => ?_, fun nowhere => ?_⟩
  · rintro ⟨depth, hd⟩
    rw [(fits depth).2 (distance_iff.1 hd)] at none
    cases none
  · exact Option.eq_none_iff_forall_ne_some.2 fun depth hd =>
      nowhere ⟨depth, distance_iff.2 ((fits depth).1 hd)⟩

end LoxLang
