import Mathlib.Data.List.Nodup
import LoxLang.Resolution.Record

/-!
# The table says what the tree would

Resolution into a table comes to the same as resolution into the tree. The
errors among the events of a tree are those of the tree without its slots. If
every slot is answered with the depth of its occurrence, the answers put into
the slots give the resolved tree. And the table that the events leave does
answer like that, if the slots hold different numbers that were not in use
before; then no number is found used, and what the table said of other numbers
it still says.
-/

namespace LoxLang

/-! ## What replacing slots leaves alone -/

theorem Expr.selfInheritance_mapSlots (f : Option Nat → Option Nat) (name : Token) (e : Expr) :
    (e.mapSlots f).selfInheritance name = e.selfInheritance name := by
  cases e <;> rfl

theorem FunctionDecl.name_mapSlots (f : Option Nat → Option Nat) (d : FunctionDecl) :
    (d.mapSlots f).name = d.name := by
  cases d
  rfl

theorem FunctionDecl.methodBody_mapSlots (f : Option Nat → Option Nat) (d : FunctionDecl) :
    (d.mapSlots f).methodBody = d.methodBody := by
  cases d
  rfl

theorem Stmt.after_mapSlots (f : Option Nat → Option Nat) (c : Context) : ∀ s : Stmt,
    (s.mapSlots f).after c = s.after c
  | .expr _ | .print _ | .block _ | .returning _ _ => rfl
  | .var _ _ | .classDecl _ _ _ => rfl
  | .function d => by rw [Stmt.mapSlots, Stmt.after, Stmt.after, d.name_mapSlots]
  | .ifThen _ s | .whileDo _ s => s.after_mapSlots f c
  | .ifElse _ s r => by rw [Stmt.mapSlots, Stmt.after, Stmt.after, s.after_mapSlots,
      r.after_mapSlots]

/-! ## Errors -/

/-- The errors among events. -/
def Event.errors (events : List Event) : List (Located StaticError) := events.filterMap error?

namespace Event

@[simp] theorem errors_append (events others : List Event) :
    errors (events ++ others) = errors events ++ errors others := List.filterMap_append

@[simp] theorem errors_map (es : List (Located StaticError)) : errors (es.map .error) = es := by
  rw [errors, List.filterMap_map]
  exact List.filterMap_some

@[simp] theorem errors_occurrence (slot : Option Nat) (name : Token) (depth : Option Nat) :
    errors [.occurrence slot name depth] = [] := rfl

end Event

mutual

theorem Expr.errors_events (c : Context) : ∀ e : Expr,
    Event.errors (e.events c) = e.plain.errors c
  | .literal _ => rfl
  | .group inner => inner.errors_events c
  | .unary _ operand => operand.errors_events c
  | .binary left _ right | .logical left _ right => by
      rw [Expr.events, Event.errors_append, left.errors_events, right.errors_events]
      rfl
  | .name _ _ => by
      rw [Expr.events, Event.errors_append, Event.errors_map]
      rfl
  | .assign _ _ value => by
      rw [Expr.events, Event.errors_append, value.errors_events]
      rfl
  | .call callee _ arguments => by
      rw [Expr.events, Event.errors_append, callee.errors_events, Expr.errors_allEvents]
      rfl
  | .get object _ => object.errors_events c
  | .set object _ value => by
      rw [Expr.events, Event.errors_append, value.errors_events, object.errors_events]
      rfl
  | .this _ _ | .super _ _ _ => by
      rw [Expr.events, Event.errors_append, Event.errors_map, Event.errors_occurrence,
        List.append_nil]
      rfl

theorem Expr.errors_allEvents (c : Context) : ∀ es : List Expr,
    Event.errors (Expr.allEvents c es) = Expr.errorsAll c (Expr.mapAllSlots (fun _ => none) es)
  | [] => rfl
  | e :: es => by
      rw [Expr.allEvents, Event.errors_append, e.errors_events, Expr.errors_allEvents]
      rfl

end

theorem Expr.errors_optEvents (c : Context) : ∀ o : Option Expr,
    Event.errors (Expr.optEvents c o) = Expr.errorsOpt c (o.map Expr.plain)
  | none => rfl
  | some e => e.errors_events c

mutual

theorem Stmt.errors_events (c : Context) : ∀ s : Stmt,
    Event.errors (s.events c) = (s.mapSlots fun _ => none).errors c
  | .expr value | .print value => value.errors_events c
  | .var _ initial => by
      rw [Stmt.events, Event.errors_append, Event.errors_map, Expr.errors_optEvents]
      rfl
  | .block body => Stmt.errors_allEvents c.enter body
  | .ifThen condition consequent => by
      rw [Stmt.events, Event.errors_append, condition.errors_events, consequent.errors_events]
      rfl
  | .ifElse condition consequent alternative => by
      rw [Stmt.events, Event.errors_append, Event.errors_append, condition.errors_events,
        consequent.errors_events, alternative.errors_events, Stmt.mapSlots, Stmt.errors,
        Stmt.after_mapSlots]
      rfl
  | .whileDo condition body => by
      rw [Stmt.events, Event.errors_append, condition.errors_events, body.errors_events]
      rfl
  | .function declaration => by
      rw [Stmt.events, Event.errors_append, Event.errors_map, declaration.errors_events,
        Stmt.mapSlots, Stmt.errors, declaration.name_mapSlots]
  | .returning keyword value => by
      rw [Stmt.events, Event.errors_append, Event.errors_map, Expr.errors_optEvents,
        Stmt.mapSlots, Stmt.errors, Option.isSome_map]
      rfl
  | .classDecl name superclass methods => by
      have selfInheritance : ((superclass.map (·.mapSlots fun _ => none)).map
          (·.selfInheritance name)).getD [] =
            (superclass.map (·.selfInheritance name)).getD [] := by
        cases superclass with
        | none => rfl
        | some e => exact e.selfInheritance_mapSlots _ name
      rw [Stmt.events, Event.errors_append, Event.errors_append, Event.errors_map,
        Expr.errors_optEvents, FunctionDecl.errors_methodEvents, Stmt.mapSlots, Stmt.errors,
        selfInheritance, Option.isSome_map]
      rfl

theorem Stmt.errors_allEvents (c : Context) : ∀ ss : List Stmt,
    Event.errors (Stmt.allEvents c ss) = Stmt.errorsAll c (Stmt.allPlain ss)
  | [] => rfl
  | s :: ss => by
      rw [Stmt.allEvents, Event.errors_append, s.errors_events, Stmt.errors_allEvents,
        ← s.after_mapSlots fun _ => none]
      rfl

theorem FunctionDecl.errors_events (kind : Body) (c : Context) : ∀ f : FunctionDecl,
    Event.errors (f.events kind c) = (f.mapSlots fun _ => none).errors kind c
  | ⟨_, _, body⟩ => by
      rw [FunctionDecl.events, Event.errors_append, Event.errors_map, Stmt.errors_allEvents]
      rfl

theorem FunctionDecl.errors_methodEvents (c : Context) : ∀ fs : List FunctionDecl,
    Event.errors (FunctionDecl.methodEvents c fs) =
      FunctionDecl.methodErrors c (FunctionDecl.mapAllSlots (fun _ => none) fs)
  | [] => rfl
  | f :: fs => by
      rw [FunctionDecl.methodEvents, Event.errors_append, f.errors_events,
        FunctionDecl.errors_methodEvents, ← f.methodBody_mapSlots fun _ => none]
      rfl

end

/-! ## Slots -/

/-- The slots of the occurrences among events. -/
def Event.slots (events : List Event) : List (Option Nat) := events.filterMap slot?

namespace Event

@[simp] theorem slots_append (events others : List Event) :
    slots (events ++ others) = slots events ++ slots others := List.filterMap_append

@[simp] theorem slots_map (es : List (Located StaticError)) : slots (es.map .error) = [] := by
  rw [slots, List.filterMap_map]
  exact List.filterMap_none _

end Event

mutual

theorem Expr.slots_events (c : Context) : ∀ e : Expr, Event.slots (e.events c) = e.slots
  | .literal _ => rfl
  | .group inner => inner.slots_events c
  | .unary _ operand => operand.slots_events c
  | .binary left _ right | .logical left _ right => by
      rw [Expr.events, Event.slots_append, left.slots_events, right.slots_events]
      rfl
  | .name _ _ | .this _ _ | .super _ _ _ => by
      rw [Expr.events, Event.slots_append, Event.slots_map]
      rfl
  | .assign _ _ value => by
      rw [Expr.events, Event.slots_append, value.slots_events]
      rfl
  | .call callee _ arguments => by
      rw [Expr.events, Event.slots_append, callee.slots_events, Expr.slots_allEvents]
      rfl
  | .get object _ => object.slots_events c
  | .set object _ value => by
      rw [Expr.events, Event.slots_append, value.slots_events, object.slots_events]
      rfl

theorem Expr.slots_allEvents (c : Context) : ∀ es : List Expr,
    Event.slots (Expr.allEvents c es) = Expr.allSlots es
  | [] => rfl
  | e :: es => by
      rw [Expr.allEvents, Event.slots_append, e.slots_events, Expr.slots_allEvents]
      rfl

end

theorem Expr.slots_optEvents (c : Context) : ∀ o : Option Expr,
    Event.slots (Expr.optEvents c o) = Expr.optSlots o
  | none => rfl
  | some e => e.slots_events c

mutual

theorem Stmt.slots_events (c : Context) : ∀ s : Stmt, Event.slots (s.events c) = s.slots
  | .expr value | .print value => value.slots_events c
  | .var _ initial => by
      rw [Stmt.events, Event.slots_append, Event.slots_map, Expr.slots_optEvents]
      rfl
  | .block body => Stmt.slots_allEvents c.enter body
  | .ifThen condition consequent => by
      rw [Stmt.events, Event.slots_append, condition.slots_events, consequent.slots_events]
      rfl
  | .ifElse condition consequent alternative => by
      rw [Stmt.events, Event.slots_append, Event.slots_append, condition.slots_events,
        consequent.slots_events, alternative.slots_events]
      rfl
  | .whileDo condition body => by
      rw [Stmt.events, Event.slots_append, condition.slots_events, body.slots_events]
      rfl
  | .function declaration => by
      rw [Stmt.events, Event.slots_append, Event.slots_map, declaration.slots_events]
      rfl
  | .returning _ value => by
      rw [Stmt.events, Event.slots_append, Event.slots_map, Expr.slots_optEvents]
      rfl
  | .classDecl _ superclass methods => by
      rw [Stmt.events, Event.slots_append, Event.slots_append, Event.slots_map,
        Expr.slots_optEvents, FunctionDecl.slots_methodEvents]
      rfl

theorem Stmt.slots_allEvents (c : Context) : ∀ ss : List Stmt,
    Event.slots (Stmt.allEvents c ss) = Stmt.allSlots ss
  | [] => rfl
  | s :: ss => by
      rw [Stmt.allEvents, Event.slots_append, s.slots_events, Stmt.slots_allEvents]
      rfl

theorem FunctionDecl.slots_events (kind : Body) (c : Context) : ∀ f : FunctionDecl,
    Event.slots (f.events kind c) = f.slots
  | ⟨_, _, body⟩ => by
      rw [FunctionDecl.events, Event.slots_append, Event.slots_map, Stmt.slots_allEvents]
      rfl

theorem FunctionDecl.slots_methodEvents (c : Context) : ∀ fs : List FunctionDecl,
    Event.slots (FunctionDecl.methodEvents c fs) = FunctionDecl.allSlots fs
  | [] => rfl
  | f :: fs => by
      rw [FunctionDecl.methodEvents, Event.slots_append, f.slots_events,
        FunctionDecl.slots_methodEvents]
      rfl

end

/-! ## Depths -/

/-- An occurrence is answered if what its slot is found to mean is its depth. -/
def Event.Answered (find : Option Nat → Option Nat) : Event → Prop
  | .error _ => True
  | .occurrence slot _ depth => find slot = depth

open List (forall_mem_append forall_mem_cons forall_mem_singleton)

section Depths

variable {find : Option Nat → Option Nat}

mutual

theorem Expr.mapSlots_of_answered {c : Context} : ∀ {e : Expr},
    (∀ event ∈ e.events c, event.Answered find) → e.mapSlots find = e.plain.annotate c
  | .literal _, _ => rfl
  | .group inner, h => congrArg Expr.group (Expr.mapSlots_of_answered (e := inner) h)
  | .unary operator operand, h =>
      congrArg (Expr.unary operator) (Expr.mapSlots_of_answered (e := operand) h)
  | .binary left operator right, h => by
      obtain ⟨left, right⟩ := forall_mem_append.1 h
      exact congrArg₂ (Expr.binary · operator) (Expr.mapSlots_of_answered left)
        (Expr.mapSlots_of_answered right)
  | .logical left operator right, h => by
      obtain ⟨left, right⟩ := forall_mem_append.1 h
      exact congrArg₂ (Expr.logical · operator) (Expr.mapSlots_of_answered left)
        (Expr.mapSlots_of_answered right)
  | .name x _, h => by
      have slot := forall_mem_singleton.1 (forall_mem_append.1 h).2
      exact congrArg (Expr.name x) slot
  | .assign x _ _, h => by
      obtain ⟨value, occurrence⟩ := forall_mem_append.1 h
      have slot := forall_mem_singleton.1 occurrence
      exact congrArg₂ (Expr.assign x) slot (Expr.mapSlots_of_answered value)
  | .call _ paren _, h => by
      obtain ⟨callee, arguments⟩ := forall_mem_append.1 h
      exact congrArg₂ (Expr.call · paren) (Expr.mapSlots_of_answered callee)
        (Expr.mapAllSlots_of_answered arguments)
  | .get object property, h =>
      congrArg (Expr.get · property) (Expr.mapSlots_of_answered (e := object) h)
  | .set _ property _, h => by
      obtain ⟨value, object⟩ := forall_mem_append.1 h
      exact congrArg₂ (Expr.set · property) (Expr.mapSlots_of_answered object)
        (Expr.mapSlots_of_answered value)
  | .this keyword _, h => by
      have slot := forall_mem_singleton.1 (forall_mem_append.1 h).2
      exact congrArg (Expr.this keyword) slot
  | .super keyword _ method, h => by
      have slot := forall_mem_singleton.1 (forall_mem_append.1 h).2
      exact congrArg (Expr.super keyword · method) slot

theorem Expr.mapAllSlots_of_answered {c : Context} : ∀ {es : List Expr},
    (∀ event ∈ Expr.allEvents c es, event.Answered find) →
      Expr.mapAllSlots find es = Expr.annotateAll c (Expr.mapAllSlots (fun _ => none) es)
  | [], _ => rfl
  | _ :: _, h => by
      obtain ⟨head, tail⟩ := forall_mem_append.1 h
      exact congrArg₂ List.cons (Expr.mapSlots_of_answered head)
        (Expr.mapAllSlots_of_answered tail)

end

theorem Expr.mapOptSlots_of_answered {c : Context} {o : Option Expr}
    (h : ∀ event ∈ Expr.optEvents c o, event.Answered find) :
    o.map (·.mapSlots find) = (o.map Expr.plain).map (·.annotate c) := by
  cases o with
  | none => rfl
  | some e => exact congrArg some (Expr.mapSlots_of_answered h)

mutual

theorem Stmt.mapSlots_of_answered {c : Context} : ∀ {s : Stmt},
    (∀ event ∈ s.events c, event.Answered find) →
      s.mapSlots find = (s.mapSlots fun _ => none).annotate c
  | .expr value, h => congrArg Stmt.expr (Expr.mapSlots_of_answered (e := value) h)
  | .print value, h => congrArg Stmt.print (Expr.mapSlots_of_answered (e := value) h)
  | .var name _, h =>
      congrArg (Stmt.var name) (Expr.mapOptSlots_of_answered (forall_mem_append.1 h).2)
  | .block body, h => congrArg Stmt.block (@Stmt.mapAllSlots_of_answered _ body h)
  | .ifThen _ _, h => by
      obtain ⟨condition, consequent⟩ := forall_mem_append.1 h
      exact congrArg₂ Stmt.ifThen (Expr.mapSlots_of_answered condition)
        (Stmt.mapSlots_of_answered consequent)
  | .ifElse _ consequent _, h => by
      obtain ⟨front, alternative⟩ := forall_mem_append.1 h
      obtain ⟨condition, consequent⟩ := forall_mem_append.1 front
      rw [Stmt.mapSlots, Stmt.mapSlots, Stmt.annotate, Stmt.after_mapSlots,
        Expr.mapSlots_of_answered condition, Stmt.mapSlots_of_answered consequent,
        Stmt.mapSlots_of_answered alternative]
      rfl
  | .whileDo _ _, h => by
      obtain ⟨condition, body⟩ := forall_mem_append.1 h
      exact congrArg₂ Stmt.whileDo (Expr.mapSlots_of_answered condition)
        (Stmt.mapSlots_of_answered body)
  | .function declaration, h => by
      have inner := FunctionDecl.mapSlots_of_answered (forall_mem_append.1 h).2
      rw [← declaration.name_mapSlots fun _ => none] at inner
      exact congrArg Stmt.function inner
  | .returning keyword _, h =>
      congrArg (Stmt.returning keyword) (Expr.mapOptSlots_of_answered (forall_mem_append.1 h).2)
  | .classDecl name superclass methods, h => by
      obtain ⟨front, methods⟩ := forall_mem_append.1 h
      have superclass := Expr.mapOptSlots_of_answered (forall_mem_append.1 front).2
      have methods := FunctionDecl.mapAllSlots_of_answered methods
      rw [Stmt.mapSlots, Stmt.mapSlots, Stmt.annotate, Option.isSome_map, superclass, methods]
      rfl

theorem Stmt.mapAllSlots_of_answered {c : Context} : ∀ {ss : List Stmt},
    (∀ event ∈ Stmt.allEvents c ss, event.Answered find) →
      Stmt.mapAllSlots find ss = Stmt.annotateAll c (Stmt.allPlain ss)
  | [], _ => rfl
  | s :: _, h => by
      obtain ⟨head, tail⟩ := forall_mem_append.1 h
      have tail := Stmt.mapAllSlots_of_answered tail
      rw [← s.after_mapSlots fun _ => none] at tail
      exact congrArg₂ List.cons (Stmt.mapSlots_of_answered head) tail

theorem FunctionDecl.mapSlots_of_answered {kind : Body} {c : Context} : ∀ {f : FunctionDecl},
    (∀ event ∈ f.events kind c, event.Answered find) →
      f.mapSlots find = (f.mapSlots fun _ => none).annotate kind c
  | ⟨name, parameters, _⟩, h =>
      congrArg (FunctionDecl.mk name parameters)
        (Stmt.mapAllSlots_of_answered (forall_mem_append.1 h).2)

theorem FunctionDecl.mapAllSlots_of_answered {c : Context} : ∀ {fs : List FunctionDecl},
    (∀ event ∈ FunctionDecl.methodEvents c fs, event.Answered find) →
      FunctionDecl.mapAllSlots find fs =
        FunctionDecl.annotateMethods c (FunctionDecl.mapAllSlots (fun _ => none) fs)
  | [], _ => rfl
  | f :: _, h => by
      obtain ⟨head, tail⟩ := forall_mem_append.1 h
      have head := FunctionDecl.mapSlots_of_answered head
      rw [← f.methodBody_mapSlots fun _ => none] at head
      exact congrArg₂ List.cons head (FunctionDecl.mapAllSlots_of_answered tail)

end

end Depths

/-! ## The table -/

namespace Table

@[simp] theorem record_self (table : Table) (id depth : Nat) :
    table.record id depth id = some depth := if_pos rfl

theorem record_of_ne (table : Table) {id other : Nat} (depth : Nat) (h : other ≠ id) :
    table.record id depth other = table other := if_neg h

/-- Events whose numbers are distinct and not in use. -/
theorem notes_of_unused {events : List Event} {ids : List Nat}
    (slots : Event.slots events = ids.map some) (distinct : ids.Nodup) {table : Table}
    (unused : ∀ id ∈ ids, table id = none) :
    (table.notes events).2 = Event.errors events ∧
      (∀ id ∉ ids, (table.notes events).1 id = table id) ∧
      ∀ event ∈ events, event.Answered (table.notes events).1.find := by
  induction events generalizing ids table with
  | nil => exact ⟨rfl, fun _ _ => rfl, nofun⟩
  | cons event events ih =>
      cases event with
      | error e =>
          obtain ⟨errors, others, answered⟩ := ih slots distinct unused
          exact ⟨congrArg (e :: ·) errors, others, forall_mem_cons.2 ⟨trivial, answered⟩⟩
      | occurrence slot name depth =>
          -- The numbers of the events behind this one do not include its own.
          obtain ⟨id, ids, rfl, rfl, later⟩ := List.map_eq_cons_iff.1 slots.symm
          obtain ⟨fresh, distinct⟩ := List.nodup_cons.1 distinct
          obtain ⟨unusedHere, unused⟩ := forall_mem_cons.1 unused
          cases depth with
          | none =>
              obtain ⟨errors, others, answered⟩ := ih later.symm distinct unused
              refine ⟨errors, fun other h => others other (List.not_mem_of_not_mem_cons h),
                forall_mem_cons.2 ⟨?_, answered⟩⟩
              exact (others id fresh).trans unusedHere
          | some depth =>
              have noted : table.note (.occurrence (some id) name (some depth)) =
                  (table.record id depth, []) := by
                rw [note, unusedHere]
                rfl
              have unused : ∀ other ∈ ids, table.record id depth other = none := fun other h => by
                rw [record_of_ne table depth (ne_of_mem_of_not_mem h fresh)]
                exact unused other h
              obtain ⟨errors, others, answered⟩ := ih later.symm distinct unused
              rw [notes, noted]
              refine ⟨errors, fun other h => ?_, forall_mem_cons.2 ⟨?_, answered⟩⟩
              · rw [← record_of_ne table depth (List.ne_of_not_mem_cons h)]
                exact others other (List.not_mem_of_not_mem_cons h)
              · exact (others id fresh).trans (record_self table id depth)

end Table

end LoxLang
