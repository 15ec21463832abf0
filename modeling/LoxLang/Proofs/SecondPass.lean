import LoxLang.Proofs.FreshNumbers

/-!
# A second pass

What a walk comes to depends on the tree only, and not on what its slots hold.
So a second pass makes the decisions of the first one: it comes to the same
errors and wants to enter the same depths. All of these are there by then, and
each is refused where the walk comes to it.

This holds of resolution into a table and of resolution into the tree alike,
because the tree with the answers of the table in its slots is the resolved one.
-/

namespace LoxLang

open List (forall_mem_append forall_mem_cons forall_mem_singleton)

/-! ## The events of a tree with other slots -/

/-- An event with its slot replaced. -/
def Event.mapSlot (f : Option Nat → Option Nat) : Event → Event
  | .error e => .error e
  | .occurrence slot name depth => .occurrence (f slot) name depth

@[simp] theorem Event.map_mapSlot_map_error (f : Option Nat → Option Nat)
    (es : List (Located StaticError)) : (es.map error).map (mapSlot f) = es.map error := by
  rw [List.map_map]
  rfl

section Slots

variable (f : Option Nat → Option Nat)

mutual

theorem Expr.events_mapSlots (c : Context) : ∀ e : Expr,
    (e.mapSlots f).events c = (e.events c).map (·.mapSlot f)
  | .literal _ => rfl
  | .group inner => inner.events_mapSlots c
  | .unary _ operand => operand.events_mapSlots c
  | .binary left _ right | .logical left _ right => by
      rw [Expr.events, List.map_append, ← left.events_mapSlots, ← right.events_mapSlots]
      rfl
  | .name _ _ | .this _ _ | .super _ _ _ => by
      rw [Expr.events, List.map_append, Event.map_mapSlot_map_error]
      rfl
  | .assign _ _ value => by
      rw [Expr.events, List.map_append, ← value.events_mapSlots]
      rfl
  | .call callee _ arguments => by
      rw [Expr.events, List.map_append, ← callee.events_mapSlots, ← Expr.allEvents_mapAllSlots]
      rfl
  | .get object _ => object.events_mapSlots c
  | .set object _ value => by
      rw [Expr.events, List.map_append, ← value.events_mapSlots, ← object.events_mapSlots]
      rfl

theorem Expr.allEvents_mapAllSlots (c : Context) : ∀ es : List Expr,
    Expr.allEvents c (Expr.mapAllSlots f es) = (Expr.allEvents c es).map (·.mapSlot f)
  | [] => rfl
  | e :: es => by
      rw [Expr.allEvents, List.map_append, ← e.events_mapSlots, ← Expr.allEvents_mapAllSlots]
      rfl

end

theorem Expr.optEvents_map_mapSlots (c : Context) : ∀ o : Option Expr,
    Expr.optEvents c (o.map (·.mapSlots f)) = (Expr.optEvents c o).map (·.mapSlot f)
  | none => rfl
  | some e => e.events_mapSlots f c

mutual

theorem Stmt.events_mapSlots (c : Context) : ∀ s : Stmt,
    (s.mapSlots f).events c = (s.events c).map (·.mapSlot f)
  | .expr value | .print value => value.events_mapSlots f c
  | .var _ initial => by
      rw [Stmt.events, List.map_append, Event.map_mapSlot_map_error,
        ← Expr.optEvents_map_mapSlots]
      rfl
  | .block body => Stmt.allEvents_mapAllSlots c.enter body
  | .ifThen condition consequent => by
      rw [Stmt.events, List.map_append, ← condition.events_mapSlots, ← consequent.events_mapSlots]
      rfl
  | .ifElse condition consequent alternative => by
      rw [Stmt.events, List.map_append, List.map_append, ← condition.events_mapSlots,
        ← consequent.events_mapSlots, ← alternative.events_mapSlots,
        ← consequent.after_mapSlots f c]
      rfl
  | .whileDo condition body => by
      rw [Stmt.events, List.map_append, ← condition.events_mapSlots, ← body.events_mapSlots]
      rfl
  | .function declaration => by
      rw [Stmt.events, List.map_append, Event.map_mapSlot_map_error, ← declaration.events_mapSlots,
        Stmt.mapSlots, Stmt.events, declaration.name_mapSlots]
  | .returning keyword value => by
      rw [Stmt.events, List.map_append, Event.map_mapSlot_map_error,
        ← Expr.optEvents_map_mapSlots, Stmt.mapSlots, Stmt.events, Option.isSome_map]
  | .classDecl name superclass methods => by
      have selfInheritance : ((superclass.map (·.mapSlots f)).map
          (·.selfInheritance name)).getD [] =
            (superclass.map (·.selfInheritance name)).getD [] := by
        cases superclass with
        | none => rfl
        | some e => exact e.selfInheritance_mapSlots f name
      rw [Stmt.events, List.map_append, List.map_append, Event.map_mapSlot_map_error,
        ← Expr.optEvents_map_mapSlots, ← FunctionDecl.methodEvents_mapAllSlots, Stmt.mapSlots,
        Stmt.events, selfInheritance, Option.isSome_map]

theorem Stmt.allEvents_mapAllSlots (c : Context) : ∀ ss : List Stmt,
    Stmt.allEvents c (Stmt.mapAllSlots f ss) = (Stmt.allEvents c ss).map (·.mapSlot f)
  | [] => rfl
  | s :: ss => by
      rw [Stmt.allEvents, List.map_append, ← s.events_mapSlots, ← Stmt.allEvents_mapAllSlots,
        ← s.after_mapSlots f c]
      rfl

theorem FunctionDecl.events_mapSlots (kind : Body) (c : Context) : ∀ d : FunctionDecl,
    (d.mapSlots f).events kind c = (d.events kind c).map (·.mapSlot f)
  | ⟨_, _, body⟩ => by
      rw [FunctionDecl.events, List.map_append, Event.map_mapSlot_map_error,
        ← Stmt.allEvents_mapAllSlots]
      rfl

theorem FunctionDecl.methodEvents_mapAllSlots (c : Context) : ∀ ds : List FunctionDecl,
    FunctionDecl.methodEvents c (FunctionDecl.mapAllSlots f ds) =
      (FunctionDecl.methodEvents c ds).map (·.mapSlot f)
  | [] => rfl
  | d :: ds => by
      rw [FunctionDecl.methodEvents, List.map_append, ← d.events_mapSlots,
        ← FunctionDecl.methodEvents_mapAllSlots, ← d.methodBody_mapSlots f]
      rfl

end

end Slots

/-! ## Into the tree

A slot that is filled already makes an error of every depth that is found.
-/

namespace Event

/-- The error in an event, or that of a depth found for a slot that is filled. -/
def clash : Event → List (Located StaticError)
  | .error e => [e]
  | .occurrence slot name depth =>
    if slot.isSome && depth.isSome then [⟨name, .alreadyResolved⟩] else []

/-- The slot is filled if a depth is found, so that it stays as it is. -/
def Settled : Event → Prop
  | .error _ => True
  | .occurrence slot _ depth => slot.or depth = slot

@[simp] theorem flatMap_clash_map_error (es : List (Located StaticError)) :
    (es.map error).flatMap clash = es := by
  rw [List.flatMap_map]
  exact List.flatMap_singleton' es

end Event

namespace Context

variable (c : Context) (depth : Option Nat) (x : Token)

theorem resolvedAgain_eq :
    c.resolvedAgain depth x = (Event.occurrence depth x (c.annotated none x)).clash := rfl

theorem thisErrors_eq : c.thisErrors depth x =
    c.thisErrors none x ++ (Event.occurrence depth x (c.annotatedThis none x)).clash := by
  unfold thisErrors annotatedThis
  split
  · simp [Event.clash]
  · rfl

theorem superErrors_eq : c.superErrors depth x =
    c.superErrors none x ++ (Event.occurrence depth x (c.annotatedSuper none x)).clash := by
  unfold superErrors annotatedSuper
  cases c.classBody with
  | outside => simp [Event.clash]
  | root => simp [Event.clash]
  | derived => rfl

theorem annotatedThis_eq : c.annotatedThis depth x = depth.or (c.annotatedThis none x) := by
  unfold annotatedThis
  split
  · exact (Option.or_none).symm
  · rfl

theorem annotatedSuper_eq : c.annotatedSuper depth x = depth.or (c.annotatedSuper none x) := by
  unfold annotatedSuper
  split
  · rfl
  · exact (Option.or_none).symm

end Context

mutual

theorem Expr.errors_eq (c : Context) : ∀ e : Expr, e.errors c = (e.events c).flatMap Event.clash
  | .literal _ => rfl
  | .group inner => inner.errors_eq c
  | .unary _ operand => operand.errors_eq c
  | .binary left _ right | .logical left _ right => by
      rw [Expr.events, List.flatMap_append, ← left.errors_eq, ← right.errors_eq]
      rfl
  | .name x slot => by
      rw [Expr.events, List.flatMap_append, Event.flatMap_clash_map_error, Expr.errors,
        c.resolvedAgain_eq, List.flatMap_singleton]
  | .assign x slot value => by
      rw [Expr.events, List.flatMap_append, ← value.errors_eq, Expr.errors, c.resolvedAgain_eq,
        List.flatMap_singleton]
  | .call callee _ arguments => by
      rw [Expr.events, List.flatMap_append, ← callee.errors_eq, ← Expr.errorsAll_eq]
      rfl
  | .get object _ => object.errors_eq c
  | .set object _ value => by
      rw [Expr.events, List.flatMap_append, ← value.errors_eq, ← object.errors_eq]
      rfl
  | .this keyword slot => by
      rw [Expr.events, List.flatMap_append, Event.flatMap_clash_map_error, Expr.errors,
        c.thisErrors_eq, List.flatMap_singleton]
  | .super keyword slot _ => by
      rw [Expr.events, List.flatMap_append, Event.flatMap_clash_map_error, Expr.errors,
        c.superErrors_eq, List.flatMap_singleton]

theorem Expr.errorsAll_eq (c : Context) : ∀ es : List Expr,
    Expr.errorsAll c es = (Expr.allEvents c es).flatMap Event.clash
  | [] => rfl
  | e :: es => by
      rw [Expr.allEvents, List.flatMap_append, ← e.errors_eq, ← Expr.errorsAll_eq]
      rfl

end

theorem Expr.errorsOpt_eq (c : Context) : ∀ o : Option Expr,
    Expr.errorsOpt c o = (Expr.optEvents c o).flatMap Event.clash
  | none => rfl
  | some e => e.errors_eq c

mutual

theorem Stmt.errors_eq (c : Context) : ∀ s : Stmt, s.errors c = (s.events c).flatMap Event.clash
  | .expr value | .print value => value.errors_eq c
  | .var _ initial => by
      rw [Stmt.events, List.flatMap_append, Event.flatMap_clash_map_error, ← Expr.errorsOpt_eq]
      rfl
  | .block body => Stmt.errorsAll_eq c.enter body
  | .ifThen condition consequent => by
      rw [Stmt.events, List.flatMap_append, ← condition.errors_eq, ← consequent.errors_eq]
      rfl
  | .ifElse condition consequent alternative => by
      rw [Stmt.events, List.flatMap_append, List.flatMap_append, ← condition.errors_eq,
        ← consequent.errors_eq, ← alternative.errors_eq]
      rfl
  | .whileDo condition body => by
      rw [Stmt.events, List.flatMap_append, ← condition.errors_eq, ← body.errors_eq]
      rfl
  | .function declaration => by
      rw [Stmt.events, List.flatMap_append, Event.flatMap_clash_map_error, ← declaration.errors_eq]
      rfl
  | .returning _ value => by
      rw [Stmt.events, List.flatMap_append, Event.flatMap_clash_map_error, ← Expr.errorsOpt_eq]
      rfl
  | .classDecl _ superclass methods => by
      rw [Stmt.events, List.flatMap_append, List.flatMap_append, Event.flatMap_clash_map_error,
        ← Expr.errorsOpt_eq, ← FunctionDecl.methodErrors_eq]
      rfl

theorem Stmt.errorsAll_eq (c : Context) : ∀ ss : List Stmt,
    Stmt.errorsAll c ss = (Stmt.allEvents c ss).flatMap Event.clash
  | [] => rfl
  | s :: ss => by
      rw [Stmt.allEvents, List.flatMap_append, ← s.errors_eq, ← Stmt.errorsAll_eq]
      rfl

theorem FunctionDecl.errors_eq (kind : Body) (c : Context) : ∀ f : FunctionDecl,
    f.errors kind c = (f.events kind c).flatMap Event.clash
  | ⟨_, _, body⟩ => by
      rw [FunctionDecl.events, List.flatMap_append, Event.flatMap_clash_map_error,
        ← Stmt.errorsAll_eq]
      rfl

theorem FunctionDecl.methodErrors_eq (c : Context) : ∀ fs : List FunctionDecl,
    FunctionDecl.methodErrors c fs = (FunctionDecl.methodEvents c fs).flatMap Event.clash
  | [] => rfl
  | f :: fs => by
      rw [FunctionDecl.methodEvents, List.flatMap_append, ← f.errors_eq,
        ← FunctionDecl.methodErrors_eq]
      rfl

end

mutual

theorem Expr.annotate_of_settled {c : Context} : ∀ {e : Expr},
    (∀ event ∈ e.events c, event.Settled) → e.annotate c = e
  | .literal _, _ => rfl
  | .group inner, h => congrArg Expr.group (Expr.annotate_of_settled (e := inner) h)
  | .unary operator operand, h =>
      congrArg (Expr.unary operator) (Expr.annotate_of_settled (e := operand) h)
  | .binary _ operator _, h => by
      obtain ⟨left, right⟩ := forall_mem_append.1 h
      exact congrArg₂ (Expr.binary · operator) (Expr.annotate_of_settled left)
        (Expr.annotate_of_settled right)
  | .logical _ operator _, h => by
      obtain ⟨left, right⟩ := forall_mem_append.1 h
      exact congrArg₂ (Expr.logical · operator) (Expr.annotate_of_settled left)
        (Expr.annotate_of_settled right)
  | .name x _, h => by
      have slot := forall_mem_singleton.1 (forall_mem_append.1 h).2
      exact congrArg (Expr.name x) slot
  | .assign x _ _, h => by
      obtain ⟨value, occurrence⟩ := forall_mem_append.1 h
      have slot := forall_mem_singleton.1 occurrence
      exact congrArg₂ (Expr.assign x) slot (Expr.annotate_of_settled value)
  | .call _ paren _, h => by
      obtain ⟨callee, arguments⟩ := forall_mem_append.1 h
      exact congrArg₂ (Expr.call · paren) (Expr.annotate_of_settled callee)
        (Expr.annotateAll_of_settled arguments)
  | .get object property, h =>
      congrArg (Expr.get · property) (Expr.annotate_of_settled (e := object) h)
  | .set _ property _, h => by
      obtain ⟨value, object⟩ := forall_mem_append.1 h
      exact congrArg₂ (Expr.set · property) (Expr.annotate_of_settled object)
        (Expr.annotate_of_settled value)
  | .this keyword slot, h => by
      have settled := forall_mem_singleton.1 (forall_mem_append.1 h).2
      exact congrArg (Expr.this keyword) ((c.annotatedThis_eq slot keyword).trans settled)
  | .super keyword slot method, h => by
      have settled := forall_mem_singleton.1 (forall_mem_append.1 h).2
      exact congrArg (Expr.super keyword · method)
        ((c.annotatedSuper_eq slot keyword).trans settled)

theorem Expr.annotateAll_of_settled {c : Context} : ∀ {es : List Expr},
    (∀ event ∈ Expr.allEvents c es, event.Settled) → Expr.annotateAll c es = es
  | [], _ => rfl
  | _ :: _, h => by
      obtain ⟨head, tail⟩ := forall_mem_append.1 h
      exact congrArg₂ List.cons (Expr.annotate_of_settled head)
        (Expr.annotateAll_of_settled tail)

end

theorem Expr.map_annotate_of_settled {c : Context} {o : Option Expr}
    (h : ∀ event ∈ Expr.optEvents c o, event.Settled) : o.map (·.annotate c) = o := by
  cases o with
  | none => rfl
  | some e => exact congrArg some (Expr.annotate_of_settled h)

mutual

theorem Stmt.annotate_of_settled {c : Context} : ∀ {s : Stmt},
    (∀ event ∈ s.events c, event.Settled) → s.annotate c = s
  | .expr value, h => congrArg Stmt.expr (Expr.annotate_of_settled (e := value) h)
  | .print value, h => congrArg Stmt.print (Expr.annotate_of_settled (e := value) h)
  | .var name _, h =>
      congrArg (Stmt.var name) (Expr.map_annotate_of_settled (forall_mem_append.1 h).2)
  | .block body, h => congrArg Stmt.block (@Stmt.annotateAll_of_settled _ body h)
  | .ifThen _ _, h => by
      obtain ⟨condition, consequent⟩ := forall_mem_append.1 h
      exact congrArg₂ Stmt.ifThen (Expr.annotate_of_settled condition)
        (Stmt.annotate_of_settled consequent)
  | .ifElse _ _ _, h => by
      obtain ⟨front, alternative⟩ := forall_mem_append.1 h
      obtain ⟨condition, consequent⟩ := forall_mem_append.1 front
      rw [Stmt.annotate, Expr.annotate_of_settled condition, Stmt.annotate_of_settled consequent,
        Stmt.annotate_of_settled alternative]
  | .whileDo _ _, h => by
      obtain ⟨condition, body⟩ := forall_mem_append.1 h
      exact congrArg₂ Stmt.whileDo (Expr.annotate_of_settled condition)
        (Stmt.annotate_of_settled body)
  | .function _, h =>
      congrArg Stmt.function (FunctionDecl.annotate_of_settled (forall_mem_append.1 h).2)
  | .returning keyword _, h =>
      congrArg (Stmt.returning keyword) (Expr.map_annotate_of_settled (forall_mem_append.1 h).2)
  | .classDecl name _ _, h => by
      obtain ⟨front, methods⟩ := forall_mem_append.1 h
      exact congrArg₂ (Stmt.classDecl name)
        (Expr.map_annotate_of_settled (forall_mem_append.1 front).2)
        (FunctionDecl.annotateMethods_of_settled methods)

theorem Stmt.annotateAll_of_settled {c : Context} : ∀ {ss : List Stmt},
    (∀ event ∈ Stmt.allEvents c ss, event.Settled) → Stmt.annotateAll c ss = ss
  | [], _ => rfl
  | _ :: _, h => by
      obtain ⟨head, tail⟩ := forall_mem_append.1 h
      exact congrArg₂ List.cons (Stmt.annotate_of_settled head)
        (Stmt.annotateAll_of_settled tail)

theorem FunctionDecl.annotate_of_settled {kind : Body} {c : Context} : ∀ {f : FunctionDecl},
    (∀ event ∈ f.events kind c, event.Settled) → f.annotate kind c = f
  | ⟨name, parameters, _⟩, h =>
      congrArg (FunctionDecl.mk name parameters)
        (Stmt.annotateAll_of_settled (forall_mem_append.1 h).2)

theorem FunctionDecl.annotateMethods_of_settled {c : Context} : ∀ {fs : List FunctionDecl},
    (∀ event ∈ FunctionDecl.methodEvents c fs, event.Settled) →
      FunctionDecl.annotateMethods c fs = fs
  | [], _ => rfl
  | _ :: _, h => by
      obtain ⟨head, tail⟩ := forall_mem_append.1 h
      exact congrArg₂ List.cons (FunctionDecl.annotate_of_settled head)
        (FunctionDecl.annotateMethods_of_settled tail)

end

/-! ## Into a table -/

namespace Event

/-- What an event gives when the depths are there already: the same error, or the refusal of an
occurrence for which a depth is found. -/
def again (find : Option Nat → Option Nat) : Event → List (Located StaticError)
  | .error e => [e]
  | .occurrence slot name _ => if (find slot).isSome then [⟨name, .alreadyResolved⟩] else []

variable {find : Option Nat → Option Nat} {event : Event} {events : List Event}

theorem Answered.settled (h : event.Answered find) : (event.mapSlot find).Settled := by
  cases event with
  | error e => trivial
  | occurrence slot name depth =>
      have answer : find slot = depth := h
      rw [mapSlot, Settled, answer]
      exact Option.or_self

theorem Answered.clash_eq (h : event.Answered find) :
    (event.mapSlot find).clash = event.again find := by
  cases event with
  | error e => rfl
  | occurrence slot name depth =>
      have answer : find slot = depth := h
      rw [mapSlot, clash, again, answer, Bool.and_self]

end Event

namespace Table

variable {table : Table}

/-- One event changes nothing in a table that has its depth. -/
theorem note_of_answered {event : Event} (h : event.Answered table.find) :
    table.note event = (table, event.again table.find) := by
  cases event with
  | error e => rfl
  | occurrence slot name depth =>
      have answer : table.find slot = depth := h
      rw [Event.again, answer]
      cases slot with
      | none =>
          subst depth
          rfl
      | some id =>
          have entry : table id = depth := answer
          cases depth with
          | none => rfl
          | some depth =>
              rw [note, entry]
              rfl

theorem notes_of_answered {events : List Event} (h : ∀ event ∈ events, event.Answered table.find) :
    table.notes events = (table, events.flatMap (Event.again table.find)) := by
  induction events with
  | nil => rfl
  | cons event events ih =>
      obtain ⟨head, tail⟩ := forall_mem_cons.1 h
      rw [notes, note_of_answered head, List.flatMap_cons]
      simp only [ih tail]

end Table

/-! ## What the parser returns -/

/-- A parser may return a program with any kind of error, in a session whose table has entries for
earlier numbers. The first pass finds the static errors of the tree, none of which is that of a
second resolution, and the depths of the resolved tree. The second pass changes no depth. It gives
the errors of the first, and one more where it comes to an occurrence that has a depth. -/
theorem Parser.second_pass {first : Nat} {ts : List Token} {program : List Stmt} {p : Parser}
    {table : Table} (parsed : Parser.program (.start first ts) = some (program, p))
    (unused : ∀ id, first ≤ id → table id = none) :
    let tree := (Grammar.program ts).1
    let events := Stmt.allEvents .global program
    let found := (table.notes events).1
    let errors := (table.notes events).2
    found.notes events = (found, events.flatMap (Event.again found.find)) ∧
      errors = Event.errors events ∧ (∀ e ∈ errors, e.error ≠ .alreadyResolved) ∧
      Event.slots events = Stmt.allSlots program ∧
      Stmt.mapAllSlots found.find program = Stmt.resolve tree ∧
      Stmt.resolve (Stmt.resolve tree) = Stmt.resolve tree ∧
      Stmt.staticErrors tree = errors ∧
      Stmt.staticErrors (Stmt.resolve tree) = events.flatMap (Event.again found.find) := by
  intro tree events found errors
  obtain ⟨program', p', run, -, -, read⟩ := Parser.program_follows first ts
  cases parsed.symm.trans run
  have plain : Stmt.allPlain program = tree := read.plain_eq
  obtain ⟨ids, slots, distinct, between⟩ := read.numbers
  have slots_events : Event.slots events = Stmt.allSlots program :=
    Stmt.slots_allEvents .global program
  -- After the first pass the table answers for every event with the depth that the walk gave it.
  obtain ⟨errors_eq, -, answered⟩ := Table.notes_of_unused (slots_events.trans slots) distinct
    fun id hid => unused id (between id hid).1
  have resolved : Stmt.mapAllSlots found.find program = Stmt.resolve tree := by
    rw [← plain]
    exact Stmt.mapAllSlots_of_answered answered
  have events_resolved : Stmt.allEvents .global (Stmt.resolve tree) =
      events.map (·.mapSlot found.find) := by
    rw [← resolved]
    exact Stmt.allEvents_mapAllSlots found.find .global program
  refine ⟨Table.notes_of_answered answered, errors_eq, ?_, slots_events, resolved, ?_, ?_, ?_⟩
  · intro e he
    rw [show errors = Event.errors events from errors_eq] at he
    obtain ⟨event, mem, here⟩ := List.mem_filterMap.1 he
    have noClash := Stmt.allEvents_noClash .global program event mem
    cases event with
    | error e' =>
        cases here
        exact noClash
    | occurrence => cases here
  · refine Stmt.annotateAll_of_settled fun event mem => ?_
    rw [events_resolved] at mem
    obtain ⟨original, from_program, rfl⟩ := List.mem_map.1 mem
    exact (answered original from_program).settled
  · rw [← plain]
    exact (Stmt.errors_allEvents .global program).symm.trans errors_eq.symm
  · rw [Stmt.staticErrors, Stmt.errorsAll_eq, events_resolved, List.flatMap_map]
    exact List.flatMap_congr fun event mem => (answered event mem).clash_eq

/-- `{ var a = a; return a; }` -/
def unresolvable : List Stmt :=
  [.block [
    .var ⟨.identifier, "a", 1⟩ (some (.name ⟨.identifier, "a", 1⟩ none)),
    .returning ⟨.symbol .returnWord, "return", 1⟩ (some (.name ⟨.identifier, "a", 1⟩ none))]]

/-- The text of that program. -/
def unresolvableText : String := "\x7b var a = a; return a; \x7d"

theorem unresolvable_reads :
    Grammar.program (Scan.tokens unresolvableText) = (unresolvable, []) := by
  with_unfolding_all rfl

/-- Both occurrences of `a` have a depth, and the second pass refuses them where they stand. -/
theorem unresolvable_again :
    ∃ program p, Parser.program (.start 7 (Scan.tokens unresolvableText)) = some (program, p) ∧
      (Table.empty.notes (Stmt.allEvents .global program)).2 =
        [⟨⟨.identifier, "a", 1⟩, .ownInitializer⟩,
          ⟨⟨.symbol .returnWord, "return", 1⟩, .topLevelReturn⟩] ∧
      ((Table.empty.notes (Stmt.allEvents .global program)).1.notes
        (Stmt.allEvents .global program)).2 =
        [⟨⟨.identifier, "a", 1⟩, .ownInitializer⟩, ⟨⟨.identifier, "a", 1⟩, .alreadyResolved⟩,
          ⟨⟨.symbol .returnWord, "return", 1⟩, .topLevelReturn⟩,
          ⟨⟨.identifier, "a", 1⟩, .alreadyResolved⟩] := by
  obtain ⟨program, p, parsed, -⟩ := Parser.program_follows 7 (Scan.tokens unresolvableText)
  obtain ⟨second, -, -, -, -, -, errors, again⟩ :=
    Parser.second_pass parsed fun id _ => (rfl : Table.empty id = none)
  rw [unresolvable_reads] at errors again
  refine ⟨program, p, parsed, ?_, ?_⟩
  · rw [← errors]
    rfl
  · rw [second, ← again]
    rfl

end LoxLang
