import LoxLang.Proofs.Parsing
import LoxLang.Proofs.TabledSessions

/-!
# Numbers are never drawn twice

A parser draws its numbers from a counter that is never set back. So the trees
of a session have different numbers in their slots, within one tree and across
all of them, whatever became of the steps in between: numbers of nodes that were
dropped, of texts that failed and of other sessions in the same process are
simply passed over.

From this it follows what resolution finds. No number is there yet when its
depth is entered, and an entry for a number that is used is never touched again.
-/

namespace LoxLang

open Grammar (declarations)

/-! ## The numbering of the parser -/

/-- Numbers are drawn by a parser at work, when it makes the nodes. -/
def Numbering.drawn : Numbering where
  program n source :=
    match Parser.program (.start n (Scan.tokens source)) with
    | some (program, p) => (program, p.nextId)
    | none => ([], n)
  expression n source :=
    match Parser.soleExpression (.start n (Scan.tokens source)) with
    | some (e, p) => (e, p.nextId)
    | none => (none, n)
  program_le n source := by
    obtain ⟨ss, q, run, -, moves, -⟩ := Parser.program_follows n (Scan.tokens source)
    rw [run]
    exact moves.numbers
  expression_le n source := by
    obtain ⟨o, q, run, -, le, -⟩ := Parser.soleExpression_follows n (Scan.tokens source)
    rw [run]
    exact le
  program_plain n source _ := by
    obtain ⟨ss, q, run, -, -, read⟩ := Parser.program_follows n (Scan.tokens source)
    rw [run]
    exact read.plain_eq
  program_numbers n source _ := by
    obtain ⟨ss, q, run, -, -, read⟩ := Parser.program_follows n (Scan.tokens source)
    rw [run]
    exact read.numbers
  expression_plain n source _ := by
    obtain ⟨o, q, run, -, -, -, -, -, read⟩ :=
      Parser.soleExpression_follows n (Scan.tokens source)
    rw [run]
    exact read.plain_eq
  expression_numbers n source _ := by
    obtain ⟨o, q, run, -, -, -, -, -, read⟩ :=
      Parser.soleExpression_follows n (Scan.tokens source)
    rw [run]
    exact read.numbers

/-! ## No clash on the walk -/

/-- The event is not an occurrence that is resolved a second time. -/
def Event.NoClash : Event → Prop
  | .error e => e.error ≠ .alreadyResolved
  | .occurrence _ _ _ => True

open List (forall_mem_nil forall_mem_append forall_mem_singleton)

namespace Event

theorem noClash_map {es : List (Located StaticError)} (h : ∀ e ∈ es, e.error ≠ .alreadyResolved) :
    ∀ event ∈ es.map Event.error, event.NoClash := by
  simpa [NoClash] using h

end Event

namespace Context

variable (c : Context) (x : Token)

theorem ownInitializerError_noClash :
    ∀ e ∈ c.ownInitializerError x, e.error ≠ .alreadyResolved := by
  unfold ownInitializerError
  split <;> simp

theorem thisErrors_noClash : ∀ e ∈ c.thisErrors none x, e.error ≠ .alreadyResolved := by
  unfold thisErrors
  split <;> simp [resolvedAgain]

theorem superErrors_noClash : ∀ e ∈ c.superErrors none x, e.error ≠ .alreadyResolved := by
  unfold superErrors
  split <;> simp [resolvedAgain]

theorem returnErrors_noClash (hasValue : Bool) :
    ∀ e ∈ c.returnErrors hasValue x, e.error ≠ .alreadyResolved := by
  unfold returnErrors
  repeat' split
  all_goals simp

theorem redeclaration_noClash : ∀ e ∈ c.redeclaration x, e.error ≠ .alreadyResolved := by
  unfold redeclaration
  split <;> simp

theorem parameterErrors_noClash (ps : List Token) :
    ∀ e ∈ c.parameterErrors ps, e.error ≠ .alreadyResolved := by
  induction ps generalizing c with
  | nil => nofun
  | cons p ps ih => exact forall_mem_append.2 ⟨c.redeclaration_noClash p, ih _⟩

end Context

theorem Expr.selfInheritance_noClash (name : Token) (e : Expr) :
    ∀ err ∈ e.selfInheritance name, err.error ≠ .alreadyResolved := by
  unfold Expr.selfInheritance
  repeat' split
  all_goals simp

mutual

theorem Expr.events_noClash (c : Context) : ∀ e : Expr, ∀ event ∈ e.events c, event.NoClash
  | .literal _ => forall_mem_nil _
  | .group inner => inner.events_noClash c
  | .unary _ operand => operand.events_noClash c
  | .binary left _ right | .logical left _ right =>
      forall_mem_append.2 ⟨left.events_noClash c, right.events_noClash c⟩
  | .name x _ => forall_mem_append.2 ⟨Event.noClash_map (c.ownInitializerError_noClash x),
      forall_mem_singleton.2 trivial⟩
  | .assign _ _ value =>
      forall_mem_append.2 ⟨value.events_noClash c, forall_mem_singleton.2 trivial⟩
  | .call callee _ arguments =>
      forall_mem_append.2 ⟨callee.events_noClash c, Expr.allEvents_noClash c arguments⟩
  | .get object _ => object.events_noClash c
  | .set object _ value =>
      forall_mem_append.2 ⟨value.events_noClash c, object.events_noClash c⟩
  | .this keyword _ => forall_mem_append.2 ⟨Event.noClash_map (c.thisErrors_noClash keyword),
      forall_mem_singleton.2 trivial⟩
  | .super keyword _ _ => forall_mem_append.2 ⟨Event.noClash_map (c.superErrors_noClash keyword),
      forall_mem_singleton.2 trivial⟩

theorem Expr.allEvents_noClash (c : Context) : ∀ es : List Expr,
    ∀ event ∈ Expr.allEvents c es, event.NoClash
  | [] => forall_mem_nil _
  | e :: es => forall_mem_append.2 ⟨e.events_noClash c, Expr.allEvents_noClash c es⟩

end

theorem Expr.optEvents_noClash (c : Context) : ∀ o : Option Expr,
    ∀ event ∈ Expr.optEvents c o, event.NoClash
  | none => forall_mem_nil _
  | some e => e.events_noClash c

mutual

theorem Stmt.events_noClash (c : Context) : ∀ s : Stmt, ∀ event ∈ s.events c, event.NoClash
  | .expr value | .print value => value.events_noClash c
  | .var name initial => forall_mem_append.2 ⟨Event.noClash_map (c.redeclaration_noClash name),
      Expr.optEvents_noClash _ initial⟩
  | .block body => Stmt.allEvents_noClash c.enter body
  | .ifThen condition consequent =>
      forall_mem_append.2 ⟨condition.events_noClash c, consequent.events_noClash c⟩
  | .ifElse condition consequent alternative =>
      forall_mem_append.2 ⟨forall_mem_append.2 ⟨condition.events_noClash c,
        consequent.events_noClash c⟩, alternative.events_noClash _⟩
  | .whileDo condition body =>
      forall_mem_append.2 ⟨condition.events_noClash c, body.events_noClash c⟩
  | .function f => forall_mem_append.2 ⟨Event.noClash_map (c.redeclaration_noClash f.name),
      f.events_noClash .function _⟩
  | .returning keyword value =>
      forall_mem_append.2 ⟨Event.noClash_map (c.returnErrors_noClash keyword _),
        Expr.optEvents_noClash c value⟩
  | .classDecl name superclass methods => by
      have inherits : ∀ e ∈ (superclass.map (·.selfInheritance name)).getD [],
          e.error ≠ .alreadyResolved := by
        cases superclass with
        | none => nofun
        | some e => exact e.selfInheritance_noClash name
      exact forall_mem_append.2 ⟨forall_mem_append.2
        ⟨Event.noClash_map (forall_mem_append.2 ⟨c.redeclaration_noClash name, inherits⟩),
          Expr.optEvents_noClash _ superclass⟩, FunctionDecl.methodEvents_noClash _ methods⟩

theorem Stmt.allEvents_noClash (c : Context) : ∀ ss : List Stmt,
    ∀ event ∈ Stmt.allEvents c ss, event.NoClash
  | [] => forall_mem_nil _
  | s :: ss => forall_mem_append.2 ⟨s.events_noClash c, Stmt.allEvents_noClash _ ss⟩

theorem FunctionDecl.events_noClash (kind : Body) (c : Context) : ∀ f : FunctionDecl,
    ∀ event ∈ f.events kind c, event.NoClash
  | ⟨_, parameters, body⟩ =>
      forall_mem_append.2 ⟨Event.noClash_map (Context.parameterErrors_noClash _ parameters),
        Stmt.allEvents_noClash _ body⟩

theorem FunctionDecl.methodEvents_noClash (c : Context) : ∀ fs : List FunctionDecl,
    ∀ event ∈ FunctionDecl.methodEvents c fs, event.NoClash
  | [] => forall_mem_nil _
  | f :: fs => forall_mem_append.2 ⟨f.events_noClash f.methodBody c,
      FunctionDecl.methodEvents_noClash c fs⟩

end

/-! ## Steps -/

/-- The diagnostic says that an occurrence was resolved a second time. -/
def Diagnostic.IsClash (d : Diagnostic) : Prop := ∃ x, d = .static ⟨x, .alreadyResolved⟩

theorem Session.reading_noClash (source : String) (errors : List (Located GrammarError)) :
    ∀ d ∈ lexicalDiagnostics source ++ errors.map .grammar, ¬ d.IsClash := by
  rintro d hd ⟨x, rfl⟩
  simp [lexicalDiagnostics] at hd

/-- Some binding, or the field of some object, has the value. -/
def Machine.HasValue (m : Machine) (v : Value) : Prop :=
  ∃ place x, m.store.read? place x = some v ∨ Store.read? ⟨m.fields⟩ place x = some v

namespace Tabled

variable {N : Numbering} {t u v : Tabled} {s : Session}

/-- A later session: numbers in use stay in use, the table says of them what it did, and no clash
was reported in between. -/
structure Later (t u : Tabled) : Prop where
  numbers : t.next ≤ u.next
  kept : ∀ id, id < t.next → u.table id = t.table id
  reported : ∀ d ∈ u.session.diagnostics, d ∈ t.session.diagnostics ∨ ¬ d.IsClash

namespace Later

theorem refl (t : Tabled) : t.Later t := ⟨Nat.le_refl _, fun _ _ => rfl, fun _ => .inl⟩

theorem trans (h : t.Later u) (h' : u.Later v) : t.Later v where
  numbers := Nat.le_trans h.numbers h'.numbers
  kept id used := (h'.kept id (Nat.lt_of_lt_of_le used h.numbers)).trans (h.kept id used)
  reported d hd := (h'.reported d hd).elim (h.reported d) .inr

theorem read {ds : List Diagnostic} {next : Nat} (le : t.next ≤ next)
    (h : ∀ d ∈ ds, ¬ d.IsClash) : t.Later (t.read ds next) :=
  ⟨le, fun _ _ => rfl, fun d hd => (List.mem_append.1 hd).imp_right (h d)⟩

/-- The numbers of a tree that is resolved were not in use, nor were they in the table. -/
theorem check {next : Nat} {numbered : List Stmt} (le : t.next ≤ next)
    (unused : ∀ id, t.next ≤ id → t.table id = none)
    (numbers : HoldNumbers t.next next (Stmt.allSlots numbered)) :
    t.Later ((t.read [] next).check (Stmt.allEvents .global numbered)) := by
  obtain ⟨ids, slots, distinct, between⟩ := numbers
  obtain ⟨errors, others, -⟩ := Table.notes_of_unused
    ((Stmt.slots_allEvents .global numbered).trans slots) distinct
    fun id mem => unused id (between id mem).1
  refine ⟨le, fun id used => others id fun mem => ?_, fun d hd => ?_⟩
  · exact Nat.not_lt.2 (between id mem).1 used
  · replace hd : d ∈ (t.session.diagnostics ++ []) ++ (t.table.notes _).2.map .static := hd
    rw [errors, List.append_nil] at hd
    refine (List.mem_append.1 hd).imp_right ?_
    rintro found ⟨x, rfl⟩
    obtain ⟨e, he, same⟩ := List.mem_map.1 found
    obtain ⟨event, mem, given⟩ := List.mem_filterMap.1 he
    have noClash := Stmt.allEvents_noClash .global numbered event mem
    cases event with
    | error e' =>
        cases given
        cases same
        exact noClash rfl
    | occurrence => cases given

theorem settle {α : Type} {o : Outcome Machine α} {a : Option α} (h : t.settle o = some (u, a)) :
    t.Later u := by
  cases o with
  | done =>
      cases h
      exact ⟨Nat.le_refl _, fun _ _ => rfl, fun _ => .inl⟩
  | failed fault m =>
      cases h
      refine ⟨Nat.le_refl _, fun _ _ => rfl, fun d hd => (List.mem_append.1 hd).imp_right ?_⟩
      rintro mem ⟨x, rfl⟩
      cases List.mem_singleton.1 mem
  | exhausted => cases h

end Later

/-! ## Requests -/

theorem Shows.later_run (h : t.Shows s) {fuel : Nat} {source : String}
    (ran : t.run N fuel source = some u) : t.Later u := by
  have le := N.program_le t.next source
  have numbers := N.program_numbers t.next source
  have noClash : ∀ d ∈ (Session.readProgram source).2, ¬ d.IsClash :=
    Session.reading_noClash _ _
  have static : ∀ d ∈ (Session.readProgram source).2, d.isRuntime = false :=
    Session.reading_static _ _
  unfold Tabled.run at ran
  generalize N.program t.next source = numbered at le numbers ran
  generalize Session.readProgram source = program at numbers noClash static ran
  obtain ⟨numbered, next⟩ := numbered
  obtain ⟨program, ds⟩ := program
  dsimp only at le numbers noClash static ran
  split at ran
  · cases ran
    exact .read le noClash
  · next opened =>
      obtain rfl : ds = [] :=
        Session.eq_nil_of_open (s := t.session) static (Bool.eq_false_iff.2 opened)
      have checked := Later.check le h.unused (numbers rfl)
      split at ran
      · cases ran
        exact checked
      · obtain ⟨⟨u', a⟩, settled, rfl⟩ := Option.map_eq_some_iff.1 ran
        exact checked.trans (.settle settled)

theorem later_parseExpression (t : Tabled) (source : String) :
    t.Later (t.parseExpression N source).1 :=
  .read (N.expression_le t.next source) (Session.reading_noClash _ _)

theorem Shows.later_evaluate (h : t.Shows s) {fuel : Nat} {source : String} {a : Option Value}
    (found : t.evaluate N fuel source = some (u, a)) : t.Later u := by
  have parsed := later_parseExpression (N := N) t source
  unfold Tabled.evaluate at found
  rcases h.parse_cases N source with ⟨t', s', h₁, -, -⟩ | ⟨e, next, h₁, -, le, numbers⟩
  · rw [h₁] at found parsed
    cases found
    exact parsed
  · rw [h₁] at found
    have numbers : HoldNumbers t.next next (Stmt.allSlots [.expr e]) := by
      rw [Stmt.allSlots, Stmt.allSlots, List.append_nil]
      exact numbers
    have checked := Later.check le h.unused numbers
    dsimp only at found
    split at found
    · cases found
      exact checked
    · exact checked.trans (.settle found)

theorem Shows.later (h : t.Shows s) {r : Request} {a : Answer} (served : t.serve N r = some (u, a)) :
    t.Later u := by
  cases r with
  | run fuel source =>
      obtain ⟨u', ran, same⟩ := Option.map_eq_some_iff.1 served
      cases same
      exact h.later_run ran
  | evaluate fuel source =>
      obtain ⟨⟨u', v⟩, found, same⟩ := Option.map_eq_some_iff.1 served
      cases same
      exact h.later_evaluate found
  | parse source =>
      cases served
      exact later_parseExpression t source
  | reset =>
      cases served
      exact ⟨Nat.le_refl _, fun _ _ => rfl, nofun⟩

/-! ## Runs -/

/-- What a session comes to by serving requests, while numbers may also be drawn elsewhere in the
process. -/
inductive Leads (N : Numbering) (t : Tabled) : Tabled → Prop
  | refl : Leads N t t
  | serve {u v : Tabled} {r : Request} {a : Answer} (before : Leads N t u)
      (served : u.serve N r = some (v, a)) : Leads N t v
  | elsewhere {u : Tabled} {next : Nat} (before : Leads N t u) (le : u.next ≤ next) :
      Leads N t { u with next }

theorem Leads.later (h : t.Leads N u) (shows : t.Shows s) : t.Later u ∧ ∃ s', u.Shows s' := by
  induction h with
  | refl => exact ⟨.refl t, s, shows⟩
  | @serve u v r a _ served ih =>
      obtain ⟨later, s', shows'⟩ := ih
      refine ⟨later.trans (shows'.later served), ?_⟩
      rcases rel_cases (shows'.serve N r) with ⟨h₁, -⟩ | ⟨p, q, h₁, -, shows'', -⟩
      · rw [served] at h₁
        cases h₁
      · rw [served] at h₁
        cases h₁
        exact ⟨q.1, shows''⟩
  | @elsewhere u next _ le ih =>
      obtain ⟨later, s', shows'⟩ := ih
      refine ⟨later.trans ⟨le, fun _ _ => rfl, fun _ => .inl⟩, s', ?_⟩
      exact ⟨shows'.machine.within (Likeness.through_within le fun _ _ => rfl),
        shows'.diagnostics, fun id unused => shows'.unused id (Nat.le_trans le unused)⟩

/-- Whatever value a session has: the table says of its numbers in later sessions what it says now. -/
theorem Shows.mapSlots_later (h : t.Shows s) (later : t.Later u) {v : Value}
    (has : t.session.machine.HasValue v) : v.mapSlots u.table.find = v.mapSlots t.table.find := by
  obtain ⟨place, x, has⟩ := has
  obtain ⟨v', alike⟩ : ∃ v', v.Alike t.likeness v' := by
    rcases has with has | has
    · rcases rel_cases (h.machine.store.read place x) with ⟨h₁, -⟩ | ⟨w, v', h₁, -, alike⟩
      · cases has.symm.trans h₁
      · cases has.symm.trans h₁
        exact ⟨v', alike⟩
    · rcases rel_cases (h.machine.fields.read place x) with ⟨h₁, -⟩ | ⟨w, v', h₁, -, alike⟩
      · cases has.symm.trans h₁
      · cases has.symm.trans h₁
        exact ⟨v', alike⟩
  have then' := alike.within (Likeness.through_within later.numbers later.kept)
  exact (then'.mapSlots_eq Likeness.through_reads).trans
    (alike.mapSlots_eq Likeness.through_reads).symm

/-- However a session goes on, with failing steps or not: no occurrence is ever found resolved
already, a depth that was found for a number stays, and in every value, closures that were made long
ago among them, the numbers lead to the same depths as before. -/
theorem numbers_never_clash {first : Nat} {clock : Nat → Float} {t : Tabled}
    (before : (initial first clock).Leads .drawn t) :
    (∀ d ∈ t.session.diagnostics, ¬ d.IsClash) ∧
    ∀ u, t.Leads .drawn u →
      (∀ id depth, t.table id = some depth → u.table id = some depth) ∧
      ∀ v, t.session.machine.HasValue v →
        v.mapSlots u.table.find = v.mapSlots t.table.find := by
  obtain ⟨later, s, shows⟩ := before.later (.initial first clock)
  refine ⟨fun d hd => ?_, fun u leads => ?_⟩
  · rcases later.reported d hd with none | noClash
    · cases none
    · exact noClash
  · obtain ⟨later, -⟩ := leads.later shows
    refine ⟨fun id depth found => ?_, fun v => shows.mapSlots_later later⟩
    have used : id < t.next := Nat.lt_of_not_le fun unused => by
      rw [shows.unused id unused] at found
      cases found
    exact (later.kept id used).trans found

/-- `var g; { var a = "in"; fun show() { print a; } g = show; }` -/
def keptClosure : List Stmt :=
  [.var ⟨.identifier, "g", 1⟩ none,
    .block [
      .var ⟨.identifier, "a", 1⟩ (some (.literal (.string "in"))),
      .function ⟨⟨.identifier, "show", 1⟩, [], [.print (.name ⟨.identifier, "a", 1⟩ none)]⟩,
      .expr (.assign ⟨.identifier, "g", 1⟩ none (.name ⟨.identifier, "show", 1⟩ none))]]

/-- The text of that program. -/
def keptClosureText : String :=
  "var g; \x7b var a = \"in\"; fun show() \x7b print a; \x7d g = show; \x7d"

theorem keptClosure_reads : Session.readProgram keptClosureText = (keptClosure, []) := by
  with_unfolding_all rfl

theorem call_reads : Session.readProgram "g();" =
    ([.expr (.call (.name ⟨.identifier, "g", 1⟩ none) ⟨.symbol .rightParen, ")", 1⟩ [])], []) := by
  with_unfolding_all rfl

theorem keptClosure_runs :
    ((Session.initial fun _ => 0).run 9 keptClosureText).bind (fun s =>
      (s.run 9 "g();").map (·.machine.printed)) = some #["in"] := by
  simp only [Session.run, keptClosure_reads, call_reads]
  decide +kernel

/-- The second step calls the closure that the first one left, and its numbers lead to the depths
that the first step found. -/
theorem keptClosure_found : ∃ t u a b,
    (initial 0 fun _ => 0).serve .drawn (.run 9 keptClosureText) = some (t, a) ∧
    t.serve .drawn (.run 9 "g();") = some (u, b) ∧ u.session.machine.printed = #["in"] ∧
    (∀ d ∈ t.session.diagnostics, ¬ d.IsClash) ∧
    ∀ v, t.session.machine.HasValue v → v.mapSlots u.table.find = v.mapSlots t.table.find := by
  obtain ⟨s, ran, later⟩ := Option.bind_eq_some_iff.1 keptClosure_runs
  obtain ⟨s', ran', printed⟩ := Option.map_eq_some_iff.1 later
  rcases rel_cases ((Shows.initial 0 fun _ => 0).run .drawn 9 keptClosureText) with
    ⟨-, h⟩ | ⟨t, s₁, served, h, shows⟩
  · cases ran.symm.trans h
  cases ran.symm.trans h
  rcases rel_cases (shows.run .drawn 9 "g();") with ⟨-, h'⟩ | ⟨u, s₂, served', h', shows'⟩
  · cases ran'.symm.trans h'
  cases ran'.symm.trans h'
  have first : (initial 0 fun _ => 0).serve .drawn (.run 9 keptClosureText) = some (t, _) :=
    Option.map_eq_some_iff.2 ⟨t, served, rfl⟩
  have second : t.serve .drawn (.run 9 "g();") = some (u, _) :=
    Option.map_eq_some_iff.2 ⟨u, served', rfl⟩
  obtain ⟨noClash, kept⟩ := numbers_never_clash (.serve .refl first)
  exact ⟨t, u, _, _, first, second, shows'.machine.printed_eq.trans printed, noClash,
    (kept u (.serve .refl second)).2⟩

end Tabled

end LoxLang
