import LoxLang.Proofs.Lockstep
import LoxLang.Proofs.Recording
import LoxLang.Proofs.Sessions
import LoxLang.Proofs.SlotsAlike

/-!
# Sessions with a table show what sessions without one do

A number that has been used stands for what the table has for it, and that never
changes: a depth is entered only while the tree that its number is from is
resolved, and numbers of later trees are new. So a session with a table goes
along with one without, request by request. Their machines hold values that
differ in the slots of functions only, a slot of the one leading to the depth in
the other, and what the two give to see is the same.

Steps that are rejected need no care of their own. They use up numbers and may
leave depths in the table, but of numbers that nothing holds.
-/

namespace LoxLang

open LoxLang.Action MachineM

/-! ## What numbers stand for -/

namespace Likeness

/-- A number that is used stands for what the table has for it. -/
def through (table : Table) (next : Nat) : Likeness where
  token := Eq
  depth slot depth := ∃ id, slot = some id ∧ id < next ∧ depth = table id
  kind_eq h := congrArg Token.kind h
  lexeme_eq h := congrArg Token.lexeme h

variable {table table' : Table} {next next' : Nat}

theorem through_reads : (through table next).Reads table.find where
  token := id
  depth h := by
    obtain ⟨id, rfl, -, rfl⟩ := h
    rfl

/-- More numbers are used, and those that were stand for what they did. -/
theorem through_within (le : next ≤ next') (same : ∀ id, id < next → table' id = table id) :
    (through table next).Within (through table' next') where
  token := id
  depth h := by
    obtain ⟨id, rfl, used, rfl⟩ := h
    exact ⟨id, rfl, Nat.lt_of_lt_of_le used le, (same id used).symm⟩

theorem through_find {ids : List Nat} (used : ∀ id ∈ ids, id < next) :
    ∀ slot ∈ ids.map some, (through table next).depth slot (table.find slot) := by
  intro slot h
  obtain ⟨id, mem, rfl⟩ := List.mem_map.1 h
  exact ⟨id, rfl, used id mem, rfl⟩

end Likeness

namespace Tabled

/-- What the numbers of a session stand for. -/
def likeness (t : Tabled) : Likeness := .through t.table t.next

/-- The session with a table goes along with the other. -/
structure Shows (t : Tabled) (s : Session) : Prop where
  machine : t.session.machine.Alike t.likeness s.machine
  diagnostics : t.session.diagnostics = s.diagnostics
  unused : ∀ id, t.next ≤ id → t.table id = none

variable {t : Tabled} {s : Session}

/-- A machine that has run nothing holds no functions. -/
theorem Shows.initial (first : Nat) (clock : Nat → Float) :
    (initial first clock).Shows (.initial clock) where
  machine := by
    refine ⟨⟨rfl, fun frame x => ?_⟩, ⟨rfl, fun _ _ => .none⟩, rfl⟩
    unfold Tabled.initial Session.initial Machine.initial
    rw [Store.read?_write]
    split
    · exact .some .clock
    · rw [Store.read?_enter]
      exact .none
  diagnostics := rfl
  unused _ _ := rfl

namespace Shows

theorem hadError_eq (h : t.Shows s) : t.session.hadError = s.hadError := by
  rw [Session.hadError, Session.hadError, h.diagnostics]

theorem hadRuntimeError_eq (h : t.Shows s) :
    t.session.hadRuntimeError = s.hadRuntimeError := by
  rw [Session.hadRuntimeError, Session.hadRuntimeError, h.diagnostics]

theorem reset (h : t.Shows s) : t.reset.Shows s.reset := ⟨h.machine, rfl, h.unused⟩

/-- Reading a text uses numbers and reports. -/
theorem read (h : t.Shows s) (ds : List Diagnostic) {next : Nat} (le : t.next ≤ next) :
    (t.read ds next).Shows (s.report ds) where
  machine := h.machine.within (Likeness.through_within le fun _ _ => rfl)
  diagnostics := congrArg (· ++ ds) h.diagnostics
  unused id unused := h.unused id (Nat.le_trans le unused)

/-- Resolving a program with new numbers reports what resolving it without numbers does, and the
table makes the resolved program of it. -/
theorem check (h : t.Shows s) {next : Nat} (le : t.next ≤ next) {numbered program : List Stmt}
    (plain : Stmt.allPlain numbered = program)
    (numbers : HoldNumbers t.next next (Stmt.allSlots numbered)) {t' : Tabled}
    (checked : (t.read [] next).check (Stmt.allEvents .global numbered) = t') :
    t'.Shows (s.report (Session.staticDiagnostics program)) ∧
      Stmt.AllAlike t'.likeness numbered (Stmt.resolve program) := by
  subst checked plain
  obtain ⟨ids, slots, distinct, between⟩ := numbers
  obtain ⟨errors, others, answered⟩ := Table.notes_of_unused
    ((Stmt.slots_allEvents .global numbered).trans slots) distinct
    fun id mem => h.unused id (between id mem).1
  refine ⟨⟨?_, ?_, ?_⟩, ?_⟩
  · refine h.machine.within (Likeness.through_within le fun id used => others id fun mem => ?_)
    exact Nat.not_lt.2 (between id mem).1 used
  · show (t.session.diagnostics ++ []) ++ (t.table.notes _).2.map .static = _
    rw [errors, Stmt.errors_allEvents, List.append_nil, h.diagnostics]
    rfl
  · intro id unused
    have outside : id ∉ ids := fun mem => Nat.not_lt.2 unused (between id mem).2
    exact (others id outside).trans (h.unused id (Nat.le_trans le unused))
  · rw [Stmt.resolve, ← Stmt.mapAllSlots_of_answered answered]
    refine Stmt.allAlike_mapSlots (fun _ => rfl) ?_
    rw [slots]
    exact Likeness.through_find fun id mem => (between id mem).2

/-- Actions that end alike. -/
theorem settle (h : t.Shows s) {α β : Type} {post : α → β → Prop} {o : Outcome Machine α}
    {o' : Outcome Machine β} (ends : Outcome.Alike t.likeness post o o') :
    Option.Rel (fun p q => p.1.Shows q.1 ∧ p.1.table = t.table ∧ Option.Rel post p.2 q.2)
      (t.settle o) (s.settle o') := by
  cases ends with
  | done value machine => exact .some ⟨⟨machine, h.diagnostics, h.unused⟩, rfl, .some value⟩
  | @failed e e' _ _ fault machine =>
      obtain ⟨token, error⟩ := e
      obtain ⟨token', error'⟩ := e'
      obtain ⟨rfl, rfl⟩ := fault
      exact .some ⟨⟨machine, congrArg (· ++ _) h.diagnostics, h.unused⟩, rfl, .none⟩
  | exhausted => exact .none

/-! ## Requests -/

variable (N : Numbering)

/-- Evaluation through the table goes along with evaluation of what the table makes of a tree. -/
theorem lockstep (t : Tabled) (fuel : Nat) :
    (∀ e e', e.Alike t.likeness e' →
      Lockstep t.likeness (evalVia t.table.find fuel e) (eval fuel e') (Value.Alike t.likeness)) ∧
    ∀ s s', s.Alike t.likeness s' →
      Lockstep t.likeness (execVia t.table.find fuel s) (exec fuel s') (Flow.Alike t.likeness) := by
  rw [← evalVia_id, ← execVia_id]
  exact LoxLang.lockstep (fun _ _ => Likeness.through_reads.depth) fuel

theorem run (h : t.Shows s) (fuel : Nat) (source : String) :
    Option.Rel Shows (t.run N fuel source) (s.run fuel source) := by
  have le := N.program_le t.next source
  have plain := N.program_plain t.next source
  have numbers := N.program_numbers t.next source
  have static : ∀ d ∈ (Session.readProgram source).2, d.isRuntime = false :=
    Session.reading_static _ _
  unfold Tabled.run Session.run
  generalize N.program t.next source = numbered at le plain numbers
  generalize Session.readProgram source = program at plain numbers static
  obtain ⟨numbered, next⟩ := numbered
  obtain ⟨program, ds⟩ := program
  dsimp only at le plain numbers static ⊢
  have reading := h.read ds le
  rw [reading.hadError_eq]
  split
  · exact .some reading
  · next opened =>
      cases Session.eq_nil_of_open static (Bool.eq_false_iff.2 opened)
      generalize checked : (t.read [] next).check (Stmt.allEvents .global numbered) = t'
      obtain ⟨shows, alike⟩ := h.check le (plain rfl) (numbers rfl) checked
      rw [Session.report_nil, shows.hadError_eq]
      split
      · exact .some shows
      · have steps := Lockstep.execAll (lockstep t' fuel).2 _ _ alike _ _ shows.machine
        exact rel_map (fun _ _ settled => settled.1) (shows.settle steps)

/-- Either nothing is given, or a tree with new numbers is. -/
theorem parse_cases (h : t.Shows s) (source : String) :
    (∃ t' s', t.parseExpression N source = (t', none) ∧ s.parseExpression source = (s', none) ∧
      t'.Shows s') ∨
    ∃ e next, t.parseExpression N source = (t.read [] next, some e) ∧
      s.parseExpression source = (s, some e.plain) ∧ t.next ≤ next ∧
      HoldNumbers t.next next e.slots := by
  have le := N.expression_le t.next source
  have plain := N.expression_plain t.next source
  have numbers := N.expression_numbers t.next source
  have static : ∀ d ∈ (Session.readExpression source).2, d.isRuntime = false :=
    Session.reading_static _ _
  unfold Tabled.parseExpression Session.parseExpression
  generalize N.expression t.next source = numbered at le plain numbers
  generalize Session.readExpression source = expression at plain numbers static
  obtain ⟨numbered, next⟩ := numbered
  obtain ⟨expression, ds⟩ := expression
  dsimp only at le plain numbers static ⊢
  have reading := h.read ds le
  rw [reading.hadError_eq]
  by_cases closed : (s.report ds).hadError = true
  · rw [if_pos closed, if_pos closed]
    exact .inl ⟨_, _, rfl, rfl, reading⟩
  · rw [if_neg closed, if_neg closed]
    cases Session.eq_nil_of_open static (Bool.eq_false_iff.2 closed)
    cases plain rfl
    rw [Session.report_nil] at reading ⊢
    cases numbered with
    | none => exact .inl ⟨_, _, rfl, rfl, reading⟩
    | some e => exact .inr ⟨e, next, rfl, rfl, le, numbers rfl⟩

/-- The table has nothing for the numbers of a tree that was only parsed. -/
theorem parseExpression (h : t.Shows s) (source : String) :
    (t.parseExpression N source).1.Shows (s.parseExpression source).1 ∧
      (t.parseExpression N source).2.map
          (·.mapSlots (t.parseExpression N source).1.table.find) =
        (s.parseExpression source).2 := by
  rcases h.parse_cases N source with
    ⟨t', s', h₁, h₂, shows⟩ | ⟨e, next, h₁, h₂, le, ids, slots, -, between⟩
  · rw [h₁, h₂]
    exact ⟨shows, rfl⟩
  · rw [h₁, h₂]
    have reading := h.read [] le
    rw [Session.report_nil] at reading
    refine ⟨reading, congrArg some (Expr.mapSlots_congr fun slot mem => ?_)⟩
    rw [slots] at mem
    obtain ⟨id, given, rfl⟩ := List.mem_map.1 mem
    exact h.unused id (between id given).1

theorem evaluate (h : t.Shows s) (fuel : Nat) (source : String) :
    Option.Rel (fun p q => p.1.Shows q.1 ∧ p.2.map (·.mapSlots p.1.table.find) = q.2)
      (t.evaluate N fuel source) (s.evaluate fuel source) := by
  unfold Tabled.evaluate Session.evaluate
  rcases h.parse_cases N source with
    ⟨t', s', h₁, h₂, shows⟩ | ⟨e, next, h₁, h₂, le, numbers⟩
  · rw [h₁, h₂]
    exact .some ⟨shows, rfl⟩
  · rw [h₁, h₂]
    dsimp only
    have plain : Stmt.allPlain [.expr e] = [.expr e.plain] := rfl
    have numbers : HoldNumbers t.next next (Stmt.allSlots [.expr e]) := by
      rw [Stmt.allSlots, Stmt.allSlots, List.append_nil]
      exact numbers
    generalize checked : (t.read [] next).check (Stmt.allEvents .global [.expr e]) = t'
    obtain ⟨shows, alike⟩ := h.check le plain numbers checked
    rw [shows.hadError_eq]
    split
    · exact .some ⟨shows, rfl⟩
    · cases alike with
      | cons head _ =>
          cases head with
          | expr value =>
              refine rel_imp (fun p q settled => ⟨settled.1, ?_⟩)
                (shows.settle ((lockstep t' fuel).1 _ _ value _ _ shows.machine))
              rw [settled.2.1]
              exact Value.rel_mapSlots_eq Likeness.through_reads settled.2.2

theorem answer_eq (h : t.Shows s) {v w : Option Value} {e e' : Option Expr}
    (value : v.map (·.mapSlots t.table.find) = w) (tree : e.map (·.mapSlots t.table.find) = e') :
    t.answer v e = s.answer w e' := by
  rw [Tabled.answer, Session.answer, Session.answer, value, tree, h.machine.printed_eq,
    h.diagnostics, h.hadError_eq, h.hadRuntimeError_eq]

/-- A request served: the sessions go along still, and the answer is the same. -/
theorem serve (h : t.Shows s) (r : Request) :
    Option.Rel (fun p q => p.1.Shows q.1 ∧ p.2 = q.2) (t.serve N r) (s.serve r) := by
  cases r with
  | run fuel source =>
      exact rel_map (fun _ _ ran => ⟨ran, ran.answer_eq rfl rfl⟩) (h.run N fuel source)
  | evaluate fuel source =>
      exact rel_map (fun _ _ found => ⟨found.1, found.1.answer_eq found.2 rfl⟩)
        (h.evaluate N fuel source)
  | parse source =>
      obtain ⟨shows, tree⟩ := h.parseExpression N source
      exact .some ⟨shows, shows.answer_eq rfl tree⟩
  | reset => exact .some ⟨h.reset, h.reset.answer_eq rfl rfl⟩

/-- All requests get the same answers. -/
theorem serveAll (h : t.Shows s) (rs : List Request) : t.serveAll N rs = s.serveAll rs := by
  induction rs generalizing t s with
  | nil => rfl
  | cons r rs ih =>
      unfold Tabled.serveAll Session.serveAll
      rcases rel_cases (h.serve N r) with ⟨h₁, h₂⟩ | ⟨⟨t', a⟩, ⟨s', a'⟩, h₁, h₂, shows, same⟩
      · rw [h₁, h₂]
      · rw [h₁, h₂]
        exact congrArg₂ List.cons same (ih shows)

end Shows

/-- What requests lead to goes along with some session without a table. -/
theorem Reachable.shows {N : Numbering} {first : Nat} {clock : Nat → Float} {t : Tabled}
    (h : t.Reachable N first clock) : ∃ s, t.Shows s := by
  induction h with
  | initial => exact ⟨_, .initial first clock⟩
  | @serve _ _ r _ _ served ih =>
      obtain ⟨s, shows⟩ := ih
      rcases rel_cases (shows.serve N r) with ⟨h₁, h₂⟩ | ⟨p, q, h₁, -, shows', -⟩
      · rw [served] at h₁
        cases h₁
      · rw [served] at h₁
        cases h₁
        exact ⟨q.1, shows'⟩

end Tabled

end LoxLang
