import LoxLang.Proofs.Visits
import LoxLang.Session

/-!
# Depths at run time

Sessions keep the invariant of evaluation from step to step, whatever was run
in them before and however it ended. So at every point that a program visits,
a read with a depth finds what resolution promised: a binding, and for `super`
a class and an object. An assignment with a depth finds its variable too, with
one exception. A variable is not bound before its initializer has been
evaluated, and an assignment to it from there is no static error.
-/

namespace LoxLang

open LoxLang.Action MachineM

/-! ## Reachable sessions -/

namespace Session

/-- What a session can be asked to do. -/
inductive Step : Session → Session → Prop
  | run {s s' : Session} {fuel : Nat} {source : String} (ends : s.run fuel source = some s') :
      Step s s'
  | evaluate {s s' : Session} {fuel : Nat} {source : String} {v : Option Value}
      (ends : s.evaluate fuel source = some (s', v)) : Step s s'
  | parse {s : Session} {source : String} : Step s (s.parseExpression source).1
  | reset {s : Session} : Step s s.reset

/-- The sessions that steps lead to, when the clock reads like this. -/
inductive Reachable (clock : Nat → Float) : Session → Prop
  | initial : Reachable clock (.initial clock)
  | step {s s' : Session} (before : Reachable clock s) (step : Step s s') : Reachable clock s'

end Session

/-- A program, or an expression, that was read and resolved without errors. -/
inductive Accepted : Point → Prop
  | program {source : String} {ss : List Stmt} (reads : Session.readProgram source = (ss, []))
      (clean : Stmt.staticErrors ss = []) : Accepted (.stmts (Stmt.resolve ss))
  | expression {source : String} {e : Expr}
      (reads : Session.readExpression source = (some e, []))
      (clean : Stmt.staticErrors [.expr e] = []) : Accepted (.expr none (e.annotate .global))

namespace Session

theorem readProgram_eq_iff {source : String} {ss : List Stmt} :
    readProgram source = (ss, []) ↔
      Scan.errors source = [] ∧ Grammar.program (Scan.tokens source) = (ss, []) := by
  unfold readProgram lexicalDiagnostics
  rcases Grammar.program (Scan.tokens source) with ⟨program, errors⟩
  simp [Prod.ext_iff, and_left_comm]

theorem readExpression_eq_iff {source : String} {e : Option Expr} :
    readExpression source = (e, []) ↔
      Scan.errors source = [] ∧ Grammar.soleExpression (Scan.tokens source) = (e, []) := by
  unfold readExpression lexicalDiagnostics
  rcases Grammar.soleExpression (Scan.tokens source) with ⟨program, errors⟩
  simp [Prod.ext_iff, and_left_comm]

theorem reading_static (source : String) (errors : List (Located GrammarError)) :
    ∀ d ∈ lexicalDiagnostics source ++ errors.map .grammar, d.isRuntime = false := by
  intro d hd
  rcases List.mem_append.1 hd with hd | hd
  all_goals
    obtain ⟨_, -, rfl⟩ := List.mem_map.1 hd
    rfl

theorem staticDiagnostics_static (ss : List Stmt) :
    ∀ d ∈ staticDiagnostics ss, d.isRuntime = false := by
  intro d hd
  obtain ⟨_, -, rfl⟩ := List.mem_map.1 hd
  rfl

/-- The gates let through only what reports nothing. -/
theorem eq_nil_of_open {s : Session} {ds : List Diagnostic}
    (static : ∀ d ∈ ds, d.isRuntime = false) (h : (s.report ds).hadError = false) : ds = [] := by
  refine List.eq_nil_iff_forall_not_mem.2 fun d hd => ?_
  have runtime := List.any_eq_false.1 h d (List.mem_append_right _ hd)
  rw [static d hd] at runtime
  exact runtime rfl

/-! ## A step is an evaluation, or it runs nothing -/

/-- The session behind the evaluation of a point. -/
inductive Follows (s : Session) (start : Point) : Session → Prop
  | done {fuel : Nat} {m : Machine} (ends : start.run fuel s.machine = .done () m) :
      Follows s start { s with machine := m }
  | failed {fuel : Nat} {fault : Located Fault} {m : Machine}
      (ends : start.run fuel s.machine = .failed fault m) :
      Follows s start ⟨m, s.diagnostics ++ [.runtime fault]⟩

/-- Diagnostics of a static kind are reported, or all are forgotten. -/
structure Idles (s s' : Session) : Prop where
  machine : s'.machine = s.machine
  diagnostics : ∀ fault, .runtime fault ∈ s'.diagnostics → .runtime fault ∈ s.diagnostics

theorem Idles.refl (s : Session) : s.Idles s := ⟨rfl, fun _ => id⟩

theorem Idles.report {s s' : Session} (h : s.Idles s') {ds : List Diagnostic}
    (static : ∀ d ∈ ds, d.isRuntime = false) : s.Idles (s'.report ds) where
  machine := h.machine
  diagnostics fault hd := by
    rcases List.mem_append.1 hd with hd | hd
    · exact h.diagnostics fault hd
    · cases static _ hd

@[simp] theorem report_nil (s : Session) : s.report [] = s := by
  rw [report, List.append_nil]

/-- A program that gets through the gates is run. -/
theorem run_of_open {s : Session} (open' : s.hadError = false) {source : String}
    {program : List Stmt} (reads : readProgram source = (program, []))
    (clean : Stmt.staticErrors program = []) (fuel : Nat) :
    s.run fuel source = s.execute fuel (Stmt.resolve program) := by
  rw [Session.run, reads]
  dsimp only
  rw [report_nil, open', staticDiagnostics, clean, List.map_nil, report_nil, open']
  rfl

/-- The gates are closed by what has been reported and by what is reported now. -/
theorem hadError_report (s : Session) {ds : List Diagnostic}
    (static : ∀ d ∈ ds, d.isRuntime = false) :
    (s.report ds).hadError = (s.hadError || !ds.isEmpty) := by
  rw [hadError, report, List.any_append, hadError]
  cases ds with
  | nil => rfl
  | cons d ds => simp [static d List.mem_cons_self]

theorem hadError_report_of_ne_nil (s : Session) {ds : List Diagnostic}
    (static : ∀ d ∈ ds, d.isRuntime = false) (some : ds ≠ []) : (s.report ds).hadError = true := by
  simp [hadError_report s static, some]

/-- A text with errors is not resolved. -/
theorem run_of_unread {s : Session} {source : String} (errors : (readProgram source).2 ≠ [])
    (fuel : Nat) : s.run fuel source = some (s.report (readProgram source).2) := by
  have static : ∀ d ∈ (readProgram source).2, d.isRuntime = false := reading_static _ _
  unfold Session.run
  rcases hr : readProgram source with ⟨program, ds⟩
  rw [hr] at static errors
  exact if_pos (hadError_report_of_ne_nil s static errors)

/-- A program with errors is not run. -/
theorem run_of_unresolved {s : Session} (open' : s.hadError = false) {source : String}
    {program : List Stmt} (reads : readProgram source = (program, []))
    (errors : Stmt.staticErrors program ≠ []) (fuel : Nat) :
    s.run fuel source = some (s.report (staticDiagnostics program)) := by
  have some : staticDiagnostics program ≠ [] := mt List.map_eq_nil_iff.1 errors
  rw [Session.run, reads]
  dsimp only
  rw [report_nil, open', if_neg Bool.false_ne_true]
  exact if_pos (hadError_report_of_ne_nil s (staticDiagnostics_static program) some)

theorem follows_of_settle {α : Type} {act : MachineM α} {start : Point} {fuel : Nat}
    (hrun : start.run fuel = act >>= fun _ => pure ()) {s s' : Session} {v : Option α}
    (h : s.settle (act s.machine) = some (s', v)) : s.Follows start s' := by
  have hrun : start.run fuel s.machine = (act >>= fun _ => pure ()) s.machine := by rw [hrun]
  rw [bind_apply] at hrun
  revert h hrun
  cases act s.machine with
  | done a m =>
      rintro ⟨⟩ hrun
      exact .done hrun
  | failed fault m =>
      rintro ⟨⟩ hrun
      exact .failed hrun
  | exhausted => nofun

theorem Step.cases {s s' : Session} (h : Step s s') :
    s.Idles s' ∨ ∃ start, Accepted start ∧ s.Follows start s' := by
  cases h with
  | parse => exact .inl (.report (.refl s) (reading_static _ _))
  | reset => exact .inl ⟨rfl, nofun⟩
  | @run _ fuel source ends =>
      have static : ∀ d ∈ (readProgram source).2, d.isRuntime = false := reading_static _ _
      unfold Session.run at ends
      rcases hr : readProgram source with ⟨ss, ds⟩
      rw [hr] at ends static
      dsimp only at ends static
      split at ends
      · cases ends
        exact .inl (.report (.refl s) static)
      · next reads =>
          cases eq_nil_of_open static (Bool.eq_false_iff.2 reads)
          rw [report_nil] at ends
          split at ends
          · cases ends
            exact .inl (.report (.refl s) (staticDiagnostics_static ss))
          · next resolves =>
              have clean := eq_nil_of_open (staticDiagnostics_static ss)
                (Bool.eq_false_iff.2 resolves)
              rw [clean, report_nil] at ends
              refine .inr ⟨_, .program hr (List.map_eq_nil_iff.1 clean), ?_⟩
              obtain ⟨⟨_, v⟩, settled, rfl⟩ := Option.map_eq_some_iff.1 ends
              exact follows_of_settle rfl settled
  | @evaluate _ fuel source v ends =>
      have static : ∀ d ∈ (readExpression source).2, d.isRuntime = false := reading_static _ _
      unfold Session.evaluate parseExpression at ends
      rcases hr : readExpression source with ⟨e, ds⟩
      rw [hr] at ends static
      dsimp only at ends static
      by_cases reads : (s.report ds).hadError = true
      · rw [if_pos reads] at ends
        cases ends
        exact .inl (.report (.refl s) static)
      · cases eq_nil_of_open static (Bool.eq_false_iff.2 reads)
        rw [if_neg reads, report_nil] at ends
        cases e with
        | none =>
            cases ends
            exact .inl (.refl s)
        | some e =>
            dsimp only at ends
            split at ends
            · cases ends
              exact .inl (.report (.refl s) (staticDiagnostics_static _))
            · next resolves =>
                have clean := eq_nil_of_open (staticDiagnostics_static _)
                  (Bool.eq_false_iff.2 resolves)
                rw [clean, report_nil] at ends
                refine .inr ⟨_, .expression hr (List.map_eq_nil_iff.1 clean), ?_⟩
                exact follows_of_settle rfl ends

/-! ## The invariant -/

/-- Programs start at top level in a sound machine, and no fault was about `this`. -/
structure Sound (s : Session) : Prop where
  machine : s.machine.Sound
  scope : s.machine.scope = Machine.globalScope
  faults : ∀ fault, .runtime fault ∈ s.diagnostics →
    fault.error.message fault.token ≠ "Undefined variable 'this'."

/-- A machine that has run nothing holds one value. -/
theorem initial_sound (clock : Nat → Float) : (Machine.initial clock).Sound where
  globalFrame := Nat.zero_lt_one
  bindings frame x v hr := by
    rw [Machine.initial, Store.read?_write, Store.read?_enter] at hr
    split at hr
    · next heq =>
        cases hr
        rw [heq.2.1]
        exact ⟨trivial, nofun, nofun⟩
    · cases hr
  fields id x v hr := by
    cases hr

theorem Sound.initial (clock : Nat → Float) : (Session.initial clock).Sound where
  machine := initial_sound clock
  scope := rfl
  faults := nofun

theorem Sound.stands {s : Session} (h : s.Sound) :
    Stands s.machine.store Context.global.scopes s.machine.scope := by
  rw [h.scope]
  exact ⟨.global, trivial⟩

end Session

/-- What is accepted is a sound point at top level. -/
theorem Accepted.sound {start : Point} (h : Accepted start) {s : Session} (hs : s.Sound) :
    start.Sound s.machine := by
  cases h with
  | program reads clean =>
      obtain ⟨-, reads⟩ := Session.readProgram_eq_iff.1 reads
      have resolution : ∃ c', Stmt.ResolvedAll false .global _ (Stmt.resolve _) c' :=
        Stmt.resolvedAll .global (Grammar.program_formed reads) clean nofun
      obtain ⟨c', resolved⟩ := resolution
      exact ⟨_, _, _, resolved, .global, hs.stands⟩
  | expression reads clean =>
      obtain ⟨-, reads⟩ := Session.readExpression_eq_iff.1 reads
      have clean := (List.append_eq_nil_iff.1 clean).1
      exact ⟨_, _, Expr.resolved Context.Sound.global.calm (Grammar.soleExpression_formed reads)
        clean nofun, .global, hs.stands⟩

theorem append_ne {start text : String} (rest : String) (h : ¬ start.toList <+: text.toList) :
    start ++ rest ≠ text := by
  rintro rfl
  rw [String.toList_append] at h
  exact h (List.prefix_append ..)

/-- An explained fault does not claim that `this` is undefined. -/
theorem Located.Explained.message_ne {fault : Located Fault} {m : Machine}
    (h : fault.Explained m) :
    fault.error.message fault.token ≠ "Undefined variable 'this'." := by
  obtain ⟨token, error⟩ := fault
  have named : token.IsName →
      "Undefined variable '" ++ token.lexeme ++ "'." ≠ "Undefined variable 'this'." := by
    intro isName heq
    rw [show "Undefined variable 'this'." = "Undefined variable '" ++ "this" ++ "'." from rfl,
      String.append_left_inj, String.append_right_inj] at heq
    exact isName.not_this heq
  unfold Fault.message
  cases error <;> dsimp only
  case unboundLocal | unboundSuper | unboundReceiver | unboundClass => cases h
  case unboundGlobal => exact named h.1
  case unboundGlobalTarget | unboundLocalTarget => exact named h
  case arity | operandsNotNumbers | undefinedProperty =>
    simp only [String.append_assoc]
    exact append_ne _ (by decide +kernel)
  all_goals decide +kernel

namespace Session

theorem Sound.follows {s s' : Session} (h : s.Sound) {start : Point} (accepted : Accepted start)
    (follows : s.Follows start s') : s'.Sound := by
  have kept := fun fuel => (accepted.sound h).run h.machine fuel
  cases follows with
  | done ends =>
      obtain ⟨he, hm, -⟩ := (kept _).done ends
      exact ⟨hm, he.scope.trans h.scope, h.faults⟩
  | failed ends =>
      obtain ⟨he, hm, explained⟩ := (kept _).failed ends
      refine ⟨hm, he.scope.trans h.scope, fun fault hf => ?_⟩
      rcases List.mem_append.1 hf with hf | hf
      · exact h.faults fault hf
      · cases List.mem_singleton.1 hf
        exact explained.message_ne

theorem Sound.step {s s' : Session} (h : s.Sound) (step : Step s s') : s'.Sound := by
  rcases step.cases with idle | ⟨start, accepted, follows⟩
  · refine ⟨?_, ?_, fun fault hf => h.faults fault (idle.diagnostics fault hf)⟩
    · rw [idle.machine]
      exact h.machine
    · rw [idle.machine]
      exact h.scope
  · exact h.follows accepted follows

theorem Reachable.sound {clock : Nat → Float} {s : Session} (h : s.Reachable clock) : s.Sound := by
  induction h with
  | initial => exact .initial clock
  | step _ step ih => exact ih.step step

end Session

/-! ## Reads -/

/-- The faults of a read that finds nothing. -/
def Fault.isMissedRead : Fault → Bool
  | .unboundGlobal | .unboundLocal | .unboundSuper | .unboundReceiver => true
  | _ => false

/-- If the expression is a read with a depth, the machine has what it reads: a binding, or for
`super` a class and one scope further in an object. -/
def Expr.Finds (m : Machine) : Expr → Prop
  | .name x (some depth) | .this x (some depth) =>
    ∃ v, m.store.getAt? m.scope depth x.lexeme = some v
  | .super _ (some depth) _ => ∃ k id own,
    m.store.getAt? m.scope depth "super" = some (.ofClass k) ∧ 0 < depth ∧
      m.store.getAt? m.scope (depth - 1) "this" = some (.object id own)
  | _ => True

theorem Point.Sound.finds {m : Machine} {own : Option String} {e : Expr}
    (h : (Point.expr own e).Sound m) (hm : m.Sound) : e.Finds m := by
  obtain ⟨c, d, resolved, -, placed, -⟩ := h
  cases resolved with
  | @name x depth isName refers =>
      cases depth with
      | none => trivial
      | some depth => exact placed.getAt? refers
  | this spelled sees =>
      rw [← spelled] at sees
      exact placed.getAt? sees
  | super spelled receiver parent =>
      obtain ⟨v, hv⟩ := placed.getAt? parent
      obtain ⟨o, ho⟩ := placed.getAt? receiver
      obtain ⟨k, rfl⟩ := (HeapSound.getAt? hm hv).2.2 rfl
      obtain ⟨id, own, rfl⟩ := (HeapSound.getAt? hm ho).2.1 rfl
      exact ⟨k, id, own, hv, Nat.succ_pos _, ho⟩
  | _ => trivial

/-- Reads with a depth never miss. A read that fails has none, and its name is not global when it
fails; none fails about `this`. -/
theorem Session.Reachable.reads_find {clock : Nat → Float} {s : Session}
    (h : s.Reachable clock) :
    (∀ start, Accepted start → ∀ fuel,
      (∀ n own e m, Visits fuel start s.machine n (.expr own e) m → e.Finds m) ∧
      ∀ fault m, start.run fuel s.machine = .failed fault m →
        fault.error.message fault.token ≠ "Undefined variable 'this'." ∧
        (fault.error.isMissedRead = true → fault.error = .unboundGlobal ∧
          m.store.get? Machine.globalScope fault.token.lexeme = none)) ∧
    ∀ fault, .runtime fault ∈ s.diagnostics →
      fault.error.message fault.token ≠ "Undefined variable 'this'." := by
  have sound := h.sound
  refine ⟨fun start accepted fuel => ⟨?_, ?_⟩, sound.faults⟩
  · intro n own e m visits
    obtain ⟨hp, hm⟩ := visits.sound (accepted.sound sound) sound.machine
    exact hp.finds hm
  · intro fault m failed
    obtain ⟨-, -, explained⟩ := ((accepted.sound sound).run sound.machine fuel).failed failed
    refine ⟨explained.message_ne, fun missed => ?_⟩
    obtain ⟨token, error⟩ := fault
    cases error
    case unboundGlobal =>
      exact ⟨rfl, explained.2⟩
    case unboundLocal | unboundSuper | unboundReceiver => cases explained
    all_goals cases missed

/-- `{ var x = nil; print x; }` -/
def printedVariable : List Stmt :=
  [.block [.var ⟨.identifier, "x", 1⟩ (some (.literal .nil)),
    .print (.name ⟨.identifier, "x", 1⟩ none)]]

/-- The variable that is printed has a depth, and is found. -/
theorem printedVariable_found : ∃ m,
    Visits 5 (.stmts (Stmt.resolve printedVariable)) (Session.initial fun _ => 0).machine 3
      (.expr none (.name ⟨.identifier, "x", 1⟩ (some 0))) m ∧
    (Expr.name ⟨.identifier, "x", 1⟩ (some 0)).Finds m := by
  have accepted : Accepted (.stmts (Stmt.resolve printedVariable)) :=
    @Accepted.program "{ var x = nil; print x; }" _ (by with_unfolding_all rfl) rfl
  have visits : Visits 5 (.stmts (Stmt.resolve printedVariable))
      (Session.initial fun _ => 0).machine 3
      (.expr none (.name ⟨.identifier, "x", 1⟩ (some 0))) _ :=
    .step (.step (.step (.step (.step .start .statement) (.block rfl)) (.moreStatements rfl))
      .statement) (.value (s := .print _) rfl)
  exact ⟨_, visits, ((Session.Reachable.reads_find .initial).1 _ accepted 5).1 _ _ _ _ visits⟩

/-! ## Assignments -/

/-- An assignment with a depth finds its variable, unless it is made while the initializer of that
very variable is evaluated. -/
theorem Session.Reachable.assignment_finds {clock : Nat → Float} {s : Session}
    (h : s.Reachable clock) {start : Point} (accepted : Accepted start) {fuel n depth : Nat}
    {own : Option String} {x : Token} {e : Expr} {m m' : Machine} {v : Value}
    (visits : Visits fuel start s.machine (n + 1) (.expr own (.assign x (some depth) e)) m)
    (value : eval n e m = .done v m') :
    (own ≠ some x.lexeme → ∃ store, m'.store.assignAt? m'.scope depth x.lexeme v = some store ∧
      eval (n + 1) (.assign x (some depth) e) m = .done v { m' with store := store }) ∧
    (own = some x.lexeme → m'.store.assignAt? m'.scope depth x.lexeme v = none ∧
      eval (n + 1) (.assign x (some depth) e) m = .failed ⟨x, .unboundLocalTarget⟩ m') := by
  obtain ⟨⟨c, d, resolved, pends, stands⟩, hm⟩ :=
    visits.sound (accepted.sound h.sound) h.sound.machine
  have kept : ∀ {a b}, Expr.Resolved false c a b → eval n b m = .done v m' →
      Stands m'.store c.scopes m'.scope := fun resolved hv =>
    Evolves.stands (((keeps n).1 c _ _ m resolved stands.placed hm).done hv).1 stands
  have unfolded : eval (n + 1) (.assign x (some depth) e) m =
      (MachineM.assign x (some depth) v >>= fun _ => pure v) m' := by
    show (eval n e >>= _) m = _
    rw [bind_of_done value]
  rw [unfolded, bind_apply, MachineM.assign, Store.assignAt?]
  cases resolved with
  | assign isName refers resolved =>
      have refers : Sees c.scopes x.lexeme depth .ready := refers
      obtain ⟨frame, found⟩ := (kept resolved value).placed.frameAt? refers
      rw [found]
      refine ⟨fun _ => ⟨_, rfl, rfl⟩, fun heq => ?_⟩
      have tracked : c.scopes ≠ [] := by
        intro hc
        rw [hc] at refers
        cases refers
      have pending := (pends x.lexeme).2 ⟨heq, tracked⟩
      cases (refers.unique pending).2
  | assignOwn _ isName pending resolved =>
      refine ⟨fun hne => absurd ((pends x.lexeme).1 pending).1 hne, fun _ => ?_⟩
      rw [(kept resolved value).frameAt?_of_pending pending]
      exact ⟨rfl, rfl⟩

/-- `{ var x = x = nil; }` -/
def ownInitializer : List Stmt :=
  [.block [.var ⟨.identifier, "x", 1⟩
    (some (.assign ⟨.identifier, "x", 1⟩ none (.literal .nil)))]]

/-- The program is accepted, and its assignment fails. -/
theorem ownInitializer_fails : ∃ m,
    Visits 4 (.stmts (Stmt.resolve ownInitializer)) (Session.initial fun _ => 0).machine 2
      (.expr (some "x") (.assign ⟨.identifier, "x", 1⟩ (some 0) (.literal .nil))) m ∧
    eval 2 (.assign ⟨.identifier, "x", 1⟩ (some 0) (.literal .nil)) m =
      .failed ⟨⟨.identifier, "x", 1⟩, .unboundLocalTarget⟩ m := by
  have accepted : Accepted (.stmts (Stmt.resolve ownInitializer)) :=
    @Accepted.program "{ var x = x = nil; }" _ (by with_unfolding_all rfl) rfl
  have visits : Visits 4 (.stmts (Stmt.resolve ownInitializer))
      (Session.initial fun _ => 0).machine 2
      (.expr (some "x") (.assign ⟨.identifier, "x", 1⟩ (some 0) (.literal .nil))) _ :=
    .step (.step (.step (.step .start .statement) (.block rfl)) .statement) .initializer
  exact ⟨_, visits, ((Session.Reachable.assignment_finds .initial accepted visits rfl).2 rfl).2⟩

end LoxLang
