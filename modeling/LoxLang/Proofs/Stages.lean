import LoxLang.Command
import LoxLang.Proofs.EvaluationOrder
import LoxLang.Proofs.TopLevel
import LoxLang.Session.Tabled

/-!
# The stages of a step

A program that is run from its source text goes through reading, resolution and
evaluation, and what one stage reports keeps it from the next. So all that a
step reports comes from one stage. Of evaluation that is one fault at most,
since a fault breaks it off.

The command that runs a file shows in its exit status how far the program got.
-/

namespace LoxLang

open CommandResult

namespace Session

/-- The evaluation of a program that gets through the gates. -/
def evaluation (fuel : Nat) (s : Session) (program : List Stmt) : Moment :=
  ⟨fuel, .stmts (Stmt.resolve program), s.machine⟩

/-- Does reading the text or resolving the program report anything? -/
def Rejects (source : String) : Prop :=
  (readProgram source).2 ≠ [] ∨ Stmt.staticErrors (readProgram source).1 ≠ []

variable {s t : Session} {source : String} {program : List Stmt} {fuel : Nat}

theorem not_rejects_iff : ¬ Rejects source ↔
    ∃ program, readProgram source = (program, []) ∧ Stmt.staticErrors program = [] := by
  unfold Rejects
  rcases readProgram source with ⟨program, ds⟩
  rw [not_or, Classical.not_not, Classical.not_not]
  constructor
  · rintro ⟨rfl, clean⟩
    exact ⟨program, rfl, clean⟩
  · rintro ⟨_, ⟨⟩, clean⟩
    exact ⟨rfl, clean⟩

/-- A program that gets through the gates ends well, or a fault breaks it off. -/
theorem run_of_accepted (open' : s.hadError = false) (reads : readProgram source = (program, []))
    (clean : Stmt.staticErrors program = []) (ends : s.run fuel source = some t) :
    (∃ m, (s.evaluation fuel program).outcome = .done .next m ∧ t = { s with machine := m }) ∨
    ∃ a fault m, (s.evaluation fuel program).BrokenBy a fault m ∧
      t = ⟨m.backTo s.machine, s.diagnostics ++ [.runtime fault]⟩ := by
  rw [run_of_open open' reads clean] at ends
  unfold Session.execute at ends
  cases h : execProgram fuel (Stmt.resolve program) s.machine with
  | done flow m =>
      cases (falls_execProgram fuel clean).done h
      rw [h] at ends
      cases ends
      exact .inl ⟨m, h, rfl⟩
  | failed fault m =>
      rw [h] at ends
      cases ends
      have failed : (s.evaluation fuel program).outcome = .failed fault m := h
      obtain ⟨a, m', broken, rfl⟩ := Moment.exists_brokenBy failed
      exact .inr ⟨a, fault, m', broken, rfl⟩
  | exhausted =>
      rw [h] at ends
      cases ends

theorem run_of_rejected (open' : s.hadError = false) (rejected : Rejects source) (fuel : Nat) :
    ∃ ds, ds ≠ [] ∧ (∀ d ∈ ds, d.isRuntime = false) ∧ s.run fuel source = some (s.report ds) := by
  by_cases reads : (readProgram source).2 = []
  · have errors := rejected.resolve_left (not_not_intro reads)
    refine ⟨_, mt List.map_eq_nil_iff.1 errors, staticDiagnostics_static _, ?_⟩
    exact run_of_unresolved open' (Prod.ext rfl reads) errors fuel
  · exact ⟨_, reads, reading_static _ _, run_of_unread reads fuel⟩

end Session

/-- A text with errors is not resolved, so that no depth is entered for it. -/
theorem Tabled.run_of_unread {N : Numbering} {t : Tabled} {source : String}
    (errors : (Session.readProgram source).2 ≠ []) (fuel : Nat) :
    t.run N fuel source =
      some (t.read (Session.readProgram source).2 (N.program t.next source).2) := by
  have static : ∀ d ∈ (Session.readProgram source).2, d.isRuntime = false :=
    Session.reading_static _ _
  exact if_pos (Session.hadError_report_of_ne_nil t.session static errors)

/-! ## The command -/

section Command

variable {clock : Nat → Float} {files : String → Contents} {input : List UInt8} {file : String}
  {source : String} {fuel : Nat} {r : CommandResult}

theorem perform_run (readable : (files file).text = .ok source) :
    Command.perform fuel clock files input (.run (some file)) =
      ((Session.initial clock).run fuel source).map (ofSession · []) := by
  rw [Command.perform, onFile, readable]
  rfl

/-- What the command gives to see of the session in which it ran the program: the output is what
was printed, and the status says how far the program got. -/
structure Session.ShownBy (t : Session) (source : String) (r : CommandResult) : Prop where
  stdout : r.stdout = lines t.machine.printed.toList
  rejected : r.status = 65 ∧ r.stdout = "" ↔ Session.Rejects source
  faulted : r.status = 70 ↔ ∃ fault, t.diagnostics = [.runtime fault]
  finished : r.status = 0 ↔
    ¬ Session.Rejects source ∧ ∀ fault, t.diagnostics ≠ [.runtime fault]

theorem shownBy_of_rejected {ds : List Diagnostic} (some : ds ≠ [])
    (static : ∀ d ∈ ds, d.isRuntime = false) (rejected : Session.Rejects source) :
    ((Session.initial clock).report ds).ShownBy source
      (ofSession ((Session.initial clock).report ds) []) := by
  have status : (ofSession ((Session.initial clock).report ds) []).status = 65 :=
    if_pos (Session.hadError_report_of_ne_nil _ static some)
  refine ⟨rfl, iff_of_true ⟨status, rfl⟩ rejected, ?_, ?_⟩
  · rw [status]
    refine iff_of_false (by decide) ?_
    rintro ⟨fault, rfl⟩
    cases static _ List.mem_cons_self
  · rw [status]
    exact iff_of_false (by decide) fun h => h.1 rejected

theorem shownBy_of_done {m : Machine} (accepted : ¬ Session.Rejects source) :
    (Session.mk m []).ShownBy source (ofSession ⟨m, []⟩ []) := by
  have status : (ofSession ⟨m, []⟩ []).status = 0 := rfl
  have silent : ∀ fault, [] ≠ [Diagnostic.runtime fault] := nofun
  refine ⟨congrArg lines (List.append_nil _), ?_, ?_, iff_of_true status ⟨accepted, silent⟩⟩
  · rw [status]
    exact iff_of_false (fun h => absurd h.1 (by decide)) accepted
  · rw [status]
    exact iff_of_false (by decide) fun ⟨fault, h⟩ => silent fault h

theorem shownBy_of_failed {m : Machine} {fault : Located Fault}
    (accepted : ¬ Session.Rejects source) :
    (Session.mk m [.runtime fault]).ShownBy source (ofSession ⟨m, [.runtime fault]⟩ []) := by
  have status : (ofSession ⟨m, [.runtime fault]⟩ []).status = 70 := rfl
  refine ⟨congrArg lines (List.append_nil _), ?_, iff_of_true status ⟨fault, rfl⟩, ?_⟩
  · rw [status]
    exact iff_of_false (fun h => absurd h.1 (by decide)) accepted
  · rw [status]
    exact iff_of_false (by decide) fun h => h.2 fault rfl

theorem perform_run_shown (readable : (files file).text = .ok source)
    (ends : Command.perform fuel clock files input (.run (some file)) = some r) :
    ∃ t, (Session.initial clock).run fuel source = some t ∧ t.ShownBy source r ∧
      ∀ fault, t.diagnostics = [.runtime fault] → ∃ program a m,
        Session.readProgram source = (program, []) ∧
        ((Session.initial clock).evaluation fuel program).BrokenBy a fault m ∧
        r.stdout = lines m.printed.toList := by
  rw [perform_run readable] at ends
  obtain ⟨t, ran, rfl⟩ := Option.map_eq_some_iff.1 ends
  refine ⟨t, ran, ?_⟩
  by_cases rejected : Session.Rejects source
  · obtain ⟨ds, some, static, rejects⟩ :=
      Session.run_of_rejected (s := .initial clock) rfl rejected fuel
    cases ran.symm.trans rejects
    refine ⟨shownBy_of_rejected some static rejected, ?_⟩
    rintro fault rfl
    cases static _ List.mem_cons_self
  · obtain ⟨program, reads, clean⟩ := Session.not_rejects_iff.1 rejected
    rcases Session.run_of_accepted rfl reads clean ran with
      ⟨m, -, rfl⟩ | ⟨a, fault, m, broken, rfl⟩
    · exact ⟨shownBy_of_done rejected, fun _ h => absurd h (List.cons_ne_nil _ _).symm⟩
    · refine ⟨shownBy_of_failed rejected, ?_⟩
      rintro _ ⟨⟩
      exact ⟨program, a, m, reads, broken, congrArg lines (List.append_nil _)⟩

end Command

/-- A program that is run where no static error is pending reports either what scanning and parsing
found, and then it is not resolved, or what resolution found, or at most one fault. With errors it
is not evaluated. A fault breaks off the evaluation. The exit status of the command says which of
these it was, and its output is what the program printed, up to the fault if there is one. -/
theorem Session.run_staged {s : Session} (open' : s.hadError = false) (source : String)
    (fuel : Nat) :
    ((readProgram source).2 ≠ [] →
      s.run fuel source = some (s.report (lexicalDiagnostics source ++
        (Grammar.program (Scan.tokens source)).2.map .grammar)) ∧
      ∀ N t, ∃ t', Tabled.run N fuel t source = some t' ∧ t'.table = t.table ∧
        t'.session = t.session.report (readProgram source).2) ∧
    (∀ program, readProgram source = (program, []) →
      (Stmt.staticErrors program ≠ [] →
        s.run fuel source = some (s.report (staticDiagnostics program))) ∧
      (Stmt.staticErrors program = [] → ∀ t, s.run fuel source = some t →
        (∃ m, (s.evaluation fuel program).outcome = .done .next m ∧
          t = { s with machine := m }) ∨
        ∃ a fault m, (s.evaluation fuel program).BrokenBy a fault m ∧
          t = ⟨m.backTo s.machine, s.diagnostics ++ [.runtime fault]⟩)) ∧
    ∀ clock files input file r, (files file).text = .ok source →
      Command.perform fuel clock files input (.run (some file)) = some r →
      ∃ t, (Session.initial clock).run fuel source = some t ∧ t.ShownBy source r ∧
        ∀ fault, t.diagnostics = [.runtime fault] → ∃ program a m,
          readProgram source = (program, []) ∧
          ((Session.initial clock).evaluation fuel program).BrokenBy a fault m ∧
          r.stdout = lines m.printed.toList := by
  refine ⟨fun errors => ⟨run_of_unread errors fuel, fun N t => ?_⟩, fun program reads => ?_,
    fun clock files input file r readable ends => perform_run_shown readable ends⟩
  · exact ⟨_, Tabled.run_of_unread errors fuel, rfl, rfl⟩
  · exact ⟨fun errors => run_of_unresolved open' reads errors fuel,
      fun clean t ends => run_of_accepted open' reads clean ends⟩

/-- `print "a"; print -nil; print "b";` -/
def brokenPrinting : List Stmt :=
  [.print (.literal (.string "a")),
    .print (.unary ⟨.symbol .minus, "-", 1⟩ (.literal .nil)),
    .print (.literal (.string "b"))]

/-- The text of the program. -/
def brokenPrintingText : String := "print \"a\"; print -nil; print \"b\";"

/-- A file with the program. -/
def brokenPrintingFile : Contents := .ok brokenPrintingText.toUTF8.data.toList

/-- Only what stands in front of the fault is printed. -/
theorem brokenPrinting_status : ∃ r,
    Command.perform 3 (fun _ => 0) (fun _ => brokenPrintingFile) [] (.run (some "broken.lox")) =
      some r ∧ r.status = 70 ∧ r.stdout = "a\n" := by
  have reads : Session.readProgram brokenPrintingText = (brokenPrinting, []) := by
    with_unfolding_all rfl
  have readable : brokenPrintingFile.text = .ok brokenPrintingText := by
    with_unfolding_all rfl
  obtain ⟨m, ran, printed⟩ : ∃ m, (Session.initial fun _ => 0).run 3 brokenPrintingText =
      some ⟨m, [.runtime ⟨⟨.symbol .minus, "-", 1⟩, .negatedNonNumber⟩]⟩ ∧
      m.printed = #["a"] := by
    rw [Session.run_of_open rfl reads rfl]
    exact ⟨_, by with_unfolding_all rfl, rfl⟩
  obtain ⟨r, ends⟩ : ∃ r, Command.perform 3 (fun _ => 0) (fun _ => brokenPrintingFile) []
      (.run (some "broken.lox")) = some r :=
    ⟨_, (perform_run readable).trans (congrArg _ ran)⟩
  obtain ⟨-, -, command⟩ :=
    Session.run_staged (s := .initial fun _ => 0) rfl brokenPrintingText 3
  obtain ⟨t, ran', shown, -⟩ := command _ _ _ _ r readable ends
  cases ran.symm.trans ran'
  refine ⟨r, ends, shown.faulted.2 ⟨_, rfl⟩, ?_⟩
  rw [shown.stdout, printed]
  rfl

end LoxLang
