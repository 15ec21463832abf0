import LoxLang.Proofs.Concatenation
import LoxLang.Proofs.MovedPieces
import LoxLang.Proofs.TopLevel

/-!
# A program in pieces

A prompt takes a program piece by piece and forgets the errors in between. If
each piece is without static errors, this comes to the same as one run of the
pieces joined by line ends: the same lines are printed, and the machines that
are left differ in the lines of tokens only. Behind a fault nothing is run, so
this needs that the pieces in front of the last one ended well.

The joined text is the pieces, each put where the joined text has it. So a
fault is further down there by the lines in front of the piece that its token
was read from, which need not be the piece that was running: a function is run
by later pieces too.
-/

namespace LoxLang

namespace Session

variable {fuel : Nat} {s s' : Session} {ps : List String} {ts ts' : List Session}

/-- The machine behind the last of several runs. -/
def lastMachine (s : Session) (ts : List Session) : Machine :=
  (ts.getLast?.map (·.machine)).getD s.machine

theorem lastMachine_cons (s t : Session) (ts : List Session) :
    s.lastMachine (t :: ts) = t.lastMachine ts := by
  rw [lastMachine, lastMachine, List.getLast?_cons]
  cases ts.getLast? <;> rfl

theorem lastMachine_alike {L : Likeness} (alike : List.Forall₂ (EndsAlike L) ts ts')
    (machines : s.machine.Alike L s'.machine) :
    (s.lastMachine ts).Alike L (s'.lastMachine ts') := by
  induction alike generalizing s s' with
  | nil => exact machines
  | cons first _ ih =>
      rw [lastMachine_cons, lastMachine_cons]
      exact ih first.machines

/-! ## The joined program -/

theorem derivation_contents (clean : ∀ p ∈ ps, Clean p) :
    Derivation.Program .nearest (contents ps) (ps.flatMap programOf) := by
  induction ps with
  | nil => exact .nil
  | cons p ps ih =>
      obtain ⟨first, others⟩ := List.forall_mem_cons.1 clean
      exact (first.derivation.behind (contents ps)).append (ih others)

theorem staticErrors_flatMap (clean : ∀ p ∈ ps, Clean p) :
    Stmt.staticErrors (ps.flatMap programOf) = [] := by
  induction ps with
  | nil => rfl
  | cons p ps ih =>
      obtain ⟨first, others⟩ := List.forall_mem_cons.1 clean
      rw [List.flatMap_cons, Stmt.staticErrors_append, ih others, List.append_nil]
      exact first.2

/-- The joined text is read without errors, as the programs of the pieces, each put where the joined
text has it. -/
theorem clean_intercalate (clean : ∀ p ∈ ps, Clean p) :
    Clean ("\n".intercalate ps) ∧
      programOf ("\n".intercalate ps) = (placed (joinedAt ps) ps).flatMap programOf := by
  have cleanPlaced := clean_placed clean (joinedAt ps)
  obtain ⟨tokens, scans⟩ := content_intercalate fun p hp => (clean p hp).scans
  have derivation := derivation_contents cleanPlaced
  rw [← tokens] at derivation
  have reads := readProgram_eq_iff.2 ⟨scans, Grammar.program_eq_iff.2 derivation⟩
  rw [Clean, programOf, reads]
  exact ⟨⟨rfl, staticErrors_flatMap cleanPlaced⟩, rfl⟩

/-! ## The pieces as one program -/

/-- The resolved programs of pieces, one behind the other. -/
theorem resolve_cons {p : String} : Stmt.resolve ((p :: ps).flatMap programOf) =
    Stmt.resolve (programOf p) ++ Stmt.resolve (ps.flatMap programOf) := Stmt.resolve_append _ _

/-- A piece that ends without a fault, and the others, with fuel enough for both. -/
theorem execProgram_cons {p : String} (clean : Clean p) (ready : s.diagnostics = [])
    {t : Session} (ran : s.run fuel p = some t) (well : t.hadRuntimeError = false)
    {fuel' : Nat} {outcome : Outcome Machine Flow}
    (h : execProgram fuel' (Stmt.resolve (ps.flatMap programOf)) t.machine = outcome)
    (ends : outcome ≠ .exhausted) :
    execProgram (max fuel fuel') (Stmt.resolve ((p :: ps).flatMap programOf)) s.machine =
      outcome := by
  have ran' := run_more (Nat.le_max_left fuel fuel') ran
  rcases run_cases ready clean ran' with ⟨flow, first, -⟩ | ⟨fault, -, ds⟩
  · rw [resolve_cons, execProgram_append clean.2, first]
    exact execProgram_more (Nat.le_max_right fuel fuel') h ends
  · rw [hadRuntimeError_of_fault ds] at well
    cases well

/-- Pieces that all end without a fault run as one program. -/
theorem execProgram_pieces (clean : ∀ p ∈ ps, Clean p) (ready : s.diagnostics = [])
    (runs : s.RunsPieces ps ts) (well : ∀ t ∈ ts, t.hadRuntimeError = false) :
    ∃ fuel, execProgram fuel (Stmt.resolve (ps.flatMap programOf)) s.machine =
      .done .next (s.lastMachine ts) := by
  induction runs with
  | nil => exact ⟨0, rfl⟩
  | cons ran _ ih =>
      obtain ⟨wellFirst, wellOthers⟩ := List.forall_mem_cons.1 well
      obtain ⟨cleanFirst, cleanOthers⟩ := List.forall_mem_cons.1 clean
      obtain ⟨fuel, others⟩ := ih cleanOthers rfl wellOthers
      rw [lastMachine_cons]
      exact ⟨_, execProgram_cons cleanFirst ready ran wellFirst others nofun⟩

/-- Pieces of which the last ends with a fault run as one program that ends with it. -/
theorem execProgram_pieces_failed (clean : ∀ p ∈ ps, Clean p) (ready : s.diagnostics = [])
    {us : List Session} {t : Session} (runs : s.RunsPieces ps (us ++ [t]))
    (well : ∀ u ∈ us, u.hadRuntimeError = false) (fails : t.hadRuntimeError = true) :
    ∃ fault fuel, t.diagnostics = [.runtime fault] ∧
      execProgram fuel (Stmt.resolve (ps.flatMap programOf)) s.machine =
        .failed fault t.machine := by
  induction us generalizing s ps with
  | nil =>
      cases runs with
      | @cons _ _ fuel p _ _ ran others =>
          cases others
          have cleanFirst := clean p List.mem_cons_self
          rcases run_cases ready cleanFirst ran with ⟨flow, -, ds⟩ | ⟨fault, ends, ds⟩
          · rw [hadRuntimeError_of_nil ds] at fails
            cases fails
          · refine ⟨fault, fuel, ds, ?_⟩
            rw [resolve_cons, execProgram_append cleanFirst.2, ends]
  | cons u us ih =>
      cases runs with
      | cons ran others =>
          obtain ⟨wellFirst, wellOthers⟩ := List.forall_mem_cons.1 well
          obtain ⟨cleanFirst, cleanOthers⟩ := List.forall_mem_cons.1 clean
          obtain ⟨fault, fuel, ds, ends⟩ := ih cleanOthers rfl others wellOthers
          exact ⟨fault, _, ds, execProgram_cons cleanFirst ready ran wellFirst ends nofun⟩

/-- The pieces, each put further down, end as they end where they are. -/
theorem RunsPieces.placed (ready : s.diagnostics = []) (clean : ∀ p ∈ ps, Clean p)
    (runs : s.RunsPieces ps ts) (down : Nat → Nat) :
    ∃ ts', s.RunsPieces (placed down ps) ts' ∧ List.Forall₂ (EndsAlike .lines) ts ts' := by
  have programs : ProgramsAlike .lines (LoxLang.placed (fun _ => 0) ps) (LoxLang.placed down ps) :=
    placed_alike Likeness.lines_sameDepths clean fun _ _ _ _ _ => Likeness.lines_lower _ _ _
  rw [placed_zero] at programs
  exact runs.alike Likeness.lines_sameDepths clean (clean_placed clean down) programs ready ready
    (Machine.alike_lines s.machine)

/-- A program run piece by piece, and the same program run as a whole. If no piece ends with a
fault, nor does the whole, and the machines behind them are the same up to the lines of tokens. If
the last piece alone does, the whole ends with the same fault at the same token. The token was read
from one piece, or from code that the session held before, and from nowhere else; it is further
down by the lines that the joined text has in front of that piece, and not at all if it is from
older code. -/
theorem pieces_joined {s : Session} (ready : s.diagnostics = []) {ps : List String}
    (clean : ∀ p ∈ ps, Clean p) {ts : List Session} (runs : s.RunsPieces ps ts) :
    ((∀ t ∈ ts, t.hadRuntimeError = false) →
      ∃ fuel m, s.run fuel ("\n".intercalate ps) = some ⟨m, []⟩ ∧
        m.printed = (s.lastMachine ts).printed ∧ (s.lastMachine ts).Alike .lines m) ∧
    ∀ us t, ts = us ++ [t] → (∀ u ∈ us, u.hadRuntimeError = false) → t.hadRuntimeError = true →
      ∃ fault fault' origin fuel m, t.diagnostics = [.runtime fault] ∧
        s.run fuel ("\n".intercalate ps) = some ⟨m, [.runtime fault']⟩ ∧
        (Diagnostic.runtime fault').message = (Diagnostic.runtime fault).message ∧
        (∀ o, s.ReadFrom ps fault o ↔ o = origin) ∧
        fault' = fault.lower (origin.lines (joinedAt ps)) ∧
        m.printed = t.machine.printed ∧ t.machine.Alike .lines m := by
  obtain ⟨cleanJoined, program⟩ := clean_intercalate clean
  have cleanPlaced := clean_placed clean (joinedAt ps)
  obtain ⟨ts', runs', alike⟩ := runs.placed ready clean (joinedAt ps)
  constructor
  · intro well
    obtain ⟨fuel, ends⟩ := execProgram_pieces cleanPlaced ready runs' (well_alike alike well)
    have machines := lastMachine_alike alike (Machine.alike_lines s.machine)
    refine ⟨fuel, s.lastMachine ts', ?_, machines.printed_eq.symm, machines⟩
    rw [run_of_clean ready cleanJoined, program, execute_of_done ends, ready]
  · intro us t last well fails
    subst last
    obtain ⟨fault, -, one, -⟩ := execProgram_pieces_failed clean ready runs well fails
    obtain ⟨origin, readFrom⟩ := exists_readFrom ready clean ⟨us, t, runs, well, one⟩
    obtain ⟨us', t', fault', rfl, well', one', -, machines⟩ := fails_alike alike well one
    obtain rfl : fault' = fault.lower _ :=
      FailsIn.unique ⟨us', t', runs', well', one'⟩ (readFrom.follows (joinedAt ps))
    obtain ⟨fault', fuel, same, ends⟩ := execProgram_pieces_failed cleanPlaced ready runs' well'
      (hadRuntimeError_of_fault one')
    rw [one'] at same
    cases same
    refine ⟨fault, fault.lower (origin.lines (joinedAt ps)), origin, fuel, t'.machine, one, ?_, rfl,
      fun o => ?_, rfl, machines.printed_eq.symm, machines⟩
    · rw [run_of_clean ready cleanJoined, program, execute_of_failed ends, ready]
      rfl
    · exact ⟨fun h => h.unique readFrom, fun h => h ▸ readFrom⟩

/-! ## A fault that is not in the piece that runs -/

/-- `if (false) -nil;` -/
def skips (line : Nat) : List Stmt :=
  [.ifThen (.literal (.bool false)) (.expr (.unary ⟨.symbol .minus, "-", line⟩ (.literal .nil)))]

/-- `fun f() {`, then `print nil; return -nil;`, and `}`. -/
def declaresF (line : Nat) : List Stmt :=
  [.function ⟨⟨.identifier, "f", line⟩, [],
    [.print (.literal .nil),
      .returning ⟨.symbol .returnWord, "return", line⟩
        (some (.unary ⟨.symbol .minus, "-", line⟩ (.literal .nil)))]⟩]

/-- `f();` -/
def callsF (line : Nat) : List Stmt :=
  [.expr (.call (.name ⟨.identifier, "f", line⟩ none) ⟨.symbol .rightParen, ")", line⟩ [])]

/-- Pieces of which the last fails, in a function of the one before. The first piece has the same
token on the same line. -/
def laterCall : List String :=
  ["if (false) -nil;", "fun f() \x7b print nil; return -nil; \x7d", "f();"]

theorem skips_reads : readProgram "if (false) -nil;" = (skips 1, []) := by
  with_unfolding_all rfl

theorem declaresF_reads :
    readProgram "fun f() \x7b print nil; return -nil; \x7d" = (declaresF 1, []) := by
  with_unfolding_all rfl

theorem declaresF_reads_below :
    readProgram (lowerText 1 "fun f() \x7b print nil; return -nil; \x7d") = (declaresF 2, []) := by
  with_unfolding_all rfl

theorem callsF_reads : readProgram "f();" = (callsF 1, []) := by
  with_unfolding_all rfl

theorem laterCall_joined_reads : readProgram ("\n".intercalate laterCall) =
    (skips 1 ++ declaresF 2 ++ callsF 3, []) := by
  with_unfolding_all rfl

theorem Clean.of_reads {source : String} {program : List Stmt}
    (reads : readProgram source = (program, [])) (clean : Stmt.staticErrors program = []) :
    Clean source := by
  rw [Clean, programOf, reads]
  exact ⟨rfl, clean⟩

theorem laterCall_clean : ∀ p ∈ laterCall, Clean p :=
  List.forall_mem_cons.2 ⟨.of_reads skips_reads rfl, List.forall_mem_cons.2
    ⟨.of_reads declaresF_reads rfl, List.forall_mem_singleton.2 (.of_reads callsF_reads rfl)⟩⟩

/-- The `-` of the function, where the third piece fails. -/
def laterFault (line : Nat) : Located Fault := ⟨⟨.symbol .minus, "-", line⟩, .negatedNonNumber⟩

/-- The three pieces, with the function on whatever line. -/
theorem laterCall_runs {declares : String} {line : Nat}
    (reads : readProgram declares = (declaresF line, [])) :
    ∃ m m' m'', (Session.initial fun _ => 0).RunsPieces ["if (false) -nil;", declares, "f();"]
      ([⟨m, []⟩, ⟨m', []⟩] ++ [⟨m'', [.runtime (laterFault line)]⟩]) := by
  have runs : ∃ m m' m'', (Session.initial fun _ => 0).execute 9 (Stmt.resolve (skips 1)) =
        some ⟨m, []⟩ ∧
      (Session.mk m []).execute 9 (Stmt.resolve (declaresF line)) = some ⟨m', []⟩ ∧
      (Session.mk m' []).execute 9 (Stmt.resolve (callsF 1)) =
        some ⟨m'', [.runtime (laterFault line)]⟩ := ⟨_, _, _, rfl, rfl, rfl⟩
  obtain ⟨m, m', m'', first, second, third⟩ := runs
  rw [← run_of_open rfl skips_reads rfl] at first
  rw [← run_of_open rfl reads rfl] at second
  rw [← run_of_open rfl callsF_reads rfl] at third
  exact ⟨m, m', m'', .cons first (.cons second (.cons third .nil))⟩

theorem laterCall_well (m m' : Machine) :
    ∀ u ∈ [Session.mk m [], ⟨m', []⟩], u.hadRuntimeError = false :=
  List.forall_mem_cons.2 ⟨rfl, List.forall_mem_singleton.2 rfl⟩

/-- The third piece fails at the `-` of the second, though the first has the same token. In the
joined text that is one line further down. -/
theorem laterCall_joined :
    (Session.initial fun _ => 0).ReadFrom laterCall (laterFault 1) (.piece 1) ∧
    ∃ fuel m, (Session.initial fun _ => 0).run fuel ("\n".intercalate laterCall) =
      some ⟨m, [.runtime (laterFault 2)]⟩ := by
  obtain ⟨m, m', m'', runs⟩ := laterCall_runs declaresF_reads
  obtain ⟨-, failing⟩ := pieces_joined rfl laterCall_clean runs
  obtain ⟨fault, fault', origin, fuel, joined, ds, ran, -, readFrom, rfl, -⟩ :=
    failing _ _ rfl (laterCall_well m m') rfl
  cases ds
  -- with the second piece alone further down, the fault is further down
  let down : Nat → Nat := fun i => if i = 1 then 1 else 0
  obtain ⟨k, k', k'', moved⟩ := laterCall_runs declaresF_reads_below
  have fails : (Session.initial fun _ => 0).FailsIn (LoxLang.placed down laterCall) (laterFault 2) :=
    ⟨_, _, moved, laterCall_well k k', rfl⟩
  have lines : origin.lines down = 1 := Nat.add_left_cancel (congrArg (·.token.line)
    ((((readFrom origin).2 rfl).follows down).unique fails))
  obtain rfl : origin = .piece 1 := by
    cases origin with
    | held => cases lines
    | piece i =>
        by_cases second : i = 1
        · rw [second]
        · cases lines.symm.trans (if_neg second)
  exact ⟨(readFrom _).2 rfl, fuel, joined, ran⟩

/-- The line of a fault is not moved by the line ends in front of the piece that ran into it. -/
theorem fault_line_not_of_last :
    ¬ ∀ (fuel : Nat) (s : Session) (ps : List String) (us : List Session) (t t' : Session)
      (fault fault' : Located Fault), s.diagnostics = [] → (∀ p ∈ ps, Clean p) →
      s.RunsPieces ps (us ++ [t]) → (∀ u ∈ us, u.hadRuntimeError = false) →
      t.diagnostics = [.runtime fault] → s.run fuel ("\n".intercalate ps) = some t' →
      t'.diagnostics = [.runtime fault'] →
      fault'.token.line = fault.token.line + linesIn ps.dropLast := by
  intro claimed
  obtain ⟨m, m', m'', runs⟩ := laterCall_runs declaresF_reads
  have whole : ∃ joined, (Session.initial fun _ => 0).execute 9
      (Stmt.resolve (skips 1 ++ declaresF 2 ++ callsF 3)) =
        some ⟨joined, [.runtime (laterFault 2)]⟩ := ⟨_, rfl⟩
  obtain ⟨joined, whole⟩ := whole
  rw [← run_of_open rfl laterCall_joined_reads rfl] at whole
  have line := claimed 9 _ _ _ _ _ _ _ rfl laterCall_clean runs (laterCall_well m m') rfl whole
    rfl
  exact absurd line (by decide)

end Session

end LoxLang
