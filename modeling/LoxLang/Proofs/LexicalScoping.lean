import LoxLang.Proofs.Sessions
import LoxLang.Proofs.Simulation

/-!
# Depths implement lexical scoping

A program read and resolved without errors is run by a fresh session, on frames
and depths, and by the evaluator that has neither. Both run out of fuel at the
same fuel. Otherwise they print the same lines, and they end in the same way.

The one condition is about assignments. A local variable is visible to the
resolver in its own initializer, where it may not be read but may be assigned
to. The other evaluator declares it only behind the initializer, so there the
two disagree about which variable is meant.
-/

namespace LoxLang

open LoxLang.Action MachineM
open Lexical (Env)

theorem HeapMatch.empty : HeapMatch [] (Store.empty.enter []).2 #[] #[] .empty #[] where
  size := rfl
  distinct := List.nodup_nil
  notGlobal := nofun
  contents := nofun
  globalFrame := Nat.zero_lt_one
  globals _ := .none
  objects := rfl
  fields _ _ := .none

theorem Match.initial (clock : Nat → Float) :
    Match [] (Machine.initial clock) (Lexical.State.initial clock) :=
  ⟨HeapMatch.empty.writeGlobal .clock, rfl⟩

namespace Session

/-- What a run shows: the lines printed, and the errors reported. -/
def shown (s : Session) : Array String × List Diagnostic := (s.machine.printed, s.diagnostics)

/-- A program that gets through the gates of a fresh session is run. -/
theorem run_eq_execute {source : String} {program : List Stmt}
    (reads : readProgram source = (program, [])) (clean : Stmt.staticErrors program = [])
    (fuel : Nat) (clock : Nat → Float) :
    (Session.initial clock).run fuel source =
      (Session.initial clock).execute fuel (Stmt.resolve program) :=
  run_of_open rfl reads clean fuel

/-- Depths implement lexical scoping: a program without errors, in which no initializer of a local
variable assigns to that variable, is run as by the evaluator that knows no depths. -/
theorem run_shown_eq {source : String} {program : List Stmt}
    (reads : readProgram source = (program, [])) (clean : Stmt.staticErrors program = [])
    (own : Stmt.assignsOwnAny false program = false) (fuel : Nat) (clock : Nat → Float) :
    ((Session.initial clock).run fuel source).map shown = Lexical.run fuel clock program := by
  obtain ⟨-, parses⟩ := readProgram_eq_iff.1 reads
  have resolution : ∃ c', Stmt.ResolvedAll true .global program (Stmt.resolve program) c' :=
    Stmt.resolvedAll .global (Grammar.program_formed parses) clean fun _ => own
  obtain ⟨c', resolved⟩ := resolution
  have alike := (simulates fuel).2.execAll [] .global program _ c' .global (.initial clock) _
    resolved .start (.start _ _) (.initial clock)
  rw [run_eq_execute reads clean, execute, execProgram, Lexical.run]
  unfold Sim at alike
  revert alike
  show _ → Option.map shown (Option.map _ (settle _ (execAll _ _ (.initial clock)))) = _
  cases execAll (exec fuel) (Stmt.resolve program) (.initial clock) with
  | done flow m =>
      cases Lexical.execAll (Lexical.exec fuel) .global program (.initial clock) with
      | done flow' t =>
          intro ⟨w, _, hm, _⟩
          show some (m.printed, []) = some (t.printed, [])
          rw [hm.printed_eq]
      | _ => nofun
  | failed fault m =>
      cases Lexical.execAll (Lexical.exec fuel) .global program (.initial clock) with
      | failed fault' t =>
          intro ⟨same, printed⟩
          show some (m.printed, [Diagnostic.runtime fault]) = some (t.printed, [.runtime fault'])
          rw [same, printed]
      | _ => nofun
  | exhausted =>
      cases Lexical.execAll (Lexical.exec fuel) .global program (.initial clock) with
      | exhausted => exact fun _ => rfl
      | _ => nofun

end Session

/-- `var a = "outer"; { fun show() { print a; } var a = "inner"; show(); }` -/
def captureBeforeShadow : List Stmt :=
  [.var ⟨.identifier, "a", 1⟩ (some (.literal (.string "outer"))),
    .block [
      .function ⟨⟨.identifier, "show", 1⟩, [], [.print (.name ⟨.identifier, "a", 1⟩ none)]⟩,
      .var ⟨.identifier, "a", 1⟩ (some (.literal (.string "inner"))),
      .expr (.call (.name ⟨.identifier, "show", 1⟩ none) ⟨.symbol .rightParen, ")", 1⟩ [])]]

/-- A function goes on to use the variable that was in sight where it was declared. -/
theorem captureBeforeShadow_shown :
    ((Session.initial fun _ => 0).run 9
      "var a = \"outer\"; \x7b fun show() \x7b print a; \x7d var a = \"inner\"; show(); \x7d").map
      Session.shown = some (#["outer"], []) :=
  @Session.run_shown_eq _ captureBeforeShadow (by with_unfolding_all rfl) rfl rfl 9 fun _ => 0

end LoxLang
