import LoxLang.Proofs.Numbering
import LoxLang.Proofs.TabledSessions

/-!
# A step that is rejected is not seen again

A step behind which a static error is pending has run nothing: what it reported
is all that it did to the machine's session, and a reset takes that away. What
is left in a session with a table, numbers that are used and depths that were
entered, makes no difference to any request that follows, since a session
without a table, in which nothing is left, gives the same answers.
-/

namespace LoxLang

namespace Session

/-- A fault at run time is no static error. -/
theorem settle_hadError {α : Type} {s s' : Session} {o : Outcome Machine α} {v : Option α}
    (settled : s.settle o = some (s', v)) : s'.hadError = s.hadError := by
  cases o with
  | done a m =>
      cases settled
      rfl
  | failed fault m =>
      cases settled
      unfold hadError report
      rw [List.any_append]
      exact Bool.or_false _
  | exhausted => cases settled

theorem run_rejected {s s' : Session} {fuel : Nat} {source : String}
    (ran : s.run fuel source = some s') (rejected : s'.hadError = true) :
    s'.machine = s.machine := by
  unfold run at ran
  generalize readProgram source = program at ran
  dsimp only at ran
  split at ran
  · cases ran
    rfl
  · split at ran
    · cases ran
      rfl
    · next opened =>
        obtain ⟨⟨_, v⟩, settled, rfl⟩ := Option.map_eq_some_iff.1 ran
        exact absurd ((settle_hadError settled).symm.trans rejected) opened

theorem evaluate_rejected {s s' : Session} {fuel : Nat} {source : String} {v : Option Value}
    (found : s.evaluate fuel source = some (s', v)) (rejected : s'.hadError = true) :
    s'.machine = s.machine ∧ v = none := by
  unfold evaluate parseExpression at found
  generalize readExpression source = expression at found
  dsimp only at found
  split at found
  · next parsed =>
      obtain ⟨rfl, -⟩ := Prod.mk.inj parsed
      cases found
      exact ⟨rfl, rfl⟩
  · next parsed =>
      obtain ⟨rfl, -⟩ := Prod.mk.inj parsed
      split at found
      · cases found
        exact ⟨rfl, rfl⟩
      · next opened => exact absurd ((settle_hadError found).symm.trans rejected) opened

/-- A rejected step leaves the machine as it was, and gives nothing. -/
theorem serve_rejected {s s' : Session} {r : Request} {a : Answer}
    (served : s.serve r = some (s', a)) (rejected : s'.hadError = true) :
    s'.machine = s.machine ∧ a.value = none ∧ a.tree = none := by
  cases r with
  | run fuel source =>
      obtain ⟨_, ran, ends⟩ := Option.map_eq_some_iff.1 served
      cases ends
      exact ⟨run_rejected ran rejected, rfl, rfl⟩
  | evaluate fuel source =>
      obtain ⟨⟨_, v⟩, found, ends⟩ := Option.map_eq_some_iff.1 served
      cases ends
      obtain ⟨machine, value⟩ := evaluate_rejected found rejected
      exact ⟨machine, value, rfl⟩
  | parse source =>
      cases served
      exact ⟨rfl, rfl, if_pos rejected⟩
  | reset => cases served; cases rejected

end Session

namespace Tabled

theorem settle_hadError {α : Type} {t t' : Tabled} {o : Outcome Machine α} {v : Option α}
    (settled : t.settle o = some (t', v)) : t'.session.hadError = t.session.hadError := by
  obtain ⟨⟨s, _⟩, settled, ends⟩ := Option.map_eq_some_iff.1 settled
  cases ends
  exact Session.settle_hadError settled

theorem run_rejected {N : Numbering} {t t' : Tabled} {fuel : Nat} {source : String}
    (ran : t.run N fuel source = some t') (rejected : t'.session.hadError = true) :
    t'.session.machine = t.session.machine := by
  unfold run at ran
  dsimp only at ran
  split at ran
  · cases ran
    rfl
  · split at ran
    · cases ran
      rfl
    · next opened =>
        obtain ⟨⟨_, v⟩, settled, rfl⟩ := Option.map_eq_some_iff.1 ran
        exact absurd ((settle_hadError settled).symm.trans rejected) opened

theorem evaluate_rejected {N : Numbering} {t t' : Tabled} {fuel : Nat} {source : String}
    {v : Option Value} (found : t.evaluate N fuel source = some (t', v))
    (rejected : t'.session.hadError = true) :
    t'.session.machine = t.session.machine ∧ v = none := by
  unfold evaluate parseExpression at found
  dsimp only at found
  split at found
  · next parsed =>
      obtain ⟨rfl, -⟩ := Prod.mk.inj parsed
      cases found
      exact ⟨rfl, rfl⟩
  · next parsed =>
      obtain ⟨rfl, -⟩ := Prod.mk.inj parsed
      split at found
      · cases found
        exact ⟨rfl, rfl⟩
      · next opened => exact absurd ((settle_hadError found).symm.trans rejected) opened

/-- A rejected step leaves the machine as it was, and gives nothing. -/
theorem serve_rejected {N : Numbering} {t t' : Tabled} {r : Request} {a : Answer}
    (served : t.serve N r = some (t', a)) (rejected : t'.session.hadError = true) :
    t'.session.machine = t.session.machine ∧ a.value = none ∧ a.tree = none := by
  cases r with
  | run fuel source =>
      obtain ⟨_, ran, ends⟩ := Option.map_eq_some_iff.1 served
      cases ends
      exact ⟨run_rejected ran rejected, rfl, rfl⟩
  | evaluate fuel source =>
      obtain ⟨⟨_, v⟩, found, ends⟩ := Option.map_eq_some_iff.1 served
      cases ends
      obtain ⟨machine, value⟩ := evaluate_rejected found rejected
      exact ⟨machine, congrArg (Option.map _) value, rfl⟩
  | parse source =>
      cases served
      exact ⟨rfl, rfl, congrArg (Option.map _) (if_pos rejected)⟩
  | reset => cases served; cases rejected

end Tabled

/-- A session that keeps depths in a table gives the same answers as one that does not. In either, a
step behind which a static error is pending leaves the machine as it was, with what is bound and
printed, the fields, the scope and the count of calls, and gives no value and no tree. After a reset
all requests get the answers that they would get without it. -/
theorem rejected_step_invisible (N : Numbering) (first : Nat) (clock : Nat → Float) :
    (∀ rs, (Tabled.initial first clock).serveAll N rs = (Session.initial clock).serveAll rs) ∧
    (∀ t : Tabled, t.Reachable N first clock → ∀ r t' a, t.serve N r = some (t', a) →
      t'.session.hadError = true →
      t'.session.machine = t.session.machine ∧ a.value = none ∧ a.tree = none ∧
        ∀ rs, t'.reset.serveAll N rs = t.reset.serveAll N rs) ∧
    ∀ (s : Session) r s' a, s.serve r = some (s', a) → s'.hadError = true →
      s'.machine = s.machine ∧ a.value = none ∧ a.tree = none ∧
        ∀ rs, s'.reset.serveAll rs = s.reset.serveAll rs := by
  have withoutTable : ∀ {s s' : Session} {r a}, s.serve r = some (s', a) → s'.hadError = true →
      s'.reset = s.reset := fun served rejected =>
    congrArg (Session.mk · []) (Session.serve_rejected served rejected).1
  refine ⟨(Tabled.Shows.initial first clock).serveAll N, ?_, ?_⟩
  · intro t reachable r t' a served rejected
    obtain ⟨machine, value, tree⟩ := Tabled.serve_rejected served rejected
    refine ⟨machine, value, tree, fun rs => ?_⟩
    obtain ⟨s, shows⟩ := reachable.shows
    have along := shows.serve N r
    rw [served] at along
    generalize served' : s.serve r = served'' at along
    cases along with
    | some same =>
        obtain ⟨shows', -⟩ := same
        have back := withoutTable served' (shows'.hadError_eq ▸ rejected)
        rw [shows'.reset.serveAll N rs, back, shows.reset.serveAll N rs]
  · intro s r s' a served rejected
    obtain ⟨machine, value, tree⟩ := Session.serve_rejected served rejected
    exact ⟨machine, value, tree, fun rs => by rw [withoutTable served rejected]⟩

/-- A program in which resolution finds the depth of `a` before it comes to an error. -/
def lateError : List Stmt :=
  [.block [.var ⟨.identifier, "a", 1⟩ none, .expr (.name ⟨.identifier, "a", 1⟩ none)],
    .returning ⟨.symbol .returnWord, "return", 1⟩ none]

/-- The text of that program. -/
def lateErrorText : String := "\x7b var a; a; \x7d return;"

theorem lateError_reads : Session.readProgram lateErrorText = (lateError, []) := by
  with_unfolding_all rfl

theorem lateError_run : ∃ t', (Tabled.initial 0 fun _ => 0).run .inOrder 0 lateErrorText = some t' ∧
    t'.session.hadError = true ∧ t'.table 0 = some 0 ∧ t'.next = 1 := by
  have numbered : Numbering.inOrder.program (Tabled.initial 0 fun _ => 0).next lateErrorText =
      (Stmt.numberAllFrom 0 lateError, 1) := by
    show (Stmt.numberAllFrom 0 (Session.readProgram _).1, _) = _
    rw [lateError_reads]
    rfl
  rw [Tabled.run, numbered, lateError_reads]
  exact ⟨_, rfl, rfl, rfl, rfl⟩

/-- The rejected program leaves a depth in the table and a number that is used. No request that
follows shows it. -/
theorem lateError_invisible : ∃ t' a,
    (Tabled.initial 0 fun _ => 0).serve .inOrder (.run 0 lateErrorText) = some (t', a) ∧
    t'.session.hadError = true ∧ t'.table 0 = some 0 ∧ t'.next = 1 ∧
    t'.session.machine = .initial (fun _ => 0) ∧
    ∀ rs, t'.reset.serveAll .inOrder rs =
      (Tabled.initial 0 fun _ => 0).reset.serveAll .inOrder rs := by
  obtain ⟨t', ran, rejected, entered, next⟩ := lateError_run
  have served : (Tabled.initial 0 fun _ => 0).serve .inOrder (.run 0 lateErrorText) =
      some (t', t'.answer none none) := by
    rw [Tabled.serve, ran]
    rfl
  obtain ⟨machine, -, -, later⟩ :=
    (rejected_step_invisible .inOrder 0 fun _ => 0).2.1 _ .initial _ _ _ served rejected
  exact ⟨t', _, served, rejected, entered, next, machine, later⟩

end LoxLang
