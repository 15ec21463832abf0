import LoxLang.Proofs.Steady
import LoxLang.Proofs.EvaluationOrder
import Mathlib.Logic.Relation

/-!
# What holds from then on

Two evaluations may be far apart: one of them ends, and the other starts much
later in the same run, or in a later run of the session. What the first one saw
of `this` and `super` is still so for the second. It is enough to know this
for one step down the recursion of evaluation, from the machine in which a point
starts to that in which a part of it starts, and back up, from where the part
ends to where the whole does.
-/

namespace LoxLang

open LoxLang.Action MachineM

/-! ## From the whole to a part -/

theorem Starts.steady {callable : Callable} {vs : List Value} {m m' : Machine} {body : List Stmt}
    (h : Starts callable vs m body m') : m.store.Steady m'.store := by
  obtain ⟨f, m1, scope, m2, runs, entered, rfl, rfl⟩ := h.runs
  have opened : m1.store.Steady m2.store := (Steadies.entered f vs).done entered
  exact runs.steady.trans opened

section Parts

variable {n n' : Nat} {p p' : Point} {m m' : Machine}

/-- An operand that has been evaluated where it stands. -/
theorem eval_steady {c : Context} {d e : Expr} {v : Value} (resolved : Expr.Resolved false c d e)
    (stands : Stands m.store c.scopes m.scope) (hm : m.Sound) (value : eval n e m = .done v m') :
    m.store.Steady m'.store ∧ Stands m'.store c.scopes m'.scope ∧ m'.Sound := by
  obtain ⟨he, hm', -⟩ := ((keeps n).1 c d e m resolved stands.placed hm).done value
  exact ⟨((steadies n).1 c d e m resolved stands.placed hm).done value, Evolves.stands he stands,
    hm'⟩

/-- A statement that has been executed where it stands, and has not returned. -/
theorem exec_steady {c c' : Context} {d s : Stmt} (resolved : Stmt.Resolved false c d s c')
    (stands : Stands m.store c.scopes m.scope) (hm : m.Sound)
    (next : exec n s m = .done .next m') :
    m.store.Steady m'.store ∧ Stands m'.store c'.scopes m'.scope ∧ m'.Sound := by
  obtain ⟨-, hm', -, stands'⟩ := ((keeps n).2 c d s c' m resolved stands hm).done next
  exact ⟨((steadies n).2 c d s c' m resolved stands hm).done next, stands' rfl, hm'⟩

/-- From the start of a point to that of a part of it. -/
theorem Leads.steady (h : Leads n p m n' p' m') (hp : p.Sound m) (hm : m.Sound) :
    m.store.Steady m'.store := by
  cases h with
  | first | argument | value | initializer | loop | test | statement => exact .refl _
  | second operand before next =>
      obtain ⟨c, d, resolved, -, stands⟩ := hp
      obtain ⟨_, first⟩ := resolved.first operand
      exact (eval_steady first stands hm before).1
  | arguments before =>
      obtain ⟨c, _, resolved, -, stands⟩ := hp
      cases resolved with
      | call callee _ => exact (eval_steady callee stands hm before).1
  | call callee arguments accepts arity room starts =>
      obtain ⟨c, _, resolved, -, stands⟩ := hp
      cases resolved with
      | call hf hes =>
          obtain ⟨steady, stands, hm'⟩ := eval_steady hf stands hm callee
          have behind := ((steadies _).1.evalAll hes stands.placed hm').done arguments
          have started := starts.steady
          exact (steady.trans behind).trans started
  | moreArguments before =>
      obtain ⟨c, _, resolved, -, stands⟩ := hp
      cases resolved with
      | cons head _ => exact (eval_steady head stands hm before).1
  | superclass before =>
      obtain ⟨c, _, _, resolved, -, stands⟩ := hp
      cases resolved with
      | subclass isName => exact (Steadies.define isName .nil).done before
  | branch operand before next =>
      obtain ⟨c, d, c', resolved, -, stands⟩ := hp
      obtain ⟨_, first⟩ := resolved.first operand
      exact (eval_steady first stands hm before).1
  | block entered =>
      cases entered
      exact .enter _ m.scope
  | round before _ =>
      obtain ⟨c, d, t, test, _, -, stands⟩ := hp
      exact (eval_steady test stands hm before).1
  | moreRounds before _ body =>
      obtain ⟨c, d, t, test, resolved, -, stands⟩ := hp
      obtain ⟨steady, stands, hm'⟩ := eval_steady test stands hm before
      exact steady.trans (exec_steady resolved stands hm' body).1
  | moreStatements before =>
      obtain ⟨c, _, c', resolved, -, stands⟩ := hp
      cases resolved with
      | cons head _ => exact (exec_steady head stands hm before).1

end Parts

/-! ## From a part back to the whole -/

/-- If the whole ends, so has the part, and from where the part ends to where the whole does every
`this` and every `super` is kept. -/
def Remains (part whole : Option Machine) : Prop :=
  ∀ m' ∈ whole, ∃ m ∈ part, m.store.Steady m'.store

section Stores

variable {part whole outer : Option Machine} {f : Machine → Machine}

theorem Remains.of_eq (same : whole = part) : Remains part whole :=
  fun m' hm' => ⟨m', same ▸ hm', .refl _⟩

theorem Remains.trans (h : Remains part whole) (h' : Remains whole outer) :
    Remains part outer := by
  intro m'' hm''
  obtain ⟨m', hm', steady'⟩ := h' m'' hm''
  obtain ⟨m, hm, steady⟩ := h m' hm'
  exact ⟨m, hm, steady.trans steady'⟩

/-- What comes last may change the machine, but for its store. -/
theorem Remains.map (h : Remains part whole) (same : ∀ m, (f m).store = m.store) :
    Remains part (whole.map f) := by
  intro m' hm'
  obtain ⟨m', hw, rfl⟩ := Option.map_eq_some_iff.1 hm'
  rw [same]
  exact h m' hw

theorem Remains.of_map (h : Remains (part.map f) whole) (same : ∀ m, (f m).store = m.store) :
    Remains part whole := by
  intro m' hm'
  obtain ⟨m, hm, steady⟩ := h m' hm'
  obtain ⟨m, hp, rfl⟩ := Option.map_eq_some_iff.1 hm
  rw [same] at steady
  exact ⟨m, hp, steady⟩

end Stores

section Rests

variable {α β : Type} {act : MachineM α} {m m' : Machine}

/-- An action ends where it ends with another value. -/
theorem state?_bind_pure (f : α → β) :
    ((act >>= fun a => pure (f a)) m).state? = (act m).state? := by
  rw [bind_apply]
  cases act m <;> rfl

theorem state?_inScope (scope : Scope) : (inScope scope act m).state? =
    (act { m with scope := scope }).state?.map ({ · with scope := m.scope }) := by
  unfold inScope
  dsimp only
  cases act { m with scope := scope } <;> rfl

theorem state?_counted : (counted act m).state? =
    (act { m with calls := m.calls + 1 }).state?.map fun m' =>
      { m' with calls := m'.calls - 1 } := by
  unfold counted
  cases act { m with calls := m.calls + 1 } <;> rfl

/-- What is left of an action behind its first part. -/
theorem Remains.of_bind {rest : α → MachineM β} {whole : Option Machine}
    (factors : whole = ((act >>= rest) m').state?)
    (steady : ∀ a m'', act m' = .done a m'' → Steadies (rest a) m'') :
    Remains (act m').state? whole := by
  subst factors
  rw [bind_apply]
  cases ha : act m' with
  | exhausted => exact nofun
  | failed fault m1 => exact .of_eq rfl
  | done a m1 => exact fun m2 hm2 => ⟨m1, rfl, (steady a m1 ha).state? hm2⟩

/-- Behind the body of a function the store is left as it is. -/
theorem Starts.remains {n : Nat} {callable : Callable} {vs : List Value} {body : List Stmt}
    (h : Starts callable vs m body m') :
    Remains (execAll (exec n) body m').state?
      (invoke (execAll (exec n)) callable vs m).state? := by
  obtain ⟨f, m1, scope, m2, runs, entered, rfl, rfl⟩ := h.runs
  rw [invoke_of_runs runs, state?_bind_pure, enter_of_entered entered]
  have inside : (inScope scope (execAll (exec n) f.declaration.body) m2).state? = _ :=
    state?_inScope scope
  refine .of_map ?_ (f := ({ · with scope := m2.scope })) fun _ => rfl
  rw [← inside]
  refine .of_bind rfl fun flow m'' _ => ?_
  split
  · exact Store.Steady.refl _
  · exact .pure _

/-- From the end of a part to that of the whole. -/
theorem Leads.remains {n n' : Nat} {p p' : Point} {m m' : Machine} (h : Leads n p m n' p' m')
    (hp : p.Sound m) (hm : m.Sound) :
    Remains (p'.flow n' m').state? (p.flow n m).state? := by
  cases h with
  | first operand =>
      obtain ⟨c, d, resolved, -, stands⟩ := hp
      obtain ⟨rest, factors, steady⟩ :=
        rest_of_first (steadies _).1 (steadies _).2 resolved operand stands.placed hm
      simp only [Point.flow, state?_bind_pure]
      exact .of_bind (congrArg Outcome.state? (congrFun factors m)) steady
  | second operand before next =>
      obtain ⟨rest, factors, steady⟩ := rest_of_second operand before next
      simp only [Point.flow, state?_bind_pure, factors]
      exact .of_bind rfl fun _ _ _ => steady _ _
  | arguments before =>
      simp only [Point.flow, state?_bind_pure]
      rw [eval, bind_of_done before]
      refine .of_bind rfl fun vs m'' hvs => ?_
      obtain ⟨hf, arguments, hm''⟩ := hp.call hm before hvs
      exact .apply (steadies _).2.execAll hm'' hf arguments
  | call callee arguments accepts arity room starts =>
      simp only [Point.flow, state?_bind_pure]
      rw [eval, bind_of_done callee, bind_of_done arguments, apply_of_accepts accepts arity room,
        state?_counted]
      exact starts.remains.map fun _ => rfl
  | argument =>
      obtain ⟨c, _, resolved, -, stands⟩ := hp
      cases resolved with
      | cons head tail =>
          simp only [Point.flow, state?_bind_pure]
          refine .of_bind rfl fun v m' hv => ?_
          obtain ⟨-, stands, hm'⟩ := eval_steady head stands hm hv
          exact rest_of_argument (steadies _).1 tail stands.placed hm' v
  | moreArguments before =>
      simp only [Point.flow, state?_bind_pure]
      rw [evalAll, bind_of_done before]
      exact .of_bind rfl fun _ _ _ => .pure _
  | value operand =>
      obtain ⟨c, d, c', resolved, -, stands⟩ := hp
      obtain ⟨rest, factors, steady⟩ :=
        rest_of_value (steadies _).2 resolved operand stands hm
      simp only [Point.flow, state?_bind_pure]
      exact .of_bind (congrArg Outcome.state? (congrFun factors m)) steady
  | initializer =>
      obtain ⟨c, _, _, resolved, -, stands⟩ := hp
      cases resolved with
      | var isName =>
          simp only [Point.flow, state?_bind_pure]
          exact .of_bind rfl fun v _ _ => rest_of_initializer isName v
  | superclass before =>
      obtain ⟨c, _, _, resolved, -, stands⟩ := hp
      cases before
      cases resolved with
      | subclass isName =>
          simp only [Point.flow, state?_bind_pure, exec_subclass]
          exact .of_bind rfl fun v _ _ => rest_of_superclass isName _ _ _ v
  | branch operand before next =>
      rw [Point.flow, Point.flow, Stmt.exec_branch operand before next]
      exact .of_eq rfl
  | block entered =>
      cases entered
      show Remains _ (inScope _ _ _).state?
      rw [state?_inScope]
      exact .map (.of_eq rfl) fun _ => rfl
  | loop => exact .of_eq rfl
  | test =>
      obtain ⟨c, d, t, test, body, -, stands⟩ := hp
      simp only [Point.flow, state?_bind_pure, loop_succ]
      exact .of_bind rfl (rest_of_test (steadies _).2 test body stands hm
        (SteadyStmt.loop (steadies _).1 (steadies _).2 test body _))
  | round before holds =>
      obtain ⟨c, d, t, test, body, -, stands⟩ := hp
      obtain ⟨-, stands, hm'⟩ := eval_steady test stands hm before
      rw [Point.flow, Point.flow, loop_succ, bind_of_done before, if_pos holds]
      exact .of_bind rfl (rest_of_statement body stands hm'
        (SteadyStmt.loop (steadies _).1 (steadies _).2 test body _))
  | moreRounds before holds body =>
      rw [Point.flow, Point.flow, Action.loop, bind_of_done before, if_pos holds, bind_of_done body]
      exact .of_eq rfl
  | statement =>
      obtain ⟨c, _, c', resolved, -, stands⟩ := hp
      cases resolved with
      | cons head tail =>
          rw [Point.flow, Point.flow, execAll_cons]
          exact .of_bind rfl (rest_of_statement head stands hm
            ((steadies _).2.execAll _ _ _ _ · tail))
  | moreStatements before =>
      rw [Point.flow, Point.flow, execAll, bind_of_done before]
      exact .of_eq rfl

end Rests

/-! ## Moments -/

theorem Point.run_eq (fuel : Nat) (p : Point) : p.run fuel = p.flow fuel >>= fun _ => pure () := by
  cases p <;> simp only [Point.run, Point.flow, bind_assoc, pure_bind]

/-- The evaluation of a point as a whole. -/
theorem Point.Sound.steadies {p : Point} {m : Machine} (h : p.Sound m) (hm : m.Sound) (fuel : Nat) :
    Steadies (p.flow fuel) m := by
  cases p with
  | expr own e =>
      obtain ⟨c, d, resolved, -, stands⟩ := h
      exact ((MachineM.steadies fuel).1 c d e m resolved stands.placed hm).then fun _ _ _ => .pure _
  | exprs own es =>
      obtain ⟨c, ds, resolved, -, stands⟩ := h
      exact ((MachineM.steadies fuel).1.evalAll resolved stands.placed hm).then
        fun _ _ _ => .pure _
  | stmt s =>
      obtain ⟨c, d, c', resolved, -, stands⟩ := h
      exact (MachineM.steadies fuel).2 c d s c' m resolved stands hm
  | stmts ss =>
      obtain ⟨c, ds, c', resolved, -, stands⟩ := h
      exact (MachineM.steadies fuel).2.execAll _ _ _ _ m resolved stands hm
  | rounds left test body =>
      obtain ⟨c, d, t, test, body, -, stands⟩ := h
      exact SteadyStmt.loop (MachineM.steadies fuel).1 (MachineM.steadies fuel).2 test body left m
        stands hm

namespace Moment

variable {a b c : Moment} {m : Machine}

/-- What is evaluated is resolved, and the machine is sound. -/
structure Sound (a : Moment) : Prop where
  point : a.point.Sound a.machine
  machine : a.machine.Sound

theorem Calls.sound (h : a.Calls b) (ha : a.Sound) : b.Sound :=
  have ⟨point, machine⟩ := Leads.sound h ha.point ha.machine
  ⟨point, machine⟩

theorem Reaches.sound (h : a.Reaches b) (ha : a.Sound) : b.Sound :=
  have ⟨point, machine⟩ := Visits.sound h ha.point ha.machine
  ⟨point, machine⟩

/-- From the start of an evaluation to its end. -/
theorem Sound.steady (ha : a.Sound) (ends : m ∈ a.outcome.state?) :
    a.machine.store.Steady m.store := (ha.point.steadies ha.machine a.fuel).state? ends

/-- A sound evaluation leaves a sound machine. -/
theorem Sound.leaves (ha : a.Sound) {flow : Flow} (ends : a.outcome = .done flow m) : m.Sound := by
  have ran : a.point.run a.fuel a.machine = .done () m := by
    rw [Point.run_eq]
    exact bind_of_done ends
  exact ((ha.point.run ha.machine a.fuel).done ran).2.1

/-- From the start of an evaluation to that of a part of it. -/
theorem Reaches.steady (h : a.Reaches b) (ha : a.Sound) :
    a.machine.store.Steady b.machine.store := by
  have visits : ∀ {n p m}, Visits a.fuel a.point a.machine n p m →
      a.machine.store.Steady m.store := by
    intro n p m h
    induction h with
    | start => exact .refl _
    | step before leads ih =>
        obtain ⟨hp, hm⟩ := before.sound ha.point ha.machine
        exact ih.trans (leads.steady hp hm)
  exact visits h

/-- From the end of a part of an evaluation to that of the whole. -/
theorem Reaches.remains (h : a.Reaches b) (ha : a.Sound) :
    Remains b.outcome.state? a.outcome.state? := by
  have visits : ∀ {n p m}, Visits a.fuel a.point a.machine n p m →
      Remains (p.flow n m).state? a.outcome.state? := by
    intro n p m h
    induction h with
    | start => exact .of_eq rfl
    | step before leads ih =>
        obtain ⟨hp, hm⟩ := before.sound ha.point ha.machine
        exact (leads.remains hp hm).trans ih
  exact visits h

end Moment

/-- From the end of an evaluation to the start of one that comes after it. -/
theorem After.steady {a b c : Moment} (h : After a b c) (ha : a.Sound) {m : Machine}
    (ends : b.outcome = .done .next m) : m.store.Steady c.machine.store := by
  induction h generalizing m with
  | second _ before | arguments before | moreArguments before | branch _ before | round before =>
      rw [Moment.outcome, Point.flow, bind_of_done before] at ends
      cases ends
      exact .refl _
  | call _ arguments _ _ _ starts =>
      rw [Moment.outcome, Point.flow, bind_of_done arguments] at ends
      cases ends
      exact starts.steady
  | moreRounds _ _ body =>
      cases body.symm.trans ends
      exact .refl _
  | moreStatements before =>
      cases before.symm.trans ends
      exact .refl _
  | trans first second ih ih' =>
      obtain ⟨m', done⟩ := second.done
      have inside := (Moment.Calls.sound first.calls.2 ha).steady (m := m') (by rw [done]; rfl)
      exact ((ih ha ends).trans inside).trans (ih' ha done)

namespace Moment

/-- From the end of an evaluation to the start of one in a later part. -/
theorem Earlier.steady {start a b : Moment} {m : Machine} (h : start.Earlier a b)
    (hs : start.Sound) (ends : m ∈ a.outcome.state?) : m.store.Steady b.machine.store := by
  obtain ⟨whole, part, later, reaches, after, inside, behind⟩ := h
  have sound := reaches.sound hs
  obtain ⟨m', done⟩ := after.done
  obtain ⟨m'', ends', steady⟩ := inside.remains (Calls.sound after.calls.1 sound) m'
    (by rw [done]; rfl)
  cases ends.symm.trans ends'
  exact (steady.trans (after.steady sound done)).trans
    (behind.steady (Calls.sound after.calls.2 sound))

end Moment

/-! ## Sessions -/

namespace Session

variable {s s' : Session} {start : Point} {fuel : Nat} {clock : Nat → Float}

/-- The run of a point in a session. -/
def moment (s : Session) (fuel : Nat) (start : Point) : Moment := ⟨fuel, start, s.machine⟩

/-- The run of a point leaves the second session behind, with the fault reported if it fails. -/
def Leaves (s : Session) (fuel : Nat) (start : Point) (s' : Session) : Prop :=
  (s.settle (s.moment fuel start).outcome).map (·.1) = some s'

theorem Leaves.follows (h : s.Leaves fuel start s') : s.Follows start s' := by
  obtain ⟨⟨_, v⟩, settled, rfl⟩ := Option.map_eq_some_iff.1 h
  exact follows_of_settle (start.run_eq fuel) settled

theorem Leaves.state? (h : s.Leaves fuel start s') :
    (s.moment fuel start).outcome.state? = some s'.machine := by
  obtain ⟨⟨_, v⟩, settled, rfl⟩ := Option.map_eq_some_iff.1 h
  exact state?_of_settle settled

theorem Sound.moment (h : s.Sound) (accepted : Accepted start) :
    (s.moment fuel start).Sound := ⟨accepted.sound h, h.machine⟩

theorem Follows.exists_state? (h : s.Follows start s') :
    ∃ fuel, (s.moment fuel start).outcome.state? = some s'.machine := by
  have dropped : ∀ fuel, (s.moment fuel start).outcome.state? =
      (start.run fuel s.machine).state? := fun fuel => by
    rw [Point.run_eq]
    exact (state?_bind_pure fun _ => ()).symm
  cases h with
  | done ends => exact ⟨_, by rw [dropped, ends]; rfl⟩
  | failed ends => exact ⟨_, by rw [dropped, ends]; rfl⟩

theorem Sound.steady (h : s.Sound) (accepted : Accepted start) (follows : s.Follows start s') :
    s.machine.store.Steady s'.machine.store := by
  obtain ⟨fuel, ends⟩ := follows.exists_state?
  exact (h.moment accepted).steady ends

theorem Sound.steps (h : s.Sound) (steps : Relation.ReflTransGen Step s s') :
    s'.Sound ∧ s.machine.store.Steady s'.machine.store := by
  induction steps with
  | refl => exact ⟨h, .refl _⟩
  | tail _ step ih =>
      obtain ⟨sound, steady⟩ := ih
      refine ⟨sound.step step, steady.trans ?_⟩
      rcases step.cases with idle | ⟨start, accepted, follows⟩
      · rw [idle.machine]
        exact .refl _
      · exact sound.steady accepted follows

end Session

namespace Moment

/-- The second evaluation is made later than the first: in a later part of the same run, or in a
later run of the session. -/
inductive Later (clock : Nat → Float) (a b : Moment) : Prop
  | inRun {s : Session} {start : Point} {fuel : Nat} (reachable : s.Reachable clock)
      (accepted : Accepted start) (earlier : (s.moment fuel start).Earlier a b) : Later clock a b
  | inSession {s s' s'' : Session} {start start' : Point} {fuel fuel' : Nat}
      (reachable : s.Reachable clock) (accepted : Accepted start)
      (first : (s.moment fuel start).Reaches a) (leaves : s.Leaves fuel start s')
      (meanwhile : Relation.ReflTransGen Session.Step s' s'') (accepted' : Accepted start')
      (second : (s''.moment fuel' start').Reaches b) : Later clock a b

variable {clock : Nat → Float} {a b : Moment} {m : Machine}

theorem Earlier.reaches {start : Moment} (h : start.Earlier a b) :
    start.Reaches a ∧ start.Reaches b := by
  obtain ⟨whole, part, later, reaches, after, inside, behind⟩ := h
  exact ⟨(reaches.trans (Calls.reaches after.calls.1)).trans inside,
    (reaches.trans (Calls.reaches after.calls.2)).trans behind⟩

theorem Later.sound (h : Later clock a b) : a.Sound ∧ b.Sound := by
  cases h with
  | @inRun s start fuel reachable accepted earlier =>
      have sound : (s.moment fuel start).Sound := reachable.sound.moment accepted
      exact ⟨earlier.reaches.1.sound sound, earlier.reaches.2.sound sound⟩
  | inSession reachable accepted first leaves meanwhile accepted' second =>
      have left := reachable.sound.follows accepted leaves.follows
      exact ⟨first.sound (reachable.sound.moment accepted),
        second.sound ((left.steps meanwhile).1.moment accepted')⟩

/-- What an evaluation sees of `this` and `super` when it ends is so when a later one starts. -/
theorem Later.steady (h : Later clock a b) (ends : m ∈ a.outcome.state?) :
    m.store.Steady b.machine.store := by
  cases h with
  | inRun reachable accepted earlier =>
      exact earlier.steady (reachable.sound.moment accepted) ends
  | @inSession s _ _ start _ fuel _ reachable accepted first leaves meanwhile accepted' second =>
      have sound : (s.moment fuel start).Sound := reachable.sound.moment accepted
      have left := reachable.sound.follows accepted leaves.follows
      obtain ⟨sound', between⟩ := left.steps meanwhile
      obtain ⟨m', ends', behind⟩ := first.remains sound _ leaves.state?
      cases ends.symm.trans ends'
      exact (behind.trans between).trans (second.steady (sound'.moment accepted'))

end Moment

end LoxLang
