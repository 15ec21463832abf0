import LoxLang.Proofs.Sessions
import LoxLang.Proofs.SkippedRuns
import LoxLang.Proofs.WrittenSessions

/-!
# A `for` statement means what its blocks and loop mean

Sessions that run programs as they are written show the same as sessions that
run the trees without `for` statements, for any requests in any order. They go
along with each other step by step: what differs between their machines is the
frames of the extra scopes.

Apart from this comparison, the block around a body and an increment is looked
at by itself, in any machine. The body is no declaration, so that nothing is
declared in the scope of the block, and nothing is bound in its frame.
-/

namespace LoxLang

open LoxLang.Action MachineM

/-! ## The extra block -/

/-- A frame that has just been opened stays empty if no names are added. -/
theorem Store.Extends.binds_opened {s s' : Store Value} (outer : Scope)
    (h : Store.Extends none (s.enter outer).2 s') (x : String) :
    s'.binds s.frames.size x = false := by
  have inside : s.frames.size < (s.enter outer).2.frames.size := by
    rw [Store.size_enter]
    exact Nat.lt_succ_self _
  by_contra bound
  have before := h.exact inside (Option.some_ne_none _) (Bool.not_eq_false _ ▸ bound)
  rw [Store.binds_enter, Store.binds_size] at before
  exact Bool.false_ne_true before

/-- A loop binds no name if its body does not. -/
theorem loop_evolving {test : MachineM Value} {body : MachineM Flow}
    (htest : ∀ m, Evolving none test m) (hbody : ∀ m, Evolving none body m) (fuel : Nat)
    (m : Machine) : Evolving none (loop test body fuel) m := by
  induction fuel generalizing m with
  | zero => exact .exhausted
  | succ fuel ih =>
      refine (htest m).bind fun v m' _ => .ite ((hbody m').bind fun flow m'' _ => ?_) (.pure _)
      split
      · exact ih m''
      · exact .pure _

namespace Written

/-- A statement that declares nothing binds no name in a frame that is there already. -/
theorem Stmt.evolving : ∀ {u : Stmt}, u.Formed → u.isDeclaration = false →
    ∀ (c : Context) (fuel : Nat) (m : Machine),
      Evolving none (LoxLang.exec fuel (u.desugar.annotate c)) m
  | _, _, _, _, 0, _ => .exhausted
  | .expr _, _, _, _, fuel + 1, m =>
      ((MachineM.evolving fuel).1 _ m).bind fun _ _ _ => .pure _
  | .print _, _, _, _, fuel + 1, m =>
      ((MachineM.evolving fuel).1 _ m).bind fun _ _ _ =>
        (Evolving.print _).bind fun _ _ _ => .pure _
  | .block _, _, _, _, fuel + 1, m => Evolving.block (MachineM.evolving fuel).2 _ m
  | .ifThen _ _, ⟨formed, nested⟩, _, c, fuel + 1, m =>
      ((MachineM.evolving fuel).1 _ m).bind fun _ m _ =>
        .ite (Stmt.evolving formed nested c fuel m) (.pure _)
  | .ifElse _ _ _, ⟨⟨formed, nested⟩, formed', nested'⟩, _, c, fuel + 1, m =>
      ((MachineM.evolving fuel).1 _ m).bind fun _ m _ =>
        .ite (Stmt.evolving formed nested c fuel m) (Stmt.evolving formed' nested' _ fuel m)
  | .whileDo _ _, ⟨formed, nested⟩, _, c, fuel + 1, m =>
      loop_evolving ((MachineM.evolving fuel).1 _) (Stmt.evolving formed nested c fuel) fuel m
  | .forDo (some _) _ _ _, _, _, _, fuel + 1, m => Evolving.block (MachineM.evolving fuel).2 _ m
  | .forDo none _ none _, ⟨formed, nested⟩, _, c, fuel + 1, m =>
      loop_evolving ((MachineM.evolving fuel).1 _) (Stmt.evolving formed nested c fuel) fuel m
  | .forDo none _ (some _) _, _, _, _, fuel + 1, m => by
      refine loop_evolving ((MachineM.evolving fuel).1 _) (fun m => ?_) fuel m
      cases fuel with
      | zero => exact .exhausted
      | succ fuel => exact Evolving.block (MachineM.evolving fuel).2 _ m
  | .returning _ none, _, _, _, _ + 1, _ => .pure _
  | .returning _ (some _), _, _, _, fuel + 1, m =>
      ((MachineM.evolving fuel).1 _ m).bind fun _ _ _ => .pure _

/-- The machines in which the rounds of a loop start. -/
inductive Rounds (fuel : Nat) (test : Expr) (round : LoxLang.Stmt) : Nat → Machine → Machine → Prop
  | first {left : Nat} {m m' : Machine} {v : Value} (before : LoxLang.eval fuel test m = .done v m')
      (holds : v.truthy = true) : Rounds fuel test round (left + 1) m m'
  | later {left : Nat} {m m' m'' start : Machine} {v : Value}
      (before : LoxLang.eval fuel test m = .done v m') (holds : v.truthy = true)
      (ends : LoxLang.exec fuel round m' = .done .next m'')
      (rest : Rounds fuel test round left m'' start) : Rounds fuel test round (left + 1) m start

/-- Every round starts in the scope in which the loop was started. -/
theorem Rounds.scope_eq {fuel left : Nat} {test : Expr} {round : LoxLang.Stmt} {m start : Machine}
    (h : Rounds fuel test round left m start) : start.scope = m.scope := by
  induction h with
  | first before _ => exact (((MachineM.evolving fuel).1 _ _).done before).scope
  | later before _ ends _ ih =>
      rw [ih, (((MachineM.evolving fuel).2 _ _).done ends).scope,
        (((MachineM.evolving fuel).1 _ _).done before).scope]

/-- The scope of the block around body and increment declares nothing. -/
theorem depthOf?_behind {u : Stmt} (formed : u.Formed) (nested : u.isDeclaration = false)
    (c : Context) (x : String) :
    (u.desugar.after c.enter).depthOf? x = (c.depthOf? x).map (· + 1) := by
  rw [Stmt.after_desugar c.enter formed nested, Context.depthOf?, Context.depthOf?, Context.enter,
    List.findIdx?_cons]
  rfl

/-- Nothing is bound in the frame of that block, and the scope is the same as before. -/
theorem round_ends {u : Stmt} (formed : u.Formed) (nested : u.isDeclaration = false) (c : Context)
    (step : Expr) (fuel : Nat) (m : Machine) :
    (LoxLang.exec fuel (.block [u.desugar.annotate c, .expr step])).Ends m
      (fun _ m' => m'.scope = m.scope ∧ ∀ x, m'.store.binds m.store.frames.size x = false)
      (fun _ m' => m'.scope = m.scope ∧ ∀ x, m'.store.binds m.store.frames.size x = false) := by
  cases fuel with
  | zero => trivial
  | succ fuel =>
      rw [LoxLang.exec, ends_bind, ends_read, ends_bind, ends_openScope, ends_inScope]
      -- Neither part adds a name to a frame that was there when the part began.
      have increment : ∀ m, Evolving none (LoxLang.exec fuel (.expr step)) m := by
        cases fuel with
        | zero => exact fun _ => .exhausted
        | succ fuel =>
            exact fun m => ((MachineM.evolving fuel).1 step m).bind fun _ _ _ => .pure _
      have body : ∀ m, Evolving none
          (Action.execAll (LoxLang.exec fuel) [u.desugar.annotate c, .expr step]) m := by
        intro m
        refine (Stmt.evolving formed nested c fuel m).bind fun flow m' _ => ?_
        split
        · exact (increment m').bind fun flow _ _ => by split <;> exact .pure _
        · exact .pure _
      exact (body _).mono (fun _ _ h => ⟨rfl, Store.Extends.binds_opened m.scope h.store⟩)
        fun _ _ h => ⟨rfl, Store.Extends.binds_opened m.scope h.store⟩

/-! ## Sessions -/

theorem Store.Skips.start (clock : Nat → Float) :
    (Machine.initial clock).store.Skips [some Machine.globalFrame] (State.initial clock).store := by
  have nothing : Store.Skips [] .empty .empty :=
    ⟨rfl, nofun, nofun, nofun, nofun⟩
  exact (nothing.enter [] []).write rfl .clock

theorem Machine.Skips.start (clock : Nat → Float) :
    Machine.Skips [some Machine.globalFrame] (.initial clock) (.initial clock) where
  store := Store.Skips.start clock
  globals := rfl
  fields := ⟨rfl, fun _ _ => .none⟩
  rest := rfl

/-- The tree that a reader gives stands for the tree of the program. -/
theorem Reader.desugar_eq (R : Reader) {source : String} {program : List LoxLang.Stmt}
    (reads : LoxLang.Session.readProgram source = (program, [])) :
    Stmt.desugarAll (R.program source) = program := by
  have derived := (R.derived source (congrArg Prod.snd reads)).desugar
  have parses := (LoxLang.Session.readProgram_eq_iff.1 reads).2
  have parses' := Grammar.program_eq_iff.2 derived
  exact congrArg Prod.fst (parses'.symm.trans parses)

namespace Session

/-- The two sessions differ in the extra frames only. -/
structure Along (s : LoxLang.Session) (s' : Session) : Prop where
  machine : ∃ w, s.machine.Skips w s'.machine
  scope : s.machine.scope = Machine.globalScope
  scope' : s'.machine.scope = Machine.globalScope
  diagnostics : s'.diagnostics = s.diagnostics

namespace Along

variable {s : LoxLang.Session} {s' : Session} {R : Reader}

theorem initial (clock : Nat → Float) : Along (.initial clock) (.initial clock) :=
  ⟨⟨_, Machine.Skips.start clock⟩, rfl, rfl, rfl⟩

theorem hadError_eq (h : Along s s') : s'.hadError = s.hadError := by
  rw [hadError, h.diagnostics, LoxLang.Session.hadError]

theorem hadRuntimeError_eq (h : Along s s') : s'.hadRuntimeError = s.hadRuntimeError := by
  rw [hadRuntimeError, h.diagnostics, LoxLang.Session.hadRuntimeError]

theorem report (h : Along s s') (ds : List Diagnostic) : Along (s.report ds) (s'.report ds) :=
  ⟨h.machine, h.scope, h.scope', congrArg (· ++ ds) h.diagnostics⟩

theorem reset (h : Along s s') : Along s.reset s'.reset := ⟨h.machine, h.scope, h.scope', rfl⟩

theorem shown_eq (h : Along s s') {v : Option Value} {v' : Option (Value Place)}
    (value : v'.map (·.text) = v.map (·.text)) {e e' : Option Expr} (tree : e' = e) :
    s'.shown v' e' = (s.answer v e).shown := by
  obtain ⟨w, machine⟩ := h.machine
  have printed : s'.machine.printed = s.machine.printed :=
    congrArg (fun (_, _, printed, _) => printed) machine.rest
  rw [shown, LoxLang.Session.answer, Answer.shown, printed, h.diagnostics, h.hadError_eq,
    h.hadRuntimeError_eq, value, tree]

theorem settle {α β : Type} (h : Along s s') {act : MachineM α} {act' : Run β}
    {post : SkippedFrames → α → β → Prop}
    (follows : ∀ {w}, Layers.Fit w [] Machine.globalScope Machine.globalScope →
      Follows w Machine.globalScope Machine.globalScope act act' post) :
    Option.Rel (fun p q => Along p.1 q.1 ∧ Option.Rel (fun a b => ∃ w, post w a b) p.2 q.2)
      (s.settle (act s.machine)) (s'.settle (act' s'.machine)) := by
  obtain ⟨w, machine⟩ := h.machine
  have run := follows (.global machine.globals) _ _ machine h.scope h.scope'
  generalize act s.machine = o, act' s'.machine = o' at run
  cases run with
  | done _ value machine back back' =>
      exact .some ⟨⟨⟨_, machine⟩, back, back', h.diagnostics⟩, .some ⟨_, value⟩⟩
  | failed _ machine back back' =>
      have moved : Along { s with machine := _ } { s' with machine := _ } :=
        ⟨⟨_, machine⟩, back, back', h.diagnostics⟩
      exact .some ⟨moved.report _, .none⟩
  | exhausted => exact .none

theorem execute (h : Along s s') {ss : List LoxLang.Stmt} {us : List Stmt}
    (skips : LoxLang.Stmt.AllSkip [] ss us) (fuel : Nat) :
    Option.Rel Along (s.execute fuel ss) (s'.execute fuel us) := by
  unfold LoxLang.Session.execute Session.execute
  exact rel_map (fun _ _ settled => settled.1)
    (h.settle (Follows.execAll (follows fuel).2.1 skips))

theorem run (h : Along s s') (R : Reader) (fuel : Nat) (source : String) :
    Option.Rel Along (s.run fuel source) (s'.run R fuel source) := by
  have static : ∀ d ∈ (LoxLang.Session.readProgram source).2, d.isRuntime = false :=
    LoxLang.Session.reading_static _ _
  unfold LoxLang.Session.run Session.run
  rcases reads : LoxLang.Session.readProgram source with ⟨program, ds⟩
  rw [reads] at static
  dsimp only at static ⊢
  rw [(h.report ds).hadError_eq]
  split
  · exact .some (h.report ds)
  · next opened =>
      cases LoxLang.Session.eq_nil_of_open static (Bool.eq_false_iff.2 opened)
      rw [R.desugar_eq reads, ((h.report []).report _).hadError_eq]
      split
      · exact .some ((h.report []).report _)
      · next valid =>
          have clean := LoxLang.Session.eq_nil_of_open
            (LoxLang.Session.staticDiagnostics_static program) (Bool.eq_false_iff.2 valid)
          have derived := R.derived source (congrArg Prod.snd reads)
          have formed := Grammar.program_formed (LoxLang.Session.readProgram_eq_iff.1 reads).2
          rw [← R.desugar_eq reads] at formed clean
          have skips := Stmt.resolve_skips derived.formed formed (List.map_eq_nil_iff.1 clean)
          rw [R.desugar_eq reads] at skips
          exact ((h.report []).report _).execute skips fuel

theorem parseExpression (h : Along s s') (source : String) :
    Along (s.parseExpression source).1 (s'.parseExpression source).1 ∧
      (s'.parseExpression source).2 = (s.parseExpression source).2 := by
  unfold LoxLang.Session.parseExpression Session.parseExpression
  dsimp only
  rw [(h.report _).hadError_eq]
  exact ⟨h.report _, rfl⟩

theorem evaluate (h : Along s s') (fuel : Nat) (source : String) :
    Option.Rel (fun p q => Along p.1 q.1 ∧ q.2.map (·.text) = p.2.map (·.text))
      (s.evaluate fuel source) (s'.evaluate fuel source) := by
  have static : ∀ d ∈ (LoxLang.Session.readExpression source).2, d.isRuntime = false :=
    LoxLang.Session.reading_static _ _
  unfold LoxLang.Session.evaluate Session.evaluate LoxLang.Session.parseExpression
    Session.parseExpression
  rcases reads : LoxLang.Session.readExpression source with ⟨e, ds⟩
  rw [reads] at static
  dsimp only at static ⊢
  rw [(h.report ds).hadError_eq]
  by_cases closed : (s.report ds).hadError = true
  · rw [if_pos closed]
    exact .some ⟨h.report ds, rfl⟩
  · cases LoxLang.Session.eq_nil_of_open static (Bool.eq_false_iff.2 closed)
    rw [if_neg closed]
    cases e with
    | none => exact .some ⟨h.report [], rfl⟩
    | some e =>
        dsimp only
        rw [((h.report []).report _).hadError_eq]
        split
        · exact .some ⟨(h.report []).report _, rfl⟩
        · next valid =>
            have clean := LoxLang.Session.eq_nil_of_open
              (LoxLang.Session.staticDiagnostics_static _) (Bool.eq_false_iff.2 valid)
            have clean := (List.append_eq_nil_iff.1 (List.map_eq_nil_iff.1 clean)).1
            have formed := Grammar.soleExpression_formed
              (LoxLang.Session.readExpression_eq_iff.1 reads).2
            have resolved : Expr.Resolved false .global e (e.annotate .global) :=
              Expr.resolved Context.Sound.global.calm formed clean nofun
            have skips := Expr.skips .global resolved
            refine rel_imp (fun p q settled => ⟨settled.1, ?_⟩)
              (((h.report []).report _).settle ((follows fuel).1 skips))
            rcases rel_cases settled.2 with ⟨h₁, h₂⟩ | ⟨v, v', h₁, h₂, w, value⟩ <;> rw [h₁, h₂]
            · rfl
            · exact congrArg some value.text_eq

/-- A request served: the sessions go along still, and they show the same. -/
theorem serve (h : Along s s') (R : Reader) (r : Request) :
    Option.Rel (fun p q => Along p.1 q.1 ∧ q.2 = p.2.shown) (s.serve r) (s'.serve R r) := by
  cases r with
  | run fuel source =>
      exact rel_map (fun _ _ ran => ⟨ran, ran.shown_eq rfl rfl⟩) (h.run R fuel source)
  | evaluate fuel source =>
      exact rel_map (fun _ _ found => ⟨found.1, found.1.shown_eq found.2 rfl⟩)
        (h.evaluate fuel source)
  | parse source =>
      obtain ⟨along, tree⟩ := h.parseExpression source
      exact .some ⟨along, along.shown_eq rfl tree⟩
  | reset => exact .some ⟨h.reset, h.reset.shown_eq rfl rfl⟩

/-- All requests get the same answers. -/
theorem serveAll (h : Along s s') (R : Reader) (rs : List Request) :
    s'.serveAll R rs = (s.serveAll rs).map Answer.shown := by
  induction rs generalizing s s' with
  | nil => rfl
  | cons r rs ih =>
      unfold serveAll LoxLang.Session.serveAll
      rcases rel_cases (h.serve R r) with ⟨h₁, h₂⟩ | ⟨⟨t, a⟩, ⟨t', a'⟩, h₁, h₂, along, same⟩
      · rw [h₁, h₂]
        rfl
      · rw [h₁, h₂]
        exact congrArg₂ List.cons same (ih along)

end Along

end Session

/-- Every text that is read without errors is read as a tree with `for` nodes too. -/
theorem Reader.nonempty : Nonempty Reader := by
  have derivable : ∀ source, ∃ us, (LoxLang.Session.readProgram source).2 = [] →
      Program .nearest (Grammar.content (Scan.tokens source)) us := by
    intro source
    by_cases clean : (LoxLang.Session.readProgram source).2 = []
    · have reads := LoxLang.Session.readProgram_eq_iff.1 (Prod.ext rfl clean)
      obtain ⟨us, derived, -⟩ := exists_program_iff.2 (Grammar.program_eq_iff.1 reads.2)
      exact ⟨us, fun _ => derived⟩
    · exact ⟨[], fun h => absurd h clean⟩
  choose program derived using derivable
  exact ⟨⟨program, derived⟩⟩

/-- A `for` statement means what it is written for. Texts that are read without errors can be read
with `for` nodes, and the tree that is run is what such a tree stands for. Sessions that run the
trees with `for` nodes by the direct rule, with one scope for a loop that has an initial clause and
none otherwise, show the same as sessions do, request by request and whatever the fuel. And the
scope of the block around a body and an increment stays empty. A name is found from there as it is
from around the block, one scope further out. Every round of a loop starts in the scope of the loop,
and when it has ended, nothing is bound in the frame that the block was given. -/
theorem desugaring_keeps_meaning :
    (Nonempty Reader ∧ ∀ (R : Reader) source program,
      LoxLang.Session.readProgram source = (program, []) →
        Stmt.desugarAll (R.program source) = program) ∧
    (∀ (R : Reader) clock rs, (Session.initial clock).serveAll R rs =
      ((LoxLang.Session.initial clock).serveAll rs).map Answer.shown) ∧
    ∀ isOpen ts u rest, Statement .nearest isOpen ts u rest →
      (∀ c x, (u.desugar.after (Context.enter c)).depthOf? x = (c.depthOf? x).map (· + 1)) ∧
      ∀ c test step fuel left m start,
        Rounds fuel test (.block [u.desugar.annotate c, .expr step]) left m start →
          start.scope = m.scope ∧
          (LoxLang.exec fuel (.block [u.desugar.annotate c, .expr step])).Ends start
            (fun _ m' => m'.scope = start.scope ∧
              ∀ x, m'.store.binds start.store.frames.size x = false)
            (fun _ m' => m'.scope = start.scope ∧
              ∀ x, m'.store.binds start.store.frames.size x = false) := by
  refine ⟨⟨Reader.nonempty, fun R _ _ => R.desugar_eq⟩, ?_, ?_⟩
  · intro R clock rs
    exact (Session.Along.initial clock).serveAll R rs
  · intro isOpen ts u rest derived
    obtain ⟨formed, nested⟩ := derived.formed
    refine ⟨depthOf?_behind formed nested, ?_⟩
    intro c test step fuel left m start starts
    exact ⟨starts.scope_eq, round_ends formed nested c step fuel start⟩

/-- `var k; for (var go = true; go; go = false) { fun f() { print go; } k = f; } k();` -/
def printerFromLoop : List Stmt :=
  let go : Token := ⟨.identifier, "go", 1⟩
  let k : Token := ⟨.identifier, "k", 1⟩
  let f : Token := ⟨.identifier, "f", 1⟩
  [.var k none,
    .forDo (some (.var go (some (.literal (.bool true))))) (some (.name go none))
      (some (.assign go none (.literal (.bool false))))
      (.block [.function ⟨f, [], [.print (.name go none)]⟩,
        .expr (.assign k none (.name f none))]),
    .expr (.call (.name k none) ⟨.symbol .rightParen, ")", 1⟩ [])]

/-- The text of that program. -/
def printerFromLoopText : String :=
  "var k; for (var go = true; go; go = false) \x7b fun f() \x7b print go; \x7d k = f; \x7d k();"

/-- A function that is made in a loop sees the variable of the loop as it is when the function is
called. -/
theorem printerFromLoop_shown :
    (∃ R : Reader, Stmt.desugarAll (R.program printerFromLoopText) =
        Stmt.desugarAll printerFromLoop ∧
      ((Session.initial fun _ => 0).serveAll R [.run 12 printerFromLoopText]).map (·.printed) =
        [#["false"]]) ∧
    (Context.enter .global).enter.depthOf? "go" = none ∧
    ∃ start, Rounds 2 (.literal (.bool true)) (.block [.block [], .expr (.literal .nil)]) 1
        (.initial fun _ => 0) start ∧ start.scope = Machine.globalScope := by
  obtain ⟨⟨⟨R⟩, stands⟩, shows, empty⟩ := desugaring_keeps_meaning
  have reads : LoxLang.Session.readProgram printerFromLoopText =
      (Stmt.desugarAll printerFromLoop, []) := by
    with_unfolding_all rfl
  have body : Statement .nearest false
      [⟨.symbol .leftBrace, "\x7b", 1⟩, ⟨.symbol .rightBrace, "\x7d", 1⟩] (.block []) [] :=
    .block rfl .nil rfl
  obtain ⟨depths, rounds⟩ := empty _ _ _ _ body
  have starts : Rounds 2 (.literal (.bool true)) (.block [.block [], .expr (.literal .nil)]) 1
      (.initial fun _ => 0) (.initial fun _ => 0) := .first rfl rfl
  refine ⟨⟨R, stands R _ _ reads, ?_⟩, depths (Context.enter .global) "go", _, starts,
    (rounds .global _ _ _ _ _ _ starts).1⟩
  rw [shows, LoxLang.Session.serveAll, LoxLang.Session.serve,
    LoxLang.Session.run_of_open rfl reads rfl]
  decide +kernel

end Written

end LoxLang
