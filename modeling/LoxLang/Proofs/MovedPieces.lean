import LoxLang.Proofs.Fuel
import LoxLang.Proofs.HeldCode
import LoxLang.Proofs.Lockstep
import LoxLang.Proofs.ResolutionAlike
import LoxLang.Proofs.ScanJoin
import LoxLang.Proofs.SentencesAlike
import LoxLang.Proofs.Sessions

/-!
# Pieces of a program, put further down

A prompt takes a program piece by piece and forgets the errors in between. What
a piece does is the same wherever it stands, but its tokens have other lines.

This tells where a token was read. A token alone does not: two pieces can have
the same token on the same line, and so can the code that the session held
before. But if the pieces are put further down, each by lines of its own, the
token of a fault goes down with the piece it was read from, and with no other.
It stays where it is if it is from older code.
-/

namespace LoxLang

open LoxLang.Action MachineM

namespace Session

/-- The program that is read from a text. -/
def programOf (source : String) : List Stmt := (readProgram source).1

/-- Scanning, parsing and resolving the text report nothing. -/
def Clean (source : String) : Prop :=
  (readProgram source).2 = [] ∧ Stmt.staticErrors (programOf source) = []

/-- Several runs, each with fuel enough and with a reset before the next, and the sessions behind
each of them. -/
inductive RunsPieces : Session → List String → List Session → Prop
  | nil {s : Session} : RunsPieces s [] []
  | cons {s t : Session} {fuel : Nat} {p : String} {ps : List String} {ts : List Session}
      (ran : s.run fuel p = some t) (others : RunsPieces t.reset ps ts) :
      RunsPieces s (p :: ps) (t :: ts)

/-- The pieces run into a fault: the last of them ends with it, and no other ends with one. -/
def FailsIn (s : Session) (ps : List String) (fault : Located Fault) : Prop :=
  ∃ us t, s.RunsPieces ps (us ++ [t]) ∧ (∀ u ∈ us, u.hadRuntimeError = false) ∧
    t.diagnostics = [.runtime fault]

end Session

/-! ## Where a token was read -/

/-- Code that a session holds before it runs pieces, and the pieces by their numbers. -/
inductive Origin where
  | held
  | piece (i : Nat)

/-- How many lines code is put down, if that is given for each piece: older code stays. -/
def Origin.lines (down : Nat → Nat) : Origin → Nat
  | held => 0
  | piece i => down i

/-- Code from there has the token. -/
inductive Origin.Has (m : Machine) (ps : List String) : Origin → Token → Prop
  | held {t : Token} (holds : m.Holds t) : Has m ps .held t
  | piece {i : Nat} {p : String} {t : Token} (here : ps[i]? = some p) (mem : t ∈ Scan.tokens p) :
      Has m ps (.piece i) t

/-- The error so many lines further down. -/
def Located.lower {ε : Type} (lines : Nat) (e : Located ε) : Located ε :=
  { e with token := e.token.lower lines }

/-- The pieces run into the fault at a token that was read from there: code from there has the token,
and however many lines each piece is put further down, the fault is as many lines further down as
its origin. Where no two pieces have a line in common, nor one with older code, the line of the
fault is a line of the origin alone. -/
structure Session.ReadFrom (s : Session) (ps : List String) (fault : Located Fault)
    (origin : Origin) : Prop where
  has : origin.Has s.machine ps fault.token
  follows : ∀ down : Nat → Nat, s.FailsIn (placed down ps) (fault.lower (origin.lines down))

/-! ## Likenesses of moved code -/

/-- Tokens stand for each other if they differ in nothing but the line. -/
def Likeness.lines : Likeness where
  token t t' := t.kind = t'.kind ∧ t.lexeme = t'.lexeme
  depth := Eq
  kind_eq := And.left
  lexeme_eq := And.right

/-- A token of pieces that are put down in one way stands for the same token of the same piece, put
down in the other way. -/
def Likeness.moved (m : Machine) (ps : List String) (down down' : Nat → Nat) : Likeness where
  token t t' := ∃ (origin : Origin) (u : Token), origin.Has m ps u ∧
    t = u.lower (origin.lines down) ∧ t' = u.lower (origin.lines down')
  depth := Eq
  kind_eq := by
    rintro _ _ ⟨_, _, -, rfl, rfl⟩
    rfl
  lexeme_eq := by
    rintro _ _ ⟨_, _, -, rfl, rfl⟩
    rfl

theorem Likeness.lines_sameDepths : Likeness.lines.SameDepths := fun _ _ => Iff.rfl

theorem Likeness.lines_lower (t : Token) (k k' : Nat) :
    Likeness.lines.token (t.lower k) (t.lower k') := ⟨rfl, rfl⟩

theorem Machine.alike_lines (m : Machine) : m.Alike .lines m :=
  Machine.alike_self (fun _ => rfl) fun _ _ => ⟨rfl, rfl⟩

section Moved

variable {m : Machine} {ps : List String} {down down' : Nat → Nat}

theorem Likeness.moved_sameDepths : (Likeness.moved m ps down down').SameDepths :=
  fun _ _ => Iff.rfl

theorem Likeness.moved_lower {i : Nat} {p : String} (here : ps[i]? = some p) {t : Token}
    (mem : t ∈ Scan.tokens p) :
    (Likeness.moved m ps down down').token (t.lower (down i)) (t.lower (down' i)) :=
  ⟨.piece i, t, .piece here mem, rfl, rfl⟩

theorem Likeness.moved_held {t : Token} (holds : m.Holds t) :
    (Likeness.moved m ps down down').token t t := ⟨.held, t, .held holds, rfl, rfl⟩

end Moved

theorem Likeness.SameDepths.plain {L : Likeness} (same : L.SameDepths) : L.Plain := (same _ _).2 rfl

namespace Session

variable {L : Likeness} {s s' t t' : Session} {fuel fuel' : Nat} {p q : String}
  {ps qs : List String} {ts ts' : List Session} {fault fault' : Located Fault}

/-! ## Moved pieces have the same programs -/

theorem Clean.reads (h : Clean p) : readProgram p = (programOf p, []) := Prod.ext rfl h.1

theorem Clean.scans (h : Clean p) : Scan.errors p = [] := (readProgram_eq_iff.1 h.reads).1

theorem Clean.derivation (h : Clean p) :
    Derivation.Program .nearest (Grammar.content (Scan.tokens p)) (programOf p) :=
  Grammar.program_eq_iff.1 (readProgram_eq_iff.1 h.reads).2

/-- Two texts with tokens that stand for each other, one by one, of which the first is without
errors. -/
theorem Clean.alike (same : L.SameDepths) (clean : Clean p) (scans : Scan.errors q = [])
    {f g : Token → Token} {us : List Token} (hp : Grammar.content (Scan.tokens p) = us.map f)
    (hq : Grammar.content (Scan.tokens q) = us.map g) (h : ∀ u ∈ us, L.token (f u) (g u)) :
    Clean q ∧ Stmt.AllAlike L (programOf p) (programOf q) := by
  have derivation := clean.derivation
  rw [hp] at derivation
  obtain ⟨program, derived, alike⟩ := derivation.along same.plain h
  rw [← hq] at derived
  have reads := readProgram_eq_iff.2 ⟨scans, Grammar.program_eq_iff.2 derived⟩
  have errors : ErrorsAlike L _ _ := alike.errors same .global
  have none := clean.2
  rw [Clean, programOf, reads]
  refine ⟨⟨rfl, ?_⟩, alike⟩
  unfold Stmt.staticErrors at none ⊢
  rw [none] at errors
  exact List.forall₂_nil_left_iff.1 errors

theorem Clean.lower (clean : Clean p) (lines : Nat) : Clean (lowerText lines p) :=
  (clean.alike Likeness.lines_sameDepths (Scan.errors_lowerText lines clean.scans)
    (List.map_id _).symm (Scan.content_lowerText lines p)
    fun t _ => Likeness.lines_lower t 0 lines).1

theorem clean_placed (clean : ∀ p ∈ ps, Clean p) (down : Nat → Nat) :
    ∀ p ∈ placed down ps, Clean p := by
  induction ps generalizing down with
  | nil => nofun
  | cons p ps ih =>
      obtain ⟨first, others⟩ := List.forall_mem_cons.1 clean
      exact List.forall_mem_cons.2 ⟨first.lower _, ih others _⟩

/-- The texts are read as programs that are alike. -/
def ProgramsAlike (L : Likeness) (ps qs : List String) : Prop :=
  List.Forall₂ (fun p q => Stmt.AllAlike L (programOf p) (programOf q)) ps qs

theorem placed_alike (same : L.SameDepths) (clean : ∀ p ∈ ps, Clean p) {down down' : Nat → Nat}
    (h : ∀ i p, ps[i]? = some p → ∀ t ∈ Scan.tokens p,
      L.token (t.lower (down i)) (t.lower (down' i))) :
    ProgramsAlike L (placed down ps) (placed down' ps) := by
  induction ps generalizing down down' with
  | nil => exact .nil
  | cons p ps ih =>
      obtain ⟨first, others⟩ := List.forall_mem_cons.1 clean
      refine .cons ?_ (ih others fun i => h (i + 1))
      exact ((first.lower (down 0)).alike same (Scan.errors_lowerText _ first.scans)
        (Scan.content_lowerText _ p) (Scan.content_lowerText _ p)
        fun t ht => h 0 p rfl t ((List.takeWhile_sublist _).subset ht)).2

/-! ## Programs that are alike run alike -/

theorem execute_of_done {program : List Stmt} {flow : Flow} {m : Machine}
    (h : execProgram fuel program s.machine = .done flow m) :
    s.execute fuel program = some ⟨m, s.diagnostics⟩ := by
  rw [execute, h]
  rfl

theorem execute_of_failed {program : List Stmt} {m : Machine}
    (h : execProgram fuel program s.machine = .failed fault m) :
    s.execute fuel program = some ⟨m, s.diagnostics ++ [.runtime fault]⟩ := by
  rw [execute, h]
  rfl

theorem run_of_clean (ready : s.diagnostics = []) (clean : Clean p) (fuel : Nat) :
    s.run fuel p = s.execute fuel (Stmt.resolve (programOf p)) := by
  have opened : s.hadError = false := by rw [hadError, ready]; rfl
  exact run_of_open opened clean.reads clean.2 fuel

/-- How a clean program ends in a session without errors. -/
theorem run_cases (ready : s.diagnostics = []) (clean : Clean p) (h : s.run fuel p = some t) :
    (∃ flow, execProgram fuel (Stmt.resolve (programOf p)) s.machine = .done flow t.machine ∧
      t.diagnostics = []) ∨
    ∃ fault, execProgram fuel (Stmt.resolve (programOf p)) s.machine = .failed fault t.machine ∧
      t.diagnostics = [.runtime fault] := by
  rw [run_of_clean ready clean] at h
  cases ends : execProgram fuel (Stmt.resolve (programOf p)) s.machine with
  | done flow m =>
      rw [execute_of_done ends] at h
      cases h
      exact .inl ⟨flow, rfl, ready⟩
  | failed fault m =>
      rw [execute_of_failed ends] at h
      cases h
      exact .inr ⟨fault, rfl, congrArg (· ++ _) ready⟩
  | exhausted =>
      rw [execute, ends] at h
      cases h

theorem execProgram_alike (same : L.SameDepths) {program program' : List Stmt}
    (programs : Stmt.AllAlike L program program') {m m' : Machine} (machines : m.Alike L m')
    (fuel : Nat) :
    Outcome.Alike L (Flow.Alike L) (execProgram fuel (Stmt.resolve program) m)
      (execProgram fuel (Stmt.resolve program') m') := by
  have steps : ∀ r r' : Stmt, r.Alike L r' →
      Lockstep L (execVia id fuel r) (execVia id fuel r') (Flow.Alike L) :=
    (lockstep (fun d d' h => (same d d').1 h) fuel).2
  rw [execVia_id] at steps
  exact Lockstep.execAll steps _ _ (programs.annotate same .global) m m' machines

/-- Sessions behind programs that have ended alike: both well, or both with a fault. -/
inductive EndsAlike (L : Likeness) (t t' : Session) : Prop
  | well (machines : t.machine.Alike L t'.machine) (none : t.diagnostics = [])
      (none' : t'.diagnostics = [])
  | failing {fault fault' : Located Fault} (machines : t.machine.Alike L t'.machine)
      (faults : fault.Alike L fault') (one : t.diagnostics = [.runtime fault])
      (one' : t'.diagnostics = [.runtime fault'])

theorem hadRuntimeError_of_nil (h : t.diagnostics = []) : t.hadRuntimeError = false := by
  rw [hadRuntimeError, h]
  rfl

theorem hadRuntimeError_of_fault (h : t.diagnostics = [.runtime fault]) :
    t.hadRuntimeError = true := by
  rw [hadRuntimeError, h]
  rfl

namespace EndsAlike

theorem machines (h : EndsAlike L t t') : t.machine.Alike L t'.machine := by
  cases h with
  | well machines => exact machines
  | failing machines => exact machines

theorem hadRuntimeError_eq (h : EndsAlike L t t') : t.hadRuntimeError = t'.hadRuntimeError := by
  cases h with
  | well _ none none' => rw [hadRuntimeError_of_nil none, hadRuntimeError_of_nil none']
  | failing _ _ one one' => rw [hadRuntimeError_of_fault one, hadRuntimeError_of_fault one']

theorem faults (h : EndsAlike L t t') (one : t.diagnostics = [.runtime fault]) :
    ∃ fault', t'.diagnostics = [.runtime fault'] ∧ fault.Alike L fault' := by
  cases h with
  | well _ none =>
      rw [none] at one
      cases one
  | failing _ faults one₁ one' =>
      rw [one₁] at one
      cases one
      exact ⟨_, one', faults⟩

end EndsAlike

theorem run_alike (same : L.SameDepths) (clean : Clean p) (clean' : Clean q)
    (programs : Stmt.AllAlike L (programOf p) (programOf q)) (ready : s.diagnostics = [])
    (ready' : s'.diagnostics = []) (machines : s.machine.Alike L s'.machine)
    (ran : s.run fuel p = some t) : ∃ t', s'.run fuel q = some t' ∧ EndsAlike L t t' := by
  have alike := execProgram_alike same programs machines fuel
  rw [run_of_clean ready' clean']
  rcases run_cases ready clean ran with ⟨flow, ends, none⟩ | ⟨fault, ends, one⟩
  · rw [ends] at alike
    obtain ⟨flow', m, ends', -, machines⟩ := alike.of_done
    exact ⟨_, execute_of_done ends', .well machines none ready'⟩
  · rw [ends] at alike
    obtain ⟨fault', m, ends', faults, machines⟩ := alike.of_failed
    exact ⟨_, execute_of_failed ends', .failing machines faults one (congrArg (· ++ _) ready')⟩

/-- Pieces with programs that are alike, run in sessions that are alike. -/
theorem RunsPieces.alike (same : L.SameDepths) (runs : s.RunsPieces ps ts)
    (clean : ∀ p ∈ ps, Clean p) (clean' : ∀ q ∈ qs, Clean q) (programs : ProgramsAlike L ps qs)
    (ready : s.diagnostics = []) (ready' : s'.diagnostics = [])
    (machines : s.machine.Alike L s'.machine) :
    ∃ ts', s'.RunsPieces qs ts' ∧ List.Forall₂ (EndsAlike L) ts ts' := by
  induction runs generalizing s' qs with
  | nil =>
      cases programs
      exact ⟨[], .nil, .nil⟩
  | cons ran _ ih =>
      cases programs with
      | cons first others =>
          obtain ⟨cleanFirst, cleanOthers⟩ := List.forall_mem_cons.1 clean
          obtain ⟨cleanFirst', cleanOthers'⟩ := List.forall_mem_cons.1 clean'
          obtain ⟨t', ran', ends⟩ :=
            run_alike same cleanFirst cleanFirst' first ready ready' machines ran
          have reset : t'.reset.diagnostics = [] := rfl
          obtain ⟨ts', runs', alike⟩ :=
            ih cleanOthers cleanOthers' others rfl reset ends.machines
          exact ⟨t' :: ts', .cons ran' runs', .cons ends alike⟩

/-! ## Runs of pieces are a function of the session -/

theorem run_unique (h : s.run fuel p = some t) (h' : s.run fuel' p = some t') : t = t' :=
  Option.some.inj ((run_more (Nat.le_max_left fuel fuel') h).symm.trans
    (run_more (Nat.le_max_right fuel fuel') h'))

theorem RunsPieces.unique (h : s.RunsPieces ps ts) (h' : s.RunsPieces ps ts') : ts = ts' := by
  induction h generalizing ts' with
  | nil =>
      cases h'
      rfl
  | cons ran _ ih =>
      cases h' with
      | cons ran' others' =>
          obtain rfl := run_unique ran ran'
          exact congrArg _ (ih others')

theorem FailsIn.unique (h : s.FailsIn ps fault) (h' : s.FailsIn ps fault') : fault = fault' := by
  obtain ⟨us, t, runs, -, one⟩ := h
  obtain ⟨us', t', runs', -, one'⟩ := h'
  obtain ⟨-, last⟩ := List.append_inj' (runs.unique runs') rfl
  cases last
  rw [one] at one'
  cases one'
  rfl

/-! ## The origin of a fault -/

theorem forall₂_of_concat {α β : Type} {R : α → β → Prop} {a : α} : ∀ {as : List α} {bs : List β},
    List.Forall₂ R (as ++ [a]) bs → ∃ bs' b, bs = bs' ++ [b] ∧ List.Forall₂ R as bs' ∧ R a b
  | [], _, .cons last .nil => ⟨[], _, rfl, .nil, last⟩
  | _ :: _, _, .cons first others => by
      obtain ⟨bs', b, rfl, init, last⟩ := forall₂_of_concat others
      exact ⟨_ :: bs', b, rfl, .cons first init, last⟩

theorem well_alike (alike : List.Forall₂ (EndsAlike L) ts ts')
    (well : ∀ t ∈ ts, t.hadRuntimeError = false) : ∀ t ∈ ts', t.hadRuntimeError = false := by
  induction alike with
  | nil => nofun
  | cons first _ ih =>
      obtain ⟨wellFirst, wellOthers⟩ := List.forall_mem_cons.1 well
      exact List.forall_mem_cons.2 ⟨first.hadRuntimeError_eq ▸ wellFirst, ih wellOthers⟩

/-- The last of several sessions, which alone has a fault, and sessions like them. -/
theorem fails_alike {us : List Session} (alike : List.Forall₂ (EndsAlike L) (us ++ [t]) ts')
    (well : ∀ u ∈ us, u.hadRuntimeError = false) (one : t.diagnostics = [.runtime fault]) :
    ∃ us' t' fault', ts' = us' ++ [t'] ∧ (∀ u ∈ us', u.hadRuntimeError = false) ∧
      t'.diagnostics = [.runtime fault'] ∧ fault.Alike L fault' ∧
      t.machine.Alike L t'.machine := by
  obtain ⟨us', t', rfl, init, last⟩ := forall₂_of_concat alike
  obtain ⟨fault', one', faults⟩ := last.faults one
  exact ⟨us', t', fault', rfl, well_alike init well, one', faults, last.machines⟩

/-- The same pieces, put down in two ways. -/
theorem FailsIn.moved (ready : s.diagnostics = []) (clean : ∀ p ∈ ps, Clean p)
    {down : Nat → Nat} (h : s.FailsIn (placed down ps) fault) (down' : Nat → Nat) :
    ∃ fault', s.FailsIn (placed down' ps) fault' ∧
      fault.Alike (.moved s.machine ps down down') fault' := by
  obtain ⟨us, t, runs, well, one⟩ := h
  have self : s.machine.Alike (.moved s.machine ps down down') s.machine :=
    Machine.alike_self (fun _ => rfl) fun _ holds => Likeness.moved_held holds
  obtain ⟨ts', runs', alike⟩ := runs.alike Likeness.moved_sameDepths (clean_placed clean down)
    (clean_placed clean down')
    (placed_alike Likeness.moved_sameDepths clean fun _ _ here _ => Likeness.moved_lower here)
    ready ready self
  obtain ⟨us', t', fault', rfl, well', one', faults, -⟩ := fails_alike alike well one
  exact ⟨fault', ⟨us', t', runs', well', one'⟩, faults⟩

end Session

theorem exists_line_bound (ts : List Token) : ∃ n, ∀ t ∈ ts, t.line < n := by
  induction ts with
  | nil => exact ⟨0, nofun⟩
  | cons t ts ih =>
      obtain ⟨n, h⟩ := ih
      refine ⟨max n (t.line + 1), List.forall_mem_cons.2 ⟨?_, fun u hu => ?_⟩⟩
      · omega
      · have := h u hu
        omega

namespace Origin

variable {n : Nat} {o o' : Origin}

theorem exists_bound (m : Machine) (ps : List String) :
    ∃ n, ∀ (o : Origin) (t : Token), o.Has m ps t → t.line < n := by
  obtain ⟨n, h⟩ := exists_line_bound (m.tokens ++ ps.flatMap Scan.tokens)
  refine ⟨n, fun o t has => h t ?_⟩
  cases has with
  | held holds => exact List.mem_append_left _ holds.mem_tokens
  | piece here mem =>
      exact List.mem_append_right _ (List.mem_flatMap.2 ⟨_, List.mem_of_getElem? here, mem⟩)

/-- Lines that keep pieces apart from one another and from older code, if all of it stands above
the line with the number `n`. -/
def apart (n : Nat) (i : Nat) : Nat := (i + 1) * n

/-- The quotient of a line by `n` is the number of the piece, counted from one. -/
def rank : Origin → Nat
  | held => 0
  | piece i => i + 1

theorem rank_inj (h : o.rank = o'.rank) : o = o' := by
  cases o <;> cases o' <;> cases h <;> rfl

theorem lines_apart (o : Origin) : o.lines (apart n) = o.rank * n := by
  cases o with
  | held => exact (Nat.zero_mul n).symm
  | piece i => rfl

/-- Lines of code that is kept apart tell where it is from. -/
theorem eq_of_apart {k k' : Nat} (hk : k < n) (hk' : k' < n)
    (h : k + o.lines (apart n) = k' + o'.lines (apart n)) : o = o' := by
  have positive : 0 < n := by omega
  rw [lines_apart, lines_apart] at h
  have ranks := congrArg (· / n) h
  simp only [Nat.add_mul_div_right _ _ positive, Nat.div_eq_of_lt hk, Nat.div_eq_of_lt hk',
    Nat.zero_add] at ranks
  exact rank_inj ranks

end Origin

theorem Token.lower_inj {lines : Nat} {t u : Token} (h : t.lower lines = u.lower lines) :
    t = u := by
  obtain ⟨kind, lexeme, line⟩ := t
  obtain ⟨kind', lexeme', line'⟩ := u
  simpa only [lower, Token.mk.injEq, Nat.add_right_cancel_iff] using h

namespace Session

variable {s : Session} {ps : List String} {fault : Located Fault}

/-- A fault that pieces run into has an origin. -/
theorem exists_readFrom (ready : s.diagnostics = []) (clean : ∀ p ∈ ps, Clean p)
    (fails : s.FailsIn ps fault) : ∃ origin, s.ReadFrom ps fault origin := by
  obtain ⟨n, bound⟩ := Origin.exists_bound s.machine ps
  rw [← placed_zero ps] at fails
  -- the lines of this run tell the origin, and every other run is compared with it
  obtain ⟨apart, failsApart, alike⟩ := fails.moved ready clean (Origin.apart n)
  obtain ⟨origin, t, has, at', atApart⟩ := alike.token
  have unmoved : origin.lines (fun _ => 0) = 0 := by cases origin <;> rfl
  rw [unmoved] at at'
  obtain rfl : fault.token = t := at'
  refine ⟨origin, has, fun down => ?_⟩
  obtain ⟨fault', failsDown, alikeDown⟩ := failsApart.moved ready clean down
  obtain ⟨origin', t', has', atApart', atDown⟩ := alikeDown.token
  rw [atApart] at atApart'
  obtain rfl := Origin.eq_of_apart (bound _ _ has) (bound _ _ has') (congrArg Token.line atApart')
  obtain rfl := Token.lower_inj atApart'
  have same : fault' = fault.lower (origin.lines down) := by
    obtain ⟨token, error⟩ := fault'
    cases atDown
    cases alike.error.trans alikeDown.error
    rfl
  rwa [← same]

/-- There is one origin only: put down by different lines, the fault would have to be on two. -/
theorem ReadFrom.unique {o o' : Origin} (h : s.ReadFrom ps fault o) (h' : s.ReadFrom ps fault o') :
    o = o' := by
  have lines := congrArg (·.token.line) ((h.follows (· + 1)).unique (h'.follows (· + 1)))
  have ranks : o.lines (· + 1) = o'.lines (· + 1) := Nat.add_left_cancel lines
  cases o <;> cases o' <;> cases ranks <;> rfl

end Session

end LoxLang
