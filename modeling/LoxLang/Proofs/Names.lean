import LoxLang.Proofs.Restoration

/-!
# Which names evaluation adds

A name is bound in an old frame by one kind of evaluation only: a declaration
binds what it declares, in the innermost frame of the scope that it stands in.
Everything else is bound in frames that the evaluation opens itself, and of
these no old scope knows. So the locals of a block, the parameters of a call,
`this` and `super` are seen from no scope that was there before, whether what
they belong to ended well or not, and an assignment binds nothing at all.

Nothing is asked of the tree, nor of the machine. A tree that no parser gives
may have a declaration as the branch of an `if` or as the body of a loop. It
declares where that statement stands.
-/

namespace LoxLang

open LoxLang.Action MachineM

/-- The names that a statement declares where it stands. -/
def Stmt.declares : Stmt → List String
  | .var name _ | .classDecl name _ _ => [name.lexeme]
  | .function declaration => [declaration.name.lexeme]
  | .ifThen _ s | .whileDo _ s => s.declares
  | .ifElse _ s s' => s.declares ++ s'.declares
  | .expr _ | .print _ | .block _ | .returning _ _ => []

/-! ## Stores -/

namespace Store

variable {α : Type} {s s' s'' : Store α} {grows : Option Nat} {names names' : List String}

/-- The frames of the first store bind the same names in the second. -/
def SameNames (s s' : Store α) : Prop :=
  ∀ frame < s.frames.size, ∀ x, s'.binds frame x = s.binds frame x

/-- Of the frames of the first store, `grows` alone binds more names in the second, and only some
of the given ones. None binds fewer. -/
structure Adds (grows : Option Nat) (names : List String) (s s' : Store α) : Prop where
  size : s.frames.size ≤ s'.frames.size
  kept : ∀ {frame : Nat} {x : String}, s.binds frame x = true → s'.binds frame x = true
  new : ∀ {frame : Nat} {x : String}, frame < s.frames.size → s'.binds frame x = true →
    s.binds frame x = true ∨ some frame = grows ∧ x ∈ names

theorem Extends.adds (h : s.Extends none s') : s.Adds grows names s' :=
  ⟨h.size, h.kept, fun inside hb => .inl (h.exact inside nofun hb)⟩

theorem Extends.sameNames (h : s.Extends none s') : s.SameNames s' := by
  intro frame inside x
  rw [Bool.eq_iff_iff]
  exact ⟨h.exact inside nofun, h.kept⟩

theorem Adds.trans (h : s.Adds grows names s') (h' : s'.Adds grows names s'') :
    s.Adds grows names s'' where
  size := Nat.le_trans h.size h'.size
  kept hb := h'.kept (h.kept hb)
  new inside hb := by
    rcases h'.new (Nat.lt_of_lt_of_le inside h.size) hb with hb | added
    · exact h.new inside hb
    · exact .inr added

theorem Adds.mono (h : s.Adds grows names s') (more : names ⊆ names') :
    s.Adds grows names' s' :=
  ⟨h.size, h.kept, fun inside hb => (h.new inside hb).imp_right (And.imp_right (more ·))⟩

theorem Adds.define (s : Store α) (scope : Scope) (x : String) (v : α) :
    s.Adds scope.head? [x] (s.define scope x v) := by
  cases scope with
  | nil => exact (Extends.refl s).adds
  | cons frame outer =>
      refine ⟨Nat.le_of_eq (size_write ..).symm, fun hb => binds_write.2 (.inr hb), ?_⟩
      intro other y _ hb
      rcases binds_write.1 hb with ⟨rfl, rfl, -⟩ | hb
      · exact .inr ⟨rfl, List.mem_singleton_self _⟩
      · exact .inl hb

/-- A name that is not among those added is found in the frame in which it was found before. -/
theorem Adds.frame?_eq (h : s.Adds grows names s') {x : String} (other : x ∉ names) :
    ∀ {scope : Scope}, (∀ frame ∈ scope, frame < s.frames.size) →
      s'.frame? scope x = s.frame? scope x
  | [], _ => rfl
  | frame :: outer, inside => by
      obtain ⟨here, further⟩ := List.forall_mem_cons.1 inside
      have same : s'.binds frame x = s.binds frame x := by
        rw [Bool.eq_iff_iff]
        exact ⟨fun hb => (h.new here hb).resolve_right fun added => other added.2, h.kept⟩
      have later : s'.frame? outer x = s.frame? outer x := h.frame?_eq other further
      unfold frame? at later ⊢
      rw [List.find?_cons, List.find?_cons, same, later]

end Store

/-! ## Actions -/

/-- The machine before and after an action that adds no other names than these, and those to the
innermost frame of the scope in force. -/
structure Machine.Adds (names : List String) (m m' : Machine) : Prop where
  scope : m'.scope = m.scope
  store : m.store.Adds m.scope.head? names m'.store

namespace MachineM

variable {α β : Type} {m : Machine} {act : MachineM α} {names names' : List String}

/-- Both ways to end add no other names than these. -/
def Adding (names : List String) (act : MachineM α) (m : Machine) : Prop :=
  act.Ends m (fun _ m' => m.Adds names m') fun _ m' => m.Adds names m'

theorem Evolving.adding (h : Evolving none act m) : Adding names act m :=
  h.mono (fun _ _ he => ⟨he.scope, he.store.adds⟩) fun _ _ he => ⟨he.scope, he.store.adds⟩

theorem Adding.mono (h : Adding names act m) (more : names ⊆ names') : Adding names' act m :=
  Ends.mono h (fun _ _ h => ⟨h.scope, h.store.mono more⟩) fun _ _ h => ⟨h.scope, h.store.mono more⟩

theorem Adding.pure (a : α) : Adding names (pure a) m := Evolving.adding (.pure a)

theorem Adding.exhausted : Adding names (exhausted : MachineM α) m := trivial

theorem Adding.bind {next : α → MachineM β} (h : Adding names act m)
    (hn : ∀ a m', Adding names (next a) m') : Adding names (act >>= next) m := by
  have later : ∀ {m' m''}, m.Adds names m' → m'.Adds names m'' → m.Adds names m'' := by
    intro m' m'' h h'
    have added := h'.store
    rw [h.scope] at added
    exact ⟨h'.scope.trans h.scope, h.store.trans added⟩
  unfold Adding
  rw [ends_bind]
  exact Ends.mono h (fun a m' hm => Ends.mono (hn a m') (fun _ _ => later hm) fun _ _ => later hm)
    fun _ _ => id

theorem Adding.ite {p : Prop} [Decidable p] {other : MachineM α} (h : Adding names act m)
    (h' : Adding names other m) : Adding names (if p then act else other) m := by
  split
  · exact h
  · exact h'

theorem Adding.define (x : String) (v : Value) : Adding [x] (define x v) m :=
  ⟨rfl, .define ..⟩

theorem Adding.loop {test : MachineM Value} {body : MachineM Flow}
    (htest : ∀ m, Evolving none test m) (hbody : ∀ m, Adding names body m) (fuel : Nat)
    (m : Machine) : Adding names (loop test body fuel) m := by
  induction fuel generalizing m with
  | zero => exact .exhausted
  | succ fuel ih =>
      refine (htest m).adding.bind fun v m' => .ite ?_ (.pure _)
      refine (hbody m').bind fun flow m'' => ?_
      cases flow with
      | next => exact ih m''
      | returned v => exact .pure _

/-- A class declaration adds its own name. The one of `super` goes to a new frame. -/
theorem Adding.declareClass {name : Token} {superclass : Option (Token × MachineM Value)}
    (hs : ∀ p ∈ superclass, ∀ m, Evolving none p.2 m) (methods : List FunctionDecl) (m : Machine) :
    Adding [name.lexeme] (declareClass name superclass methods) m := by
  refine (Adding.define ..).bind fun _ m' => Evolving.adding ?_
  refine (Evolving.read _).bind fun scope m' _ => ?_
  cases superclass with
  | none => exact (Evolving.newClass ..).bind fun _ _ _ => .assignClass ..
  | some p =>
      refine (hs p rfl m').bind fun v m' _ => ?_
      split
      · exact .openWith fun _ _ => (Evolving.newClass ..).bind fun _ _ _ => .assignClass ..
      · exact .raise ..

/-- A statement adds what it declares. -/
theorem adding_exec (fuel : Nat) :
    ∀ (s : Stmt) (m : Machine), Adding s.declares (exec fuel s) m := by
  induction fuel with
  | zero => exact fun _ _ => .exhausted
  | succ fuel ih =>
      have value : ∀ {names} e m, Adding names (eval fuel e) m :=
        fun e m => ((evolving fuel).1 e m).adding
      intro s m
      cases s with
      | expr e => exact (value e m).bind fun _ _ => .pure _
      | print e =>
          exact (value e m).bind fun _ _ => (Evolving.print _).adding.bind fun _ _ => .pure _
      | var name initial =>
          cases initial with
          | none => exact (Adding.define ..).bind fun _ _ => .pure _
          | some e => exact (value e m).bind fun _ _ => (Adding.define ..).bind fun _ _ => .pure _
      | block body => exact (Evolving.block (evolving fuel).2 body m).adding
      | ifThen condition consequent =>
          exact (value condition m).bind fun _ m' => .ite (ih consequent m') (.pure _)
      | ifElse condition consequent alternative =>
          refine (value condition m).bind fun _ m' => .ite ?_ ?_
          · exact (ih consequent m').mono (List.subset_append_left _ _)
          · exact (ih alternative m').mono (List.subset_append_right _ _)
      | whileDo condition body => exact .loop ((evolving fuel).1 condition) (ih body) fuel m
      | function declaration =>
          exact (Evolving.read _).adding.bind fun _ _ => (Evolving.newFunction _).adding.bind
            fun _ _ => (Adding.define ..).bind fun _ _ => .pure _
      | returning keyword value' =>
          cases value' with
          | none => exact .pure _
          | some e => exact (value e m).bind fun _ _ => .pure _
      | classDecl name superclass methods =>
          refine (Adding.declareClass (fun p hp m => ?_) methods m).bind fun _ _ => .pure _
          obtain ⟨e, -, rfl⟩ := Option.map_eq_some_iff.1 hp
          exact (evolving fuel).1 e m

theorem Evolving.sameNames (h : Evolving none act m) {m' : Machine}
    (ends : (act m).state? = some m') : m.store.SameNames m'.store :=
  (Ends.state? h ends).store.sameNames

/-- An assignment writes to a name that is bound, or fails. -/
theorem binds_assign {x : Token} {depth : Option Nat} {v : Value} {m' : Machine}
    (ends : (assign x depth v m).state? = some m') (frame : Nat) (y : String) :
    m'.store.binds frame y = m.store.binds frame y := by
  have written : ∀ {target}, m.store.binds target x.lexeme = true →
      (m.store.write target x.lexeme v).binds frame y = m.store.binds frame y := by
    intro target bound
    rw [Bool.eq_iff_iff, Store.binds_write]
    refine ⟨?_, .inr⟩
    rintro (⟨rfl, rfl, -⟩ | hb)
    · exact bound
    · exact hb
  unfold MachineM.assign at ends
  split at ends
  · split at ends <;> cases ends
    · next found => exact written (Store.binds_of_frameAt? found)
    · rfl
  · split at ends <;> cases ends
    · next found => exact written (Store.binds_of_frame? found)
    · rfl

end MachineM

/-- Evaluation does not leak names, whatever it ends with. An expression and a block change the
names of no frame that was there. A statement adds names to the innermost frame of the scope in
force only, and only those that it declares. All others are found from every scope that was there
in the frame in which they were found before, or not at all. An assignment binds nothing in any
frame. -/
theorem names_stay (fuel : Nat) (m m' : Machine) :
    (∀ e, (eval fuel e m).state? = some m' → m.store.SameNames m'.store) ∧
    (∀ s, (exec fuel s m).state? = some m' → m.store.Adds m.scope.head? s.declares m'.store ∧
      ∀ scope x, (∀ frame ∈ scope, frame < m.store.frames.size) → x ∉ s.declares →
        m'.store.frame? scope x = m.store.frame? scope x) ∧
    (∀ body, (exec fuel (.block body) m).state? = some m' → m.store.SameNames m'.store) ∧
    ∀ x depth v, (assign x depth v m).state? = some m' →
      ∀ frame y, m'.store.binds frame y = m.store.binds frame y := by
  refine ⟨fun e ends => ?_, fun s ends => ?_, fun body ends => ?_, fun x depth v => binds_assign⟩
  · exact ((evolving fuel).1 e m).sameNames ends
  · have added := (Ends.state? (adding_exec fuel s m) ends).store
    exact ⟨added, fun scope x inside other => added.frame?_eq other inside⟩
  · cases fuel with
    | zero => cases ends
    | succ fuel => exact (Evolving.block (evolving fuel).2 body m).sameNames ends

/-- `{ fun f(p) { -p; } f(nil); }` -/
def failingBlock : Stmt :=
  .block [
    .function ⟨⟨.identifier, "f", 1⟩, [⟨.identifier, "p", 1⟩],
      [.expr (.unary ⟨.symbol .minus, "-", 1⟩ (.name ⟨.identifier, "p", 1⟩ (some 0)))]⟩,
    .expr (.call (.name ⟨.identifier, "f", 1⟩ (some 0)) ⟨.symbol .rightParen, ")", 1⟩
      [.literal .nil])]

/-- The call fails, and neither the function nor its parameter is global. -/
theorem failingBlock_unknown : ∃ m,
    exec 6 failingBlock (.initial fun _ => 0) =
      .failed ⟨⟨.symbol .minus, "-", 1⟩, .negatedNonNumber⟩ m ∧
    ∀ x ∈ ["f", "p"], m.store.frame? Machine.globalScope x = none := by
  obtain ⟨m, fails⟩ : ∃ m, exec 6 failingBlock (.initial fun _ => 0) =
    .failed ⟨⟨.symbol .minus, "-", 1⟩, .negatedNonNumber⟩ m := ⟨_, rfl⟩
  have inside : ∀ frame ∈ Machine.globalScope,
      frame < (Machine.initial fun _ => 0).store.frames.size := by decide
  have unknown : ∀ x ∈ ["f", "p"],
      (Machine.initial fun _ => 0).store.frame? Machine.globalScope x = none := by decide
  refine ⟨m, fails, fun x hx => ?_⟩
  have stay := (names_stay 6 (.initial fun _ => 0) m).2.1 failingBlock (by rw [fails]; rfl)
  rw [stay.2 _ x inside List.not_mem_nil, unknown x hx]

end LoxLang
