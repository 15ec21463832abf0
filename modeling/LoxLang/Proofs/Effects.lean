import LoxLang.Proofs.Ends

/-!
# What evaluation leaves alone

For any tree and any machine: evaluation restores the scope in force and the
number of running calls, whatever its ending, and it never takes a name out of
a frame. An expression adds no name to a frame that was there before. A
statement adds names to one such frame at most, the innermost one of the scope
it runs in; every other scope in which names are defined is opened by the
evaluation itself.
-/

namespace LoxLang

/-! ## Stores -/

namespace Store

variable {α : Type}

/-- Nothing is unbound, and of the frames that are there only `grows` may bind new names. -/
structure Extends (grows : Option Nat) (s s' : Store α) : Prop where
  size : s.frames.size ≤ s'.frames.size
  kept : ∀ {frame : Nat} {x : String}, s.binds frame x = true → s'.binds frame x = true
  exact : ∀ {frame : Nat} {x : String}, frame < s.frames.size → some frame ≠ grows →
    s'.binds frame x = true → s.binds frame x = true

theorem Extends.refl {grows : Option Nat} (s : Store α) : s.Extends grows s :=
  ⟨Nat.le_refl _, id, fun _ _ => id⟩

/-- The frame that grows later may be a new one. -/
theorem Extends.trans {grows grows' : Option Nat} {s s' s'' : Store α} (h : s.Extends grows s')
    (h' : s'.Extends grows' s'')
    (hg : ∀ frame, grows' = some frame → grows = some frame ∨ s.frames.size ≤ frame) :
    s.Extends grows s'' where
  size := Nat.le_trans h.size h'.size
  kept hb := h'.kept (h.kept hb)
  exact {frame x} inside other hb := by
    refine h.exact inside other (h'.exact (Nat.lt_of_lt_of_le inside h.size) ?_ hb)
    intro heq
    rcases hg frame heq.symm with same | new
    · exact other same.symm
    · omega

theorem Extends.loosen {grows : Option Nat} {s s' : Store α} (h : s.Extends none s') :
    s.Extends grows s' :=
  ⟨h.size, h.kept, fun inside _ hb => h.exact inside nofun hb⟩

theorem size_write (s : Store α) (frame : Nat) (x : String) (v : α) :
    (s.write frame x v).frames.size = s.frames.size := Array.size_modify

theorem binds_write {s : Store α} {frame other : Nat} {x y : String} {v : α} :
    (s.write frame x v).binds other y = true ↔
      (other = frame ∧ y = x ∧ frame < s.frames.size) ∨ s.binds other y = true := by
  unfold binds
  rw [read?_write]
  split
  · next h => simp [h]
  · next h => simp [h]

theorem read?_of_size_le {s : Store α} {frame : Nat} (h : s.frames.size ≤ frame) (x : String) :
    s.read? frame x = none := by
  rw [read?, Array.getElem?_eq_none h]
  rfl

theorem lt_of_binds {s : Store α} {frame : Nat} {x : String} (h : s.binds frame x = true) :
    frame < s.frames.size := by
  rcases Nat.lt_or_ge frame s.frames.size with inside | outside
  · exact inside
  · rw [binds, read?, Array.getElem?_eq_none outside] at h
    cases h

theorem frame?_of_head {s : Store α} {scope : Scope} {frame : Nat} {x : String}
    (hh : scope.head? = some frame) (hb : s.binds frame x = true) :
    s.frame? scope x = some frame := by
  cases scope with
  | nil => cases hh
  | cons _ outer =>
      cases hh
      rw [frame?, List.find?_cons, hb]

theorem frame?_singleton (s : Store α) (frame : Nat) (x : String) :
    s.frame? [frame] x = if s.binds frame x then some frame else none := by
  rw [frame?, List.find?_singleton]

/-- A scope of one frame has the names of that frame. -/
theorem get?_singleton (s : Store α) (frame : Nat) (x : String) :
    s.get? [frame] x = s.read? frame x := by
  rw [get?, frame?_singleton]
  cases hr : s.read? frame x with
  | none => rw [if_neg (by rw [binds, hr]; nofun)]; rfl
  | some v => rw [if_pos (by rw [binds, hr]; rfl)]; exact hr

theorem binds_enter (s : Store α) (outer : Scope) (frame : Nat) (x : String) :
    (s.enter outer).2.binds frame x = s.binds frame x := by
  rw [binds, read?_enter, binds]

theorem size_enter (s : Store α) (outer : Scope) :
    (s.enter outer).2.frames.size = s.frames.size + 1 := Array.size_push _

theorem Extends.enter (s : Store α) (outer : Scope) :
    s.Extends none (s.enter outer).2 where
  size := by
    rw [size_enter]
    omega
  kept hb := by
    rw [binds_enter]
    exact hb
  exact _ _ hb := by
    rw [binds_enter] at hb
    exact hb

/-- Defining a name makes the innermost frame grow. -/
theorem Extends.define (s : Store α) (scope : Scope) (x : String) (v : α) :
    s.Extends scope.head? (s.define scope x v) := by
  cases scope with
  | nil => exact .refl s
  | cons frame outer =>
      refine ⟨Nat.le_of_eq (size_write ..).symm, fun hb => binds_write.2 (.inr hb), ?_⟩
      intro other y _ hne hb
      rcases binds_write.1 hb with ⟨rfl, -⟩ | hb
      · exact absurd rfl hne
      · exact hb

/-- Only a new frame grows if the name is defined there. -/
theorem Extends.define_enter (s : Store α) (outer : Scope) (x : String)
    (v : α) : s.Extends none ((s.enter outer).2.define (s.enter outer).1 x v) :=
  (Extends.enter s outer).trans (.define _ (s.enter outer).1 x v) fun _ h => by
    cases h
    exact .inr (Nat.le_refl _)

/-- Writing to a name that is bound makes no frame grow. -/
theorem Extends.write {grows : Option Nat} {s : Store α} {frame : Nat} {x : String}
    (h : s.binds frame x = true) (v : α) : s.Extends grows (s.write frame x v) := by
  refine ⟨Nat.le_of_eq (size_write ..).symm, fun hb => binds_write.2 (.inr hb), ?_⟩
  intro other y _ _ hb
  rcases binds_write.1 hb with ⟨rfl, rfl, -⟩ | hb
  · exact h
  · exact hb

theorem frame_of_frameAt? {s : Store α} {scope : Scope} {distance frame : Nat} {x : String}
    (h : s.frameAt? scope distance x = some frame) : scope[distance]? = some frame :=
  (Option.filter_eq_some_iff.1 h).1

theorem binds_of_frameAt? {s : Store α} {scope : Scope} {distance frame : Nat} {x : String}
    (h : s.frameAt? scope distance x = some frame) : s.binds frame x = true :=
  (Option.filter_eq_some_iff.1 h).2

theorem binds_of_frame? {s : Store α} {scope : Scope} {frame : Nat} {x : String}
    (h : s.frame? scope x = some frame) : s.binds frame x = true :=
  List.find?_some (p := (s.binds · x)) h

end Store

/-! ## Machines -/

/-- One machine before and one after an evaluation that may add names to the frame `grows`. -/
structure Machine.Evolves (grows : Option Nat) (m m' : Machine) : Prop where
  scope : m'.scope = m.scope
  calls : m'.calls = m.calls
  objects : m.fields.size ≤ m'.fields.size
  store : m.store.Extends grows m'.store

namespace Machine

variable {grows grows' : Option Nat} {m m' m'' : Machine}

theorem Evolves.refl (m : Machine) : m.Evolves grows m :=
  ⟨rfl, rfl, Nat.le_refl _, .refl _⟩

theorem Evolves.trans (h : m.Evolves grows m') (h' : m'.Evolves grows m'') :
    m.Evolves grows m'' :=
  ⟨h'.scope.trans h.scope, h'.calls.trans h.calls, Nat.le_trans h.objects h'.objects,
    h.store.trans h'.store fun _ => .inl⟩

theorem Evolves.loosen (h : m.Evolves none m') : m.Evolves grows m' :=
  ⟨h.scope, h.calls, h.objects, h.store.loosen⟩

/-- A machine that differs in nothing that counts here but its store. -/
theorem Evolves.of_store (hs : m'.scope = m.scope) (hc : m'.calls = m.calls)
    (hf : m'.fields = m.fields) (h : m.store.Extends grows m'.store) : m.Evolves grows m' :=
  ⟨hs, hc, Nat.le_of_eq (congrArg Array.size hf.symm), h⟩

end Machine

/-- The innermost frame of the scope in force binds the name. -/
def BindsHere (m : Machine) (x : String) : Prop :=
  ∃ frame, m.scope.head? = some frame ∧ m.store.binds frame x = true

theorem BindsHere.mono {m m' : Machine} {x : String} {grows : Option Nat} (h : BindsHere m x)
    (he : m.Evolves grows m') : BindsHere m' x := by
  obtain ⟨frame, hh, hb⟩ := h
  exact ⟨frame, by rw [he.scope]; exact hh, he.store.kept hb⟩

theorem BindsHere.of_define {m : Machine} {frame : Nat} {outer : Scope}
    (hs : m.scope = frame :: outer) (inside : frame < m.store.frames.size) (x : String)
    (v : Value) : BindsHere { m with store := m.store.define m.scope x v } x := by
  rw [hs]
  exact ⟨frame, rfl, Store.binds_write.2 (.inl ⟨rfl, rfl, inside⟩)⟩

namespace MachineM

open LoxLang.Action Machine

variable {α β : Type} {grows : Option Nat} {m : Machine} {act : MachineM α}

/-- Both ways to end leave the machine evolved. -/
def Evolving (grows : Option Nat) (act : MachineM α) (m : Machine) : Prop :=
  act.Ends m (fun _ m' => m.Evolves grows m') fun _ m' => m.Evolves grows m'

theorem Evolving.pure (a : α) : Evolving grows (pure a) m := .refl m

theorem Evolving.raise (token : Token) (fault : Fault) :
    Evolving grows (raise token fault : MachineM α) m := .refl m

theorem Evolving.exhausted : Evolving grows (exhausted : MachineM α) m := trivial

theorem Evolving.read (f : Machine → α) : Evolving grows (read f) m := .refl m

theorem Evolving.settle (token : Token) (r : Except Fault α) :
    Evolving grows (settle token r) m := by
  cases r with
  | ok a => exact .pure a
  | error fault => exact .raise token fault

/-- What evolves in a row evolves as a whole. -/
theorem Evolving.bind {next : α → MachineM β} (h : Evolving grows act m)
    (hn : ∀ a m', m.Evolves grows m' → Evolving grows (next a) m') :
    Evolving grows (act >>= next) m := by
  unfold Evolving
  rw [ends_bind]
  exact h.mono
    (fun a m' hm => (hn a m' hm).mono (fun _ _ => hm.trans) fun _ _ => hm.trans)
    fun _ _ => id

theorem Evolving.loosen (h : Evolving none act m) : Evolving grows act m :=
  h.mono (fun _ _ => .loosen) fun _ _ => .loosen

theorem Evolving.ite {p : Prop} [Decidable p] {other : MachineM α} (h : Evolving grows act m)
    (h' : Evolving grows other m) : Evolving grows (if p then act else other) m := by
  split
  · exact h
  · exact h'

theorem Evolving.define (x : String) (v : Value) : Evolving m.scope.head? (define x v) m :=
  .of_store rfl rfl rfl (.define ..)

theorem Evolving.print (line : String) : Evolving grows (print line) m :=
  .of_store rfl rfl rfl (.refl _)

theorem Evolving.setField (id : Nat) (x : String) (v : Value) :
    Evolving grows (setField id x v) m :=
  ⟨rfl, rfl, Nat.le_of_eq Array.size_modify.symm, .refl _⟩

theorem Evolving.newFunction (closure : Closure) : Evolving grows (newFunction closure) m :=
  .of_store rfl rfl rfl (.refl _)

theorem Evolving.newClass (name : String) (parent : Option Class) (scope : Scope)
    (methods : List FunctionDecl) : Evolving grows (newClass name parent scope methods) m :=
  .of_store rfl rfl rfl (.refl _)

theorem Evolving.lookUp (name : Token) (depth : Option Nat) :
    Evolving grows (lookUp name depth) m := by
  unfold Evolving Ends MachineM.lookUp
  cases depth with
  | some distance => dsimp only; cases m.store.getAt? m.scope distance name.lexeme <;> exact .refl m
  | none => dsimp only; cases m.store.get? globalScope name.lexeme <;> exact .refl m

theorem Evolving.assign (name : Token) (depth : Option Nat) (v : Value) :
    Evolving grows (assign name depth v) m := by
  unfold Evolving Ends MachineM.assign
  cases depth with
  | some distance =>
      dsimp only
      cases h : m.store.frameAt? m.scope distance name.lexeme with
      | none => exact .refl m
      | some frame => exact .of_store rfl rfl rfl (.write (Store.binds_of_frameAt? h) v)
  | none =>
      dsimp only
      cases h : m.store.frame? globalScope name.lexeme with
      | none => exact .refl m
      | some frame => exact .of_store rfl rfl rfl (.write (Store.binds_of_frame? h) v)

theorem Evolving.assignClass (name : Token) (k : Class) :
    Evolving grows (assignClass name k) m := by
  unfold Evolving Ends MachineM.assignClass
  cases h : m.store.frame? m.scope name.lexeme with
  | none => exact .refl m
  | some frame => exact .of_store rfl rfl rfl (.write (Store.binds_of_frame? h) _)

/-- A new frame with one name in it. -/
theorem Evolving.openWith {outer : Scope} {x : String} {v : Value} {next : Scope → MachineM α}
    (hn : ∀ m', m.Evolves grows m' → Evolving grows (next (m.store.enter outer).1) m') :
    Evolving grows
      (openScope outer >>= fun scope => defineIn scope x v >>= fun _ => next scope) m := by
  have opened : m.Evolves grows
      { m with store := (m.store.enter outer).2.define (m.store.enter outer).1 x v } :=
    .of_store rfl rfl rfl (Store.Extends.define_enter ..).loosen
  exact (hn _ opened).mono (fun _ _ => opened.trans) fun _ _ => opened.trans

theorem Evolving.bindMethod (method : Closure) (object : Value) :
    Evolving grows (bindMethod method object) m :=
  .openWith fun _ _ => .pure _

/-- What is run in a scope with a new innermost frame adds no name to an old frame. -/
theorem Evolving.inScope_fresh {frame : Nat} {outer : Scope} {before : Machine}
    (hb : before.Evolves none m) (fresh : before.store.frames.size ≤ frame)
    (h : Evolving (some frame) act { m with scope := frame :: outer }) :
    (inScope (frame :: outer) act).Ends m (fun _ m' => before.Evolves none m')
      fun _ m' => before.Evolves none m' := by
  rw [ends_inScope]
  refine h.mono (fun _ m' h => ?_) fun _ m' h => ?_
  all_goals
    exact ⟨hb.scope, h.calls.trans hb.calls, Nat.le_trans hb.objects h.objects,
      hb.store.trans h.store fun _ hf => by cases hf; exact .inr fresh⟩

theorem Evolving.bindParameters (scope : Scope) (ps : List Token) (vs : List Value) :
    Evolving scope.head? (bindParameters scope ps vs) m := by
  induction ps generalizing m vs with
  | nil => exact .pure ()
  | cons p ps ih =>
      cases vs with
      | nil => exact .pure ()
      | cons v vs =>
          have defined : Evolving scope.head? (defineIn scope p.lexeme v) m :=
            .of_store rfl rfl rfl (.define ..)
          exact defined.bind fun _ _ _ => ih vs

section Calls

variable {run : List Stmt → MachineM Flow}

/-- Names added to a frame that has just been opened are added to no old frame. -/
theorem Evolves.of_opened {m m' : Machine} {outer : Scope}
    (h : Machine.Evolves (some m.store.frames.size)
      { m with store := (m.store.enter outer).2 } m') : m.Evolves none m' := by
  have opened : m.store.Extends none (m.store.enter outer).2 := .enter ..
  refine ⟨h.scope, h.calls, h.objects, opened.trans h.store fun _ hf => ?_⟩
  cases hf
  exact .inr (Nat.le_refl _)

/-- A function defines names in the frame that its call opens. -/
theorem Evolving.enter (hrun : ∀ body m, Evolving m.scope.head? (run body) m) (c : Closure)
    (arguments : List Value) : Evolving none (enter run c arguments) m := by
  unfold Evolving MachineM.enter
  rw [ends_bind, ends_openScope, ends_bind]
  refine (Evolving.bindParameters (m.store.frames.size :: c.scope) _ arguments).mono
    (fun _ m' h => ?_) fun _ m' h => Evolves.of_opened h
  rw [ends_bind]
  refine (Evolving.inScope_fresh (Evolves.of_opened h) (Nat.le_refl _) (hrun _ _)).mono
    (fun flow m'' h => ?_) fun _ _ => id
  split
  · exact h
  · exact h

theorem Evolving.newObject (k : Class) : Evolving none (newObject k) m :=
  ⟨rfl, rfl, by rw [Array.size_push]; omega, .refl _⟩

theorem Evolving.invoke (hrun : ∀ body m, Evolving m.scope.head? (run body) m) (f : Callable)
    (arguments : List Value) : Evolving none (invoke run f arguments) m := by
  cases f with
  | clock => exact .of_store rfl rfl rfl (.refl _)
  | closure c => exact .enter hrun c arguments
  | construct k =>
      refine (Evolving.newObject k).bind fun object _ _ => ?_
      split
      · exact (Evolving.bindMethod ..).bind fun _ _ _ =>
          (Evolving.enter hrun ..).bind fun _ _ _ => .pure _
      · exact .pure _

theorem Evolving.apply (hrun : ∀ body m, Evolving m.scope.head? (run body) m) (paren : Token)
    (f : Value) (arguments : List Value) : Evolving grows (apply run paren f arguments) m := by
  refine Evolving.loosen (ends_apply (fun _ _ => .refl m) fun callable _ _ _ => ?_)
  rw [ends_counted]
  refine Ends.mono (Evolving.invoke hrun callable arguments) (fun _ m' h => ?_) fun _ m' h => ?_
  all_goals
    have calls : m'.calls = m.calls + 1 := h.calls
    exact ⟨h.scope, by show m'.calls - 1 = m.calls; omega, h.objects, h.store⟩

end Calls

theorem Evolving.property (id : Nat) (k : Class) (name : Token) :
    Evolving grows (property id k name) m := by
  refine (Evolving.read _).bind fun v _ _ => ?_
  split
  · exact .pure _
  · split
    · exact (Evolving.bindMethod ..).bind fun _ _ _ => .newFunction _
    · exact .raise ..

theorem Evolving.superMethod (keyword : Token) (depth : Option Nat) (method : Token) :
    Evolving grows (superMethod keyword depth method) m := by
  unfold MachineM.superMethod
  split
  · exact .raise ..
  · refine (Evolving.read _).bind fun parent _ _ => ?_
    split
    · refine (Evolving.read _).bind fun object _ _ => ?_
      split
      · split
        · exact (Evolving.bindMethod ..).bind fun _ _ _ => .newFunction _
        · exact .raise ..
      · exact .raise ..
    · exact .raise ..

theorem Evolving.evalAll {run : Expr → MachineM Value}
    (hrun : ∀ e m, Evolving grows (run e) m) (es : List Expr) :
    Evolving grows (evalAll run es) m := by
  induction es generalizing m with
  | nil => exact .pure _
  | cons e es ih => exact (hrun e m).bind fun _ _ _ => ih.bind fun _ _ _ => .pure _

theorem Evolving.execAll {run : Stmt → MachineM Flow}
    (hrun : ∀ s m, Evolving m.scope.head? (run s) m) (ss : List Stmt) :
    Evolving m.scope.head? (execAll run ss) m := by
  induction ss generalizing m with
  | nil => exact .pure _
  | cons s ss ih =>
      refine (hrun s m).bind fun flow m' hm => ?_
      split
      · rw [← hm.scope]
        exact ih
      · exact .pure _

theorem Evolving.loop {test : MachineM Value} {body : MachineM Flow}
    (htest : ∀ m, Evolving none test m) (hbody : ∀ m, Evolving m.scope.head? body m)
    (fuel : Nat) : Evolving m.scope.head? (loop test body fuel) m := by
  induction fuel generalizing m with
  | zero => exact .exhausted
  | succ fuel ih =>
      refine (htest m).loosen.bind fun v m' hm => .ite ?_ (.pure _)
      rw [← hm.scope]
      refine (hbody m').bind fun flow m'' hm => ?_
      split
      · rw [← hm.scope]
        exact ih
      · exact .pure _

theorem Evolving.declareClass {name : Token} {superclass : Option (Token × MachineM Value)}
    (hs : ∀ p ∈ superclass, ∀ m, Evolving none p.2 m) (methods : List FunctionDecl) :
    Evolving m.scope.head? (declareClass name superclass methods) m := by
  refine (Evolving.define _ _).bind fun _ m' _ => (Evolving.read _).bind fun scope m' _ => ?_
  split
  · exact (Evolving.newClass ..).bind fun _ _ _ => .assignClass ..
  · next token value heq =>
      refine (hs _ rfl m').loosen.bind fun v m' _ => ?_
      split
      · exact .openWith fun _ _ => (Evolving.newClass ..).bind fun _ _ _ => .assignClass ..
      · exact .raise ..

/-- A block changes names in frames of its own only. -/
theorem Evolving.block {fuel : Nat} (hexec : ∀ s m, Evolving m.scope.head? (exec fuel s) m)
    (body : List Stmt) (m : Machine) : Evolving none (exec (fuel + 1) (.block body)) m := by
  show Action.Ends _ _ _ _
  rw [exec, ends_bind, ends_read, ends_bind, ends_openScope]
  exact Evolving.inScope_fresh (.of_store rfl rfl rfl (.enter m.store m.scope)) (Nat.le_refl _)
    (.execAll hexec body)

/-- Evaluation leaves alone what the head of this file says, for every tree and every machine. -/
theorem evolving (fuel : Nat) :
    (∀ e m, Evolving none (eval fuel e) m) ∧
      ∀ s m, Evolving m.scope.head? (exec fuel s) m := by
  induction fuel with
  | zero => exact ⟨fun _ _ => .exhausted, fun _ _ => .exhausted⟩
  | succ fuel ih =>
      obtain ⟨heval, hexec⟩ := ih
      have hbody : ∀ body m, Evolving m.scope.head? (Action.execAll (exec fuel) body) m :=
        fun body _ => .execAll hexec body
      constructor
      · intro e m
        cases e with
        | literal value => exact .pure _
        | group inner => exact heval inner m
        | unary operator operand => exact (heval operand m).bind fun _ _ _ => .settle ..
        | binary left operator right =>
            exact (heval left m).bind fun _ m _ => (heval right m).bind fun _ _ _ => .settle ..
        | logical left operator right =>
            exact (heval left m).bind fun _ m _ => .ite (.pure _) (heval right m)
        | name x depth => exact .lookUp ..
        | assign x depth value =>
            exact (heval value m).bind fun _ _ _ => (Evolving.assign ..).bind fun _ _ _ => .pure _
        | call callee paren arguments =>
            exact (heval callee m).bind fun _ _ _ => (Evolving.evalAll heval _).bind fun _ _ _ =>
              .apply hbody ..
        | get object name =>
            refine (heval object m).bind fun v _ _ => ?_
            split
            · exact .property ..
            · exact .raise ..
        | set object name value =>
            refine (heval object m).bind fun v m _ => ?_
            split
            · exact (heval value m).bind fun _ _ _ => (Evolving.setField ..).bind fun _ _ _ =>
                .pure _
            · exact .raise ..
        | this keyword depth => exact .lookUp ..
        | super keyword depth method => exact .superMethod ..
      · intro s m
        cases s with
        | expr value => exact (heval value m).loosen.bind fun _ _ _ => .pure _
        | print value =>
            exact (heval value m).loosen.bind fun _ _ _ => (Evolving.print _).bind fun _ _ _ =>
              .pure _
        | var name initial =>
            cases initial with
            | none => exact (Evolving.define ..).bind fun _ _ _ => .pure _
            | some e =>
                refine (heval e m).loosen.bind fun v m' hm => ?_
                rw [← hm.scope]
                exact (Evolving.define ..).bind fun _ _ _ => .pure _
        | block body => exact (Evolving.block hexec body m).loosen
        | ifThen condition consequent =>
            refine (heval condition m).loosen.bind fun _ m' hm => .ite ?_ (.pure _)
            rw [← hm.scope]
            exact hexec ..
        | ifElse condition consequent alternative =>
            refine (heval condition m).loosen.bind fun _ m' hm => ?_
            rw [← hm.scope]
            exact .ite (hexec ..) (hexec ..)
        | whileDo condition body => exact .loop (heval condition) (hexec body) fuel
        | function declaration =>
            refine (Evolving.read _).bind fun _ _ hm => (Evolving.newFunction _).bind
              fun f _ hm' => ?_
            rw [← hm.scope, ← hm'.scope]
            exact (Evolving.define ..).bind fun _ _ _ => .pure _
        | returning keyword value =>
            cases value with
            | none => exact .pure _
            | some e => exact (heval e m).loosen.bind fun _ _ _ => .pure _
        | classDecl name superclass methods =>
            refine (Evolving.declareClass (fun p hp m => ?_) methods).bind fun _ _ _ => .pure _
            obtain ⟨e, -, rfl⟩ := Option.map_eq_some_iff.1 hp
            exact heval e m

end MachineM

end LoxLang
