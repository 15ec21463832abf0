import LoxLang.Proofs.Alike
import LoxLang.Proofs.History
import LoxLang.Proofs.MethodLookup

/-!
# What there is has been made before

A class is made after the class that it inherits from, and an object after its
class. Nothing undoes that: the numbers of the declarations in the chain of a
class go down, whatever the names of these classes are bound to by then, so no
class comes up twice in a chain. An object that some variable or field refers
to is one of those that have been made, so a new object is none that the program
can have seen. And every class has been made by a declaration, so what it has
under the name of initializers is one, and nothing else is.

This holds of any tree and of any machine, resolved or not.
-/

namespace LoxLang

open LoxLang.Action MachineM

/-! ## What has been made -/

/-- The declarations of the class were made one before the other, its own last, and all of them
before the next number was due. Each has put its methods under their names. -/
structure Class.Made (k : Class) (next : Nat) : Prop where
  descends : (next :: k.layers.map (·.id)).Pairwise (· > ·)
  initializers : ∀ layer ∈ k.layers, ∀ entry ∈ layer.methods,
    entry.2.isInitializer = true ↔ entry.1 = initializerName

/-- The classes in the value have been made in their order, and its object has been made. -/
def Value.Made (m : Machine) : Value → Prop
  | .object id k => id < m.fields.size ∧ k.Made m.nextId
  | .ofClass k => k.Made m.nextId
  | .nil | .bool _ | .number _ | .string _ | .clock | .function .. => True

/-- The same for the value that a statement returns. -/
def Flow.Made (m : Machine) : Flow → Prop
  | .next => True
  | .returned v => v.Made m

namespace Machine

/-- A variable or a field has the value. -/
def Has (m : Machine) (v : Value) : Prop :=
  (∃ frame x, m.store.read? frame x = some v) ∨
    ∃ (id : Nat) (x : String), m.fields[id]?.bind (·.get? x) = some v

/-- Everything in the machine has been made. -/
def Founded (m : Machine) : Prop := ∀ v, m.Has v → v.Made m

/-- What has been made is not unmade. -/
structure Grows (m m' : Machine) : Prop where
  objects : m.fields.size ≤ m'.fields.size
  next : m.nextId ≤ m'.nextId

variable {m m' m'' : Machine} {v : Value}

theorem Grows.refl (m : Machine) : m.Grows m := ⟨Nat.le_refl _, Nat.le_refl _⟩

theorem Grows.trans (h : m.Grows m') (h' : m'.Grows m'') : m.Grows m'' :=
  ⟨Nat.le_trans h.objects h'.objects, Nat.le_trans h.next h'.next⟩

end Machine

section Made

variable {m m' : Machine} {k : Class} {v : Value} {x : String}

theorem Class.Made.mono {n n' : Nat} (h : k.Made n) (le : n ≤ n') : k.Made n' := by
  obtain ⟨above, down⟩ := List.pairwise_cons.1 h.descends
  refine ⟨List.pairwise_cons.2 ⟨fun id hid => ?_, down⟩, h.initializers⟩
  exact Nat.lt_of_lt_of_le (above id hid) le

/-- A method that the class has under some name is an initializer if it is their name. -/
theorem Class.Made.isInitializer_iff {next : Nat} (h : k.Made next) {method : Closure}
    (provides : k.Provides x method) : method.isInitializer = true ↔ x = initializerName := by
  obtain ⟨nearer, layer, further, layers, found, -⟩ := provides
  obtain ⟨before, after, entries, -⟩ := List.lookup_eq_some_iff.1 found
  refine h.initializers layer (by rw [layers]; simp) (x, method) ?_
  rw [entries]
  simp

theorem Value.Made.mono (h : v.Made m) (grows : m.Grows m') : v.Made m' := by
  cases v with
  | object id k => exact ⟨Nat.lt_of_lt_of_le h.1 grows.objects, h.2.mono grows.next⟩
  | ofClass k => exact Class.Made.mono h grows.next
  | _ => trivial

theorem Value.IsData.made (h : v.IsData) : v.Made m := by
  cases h <;> trivial

theorem Literal.value_made (l : Literal) : (l.value : Value).Made m := by
  cases l <;> trivial

theorem Flow.Made.value {flow : Flow} (h : flow.Made m) : flow.value.Made m := by
  cases flow with
  | next => trivial
  | returned v => exact h

end Made

/-! ## Machines -/

namespace Machine.Founded

variable {m : Machine} {v : Value} {x : String}

theorem get? {scope : Scope} (h : m.Founded) (found : m.store.get? scope x = some v) :
    v.Made m := by
  obtain ⟨frame, -, read⟩ := Option.bind_eq_some_iff.1 found
  exact h v (.inl ⟨_, _, read⟩)

theorem getAt? {scope : Scope} {distance : Nat} (h : m.Founded)
    (found : m.store.getAt? scope distance x = some v) : v.Made m := by
  obtain ⟨frame, -, read⟩ := Option.bind_eq_some_iff.1 found
  exact h v (.inl ⟨_, _, read⟩)

theorem write (h : m.Founded) (frame : Nat) (x : String) (hv : v.Made m) :
    Machine.Founded { m with store := m.store.write frame x v } := by
  rintro w (⟨other, y, read⟩ | field)
  · rw [Store.read?_write] at read
    split at read
    · cases read
      exact hv
    · exact h w (.inl ⟨_, _, read⟩)
  · exact h w (.inr field)

theorem define (h : m.Founded) (scope : Scope) (x : String) (hv : v.Made m) :
    Machine.Founded { m with store := m.store.define scope x v } := by
  cases scope with
  | nil => exact h
  | cons frame outer => exact h.write frame x hv

theorem enter (h : m.Founded) (outer : Scope) :
    Machine.Founded { m with store := (m.store.enter outer).2 } := by
  rintro w (⟨frame, x, read⟩ | field)
  · rw [Store.read?_enter] at read
    exact h w (.inl ⟨_, _, read⟩)
  · exact h w (.inr field)

theorem setField (h : m.Founded) (id : Nat) (x : String) (hv : v.Made m) :
    Machine.Founded { m with fields := m.fields.modify id (·.set x v) } := by
  have grows : m.Grows { m with fields := m.fields.modify id (·.set x v) } :=
    ⟨Nat.le_of_eq Array.size_modify.symm, Nat.le_refl _⟩
  rintro w (bound | ⟨id', y, read⟩)
  · exact (h w (.inl bound)).mono grows
  · rw [Array.getElem?_modify] at read
    split at read
    · obtain ⟨b, hb, hw⟩ := Option.bind_eq_some_iff.1 read
      obtain ⟨b, hb', rfl⟩ := Option.map_eq_some_iff.1 hb
      rw [Bindings.get?_set] at hw
      split at hw
      · cases hw
        exact hv.mono grows
      · exact (h w (.inr ⟨id', y, by rw [hb']; exact hw⟩)).mono grows
    · exact (h w (.inr ⟨_, _, read⟩)).mono grows

theorem newObject (h : m.Founded) : Machine.Founded { m with fields := m.fields.push .empty } := by
  have grows : m.Grows { m with fields := m.fields.push .empty } :=
    ⟨by rw [Array.size_push]; omega, Nat.le_refl _⟩
  rintro w (bound | ⟨id, x, read⟩)
  · exact (h w (.inl bound)).mono grows
  · rw [Array.getElem?_push] at read
    split at read
    · cases read
    · exact (h w (.inr ⟨_, _, read⟩)).mono grows

theorem newNumber (h : m.Founded) : Machine.Founded { m with nextId := m.nextId + 1 } :=
  fun v hv => (h v hv).mono ⟨Nat.le_refl _, Nat.le_succ _⟩

end Machine.Founded

/-! ## Actions -/

namespace MachineM

variable {α β : Type} {m : Machine} {act : MachineM α} {ok ok' : α → Machine → Prop}

/-- The action keeps what has been made, and what it leaves in the machine has been made. It ends
with a value as described. -/
def Founds (act : MachineM α) (m : Machine) (ok : α → Machine → Prop) : Prop :=
  act.Ends m (fun a m' => m.Grows m' ∧ m'.Founded ∧ ok a m') fun _ m' => m.Grows m' ∧ m'.Founded

theorem Founds.pure {a : α} (hm : m.Founded) (h : ok a m) : Founds (pure a) m ok :=
  ⟨.refl m, hm, h⟩

theorem Founds.raise {token : Token} {fault : Fault} (hm : m.Founded) :
    Founds (raise token fault) m ok := ⟨.refl m, hm⟩

theorem Founds.exhausted : Founds (exhausted : MachineM α) m ok := trivial

theorem Founds.bind {next : α → MachineM β} {ok' : β → Machine → Prop} (h : Founds act m ok)
    (hn : ∀ a m', m.Grows m' → m'.Founded → ok a m' → Founds (next a) m' ok') :
    Founds (act >>= next) m ok' := by
  unfold Founds
  rw [ends_bind]
  refine h.mono (fun a m' ⟨grows, hm', ha⟩ => ?_) fun _ _ => id
  exact (hn a m' grows hm' ha).mono (fun _ _ h => ⟨grows.trans h.1, h.2⟩) fun _ _ h =>
    ⟨grows.trans h.1, h.2⟩

theorem Founds.mono (h : Founds act m ok) (hok : ∀ a m', ok a m' → ok' a m') :
    Founds act m ok' :=
  Ends.mono h (fun _ _ h => ⟨h.1, h.2.1, hok _ _ h.2.2⟩) fun _ _ => id

theorem Founds.ite {p : Prop} [Decidable p] {other : MachineM α} (h : Founds act m ok)
    (h' : Founds other m ok) : Founds (if p then act else other) m ok := by
  split
  · exact h
  · exact h'

theorem Founds.settle {token : Token} {r : Except Fault α} (hm : m.Founded)
    (hok : ∀ a, r = .ok a → ok a m) : Founds (settle token r) m ok :=
  ends_settle (fun a ha => ⟨.refl m, hm, hok a ha⟩) fun _ _ => ⟨.refl m, hm⟩

/-- Something read off the machine, and what is done with it. -/
theorem Founds.read_bind {f : Machine → α} {next : α → MachineM β} {ok : β → Machine → Prop}
    (h : Founds (next (f m)) m ok) : Founds (read f >>= next) m ok := h

/-- Which scope is in force makes no difference. -/
theorem Founds.inScope {scope : Scope} (h : Founds act { m with scope := scope } ok)
    (same : ∀ a m', ok a m' → ok a { m' with scope := m.scope }) :
    Founds (inScope scope act) m ok :=
  ends_inScope.2 (Ends.mono h
    (fun _ _ h => ⟨⟨h.1.objects, h.1.next⟩, h.2.1, same _ _ h.2.2⟩)
    fun _ _ h => ⟨⟨h.1.objects, h.1.next⟩, h.2⟩)

theorem Founds.counted (h : Founds act { m with calls := m.calls + 1 } ok)
    (same : ∀ a m', ok a m' → ok a { m' with calls := m'.calls - 1 }) :
    Founds (counted act) m ok :=
  ends_counted.2 (Ends.mono h
    (fun _ _ h => ⟨⟨h.1.objects, h.1.next⟩, h.2.1, same _ _ h.2.2⟩)
    fun _ _ h => ⟨⟨h.1.objects, h.1.next⟩, h.2⟩)

/-! ### Primitive actions -/

section Primitives

variable {v : Value} {x : String} {name : Token} {k : Class}

theorem Founds.define (hm : m.Founded) (hv : v.Made m) :
    Founds (define x v) m fun _ _ => True :=
  ⟨⟨Nat.le_refl _, Nat.le_refl _⟩, hm.define m.scope x hv, trivial⟩

theorem Founds.setField {id : Nat} (hm : m.Founded) (hv : v.Made m) :
    Founds (setField id x v) m fun _ _ => True :=
  ⟨⟨Nat.le_of_eq Array.size_modify.symm, Nat.le_refl _⟩, hm.setField id x hv, trivial⟩

theorem Founds.print {line : String} (hm : m.Founded) : Founds (print line) m fun _ _ => True :=
  ⟨⟨Nat.le_refl _, Nat.le_refl _⟩, hm, trivial⟩

theorem Founds.newFunction {f : Closure} (hm : m.Founded) :
    Founds (newFunction f) m fun v m' => v.Made m' :=
  ⟨⟨Nat.le_refl _, Nat.le_succ _⟩, hm.newNumber, trivial⟩

theorem isInitializer_of_methodTable {scope : Scope} {methods : List FunctionDecl} :
    ∀ entry ∈ methodTable scope methods,
      entry.2.isInitializer = true ↔ entry.1 = initializerName := by
  intro entry member
  obtain ⟨f, -, rfl⟩ := List.mem_map.1 member
  exact beq_iff_eq

/-- A new class has the greatest number. -/
theorem Founds.newClass {className : String} {parent : Option Class} {scope : Scope}
    {methods : List FunctionDecl} (hm : m.Founded) (hp : ∀ k ∈ parent, k.Made m.nextId) :
    Founds (newClass className parent scope methods) m fun k m' => k.Made m'.nextId := by
  refine ⟨⟨Nat.le_refl _, Nat.le_succ _⟩, hm.newNumber, ?_, ?_⟩
  · have above : ∀ ids : List Nat, (m.nextId :: ids).Pairwise (· > ·) →
        ((m.nextId + 1) :: m.nextId :: ids).Pairwise (· > ·) := by
      intro ids down
      refine List.pairwise_cons.2 ⟨fun id hid => ?_, down⟩
      rcases List.mem_cons.1 hid with rfl | hid
      · exact Nat.lt_succ_self _
      · exact Nat.lt_succ_of_lt ((List.pairwise_cons.1 down).1 id hid)
    cases parent with
    | none => exact above [] (List.pairwise_singleton ..)
    | some k => exact above _ (hp k rfl).descends
  · intro layer member
    rcases List.mem_cons.1 member with rfl | member
    · exact isInitializer_of_methodTable
    · cases parent with
      | none => cases member
      | some k => exact (hp k rfl).initializers layer member

theorem Founds.newObject (hm : m.Founded) (hk : k.Made m.nextId) :
    Founds (newObject k) m fun v m' => v.Made m' :=
  ⟨⟨by rw [Array.size_push]; omega, Nat.le_refl _⟩, hm.newObject,
    by rw [Array.size_push]; exact Nat.lt_succ_self _, hk⟩

theorem Founds.lookUp {depth : Option Nat} (hm : m.Founded) :
    Founds (lookUp name depth) m fun v m' => v.Made m' := by
  unfold Founds Ends MachineM.lookUp
  cases depth with
  | some distance =>
      dsimp only
      cases found : m.store.getAt? m.scope distance name.lexeme with
      | some v => exact ⟨.refl m, hm, hm.getAt? found⟩
      | none => exact ⟨.refl m, hm⟩
  | none =>
      dsimp only
      cases found : m.store.get? Machine.globalScope name.lexeme with
      | some v => exact ⟨.refl m, hm, hm.get? found⟩
      | none => exact ⟨.refl m, hm⟩

theorem Founds.assign {depth : Option Nat} (hm : m.Founded) (hv : v.Made m) :
    Founds (assign name depth v) m fun _ _ => True := by
  unfold Founds Ends MachineM.assign
  cases depth with
  | some distance =>
      dsimp only
      cases m.store.frameAt? m.scope distance name.lexeme with
      | some frame => exact ⟨⟨Nat.le_refl _, Nat.le_refl _⟩, hm.write frame _ hv, trivial⟩
      | none => exact ⟨.refl m, hm⟩
  | none =>
      dsimp only
      cases m.store.frame? Machine.globalScope name.lexeme with
      | some frame => exact ⟨⟨Nat.le_refl _, Nat.le_refl _⟩, hm.write frame _ hv, trivial⟩
      | none => exact ⟨.refl m, hm⟩

theorem Founds.assignClass (hm : m.Founded) (hk : k.Made m.nextId) :
    Founds (assignClass name k) m fun _ _ => True := by
  have made : (Value.ofClass k).Made m := hk
  unfold Founds Ends MachineM.assignClass
  cases m.store.frame? m.scope name.lexeme with
  | some frame => exact ⟨⟨Nat.le_refl _, Nat.le_refl _⟩, hm.write frame _ made, trivial⟩
  | none => exact ⟨.refl m, hm⟩

/-- A new frame with one name in it. -/
theorem Founds.openWith {outer : Scope} {next : Scope → MachineM α} (hm : m.Founded)
    (hv : v.Made m) (hn : ∀ m', m.Grows m' → m'.Founded →
      Founds (next (m.store.enter outer).1) m' ok) :
    Founds (openScope outer >>= fun scope => defineIn scope x v >>= fun _ => next scope) m ok := by
  have opened : m.Grows
      { m with store := (m.store.enter outer).2.define (m.store.enter outer).1 x v } :=
    ⟨Nat.le_refl _, Nat.le_refl _⟩
  have founded := (hm.enter outer).define (m.store.enter outer).1 x (v := v) hv
  exact Ends.mono (hn _ opened founded) (fun _ _ h => ⟨opened.trans h.1, h.2⟩) fun _ _ h =>
    ⟨opened.trans h.1, h.2⟩

theorem Founds.bindMethod {method : Closure} (hm : m.Founded) (hv : v.Made m) :
    Founds (bindMethod method v) m fun _ _ => True :=
  .openWith hm hv fun _ _ hm' => .pure hm' trivial

theorem Founds.property {id : Nat} (hm : m.Founded) (object : (Value.object id k).Made m) :
    Founds (property id k name) m fun v m' => v.Made m' := by
  refine .read_bind ?_
  split
  · next v field => exact .pure hm (hm v (.inr ⟨_, _, field⟩))
  · split
    · exact (Founds.bindMethod hm object).bind fun _ _ _ hm _ => .newFunction hm
    · exact .raise hm

theorem Founds.superMethod {keyword : Token} {depth : Option Nat} (hm : m.Founded) :
    Founds (superMethod keyword depth name) m fun v m' => v.Made m' := by
  unfold MachineM.superMethod
  split
  · exact .raise hm
  · refine .read_bind ?_
    split
    · refine .read_bind ?_
      split
      · next object =>
          split at object
          · cases object
          · split
            · exact (Founds.bindMethod hm (hm.getAt? object)).bind fun _ _ _ hm _ =>
                .newFunction hm
            · exact .raise hm
      · exact .raise hm
    · exact .raise hm

end Primitives

/-! ### Calls -/

theorem Founds.bindParameters {scope : Scope} {ps : List Token} {vs : List Value}
    (hm : m.Founded) (hv : ∀ v ∈ vs, v.Made m) :
    Founds (bindParameters scope ps vs) m fun _ _ => True := by
  induction ps generalizing m vs with
  | nil => exact .pure hm trivial
  | cons p ps ih =>
      cases vs with
      | nil => exact .pure hm trivial
      | cons v vs =>
          obtain ⟨head, tail⟩ := List.forall_mem_cons.1 hv
          exact Ends.mono (ih (hm.define scope p.lexeme head) tail)
            (fun _ _ h => ⟨⟨h.1.objects, h.1.next⟩, h.2⟩) fun _ _ h =>
              ⟨⟨h.1.objects, h.1.next⟩, h.2⟩

theorem Founds.entered {f : Closure} {vs : List Value} (hm : m.Founded)
    (hv : ∀ v ∈ vs, v.Made m) : Founds (entered f vs) m fun _ _ => True := by
  have opened : Founds (openScope f.scope) m fun _ m' => ∀ v ∈ vs, v.Made m' :=
    ⟨⟨Nat.le_refl _, Nat.le_refl _⟩, hm.enter f.scope, hv⟩
  exact opened.bind fun _ _ _ hm hv => (Founds.bindParameters hm hv).bind fun _ _ _ hm _ =>
    .pure hm trivial

/-- A way to run statements keeps what has been made. -/
def FoundsBodies (run : List Stmt → MachineM Flow) : Prop :=
  ∀ body m, m.Founded → Founds (run body) m fun flow m' => flow.Made m'

section Calls

variable {run : List Stmt → MachineM Flow}

theorem Founds.enter (hrun : FoundsBodies run) {f : Closure} {vs : List Value} (hm : m.Founded)
    (hv : ∀ v ∈ vs, v.Made m) : Founds (enter run f vs) m fun v m' => v.Made m' := by
  rw [enter_eq]
  refine (Founds.entered hm hv).bind fun scope m' _ hm' _ => ?_
  have body := hrun f.declaration.body { m' with scope := scope } hm'
  refine (Founds.inScope body fun _ _ => id).bind fun flow m'' _ hm'' made => ?_
  split
  · refine ⟨.refl m'', hm'', ?_⟩
    show ((m''.store.getAt? f.scope 0 "this").getD .nil).Made m''
    cases found : m''.store.getAt? f.scope 0 "this" with
    | some v => exact hm''.getAt? found
    | none => trivial
  · exact .pure hm'' made.value

theorem Founds.invoke (hrun : FoundsBodies run) {callee : Value} {callable : Callable}
    {vs : List Value} (hm : m.Founded) (hc : callee.Made m)
    (accepts : callee.callable? = some callable) (hv : ∀ v ∈ vs, v.Made m) :
    Founds (invoke run callable vs) m fun v m' => v.Made m' := by
  cases callee with
  | nil | bool | number | string | object => cases accepts
  | clock =>
      cases accepts
      exact ⟨⟨Nat.le_refl _, Nat.le_refl _⟩, hm, trivial⟩
  | function id f =>
      cases accepts
      exact .enter hrun hm hv
  | ofClass k =>
      cases accepts
      refine (Founds.newObject hm hc).bind fun object m1 grows hm1 made => ?_
      split
      · refine (Founds.bindMethod hm1 made).bind fun f m2 grows' hm2 _ => ?_
        have arguments : ∀ v ∈ vs, v.Made m2 := fun v h => (hv v h).mono (grows.trans grows')
        exact (Founds.enter hrun hm2 arguments).bind fun _ m3 grows'' hm3 _ =>
          .pure hm3 ((made.mono grows').mono grows'')
      · exact .pure hm1 made

theorem Founds.apply (hrun : FoundsBodies run) {paren : Token} {callee : Value}
    {vs : List Value} (hm : m.Founded) (hc : callee.Made m) (hv : ∀ v ∈ vs, v.Made m) :
    Founds (apply run paren callee vs) m fun v m' => v.Made m' := by
  refine ends_apply (fun _ _ => ⟨.refl m, hm⟩) fun callable accepts _ _ => ?_
  have counting : Machine.Founded { m with calls := m.calls + 1 } := hm
  exact Founds.counted (.invoke hrun counting hc accepts hv) fun _ _ => id

end Calls

/-! ### Expressions and statements -/

theorem Founds.evalAll {run : Expr → MachineM Value}
    (hrun : ∀ e m, m.Founded → Founds (run e) m fun v m' => v.Made m') (hm : m.Founded)
    (es : List Expr) : Founds (evalAll run es) m fun vs m' => ∀ v ∈ vs, v.Made m' := by
  induction es generalizing m with
  | nil => exact .pure hm nofun
  | cons e es ih =>
      refine (hrun e m hm).bind fun v m' _ hm' hv => (ih hm').bind fun vs m'' grows hm'' hvs => ?_
      exact .pure hm'' (List.forall_mem_cons.2 ⟨hv.mono grows, hvs⟩)

theorem Founds.execAll {run : Stmt → MachineM Flow}
    (hrun : ∀ s m, m.Founded → Founds (run s) m fun flow m' => flow.Made m') :
    FoundsBodies (execAll run) := by
  intro ss
  induction ss with
  | nil => exact fun _ hm => .pure hm trivial
  | cons s ss ih =>
      refine fun m hm => (hrun s m hm).bind fun flow m' _ hm' made => ?_
      cases flow with
      | next => exact ih m' hm'
      | returned v => exact .pure hm' made

theorem Founds.loop {test : MachineM Value} {body : MachineM Flow}
    (htest : ∀ m, m.Founded → Founds test m fun v m' => v.Made m')
    (hbody : ∀ m, m.Founded → Founds body m fun flow m' => flow.Made m') (left : Nat) :
    ∀ m, m.Founded → Founds (loop test body left) m fun flow m' => flow.Made m' := by
  induction left with
  | zero => exact fun _ _ => .exhausted
  | succ left ih =>
      refine fun m hm => (htest m hm).bind fun v m' _ hm' _ => .ite ?_ (.pure hm' trivial)
      refine (hbody m' hm').bind fun flow m'' _ hm'' made => ?_
      cases flow with
      | next => exact ih m'' hm''
      | returned v => exact .pure hm'' made

theorem Founds.declareClass {name : Token} {superclass : Option (Token × MachineM Value)}
    (hs : ∀ p ∈ superclass, ∀ m, m.Founded → Founds p.2 m fun v m' => v.Made m')
    (methods : List FunctionDecl) (hm : m.Founded) :
    Founds (declareClass name superclass methods) m fun _ _ => True := by
  refine (Founds.define (v := .nil) hm trivial).bind fun _ m' _ hm' _ => .read_bind ?_
  split
  · have above : ∀ k ∈ (none : Option Class), k.Made m'.nextId := nofun
    exact (Founds.newClass hm' above).bind fun _ _ _ hm hk => .assignClass hm hk
  · next token value =>
      refine (hs _ rfl m' hm').bind fun v m1 _ hm1 made => ?_
      split
      · next parent =>
          refine .openWith hm1 made fun m2 grows hm2 => ?_
          have above : ∀ k ∈ some parent, k.Made m2.nextId := by
            rintro _ ⟨⟩
            exact Class.Made.mono made grows.next
          exact (Founds.newClass hm2 above).bind fun _ _ _ hm hk => .assignClass hm hk
      · exact .raise hm1

/-- Whatever is evaluated has been made. -/
theorem founding (fuel : Nat) :
    (∀ e m, m.Founded → Founds (eval fuel e) m fun v m' => v.Made m') ∧
      ∀ s m, m.Founded → Founds (exec fuel s) m fun flow m' => flow.Made m' := by
  induction fuel with
  | zero => exact ⟨fun _ _ _ => .exhausted, fun _ _ _ => .exhausted⟩
  | succ fuel ih =>
      obtain ⟨heval, hexec⟩ := ih
      constructor
      · intro e m hm
        cases e with
        | literal value => exact .pure hm (Literal.value_made value)
        | group inner => exact heval inner m hm
        | unary operator operand =>
            exact (heval operand m hm).bind fun v m' _ hm' _ =>
              .settle hm' fun w value => (Value.unary_isData value).made
        | binary left operator right =>
            exact (heval left m hm).bind fun v m' _ hm' _ =>
              (heval right m' hm').bind fun w m'' _ hm'' _ =>
                .settle hm'' fun u value => (Value.binary_isData value).made
        | logical left operator right =>
            exact (heval left m hm).bind fun _ m' _ hm' made =>
              .ite (.pure hm' made) (heval right m' hm')
        | name x depth => exact .lookUp hm
        | assign x depth value =>
            refine (heval value m hm).bind fun v m' _ hm' made => ?_
            exact (Founds.assign hm' made).bind fun _ _ grows hm'' _ =>
              .pure hm'' (made.mono grows)
        | call callee paren arguments =>
            refine (heval callee m hm).bind fun f m' _ hm' made => ?_
            exact (Founds.evalAll heval hm' arguments).bind fun vs m'' grows hm'' hvs =>
              .apply (.execAll hexec) hm'' (made.mono grows) hvs
        | get object name =>
            refine (heval object m hm).bind fun v m' _ hm' made => ?_
            split
            · exact .property hm' made
            · exact .raise hm'
        | set object name value =>
            refine (heval object m hm).bind fun v m' _ hm' _ => ?_
            split
            · refine (heval value m' hm').bind fun w m'' _ hm'' made => ?_
              exact (Founds.setField hm'' made).bind fun _ _ grows hm3 _ =>
                .pure hm3 (made.mono grows)
            · exact .raise hm'
        | this keyword depth => exact .lookUp hm
        | super keyword depth method => exact .superMethod hm
      · intro s m hm
        cases s with
        | expr value => exact (heval value m hm).bind fun _ _ _ hm' _ => .pure hm' trivial
        | print value =>
            exact (heval value m hm).bind fun _ _ _ hm' _ =>
              (Founds.print hm').bind fun _ _ _ hm'' _ => .pure hm'' trivial
        | var name initial =>
            cases initial with
            | none =>
                exact (Founds.define (v := .nil) hm trivial).bind fun _ _ _ hm' _ =>
                  .pure hm' trivial
            | some e =>
                exact (heval e m hm).bind fun _ _ _ hm' made =>
                  (Founds.define hm' made).bind fun _ _ _ hm'' _ => .pure hm'' trivial
        | block body =>
            have opened : Founds (openScope m.scope) m fun _ _ => True :=
              ⟨⟨Nat.le_refl _, Nat.le_refl _⟩, hm.enter m.scope, trivial⟩
            refine .read_bind (opened.bind fun scope m' _ hm' _ => ?_)
            exact Founds.inScope (Founds.execAll hexec body { m' with scope := scope } hm')
              fun _ _ => id
        | ifThen condition consequent =>
            exact (heval condition m hm).bind fun _ m' _ hm' _ =>
              .ite (hexec consequent m' hm') (.pure hm' trivial)
        | ifElse condition consequent alternative =>
            exact (heval condition m hm).bind fun _ m' _ hm' _ =>
              .ite (hexec consequent m' hm') (hexec alternative m' hm')
        | whileDo condition body => exact .loop (heval condition) (hexec body) fuel m hm
        | function declaration =>
            refine .read_bind ?_
            exact (Founds.newFunction hm).bind fun _ _ _ hm' made =>
              (Founds.define hm' made).bind fun _ _ _ hm'' _ => .pure hm'' trivial
        | returning keyword value =>
            cases value with
            | none => exact .pure hm trivial
            | some e => exact (heval e m hm).bind fun _ _ _ hm' made => .pure hm' made
        | classDecl name superclass methods =>
            refine (Founds.declareClass (fun p hp m hm => ?_) methods hm).bind
              fun _ _ _ hm' _ => .pure hm' trivial
            obtain ⟨e, -, rfl⟩ := Option.map_eq_some_iff.1 hp
            exact heval e m hm

end MachineM

/-! ## Runs -/

section Runs

variable {m m' : Machine} {p p' : Point} {n n' : Nat}

theorem Runs.founded {callee : Value} {callable : Callable} {f : Closure}
    (h : Runs callable m f m') (hm : m.Founded) (hc : callee.Made m)
    (accepts : callee.callable? = some callable) : m.Grows m' ∧ m'.Founded := by
  cases h with
  | closure => exact ⟨.refl m, hm⟩
  | @construct k initializer _ _ _ found bound =>
      have made : k.Made m.nextId := by
        cases callee <;> cases accepts
        exact hc
      have founds : Founds (newObject k >>= bindMethod initializer) m fun _ _ => True :=
        (Founds.newObject hm made).bind fun _ _ _ hm1 object => .bindMethod hm1 object
      obtain ⟨grows, hm', -⟩ := founds.done bound
      exact ⟨grows, hm'⟩

theorem Leads.founded (h : Leads n p m n' p' m') (hm : m.Founded) : m'.Founded := by
  have evaluated : ∀ {n e v m m'}, eval n e m = .done v m' → m.Founded →
      m.Grows m' ∧ m'.Founded ∧ v.Made m' :=
    fun value hm => ((founding _).1 _ _ hm).done value
  have executed : ∀ {n s flow m m'}, exec n s m = .done flow m' → m.Founded → m'.Founded :=
    fun ends hm => (((founding _).2 _ _ hm).done ends).2.1
  cases h with
  | first | argument | value | initializer | loop | test | statement => exact hm
  | second _ before | arguments before | moreArguments before | branch _ before | round before =>
      exact (evaluated before hm).2.1
  | call callee arguments accepts _ _ starts =>
      obtain ⟨-, hm1, made⟩ := evaluated callee hm
      obtain ⟨grows, hm2, hvs⟩ := (Founds.evalAll (founding _).1 hm1 _).done arguments
      obtain ⟨f, m1, scope, m2, runs, entered, rfl, rfl⟩ := starts.runs
      obtain ⟨further, hm3⟩ := runs.founded hm2 (made.mono ⟨grows.1, grows.2⟩) accepts
      exact ((Founds.entered hm3 fun v h => (hvs v h).mono ⟨further.1, further.2⟩).done entered).2.1
  | superclass before =>
      cases before
      exact hm.define m.scope _ (v := .nil) trivial
  | block entered =>
      cases entered
      exact hm.enter m.scope
  | moreRounds before _ body => exact executed body (evaluated before hm).2.1
  | moreStatements before => exact executed before hm

/-- What an evaluation leaves behind. -/
theorem Point.founds (p : Point) (fuel : Nat) (hm : m.Founded) :
    Founds (p.flow fuel) m fun _ _ => True := by
  cases p with
  | expr own e => exact ((founding fuel).1 e m hm).bind fun _ _ _ hm' _ => .pure hm' trivial
  | exprs own es =>
      exact (Founds.evalAll (founding fuel).1 hm es).bind fun _ _ _ hm' _ => .pure hm' trivial
  | stmt s => exact ((founding fuel).2 s m hm).mono fun _ _ _ => trivial
  | stmts ss => exact (Founds.execAll (founding fuel).2 ss m hm).mono fun _ _ _ => trivial
  | rounds left test body =>
      exact (Founds.loop ((founding fuel).1 test) ((founding fuel).2 body) left m hm).mono
        fun _ _ _ => trivial

end Runs

namespace Moment

variable {a b : Moment} {m : Machine}

theorem Reaches.founded (h : a.Reaches b) (ha : a.machine.Founded) : b.machine.Founded := by
  have visits : ∀ {n p m}, Visits a.fuel a.point a.machine n p m → m.Founded := by
    intro n p m h
    induction h with
    | start => exact ha
    | step _ leads ih => exact leads.founded ih
  exact visits h

theorem founded_of_state? (ha : a.machine.Founded) (ends : m ∈ a.outcome.state?) : m.Founded :=
  Ends.state? (Ends.mono (a.point.founds a.fuel ha) (fun _ _ h => h.2.1) fun _ _ h => h.2) ends

end Moment

namespace Session

variable {s s' : Session} {start : Point} {clock : Nat → Float}

theorem Follows.founded (h : s.Follows start s') (hs : s.machine.Founded) :
    s'.machine.Founded := by
  obtain ⟨fuel, ends⟩ := h.exists_state?
  exact Moment.founded_of_state? (a := s.moment fuel start) hs ends

theorem Step.founded (h : Step s s') (hs : s.machine.Founded) : s'.machine.Founded := by
  rcases h.cases with idle | ⟨start, -, follows⟩
  · rw [idle.machine]
    exact hs
  · exact follows.founded hs

/-- In every session that can be reached, what there is has been made before. -/
theorem Reachable.founded (h : s.Reachable clock) : s.machine.Founded := by
  induction h with
  | initial =>
      rintro v (⟨frame, x, read⟩ | ⟨id, x, read⟩)
      · change Store.read? ((Store.empty.enter []).2.write Machine.globalFrame "clock"
          Value.clock) _ _ = _ at read
        rw [Store.read?_write, Store.read?_enter] at read
        split at read <;> cases read
        trivial
      · cases read
  | step _ step ih => exact step.founded ih

end Session

namespace Moment

variable {a b : Moment} {clock : Nat → Float}

/-- The evaluation is part of a run of an accepted program or expression in a session. -/
def Happens (clock : Nat → Float) (a : Moment) : Prop :=
  ∃ (s : Session) (start : Point) (fuel : Nat), s.Reachable clock ∧ Accepted start ∧
    (s.moment fuel start).Reaches a

theorem Happens.sound (h : a.Happens clock) : a.Sound := by
  obtain ⟨s, start, fuel, reachable, accepted, reaches⟩ := h
  exact reaches.sound (reachable.sound.moment accepted)

theorem Happens.founded (h : a.Happens clock) : a.machine.Founded := by
  obtain ⟨s, start, fuel, reachable, -, reaches⟩ := h
  exact reaches.founded reachable.founded

theorem Later.founded (h : Later clock a b) : b.machine.Founded := by
  cases h with
  | inRun reachable _ earlier => exact earlier.reaches.2.founded reachable.founded
  | inSession reachable _ _ leaves meanwhile _ second =>
      refine second.founded ?_
      have left := leaves.follows.founded reachable.founded
      clear second
      induction meanwhile with
      | refl => exact left
      | tail _ step ih => exact step.founded ih

end Moment

end LoxLang
