import LoxLang.Proofs.Invariant

/-!
# Evaluation keeps the invariant

Resolved trees, run in scopes that stand where their contexts say, keep the
heap sound, and whatever they give is sound. A fault is one that a resolved
program can have: no occurrence with a depth is read in vain, `super` finds its
class and its object, and a global name is only reported if it is unbound at
that moment.
-/

namespace LoxLang

open LoxLang.Action MachineM Machine

/-- The fault is one that a resolved program can have in this machine. -/
def Located.Explained (fault : Located Fault) (m : Machine) : Prop :=
  match fault.error with
  | .unboundLocal | .unboundSuper | .unboundReceiver | .unboundClass => False
  | .unboundGlobal =>
    fault.token.IsName ∧ m.store.get? globalScope fault.token.lexeme = none
  | .unboundGlobalTarget | .unboundLocalTarget => fault.token.IsName
  | _ => True

/-! ## Operators -/

theorem Literal.value_sound (l : Literal) (s : Store Value) : (l.value : Value).Sound s := by
  cases l <;> trivial

section Operators

variable {s : Store Value} {operator : Token} {v w u : Value} {fault : Fault} {m : Machine}

theorem Value.unary_sound (h : v.unary operator.kind = .ok u) : u.Sound s := by
  unfold Value.unary at h
  split at h <;> cases h <;> trivial

theorem Value.unary_explained (h : v.unary operator.kind = .error fault) :
    Located.Explained ⟨operator, fault⟩ m := by
  unfold Value.unary at h
  split at h <;> cases h <;> trivial

theorem Value.numeric_sound {f : Float → Float → Value} (h : Value.numeric f v w = .ok u)
    (hf : ∀ x y, (f x y).Sound s) : u.Sound s := by
  unfold Value.numeric at h
  split at h <;> cases h
  exact hf _ _

theorem Value.add_sound (h : v.add w = .ok u) : u.Sound s := by
  unfold Value.add at h
  split at h <;> cases h <;> trivial

theorem Value.numeric_fault {f : Float → Float → Value} (h : Value.numeric f v w = .error fault) :
    fault = .operandsNotNumbers := by
  unfold Value.numeric at h
  split at h <;> cases h
  rfl

theorem Value.add_fault (h : v.add w = .error fault) : fault = .addition := by
  unfold Value.add at h
  split at h <;> cases h
  rfl

theorem Value.binary_sound (h : v.binary operator.kind w = .ok u) : u.Sound s := by
  unfold Value.binary at h
  split at h
  · exact add_sound h
  · exact numeric_sound h fun _ _ => trivial
  · exact numeric_sound h fun _ _ => trivial
  · exact numeric_sound h fun _ _ => trivial
  · exact numeric_sound h fun _ _ => trivial
  · exact numeric_sound h fun _ _ => trivial
  · exact numeric_sound h fun _ _ => trivial
  · exact numeric_sound h fun _ _ => trivial
  · cases h
    trivial
  · cases h
    trivial
  · cases h

theorem Value.binary_explained (h : v.binary operator.kind w = .error fault) :
    Located.Explained ⟨operator, fault⟩ m := by
  unfold Value.binary at h
  split at h
  · cases add_fault h
    trivial
  all_goals first
    | cases numeric_fault h; trivial
    | cases h; trivial
    | cases h

end Operators

namespace MachineM

variable {α β : Type} {grows : Option Nat} {m : Machine} {act : MachineM α}
  {ok ok' : α → Machine → Prop}

/-- The action keeps the invariant, evolves the machine, ends with a value as described, and its
faults are explained. -/
def Keeps (grows : Option Nat) (act : MachineM α) (m : Machine) (ok : α → Machine → Prop) : Prop :=
  act.Ends m (fun a m' => m.Evolves grows m' ∧ m'.Sound ∧ ok a m')
    fun fault m' => m.Evolves grows m' ∧ m'.Sound ∧ fault.Explained m'

theorem Keeps.of_evolving (he : Evolving grows act m)
    (h : act.Ends m (fun a m' => m'.Sound ∧ ok a m') fun fault m' =>
      m'.Sound ∧ fault.Explained m') : Keeps grows act m ok := he.and h

theorem Keeps.pure {a : α} (hm : m.Sound) (h : ok a m) : Keeps grows (pure a) m ok :=
  ⟨.refl m, hm, h⟩

theorem Keeps.raise {token : Token} {fault : Fault} (hm : m.Sound)
    (h : Located.Explained ⟨token, fault⟩ m) : Keeps grows (raise token fault) m ok :=
  ⟨.refl m, hm, h⟩

theorem Keeps.exhausted : Keeps grows (exhausted : MachineM α) m ok := trivial

/-- Something read off the machine, and what is done with it. -/
theorem Keeps.read_bind {f : Machine → α} {next : α → MachineM β} {ok : β → Machine → Prop}
    (h : Keeps grows (next (f m)) m ok) : Keeps grows (read f >>= next) m ok := h

theorem Keeps.bind {next : α → MachineM β} {ok' : β → Machine → Prop} (h : Keeps grows act m ok)
    (hn : ∀ a m', m.Evolves grows m' → m'.Sound → ok a m' → Keeps grows (next a) m' ok') :
    Keeps grows (act >>= next) m ok' := by
  unfold Keeps
  rw [ends_bind]
  refine h.mono (fun a m' ⟨he, hs, ha⟩ => ?_) fun _ _ => id
  exact (hn a m' he hs ha).mono (fun _ _ h => ⟨he.trans h.1, h.2⟩) fun _ _ h =>
    ⟨he.trans h.1, h.2⟩

theorem Keeps.mono (h : Keeps grows act m ok)
    (hok : ∀ a m', m.Evolves grows m' → m'.Sound → ok a m' → ok' a m') :
    Keeps grows act m ok' :=
  Ends.mono h (fun _ _ h => ⟨h.1, h.2.1, hok _ _ h.1 h.2.1 h.2.2⟩) fun _ _ => id

theorem Keeps.loosen (h : Keeps none act m ok) : Keeps grows act m ok :=
  Ends.mono h (fun _ _ h => ⟨h.1.loosen, h.2⟩) fun _ _ h => ⟨h.1.loosen, h.2⟩

/-- What comes first changes no frame that there is. -/
theorem Keeps.quiet_bind {next : α → MachineM β} {ok' : β → Machine → Prop}
    (h : Keeps none act m ok)
    (hn : ∀ a m', m.Evolves none m' → m'.Sound → ok a m' → Keeps grows (next a) m' ok') :
    Keeps grows (act >>= next) m ok' := by
  unfold Keeps
  rw [ends_bind]
  refine Ends.mono h (fun a m' ⟨he, hs, ha⟩ => ?_) fun _ _ h => ⟨h.1.loosen, h.2⟩
  exact Ends.mono (hn a m' he hs ha) (fun _ _ h => ⟨he.loosen.trans h.1, h.2⟩) fun _ _ h =>
    ⟨he.loosen.trans h.1, h.2⟩

theorem Keeps.ite {p : Prop} [Decidable p] {other : MachineM α} (h : p → Keeps grows act m ok)
    (h' : ¬ p → Keeps grows other m ok) : Keeps grows (if p then act else other) m ok := by
  split
  · next hp => exact h hp
  · next hp => exact h' hp

theorem Keeps.settle {token : Token} {r : Except Fault α} (hm : m.Sound)
    (hok : ∀ a, r = .ok a → ok a m) (herr : ∀ fault, r = .error fault →
      Located.Explained ⟨token, fault⟩ m) : Keeps grows (settle token r) m ok :=
  ends_settle (fun a ha => ⟨.refl m, hm, hok a ha⟩) fun fault hf => ⟨.refl m, hm, herr fault hf⟩

/-! ## Primitive actions -/

theorem Keeps.define {x : String} {v : Value} (hm : m.Sound)
    (hv : v.Sound (m.store.define m.scope x v)) (fits : v.Fits x) :
    Keeps m.scope.head? (define x v) m fun _ m' =>
      m' = { m with store := m.store.define m.scope x v } :=
  .of_evolving (.define x v) ⟨HeapSound.define hm m.scope hv fits, rfl⟩

theorem Keeps.setField {id : Nat} {x : String} {v : Value} (hm : m.Sound) (hv : v.Sound m.store) :
    Keeps grows (setField id x v) m fun _ _ => True :=
  .of_evolving (.setField ..) ⟨HeapSound.setField hm hv, trivial⟩

theorem Keeps.print {line : String} (hm : m.Sound) :
    Keeps grows (print line) m fun _ m' => m'.store = m.store ∧ m'.scope = m.scope :=
  .of_evolving (.print _) ⟨hm, rfl, rfl⟩

theorem Keeps.newFunction {f : Closure} (hm : m.Sound) (hf : f.Sound m.store) :
    Keeps grows (newFunction f) m fun v m' => v.Sound m'.store :=
  .of_evolving (.newFunction f) ⟨hm, hf⟩

theorem Keeps.freshFunction {f : Closure} (hm : m.Sound) :
    Keeps grows (MachineM.newFunction f) m fun v m' =>
      m'.store = m.store ∧ m'.scope = m.scope ∧ ∃ id, v = .function id f :=
  .of_evolving (.newFunction f) ⟨hm, rfl, rfl, _, rfl⟩

/-- A new frame with one name in it. -/
theorem Keeps.openWith {outer : Scope} {x : String} {v : Value} {next : Scope → MachineM α}
    (hm : m.Sound) (hv : v.Sound m.store) (fits : v.Fits x)
    (hn : ∀ m', m.Evolves grows m' → m'.Sound →
      (∀ scopes, Placed m.store scopes outer →
        Placed m'.store ([(x, .ready)] :: scopes) (m.store.enter outer).1) →
      Keeps grows (next (m.store.enter outer).1) m' ok) :
    Keeps grows
      (openScope outer >>= fun scope => defineIn scope x v >>= fun _ => next scope) m ok := by
  have opened : m.Evolves grows
      { m with store := (m.store.enter outer).2.define (m.store.enter outer).1 x v } :=
    .of_store rfl rfl rfl (Store.Extends.define_enter ..).loosen
  have entered := HeapSound.enter hm outer
  have sound := entered.define (m.store.enter outer).1
    (hv.mono (.define_enter m.store outer x v)) fits
  exact Ends.mono (hn _ opened sound fun _ h => h.openWith x v)
    (fun _ _ h => ⟨opened.trans h.1, h.2⟩) fun _ _ h => ⟨opened.trans h.1, h.2⟩

/-- A method bound to an object is a function with `this` in the scope around it. -/
theorem Keeps.bindMethod {f : Closure} {object : Value} (hm : m.Sound)
    (hf : f.SoundMethod m.store) (ho : object.Sound m.store)
    (isObject : ∃ id k, object = .object id k) :
    Keeps grows (bindMethod f object) m fun f' m' =>
      f'.Sound m'.store ∧ f'.declaration = f.declaration := by
  obtain ⟨c, hasSuperclass, declaration, resolved, placed, hi⟩ := hf
  refine .openWith hm ho ⟨fun _ => isObject, fun h => absurd h (by decide)⟩
    fun m' _ hm' opened => .pure hm' ⟨?_, rfl⟩
  refine ⟨_, _, declaration, resolved, opened _ placed, fun h => ⟨?_, .here rfl⟩⟩
  rw [hi] at h
  rw [FunctionDecl.methodBody, if_pos h]

section Names

variable {c : Context} {x : Token}

theorem Keeps.lookUp_local {depth : Nat} (hm : m.Sound) (placed : Placed m.store c.scopes m.scope)
    (sees : Sees c.scopes x.lexeme depth .ready) :
    Keeps grows (lookUp x (some depth)) m fun v m' => v.Sound m'.store := by
  obtain ⟨v, hv⟩ := placed.getAt? sees
  refine .of_evolving (.lookUp ..) ?_
  unfold Ends MachineM.lookUp
  dsimp only
  rw [hv]
  exact ⟨hm, (HeapSound.getAt? hm hv).1⟩

theorem Keeps.lookUp {depth : Option Nat} (hm : m.Sound)
    (placed : Placed m.store c.scopes m.scope) (isName : x.IsName)
    (refers : c.Refers x.lexeme depth) :
    Keeps grows (lookUp x depth) m fun v m' => v.Sound m'.store := by
  cases depth with
  | some depth => exact .lookUp_local hm placed refers
  | none =>
      refine .of_evolving (.lookUp ..) ?_
      unfold Ends MachineM.lookUp
      dsimp only
      cases hv : m.store.get? globalScope x.lexeme with
      | some v => exact ⟨hm, (HeapSound.get? hm hv).1⟩
      | none => exact ⟨hm, isName, hv⟩

theorem Keeps.assign {depth : Option Nat} {v : Value} (hm : m.Sound) (isName : x.IsName)
    (hv : v.Sound m.store) : Keeps grows (assign x depth v) m fun _ _ => True := by
  refine .of_evolving (.assign ..) ?_
  have written : ∀ frame, m.store.binds frame x.lexeme = true →
      HeapSound (m.store.write frame x.lexeme v) m.fields := fun frame hb =>
    have grown : Store.Extends none m.store _ := .write hb v
    HeapSound.write hm (hv.mono grown) (Value.fits_of_isName isName v) grown
  unfold Ends MachineM.assign
  cases depth with
  | some distance =>
      dsimp only
      cases h : m.store.frameAt? m.scope distance x.lexeme with
      | some frame => exact ⟨written frame (Store.binds_of_frameAt? h), trivial⟩
      | none => exact ⟨hm, isName⟩
  | none =>
      dsimp only
      cases h : m.store.frame? globalScope x.lexeme with
      | some frame => exact ⟨written frame (Store.binds_of_frame? h), trivial⟩
      | none => exact ⟨hm, isName⟩

theorem Keeps.superMethod {keyword method : Token} {depth : Nat} (hm : m.Sound)
    (placed : Placed m.store c.scopes m.scope) (receiver : Sees c.scopes "this" depth .ready)
    (parent : Sees c.scopes "super" (depth + 1) .ready) :
    Keeps grows (superMethod keyword (some (depth + 1)) method) m fun v m' =>
      v.Sound m'.store := by
  obtain ⟨v, hv⟩ := placed.getAt? parent
  obtain ⟨o, ho⟩ := placed.getAt? receiver
  obtain ⟨hk, fits⟩ := HeapSound.getAt? hm hv
  obtain ⟨hos, fits'⟩ := HeapSound.getAt? hm ho
  obtain ⟨k, rfl⟩ := fits.2 rfl
  obtain ⟨id, k', rfl⟩ := fits'.1 rfl
  refine .read_bind ?_
  rw [hv]
  refine .read_bind ?_
  rw [if_neg (Nat.succ_ne_zero _), Nat.add_sub_cancel, ho]
  dsimp only
  split
  · next f hf =>
      exact (Keeps.bindMethod hm (Class.Sound.method hk hf) hos ⟨_, _, rfl⟩).bind
        fun _ _ _ hm hf => .newFunction hm hf.1
  · exact .raise hm trivial

end Names

theorem Keeps.property {id : Nat} {k : Class} {name : Token} (hm : m.Sound)
    (hk : k.Sound m.store) :
    Keeps grows (property id k name) m fun v m' => v.Sound m'.store := by
  refine .read_bind ?_
  split
  · next v hv => exact .pure hm (hm.fields _ _ _ hv)
  · split
    · next f hf =>
        have object : (Value.object id k).Sound m.store := hk
        exact (Keeps.bindMethod hm (hk.method hf) object ⟨_, _, rfl⟩).bind
          fun _ _ _ hm hf => .newFunction hm hf.1
    · exact .raise hm trivial

/-! ## Calls -/

/-- A way to run statements keeps the invariant on resolved ones. -/
def KeepsBodies (run : List Stmt → MachineM Flow) : Prop :=
  ∀ c ss ss' c' m, Stmt.ResolvedAll false c ss ss' c' → Stands m.store c.scopes m.scope →
    m.Sound → Keeps m.scope.head? (run ss') m fun flow m' => flow.Sound m'.store

theorem Keeps.bindParameters (c : Context) {scope : Scope} {ps : List Token}
    (names : ∀ p ∈ ps, p.IsName) {vs : List Value} (arity : vs.length = ps.length) (hm : m.Sound)
    (hv : ∀ v ∈ vs, v.Sound m.store) (stands : Stands m.store c.scopes scope) :
    Keeps scope.head? (bindParameters scope ps vs) m fun _ m' =>
      Stands m'.store (ps.foldl (fun c p => c.introduce p.lexeme) c).scopes scope := by
  induction ps generalizing m vs c with
  | nil => exact .pure hm stands
  | cons p ps ih =>
      cases vs with
      | nil => cases arity
      | cons v vs =>
          obtain ⟨isName, names⟩ := List.forall_mem_cons.1 names
          obtain ⟨hv, hvs⟩ := List.forall_mem_cons.1 hv
          have grown := Store.Extends.define m.store scope p.lexeme v
          have defined : m.Evolves scope.head?
              { m with store := m.store.define scope p.lexeme v } := .of_store rfl rfl rfl grown
          have sound : Machine.Sound { m with store := m.store.define scope p.lexeme v } :=
            HeapSound.define hm scope (hv.mono grown) (Value.fits_of_isName isName v)
          have rest := ih _ names (Nat.succ.inj arity) sound (fun w hw => (hvs w hw).mono grown)
            (stands.introduce v)
          exact Ends.mono rest (fun _ _ h => ⟨defined.trans h.1, h.2⟩) fun _ _ h =>
            ⟨defined.trans h.1, h.2⟩

section Calls

variable {run : List Stmt → MachineM Flow}

/-- The scope in which a function runs on these arguments. -/
def entered (f : Closure) (vs : List Value) : MachineM Scope := do
  let scope ← openScope f.scope
  bindParameters scope f.declaration.parameters vs
  pure scope

theorem enter_eq (run : List Stmt → MachineM Flow) (f : Closure) (vs : List Value) :
    enter run f vs = entered f vs >>= fun scope =>
      inScope scope (run f.declaration.body) >>= fun flow =>
        if f.isInitializer then receiver f else pure flow.value := by
  simp only [enter, entered, bind_assoc, pure_bind]

theorem Evolving.entered (f : Closure) (vs : List Value) :
    Evolving none (MachineM.entered f vs) m := by
  unfold Evolving MachineM.entered
  rw [ends_bind, ends_openScope, ends_bind]
  exact (Evolving.bindParameters (m.store.frames.size :: f.scope) _ vs).mono
    (fun _ m' h => Evolves.of_opened h) fun _ m' h => Evolves.of_opened h

/-- The machine stands where the body of the function is. -/
theorem Keeps.entered {f : Closure} {vs : List Value} (hm : m.Sound) (hf : f.Sound m.store)
    (hv : ∀ v ∈ vs, v.Sound m.store) (arity : vs.length = f.declaration.parameters.length) :
    (MachineM.entered f vs).Ends m (fun scope m' => m'.Sound ∧
      ∃ (kind : Body) (c c' : Context) (ss : List Stmt),
        Stmt.ResolvedAll false (c.inFunction kind f.declaration.parameters) ss f.declaration.body
          c' ∧
        Stands m'.store (c.inFunction kind f.declaration.parameters).scopes scope)
      fun fault m' => m'.Sound ∧ fault.Explained m' := by
  obtain ⟨_, outer, isInitializer⟩ := f
  obtain ⟨kind, c, declaration, ⟨isName, names, distinct, body⟩, placed, -⟩ := hf
  have opened : Machine.Sound { m with store := (m.store.enter outer).2 } :=
    HeapSound.enter hm outer
  have stands := Stands.enter placed (Store.binds_size m.store)
  have bound := Keeps.bindParameters { c.enter with body := kind } names arity opened
    (fun v h => (hv v h).mono (.enter m.store outer)) stands
  unfold MachineM.entered
  rw [ends_bind, ends_openScope, ends_bind]
  exact Ends.mono bound (fun _ _ h => ⟨h.2.1, kind, c, _, _, body, h.2.2⟩) fun _ _ h => h.2

theorem Keeps.enter (hrun : KeepsBodies run)
    (evolves : ∀ body m, Evolving m.scope.head? (run body) m) {f : Closure} {vs : List Value}
    (hm : m.Sound) (hf : f.Sound m.store) (hv : ∀ v ∈ vs, v.Sound m.store)
    (arity : vs.length = f.declaration.parameters.length) :
    Keeps none (enter run f vs) m fun v m' => v.Sound m'.store := by
  refine .of_evolving (.enter evolves _ vs) ?_
  rw [enter_eq, ends_bind]
  refine Ends.mono (Keeps.entered hm hf hv arity) ?_ fun _ _ => id
  intro scope m' ⟨hm', kind, c, c', ss, body, stands⟩
  rw [ends_bind, ends_inScope]
  refine Ends.mono (hrun _ _ _ _ { m' with scope := scope } body stands hm') ?_ fun _ _ h => h.2
  rintro flow m'' ⟨-, hm'', hflow⟩
  split
  · refine ⟨hm'', ?_⟩
    show Value.Sound m''.store ((m''.store.getAt? f.scope 0 "this").getD .nil)
    cases h : m''.store.getAt? f.scope 0 "this" with
    | none => trivial
    | some v => exact (HeapSound.getAt? hm'' h).1
  · refine ⟨hm'', ?_⟩
    cases flow with
    | next => trivial
    | returned v => exact hflow

theorem Keeps.newObject {k : Class} (hm : m.Sound) :
    Keeps none (newObject k) m fun o m' =>
      m'.store = m.store ∧ o = .object m.fields.size k :=
  .of_evolving (.newObject k) ⟨HeapSound.newObject hm, rfl, rfl⟩

/-- The initializer of a class, bound to a new object. -/
theorem Keeps.construct {k : Class} {initializer : Closure} (hm : m.Sound)
    (hk : k.Sound m.store) (found : k.initializer? = some initializer) :
    Keeps none (MachineM.newObject k >>= MachineM.bindMethod initializer) m fun f m' =>
      f.Sound m'.store ∧ f.declaration = initializer.declaration := by
  refine (Keeps.newObject hm).bind ?_
  rintro _ m' - hm' ⟨hs, rfl⟩
  rw [← hs] at hk
  exact .bindMethod hm' (hk.method found) hk ⟨_, _, rfl⟩

theorem Keeps.invoke (hrun : KeepsBodies run)
    (evolves : ∀ body m, Evolving m.scope.head? (run body) m) {callee : Value}
    {callable : Callable} {vs : List Value} (hm : m.Sound) (hc : callee.Sound m.store)
    (hcallable : callee.callable? = some callable) (hv : ∀ v ∈ vs, v.Sound m.store)
    (arity : vs.length = callable.arity) :
    Keeps none (invoke run callable vs) m fun v m' => v.Sound m'.store := by
  cases callee with
  | nil | bool | number | string | object => cases hcallable
  | clock =>
      cases hcallable
      exact .of_evolving (.of_store rfl rfl rfl (.refl _)) ⟨hm, trivial⟩
  | function id f =>
      cases hcallable
      exact .enter hrun evolves hm hc hv arity
  | ofClass k =>
      cases hcallable
      have hk : k.Sound m.store := hc
      refine (Keeps.newObject hm).bind ?_
      rintro _ m' - hm' ⟨hs, rfl⟩
      have object : (Value.object m.fields.size k).Sound m'.store := by
        rw [hs]
        exact hk
      split
      · next f hf =>
          have arity' : vs.length = f.declaration.parameters.length := by
            rw [arity, Callable.arity, hf]
          have method : f.SoundMethod m'.store := by
            rw [hs]
            exact hk.method hf
          refine (Keeps.bindMethod hm' method object ⟨_, _, rfl⟩).bind
            fun f' m'' he hm'' ⟨hf', same⟩ => ?_
          have arguments : ∀ v ∈ vs, v.Sound m''.store := fun v h => by
            have := hv v h
            rw [← hs] at this
            exact this.mono he.store
          refine (Keeps.enter hrun evolves hm'' hf' arguments (by rw [same, arity'])).bind
            fun _ m3 he' hm3 _ => .pure hm3 ((object.mono he.store).mono he'.store)
      · exact .pure hm' object

theorem Keeps.apply (hrun : KeepsBodies run)
    (evolves : ∀ body m, Evolving m.scope.head? (run body) m) {paren : Token} {callee : Value}
    {vs : List Value} (hm : m.Sound) (hc : callee.Sound m.store)
    (hv : ∀ v ∈ vs, v.Sound m.store) :
    Keeps grows (apply run paren callee vs) m fun v m' => v.Sound m'.store := by
  refine .of_evolving (.apply evolves ..) (ends_apply (fun fault hf => ⟨hm, ?_⟩)
    fun callable hcallable arity _ => ?_)
  · cases fault <;> trivial
  · rw [ends_counted]
    have started : Machine.Sound { m with calls := m.calls + 1 } := hm
    exact Ends.mono (Keeps.invoke hrun evolves started hc hcallable hv arity) (fun _ _ h => h.2)
      fun _ _ h => h.2

end Calls

/-! ## Classes -/

/-- The methods of a class declaration, closed over a scope. -/
theorem methodTable_sound {s : Store Value} {c : Context} {hasSuperclass : Bool} {scope : Scope}
    {ms ms' : List FunctionDecl}
    (methods : FunctionDecl.ResolvedAll false (c.inMethods hasSuperclass) ms ms')
    (placed : Placed s (c.aroundMethods hasSuperclass).scopes scope) :
    ∀ entry ∈ methodTable scope ms', entry.2.SoundMethod s := by
  intro entry he
  obtain ⟨f', hf', rfl⟩ := List.mem_map.1 he
  obtain ⟨f, resolved⟩ := methods.of_mem (List.mem_reverse.1 hf')
  exact ⟨c, hasSuperclass, f, resolved, placed, resolved.isInitializer_eq⟩

theorem Keeps.newClass {name : String} {parent : Option Class} {scope : Scope} {c : Context}
    {hasSuperclass : Bool} {ms ms' : List FunctionDecl} (hm : m.Sound)
    (hp : ∀ k ∈ parent, k.Sound m.store)
    (methods : FunctionDecl.ResolvedAll false (c.inMethods hasSuperclass) ms ms')
    (placed : Placed m.store (c.aroundMethods hasSuperclass).scopes scope) :
    Keeps grows (newClass name parent scope ms') m fun k m' => k.Sound m'.store := by
  refine .of_evolving (.newClass ..) ⟨hm, fun layer hl => ?_⟩
  rcases List.mem_cons.1 hl with rfl | hl
  · exact methodTable_sound methods placed
  · cases parent with
    | none => cases hl
    | some k => exact hp k rfl layer hl

theorem BindsHere.of_placed {scopes : List Declared} (placed : Placed m.store scopes m.scope)
    (hm : m.Sound) (x : String) (v : Value) :
    BindsHere { m with store := m.store.define m.scope x v } x := by
  cases hs : m.scope with
  | nil =>
      rw [hs] at placed
      cases placed
  | cons frame outer =>
      rw [← hs]
      refine BindsHere.of_define hs ?_ x v
      rw [hs] at placed
      cases placed with
      | global => exact hm.globalFrame
      | frame inside _ _ => exact inside

/-- The name of a class is bound when the class is assigned to it. -/
theorem Keeps.assignClass {name : Token} {k : Class} (hm : m.Sound) (isName : name.IsName)
    (bound : BindsHere m name.lexeme)
    (hk : k.Sound m.store) : Keeps none (assignClass name k) m fun _ _ => True := by
  refine .of_evolving (.assignClass ..) ?_
  obtain ⟨frame, hh, hb⟩ := bound
  have hv : (Value.ofClass k).Sound m.store := hk
  unfold Ends MachineM.assignClass
  rw [Store.frame?_of_head hh hb]
  have grown : Store.Extends none m.store _ := .write hb (Value.ofClass k)
  exact ⟨HeapSound.write hm (hv.mono grown) (Value.fits_of_isName isName _) grown, trivial⟩

/-- A class made and assigned to its name leaves the scope in force in its place. -/
theorem Keeps.makeClass {name : Token} {parent : Option Class} {scopes : List Declared}
    {scope : Scope} {c : Context} {hasSuperclass : Bool} {ms ms' : List FunctionDecl}
    (hm : m.Sound) (isName : name.IsName) (bound : BindsHere m name.lexeme)
    (stands : Stands m.store scopes m.scope) (hp : ∀ k ∈ parent, k.Sound m.store)
    (methods : FunctionDecl.ResolvedAll false (c.inMethods hasSuperclass) ms ms')
    (placed : Placed m.store (c.aroundMethods hasSuperclass).scopes scope) :
    Keeps grows
      (MachineM.newClass name.lexeme parent scope ms' >>= MachineM.assignClass name) m fun _ m' =>
      Stands m'.store scopes m'.scope := by
  refine Keeps.loosen ((Keeps.newClass hm hp methods placed).bind fun k m' he hm' hk => ?_)
  refine (Keeps.assignClass hm' isName (bound.mono he) hk).mono fun _ m'' he' _ _ => ?_
  have he := he.trans he'
  rw [he.scope]
  exact stands.mono he.store

theorem Keeps.declareClass {c : Context} {name : Token}
    {superclass : Option (Token × MachineM Value)} {ms ms' : List FunctionDecl} (hm : m.Sound)
    (stands : Stands m.store c.scopes m.scope) (isName : name.IsName)
    (value : ∀ p ∈ superclass, ∀ m : Machine, m.Sound →
      Placed m.store (c.introduce name.lexeme).scopes m.scope →
      Keeps none p.2 m fun v m' => v.Sound m'.store)
    {hasSuperclass : Bool} (methods : FunctionDecl.ResolvedAll false
      ((c.introduce name.lexeme).inMethods hasSuperclass) ms ms')
    (same : superclass.isSome = hasSuperclass) :
    Keeps m.scope.head? (declareClass name superclass ms') m fun _ m' =>
      Stands m'.store (c.introduce name.lexeme).scopes m'.scope := by
  subst same
  refine (Keeps.define (v := .nil) hm trivial (Value.fits_of_isName isName .nil)).bind ?_
  rintro _ _ - hm' rfl
  have bound := BindsHere.of_placed stands.placed hm name.lexeme .nil
  have stands := stands.introduce (x := name.lexeme) .nil
  refine .read_bind (Keeps.loosen ?_)
  cases superclass with
  | none => exact .makeClass hm' isName bound stands nofun methods stands.placed
  | some p =>
      refine (value p rfl _ hm' stands.placed).bind fun v m' he hm' hv => ?_
      split
      · next parent =>
          refine .openWith hm' hv ⟨fun h => absurd h (by decide), fun _ => ⟨parent, rfl⟩⟩
            fun m'' he' hm'' opened => ?_
          have whole := he.trans he'
          have kept := stands.mono whole.store
          rw [← whole.scope] at kept
          refine .makeClass hm'' isName (bound.mono whole) kept (fun k hk => ?_) methods
            (opened _ (stands.placed.mono he.store))
          cases hk
          exact Class.Sound.mono hv he'.store
      · exact .raise hm' trivial

/-! ## Lists and loops -/

/-- A way to evaluate keeps the invariant on resolved expressions. -/
def KeepsExpr (run : Expr → MachineM Value) : Prop :=
  ∀ c e e' m, Expr.Resolved false c e e' → Placed m.store c.scopes m.scope → m.Sound →
    Keeps none (run e') m fun v m' => v.Sound m'.store

/-- A way to execute keeps the invariant on resolved statements, and leaves the scope in force at
the context behind the statement. -/
def KeepsStmt (run : Stmt → MachineM Flow) : Prop :=
  ∀ c s s' c' m, Stmt.Resolved false c s s' c' → Stands m.store c.scopes m.scope → m.Sound →
    Keeps m.scope.head? (run s') m fun flow m' =>
      flow.Sound m'.store ∧ (flow = .next → Stands m'.store c'.scopes m'.scope)

theorem Evolves.placed {m' : Machine} (he : m.Evolves grows m') {scopes : List Declared}
    (h : Placed m.store scopes m.scope) : Placed m'.store scopes m'.scope := by
  rw [he.scope]
  exact h.mono he.store

theorem Evolves.stands {m' : Machine} (he : m.Evolves none m') {scopes : List Declared}
    (h : Stands m.store scopes m.scope) : Stands m'.store scopes m'.scope := by
  rw [he.scope]
  exact h.mono he.store

theorem KeepsExpr.evalAll {run : Expr → MachineM Value} (hrun : KeepsExpr run) {c : Context} :
    ∀ {es es' : List Expr} {m : Machine}, Expr.ResolvedAll false c es es' →
      Placed m.store c.scopes m.scope → m.Sound →
      Keeps none (evalAll run es') m fun vs m' => ∀ v ∈ vs, v.Sound m'.store
  | _, _, _, .nil, _, hm => .pure hm nofun
  | _, _, m, .cons head tail, placed, hm => by
      refine (hrun _ _ _ m head placed hm).bind fun v m' he hm' hv => ?_
      refine (hrun.evalAll tail (Evolves.placed he placed) hm').bind fun vs m'' he' hm'' hvs =>
        .pure hm'' ?_
      exact List.forall_mem_cons.2 ⟨hv.mono he'.store, hvs⟩

theorem KeepsStmt.execAll {run : Stmt → MachineM Flow} (hrun : KeepsStmt run) :
    ∀ {c c' : Context} {ss ss' : List Stmt} {m : Machine}, Stmt.ResolvedAll false c ss ss' c' →
      Stands m.store c.scopes m.scope → m.Sound →
      Keeps m.scope.head? (execAll run ss') m fun flow m' =>
        flow.Sound m'.store ∧ (flow = .next → Stands m'.store c'.scopes m'.scope)
  | _, _, _, _, _, .nil, stands, hm => .pure hm ⟨trivial, fun _ => stands⟩
  | _, _, _, _, m, .cons head tail, stands, hm => by
      refine (hrun _ _ _ _ m head stands hm).bind fun flow m' he hm' ⟨hflow, next⟩ => ?_
      rw [← he.scope]
      split
      · exact hrun.execAll tail (next rfl) hm'
      · exact .pure hm' ⟨hflow, nofun⟩

theorem KeepsStmt.loop {test : MachineM Value} {body : Stmt → MachineM Flow} {c : Context}
    {s s' : Stmt} (htest : ∀ m : Machine, Placed m.store c.scopes m.scope → m.Sound →
      Keeps none test m fun v m' => v.Sound m'.store)
    (hbody : KeepsStmt body) (resolved : Stmt.Resolved false c s s' c) (fuel : Nat)
    (stands : Stands m.store c.scopes m.scope) (hm : m.Sound) :
    Keeps m.scope.head? (loop test (body s') fuel) m fun flow m' =>
      flow.Sound m'.store ∧ (flow = .next → Stands m'.store c.scopes m'.scope) := by
  induction fuel generalizing m with
  | zero => exact .exhausted
  | succ fuel ih =>
      refine (htest m stands.placed hm).quiet_bind fun v m' he hm' _ => .ite (fun _ => ?_) fun _ =>
        .pure hm' ⟨trivial, fun _ => Evolves.stands he stands⟩
      rw [← he.scope]
      refine (hbody _ _ _ _ m' resolved (Evolves.stands he stands) hm').bind
        fun flow m'' he' hm'' ⟨hflow, next⟩ => ?_
      split
      · rw [← he'.scope]
        exact ih (next rfl) hm''
      · exact .pure hm'' ⟨hflow, nofun⟩

theorem KeepsStmt.block {fuel : Nat} (hexec : KeepsStmt (exec fuel)) {c c' : Context}
    {ss ss' : List Stmt} (body : Stmt.ResolvedAll false c.enter ss ss' c')
    (stands : Stands m.store c.scopes m.scope) (hm : m.Sound) :
    Keeps none (exec (fuel + 1) (.block ss')) m fun flow m' =>
      flow.Sound m'.store ∧ (flow = .next → Stands m'.store c.scopes m'.scope) := by
  have kept : Keeps none (exec (fuel + 1) (.block ss')) m fun flow m' =>
      flow.Sound m'.store := by
    refine .of_evolving (.block (evolving fuel).2 ss' m) ?_
    rw [exec, ends_bind, ends_read, ends_bind, ends_openScope, ends_inScope]
    have entered := Stands.enter stands.placed (Store.binds_size m.store)
    have inside := hexec.execAll (m := { m with store := _, scope := _ }) body entered
      (HeapSound.enter hm m.scope)
    exact Ends.mono inside (fun _ _ h => ⟨h.2.1, h.2.2.1⟩) fun _ _ h => h.2
  exact kept.mono fun _ _ he _ hflow => ⟨hflow, fun _ => Evolves.stands he stands⟩

/-! ## Evaluation -/

/-- Resolved trees, run where they stand, keep the invariant. -/
theorem keeps (fuel : Nat) : KeepsExpr (eval fuel) ∧ KeepsStmt (exec fuel) := by
  induction fuel with
  | zero => exact ⟨fun _ _ _ _ _ _ _ => .exhausted, fun _ _ _ _ _ _ _ _ => .exhausted⟩
  | succ fuel ih =>
      obtain ⟨heval, hexec⟩ := ih
      have bodies : KeepsBodies (Action.execAll (exec fuel)) :=
        fun _ _ _ _ _ body stands hm => (hexec.execAll body stands hm).mono fun _ _ _ _ h => h.1
      have evolves : ∀ body (m : Machine),
          Evolving m.scope.head? (Action.execAll (exec fuel) body) m :=
        fun body _ => .execAll (evolving fuel).2 body
      constructor
      · intro c e e' m resolved placed hm
        have operand : ∀ {e e'}, Expr.Resolved false c e e' →
            Keeps none (eval fuel e') m fun v m' => v.Sound m'.store :=
          fun h => heval _ _ _ _ h placed hm
        cases resolved with
        | literal => exact .pure hm (Literal.value_sound ..)
        | group inner => exact operand inner
        | unary h =>
            exact (operand h).bind fun _ _ _ hm' _ =>
              .settle hm' (fun _ => Value.unary_sound) fun _ => Value.unary_explained
        | binary left right =>
            refine (operand left).bind fun v m' he hm' _ => ?_
            exact (heval _ _ _ _ right (Evolves.placed he placed) hm').bind
              fun _ _ _ hm'' _ =>
                .settle hm'' (fun _ => Value.binary_sound) fun _ => Value.binary_explained
        | logical left right =>
            exact (operand left).bind fun v m' he hm' hv => .ite (fun _ => .pure hm' hv)
              fun _ => heval _ _ _ _ right (Evolves.placed he placed) hm'
        | name isName refers => exact .lookUp hm placed isName refers
        | assign isName refers value =>
            exact (operand value).bind fun v m' _ hm' hv =>
              (Keeps.assign hm' isName hv).bind fun _ _ he hm' _ => .pure hm' (hv.mono he.store)
        | assignOwn _ isName pending value =>
            exact (operand value).bind fun v m' _ hm' hv =>
              (Keeps.assign hm' isName hv).bind fun _ _ he hm' _ => .pure hm' (hv.mono he.store)
        | call callee arguments =>
            refine (operand callee).bind fun f m' he hm' hf => ?_
            refine (heval.evalAll arguments (Evolves.placed he placed) hm').bind
              fun vs m'' he' hm'' hvs => ?_
            exact .apply bodies evolves hm'' (hf.mono he'.store) hvs
        | get object =>
            refine (operand object).bind fun v m' _ hm' hv => ?_
            split
            · exact .property hm' hv
            · exact .raise hm' trivial
        | set object value =>
            refine (operand object).bind fun v m' he hm' hv => ?_
            split
            · exact (heval _ _ _ _ value (Evolves.placed he placed) hm').bind
                fun w m'' _ hm'' hw => (Keeps.setField hm'' hw).bind fun _ _ he hm' _ =>
                  .pure hm' (hw.mono he.store)
            · exact .raise hm' trivial
        | this spelled sees =>
            rw [← spelled] at sees
            exact .lookUp_local hm placed sees
        | super spelled receiver parent => exact .superMethod hm placed receiver parent
      · intro c s s' c' m resolved stands hm
        have operand : ∀ {e e'}, Expr.Resolved false c e e' →
            Keeps none (eval fuel e') m fun v m' => v.Sound m'.store :=
          fun h => heval _ _ _ _ h stands.placed hm
        cases resolved with
        | expr value =>
            exact (operand value).quiet_bind fun v m' he hm' _ =>
              .pure hm' ⟨trivial, fun _ => Evolves.stands he stands⟩
        | print value =>
            refine (operand value).quiet_bind fun v m' he hm' _ => ?_
            refine (Keeps.print hm').bind fun _ m'' _ hm'' ⟨hs, hscope⟩ => ?_
            refine .pure hm'' ⟨trivial, fun _ => ?_⟩
            rw [hs, hscope]
            exact Evolves.stands he stands
        | bare isName fresh =>
            refine (Keeps.define (v := .nil) hm trivial (Value.fits_of_isName isName .nil)).bind ?_
            rintro _ _ - hm' rfl
            exact .pure hm' ⟨trivial, fun _ => stands.introduce .nil⟩
        | @var _ x _ _ isName fresh initial =>
            refine (heval _ _ _ _ initial (stands.declare fresh).placed hm).quiet_bind
              fun v m' he hm' hv => ?_
            rw [← he.scope]
            have kept := hv.mono (.define m'.store m'.scope x.lexeme v)
            refine (Keeps.define hm' kept (Value.fits_of_isName isName v)).bind ?_
            rintro _ _ - hm'' rfl
            exact .pure hm'' ⟨trivial, fun _ => (Evolves.stands he stands).introduce v⟩
        | block body => exact (hexec.block body stands hm).loosen
        | ifThen test consequent =>
            refine (operand test).quiet_bind fun v m' he hm' _ => ?_
            have stands' := Evolves.stands he stands
            refine .ite (fun _ => ?_) fun _ => .pure hm' ⟨trivial, fun _ => stands'⟩
            rw [← he.scope]
            exact hexec _ _ _ _ m' consequent stands' hm'
        | ifElse test consequent alternative =>
            refine (operand test).quiet_bind fun v m' he hm' _ => ?_
            have stands' := Evolves.stands he stands
            rw [← he.scope]
            exact .ite (fun _ => hexec _ _ _ _ m' consequent stands' hm')
              fun _ => hexec _ _ _ _ m' alternative stands' hm'
        | whileDo test body =>
            exact hexec.loop (fun m placed hm => heval _ _ _ m test placed hm) body fuel stands hm
        | @function _ f f' fresh declaration =>
            have spelled : f'.name = f.name := declaration.spelled.1
            refine .read_bind ((Keeps.freshFunction hm).quiet_bind ?_)
            rintro _ m' he hm' ⟨hs, hscope, id, rfl⟩
            have defined := (Evolves.stands he stands).introduce (x := f.name.lexeme)
              (.function id ⟨f', m.scope, false⟩)
            rw [spelled, ← he.scope]
            refine (Keeps.define hm' ?_ (Value.fits_of_isName declaration.spelled.2 _)).bind ?_
            · rw [he.scope] at defined ⊢
              exact ⟨_, _, _, declaration, defined.placed, nofun⟩
            · rintro _ _ - hm'' rfl
              rw [← he.scope] at defined
              exact .pure hm'' ⟨trivial, fun _ => defined⟩
        | bareReturn => exact .pure hm ⟨trivial, nofun⟩
        | returning _ _ value =>
            exact (operand value).quiet_bind fun v m' _ hm' hv => .pure hm' ⟨hv, nofun⟩
        | rootClass isName fresh methods =>
            refine (Keeps.declareClass hm stands isName ?_ methods rfl).bind fun _ _ _ hm' stands =>
              .pure hm' ⟨trivial, fun _ => stands⟩
            nofun
        | subclass isName fresh superclass other methods =>
            refine (Keeps.declareClass hm stands isName ?_ methods rfl).bind fun _ _ _ hm' stands =>
              .pure hm' ⟨trivial, fun _ => stands⟩
            rintro _ ⟨⟩ m' hm' placed
            exact heval _ _ _ m' superclass placed hm'

end MachineM

end LoxLang
