import LoxLang.Proofs.Alike
import LoxLang.Proofs.RenamedMachines

/-!
# Renamed programs run alike

Two actions mirror each other if, from machines that differ by the renaming
only, both end with values that differ so, or both fail with the same fault, at
the same token or at one with the other name, or both run out of fuel. There is
a rule for each primitive action and for each way to compose actions. From these
it follows that a tree and the renamed tree mirror each other wherever the
frames in force are marked as the scopes around the trees are.
-/

namespace LoxLang

open LoxLang.Action MachineM

variable (x y : String)

/-- The errors are the same, at the same token or at one with the other name. -/
structure Located.Renamed {ε : Type} (e e' : Located ε) : Prop where
  token : e.token.Renaming x y e'.token
  error : e'.error = e.error

/-- The actions have ended alike, the first of them in the scope in which it was started. -/
inductive Outcome.Renamed {α β : Type} (w : MarkedFrames) (scope : Scope)
    (post : MarkedFrames → α → β → Prop) : Outcome Machine α → Outcome Machine β → Prop
  | done {a : α} {b : β} {m m' : Machine} {w' : MarkedFrames} (more : w <+: w')
      (value : post w' a b) (machine : m.Renamed x y w' m') (back : m.scope = scope) :
      Outcome.Renamed w scope post (.done a m) (.done b m')
  | failed {e e' : Located Fault} {m m' : Machine} {w' : MarkedFrames} (more : w <+: w')
      (fault : e.Renamed x y e') (machine : m.Renamed x y w' m') :
      Outcome.Renamed w scope post (.failed e m) (.failed e' m')
  | exhausted : Outcome.Renamed w scope post .exhausted .exhausted

/-- Started in a scope in machines that differ by the renaming, the actions end alike. -/
def Mirrors {α β : Type} (w : MarkedFrames) (scope : Scope) (act : MachineM α)
    (act' : MachineM β) (post : MarkedFrames → α → β → Prop) : Prop :=
  ∀ m m', m.Renamed x y w m' → m.scope = scope →
    Outcome.Renamed x y w scope post (act m) (act' m')

/-- The same where the innermost frame binds a name. -/
def MirrorsBound {α β : Type} (z : String) (w : MarkedFrames) (scope : Scope) (act : MachineM α)
    (act' : MachineM β) (post : MarkedFrames → α → β → Prop) : Prop :=
  ∀ m m', m.Renamed x y w m' → m.scope = scope →
    (∀ frame ∈ scope.head?, m.store.binds frame z = true) →
      Outcome.Renamed x y w scope post (act m) (act' m')

variable {x y}

theorem Outcome.Renamed.weaken {α β : Type} {w w' : MarkedFrames} {scope : Scope}
    {post : MarkedFrames → α → β → Prop} {o : Outcome Machine α} {o' : Outcome Machine β}
    (h : Outcome.Renamed x y w' scope post o o') (more : w <+: w') :
    Outcome.Renamed x y w scope post o o' := by
  cases h with
  | done more' value machine back => exact .done (more.trans more') value machine back
  | failed more' fault machine => exact .failed (more.trans more') fault machine
  | exhausted => exact .exhausted

theorem Value.IsData.renamed {w : MarkedFrames} {v : Value} (h : v.IsData) :
    v.Renamed x y w v := by
  cases h with
  | bool b => exact .bool b
  | number n => exact .number n
  | string s => exact .string s

namespace Machine.Renamed

variable {w : MarkedFrames} {m m' : Machine} {s s' : Store Value}

theorem scope_eq (h : m.Renamed x y w m') : m'.scope = m.scope := congrArg Prod.fst h.rest

theorem calls_eq (h : m.Renamed x y w m') : m'.calls = m.calls :=
  congrArg (fun (_, calls, _) => calls) h.rest

theorem printed_eq (h : m.Renamed x y w m') : m'.printed = m.printed :=
  congrArg (fun (_, _, _, printed, _) => printed) h.rest

theorem withStore (h : m.Renamed x y w m') (hs : s.Renamed x y w s') :
    Machine.Renamed x y w { m with store := s } { m' with store := s' } :=
  ⟨hs, h.globals, h.fields, h.rest⟩

theorem withScope (h : m.Renamed x y w m') (scope : Scope) :
    Machine.Renamed x y w { m with scope := scope } { m' with scope := scope } :=
  ⟨h.store, h.globals, h.fields, congrArg (fun (_, rest) => (scope, rest)) h.rest⟩

theorem withCalls (h : m.Renamed x y w m') (f : Nat → Nat) :
    Machine.Renamed x y w { m with calls := f m.calls } { m' with calls := f m'.calls } :=
  ⟨h.store, h.globals, h.fields,
    congrArg (fun (scope, calls, rest) => (scope, f calls, rest)) h.rest⟩

/-- A new frame, marked or not. -/
theorem opened (h : m.Renamed x y w m') (outer : Scope) (marked : Bool) :
    Machine.Renamed x y (w ++ [marked]) { m with store := (m.store.enter outer).2 }
      { m' with store := (m'.store.enter outer).2 } where
  store := h.store.enter outer marked
  globals := getElem?_of_isPrefix (List.prefix_append ..) h.globals
  fields := ⟨h.fields.size, fun id z =>
    rel_imp (fun _ _ hv => hv.mono (List.prefix_append ..)) (h.fields.read id z)⟩
  rest := h.rest

end Machine.Renamed

/-! ## Composed actions -/

namespace Mirrors

section Rules

variable {α β γ δ : Type} {w : MarkedFrames} {scope : Scope} {act : MachineM α}
  {act' : MachineM β} {post : MarkedFrames → α → β → Prop} {z : String}

theorem pure {a : α} {b : β} (h : post w a b) : Mirrors x y w scope (pure a) (pure b) post :=
  fun _ _ hm hs => .done (List.prefix_refl w) h hm hs

theorem exhausted :
    Mirrors x y w scope (exhausted : MachineM α) (Action.exhausted : MachineM β) post :=
  fun _ _ _ _ => .exhausted

theorem raise {t t' : Token} (ht : t.Renaming x y t') (fault : Fault) :
    Mirrors x y w scope (raise t fault : MachineM α) (Action.raise t' fault : MachineM β) post :=
  fun _ _ hm _ => .failed (List.prefix_refl w) ⟨ht, rfl⟩ hm

theorem bind {next : α → MachineM γ} {next' : β → MachineM δ}
    {post' : MarkedFrames → γ → δ → Prop} (h : Mirrors x y w scope act act' post)
    (hn : ∀ w' a b, w <+: w' → post w' a b → Mirrors x y w' scope (next a) (next' b) post') :
    Mirrors x y w scope (act >>= next) (act' >>= next') post' := by
  intro m m' hm hs
  have first := h m m' hm hs
  rw [bind_apply, bind_apply]
  generalize act m = o, act' m' = o' at first
  cases first with
  | done more value machine back => exact (hn _ _ _ more value _ _ machine back).weaken more
  | failed more fault machine => exact .failed more fault machine
  | exhausted => exact .exhausted

/-- The bindings that there are stay while the first action runs. -/
theorem bind_bound {next : α → MachineM γ} {next' : β → MachineM δ}
    {post' : MarkedFrames → γ → δ → Prop} {grows : Option Nat}
    (h : Mirrors x y w scope act act' post) (evolving : ∀ m, Evolving grows act m)
    (hn : ∀ w' a b, w <+: w' → post w' a b →
      MirrorsBound x y z w' scope (next a) (next' b) post') :
    MirrorsBound x y z w scope (act >>= next) (act' >>= next') post' := by
  intro m m' hm hs bound
  have first := h m m' hm hs
  have evolves : ∀ a m₁, act m = .done a m₁ → m.Evolves grows m₁ := fun _ _ => (evolving m).done
  rw [bind_apply, bind_apply]
  generalize act m = o, act' m' = o' at first evolves
  cases first with
  | done more value machine back =>
      exact (hn _ _ _ more value _ _ machine back fun frame hf =>
        (evolves _ _ rfl).store.kept (bound frame hf)).weaken more
  | failed more fault machine => exact .failed more fault machine
  | exhausted => exact .exhausted

theorem bound (h : Mirrors x y w scope act act' post) :
    MirrorsBound x y z w scope act act' post := fun m m' hm hs _ => h m m' hm hs

theorem read {f : Machine → α} {g : Machine → β}
    (h : ∀ m m', m.Renamed x y w m' → m.scope = scope → post w (f m) (g m')) :
    Mirrors x y w scope (read f) (Action.read g) post :=
  fun m m' hm hs => .done (List.prefix_refl w) (h m m' hm hs) hm hs

/-- The scope in force read. -/
theorem inForce : Mirrors x y w scope (Action.read (·.scope)) (Action.read (·.scope))
    fun _ s s' => s = scope ∧ s' = scope :=
  .read fun _ _ hm hs => ⟨hs, hm.scope_eq.trans hs⟩

theorem change {f g : Machine → Machine} {post : MarkedFrames → Unit → Unit → Prop}
    (h : ∀ m m', m.Renamed x y w m' → m.scope = scope → (f m).Renamed x y w (g m'))
    (hf : ∀ m, (f m).scope = m.scope) (hp : post w () ()) :
    Mirrors x y w scope (change f) (Action.change g) post :=
  fun m m' hm hs => .done (List.prefix_refl w) hp (h m m' hm hs) ((hf m).trans hs)

theorem ite {p : Prop} [Decidable p] {other : MachineM α} {other' : MachineM β}
    (h : Mirrors x y w scope act act' post) (h' : Mirrors x y w scope other other' post) :
    Mirrors x y w scope (if p then act else other) (if p then act' else other') post := by
  split
  · exact h
  · exact h'

theorem inScope {inner : Scope} (h : Mirrors x y w inner act act' post) :
    Mirrors x y w scope (inScope inner act) (MachineM.inScope inner act') post := by
  intro m m' hm hs
  have run := h _ _ (hm.withScope inner) rfl
  unfold MachineM.inScope
  dsimp only
  rw [hm.scope_eq]
  generalize act { m with scope := inner } = o, act' { m' with scope := inner } = o' at run
  cases run with
  | done more value machine _ => exact .done more value (machine.withScope _) hs
  | failed more fault machine => exact .failed more fault (machine.withScope _)
  | exhausted => exact .exhausted

theorem counted (h : Mirrors x y w scope act act' post) :
    Mirrors x y w scope (counted act) (MachineM.counted act') post := by
  intro m m' hm hs
  have run := h _ _ (hm.withCalls (· + 1)) hs
  unfold MachineM.counted
  generalize act { m with calls := m.calls + 1 } = o,
    act' { m' with calls := m'.calls + 1 } = o' at run
  cases run with
  | done more value machine back => exact .done more value (machine.withCalls (· - 1)) back
  | failed more fault machine => exact .failed more fault (machine.withCalls (· - 1))
  | exhausted => exact .exhausted

end Rules

/-! ## Primitive actions -/

section Primitives

variable {w : MarkedFrames} {scope inner : Scope} {marks : Marks} {v v' : Value} {z : String}

theorem settle {r : Except Fault Value} (t : Token) (data : ∀ v, r = .ok v → v.IsData) :
    Mirrors x y w scope (settle t r) (Action.settle t r) (Value.Renamed x y) := by
  cases r with
  | ok v => exact .pure (data v rfl).renamed
  | error fault => exact .raise (.refl t) fault

/-- A new scope, which may be marked. -/
theorem openScope (fit : marks.Fit w inner) (marked : Bool) :
    Mirrors x y w scope (openScope inner) (MachineM.openScope inner) fun w' fresh fresh' =>
      fresh' = fresh ∧ (marks.push marked).Fit w' fresh := by
  intro m m' hm hs
  have here : (w ++ [marked])[m.store.frames.size]? = some marked := by
    rw [← hm.store.marked, List.getElem?_concat_length]
  refine .done (List.prefix_append w [marked]) ⟨?_, ?_⟩ (hm.opened inner marked) hs
  · exact congrArg (· :: inner) hm.store.size
  · exact (fit.mono (List.prefix_append ..)).push here

theorem defineIn (fit : marks.Fit w inner) (hz : z ≠ y) (hv : v.Renamed x y w v') :
    Mirrors x y w scope (defineIn inner z v)
      (MachineM.defineIn inner (renamedName x y (marks 0) z) v') fun _ _ _ => True :=
  .change (fun _ _ hm _ => hm.withStore (hm.store.define fit hz hv)) (fun _ => rfl) trivial

theorem define (fit : marks.Fit w scope) (hz : z ≠ y) (hv : v.Renamed x y w v') :
    Mirrors x y w scope (define z v)
      (MachineM.define (renamedName x y (marks 0) z) v') fun _ _ _ => True := by
  refine .change (fun m m' hm hs => hm.withStore ?_) (fun _ => rfl) trivial
  rw [hm.scope_eq, hs]
  exact hm.store.define fit hz hv

theorem freshId : Mirrors x y w scope freshId freshId fun _ id id' => id' = id :=
  fun m m' hm hs => by
    refine .done (List.prefix_refl w) ?_ ⟨hm.store, hm.globals, hm.fields, ?_⟩ hs
    · exact congrArg (fun (_, _, nextId, _) => nextId) hm.rest
    · exact congrArg (fun (scope, calls, nextId, rest) => (scope, calls, nextId + 1, rest)) hm.rest

theorem newObject {k k' : Class} (hk : k.Renamed x y w k') :
    Mirrors x y w scope (newObject k) (MachineM.newObject k') (Value.Renamed x y) :=
  fun m m' hm hs => by
    have size : m'.fields.size = m.fields.size := hm.fields.size
    unfold MachineM.newObject
    rw [size]
    refine .done (List.prefix_refl w) (.object hk) ⟨hm.store, hm.globals, ⟨?_, ?_⟩, hm.rest⟩ hs
    · rw [Array.size_push, Array.size_push, size]
    · intro id z
      exact Store.read?_enter ⟨m.fields⟩ [] id z ▸ Store.read?_enter ⟨m'.fields⟩ [] id z ▸
        hm.fields.read id z

theorem setField (id : Nat) (z : String) (hv : v.Renamed x y w v') :
    Mirrors x y w scope (setField id z v) (MachineM.setField id z v') fun _ _ _ => True := by
  refine .change (fun m m' hm _ => ⟨hm.store, hm.globals, ⟨?_, fun other u => ?_⟩, hm.rest⟩)
    (fun _ => rfl) trivial
  · rw [Array.size_modify, Array.size_modify]
    exact hm.fields.size
  · show Option.Rel _ (Store.read? (Store.write ⟨m.fields⟩ id z v) other u)
      (Store.read? (Store.write ⟨m'.fields⟩ id z v') other u)
    have size : m'.fields.size = m.fields.size := hm.fields.size
    rw [Store.read?_write, Store.read?_write, size]
    split
    · exact .some hv
    · exact hm.fields.read other u

theorem field? (id : Nat) (z : String) :
    Mirrors x y w scope (field? id z) (MachineM.field? id z)
      fun w => Option.Rel (Value.Renamed x y w) :=
  .read fun _ _ hm _ => hm.fields.read id z

theorem print (line : String) :
    Mirrors x y w scope (print line) (MachineM.print line) fun _ _ _ => True := by
  refine .change (fun _ _ hm _ => ⟨hm.store, hm.globals, hm.fields, ?_⟩) (fun _ => rfl) trivial
  exact congrArg (fun (scope, calls, nextId, printed, rest) =>
    (scope, calls, nextId, printed.push line, rest)) hm.rest

theorem readClock : Mirrors x y w scope readClock readClock (Value.Renamed x y) :=
  fun m m' hm hs => by
    have clock : m'.clock m'.readings = m.clock m.readings :=
      congrArg (fun (_, _, _, _, clock, readings) => clock readings) hm.rest
    unfold MachineM.readClock
    rw [clock]
    refine .done (List.prefix_refl w) (.number _) ⟨hm.store, hm.globals, hm.fields, ?_⟩ hs
    exact congrArg (fun (scope, calls, nextId, printed, clock, readings) =>
      (scope, calls, nextId, printed, clock, readings + 1)) hm.rest

/-! ## Names -/

variable {t : Token}

theorem lookUp (fit : marks.Fit w scope) (lacks : t.lexeme ≠ y) (depth : Option Nat) :
    Mirrors x y w scope (lookUp t depth)
      (MachineM.lookUp (t.renamed x y (marks.leads depth)) depth) (Value.Renamed x y) := by
  intro m m' hm hs
  unfold MachineM.lookUp
  rw [hm.scope_eq, hs]
  cases depth with
  | some distance =>
      dsimp only [Token.renamed, Marks.leads]
      rcases rel_cases (hm.store.getAt? fit lacks distance) with
        ⟨h₁, h₂⟩ | ⟨v, v', h₁, h₂, hv⟩ <;> rw [h₁, h₂]
      · exact .failed (List.prefix_refl w) ⟨⟨_, rfl⟩, rfl⟩ hm
      · exact .done (List.prefix_refl w) hv hm hs
  | none =>
      have found := hm.store.read hm.globals lacks
      dsimp only [Token.renamed, Marks.leads]
      rw [Machine.globalScope, Store.get?_singleton, Store.get?_singleton]
      rcases rel_cases found with ⟨h₁, h₂⟩ | ⟨v, v', h₁, h₂, hv⟩ <;> rw [h₁, h₂]
      · exact .failed (List.prefix_refl w) ⟨⟨_, rfl⟩, rfl⟩ hm
      · exact .done (List.prefix_refl w) hv hm hs

theorem assign (fit : marks.Fit w scope) (lacks : t.lexeme ≠ y) (depth : Option Nat)
    (hv : v.Renamed x y w v') :
    Mirrors x y w scope (assign t depth v)
      (MachineM.assign (t.renamed x y (marks.leads depth)) depth v') fun _ _ _ => True := by
  rintro m m' hm rfl
  unfold MachineM.assign
  cases depth with
  | some distance =>
      dsimp only [Token.renamed, Marks.leads]
      have found : m'.store.frameAt? m'.scope distance (renamedName x y (marks distance) t.lexeme) =
          m.store.frameAt? m.scope distance t.lexeme := by
        rw [hm.scope_eq, hm.store.frameAt?_eq fit lacks]
      rw [found]
      cases hf : m.store.frameAt? m.scope distance t.lexeme with
      | none => exact .failed (List.prefix_refl w) ⟨⟨_, rfl⟩, rfl⟩ hm
      | some frame =>
          have here := fit distance frame (Store.frame_of_frameAt? hf)
          exact .done (List.prefix_refl w) trivial
            (hm.withStore (hm.store.write here lacks hv)) rfl
  | none =>
      have same := hm.store.binds_eq hm.globals lacks
      dsimp only [Token.renamed, Marks.leads]
      rw [Machine.globalScope, Store.frame?_singleton, Store.frame?_singleton, same]
      cases m.store.binds Machine.globalFrame t.lexeme with
      | true =>
          exact .done (List.prefix_refl w) trivial
            (hm.withStore (hm.store.write hm.globals lacks hv)) rfl
      | false => exact .failed (List.prefix_refl w) ⟨⟨_, rfl⟩, rfl⟩ hm

end Primitives

/-! ## Calls -/

section Calls

variable {w : MarkedFrames} {scope inner : Scope} {marks : Marks} {v v' : Value}
  {vs vs' : List Value}

theorem bindParameters (fit : marks.Fit w inner) {ps : List Token}
    (lacks : ∀ p ∈ ps, p.lexeme ≠ y) (hv : List.Forall₂ (Value.Renamed x y w) vs vs') :
    Mirrors x y w scope (bindParameters inner ps vs)
      (MachineM.bindParameters inner (ps.map (·.renamed x y (marks 0))) vs') fun _ _ _ => True := by
  induction ps generalizing w vs vs' with
  | nil => exact .pure trivial
  | cons p ps ih =>
      obtain ⟨hp, lacks⟩ := List.forall_mem_cons.1 lacks
      cases hv with
      | nil => exact .pure trivial
      | cons hv hvs =>
          exact (defineIn fit hp hv).bind fun _ _ _ more _ =>
            ih (fit.mono more) lacks (Value.forall₂_mono hvs more)

variable (names : Renamable x y)

include names

/-- What binds `this` or `super` is not renamed. -/
theorem defineThis (fit : marks.Fit w inner) (hv : v.Renamed x y w v') :
    Mirrors x y w scope (MachineM.defineIn inner "this" v)
      (MachineM.defineIn inner "this" v') fun _ _ _ => True := by
  have defined : Mirrors x y w scope _ _ _ := defineIn fit names.new_this.symm hv
  rwa [renamedName_of_ne fun _ => names.old_this.symm] at defined

theorem bindMethod {f f' : Closure} (hf : f.MethodRenamed x y w f')
    (hv : v.Renamed x y w v') :
    Mirrors x y w scope (bindMethod f v) (MachineM.bindMethod f' v')
      fun w' g g' => g.Renamed x y w' (·) g' := by
  obtain ⟨marks, fit, declaration⟩ := hf.declaration
  unfold MachineM.bindMethod
  rw [hf.scope]
  refine (openScope fit false).bind ?_
  rintro w' fresh _ more ⟨rfl, fit'⟩
  refine (defineThis names fit' (hv.mono more)).bind fun _ _ _ more' _ => .pure ?_
  exact ⟨⟨_, fit'.mono more', declaration⟩, rfl, hf.isInitializer⟩

theorem receiver {f f' : Closure} (hf : f.Renamed x y w (·) f') :
    Mirrors x y w scope (receiver f) (MachineM.receiver f') (Value.Renamed x y) := by
  obtain ⟨marks, fit, -⟩ := hf.declaration
  refine .read fun m m' hm _ => ?_
  have found := hm.store.getAt? fit names.new_this.symm 0
  rw [renamedName_of_ne fun _ => names.old_this.symm, ← hf.scope] at found
  rw [← hf.scope]
  rcases rel_cases found with ⟨h₁, h₂⟩ | ⟨v, v', h₁, h₂, hv⟩ <;> rw [h₁, h₂]
  · exact .nil
  · exact hv

omit names

theorem newFunction {f f' : Closure} (hf : f.Renamed x y w (·) f') :
    Mirrors x y w scope (newFunction f) (MachineM.newFunction f') (Value.Renamed x y) := by
  refine freshId.bind ?_
  rintro w' id _ more rfl
  exact .pure (.function (hf.mono more))

variable (x y) in
/-- Ways to run a body that mirror each other on a body and the renamed body. -/
def Bodies (run run' : List Stmt → MachineM Flow) : Prop :=
  ∀ {w scope marks ss ss'}, Stmt.AllRenamed x y marks ss ss' → marks.Fit w scope →
    Mirrors x y w scope (run ss) (run' ss') (Flow.Renamed x y)

variable {run run' : List Stmt → MachineM Flow}

include names

theorem enter (bodies : Bodies x y run run') {f f' : Closure} (hf : f.Renamed x y w (·) f')
    (hv : List.Forall₂ (Value.Renamed x y w) vs vs') :
    Mirrors x y w scope (enter run f vs) (MachineM.enter run' f' vs') (Value.Renamed x y) := by
  obtain ⟨marks, fit, declaration⟩ := hf.declaration
  unfold MachineM.enter
  rw [hf.scope, hf.isInitializer]
  generalize hd : f.declaration = d, hd' : f'.declaration = d' at declaration
  cases declaration with
  | mk marked lacks body =>
      refine (openScope fit marked).bind ?_
      rintro w' fresh _ more ⟨rfl, fit'⟩
      refine (bindParameters fit' lacks (Value.forall₂_mono hv more)).bind fun w₂ _ _ more' _ => ?_
      refine (inScope (bodies body (fit'.mono more'))).bind fun w₃ flow flow' more'' hflow => ?_
      refine .ite (receiver names (hf.mono ((more.trans more').trans more''))) (.pure ?_)
      cases hflow with
      | next => exact .nil
      | returned h => exact h

theorem invoke (bodies : Bodies x y run run') {f f' : Callable} (hf : f.Renamed x y w f')
    (hv : List.Forall₂ (Value.Renamed x y w) vs vs') :
    Mirrors x y w scope (invoke run f vs) (MachineM.invoke run' f' vs') (Value.Renamed x y) := by
  cases hf with
  | clock => exact readClock
  | closure hf => exact enter names bodies hf hv
  | construct hk =>
      refine (newObject hk).bind fun w' o o' more ho => ?_
      rcases rel_cases ((hk.mono more).method initializerName) with
        ⟨h₁, h₂⟩ | ⟨f, g, h₁, h₂, hf⟩ <;> rw [Class.initializer?, Class.initializer?, h₁, h₂]
      · exact .pure ho
      · refine (bindMethod names hf ho).bind fun w₂ f f' more' hf => ?_
        refine (enter names bodies hf (Value.forall₂_mono hv (more.trans more'))).bind
          fun w₃ _ _ more'' _ => .pure (ho.mono (more'.trans more''))

theorem apply (bodies : Bodies x y run run') (t : Token) (hf : v.Renamed x y w v')
    (hv : List.Forall₂ (Value.Renamed x y w) vs vs') :
    Mirrors x y w scope (apply run t v vs) (MachineM.apply run' t v' vs') (Value.Renamed x y) :=
  fun m m' hm hs => by
    unfold MachineM.apply
    rcases rel_cases hf.callable with ⟨h₁, h₂⟩ | ⟨f, f', h₁, h₂, h⟩ <;> rw [h₁, h₂]
    · exact .failed (List.prefix_refl w) ⟨.refl t, rfl⟩ hm
    · dsimp only
      rw [h.arity_eq, ← hv.length_eq, hm.calls_eq]
      split
      · exact .failed (List.prefix_refl w) ⟨.refl t, rfl⟩ hm
      split
      · exact .failed (List.prefix_refl w) ⟨.refl t, rfl⟩ hm
      · exact (invoke names bodies h hv).counted m m' hm hs

theorem property (id : Nat) {k k' : Class} (hk : k.Renamed x y w k') (t : Token) :
    Mirrors x y w scope (property id k t) (MachineM.property id k' t) (Value.Renamed x y) := by
  refine (field? id t.lexeme).bind fun w' o o' more ho => ?_
  have hk := hk.mono more
  cases ho with
  | some hv => exact .pure hv
  | none =>
      dsimp only
      rcases rel_cases (hk.method t.lexeme) with ⟨h₁, h₂⟩ | ⟨f, f', h₁, h₂, hf⟩ <;> rw [h₁, h₂]
      · exact .raise (.refl t) _
      · exact (bindMethod names hf (.object hk)).bind fun _ _ _ _ hf => newFunction hf

theorem superMethod (fit : marks.Fit w scope) (t method : Token) (depth : Option Nat) :
    Mirrors x y w scope (superMethod t depth method) (MachineM.superMethod t depth method)
      (Value.Renamed x y) := by
  unfold MachineM.superMethod
  cases depth with
  | none => exact .raise (.refl t) _
  | some distance =>
      have found {w' : MarkedFrames} (more : w <+: w') {z : String} (old : z ≠ x) (new : z ≠ y)
          (at' : Nat) {m m' : Machine} (hm : m.Renamed x y w' m') (hs : m.scope = scope) :
          Option.Rel (Value.Renamed x y w') (m.store.getAt? m.scope at' z)
            (m'.store.getAt? m'.scope at' z) := by
        have found := hm.store.getAt? (fit.mono more) new at'
        rw [hm.scope_eq, hs]
        rwa [renamedName_of_ne fun _ => old] at found
      have parent : Mirrors x y w scope
          (Action.read fun m => m.store.getAt? m.scope distance "super")
          (Action.read fun m => m.store.getAt? m.scope distance "super")
          fun w => Option.Rel (Value.Renamed x y w) :=
        .read fun _ _ => found (List.prefix_refl w) names.old_super.symm names.new_super.symm _
      refine parent.bind fun w' o o' more ho => ?_
      cases ho with
      | none => exact .raise (.refl t) _
      | some hv =>
          cases hv with
          | ofClass hp =>
              have this : Mirrors x y w' scope
                  (Action.read fun m =>
                    if distance = 0 then none else m.store.getAt? m.scope (distance - 1) "this")
                  (Action.read fun m =>
                    if distance = 0 then none else m.store.getAt? m.scope (distance - 1) "this")
                  fun w => Option.Rel (Value.Renamed x y w) := by
                refine .read fun m m' hm hs => ?_
                split
                · exact .none
                · exact found more names.old_this.symm names.new_this.symm _ hm hs
              refine this.bind fun w₂ o o' more' ho => ?_
              have hp := hp.mono more'
              cases ho with
              | none => exact .raise (.refl t) _
              | some hv =>
                  cases hv with
                  | object hk =>
                      dsimp only
                      rcases rel_cases (hp.method method.lexeme) with
                        ⟨h₁, h₂⟩ | ⟨f, f', h₁, h₂, hf⟩ <;> rw [h₁, h₂]
                      · exact .raise (.refl method) _
                      · exact (bindMethod names hf (.object hk)).bind
                          fun _ _ _ _ hf => newFunction hf
                  | _ => exact .raise (.refl t) _
          | _ => exact .raise (.refl t) _

end Calls

/-! ## Classes -/

section Classes

variable {w : MarkedFrames} {scope inner : Scope} {marks : Marks} {v v' : Value} {z : String}
  {fs fs' : List FunctionDecl} {t t' : Token} {k k' : Class}

/-- A name that is not renamed defined, and what follows with the name bound. -/
theorem define_bound {α β : Type} {next : MachineM α} {next' : MachineM β}
    {post : MarkedFrames → α → β → Prop} (fit : marks.Fit w scope) (lacks : z ≠ y)
    (other : marks 0 = true → z ≠ x) (hv : v.Renamed x y w v')
    (hn : MirrorsBound x y z w scope next next' post) :
    Mirrors x y w scope (MachineM.define z v >>= fun _ => next)
      (MachineM.define z v' >>= fun _ => next') post := by
  rintro m m' hm rfl
  have store := hm.store.define fit lacks hv
  rw [renamedName_of_ne other, ← hm.scope_eq] at store
  refine hn _ _ (hm.withStore (hm.scope_eq ▸ store)) rfl fun frame hf => ?_
  obtain ⟨outer, hs⟩ := List.head?_eq_some_iff.1 hf
  have inside : frame < m.store.frames.size := by
    rw [← hm.store.marked]
    exact (List.getElem?_eq_some_iff.1 (fit 0 frame (hs ▸ rfl))).1
  show (m.store.define m.scope z v).binds frame z = true
  rw [hs]
  exact Store.binds_write.2 (.inl ⟨rfl, rfl, inside⟩)

theorem methodTable_renamed (fit : marks.Fit w scope)
    (h : FunctionDecl.AllRenamed x y (marks.push false) fs fs') :
    List.Forall₂ (fun entry entry' => entry'.1 = entry.1 ∧ entry.2.MethodRenamed x y w entry'.2)
      (methodTable scope fs) (methodTable scope fs') := by
  unfold MachineM.methodTable
  rw [List.forall₂_map_left_iff, List.forall₂_map_right_iff, List.forall₂_reverse_iff]
  refine h.forall₂.imp fun f f' hf => ?_
  exact ⟨congrArg Token.lexeme hf.name_eq, ⟨⟨marks, fit, hf⟩, rfl, hf.isInitializer_eq⟩⟩

theorem newClass {parent parent' : Option Class}
    (hp : Option.Rel (Class.Renamed x y w) parent parent') (fit : marks.Fit w inner)
    (hf : FunctionDecl.AllRenamed x y (marks.push false) fs fs') :
    Mirrors x y w scope (newClass z parent inner fs) (MachineM.newClass z parent' inner fs')
      (Class.Renamed x y) := by
  refine freshId.bind ?_
  rintro w' id _ more rfl
  refine .pure (List.Forall₂.cons ⟨rfl, rfl, methodTable_renamed (fit.mono more) hf⟩ ?_)
  cases hp with
  | none => exact .nil
  | some h => exact h.mono more

theorem assignClass (fit : marks.Fit w scope) (lacks : t.lexeme ≠ y)
    (other : marks 0 = true → t.lexeme ≠ x) (hk : k.Renamed x y w k') :
    MirrorsBound x y t.lexeme w scope (assignClass t k) (MachineM.assignClass t k')
      fun _ _ _ => True := by
  rintro m m' hm rfl bound
  have same_scope := hm.scope_eq
  unfold MachineM.assignClass
  cases hs : m.scope.head? with
  | none =>
      rw [same_scope, List.head?_eq_none_iff.1 hs]
      exact .failed (List.prefix_refl w) ⟨.refl t, rfl⟩ hm
  | some frame =>
      have here := fit 0 frame (List.head?_eq_getElem? .. ▸ hs)
      have binds := bound frame hs
      have same := hm.store.binds_eq here lacks
      rw [renamedName_of_ne other, binds] at same
      rw [Store.frame?_of_head hs binds, Store.frame?_of_head (same_scope ▸ hs) same]
      have written := hm.store.write here lacks (.ofClass hk)
      rw [renamedName_of_ne other] at written
      exact .done (List.prefix_refl w) trivial (hm.withStore written) rfl

/-- The two may find different superclass tokens only if one is renamed. -/
theorem superclassToken_renamed {e e' : Expr} (he : e.Renamed x y marks e') :
    (superclassToken t e).Renaming x y (superclassToken t e') := by
  cases he with
  | name depth _ => exact ⟨_, rfl⟩
  | _ => exact .refl t

theorem declareClass (names : Renamable x y) (fit : marks.Fit w scope) (lacks : t.lexeme ≠ y)
    (other : marks 0 = true → t.lexeme ≠ x)
    {superclass superclass' : Option (Token × MachineM Value)}
    (hs : Option.Rel (fun p p' => p.1.Renaming x y p'.1 ∧ (∀ m, Evolving none p.2 m) ∧
      ∀ {w'}, w <+: w' → Mirrors x y w' scope p.2 p'.2 (Value.Renamed x y)) superclass superclass')
    (hf : FunctionDecl.AllRenamed x y (marks.inMethods superclass.isSome) fs fs') :
    Mirrors x y w scope (declareClass t superclass fs) (MachineM.declareClass t superclass' fs')
      fun _ _ _ => True := by
  -- The class is assigned to the binding that is made first. Whatever runs meanwhile keeps it, so
  -- that both searches by name stop at the innermost frame and no renamed frame is looked at.
  refine define_bound fit lacks other .nil ?_
  refine bind_bound inForce (fun _ => (Evolving.read _ : Evolving none _ _)) ?_
  rintro w₁ _ scope more₁ ⟨rfl, rfl⟩
  cases hs with
  | none =>
      refine bind_bound (newClass .none (fit.mono more₁) hf)
        (fun _ => (Evolving.newClass .. : Evolving none _ _)) fun w₂ _ _ more₂ hk => ?_
      exact assignClass (fit.mono (more₁.trans more₂)) lacks other hk
  | @some p p' h =>
      obtain ⟨ht, evolving, hv⟩ := h
      refine bind_bound (hv more₁) evolving fun w₂ v v' more₂ hv => ?_
      cases hv with
      | ofClass hp =>
          have fit₂ := fit.mono (more₁.trans more₂)
          refine bind_bound (openScope fit₂ false)
            (fun m => .of_store rfl rfl rfl (Store.Extends.enter m.store scope)) ?_
          rintro w₃ inner _ more₃ ⟨rfl, fit₃⟩
          have defined : Mirrors x y w₃ scope _ _ _ :=
            defineIn fit₃ names.new_super.symm ((Value.Renamed.ofClass hp).mono more₃)
          rw [renamedName_of_ne fun _ => names.old_super.symm] at defined
          refine bind_bound defined (fun m => .of_store rfl rfl rfl (Store.Extends.define ..))
            fun w₄ _ _ more₄ _ => ?_
          refine bind_bound (newClass (.some (hp.mono (more₃.trans more₄))) (fit₃.mono more₄) hf)
            (fun _ => (Evolving.newClass .. : Evolving none _ _)) fun w₅ _ _ more₅ hk => ?_
          exact assignClass (fit₂.mono (more₃.trans (more₄.trans more₅))) lacks other hk
      | _ => exact (Mirrors.raise ht _).bound

/-! ## Lists and loops -/

theorem evalAll {run run' : Expr → MachineM Value}
    (hrun : ∀ {w scope marks e e'}, e.Renamed x y marks e' → marks.Fit w scope →
      Mirrors x y w scope (run e) (run' e') (Value.Renamed x y))
    {es es' : List Expr} (h : Expr.AllRenamed x y marks es es') (fit : marks.Fit w scope) :
    Mirrors x y w scope (evalAll run es) (Action.evalAll run' es')
      fun w => List.Forall₂ (Value.Renamed x y w) := by
  induction es generalizing w es' with
  | nil =>
      cases h with
      | nil => exact .pure .nil
  | cons e es ih =>
      cases h with
      | cons head tail =>
          refine (hrun head fit).bind fun w₁ _ _ more₁ hv => ?_
          exact (ih tail (fit.mono more₁)).bind fun w₂ _ _ more₂ hvs =>
            .pure (.cons (hv.mono more₂) hvs)

theorem execAll {run run' : Stmt → MachineM Flow}
    (hrun : ∀ {w scope marks s s'}, s.Renamed x y marks s' → marks.Fit w scope →
      Mirrors x y w scope (run s) (run' s') (Flow.Renamed x y)) :
    Bodies x y (execAll run) (Action.execAll run') := by
  intro w scope marks ss ss' h fit
  induction ss generalizing w ss' with
  | nil =>
      cases h with
      | nil => exact .pure .next
  | cons s ss ih =>
      cases h with
      | cons head tail =>
          refine (hrun head fit).bind fun w₁ flow flow' more₁ hflow => ?_
          cases hflow with
          | next => exact ih tail (fit.mono more₁)
          | returned hv => exact .pure (.returned hv)

theorem loop {test test' : MachineM Value} {body body' : MachineM Flow}
    (htest : ∀ {w}, marks.Fit w scope → Mirrors x y w scope test test' (Value.Renamed x y))
    (hbody : ∀ {w}, marks.Fit w scope → Mirrors x y w scope body body' (Flow.Renamed x y))
    (fit : marks.Fit w scope) (fuel : Nat) :
    Mirrors x y w scope (loop test body fuel) (Action.loop test' body' fuel)
      (Flow.Renamed x y) := by
  induction fuel generalizing w with
  | zero => exact .exhausted
  | succ fuel ih =>
      refine (htest fit).bind fun w₁ v v' more₁ hv => ?_
      rw [hv.truthy_eq]
      refine .ite ((hbody (fit.mono more₁)).bind fun w₂ flow flow' more₂ hflow => ?_)
        (.pure .next)
      cases hflow with
      | next => exact ih (fit.mono (more₁.trans more₂))
      | returned h => exact .pure (.returned h)

end Classes

end Mirrors

/-! ## Evaluation -/

section Evaluation

variable {w : MarkedFrames} {scope : Scope} {marks : Marks} {fuel : Nat}

theorem Literal.value_renamed (l : Literal) : l.value.Renamed x y w l.value := by
  cases l with
  | nil => exact .nil
  | bool b => exact .bool b
  | number x => exact .number _
  | string s => exact .string s

variable (x y) in
/-- With this fuel an expression and the renamed expression mirror each other. -/
def EvalMirrors (fuel : Nat) : Prop := ∀ {w scope marks e e'}, e.Renamed x y marks e' →
  marks.Fit w scope → Mirrors x y w scope (eval fuel e) (eval fuel e') (Value.Renamed x y)

variable (x y) in
/-- With this fuel a statement and the renamed statement mirror each other. -/
def ExecMirrors (fuel : Nat) : Prop := ∀ {w scope marks s s'}, s.Renamed x y marks s' →
  marks.Fit w scope → Mirrors x y w scope (exec fuel s) (exec fuel s') (Flow.Renamed x y)

variable (names : Renamable x y)

include names

theorem EvalMirrors.succ (heval : EvalMirrors x y fuel) (hexec : ExecMirrors x y fuel) :
    EvalMirrors x y (fuel + 1) := by
  intro w scope marks e e' h fit
  cases h with
  | literal l => exact .pure l.value_renamed
  | group inner => exact heval inner fit
  | @unary operator _ _ operand =>
      refine (heval operand fit).bind fun w₁ v v' _ hv => ?_
      rw [hv.unary_eq]
      exact .settle operator fun _ => Value.unary_isData
  | @binary operator _ _ _ _ left right =>
      refine (heval left fit).bind fun w₁ v v' more₁ hv => ?_
      refine (heval right (fit.mono more₁)).bind fun w₂ u u' more₂ hu => ?_
      rw [(hv.mono more₂).binary_eq hu]
      exact .settle operator fun _ => Value.binary_isData
  | logical left right =>
      refine (heval left fit).bind fun w₁ v v' more₁ hv => ?_
      rw [hv.shortCircuits_eq]
      exact .ite (.pure hv) (heval right (fit.mono more₁))
  | name depth lacks => exact .lookUp fit lacks depth
  | assign depth lacks value =>
      refine (heval value fit).bind fun w₁ v v' more₁ hv => ?_
      exact (Mirrors.assign (fit.mono more₁) lacks depth hv).bind fun _ _ _ more₂ _ =>
        .pure (hv.mono more₂)
  | call callee arguments =>
      refine (heval callee fit).bind fun w₁ f f' more₁ hf => ?_
      refine (Mirrors.evalAll heval arguments (fit.mono more₁)).bind fun w₂ vs vs' more₂ hvs => ?_
      exact .apply names (.execAll hexec) _ (hf.mono more₂) hvs
  | @get property _ _ object =>
      refine (heval object fit).bind fun w₁ v v' _ hv => ?_
      cases hv with
      | object hk => exact .property names _ hk property
      | _ => exact .raise (.refl property) _
  | @set property _ _ _ _ object value =>
      refine (heval object fit).bind fun w₁ v v' more₁ hv => ?_
      cases hv with
      | object hk =>
          refine (heval value (fit.mono more₁)).bind fun w₂ u u' _ hu => ?_
          exact (Mirrors.setField _ _ hu).bind fun _ _ _ more₃ _ => .pure (hu.mono more₃)
      | _ => exact .raise (.refl property) _
  | @this keyword depth spelled =>
      -- A lookup like that of a variable, but `this` has neither name.
      have found : Mirrors x y w scope _ _ _ :=
        .lookUp fit (spelled ▸ names.new_this.symm : keyword.lexeme ≠ y) depth
      rwa [Token.renamed_of_ne fun _ => spelled ▸ names.old_this.symm] at found
  | super keyword depth method => exact .superMethod names fit keyword method depth

theorem ExecMirrors.succ (heval : EvalMirrors x y fuel) (hexec : ExecMirrors x y fuel) :
    ExecMirrors x y (fuel + 1) := by
  intro w scope marks s s' h fit
  cases h with
  | expr value => exact (heval value fit).bind fun _ _ _ _ _ => .pure .next
  | print value =>
      refine (heval value fit).bind fun _ v v' _ hv => ?_
      rw [hv.text_eq]
      exact (Mirrors.print _).bind fun _ _ _ _ _ => .pure .next
  | var lacks initial =>
      cases initial with
      | none => exact (Mirrors.define fit lacks .nil).bind fun _ _ _ _ _ => .pure .next
      | some value =>
          refine (heval value fit).bind fun _ _ _ more hv => ?_
          exact (Mirrors.define (fit.mono more) lacks hv).bind fun _ _ _ _ _ => .pure .next
  | block marked body =>
      refine Mirrors.inForce.bind ?_
      rintro w₁ _ _ more₁ ⟨rfl, rfl⟩
      refine (Mirrors.openScope (fit.mono more₁) marked).bind ?_
      rintro w₂ fresh _ more₂ ⟨rfl, fit₂⟩
      exact .inScope (Mirrors.execAll hexec body fit₂)
  | ifThen condition consequent =>
      refine (heval condition fit).bind fun _ v v' more hv => ?_
      rw [hv.truthy_eq]
      exact .ite (hexec consequent (fit.mono more)) (.pure .next)
  | ifElse condition consequent alternative =>
      refine (heval condition fit).bind fun _ v v' more hv => ?_
      rw [hv.truthy_eq]
      exact .ite (hexec consequent (fit.mono more)) (hexec alternative (fit.mono more))
  | whileDo condition body => exact .loop (heval condition) (hexec body) fit fuel
  | @function _ f f' lacks other declaration =>
      refine Mirrors.inForce.bind ?_
      rintro w₁ _ _ more₁ ⟨rfl, rfl⟩
      have closure {s : Scope} (fit : marks.Fit w₁ s) :
          Closure.Renamed x y w₁ (·) ⟨f, s, false⟩ ⟨f', s, false⟩ :=
        ⟨⟨marks, fit, declaration⟩, rfl, rfl⟩
      refine (Mirrors.newFunction (closure (fit.mono more₁))).bind fun w₂ _ _ more₂ hf => ?_
      have defined := Mirrors.define (fit.mono (more₁.trans more₂)) lacks hf
      rw [renamedName_of_ne other] at defined
      rw [declaration.name_eq]
      exact defined.bind fun _ _ _ _ _ => .pure .next
  | returning value =>
      cases value with
      | none => exact .pure (.returned .nil)
      | some value => exact (heval value fit).bind fun _ _ _ _ hv => .pure (.returned hv)
  | @classDecl _ t o o' fs fs' lacks other superclass methods =>
      refine (Mirrors.declareClass names fit lacks other ?_
        (by rwa [Option.isSome_map])).bind fun _ _ _ _ _ => .pure .next
      cases superclass with
      | none => exact .none
      | some h => exact .some ⟨Mirrors.superclassToken_renamed h, (evolving fuel).1 _,
          fun more => heval h (fit.mono more)⟩

/-- A tree and the renamed tree mirror each other. -/
theorem mirrors (fuel : Nat) : EvalMirrors x y fuel ∧ ExecMirrors x y fuel := by
  induction fuel with
  | zero => exact ⟨fun _ _ => .exhausted, fun _ _ => .exhausted⟩
  | succ fuel ih => exact ⟨EvalMirrors.succ names ih.1 ih.2, ExecMirrors.succ names ih.1 ih.2⟩

end Evaluation

end LoxLang
