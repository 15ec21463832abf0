import LoxLang.Proofs.SkippedMachines

/-!
# Runs with and without the extra scopes

An action of the program as it is written follows one of the program without
`for` statements if, from machines that are the same but for the extra frames,
both end with values that are the same but for depths, or both fail with the
same fault, or both run out of fuel. There is a rule for each primitive action
and for each way to compose actions, and one more: when an extra scope is
entered, only the first side makes a frame.

From these rules it follows that the tree as it is written follows the tree
without `for` statements wherever the frames in force fit the layers.
-/

namespace LoxLang

open LoxLang.Action MachineM
open Layers (Steps)
open Written (Place State Run)

/-- The actions have ended alike, each in the scope in which it was started. -/
inductive Outcome.Skips {α β : Type} (w : SkippedFrames) (scope scope' : Scope)
    (post : SkippedFrames → α → β → Prop) : Outcome Machine α → Outcome State β → Prop
  | done {a : α} {b : β} {m : Machine} {m' : State} {w' : SkippedFrames} (more : w <+: w')
      (value : post w' a b) (machine : m.Skips w' m') (back : m.scope = scope)
      (back' : m'.scope = scope') : Outcome.Skips w scope scope' post (.done a m) (.done b m')
  | failed {e : Located Fault} {m : Machine} {m' : State} {w' : SkippedFrames} (more : w <+: w')
      (machine : m.Skips w' m') (back : m.scope = scope) (back' : m'.scope = scope') :
      Outcome.Skips w scope scope' post (.failed e m) (.failed e m')
  | exhausted : Outcome.Skips w scope scope' post .exhausted .exhausted

/-- Started in scopes that fit, in machines that are the same but for the extra frames, the actions
end alike. -/
def Follows {α β : Type} (w : SkippedFrames) (scope scope' : Scope) (act : MachineM α)
    (act' : Run β) (post : SkippedFrames → α → β → Prop) : Prop :=
  ∀ m m', m.Skips w m' → m.scope = scope → m'.scope = scope' →
    Outcome.Skips w scope scope' post (act m) (act' m')

theorem Outcome.Skips.weaken {α β : Type} {w w' : SkippedFrames} {scope scope' : Scope}
    {post : SkippedFrames → α → β → Prop} {o : Outcome Machine α} {o' : Outcome State β}
    (h : Outcome.Skips w' scope scope' post o o') (more : w <+: w') :
    Outcome.Skips w scope scope' post o o' := by
  cases h with
  | done more' value machine back back' =>
      exact .done (more.trans more') value machine back back'
  | failed more' machine back back' => exact .failed (more.trans more') machine back back'
  | exhausted => exact .exhausted

namespace Machine.Skips

variable {w : SkippedFrames} {m : Machine} {m' : State} {s : Store Value}
  {s' : Store (Value Place)}

theorem calls_eq (h : m.Skips w m') : m'.calls = m.calls :=
  congrArg (fun (calls, _) => calls) h.rest

theorem withStore (h : m.Skips w m') (hs : s.Skips w s') :
    Machine.Skips w { m with store := s } { m' with store := s' } :=
  ⟨hs, h.globals, h.fields, h.rest⟩

/-- The scope in force makes no difference. -/
theorem withScope (h : m.Skips w m') (scope scope' : Scope) :
    Machine.Skips w { m with scope := scope } { m' with scope := scope' } :=
  ⟨h.store, h.globals, h.fields, h.rest⟩

theorem withCalls (h : m.Skips w m') (f : Nat → Nat) :
    Machine.Skips w { m with calls := f m.calls } { m' with calls := f m'.calls } :=
  ⟨h.store, h.globals, h.fields, congrArg (fun (calls, rest) => (f calls, rest)) h.rest⟩

/-- More frames, for stores that know of them. -/
theorem opened {o : Option Nat} (h : m.Skips w m') (hs : s.Skips (w ++ [o]) s') :
    Machine.Skips (w ++ [o]) { m with store := s } { m' with store := s' } where
  store := hs
  globals := SkippedFrames.getElem?_mono (List.prefix_append ..) h.globals
  fields := ⟨h.fields.size, fun id x =>
    rel_imp (fun _ _ hv => hv.mono (List.prefix_append ..)) (h.fields.read id x)⟩
  rest := h.rest

end Machine.Skips

/-! ## Composed actions -/

namespace Follows

section Rules

variable {α β γ δ : Type} {w : SkippedFrames} {layers : Layers} {scope scope' : Scope}
  {act : MachineM α} {act' : Run β} {post : SkippedFrames → α → β → Prop}

theorem pure {a : α} {b : β} (h : post w a b) :
    Follows w scope scope' (pure a) (Pure.pure b) post :=
  fun _ _ hm hs hs' => .done (List.prefix_refl w) h hm hs hs'

theorem exhausted :
    Follows w scope scope' (exhausted : MachineM α) (Action.exhausted : Run β) post :=
  fun _ _ _ _ _ => .exhausted

theorem raise (t : Token) (fault : Fault) :
    Follows w scope scope' (raise t fault : MachineM α) (Action.raise t fault : Run β) post :=
  fun _ _ hm hs hs' => .failed (List.prefix_refl w) hm hs hs'

theorem bind {next : α → MachineM γ} {next' : β → Run δ} {post' : SkippedFrames → γ → δ → Prop}
    (h : Follows w scope scope' act act' post)
    (hn : ∀ w' a b, w <+: w' → post w' a b →
      Follows w' scope scope' (next a) (next' b) post') :
    Follows w scope scope' (act >>= next) (act' >>= next') post' := by
  intro m m' hm hs hs'
  have first := h m m' hm hs hs'
  show Outcome.Skips _ _ _ _ (Action.bind act next m) (Action.bind act' next' m')
  unfold Action.bind
  generalize act m = o, act' m' = o' at first
  cases first with
  | done more value machine back back' =>
      exact (hn _ _ _ more value _ _ machine back back').weaken more
  | failed more machine back back' => exact .failed more machine back back'
  | exhausted => exact .exhausted

theorem read {f : Machine → α} {g : State → β}
    (h : ∀ m m', m.Skips w m' → m.scope = scope → m'.scope = scope' → post w (f m) (g m')) :
    Follows w scope scope' (read f) (Action.read g) post :=
  fun m m' hm hs hs' => .done (List.prefix_refl w) (h m m' hm hs hs') hm hs hs'

/-- The scopes in force read. -/
theorem inForce : Follows w scope scope' (Action.read (·.scope)) (Action.read (·.scope))
    fun _ s s' => s = scope ∧ s' = scope' :=
  .read fun _ _ _ hs hs' => ⟨hs, hs'⟩

theorem change {f : Machine → Machine} {g : State → State}
    {post : SkippedFrames → Unit → Unit → Prop}
    (h : ∀ m m', m.Skips w m' → m.scope = scope → m'.scope = scope' → (f m).Skips w (g m'))
    (hf : ∀ m, (f m).scope = m.scope) (hg : ∀ m, (g m).scope = m.scope) (hp : post w () ()) :
    Follows w scope scope' (change f) (Action.change g) post :=
  fun m m' hm hs hs' => .done (List.prefix_refl w) hp (h m m' hm hs hs') ((hf m).trans hs)
    ((hg m').trans hs')

theorem ite {p : Prop} [Decidable p] {other : MachineM α} {other' : Run β}
    (h : Follows w scope scope' act act' post) (h' : Follows w scope scope' other other' post) :
    Follows w scope scope' (if p then act else other) (if p then act' else other') post := by
  split
  · exact h
  · exact h'

theorem inScope {inner inner' : Scope} (h : Follows w inner inner' act act' post) :
    Follows w scope scope' (inScope inner act) (Written.inScope inner' act') post := by
  intro m m' hm hs hs'
  have run := h _ _ (hm.withScope inner inner') rfl rfl
  unfold MachineM.inScope Written.inScope
  dsimp only
  generalize act { m with scope := inner } = o, act' { m' with scope := inner' } = o' at run
  cases run with
  | done more value machine _ _ => exact .done more value (machine.withScope _ _) hs hs'
  | failed more machine _ _ => exact .failed more (machine.withScope _ _) hs hs'
  | exhausted => exact .exhausted

/-- A block whose scope is extra: only its first side opens a scope. -/
theorem inExtra (fit : layers.Fit w scope scope')
    (h : ∀ {w' inner}, w <+: w' → Layers.Fit w' (.extra :: layers) inner scope' →
      Follows w' inner scope' act act' post) :
    Follows w scope scope'
      (do
        let outer ← Action.read (·.scope)
        let inner ← openScope outer
        MachineM.inScope inner act)
      act' post := by
  rintro m m' hm rfl rfl
  -- The machine of the second side stays as it is; the new frame of the first stands for nothing.
  have more : w <+: w ++ [none] := List.prefix_append ..
  have here : (w ++ [none])[m.store.frames.size]? = some none := by
    rw [← hm.store.tracked, List.getElem?_concat_length]
  have machine := hm.opened (hm.store.enterExtra m.scope)
  have run := h more (.extra here (fit.mono more)) _ _
    (machine.withScope (m.store.frames.size :: m.scope) m'.scope) rfl rfl
  show Outcome.Skips _ _ _ _ (MachineM.inScope (m.store.frames.size :: m.scope) act
    { m with store := (m.store.enter m.scope).2 }) _
  unfold MachineM.inScope
  dsimp only at run ⊢
  generalize act _ = o, act' m' = o' at run
  cases run with
  | done more' value machine _ back' =>
      exact .done (more.trans more') value (machine.withScope _ _) rfl back'
  | failed more' machine _ back' =>
      exact .failed (more.trans more') (machine.withScope m.scope _) rfl back'
  | exhausted => exact .exhausted

theorem counted (h : Follows w scope scope' act act' post) :
    Follows w scope scope' (counted act) (Written.counted act') post := by
  intro m m' hm hs hs'
  have run := h _ _ (hm.withCalls (· + 1)) hs hs'
  unfold MachineM.counted Written.counted
  generalize act { m with calls := m.calls + 1 } = o,
    act' { m' with calls := m'.calls + 1 } = o' at run
  cases run with
  | done more value machine back back' =>
      exact .done more value (machine.withCalls (· - 1)) back back'
  | failed more machine back back' =>
      exact .failed more (machine.withCalls (· - 1)) back back'
  | exhausted => exact .exhausted

end Rules

/-! ## Primitive actions -/

section Primitives

variable {w : SkippedFrames} {scope scope' inner inner' : Scope} {layers within : Layers}
  {v : Value} {v' : Value Place} {x : String}

theorem settle {r : Except Fault Value} {r' : Except Fault (Value Place)} (t : Token)
    (same : r'.map Value.bare = r.map Value.bare) (data : ∀ v, r = .ok v → v.IsData) :
    Follows w scope scope' (settle t r) (Action.settle t r') Value.Skips := by
  cases r with
  | ok v =>
      cases r' with
      | ok v' => exact .pure ((data v rfl).skips (Except.ok.inj same))
      | error => cases same
  | error fault =>
      cases r' with
      | ok => cases same
      | error fault' =>
          cases same
          exact .raise t fault

/-- A new scope on each side. -/
theorem openScope (fit : within.Fit w inner inner') :
    Follows w scope scope' (openScope inner) (Written.openScope inner') fun w' fresh fresh' =>
      Layers.Fit w' (.kept :: within) fresh fresh' := by
  intro m m' hm hs hs'
  have more : w <+: w ++ [some m'.store.frames.size] := List.prefix_append ..
  have here : (w ++ [some m'.store.frames.size])[m.store.frames.size]? =
      some (some m'.store.frames.size) := by
    rw [← hm.store.tracked, List.getElem?_concat_length]
  exact .done more (.kept here (fit.mono more)) (hm.opened (hm.store.enter inner inner')) hs hs'

theorem defineIn (fit : within.Fit w inner inner') (isOpen : within.Open) (hv : v.Skips w v') :
    Follows w scope scope' (defineIn inner x v) (Written.defineIn inner' x v') fun _ _ _ => True :=
  .change (fun _ _ hm _ _ => hm.withStore (hm.store.define fit isOpen hv)) (fun _ => rfl)
    (fun _ => rfl) trivial

theorem define (fit : layers.Fit w scope scope') (isOpen : layers.Open) (hv : v.Skips w v') :
    Follows w scope scope' (define x v) (Written.define x v') fun _ _ _ => True := by
  refine .change (fun m m' hm hs hs' => hm.withStore ?_) (fun _ => rfl) (fun _ => rfl) trivial
  rw [hs, hs']
  exact hm.store.define fit isOpen hv

theorem freshId : Follows w scope scope' freshId Written.freshId fun _ id id' => id' = id :=
  fun m m' hm hs hs' => by
    refine .done (List.prefix_refl w) ?_ ⟨hm.store, hm.globals, hm.fields, ?_⟩ hs hs'
    · exact congrArg (fun (_, nextId, _) => nextId) hm.rest
    · exact congrArg (fun (calls, nextId, rest) => (calls, nextId + 1, rest)) hm.rest

theorem newObject {k : Class} {k' : Class Place} (hk : k.Skips w k') :
    Follows w scope scope' (newObject k) (Written.newObject k') Value.Skips :=
  fun m m' hm hs hs' => by
    have size : m'.fields.size = m.fields.size := hm.fields.size
    unfold MachineM.newObject Written.newObject
    rw [size]
    refine .done (List.prefix_refl w) (.object hk) ⟨hm.store, hm.globals, ⟨?_, ?_⟩, hm.rest⟩ hs hs'
    · rw [Array.size_push, Array.size_push, size]
    · intro id z
      exact Store.read?_enter ⟨m.fields⟩ [] id z ▸ Store.read?_enter ⟨m'.fields⟩ [] id z ▸
        hm.fields.read id z

theorem setField (id : Nat) (x : String) (hv : v.Skips w v') :
    Follows w scope scope' (setField id x v) (Written.setField id x v') fun _ _ _ => True := by
  refine .change
    (fun m m' hm _ _ => ⟨hm.store, hm.globals, ⟨?_, fun other y => ?_⟩, hm.rest⟩) (fun _ => rfl)
    (fun _ => rfl) trivial
  · rw [Array.size_modify, Array.size_modify]
    exact hm.fields.size
  · show Option.Rel _ (Store.read? (Store.write ⟨m.fields⟩ id x v) other y)
      (Store.read? (Store.write ⟨m'.fields⟩ id x v') other y)
    have size : m'.fields.size = m.fields.size := hm.fields.size
    rw [Store.read?_write, Store.read?_write, size]
    split
    · exact .some hv
    · exact hm.fields.read other y

theorem field? (id : Nat) (x : String) :
    Follows w scope scope' (field? id x) (Written.field? id x)
      fun w => Option.Rel (Value.Skips w) :=
  .read fun _ _ hm _ _ => hm.fields.read id x

theorem print (line : String) :
    Follows w scope scope' (print line) (Written.print line) fun _ _ _ => True := by
  refine .change (fun _ _ hm _ _ => ⟨hm.store, hm.globals, hm.fields, ?_⟩) (fun _ => rfl)
    (fun _ => rfl) trivial
  exact congrArg (fun (calls, nextId, printed, rest) =>
    (calls, nextId, printed.push line, rest)) hm.rest

theorem readClock : Follows w scope scope' readClock Written.readClock Value.Skips :=
  fun m m' hm hs hs' => by
    have clock : m'.clock m'.readings = m.clock m.readings :=
      congrArg (fun (_, _, _, clock, readings) => clock readings) hm.rest
    unfold MachineM.readClock Written.readClock
    rw [clock]
    refine .done (List.prefix_refl w) (.number _) ⟨hm.store, hm.globals, hm.fields, ?_⟩ hs hs'
    exact congrArg (fun (calls, nextId, printed, clock, readings) =>
      (calls, nextId, printed, clock, readings + 1)) hm.rest

/-! ## Names -/

variable {depth depth' : Option Nat}

theorem lookUp (fit : layers.Fit w scope scope') (t : Token)
    (leads : Option.Rel (Steps layers) depth depth') :
    Follows w scope scope' (lookUp t depth) (Written.lookUp t depth') Value.Skips := by
  rintro m m' hm rfl rfl
  unfold MachineM.lookUp Written.lookUp
  cases leads with
  | some steps =>
      dsimp only
      rcases rel_cases (hm.store.getAt? fit steps t.lexeme) with
        ⟨h₁, h₂⟩ | ⟨v, v', h₁, h₂, hv⟩ <;> rw [h₁, h₂]
      · exact .failed (List.prefix_refl w) hm rfl rfl
      · exact .done (List.prefix_refl w) hv hm rfl rfl
  | none =>
      dsimp only
      rw [Machine.globalScope, Store.get?_singleton, Store.get?_singleton]
      rcases rel_cases (hm.store.read hm.globals t.lexeme) with
        ⟨h₁, h₂⟩ | ⟨v, v', h₁, h₂, hv⟩ <;> rw [h₁, h₂]
      · exact .failed (List.prefix_refl w) hm rfl rfl
      · exact .done (List.prefix_refl w) hv hm rfl rfl

theorem assign (fit : layers.Fit w scope scope') (t : Token)
    (leads : Option.Rel (Steps layers) depth depth') (hv : v.Skips w v') :
    Follows w scope scope' (assign t depth v) (Written.assign t depth' v') fun _ _ _ => True := by
  rintro m m' hm rfl rfl
  unfold MachineM.assign Written.assign Store.assignAt? Store.assign?
  cases leads with
  | some steps =>
      dsimp only
      rcases rel_cases (hm.store.frameAt? fit steps t.lexeme) with
        ⟨h₁, h₂⟩ | ⟨frame, frame', h₁, h₂, here⟩ <;> rw [h₁, h₂]
      · exact .failed (List.prefix_refl w) hm rfl rfl
      · exact .done (List.prefix_refl w) trivial (hm.withStore (hm.store.write here hv)) rfl rfl
  | none =>
      dsimp only
      rcases rel_cases (hm.store.frame? (.global hm.globals) t.lexeme) with
        ⟨h₁, h₂⟩ | ⟨frame, frame', h₁, h₂, here⟩ <;> rw [h₁, h₂]
      · exact .failed (List.prefix_refl w) hm rfl rfl
      · exact .done (List.prefix_refl w) trivial (hm.withStore (hm.store.write here hv)) rfl rfl

end Primitives

/-! ## Calls -/

section Calls

variable {w : SkippedFrames} {scope scope' inner inner' : Scope} {layers within : Layers}
  {v : Value} {v' : Value Place} {vs : List Value} {vs' : List (Value Place)}

theorem bindParameters (fit : within.Fit w inner inner') (isOpen : within.Open) (ps : List Token)
    (hv : List.Forall₂ (Value.Skips w) vs vs') :
    Follows w scope scope' (bindParameters inner ps vs) (Written.bindParameters inner' ps vs')
      fun _ _ _ => True := by
  induction ps generalizing w vs vs' with
  | nil => exact .pure trivial
  | cons p ps ih =>
      cases hv with
      | nil => exact .pure trivial
      | cons hv hvs =>
          exact (defineIn fit isOpen hv).bind fun _ _ _ more _ =>
            ih (fit.mono more) (Value.allSkip_mono hvs more)

theorem bindMethod {f : Closure} {f' : Closure Place} (hf : f.MethodSkips w f')
    (hv : v.Skips w v') :
    Follows w scope scope' (bindMethod f v) (Written.bindMethod f' v')
      fun w' g g' => g.Skips w' (·) g' := by
  obtain ⟨layers, fit, isOpen, body⟩ := hf.code
  refine (openScope fit).bind fun w' fresh fresh' more fit' => ?_
  refine (defineIn fit' isOpen (hv.mono more)).bind fun _ _ _ more' _ => .pure ?_
  exact ⟨⟨_, fit'.mono more', isOpen, body⟩, hf.name, hf.parameters, hf.isInitializer⟩

theorem newFunction {f : Closure} {f' : Closure Place} (hf : f.Skips w (·) f') :
    Follows w scope scope' (newFunction f) (Written.newFunction f') Value.Skips := by
  refine freshId.bind ?_
  rintro w' id _ more rfl
  exact .pure (.function (hf.mono more))

/-- The scope of a bound method is no extra one. -/
theorem receiver {f : Closure} {f' : Closure Place} (hf : f.Skips w (·) f') :
    Follows w scope scope' (receiver f) (Written.receiver f') Value.Skips := by
  obtain ⟨layers, fit, isOpen, -⟩ := hf.code
  refine .read fun m m' hm _ _ => ?_
  obtain ⟨frame, outer, frame', outer', hs, hs', here⟩ := fit.innermost isOpen
  have found : Option.Rel (Value.Skips w) (m.store.getAt? f.scope 0 "this")
      (m'.store.getAt? f'.scope.scope 0 "this") := by
    unfold Store.getAt? Store.frameAt?
    rw [hs, hs', List.getElem?_cons_zero, List.getElem?_cons_zero, Option.filter_some,
      Option.filter_some, hm.store.binds_eq here]
    split
    · exact hm.store.read here _
    · exact .none
  rcases rel_cases found with ⟨h₁, h₂⟩ | ⟨v, v', h₁, h₂, hv⟩ <;> rw [h₁, h₂]
  · exact .nil
  · exact hv

/-- Ways to run a body that end alike on bodies that are the same but for depths. -/
def Bodies (run : List Stmt → MachineM Flow) (run' : List Written.Stmt → Run (Flow Place)) : Prop :=
  ∀ {w layers scope scope' ss ss'}, Stmt.AllSkip layers ss ss' → layers.Fit w scope scope' →
    Follows w scope scope' (run ss) (run' ss') Flow.Skips

variable {run : List Stmt → MachineM Flow} {run' : List Written.Stmt → Run (Flow Place)}

theorem enter (bodies : Bodies run run') {f : Closure} {f' : Closure Place}
    (hf : f.Skips w (·) f') (hv : List.Forall₂ (Value.Skips w) vs vs') :
    Follows w scope scope' (enter run f vs) (Written.enter run' f' vs') Value.Skips := by
  obtain ⟨layers, fit, -, body⟩ := hf.code
  unfold MachineM.enter Written.enter
  rw [hf.parameters, hf.isInitializer]
  refine (openScope fit).bind fun w₁ fresh fresh' more₁ fit₁ => ?_
  refine (bindParameters fit₁ .kept _ (Value.allSkip_mono hv more₁)).bind fun w₂ _ _ more₂ _ => ?_
  refine (inScope (bodies body (fit₁.mono more₂))).bind fun w₃ flow flow' more₃ hflow => ?_
  refine .ite (receiver (hf.mono ((more₁.trans more₂).trans more₃))) (.pure ?_)
  cases hflow with
  | next => exact .nil
  | returned h => exact h

theorem invoke (bodies : Bodies run run') {f : Callable} {f' : Callable Place} (hf : f.Skips w f')
    (hv : List.Forall₂ (Value.Skips w) vs vs') :
    Follows w scope scope' (invoke run f vs) (Written.invoke run' f' vs') Value.Skips := by
  cases hf with
  | clock => exact readClock
  | closure hf => exact enter bodies hf hv
  | construct hk =>
      refine (newObject hk).bind fun w₁ o o' more₁ ho => ?_
      rcases rel_cases ((hk.mono more₁).method initializerName) with
        ⟨h₁, h₂⟩ | ⟨f, g, h₁, h₂, hf⟩ <;> rw [Class.initializer?, Class.initializer?, h₁, h₂]
      · exact .pure ho
      · refine (bindMethod hf ho).bind fun w₂ f f' more₂ hf => ?_
        exact (enter bodies hf (Value.allSkip_mono hv (more₁.trans more₂))).bind
          fun w₃ _ _ more₃ _ => .pure (ho.mono (more₂.trans more₃))

theorem apply (bodies : Bodies run run') (t : Token) (hf : v.Skips w v')
    (hv : List.Forall₂ (Value.Skips w) vs vs') :
    Follows w scope scope' (apply run t v vs) (Written.apply run' t v' vs') Value.Skips :=
  fun m m' hm hs hs' => by
    unfold MachineM.apply Written.apply
    rcases rel_cases hf.callable with ⟨h₁, h₂⟩ | ⟨f, f', h₁, h₂, h⟩ <;> rw [h₁, h₂]
    · exact .failed (List.prefix_refl w) hm hs hs'
    · dsimp only
      rw [h.arity_eq, ← hv.length_eq, hm.calls_eq]
      split
      · exact .failed (List.prefix_refl w) hm hs hs'
      split
      · exact .failed (List.prefix_refl w) hm hs hs'
      · exact (invoke bodies h hv).counted m m' hm hs hs'

theorem property (id : Nat) {k : Class} {k' : Class Place} (hk : k.Skips w k') (t : Token) :
    Follows w scope scope' (property id k t) (Written.property id k' t) Value.Skips := by
  refine (field? id t.lexeme).bind fun w' o o' more ho => ?_
  have hk := hk.mono more
  cases ho with
  | some hv => exact .pure hv
  | none =>
      dsimp only
      rcases rel_cases (hk.method t.lexeme) with ⟨h₁, h₂⟩ | ⟨f, f', h₁, h₂, hf⟩ <;> rw [h₁, h₂]
      · exact .raise t _
      · exact (bindMethod hf (.object hk)).bind fun _ _ _ _ hf => newFunction hf

theorem superMethod (fit : layers.Fit w scope scope') (t method : Token) {n n' : Nat}
    (this : Steps layers n n') (parent : Steps layers (n + 1) (n' + 1)) :
    Follows w scope scope' (superMethod t (some (n + 1)) method)
      (Written.superMethod t (some (n' + 1)) method) Value.Skips := by
  have found {k k' : Nat} {w' : SkippedFrames} (more : w <+: w') (steps : Steps layers k k')
      (x : String) : Follows w' scope scope' (Action.read fun m => m.store.getAt? m.scope k x)
        (Action.read fun m => m.store.getAt? m.scope k' x) fun w => Option.Rel (Value.Skips w) :=
    .read fun m m' hm hs hs' => by
      rw [hs, hs']
      exact hm.store.getAt? (fit.mono more) steps x
  refine (found (List.prefix_refl w) parent "super").bind fun w₁ o o' more₁ ho => ?_
  cases ho with
  | none => exact .raise t _
  | some hv =>
      cases hv with
      | ofClass hp =>
          refine (found more₁ this "this").bind fun w₂ o o' more₂ ho => ?_
          have hp := hp.mono more₂
          cases ho with
          | none => exact .raise t _
          | some hv =>
              cases hv with
              | object hk =>
                  dsimp only
                  rcases rel_cases (hp.method method.lexeme) with
                    ⟨h₁, h₂⟩ | ⟨f, f', h₁, h₂, hf⟩ <;> rw [h₁, h₂]
                  · exact .raise method _
                  · exact (bindMethod hf (.object hk)).bind fun _ _ _ _ hf => newFunction hf
              | _ => exact .raise t _
      | _ => exact .raise t _

end Calls

/-! ## Classes -/

section Classes

variable {w : SkippedFrames} {scope scope' inner inner' : Scope} {layers within : Layers}
  {x : String} {fs : List FunctionDecl}
  {fs' : List Written.FunctionDecl} {t : Token} {k : Class} {k' : Class Place}

theorem newClass {parent : Option Class} {parent' : Option (Class Place)}
    (hp : Option.Rel (Class.Skips w) parent parent') (fit : within.Fit w inner inner')
    (hf : FunctionDecl.AllSkip (.kept :: within) fs fs') :
    Follows w scope scope' (newClass x parent inner fs) (Written.newClass x parent' inner' fs')
      Class.Skips := by
  refine freshId.bind ?_
  rintro w' id _ more rfl
  refine .pure (List.Forall₂.cons ⟨rfl, rfl, hf.methodTable (fit.mono more)⟩ ?_)
  cases hp with
  | none => exact .nil
  | some h => exact h.mono more

theorem assignClass (fit : layers.Fit w scope scope') (hk : k.Skips w k') :
    Follows w scope scope' (assignClass t k) (Written.assignClass t k') fun _ _ _ => True := by
  rintro m m' hm rfl rfl
  unfold MachineM.assignClass Written.assignClass Store.assign?
  rcases rel_cases (hm.store.frame? fit t.lexeme) with
    ⟨h₁, h₂⟩ | ⟨frame, frame', h₁, h₂, here⟩ <;> rw [h₁, h₂]
  · exact .failed (List.prefix_refl w) hm rfl rfl
  · exact .done (List.prefix_refl w) trivial (hm.withStore (hm.store.write here (.ofClass hk)))
      rfl rfl

theorem declareClass (fit : layers.Fit w scope scope') (isOpen : layers.Open)
    {superclass : Option (Token × MachineM Value)}
    {superclass' : Option (Token × Run (Value Place))}
    (hs : Option.Rel (fun p p' => p'.1 = p.1 ∧ ∀ {w'}, w <+: w' →
      Follows w' scope scope' p.2 p'.2 Value.Skips) superclass superclass')
    (hf : FunctionDecl.AllSkip (layers.inMethods superclass.isSome) fs fs') :
    Follows w scope scope' (declareClass t superclass fs) (Written.declareClass t superclass' fs')
      fun _ _ _ => True := by
  refine (define fit isOpen .nil).bind fun w₁ _ _ more₁ _ => ?_
  refine inForce.bind ?_
  rintro w₂ _ _ more₂ ⟨rfl, rfl⟩
  have more := more₁.trans more₂
  cases hs with
  | none =>
      exact (newClass .none (fit.mono more) hf).bind fun w₃ _ _ more₃ hk =>
        assignClass (fit.mono (more.trans more₃)) hk
  | @some p p' h =>
      obtain ⟨token, value⟩ := p
      obtain ⟨token', value'⟩ := p'
      obtain ⟨same, hv⟩ := h
      cases same
      refine (hv more).bind fun w₃ v v' more₃ hv => ?_
      have fit₃ := fit.mono (more.trans more₃)
      cases hv with
      | ofClass hp =>
          refine (openScope fit₃).bind fun w₄ inner inner' more₄ fit₄ => ?_
          have hp₄ := hp.mono more₄
          refine (defineIn fit₄ .kept (.ofClass hp₄)).bind fun w₅ _ _ more₅ _ => ?_
          refine (newClass (.some (hp₄.mono more₅)) (fit₄.mono more₅) hf).bind
            fun w₆ _ _ more₆ hk => ?_
          exact assignClass (fit₃.mono (more₄.trans (more₅.trans more₆))) hk
      | _ => exact .raise token _

end Classes

/-! ## Lists and loops -/

section Lists

variable {w : SkippedFrames} {scope scope' : Scope} {layers : Layers}

theorem evalAll {run : Expr → MachineM Value} {run' : Expr → Run (Value Place)}
    (hrun : ∀ {w layers scope scope' e e'}, e.Skips layers e' → layers.Fit w scope scope' →
      Follows w scope scope' (run e) (run' e') Value.Skips)
    {es es' : List Expr} (h : Expr.AllSkip layers es es') (fit : layers.Fit w scope scope') :
    Follows w scope scope' (evalAll run es) (Action.evalAll run' es')
      fun w => List.Forall₂ (Value.Skips w) := by
  induction es generalizing w es' with
  | nil =>
      cases h with
      | nil => exact .pure .nil
  | cons e es ih =>
      cases h with
      | cons head tail =>
          refine (hrun head fit).bind fun w₁ _ _ more₁ hv => ?_
          exact (ih tail (fit.mono more₁)).bind fun w₂ _ _ more₂ hvs =>
            .pure (.cons (hv.mono more₂) hvs)

theorem execAll {run : Stmt → MachineM Flow} {run' : Written.Stmt → Run (Flow Place)}
    (hrun : ∀ {w layers scope scope' s s'}, s.Skips layers s' → layers.Fit w scope scope' →
      Follows w scope scope' (run s) (run' s') Flow.Skips) :
    Bodies (execAll run) (Written.execAll run') := by
  intro w layers scope scope' ss ss' h fit
  induction ss generalizing w ss' with
  | nil =>
      cases h with
      | nil => exact .pure .next
  | cons s ss ih =>
      cases h with
      | cons head tail =>
          refine (hrun head fit).bind fun w₁ flow flow' more₁ hflow => ?_
          cases hflow with
          | next => exact ih tail (fit.mono more₁)
          | returned hv => exact .pure (.returned hv)

theorem loop {test : MachineM Value} {test' : Run (Value Place)} {body : MachineM Flow}
    {body' : Run (Flow Place)} (fit : layers.Fit w scope scope')
    (htest : ∀ {w}, layers.Fit w scope scope' → Follows w scope scope' test test' Value.Skips)
    (hbody : ∀ {w}, layers.Fit w scope scope' → Follows w scope scope' body body' Flow.Skips)
    (fuel : Nat) :
    Follows w scope scope' (loop test body fuel) (Action.loop test' body' fuel) Flow.Skips := by
  induction fuel generalizing w with
  | zero => exact .exhausted
  | succ fuel ih =>
      refine (htest fit).bind fun w₁ v v' more₁ hv => ?_
      rw [hv.truthy_eq]
      refine .ite ((hbody (fit.mono more₁)).bind fun w₂ flow flow' more₂ hflow => ?_) (.pure .next)
      cases hflow with
      | next => exact ih (fit.mono (more₁.trans more₂))
      | returned h => exact .pure (.returned h)

end Lists

end Follows

/-! ## Evaluation -/

section Evaluation

variable {w : SkippedFrames} {scope scope' : Scope} {layers : Layers} {fuel : Nat}

theorem Literal.value_skips (l : Literal) : l.value.Skips w (l.value Place) := by
  cases l with
  | nil => exact .nil
  | bool b => exact .bool b
  | number x => exact .number _
  | string s => exact .string s

/-- With this fuel expressions that are the same but for depths end alike. -/
def EvalFollows (fuel : Nat) : Prop := ∀ {w layers scope scope' e e'}, e.Skips layers e' →
  layers.Fit w scope scope' →
    Follows w scope scope' (eval fuel e) (Written.eval fuel e') Value.Skips

/-- With this fuel a statement as it is written ends like the one without `for` statements. -/
def ExecFollows (fuel : Nat) : Prop := ∀ {w layers scope scope' s s'}, s.Skips layers s' →
  layers.Fit w scope scope' →
    Follows w scope scope' (exec fuel s) (Written.exec fuel s') Flow.Skips

/-- With this fuel a body and an increment end like the block that they are put in. -/
def RoundFollows (fuel : Nat) : Prop :=
  ∀ {w} {layers : Layers} {scope scope' s s' step step'}, s.Skips (.extra :: layers) s' →
    step.Skips (.extra :: layers) step' → layers.Fit w scope scope' →
      Follows w scope scope' (exec fuel (.block [s, .expr step]))
        (match fuel with
          | 0 => exhausted
          | fuel + 1 => Written.execAll (Written.exec fuel) [s', .expr step'])
        Flow.Skips

theorem EvalFollows.succ (heval : EvalFollows fuel) (hexec : ExecFollows fuel) :
    EvalFollows (fuel + 1) := by
  intro w layers scope scope' e e' h fit
  cases h with
  | literal l => exact .pure l.value_skips
  | group inner => exact heval inner fit
  | unary operator operand =>
      refine (heval operand fit).bind fun w₁ v v' _ hv => ?_
      exact .settle operator (hv.unary_eq _) fun _ => Value.unary_isData
  | binary operator left right =>
      refine (heval left fit).bind fun w₁ v v' more₁ hv => ?_
      refine (heval right (fit.mono more₁)).bind fun w₂ u u' more₂ hu => ?_
      exact .settle operator ((hv.mono more₂).binary_eq hu _) fun _ => Value.binary_isData
  | logical operator left right =>
      refine (heval left fit).bind fun w₁ v v' more₁ hv => ?_
      rw [hv.shortCircuits_eq]
      exact .ite (.pure hv) (heval right (fit.mono more₁))
  | name x leads => exact .lookUp fit x leads
  | assign x leads value =>
      refine (heval value fit).bind fun w₁ v v' more₁ hv => ?_
      exact (Follows.assign (fit.mono more₁) x leads hv).bind fun _ _ _ more₂ _ =>
        .pure (hv.mono more₂)
  | call paren callee arguments =>
      refine (heval callee fit).bind fun w₁ f f' more₁ hf => ?_
      refine (Follows.evalAll heval arguments (fit.mono more₁)).bind fun w₂ vs vs' more₂ hvs => ?_
      exact .apply (.execAll hexec) paren (hf.mono more₂) hvs
  | get property object =>
      refine (heval object fit).bind fun w₁ v v' _ hv => ?_
      cases hv with
      | object hk => exact .property _ hk property
      | _ => exact .raise property _
  | set property object value =>
      refine (heval object fit).bind fun w₁ v v' more₁ hv => ?_
      cases hv with
      | object hk =>
          refine (heval value (fit.mono more₁)).bind fun w₂ u u' _ hu => ?_
          exact (Follows.setField _ _ hu).bind fun _ _ _ more₃ _ => .pure (hu.mono more₃)
      | _ => exact .raise property _
  | this keyword leads => exact .lookUp fit keyword leads
  | super keyword method receiver parent => exact .superMethod fit keyword method receiver parent

/-- The test of a `for` statement. An absent condition is true, and so is what stands for it. -/
theorem condition_follows {e : Expr} {condition : Option Expr} (heval : EvalFollows (fuel + 1))
    (h : e.Skips layers (condition.getD (.literal (.bool true))))
    (fit : layers.Fit w scope scope') :
    Follows w scope scope' (eval (fuel + 1) e)
      (match condition with
        | some condition => Written.eval (fuel + 1) condition
        | none => pure (.bool true))
      Value.Skips := by
  cases condition with
  | some condition => exact heval h fit
  | none =>
      cases h with
      | literal value => exact .pure (.bool true)

theorem ExecFollows.succ (heval : EvalFollows fuel) (hexec : ExecFollows fuel)
    (hround : RoundFollows fuel) : ExecFollows (fuel + 1) := by
  intro w layers scope scope' s s' h fit
  cases h with
  | expr value => exact (heval value fit).bind fun _ _ _ _ _ => .pure .next
  | print value =>
      refine (heval value fit).bind fun _ v v' _ hv => ?_
      rw [hv.text_eq]
      exact (Follows.print _).bind fun _ _ _ _ _ => .pure .next
  | var x isOpen initial =>
      cases initial with
      | none => exact (Follows.define fit isOpen .nil).bind fun _ _ _ _ _ => .pure .next
      | some value =>
          refine (heval value fit).bind fun _ _ _ more hv => ?_
          exact (Follows.define (fit.mono more) isOpen hv).bind fun _ _ _ _ _ => .pure .next
  | block body =>
      refine Follows.inForce.bind ?_
      rintro w₁ _ _ more₁ ⟨rfl, rfl⟩
      refine (Follows.openScope (fit.mono more₁)).bind fun w₂ inner inner' more₂ fit₂ => ?_
      exact .inScope (Follows.execAll hexec body fit₂)
  | ifThen test consequent =>
      refine (heval test fit).bind fun _ v v' more hv => ?_
      rw [hv.truthy_eq]
      exact .ite (hexec consequent (fit.mono more)) (.pure .next)
  | ifElse test consequent alternative =>
      refine (heval test fit).bind fun _ v v' more hv => ?_
      rw [hv.truthy_eq]
      exact .ite (hexec consequent (fit.mono more)) (hexec alternative (fit.mono more))
  | whileDo test body => exact .loop fit (heval test) (hexec body) fuel
  | forScope first loop =>
      refine Follows.inForce.bind ?_
      rintro w₁ _ _ more₁ ⟨rfl, rfl⟩
      refine (Follows.openScope (fit.mono more₁)).bind fun w₂ inner inner' more₂ fit₂ => ?_
      exact .inScope (Follows.execAll hexec (.cons first (.cons loop .nil)) fit₂)
  | forBare test body =>
      cases fuel with
      | zero => exact .exhausted
      | succ fuel => exact .loop fit (condition_follows heval test) (hexec body) (fuel + 1)
  | forStep test body increment =>
      -- The block of a round takes one unit of fuel, and the direct rule takes it as well.
      cases fuel with
      | zero => exact .exhausted
      | succ fuel =>
          exact .loop fit (condition_follows heval test) (hround body increment) (fuel + 1)
  | function isOpen declaration =>
      refine Follows.inForce.bind ?_
      rintro w₁ _ _ more₁ ⟨rfl, rfl⟩
      have closure : Closure.Skips w₁ (·) ⟨_, _, false⟩ _ :=
        declaration.closed (fit.mono more₁) isOpen
      refine (Follows.newFunction closure).bind fun w₂ _ _ more₂ hf => ?_
      cases declaration with
      | mk x ps body =>
          exact (Follows.define (fit.mono (more₁.trans more₂)) isOpen hf).bind
            fun _ _ _ _ _ => .pure .next
  | returning keyword value =>
      cases value with
      | none => exact .pure (.returned .nil)
      | some value => exact (heval value fit).bind fun _ _ _ _ hv => .pure (.returned hv)
  | classDecl x isOpen superclass methods =>
      refine (Follows.declareClass fit isOpen ?_ (by rwa [Option.isSome_map])).bind
        fun _ _ _ _ _ => .pure .next
      cases superclass with
      | none => exact .none
      | some h => exact .some ⟨by cases h <;> rfl, fun more => heval h (fit.mono more)⟩

/-- The scope of the block is extra. -/
theorem RoundFollows.succ (hexec : ExecFollows fuel) : RoundFollows (fuel + 1) := by
  intro w layers scope scope' s s' step step' body increment fit
  exact .inExtra fit fun _ inner =>
    Follows.execAll hexec (.cons body (.cons (.expr increment) .nil)) inner

/-- A tree as it is written follows the tree without `for` statements. -/
theorem follows (fuel : Nat) : EvalFollows fuel ∧ ExecFollows fuel ∧ RoundFollows fuel := by
  induction fuel with
  | zero => exact ⟨fun _ _ => .exhausted, fun _ _ => .exhausted, fun _ _ _ => .exhausted⟩
  | succ fuel ih =>
      obtain ⟨heval, hexec, hround⟩ := ih
      exact ⟨heval.succ hexec, ExecFollows.succ heval hexec hround, RoundFollows.succ hexec⟩

end Evaluation

end LoxLang
