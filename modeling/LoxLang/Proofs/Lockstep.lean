import LoxLang.Machine.Indirect
import LoxLang.Proofs.Alike

/-!
# Alike programs run alike

Two actions are in lockstep if, from machines that are alike, both end with
values that are related and machines that are alike again, or both fail with
the same fault at tokens that stand for each other, or both run out of fuel.
There is a rule for each primitive action, and what is composed of actions in
lockstep is in lockstep. In the end, trees that are alike are in lockstep, even
if the depths of the one are read in another way than those of the other, as
long as both ways come to the same.
-/

namespace LoxLang

open LoxLang.Action MachineM

variable {L : Likeness}

/-- Started in machines that are alike, the actions end alike. -/
def Lockstep (L : Likeness) {α β : Type} (act : MachineM α) (act' : MachineM β)
    (post : α → β → Prop) : Prop :=
  ∀ m m', m.Alike L m' → Outcome.Alike L post (act m) (act' m')

namespace Lockstep

section Rules

variable {α β γ δ : Type} {act : MachineM α} {act' : MachineM β} {post : α → β → Prop}

theorem pure {a : α} {b : β} (h : post a b) : Lockstep L (pure a) (pure b) post :=
  fun _ _ hm => .done h hm

theorem exhausted : Lockstep L (exhausted : MachineM α) (Action.exhausted : MachineM β) post :=
  fun _ _ _ => .exhausted

theorem raise {t t' : Token} (ht : L.token t t') (fault : Fault) :
    Lockstep L (raise t fault : MachineM α) (Action.raise t' fault : MachineM β) post :=
  fun _ _ hm => .failed ⟨ht, rfl⟩ hm

theorem bind {next : α → MachineM γ} {next' : β → MachineM δ} {post' : γ → δ → Prop}
    (h : Lockstep L act act' post)
    (hn : ∀ a b, post a b → Lockstep L (next a) (next' b) post') :
    Lockstep L (act >>= next) (act' >>= next') post' := by
  intro m m' hm
  have first := h m m' hm
  rw [bind_apply, bind_apply]
  generalize act m = o, act' m' = o' at first
  cases first with
  | done value machine => exact hn _ _ value _ _ machine
  | failed fault machine => exact .failed fault machine
  | exhausted => exact .exhausted

theorem read {f : Machine → α} {g : Machine → β} (h : ∀ m m', m.Alike L m' → post (f m) (g m')) :
    Lockstep L (read f) (Action.read g) post :=
  fun m m' hm => .done (h m m' hm) hm

theorem change {f g : Machine → Machine} (h : ∀ m m', m.Alike L m' → (f m).Alike L (g m')) :
    Lockstep L (change f) (Action.change g) fun _ _ => True :=
  fun m m' hm => .done trivial (h m m' hm)

theorem ite {p : Prop} [Decidable p] {other : MachineM α} {other' : MachineM β}
    (h : Lockstep L act act' post) (h' : Lockstep L other other' post) :
    Lockstep L (if p then act else other) (if p then act' else other') post := by
  split
  · exact h
  · exact h'

end Rules

end Lockstep

/-! ## Tables -/

section Tables

variable {s s' : Store Value} {v v' : Value}

theorem Store.Alike.binds_eq (h : s.Alike L s') (frame : Nat) (x : String) :
    s.binds frame x = s'.binds frame x := by
  unfold Store.binds
  rcases rel_cases (h.read frame x) with ⟨h₁, h₂⟩ | ⟨v, v', h₁, h₂, -⟩ <;> rw [h₁, h₂]
  rfl

theorem Store.Alike.write (h : s.Alike L s') (frame : Nat) (x : String) (hv : v.Alike L v') :
    (s.write frame x v).Alike L (s'.write frame x v') where
  size := by rw [Store.size_write, Store.size_write, h.size]
  read other y := by
    rw [Store.read?_write, Store.read?_write, h.size]
    split
    · exact .some hv
    · exact h.read other y

theorem Store.Alike.enter (h : s.Alike L s') (outer : Scope) :
    (s.enter outer).2.Alike L (s'.enter outer).2 where
  size := by rw [Store.size_enter, Store.size_enter, h.size]
  read frame x := by
    rw [Store.read?_enter, Store.read?_enter]
    exact h.read frame x

theorem Store.Alike.define (h : s.Alike L s') (scope : Scope) (x : String)
    (hv : v.Alike L v') : (s.define scope x v).Alike L (s'.define scope x v') := by
  cases scope with
  | nil => exact h
  | cons frame outer => exact h.write frame x hv

theorem Store.Alike.frame?_eq (h : s.Alike L s') (scope : Scope) (x : String) :
    s.frame? scope x = s'.frame? scope x := by
  unfold Store.frame?
  congr 1
  funext frame
  exact h.binds_eq frame x

theorem Store.Alike.frameAt?_eq (h : s.Alike L s') (scope : Scope) (distance : Nat) (x : String) :
    s.frameAt? scope distance x = s'.frameAt? scope distance x := by
  unfold Store.frameAt?
  congr 1
  funext frame
  exact h.binds_eq frame x

theorem Store.Alike.get? (h : s.Alike L s') (scope : Scope) (x : String) :
    Option.Rel (Value.Alike L) (s.get? scope x) (s'.get? scope x) := by
  unfold Store.get?
  rw [h.frame?_eq]
  cases s'.frame? scope x with
  | none => exact .none
  | some frame => exact h.read frame x

theorem Store.Alike.getAt? (h : s.Alike L s') (scope : Scope) (distance : Nat) (x : String) :
    Option.Rel (Value.Alike L) (s.getAt? scope distance x) (s'.getAt? scope distance x) := by
  unfold Store.getAt?
  rw [h.frameAt?_eq]
  cases s'.frameAt? scope distance x with
  | none => exact .none
  | some frame => exact h.read frame x

end Tables

namespace Machine.Alike

variable {m m' : Machine} {s s' : Store Value}

theorem scope_eq (h : m.Alike L m') : m.scope = m'.scope := congrArg Prod.fst h.rest

theorem calls_eq (h : m.Alike L m') : m.calls = m'.calls :=
  congrArg (fun (_, calls, _) => calls) h.rest

theorem nextId_eq (h : m.Alike L m') : m.nextId = m'.nextId :=
  congrArg (fun (_, _, nextId, _) => nextId) h.rest

theorem printed_eq (h : m.Alike L m') : m.printed = m'.printed :=
  congrArg (fun (_, _, _, printed, _) => printed) h.rest

/-- The bindings changed alike. -/
theorem withStore (h : m.Alike L m') (hs : s.Alike L s') :
    Machine.Alike L { m with store := s } { m' with store := s' } := ⟨hs, h.fields, h.rest⟩

theorem withScope (h : m.Alike L m') (scope : Scope) :
    Machine.Alike L { m with scope := scope } { m' with scope := scope } :=
  ⟨h.store, h.fields, congrArg (fun (_, rest) => (scope, rest)) h.rest⟩

theorem withCalls (h : m.Alike L m') (f : Nat → Nat) :
    Machine.Alike L { m with calls := f m.calls } { m' with calls := f m'.calls } :=
  ⟨h.store, h.fields, congrArg (fun (scope, calls, rest) => (scope, f calls, rest)) h.rest⟩

end Machine.Alike

/-! ## Primitive actions -/

namespace Lockstep

variable {α β : Type} {act : MachineM α} {act' : MachineM β} {post : α → β → Prop}
  {v v' : Value} {x x' : String}

theorem inScope {scope scope' : Scope} (hs : scope = scope') (h : Lockstep L act act' post) :
    Lockstep L (inScope scope act) (MachineM.inScope scope' act') post := by
  subst hs
  intro m m' hm
  have inner := h _ _ (hm.withScope scope)
  unfold MachineM.inScope
  dsimp only
  rw [hm.scope_eq]
  generalize act { m with scope := scope } = o, act' { m' with scope := scope } = o' at inner
  cases inner with
  | done value machine => exact .done value (machine.withScope _)
  | failed fault machine => exact .failed fault (machine.withScope _)
  | exhausted => exact .exhausted

theorem counted (h : Lockstep L act act' post) :
    Lockstep L (counted act) (MachineM.counted act') post := by
  intro m m' hm
  have inner := h _ _ (hm.withCalls (· + 1))
  unfold MachineM.counted
  generalize act { m with calls := m.calls + 1 } = o,
    act' { m' with calls := m'.calls + 1 } = o' at inner
  cases inner with
  | done value machine => exact .done value (machine.withCalls (· - 1))
  | failed fault machine => exact .failed fault (machine.withCalls (· - 1))
  | exhausted => exact .exhausted

theorem settle {r r' : Except Fault Value} {t t' : Token} (ht : L.token t t') (h : r = r')
    (data : ∀ v, r = .ok v → v.IsData) :
    Lockstep L (settle t r) (Action.settle t' r') (Value.Alike L) := by
  subst h
  cases r with
  | ok v => exact .pure (data v rfl).alike
  | error fault => exact .raise ht fault

theorem openScope (outer : Scope) :
    Lockstep L (openScope outer) (MachineM.openScope outer) Eq :=
  fun _ _ hm => .done (congrArg (· :: outer) hm.store.size) (hm.withStore (hm.store.enter outer))

theorem defineIn (scope : Scope) (hx : x = x') (hv : v.Alike L v') :
    Lockstep L (defineIn scope x v) (MachineM.defineIn scope x' v') fun _ _ => True := by
  subst hx
  exact .change fun _ _ hm => hm.withStore (hm.store.define scope x hv)

theorem define (hx : x = x') (hv : v.Alike L v') :
    Lockstep L (define x v) (MachineM.define x' v') fun _ _ => True := by
  subst hx
  refine .change fun _ _ hm => hm.withStore ?_
  rw [hm.scope_eq]
  exact hm.store.define _ x hv

theorem freshId : Lockstep L freshId freshId Eq := fun _ _ hm => by
  refine .done hm.nextId_eq ⟨hm.store, hm.fields, ?_⟩
  exact congrArg (fun (scope, calls, nextId, rest) => (scope, calls, nextId + 1, rest)) hm.rest

theorem newObject {k k' : Class} (hk : k.Alike L k') :
    Lockstep L (newObject k) (MachineM.newObject k') (Value.Alike L) := fun m m' hm => by
  have size : m.fields.size = m'.fields.size := hm.fields.size
  unfold MachineM.newObject
  rw [size]
  exact .done (.object hk) ⟨hm.store, hm.fields.enter [], hm.rest⟩

theorem setField (id : Nat) (hx : x = x') (hv : v.Alike L v') :
    Lockstep L (setField id x v) (MachineM.setField id x' v') fun _ _ => True := by
  subst hx
  exact .change fun _ _ hm => ⟨hm.store, hm.fields.write id x hv, hm.rest⟩

theorem field? (id : Nat) (hx : x = x') :
    Lockstep L (field? id x) (MachineM.field? id x') (Option.Rel (Value.Alike L)) := by
  subst hx
  exact .read fun _ _ hm => hm.fields.read id x

theorem print (hx : x = x') : Lockstep L (print x) (MachineM.print x') fun _ _ => True := by
  subst hx
  refine .change fun _ _ hm => ⟨hm.store, hm.fields, ?_⟩
  exact congrArg (fun (scope, calls, nextId, printed, rest) =>
    (scope, calls, nextId, printed.push x, rest)) hm.rest

theorem readClock : Lockstep L readClock readClock (Value.Alike L) := fun m m' hm => by
  have clock : m.clock m.readings = m'.clock m'.readings :=
    congrArg (fun (_, _, _, _, clock, readings) => clock readings) hm.rest
  unfold MachineM.readClock
  rw [clock]
  refine .done (.number _) ⟨hm.store, hm.fields, ?_⟩
  exact congrArg (fun (scope, calls, nextId, printed, clock, readings) =>
    (scope, calls, nextId, printed, clock, readings + 1)) hm.rest

theorem lookUp {t t' : Token} (ht : L.token t t') (depth : Option Nat) :
    Lockstep L (lookUp t depth) (MachineM.lookUp t' depth) (Value.Alike L) := fun m m' hm => by
  unfold MachineM.lookUp
  rw [L.lexeme_eq ht, hm.scope_eq]
  cases depth with
  | some distance =>
      dsimp only
      rcases rel_cases (hm.store.getAt? m'.scope distance t'.lexeme) with
        ⟨h₁, h₂⟩ | ⟨v, v', h₁, h₂, hv⟩ <;> rw [h₁, h₂]
      · exact .failed ⟨ht, rfl⟩ hm
      · exact .done hv hm
  | none =>
      dsimp only
      rcases rel_cases (hm.store.get? Machine.globalScope t'.lexeme) with
        ⟨h₁, h₂⟩ | ⟨v, v', h₁, h₂, hv⟩ <;> rw [h₁, h₂]
      · exact .failed ⟨ht, rfl⟩ hm
      · exact .done hv hm

theorem assign {t t' : Token} (ht : L.token t t') (depth : Option Nat) (hv : v.Alike L v') :
    Lockstep L (assign t depth v) (MachineM.assign t' depth v') fun _ _ => True :=
  fun m m' hm => by
    unfold MachineM.assign
    rw [L.lexeme_eq ht]
    cases depth with
    | some distance =>
        have found : m.store.frameAt? m.scope distance t'.lexeme =
            m'.store.frameAt? m'.scope distance t'.lexeme := by
          rw [hm.store.frameAt?_eq, hm.scope_eq]
        dsimp only
        rw [found]
        cases m'.store.frameAt? m'.scope distance t'.lexeme with
        | none => exact .failed ⟨ht, rfl⟩ hm
        | some frame => exact .done trivial (hm.withStore (hm.store.write frame _ hv))
    | none =>
        dsimp only
        rw [hm.store.frame?_eq]
        cases m'.store.frame? Machine.globalScope t'.lexeme with
        | none => exact .failed ⟨ht, rfl⟩ hm
        | some frame => exact .done trivial (hm.withStore (hm.store.write frame _ hv))

/-! ## Calls -/

theorem bindParameters (scope : Scope) {ps ps' : List Token} {vs vs' : List Value}
    (hp : List.Forall₂ L.token ps ps') (hv : List.Forall₂ (Value.Alike L) vs vs') :
    Lockstep L (bindParameters scope ps vs) (MachineM.bindParameters scope ps' vs')
      fun _ _ => True := by
  induction hp generalizing vs vs' with
  | nil => cases hv <;> exact .pure trivial
  | cons ht _ ih =>
      cases hv with
      | nil => exact .pure trivial
      | cons hv hvs => exact (defineIn scope (L.lexeme_eq ht) hv).bind fun _ _ _ => ih hvs

theorem bindMethod {f f' : Closure} (hf : f.Alike L f') (hv : v.Alike L v') :
    Lockstep L (bindMethod f v) (MachineM.bindMethod f' v') (Closure.Alike L) := by
  unfold MachineM.bindMethod
  rw [hf.scope]
  refine (openScope f'.scope).bind ?_
  rintro scope _ rfl
  exact (defineIn scope rfl hv).bind fun _ _ _ =>
    .pure ⟨hf.declaration, rfl, hf.isInitializer⟩

theorem newFunction {f f' : Closure} (hf : f.Alike L f') :
    Lockstep L (newFunction f) (MachineM.newFunction f') (Value.Alike L) := by
  refine freshId.bind ?_
  rintro id _ rfl
  exact .pure (.function hf)

theorem receiver {f f' : Closure} (hf : f.Alike L f') :
    Lockstep L (receiver f) (MachineM.receiver f') (Value.Alike L) := by
  refine .read fun m m' hm => ?_
  rw [hf.scope]
  rcases rel_cases (hm.store.getAt? f'.scope 0 "this") with ⟨h₁, h₂⟩ | ⟨v, v', h₁, h₂, hv⟩ <;>
    rw [h₁, h₂]
  · exact .nil
  · exact hv

/-- Ways to run a body that are in lockstep on bodies that are alike. -/
def Bodies (L : Likeness) (run run' : List Stmt → MachineM Flow) : Prop :=
  ∀ ss ss', Stmt.AllAlike L ss ss' → Lockstep L (run ss) (run' ss') (Flow.Alike L)

variable {run run' : List Stmt → MachineM Flow} {vs vs' : List Value}

theorem enter (bodies : Bodies L run run') {f f' : Closure} (hf : f.Alike L f')
    (hv : List.Forall₂ (Value.Alike L) vs vs') :
    Lockstep L (enter run f vs) (MachineM.enter run' f' vs') (Value.Alike L) := by
  unfold MachineM.enter
  rw [hf.scope, hf.isInitializer]
  refine (openScope f'.scope).bind ?_
  rintro scope _ rfl
  refine (bindParameters scope hf.declaration.parameters hv).bind fun _ _ _ => ?_
  refine (Lockstep.inScope rfl (bodies _ _ hf.declaration.body)).bind fun flow flow' hflow => ?_
  refine .ite (receiver hf) (.pure ?_)
  cases hflow with
  | next => exact .nil
  | returned h => exact h

theorem invoke (bodies : Bodies L run run') {f f' : Callable} (hf : f.Alike L f')
    (hv : List.Forall₂ (Value.Alike L) vs vs') :
    Lockstep L (invoke run f vs) (MachineM.invoke run' f' vs') (Value.Alike L) := by
  cases hf with
  | clock => exact readClock
  | closure hf => exact enter bodies hf hv
  | construct hk =>
      refine (newObject hk).bind fun o o' ho => ?_
      rcases rel_cases hk.initializer with ⟨h₁, h₂⟩ | ⟨f, g, h₁, h₂, hf⟩ <;> rw [h₁, h₂]
      · exact .pure ho
      · exact (bindMethod hf ho).bind fun f f' hf =>
          (enter bodies hf hv).bind fun _ _ _ => .pure ho

theorem apply (bodies : Bodies L run run') {t t' : Token} (ht : L.token t t')
    (hf : v.Alike L v') (hv : List.Forall₂ (Value.Alike L) vs vs') :
    Lockstep L (apply run t v vs) (MachineM.apply run' t' v' vs') (Value.Alike L) :=
  fun m m' hm => by
    unfold MachineM.apply
    rcases rel_cases hf.callable with ⟨h₁, h₂⟩ | ⟨f, f', h₁, h₂, h⟩ <;> rw [h₁, h₂]
    · exact .failed ⟨ht, rfl⟩ hm
    · dsimp only
      rw [h.arity_eq, hv.length_eq, hm.calls_eq]
      split
      · exact .failed ⟨ht, rfl⟩ hm
      split
      · exact .failed ⟨ht, rfl⟩ hm
      · exact (invoke bodies h hv).counted m m' hm

theorem property (id : Nat) {k k' : Class} (hk : k.Alike L k') {t t' : Token}
    (ht : L.token t t') :
    Lockstep L (property id k t) (MachineM.property id k' t') (Value.Alike L) := by
  refine (field? id (L.lexeme_eq ht)).bind fun o o' ho => ?_
  cases ho with
  | some hv => exact .pure hv
  | none =>
      dsimp only
      rw [L.lexeme_eq ht]
      rcases rel_cases (hk.method t'.lexeme) with ⟨h₁, h₂⟩ | ⟨f, f', h₁, h₂, hf⟩ <;> rw [h₁, h₂]
      · exact .raise ht _
      · exact (bindMethod hf (.object hk)).bind fun _ _ hf => newFunction hf

theorem superMethod {t t' x x' : Token} (ht : L.token t t') (hx : L.token x x')
    (depth : Option Nat) :
    Lockstep L (superMethod t depth x) (MachineM.superMethod t' depth x') (Value.Alike L) := by
  unfold MachineM.superMethod
  cases depth with
  | none => exact .raise ht _
  | some distance =>
      have parent : Lockstep L
          (Action.read fun m => m.store.getAt? m.scope distance "super")
          (Action.read fun m => m.store.getAt? m.scope distance "super")
          (Option.Rel (Value.Alike L)) :=
        .read fun m m' hm => hm.scope_eq ▸ hm.store.getAt? m.scope distance "super"
      have this : Lockstep L
          (Action.read fun m =>
            if distance = 0 then none else m.store.getAt? m.scope (distance - 1) "this")
          (Action.read fun m =>
            if distance = 0 then none else m.store.getAt? m.scope (distance - 1) "this")
          (Option.Rel (Value.Alike L)) := by
        refine .read fun m m' hm => ?_
        split
        · exact .none
        · exact hm.scope_eq ▸ hm.store.getAt? m.scope (distance - 1) "this"
      refine parent.bind fun o o' ho => ?_
      cases ho with
      | none => exact .raise ht _
      | some hv =>
          cases hv with
          | ofClass hp =>
              refine this.bind fun o o' ho => ?_
              cases ho with
              | none => exact .raise ht _
              | some hv =>
                  cases hv with
                  | object hk =>
                      dsimp only
                      rw [L.lexeme_eq hx]
                      rcases rel_cases (hp.method x'.lexeme) with
                        ⟨h₁, h₂⟩ | ⟨f, f', h₁, h₂, hf⟩ <;> rw [h₁, h₂]
                      · exact .raise hx _
                      · exact (bindMethod hf (.object hk)).bind fun _ _ hf => newFunction hf
                  | _ => exact .raise ht _
          | _ => exact .raise ht _

/-! ## Classes -/

theorem methodTable_alike (scope : Scope) {fs fs' : List FunctionDecl}
    (h : FunctionDecl.AllAlike L fs fs') :
    List.Forall₂ (fun entry entry' => entry.1 = entry'.1 ∧ entry.2.Alike L entry'.2)
      (methodTable scope fs) (methodTable scope fs') := by
  unfold MachineM.methodTable
  rw [List.forall₂_map_left_iff, List.forall₂_map_right_iff, List.forall₂_reverse_iff]
  refine h.forall₂.imp fun f f' hf => ?_
  exact ⟨L.lexeme_eq hf.name, hf, rfl, hf.isInitializer_eq⟩

theorem newClass {parent parent' : Option Class} (hx : x = x')
    (hp : Option.Rel (Class.Alike L) parent parent') (scope : Scope) {fs fs' : List FunctionDecl}
    (hf : FunctionDecl.AllAlike L fs fs') :
    Lockstep L (newClass x parent scope fs) (MachineM.newClass x' parent' scope fs')
      (Class.Alike L) := by
  refine freshId.bind ?_
  rintro id _ rfl
  refine .pure (List.Forall₂.cons ⟨rfl, hx, methodTable_alike scope hf⟩ ?_)
  cases hp with
  | none => exact .nil
  | some h => exact h

theorem assignClass {t t' : Token} (ht : L.token t t') {k k' : Class} (hk : k.Alike L k') :
    Lockstep L (assignClass t k) (MachineM.assignClass t' k') fun _ _ => True := fun m m' hm => by
  have found : m.store.frame? m.scope t'.lexeme = m'.store.frame? m'.scope t'.lexeme := by
    rw [hm.store.frame?_eq, hm.scope_eq]
  unfold MachineM.assignClass
  rw [L.lexeme_eq ht, found]
  cases m'.store.frame? m'.scope t'.lexeme with
  | none => exact .failed ⟨ht, rfl⟩ hm
  | some frame => exact .done trivial (hm.withStore (hm.store.write frame _ (.ofClass hk)))

theorem declareClass {t t' : Token} (ht : L.token t t')
    {superclass superclass' : Option (Token × MachineM Value)}
    (hs : Option.Rel (fun p p' => L.token p.1 p'.1 ∧ Lockstep L p.2 p'.2 (Value.Alike L))
      superclass superclass')
    {fs fs' : List FunctionDecl} (hf : FunctionDecl.AllAlike L fs fs') :
    Lockstep L (declareClass t superclass fs) (MachineM.declareClass t' superclass' fs')
      fun _ _ => True := by
  refine (define (L.lexeme_eq ht) .nil).bind fun _ _ _ => ?_
  refine (Lockstep.read fun _ _ hm => hm.scope_eq).bind ?_
  rintro scope _ rfl
  cases hs with
  | none =>
      exact (newClass (L.lexeme_eq ht) .none scope hf).bind fun _ _ hk => assignClass ht hk
  | some h =>
      refine h.2.bind fun v v' hv => ?_
      cases hv with
      | ofClass hp =>
          refine (openScope scope).bind ?_
          rintro inner _ rfl
          refine (defineIn inner rfl (.ofClass hp)).bind fun _ _ _ => ?_
          exact (newClass (L.lexeme_eq ht) (.some hp) inner hf).bind fun _ _ hk => assignClass ht hk
      | _ => exact .raise h.1 _

/-! ## Lists and loops -/

theorem evalAll {run run' : Expr → MachineM Value}
    (hrun : ∀ e e', e.Alike L e' → Lockstep L (run e) (run' e') (Value.Alike L)) :
    ∀ {es es' : List Expr}, Expr.AllAlike L es es' →
      Lockstep L (evalAll run es) (Action.evalAll run' es') (List.Forall₂ (Value.Alike L))
  | _, _, .nil => .pure .nil
  | _, _, .cons head tail => (hrun _ _ head).bind fun _ _ hv =>
      (evalAll hrun tail).bind fun _ _ hvs => .pure (.cons hv hvs)

theorem execAll {run run' : Stmt → MachineM Flow}
    (hrun : ∀ s s', s.Alike L s' → Lockstep L (run s) (run' s') (Flow.Alike L)) :
    Bodies L (execAll run) (Action.execAll run')
  | _, _, .nil => .pure .next
  | _, _, .cons head tail => (hrun _ _ head).bind fun flow flow' hflow => by
      cases hflow with
      | next => exact execAll hrun _ _ tail
      | returned h => exact .pure (.returned h)

theorem loop {test test' : MachineM Value} {body body' : MachineM Flow}
    (htest : Lockstep L test test' (Value.Alike L))
    (hbody : Lockstep L body body' (Flow.Alike L)) (fuel : Nat) :
    Lockstep L (loop test body fuel) (Action.loop test' body' fuel) (Flow.Alike L) := by
  induction fuel with
  | zero => exact .exhausted
  | succ fuel ih =>
      refine htest.bind fun v v' hv => ?_
      rw [hv.truthy_eq]
      refine .ite (hbody.bind fun flow flow' hflow => ?_) (.pure .next)
      cases hflow with
      | next => exact ih
      | returned h => exact .pure (.returned h)

end Lockstep

/-! ## Evaluation -/

theorem Literal.value_alike (l : Literal) : Value.Alike L l.value l.value := by
  cases l with
  | nil => exact .nil
  | bool b => exact .bool b
  | number x => exact .number _
  | string s => exact .string s

theorem superclassToken_alike {x x' : Token} (hx : L.token x x') {e e' : Expr}
    (he : e.Alike L e') : L.token (superclassToken x e) (superclassToken x' e') := by
  cases he with
  | name h => exact h
  | _ => exact hx

section Evaluation

variable {depth depth' : Option Nat → Option Nat}

theorem lockstep_eval_succ (hd : ∀ d d', L.depth d d' → depth d = depth' d') {fuel : Nat}
    (heval : ∀ e e', e.Alike L e' →
      Lockstep L (evalVia depth fuel e) (evalVia depth' fuel e') (Value.Alike L))
    (hexec : ∀ s s', s.Alike L s' →
      Lockstep L (execVia depth fuel s) (execVia depth' fuel s') (Flow.Alike L))
    {e e' : Expr} (h : e.Alike L e') :
    Lockstep L (evalVia depth (fuel + 1) e) (evalVia depth' (fuel + 1) e') (Value.Alike L) := by
  cases h with
  | literal l => exact .pure l.value_alike
  | group inner => exact heval _ _ inner
  | unary operator operand =>
      refine (heval _ _ operand).bind fun v v' hv => ?_
      rw [L.kind_eq operator]
      exact .settle operator (hv.unary_eq _) fun _ => Value.unary_isData
  | binary left operator right =>
      refine (heval _ _ left).bind fun v v' hv => (heval _ _ right).bind fun u u' hu => ?_
      rw [L.kind_eq operator]
      exact .settle operator (hv.binary_eq hu _) fun _ => Value.binary_isData
  | logical left operator right =>
      refine (heval _ _ left).bind fun v v' hv => ?_
      rw [hv.shortCircuits_eq operator]
      exact .ite (.pure hv) (heval _ _ right)
  | name name slot =>
      show Lockstep L (lookUp _ (depth _)) (lookUp _ (depth' _)) _
      rw [hd _ _ slot]
      exact .lookUp name _
  | assign name slot value =>
      refine (heval _ _ value).bind fun v v' hv => ?_
      rw [hd _ _ slot]
      exact (Lockstep.assign name _ hv).bind fun _ _ _ => .pure hv
  | call callee paren arguments =>
      exact (heval _ _ callee).bind fun f f' hf => (Lockstep.evalAll heval arguments).bind
        fun vs vs' hvs => .apply (.execAll hexec) paren hf hvs
  | get object property =>
      refine (heval _ _ object).bind fun v v' hv => ?_
      cases hv with
      | object hk => exact .property _ hk property
      | _ => exact .raise property _
  | set object property value =>
      refine (heval _ _ object).bind fun v v' hv => ?_
      cases hv with
      | object hk =>
          exact (heval _ _ value).bind fun u u' hu =>
            (Lockstep.setField _ (L.lexeme_eq property) hu).bind fun _ _ _ => .pure hu
      | _ => exact .raise property _
  | this keyword slot =>
      show Lockstep L (lookUp _ (depth _)) (lookUp _ (depth' _)) _
      rw [hd _ _ slot]
      exact .lookUp keyword _
  | super keyword slot method =>
      show Lockstep L (superMethod _ (depth _) _) (superMethod _ (depth' _) _) _
      rw [hd _ _ slot]
      exact .superMethod keyword method _

theorem lockstep_exec_succ {fuel : Nat}
    (heval : ∀ e e', e.Alike L e' →
      Lockstep L (evalVia depth fuel e) (evalVia depth' fuel e') (Value.Alike L))
    (hexec : ∀ s s', s.Alike L s' →
      Lockstep L (execVia depth fuel s) (execVia depth' fuel s') (Flow.Alike L))
    {s s' : Stmt} (h : s.Alike L s') :
    Lockstep L (execVia depth (fuel + 1) s) (execVia depth' (fuel + 1) s') (Flow.Alike L) := by
  cases h with
  | expr value => exact (heval _ _ value).bind fun _ _ _ => .pure .next
  | print value =>
      exact (heval _ _ value).bind fun _ _ hv =>
        (Lockstep.print hv.text_eq).bind fun _ _ _ => .pure .next
  | var name initial =>
      cases initial with
      | none => exact (Lockstep.define (L.lexeme_eq name) .nil).bind fun _ _ _ => .pure .next
      | some value =>
          exact (heval _ _ value).bind fun _ _ hv =>
            (Lockstep.define (L.lexeme_eq name) hv).bind fun _ _ _ => .pure .next
  | block body =>
      refine (Lockstep.read fun _ _ hm => hm.scope_eq).bind ?_
      rintro outer _ rfl
      exact (Lockstep.openScope outer).bind fun _ _ hs =>
        .inScope hs (Lockstep.execAll hexec _ _ body)
  | ifThen condition consequent =>
      refine (heval _ _ condition).bind fun v v' hv => ?_
      rw [hv.truthy_eq]
      exact .ite (hexec _ _ consequent) (.pure .next)
  | ifElse condition consequent alternative =>
      refine (heval _ _ condition).bind fun v v' hv => ?_
      rw [hv.truthy_eq]
      exact .ite (hexec _ _ consequent) (hexec _ _ alternative)
  | whileDo condition body => exact .loop (heval _ _ condition) (hexec _ _ body) fuel
  | @function f f' declaration =>
      refine (Lockstep.read fun _ _ hm => hm.scope_eq).bind ?_
      rintro scope _ rfl
      have closure : Closure.Alike L ⟨f, scope, false⟩ ⟨f', scope, false⟩ :=
        ⟨declaration, rfl, rfl⟩
      refine (Lockstep.newFunction closure).bind fun _ _ hf => ?_
      exact (Lockstep.define (L.lexeme_eq declaration.name) hf).bind fun _ _ _ => .pure .next
  | returning keyword value =>
      cases value with
      | none => exact .pure (.returned .nil)
      | some value => exact (heval _ _ value).bind fun _ _ hv => .pure (.returned hv)
  | classDecl name superclass methods =>
      refine (Lockstep.declareClass name ?_ methods).bind fun _ _ _ => .pure .next
      cases superclass with
      | none => exact .none
      | some h => exact .some ⟨superclassToken_alike name h, heval _ _ h⟩

/-- Trees that are alike are in lockstep, if their depths are read alike. -/
theorem lockstep (hd : ∀ d d', L.depth d d' → depth d = depth' d') (fuel : Nat) :
    (∀ e e', e.Alike L e' →
      Lockstep L (evalVia depth fuel e) (evalVia depth' fuel e') (Value.Alike L)) ∧
    (∀ s s', s.Alike L s' →
      Lockstep L (execVia depth fuel s) (execVia depth' fuel s') (Flow.Alike L)) := by
  induction fuel with
  | zero => exact ⟨fun _ _ _ => .exhausted, fun _ _ _ => .exhausted⟩
  | succ fuel ih =>
      exact ⟨fun _ _ => lockstep_eval_succ hd ih.1 ih.2, fun _ _ => lockstep_exec_succ ih.1 ih.2⟩

end Evaluation

end LoxLang
