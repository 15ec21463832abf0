import LoxLang.Proofs.Correspondence

/-!
# Two evaluators in lockstep

`Sim w act ref m t post` says that an action of one evaluator, started in `m`,
and one of the other, started in a state that matches along `w`, end alike.
Either both run out of fuel, or both fail with the same fault and the same
lines printed, or both give values, as `post` says, and leave states that match
along a longer world. The rules below take the two actions apart together. They
end in `simulates`: a tree with depths and the tree as it was read are such a
pair.
-/

namespace LoxLang

open LoxLang.Action MachineM
open Lexical (Env Run State)

/-- What the states hold besides values. -/
def Machine.tally (m : Machine) : Nat × Nat × Array String × (Nat → Float) × Nat :=
  (m.calls, m.nextId, m.printed, m.clock, m.readings)

def Lexical.State.tally (t : State) : Nat × Nat × Array String × (Nat → Float) × Nat :=
  (t.calls, t.nextId, t.printed, t.clock, t.readings)

/-- The states match, whatever scope is in force. -/
def Match (w : World) (m : Machine) (t : State) : Prop :=
  HeapMatch w m.store m.fields t.cells t.globals t.fields ∧ m.tally = t.tally

/-- The actions end alike. -/
def Sim {α β : Type} (w : World) (act : MachineM α) (ref : Run β) (m : Machine) (t : State)
    (post : World → α → β → Machine → Prop) : Prop :=
  match act m, ref t with
  | .done a m', .done b t' => ∃ w', w <+: w' ∧ Match w' m' t' ∧ post w' a b m'
  | .failed fault m', .failed fault' t' => fault = fault' ∧ m'.printed = t'.printed
  | .exhausted, .exhausted => True
  | _, _ => False

section Rules

variable {α β γ δ : Type} {w w' : World} {m : Machine} {t : State} {act : MachineM α}
  {ref : Run β} {post post' : World → α → β → Machine → Prop} {grows : Option Nat}

theorem Match.calls_eq (h : Match w m t) : m.calls = t.calls := congrArg Prod.fst h.2

theorem Match.printed_eq (h : Match w m t) : m.printed = t.printed :=
  congrArg (fun tally => tally.2.2.1) h.2

theorem Sim.pure {a : α} {b : β} (hm : Match w m t) (h : post w a b m) :
    Sim w (pure a) (pure b) m t post := ⟨w, List.prefix_refl w, hm, h⟩

theorem Sim.raise (hm : Match w m t) (token : Token) (fault : Fault) :
    Sim w (raise token fault) (raise token fault) m t post := ⟨rfl, hm.printed_eq⟩

theorem Sim.exhausted : Sim w exhausted exhausted m t post := trivial

theorem Sim.bind {next : α → MachineM γ} {next' : β → Run δ}
    {post' : World → γ → δ → Machine → Prop} (h : Sim w act ref m t post)
    (hn : ∀ w' a b m' t', w <+: w' → Match w' m' t' → post w' a b m' →
      Sim w' (next a) (next' b) m' t' post') :
    Sim w (act >>= next) (ref >>= next') m t post' := by
  unfold Sim at h ⊢
  rw [bind_apply, bind_apply]
  cases ha : act m with
  | done a m' =>
      cases hb : ref t with
      | done b t' =>
          rw [ha, hb] at h
          obtain ⟨w', hw, hm, hp⟩ := h
          have rest := hn w' a b m' t' hw hm hp
          unfold Sim at rest
          revert rest
          dsimp only
          cases next a m' with
          | done c m'' =>
              cases next' b t' with
              | done d t'' =>
                  intro ⟨w'', hw', rest⟩
                  exact ⟨w'', hw.trans hw', rest⟩
              | _ => exact id
          | _ => cases next' b t' <;> exact id
      | _ => rw [ha, hb] at h; exact h.elim
  | failed fault m' =>
      cases hb : ref t with
      | failed => rw [ha, hb] at h; exact h
      | _ => rw [ha, hb] at h; exact h.elim
  | exhausted =>
      cases hb : ref t with
      | exhausted => trivial
      | _ => rw [ha, hb] at h; exact h.elim

theorem Sim.read_bind {f : Machine → α} {g : State → β} {next : α → MachineM γ}
    {next' : β → Run δ} {post : World → γ → δ → Machine → Prop}
    (h : Sim w (next (f m)) (next' (g t)) m t post) :
    Sim w (read f >>= next) (read g >>= next') m t post := h

theorem Sim.read_left {f : Machine → γ} {next : γ → MachineM α}
    (h : Sim w (next (f m)) ref m t post) : Sim w (read f >>= next) ref m t post := h

theorem Sim.mono (h : Sim w act ref m t post)
    (hp : ∀ w' a b m', act m = .done a m' → w <+: w' → post w' a b m' → post' w' a b m') :
    Sim w act ref m t post' := by
  unfold Sim at h ⊢
  revert h hp
  cases act m with
  | done a m' =>
      cases ref t with
      | done b t' =>
          intro ⟨w', hw, hm, h⟩ hp
          exact ⟨w', hw, hm, hp w' a b m' rfl hw h⟩
      | _ => exact fun h _ => h
  | _ => cases ref t <;> exact fun h _ => h

theorem Sim.weaken (h : Sim w' act ref m t post) (hw : w <+: w') : Sim w act ref m t post := by
  unfold Sim at h ⊢
  revert h
  cases act m with
  | done a m' =>
      cases ref t with
      | done b t' =>
          intro ⟨w'', hw', h⟩
          exact ⟨w'', hw.trans hw', h⟩
      | _ => exact id
  | _ => cases ref t <;> exact id

/-- The other side goes on to a value of its own. -/
theorem Sim.then_pure {f : β → δ} {post' : World → α → δ → Machine → Prop}
    (h : Sim w act ref m t post)
    (hp : ∀ w' a b m', w <+: w' → post w' a b m' → post' w' a (f b) m') :
    Sim w act (ref >>= fun b => Pure.pure (f b)) m t post' := by
  rw [← bind_pure act]
  exact h.bind fun w' a b m' _ hw hm h => .pure hm (hp w' a b m' hw h)

/-- What is known of one side's machine can be used. -/
theorem Sim.evolving (h : Sim w act ref m t post) (grows : Option Nat) (he : Evolving grows act m) :
    Sim w act ref m t fun w' a b m' => m.Evolves grows m' ∧ post w' a b m' :=
  h.mono fun _ _ _ _ ha _ hp => ⟨Ends.done he ha, hp⟩

theorem Sim.ite {p : Prop} [Decidable p] {other : MachineM α} {other' : Run β}
    (h : p → Sim w act ref m t post) (h' : ¬ p → Sim w other other' m t post) :
    Sim w (if p then act else other) (if p then ref else other') m t post := by
  split
  · next hp => exact h hp
  · next hp => exact h' hp

theorem Sim.inScope {scope : Scope} (h : Sim w act ref { m with scope := scope } t post)
    (hp : ∀ w' a b m', post w' a b m' → post' w' a b { m' with scope := m.scope }) :
    Sim w (inScope scope act) ref m t post' := by
  unfold Sim MachineM.inScope
  unfold Sim at h
  dsimp only
  revert h
  cases act { m with scope := scope } with
  | done a m' =>
      cases ref t with
      | done b t' =>
          intro ⟨w', hw, hm, h⟩
          exact ⟨w', hw, hm, hp w' a b m' h⟩
      | _ => exact id
  | _ => cases ref t <;> exact id

theorem Sim.counted
    (h : Sim w act ref { m with calls := m.calls + 1 } { t with calls := t.calls + 1 } post)
    (hp : ∀ w' a b m', post w' a b m' → post' w' a b { m' with calls := m'.calls - 1 }) :
    Sim w (counted act) (Lexical.counted ref) m t post' := by
  unfold Sim MachineM.counted Lexical.counted
  unfold Sim at h
  revert h
  cases act { m with calls := m.calls + 1 } with
  | done a m' =>
      cases ref { t with calls := t.calls + 1 } with
      | done b t' =>
          intro ⟨w', hw, hm, h⟩
          refine ⟨w', hw, ⟨hm.1, ?_⟩, hp w' a b m' h⟩
          exact congrArg (fun (calls, rest) => (calls - 1, rest)) hm.2
      | _ => exact id
  | _ => cases ref { t with calls := t.calls + 1 } <;> exact id

end Rules

/-! ## Primitive actions -/

section Primitives

variable {w : World} {m : Machine} {t : State} {c : Context} {env : Env} {scopes : List Declared}
  {scope : Scope} {x : String} {v : Value} {v' : Value Env}

theorem EnvMatch.evolve {w' : World} {m' : Machine} (h : EnvMatch w scopes m.scope env)
    (hw : w <+: w') {grows : Option Nat} (he : m.Evolves grows m') :
    EnvMatch w' scopes m'.scope env := by
  rw [he.scope]
  exact h.mono hw

theorem Innermost.evolve {m' : Machine} (h : Innermost m.store scopes m.scope)
    (he : m.Evolves none m') : Innermost m'.store scopes m'.scope := by
  rw [he.scope]
  exact h.mono he.store

theorem Sim.settle {r : Except Fault Value} {r' : Except Fault (Value Env)} (hm : Match w m t)
    (h : ResultMatch w r r') (token : Token) :
    Sim w (settle token r) (settle token r') m t fun w v v' _ => ValueMatch w v v' := by
  cases h with
  | ok h => exact .pure hm h
  | error fault => exact .raise hm token fault

theorem Sim.freshId (hm : Match w m t) :
    Sim w freshId Lexical.freshId m t fun _ id id' _ => id = id' := by
  refine ⟨w, List.prefix_refl w, ⟨hm.1, ?_⟩, congrArg (fun tally => tally.2.1) hm.2⟩
  exact congrArg (fun (calls, nextId, rest) => (calls, nextId + 1, rest)) hm.2

theorem Sim.newFunction {f : Closure} {g : Closure Env} (hm : Match w m t)
    (h : ClosureMatch w f g) :
    Sim w (newFunction f) (Lexical.newFunction g) m t fun w v v' _ => ValueMatch w v v' := by
  refine (Sim.freshId hm).bind ?_
  rintro w' id _ m' t' hw hm rfl
  exact .pure hm (.function (h.mono hw))

theorem Sim.print {line line' : String} (hm : Match w m t) (h : line = line') :
    Sim w (print line) (change fun s => { s with printed := s.printed.push line' }) m t
      fun _ _ _ _ => True := by
  subst h
  refine ⟨w, List.prefix_refl w, ⟨hm.1, ?_⟩, trivial⟩
  exact congrArg
    (fun (calls, nextId, printed, rest) => (calls, nextId, printed.push line, rest)) hm.2

theorem Sim.setField (hm : Match w m t) (id : Nat) (h : ValueMatch w v v') :
    Sim w (setField id x v)
      (change fun s => { s with fields := s.fields.modify id (·.set x v') }) m t
      fun _ _ _ _ => True :=
  ⟨w, List.prefix_refl w, ⟨hm.1.setField id h, hm.2⟩, trivial⟩

theorem Sim.newObject {k : Class} {l : Class Env} (hm : Match w m t) (h : ClassMatch w k l) :
    Sim w (newObject k)
      (fun s => .done (.object s.fields.size l) { s with fields := s.fields.push .empty }) m t
      fun w v v' _ => ValueMatch w v v' := by
  refine ⟨w, List.prefix_refl w, ⟨hm.1.newObject, hm.2⟩, ?_⟩
  rw [hm.1.objects]
  exact .object h

theorem Sim.readClock (hm : Match w m t) :
    Sim w readClock
      (fun s => .done (.number (s.clock s.readings)) { s with readings := s.readings + 1 }) m t
      fun w v v' _ => ValueMatch w v v' := by
  have clock : m.clock = t.clock := congrArg (fun tally => tally.2.2.2.1) hm.2
  have readings : m.readings = t.readings := congrArg (fun tally => tally.2.2.2.2) hm.2
  refine ⟨w, List.prefix_refl w, ⟨hm.1, ?_⟩, ?_⟩
  · exact congrArg (fun (calls, nextId, printed, clock, readings) =>
      (calls, nextId, printed, clock, readings + 1)) hm.2
  · rw [clock, readings]
    exact .number _

/-- A local name declared: its frame is the innermost, and its cell is new. -/
theorem Sim.allocate {value : Env → Value Env} (hm : Match w m t)
    (henv : EnvMatch w c.scopes scope env) (inner : Innermost m.store c.scopes scope)
    (tracked : c.scopes ≠ []) (fresh : c.declaresHere x = false)
    (hv : ∀ w' env', w <+: w' → EnvMatch w' (c.introduce x).scopes scope env' →
      ValueMatch w' v (value env')) :
    Sim w (defineIn scope x v) (Lexical.allocate env x value) m t fun w' _ env' m' =>
      EnvMatch w' (c.introduce x).scopes scope env' ∧
        Innermost m'.store (c.introduce x).scopes scope := by
  obtain ⟨frame, outer, rfl, notGlobal, inside⟩ := inner.frame tracked
  obtain ⟨declared, scopes, hc⟩ := List.exists_cons_of_ne_nil tracked
  obtain ⟨declared', heq, hl⟩ := Context.introduce_scopes hc x
  have absent : m.store.binds frame x = false := by
    refine Bool.eq_false_iff.2 fun hb => ?_
    have exact := inner.exact
    rw [hc] at exact
    rw [Context.declaresHere, hc] at fresh
    have ready : declared.lookup x = some .ready := exact x hb
    have missing : Context.declares declared x = false := fresh
    rw [Context.declares, ready] at missing
    cases missing
  have hw : w <+: w ++ [(frame, x)] := List.prefix_append ..
  have extended : EnvMatch (w ++ [(frame, x)]) (c.introduce x).scopes (frame :: outer)
      (env.extend x t.cells.size) := by
    have older := henv.mono hw
    rw [hc] at older
    rw [heq]
    exact older.extend hl (hm.1.place_size _)
  refine ⟨_, hw, ⟨hm.1.allocate notGlobal inside absent (hv _ _ hw extended), hm.2⟩, extended, ?_⟩
  refine ⟨fun _ => ⟨frame, outer, rfl, notGlobal, ?_⟩, inner.exact.introduce x v⟩
  show frame < (m.store.write frame x v).frames.size
  rw [Store.size_write]
  exact inside

theorem Sim.declare {value : Env → Value Env} (hm : Match w m t)
    (henv : EnvMatch w c.scopes m.scope env) (inner : Innermost m.store c.scopes m.scope)
    (fresh : c.declaresHere x = false)
    (hv : ∀ w' env', w <+: w' → EnvMatch w' (c.introduce x).scopes m.scope env' →
      ValueMatch w' v (value env')) :
    Sim w (define x v) (Lexical.declare env x value) m t fun w' _ env' m' =>
      EnvMatch w' (c.introduce x).scopes m'.scope env' ∧
        Innermost m'.store (c.introduce x).scopes m'.scope ∧ BindsHere m' x := by
  have inside := henv.inside
  unfold Lexical.declare
  by_cases tracked : c.scopes = []
  -- At top level the context tracks nothing, and the name goes to the table of globals.
  · have same := Context.introduce_of_nil tracked x
    have atTop := henv.global tracked
    rw [tracked] at inside
    rw [same] at hv ⊢
    rw [inside, if_neg (show ¬ (!([] : List Declared).isEmpty) = true by nofun)]
    have written : m.store.define m.scope x v = m.store.write Machine.globalFrame x v := by
      rw [atTop]
      rfl
    have bound : BindsHere { m with store := m.store.define m.scope x v } x :=
      .of_define atTop hm.1.globalFrame x v
    refine ⟨w, List.prefix_refl w, ⟨?_, hm.2⟩, henv, ?_, bound⟩
    · show HeapMatch w (m.store.define m.scope x v) _ _ _ _
      rw [written]
      exact hm.1.writeGlobal (hv w env (List.prefix_refl w) henv)
    · rw [tracked]
      exact .start _ _
  · obtain ⟨frame, outer, hs, -, framed⟩ := inner.frame tracked
    rw [inside, if_pos (by simpa using tracked)]
    have allocated : Sim w (define x v) (Lexical.allocate env x value) m t fun w' _ env' m' =>
        EnvMatch w' (c.introduce x).scopes m.scope env' ∧
          Innermost m'.store (c.introduce x).scopes m.scope :=
      Sim.allocate hm henv inner tracked fresh hv
    refine allocated.mono ?_
    rintro w' _ env' _ ⟨⟩ - ⟨henv', inner'⟩
    exact ⟨henv', inner', .of_define hs framed x v⟩

/-! ## Names -/

variable {name : Token}

theorem Sim.lookUp {depth : Option Nat} (hm : Match w m t)
    (henv : EnvMatch w c.scopes m.scope env) (refers : c.Refers name.lexeme depth) :
    Sim w (lookUp name depth) (Lexical.lookUp env name) m t fun w v v' _ => ValueMatch w v v' := by
  unfold Sim MachineM.lookUp Lexical.lookUp
  cases depth with
  | some depth =>
      obtain ⟨v, v', hv, hv', h⟩ := hm.1.get?_local henv refers
      dsimp only
      rw [hv, hv']
      exact ⟨w, List.prefix_refl w, hm, h⟩
  | none =>
      dsimp only
      rcases rel_cases (hm.1.get?_global henv refers) with ⟨h₁, h₂⟩ | ⟨v, v', h₁, h₂, h⟩
      · rw [h₁, h₂]
        exact ⟨rfl, hm.printed_eq⟩
      · rw [h₁, h₂]
        exact ⟨w, List.prefix_refl w, hm, h⟩

theorem Sim.assign {depth : Option Nat} (hm : Match w m t)
    (henv : EnvMatch w c.scopes m.scope env) (refers : c.Refers name.lexeme depth)
    (hv : ValueMatch w v v') :
    Sim w (assign name depth v) (Lexical.assign env name v') m t fun _ _ _ _ => True := by
  unfold Sim MachineM.assign Lexical.assign
  cases depth with
  | some depth =>
      obtain ⟨cell, frame, hc, hf, place⟩ := henv.ready _ _ refers
      have found : m.store.frameAt? m.scope depth name.lexeme = some frame :=
        Option.filter_eq_some_iff.2 ⟨hf, hm.1.binds (List.mem_of_getElem? place)⟩
      dsimp only
      rw [found, hc]
      exact ⟨w, List.prefix_refl w, ⟨hm.1.writeCell place hv, hm.2⟩, trivial⟩
  | none =>
      dsimp only
      rw [henv.missing _ refers, Machine.globalScope, Store.frame?_singleton, Store.binds]
      rcases rel_cases (hm.1.globals name.lexeme) with ⟨h₁, h₂⟩ | ⟨u, u', h₁, h₂, -⟩
      · rw [h₁, h₂]
        exact ⟨rfl, hm.printed_eq⟩
      · rw [h₁, h₂]
        exact ⟨w, List.prefix_refl w, ⟨hm.1.writeGlobal hv, hm.2⟩, trivial⟩

/-- The binding of a class's name set, where the name has just been declared. -/
theorem Sim.assignClass {k : Class} {l : Class Env} (hm : Match w m t)
    (henv : EnvMatch w (c.introduce name.lexeme).scopes m.scope env)
    (bound : BindsHere m name.lexeme) (h : ClassMatch w k l) :
    Sim w (assignClass name k) (Lexical.assign env name (.ofClass l)) m t
      fun _ _ _ _ => True := by
  obtain ⟨frame, hh, hb⟩ := bound
  unfold Sim MachineM.assignClass Lexical.assign
  rw [Store.frame?_of_head hh hb]
  by_cases tracked : c.scopes = []
  · have none : (c.introduce name.lexeme).scopes = [] := by
      rw [Context.introduce_of_nil tracked, tracked]
    rw [henv.global none] at hh
    cases hh
    have missing : env.cell? name.lexeme = .none := by
      refine henv.missing _ ?_
      rw [none]
      exact nofun
    rw [missing]
    rcases rel_cases (hm.1.globals name.lexeme) with ⟨h₁, -⟩ | ⟨u, u', h₁, h₂, -⟩
    · rw [Store.binds, h₁] at hb
      cases hb
    · rw [h₂]
      exact ⟨w, List.prefix_refl w, ⟨hm.1.writeGlobal (.ofClass h), hm.2⟩, trivial⟩
  · obtain ⟨cell, frame', hc, hf, place⟩ :=
      henv.ready _ 0 (Context.sees_introduce_self tracked)
    rw [List.head?_eq_getElem?, hf] at hh
    cases hh
    rw [hc]
    exact ⟨w, List.prefix_refl w, ⟨hm.1.writeCell place (.ofClass h), hm.2⟩, trivial⟩

/-- A new frame with one name in it, and a new cell. -/
theorem Sim.openWith {α β : Type} {outer : Scope} {next : Scope → MachineM α}
    {next' : Env → Run β} {post : World → α → β → Machine → Prop} (hm : Match w m t)
    (henv : EnvMatch w scopes outer env) (hv : ValueMatch w v v')
    (hn : ∀ w' env' m' t', w <+: w' → m.Evolves none m' → Match w' m' t' →
      EnvMatch w' ([(x, .ready)] :: scopes) (m.store.enter outer).1 env' →
      Sim w' (next (m.store.enter outer).1) (next' env') m' t' post) :
    Sim w (openScope outer >>= fun scope => defineIn scope x v >>= fun _ => next scope)
      (Lexical.allocate env x (fun _ => v') >>= next') m t post := by
  have entered := hm.1.enter outer
  have absent : (m.store.enter outer).2.binds m.store.frames.size x = false := by
    rw [Store.binds_enter, Store.binds_size]
  have framed : m.store.frames.size < (m.store.enter outer).2.frames.size := by
    rw [Store.size_enter]
    exact Nat.lt_succ_self _
  have notGlobal : m.store.frames.size ≠ Machine.globalFrame :=
    (Nat.ne_of_lt hm.1.globalFrame).symm
  have hw : w <+: w ++ [(m.store.frames.size, x)] := List.prefix_append ..
  have heap := entered.allocate notGlobal framed absent (hv.mono hw)
  have evolves : m.Evolves none { m with
      store := (m.store.enter outer).2.define (m.store.enter outer).1 x v } :=
    .of_store rfl rfl rfl (.define_enter m.store outer x v)
  have lookup : ∀ y, [(x, Readiness.ready)].lookup y =
      if y = x then some .ready else ([] : Declared).lookup y := by
    intro y
    rw [List.lookup_cons]
    by_cases hy : y = x
    · rw [if_pos hy, beq_iff_eq.2 hy]
    · rw [if_neg hy, beq_false_of_ne hy]
  have extended : EnvMatch (w ++ [(m.store.frames.size, x)]) ([(x, .ready)] :: scopes)
      (m.store.enter outer).1 (env.extend x t.cells.size) :=
    ((henv.enter m.store.frames.size).mono hw).extend lookup (hm.1.place_size _)
  exact (hn _ _ _ { t with cells := t.cells.push v' } hw evolves ⟨heap, hm.2⟩ extended).weaken hw

/-! ## Methods and functions -/

theorem Sim.bindMethod {f : Closure} {g : Closure Env} {o : Value} {o' : Value Env}
    (hm : Match w m t) (h : MethodMatch w f g) (ho : ValueMatch w o o') :
    Sim w (bindMethod f o) (Lexical.bindMethod g o') m t fun w' f' g' _ =>
      ClosureMatch w' f' g' ∧ f'.declaration = f.declaration := by
  obtain ⟨c, hasSuperclass, resolved, henv, same⟩ := h
  refine Sim.openWith hm henv ho fun w' env' m' t' _ _ hm' henv' => .pure hm' ⟨?_, rfl⟩
  refine ⟨_, _, resolved, henv', same, fun _ => .here rfl⟩

theorem Sim.methodValue {f : Closure} {g : Closure Env} {o : Value} {o' : Value Env}
    (hm : Match w m t) (h : MethodMatch w f g) (ho : ValueMatch w o o') :
    Sim w (MachineM.bindMethod f o >>= MachineM.newFunction)
      (Lexical.bindMethod g o' >>= Lexical.newFunction) m t fun w v v' _ => ValueMatch w v v' :=
  (Sim.bindMethod hm h ho).bind fun _ _ _ _ _ _ hm h => .newFunction hm h.1

theorem Sim.property {id : Nat} {k : Class} {l : Class Env} (hm : Match w m t)
    (h : ClassMatch w k l) (name : Token) :
    Sim w (property id k name) (Lexical.property id l name) m t
      fun w v v' _ => ValueMatch w v v' := by
  have field := hm.1.fields id name.lexeme
  have method := h.method name.lexeme
  refine .read_bind ?_
  rcases rel_cases field with ⟨h₁, h₂⟩ | ⟨v, v', h₁, h₂, hv⟩
  · rw [h₁, h₂]
    dsimp only
    rcases rel_cases method with ⟨h₁, h₂⟩ | ⟨f, g, h₁, h₂, hf⟩
    · rw [h₁, h₂]
      exact .raise hm name .undefinedProperty
    · rw [h₁, h₂]
      exact .methodValue hm hf (.object h)
  · rw [h₁, h₂]
    exact .pure hm hv

theorem Sim.superMethod {keyword method : Token} {depth : Nat} (hm : Match w m t)
    (henv : EnvMatch w c.scopes m.scope env) (receiver : Sees c.scopes "this" depth .ready)
    (parent : Sees c.scopes "super" (depth + 1) .ready) :
    Sim w (superMethod keyword (some (depth + 1)) method)
      (Lexical.superMethod env keyword method) m t fun w v v' _ => ValueMatch w v v' := by
  obtain ⟨v, v', hv, hv', h⟩ := hm.1.get?_local henv parent
  obtain ⟨o, o', ho, ho', hobj⟩ := hm.1.get?_local henv receiver
  refine .read_bind ?_
  rw [hv, hv']
  cases h with
  | @ofClass k l hk =>
      refine .read_bind ?_
      rw [if_neg (Nat.succ_ne_zero _), Nat.add_sub_cancel, ho, ho']
      cases hobj with
      | object hobj =>
          dsimp only
          rcases rel_cases (hk.method method.lexeme) with ⟨h₁, h₂⟩ | ⟨f, g, h₁, h₂, hf⟩
          · rw [h₁, h₂]
            exact .raise hm method .undefinedProperty
          · rw [h₁, h₂]
            exact .methodValue hm hf (.object hobj)
      | _ => exact .raise hm keyword .unboundReceiver
  | _ => exact .raise hm keyword .unboundSuper

/-! ## Calls -/

/-- Ways to run statements that end alike on what was read and on what was resolved. -/
def SimBodies (run : List Stmt → MachineM Flow) (run' : Env → List Stmt → Run (Flow Env)) : Prop :=
  ∀ w c ss ss' c' env m t, Stmt.ResolvedAll true c ss ss' c' → EnvMatch w c.scopes m.scope env →
    Innermost m.store c.scopes m.scope → Match w m t →
    Sim w (run ss') (run' env ss) m t fun w' flow flow' _ => FlowMatch w' flow flow'

theorem Sim.bindParameters {ps : List Token} {vs : List Value} {vs' : List (Value Env)}
    (tracked : c.scopes ≠ []) (distinct : c.parameterErrors ps = []) (hm : Match w m t)
    (henv : EnvMatch w c.scopes scope env) (inner : Innermost m.store c.scopes scope)
    (arity : vs.length = ps.length) (hv : List.Forall₂ (ValueMatch w) vs vs') :
    Sim w (bindParameters scope ps vs) (Lexical.bindParameters env ps vs') m t
      fun w' _ env' m' =>
        EnvMatch w' (ps.foldl (fun c p => c.introduce p.lexeme) c).scopes scope env' ∧
        Innermost m'.store (ps.foldl (fun c p => c.introduce p.lexeme) c).scopes scope := by
  induction ps generalizing w m t c env vs vs' with
  | nil => exact .pure hm ⟨henv, inner⟩
  | cons p ps ih =>
      cases hv with
      | nil => cases arity
      | @cons v v' vs vs' hv hvs =>
          obtain ⟨fresh, distinct⟩ := List.append_eq_nil_iff.1 distinct
          have fresh := Context.fresh_of_redeclaration fresh
          refine (Sim.allocate hm henv inner tracked fresh fun _ _ hw _ => hv.mono hw).bind ?_
          intro w' _ env' m' t' hw hm' ⟨henv', inner'⟩
          refine ih ?_ distinct hm' henv' inner' (Nat.succ.inj arity)
            (hvs.imp fun _ _ h => h.mono hw)
          intro none
          have same := Context.introduce_isEmpty c p.lexeme
          rw [none] at same
          exact tracked (List.isEmpty_iff.1 same.symm)

section Calls

variable {run : List Stmt → MachineM Flow} {run' : Env → List Stmt → Run (Flow Env)}

theorem Sim.enter {f : Closure} {g : Closure Env} {vs : List Value} {vs' : List (Value Env)}
    (bodies : SimBodies run run') (hm : Match w m t) (h : ClosureMatch w f g)
    (arity : vs.length = f.declaration.parameters.length)
    (hv : List.Forall₂ (ValueMatch w) vs vs') :
    Sim w (enter run f vs) (Lexical.enter run' g vs') m t fun w v v' _ => ValueMatch w v v' := by
  obtain ⟨kind, c, resolved, henv, same, receiver⟩ := h
  obtain ⟨declaration, outer, isInitializer⟩ := f
  obtain ⟨declaration', outer', isInitializer'⟩ := g
  obtain rfl : isInitializer = isInitializer' := same
  cases resolved with
  | @mk _ _ _ x ps ss ss' isName names distinct body =>
      have entered : Match w { m with store := (m.store.enter outer).2 } t :=
        ⟨hm.1.enter outer, hm.2⟩
      have bound := Sim.bindParameters (c := { c.enter with body := kind }) nofun distinct entered
        (henv.enter _) (.enter hm.1.globalFrame _ _) arity hv
      show Sim w (MachineM.bindParameters _ ps vs >>= _) (Lexical.bindParameters _ ps vs' >>= _)
        { m with store := (m.store.enter outer).2 } t _
      refine bound.bind fun w' _ env' m' t' hw hm' ⟨henv', inner'⟩ => ?_
      have ran := bodies w' _ _ _ _ env' { m' with scope := _ } t' body henv' inner' hm'
      have back : Sim w' (MachineM.inScope _ (run ss')) (run' env' ss) m' t'
          fun w'' flow flow' _ => FlowMatch w'' flow flow' := Sim.inScope ran fun _ _ _ _ h => h
      refine back.bind fun w'' flow flow' m'' t'' hw' hm'' hf => ?_
      refine .ite (fun hi => ?_) fun _ => .pure hm'' hf.value
      obtain ⟨v, v', hv, hv', h⟩ :=
        hm''.1.get?_local ((henv.mono hw).mono hw') (receiver hi)
      refine ⟨w'', List.prefix_refl w'', hm'', ?_⟩
      show ValueMatch w'' ((m''.store.getAt? outer 0 "this").getD .nil)
        ((t''.get? outer' "this").getD .nil)
      rw [show m''.store.getAt? outer 0 "this" = some v from hv,
        show t''.get? outer' "this" = some v' from hv']
      exact h

inductive CallableMatch (w : World) : Callable → Callable Env → Prop
  | clock : CallableMatch w .clock .clock
  | closure {f : Closure} {g : Closure Env} (h : ClosureMatch w f g) :
      CallableMatch w (.closure f) (.closure g)
  | construct {k : Class} {l : Class Env} (h : ClassMatch w k l) :
      CallableMatch w (.construct k) (.construct l)

theorem ValueMatch.callable (h : ValueMatch w v v') :
    Option.Rel (CallableMatch w) v.callable? v'.callable? := by
  cases h with
  | clock => exact .some .clock
  | function h => exact .some (.closure h)
  | ofClass h => exact .some (.construct h)
  | _ => exact .none

theorem CallableMatch.arity_eq {f : Callable} {g : Callable Env} (h : CallableMatch w f g) :
    f.arity = g.arity := by
  cases h with
  | clock => rfl
  | closure h =>
      obtain ⟨kind, c, resolved, -⟩ := h
      exact congrArg List.length resolved.parameters_eq
  | construct h =>
      rw [Callable.arity, Callable.arity]
      rcases rel_cases (h.initializer) with ⟨h₁, h₂⟩ | ⟨f, g, h₁, h₂, hf⟩
      · rw [h₁, h₂]
      · rw [h₁, h₂]
        obtain ⟨c, hasSuperclass, resolved, -⟩ := hf
        exact congrArg List.length resolved.parameters_eq

theorem Sim.invoke {f : Callable} {g : Callable Env} {vs : List Value} {vs' : List (Value Env)}
    (bodies : SimBodies run run') (hm : Match w m t) (h : CallableMatch w f g)
    (arity : vs.length = f.arity) (hv : List.Forall₂ (ValueMatch w) vs vs') :
    Sim w (invoke run f vs) (Lexical.invoke run' g vs') m t fun w v v' _ => ValueMatch w v v' := by
  cases h with
  | clock => exact .readClock hm
  | closure h => exact .enter bodies hm h arity hv
  | construct h =>
      refine (Sim.newObject hm h).bind fun w' o o' m' t' hw hm' ho => ?_
      have arguments := hv.imp fun _ _ h => h.mono hw
      rcases rel_cases h.initializer with ⟨h₁, h₂⟩ | ⟨f, g, h₁, h₂, hf⟩
      · rw [h₁, h₂]
        exact .pure hm' ho
      · rw [h₁, h₂]
        refine (Sim.bindMethod hm' (hf.mono hw) ho).bind fun w'' f' g' m'' t'' hw' hm'' h' => ?_
        have arity' : vs.length = f'.declaration.parameters.length := by
          rw [h'.2, arity, Callable.arity, h₁]
        refine (Sim.enter bodies hm'' h'.1 arity' (arguments.imp fun _ _ h => h.mono hw')).bind ?_
        intro w3 _ _ m3 t3 hw'' hm3 _
        exact .pure hm3 ((ho.mono hw').mono hw'')

theorem Sim.apply {f : Value} {g : Value Env} {vs : List Value} {vs' : List (Value Env)}
    (bodies : SimBodies run run') (hm : Match w m t) (h : ValueMatch w f g)
    (hv : List.Forall₂ (ValueMatch w) vs vs') (paren : Token) :
    Sim w (apply run paren f vs) (Lexical.apply run' paren g vs') m t
      fun w v v' _ => ValueMatch w v v' := by
  unfold Sim MachineM.apply Lexical.apply
  rcases rel_cases h.callable with ⟨h₁, h₂⟩ | ⟨a, b, h₁, h₂, h⟩
  · rw [h₁, h₂]
    exact ⟨rfl, hm.printed_eq⟩
  · rw [h₁, h₂]
    dsimp only
    rw [← h.arity_eq, ← hv.length_eq, ← hm.calls_eq]
    by_cases arity : vs.length = a.arity
    · rw [if_neg (not_not.2 arity), if_neg (not_not.2 arity)]
      by_cases room : maxCalls ≤ m.calls
      · rw [if_pos room, if_pos room]
        exact ⟨rfl, hm.printed_eq⟩
      · rw [if_neg room, if_neg room]
        refine Sim.counted (.invoke bodies ⟨hm.1, ?_⟩ h arity hv) fun _ _ _ _ h => h
        exact congrArg (fun (calls, rest) => (calls + 1, rest)) hm.2
    · rw [if_pos arity, if_pos arity]
      exact ⟨rfl, hm.printed_eq⟩

end Calls

/-! ## Classes -/

theorem methodTable_match {hasSuperclass : Bool} {ms ms' : List FunctionDecl}
    (methods : FunctionDecl.ResolvedAll true (c.inMethods hasSuperclass) ms ms')
    (henv : EnvMatch w (c.aroundMethods hasSuperclass).scopes scope env) :
    List.Forall₂ (fun entry entry' => entry.1 = entry'.1 ∧ MethodMatch w entry.2 entry'.2)
      (methodTable scope ms') (methodTable env ms) := by
  unfold MachineM.methodTable
  rw [List.forall₂_map_left_iff, List.forall₂_map_right_iff, List.forall₂_reverse_iff]
  refine methods.forall₂.imp fun f' f resolved => ?_
  refine ⟨by rw [resolved.spelled.1], c, hasSuperclass, resolved, henv, resolved.isInitializer_eq⟩

theorem Sim.newClass {name : String} {parent : Option Class} {parent' : Option (Class Env)}
    {hasSuperclass : Bool} {ms ms' : List FunctionDecl} (hm : Match w m t)
    (hp : Option.Rel (ClassMatch w) parent parent')
    (methods : FunctionDecl.ResolvedAll true (c.inMethods hasSuperclass) ms ms')
    (henv : EnvMatch w (c.aroundMethods hasSuperclass).scopes scope env) :
    Sim w (newClass name parent scope ms') (Lexical.newClass name parent' env ms) m t
      fun w k l _ => ClassMatch w k l := by
  refine (Sim.freshId hm).bind ?_
  rintro w' id _ m' t' hw hm' rfl
  have own : LayerMatch w' ⟨id, name, methodTable scope ms'⟩ ⟨id, name, methodTable env ms⟩ :=
    ⟨rfl, rfl, methodTable_match methods (henv.mono hw)⟩
  refine .pure hm' (List.Forall₂.cons own ?_)
  cases hp with
  | none => exact .nil
  | some h => exact h.mono hw

theorem Sim.makeClass {name : Token} {parent : Option Class} {parent' : Option (Class Env)}
    {hasSuperclass : Bool} {ms ms' : List FunctionDecl} {inner : Env} {c' : Context}
    (hm : Match w m t) (henv : EnvMatch w (c'.introduce name.lexeme).scopes m.scope env)
    (innermost : Innermost m.store (c'.introduce name.lexeme).scopes m.scope)
    (bound : BindsHere m name.lexeme) (hp : Option.Rel (ClassMatch w) parent parent')
    (methods : FunctionDecl.ResolvedAll true (c.inMethods hasSuperclass) ms ms')
    (hinner : EnvMatch w (c.aroundMethods hasSuperclass).scopes scope inner) :
    Sim w (MachineM.newClass name.lexeme parent scope ms' >>= MachineM.assignClass name)
      (Lexical.newClass name.lexeme parent' inner ms >>= fun k =>
        Lexical.assign env name (.ofClass k) >>= fun _ => Pure.pure env) m t
      fun w' _ env' m' => EnvMatch w' (c'.introduce name.lexeme).scopes m'.scope env' ∧
        Innermost m'.store (c'.introduce name.lexeme).scopes m'.scope := by
  -- The methods were closed further in, but the name of the class is where it was declared.
  refine ((Sim.newClass hm hp methods hinner).evolving none (.newClass ..)).bind ?_
  intro w' k l m' t' hw hm' ⟨he, h⟩
  have henv' := henv.evolve hw he
  have assigned := (Sim.assignClass hm' henv' (bound.mono he) h).evolving none (.assignClass ..)
  refine assigned.then_pure ?_
  intro w'' _ _ m'' hw' ⟨he', _⟩
  exact ⟨henv'.evolve hw' he', (innermost.evolve he).evolve he'⟩

theorem Sim.declareClass {name : Token}
    (superclass : Option (Token × MachineM Value × (Env → Run (Value Env))))
    {ms ms' : List FunctionDecl} {hasSuperclass : Bool}
    (hm : Match w m t) (henv : EnvMatch w c.scopes m.scope env)
    (inner : Innermost m.store c.scopes m.scope) (fresh : c.declaresHere name.lexeme = false)
    (value : ∀ p ∈ superclass, ∀ w env m t,
      EnvMatch w (c.introduce name.lexeme).scopes m.scope env → Match w m t →
        Sim w p.2.1 (p.2.2 env) m t fun w' v v' m' => m.Evolves none m' ∧ ValueMatch w' v v')
    (methods : FunctionDecl.ResolvedAll true
      ((c.introduce name.lexeme).inMethods hasSuperclass) ms ms')
    (same : superclass.isSome = hasSuperclass) :
    Sim w (declareClass name (superclass.map fun p => (p.1, p.2.1)) ms')
      (Lexical.declareClass env name (superclass.map fun p => (p.1, p.2.2)) ms) m t
      fun w' _ env' m' => EnvMatch w' (c.introduce name.lexeme).scopes m'.scope env' ∧
        Innermost m'.store (c.introduce name.lexeme).scopes m'.scope := by
  subst same
  refine (Sim.declare hm henv inner fresh fun _ _ _ _ => .nil).bind ?_
  intro w' _ env' m' t' hw hm' ⟨henv', inner', bound⟩
  refine Sim.read_left ?_
  cases superclass with
  | none => exact .makeClass hm' henv' inner' bound .none methods henv'
  | some p =>
      obtain ⟨token, act, ref⟩ := p
      refine (value _ rfl w' env' m' t' henv' hm').bind ?_
      intro w'' v v' m'' t'' hw' hm'' ⟨he, hv⟩
      have henv'' := henv'.evolve hw' he
      have inner'' := inner'.evolve he
      cases hv with
      | @ofClass k l h =>
          refine Sim.openWith hm'' (henv'.mono hw') (.ofClass h) ?_
          intro w3 superEnv m3 t3 hw'' he' hm3 hsuper
          exact .makeClass hm3 (henv''.evolve hw'' he') (inner''.evolve he')
            ((bound.mono he).mono he') (.some (h.mono hw'')) methods hsuper
      | _ => exact .raise hm'' token .superclassNotClass

end Primitives

/-! ## Lists and loops -/

/-- Ways to evaluate that end alike on what was read and on what was resolved. -/
def SimExpr (run : Expr → MachineM Value) (run' : Env → Expr → Run (Value Env)) : Prop :=
  ∀ w c e e' env m t, Expr.Resolved true c e e' → EnvMatch w c.scopes m.scope env →
    Match w m t → Sim w (run e') (run' env e) m t fun w' v v' m' =>
      m.Evolves none m' ∧ ValueMatch w' v v'

/-- The same for statements. Where no statement has returned, the environment behind matches the
context behind. -/
def SimStmt (run : Stmt → MachineM Flow) (run' : Env → Stmt → Run (Flow Env × Env)) : Prop :=
  ∀ w c s s' c' env m t, Stmt.Resolved true c s s' c' → EnvMatch w c.scopes m.scope env →
    Innermost m.store c.scopes m.scope → Match w m t →
    Sim w (run s') (run' env s) m t fun w' flow r m' => m.Evolves m.scope.head? m' ∧
      FlowMatch w' flow r.1 ∧ (flow = .next → EnvMatch w' c'.scopes m'.scope r.2 ∧
        Innermost m'.store c'.scopes m'.scope)

section Lists

variable {w : World} {m : Machine} {t : State} {env : Env}

theorem SimExpr.evalAll {run : Expr → MachineM Value} {run' : Env → Expr → Run (Value Env)}
    (hrun : SimExpr run run') {c : Context} :
    ∀ {es es' : List Expr} {w : World} {m : Machine} {t : State}, Expr.ResolvedAll true c es es' →
      EnvMatch w c.scopes m.scope env → Match w m t →
      Sim w (evalAll run es') (evalAll (run' env) es) m t
        fun w' vs vs' _ => List.Forall₂ (ValueMatch w') vs vs'
  | _, _, _, _, _, .nil, _, hm => .pure hm .nil
  | _, _, w, m, t, .cons head tail, henv, hm => by
      refine (hrun w c _ _ env m t head henv hm).bind fun w' v v' m' t' hw hm' ⟨he, hv⟩ => ?_
      exact (hrun.evalAll tail (henv.evolve hw he) hm').bind fun w'' vs vs' m'' t'' hw' hm'' hvs =>
        .pure hm'' (.cons (hv.mono hw') hvs)

theorem SimStmt.execAll {run : Stmt → MachineM Flow} {run' : Env → Stmt → Run (Flow Env × Env)}
    (hrun : SimStmt run run') : SimBodies (execAll run) (Lexical.execAll run')
  | w, c, [], _, _, env, m, t, .nil, henv, inner, hm => .pure hm .next
  | w, c, s :: ss, _, _, env, m, t, .cons head tail, henv, inner, hm => by
      refine (hrun w c _ _ _ env m t head henv inner hm).bind ?_
      intro w' flow ⟨flow', env'⟩ m' t' hw hm' ⟨he, hf, next⟩
      cases hf with
      | next =>
          obtain ⟨henv', inner'⟩ := next rfl
          exact hrun.execAll w' _ ss _ _ env' m' t' tail henv' inner' hm'
      | returned h => exact .pure hm' (.returned h)

/-- A statement that declares nothing leaves the environment it was run in. -/
theorem SimStmt.nested {run : Stmt → MachineM Flow} {run' : Env → Stmt → Run (Flow Env × Env)}
    (hrun : SimStmt run run') {c : Context} {s s' : Stmt} (resolved : Stmt.Resolved true c s s' c)
    (henv : EnvMatch w c.scopes m.scope env) (inner : Innermost m.store c.scopes m.scope)
    (hm : Match w m t) :
    Sim w (run s') (run' env s) m t fun w' flow r m' => FlowMatch w' flow r.1 ∧
      EnvMatch w' c.scopes m'.scope env ∧
        (flow = .next → Innermost m'.store c.scopes m'.scope) := by
  refine (hrun w c s s' c env m t resolved henv inner hm).mono ?_
  intro w' flow r m' _ hw ⟨he, hf, next⟩
  exact ⟨hf, henv.evolve hw he, fun h => (next h).2⟩

theorem SimStmt.branch {run : Stmt → MachineM Flow} {run' : Env → Stmt → Run (Flow Env × Env)}
    (hrun : SimStmt run run') {c : Context} {s s' : Stmt} (resolved : Stmt.Resolved true c s s' c)
    (henv : EnvMatch w c.scopes m.scope env) (inner : Innermost m.store c.scopes m.scope)
    (hm : Match w m t) :
    Sim w (run s') (run' env s >>= fun r => Pure.pure (r.1, env)) m t fun w' flow r m' =>
      FlowMatch w' flow r.1 ∧ (flow = .next → EnvMatch w' c.scopes m'.scope r.2 ∧
        Innermost m'.store c.scopes m'.scope) := by
  refine (hrun.nested resolved henv inner hm).then_pure ?_
  intro w' flow r m' _ ⟨hf, henv', next⟩
  exact ⟨hf, fun h => ⟨henv', next h⟩⟩

theorem SimStmt.loop {fuel : Nat} {c : Context} {e e' : Expr} {s s' : Stmt}
    {run : Expr → MachineM Value} {run' : Env → Expr → Run (Value Env)}
    {body : Stmt → MachineM Flow} {body' : Env → Stmt → Run (Flow Env × Env)}
    (hrun : SimExpr run run') (hbody : SimStmt body body') (test : Expr.Resolved true c e e')
    (resolved : Stmt.Resolved true c s s' c) (henv : EnvMatch w c.scopes m.scope env)
    (inner : Innermost m.store c.scopes m.scope) (hm : Match w m t) :
    Sim w (loop (run e') (body s') fuel) (loop (run' env e) (Prod.fst <$> body' env s) fuel) m t
      fun w' flow flow' m' => FlowMatch w' flow flow' ∧
        (flow = .next → EnvMatch w' c.scopes m'.scope env ∧
          Innermost m'.store c.scopes m'.scope) := by
  induction fuel generalizing w m t with
  | zero => exact .exhausted
  | succ fuel ih =>
      refine (hrun w c e e' env m t test henv hm).bind fun w' v v' m' t' hw hm' ⟨he, hv⟩ => ?_
      have henv' := henv.evolve hw he
      have inner' := inner.evolve he
      rw [hv.truthy_eq, map_eq_pure_bind]
      refine .ite (fun _ => ?_) fun _ => .pure hm' ⟨.next, fun _ => ⟨henv', inner'⟩⟩
      have round : Sim w' (body s') (body' env s >>= fun r => Pure.pure r.1) m' t'
          fun w'' flow flow' m'' => FlowMatch w'' flow flow' ∧ EnvMatch w'' c.scopes m''.scope env ∧
            (flow = .next → Innermost m''.store c.scopes m''.scope) :=
        (hbody.nested resolved henv' inner' hm').then_pure fun _ _ _ _ _ h => h
      refine round.bind fun w'' flow flow' m'' t'' _ hm'' ⟨hf, henv'', next⟩ => ?_
      cases hf with
      | next =>
          rw [← map_eq_pure_bind]
          exact ih henv'' (next rfl) hm''
      | returned h => exact .pure hm'' ⟨.returned h, nofun⟩

end Lists

/-! ## Evaluation -/

theorem Literal.value_match (w : World) (l : Literal) : ValueMatch w l.value (l.value Env) := by
  cases l with
  | nil => exact .nil
  | bool b => exact .bool b
  | number x => exact .number _
  | string s => exact .string s

theorem SimExpr.succ {fuel : Nat} (heval : SimExpr (eval fuel) (Lexical.eval fuel))
    (hexec : SimStmt (exec fuel) (Lexical.exec fuel)) :
    SimExpr (eval (fuel + 1)) (Lexical.eval (fuel + 1)) := by
  intro w c e e' env m t resolved henv hm
  have value : ∀ {e e'}, Expr.Resolved true c e e' →
      Sim w (eval fuel e') (Lexical.eval fuel env e) m t fun w' v v' m' =>
        m.Evolves none m' ∧ ValueMatch w' v v' :=
    fun h => heval w c _ _ env m t h henv hm
  have later : ∀ {e e' w' m' t'}, Expr.Resolved true c e e' → w <+: w' → m.Evolves none m' →
      Match w' m' t' → Sim w' (eval fuel e') (Lexical.eval fuel env e) m' t' fun w'' v v' m'' =>
        m'.Evolves none m'' ∧ ValueMatch w'' v v' := by
    intro e e' w' m' t' h hw he hm'
    exact heval w' c e e' env m' t' h (henv.evolve hw he) hm'
  refine Sim.evolving ?_ none ((evolving (fuel + 1)).1 e' m)
  cases resolved with
  | @literal l => exact .pure hm (l.value_match w)
  | group inner => exact (value inner).mono fun _ _ _ _ _ _ h => h.2
  | @unary operator e e' operand =>
      refine (value operand).bind fun w' v v' m' t' _ hm' ⟨_, hv⟩ => ?_
      exact .settle hm' (hv.unary operator.kind) operator
  | @binary l l' r r' operator left right =>
      refine (value left).bind fun w' v v' m' t' hw hm' ⟨he, hv⟩ => ?_
      refine (later right hw he hm').bind fun w'' u u' m'' t'' hw' hm'' ⟨_, hu⟩ => ?_
      exact .settle hm'' ((hv.mono hw').binary hu operator.kind) operator
  | @logical l l' r r' operator left right =>
      refine (value left).bind fun w' v v' m' t' hw hm' ⟨he, hv⟩ => ?_
      rw [show v.shortCircuits operator = v'.shortCircuits operator from by
        rw [Value.shortCircuits, Value.shortCircuits, hv.truthy_eq]]
      refine .ite (fun _ => .pure hm' hv) fun _ => ?_
      exact (later right hw he hm').mono fun _ _ _ _ _ _ h => h.2
  | name isName refers => exact .lookUp hm henv refers
  | assign isName refers initial =>
      refine (value initial).bind fun w' v v' m' t' hw hm' ⟨he, hv⟩ => ?_
      refine (Sim.assign hm' (henv.evolve hw he) refers hv).bind
        fun w'' _ _ m'' t'' hw' hm'' _ => ?_
      exact .pure hm'' (hv.mono hw')
  -- A pending name has a depth already, but no cell yet. The flag rules this case out.
  | assignOwn lax => cases lax
  | @call f f' paren es es' callee arguments =>
      refine (value callee).bind fun w' v v' m' t' hw hm' ⟨he, hv⟩ => ?_
      refine (heval.evalAll arguments (henv.evolve hw he) hm').bind
        fun w'' vs vs' m'' t'' hw' hm'' hvs => ?_
      exact .apply hexec.execAll hm'' (hv.mono hw') hvs paren
  | @get e e' property object =>
      refine (value object).bind fun w' v v' m' t' _ hm' ⟨_, hv⟩ => ?_
      cases hv with
      | object h => exact .property hm' h property
      | _ => exact .raise hm' property .readOfNonObject
  | @set e e' r r' property object content =>
      refine (value object).bind fun w' v v' m' t' hw hm' ⟨he, hv⟩ => ?_
      cases hv with
      | @object id k l h =>
          refine (later content hw he hm').bind fun w'' u u' m'' t'' _ hm'' ⟨_, hu⟩ => ?_
          refine (Sim.setField hm'' id hu).bind fun w3 _ _ m3 t3 hw' hm3 _ => ?_
          exact .pure hm3 (hu.mono hw')
      | _ => exact .raise hm' property .writeOfNonObject
  | @this keyword depth spelled sees =>
      have refers : c.Refers keyword.lexeme (some depth) := by
        rw [spelled]
        exact sees
      exact .lookUp hm henv refers
  | super spelled receiver parent => exact .superMethod hm henv receiver parent

theorem SimStmt.succ {fuel : Nat} (heval : SimExpr (eval fuel) (Lexical.eval fuel))
    (hexec : SimStmt (exec fuel) (Lexical.exec fuel)) :
    SimStmt (exec (fuel + 1)) (Lexical.exec (fuel + 1)) := by
  intro w c s s' c' env m t resolved henv inner hm
  -- An expression leaves the scope in force, and its innermost frame, as they were.
  have value : ∀ {e e'}, Expr.Resolved true c e e' →
      Sim w (eval fuel e') (Lexical.eval fuel env e) m t fun w' v v' m' =>
        ValueMatch w' v v' ∧ EnvMatch w' c.scopes m'.scope env ∧
          Innermost m'.store c.scopes m'.scope := by
    intro e e' h
    refine (heval w c e e' env m t h henv hm).mono ?_
    intro w' v v' m' _ hw ⟨he, hv⟩
    exact ⟨hv, henv.evolve hw he, inner.evolve he⟩
  refine Sim.evolving ?_ m.scope.head? ((evolving (fuel + 1)).2 s' m)
  cases resolved with
  | expr h =>
      refine (value h).bind fun w' v v' m' t' _ hm' ⟨_, henv', inner'⟩ => ?_
      exact .pure hm' ⟨.next, fun _ => ⟨henv', inner'⟩⟩
  | print h =>
      refine (value h).bind fun w' v v' m' t' _ hm' ⟨hv, henv', inner'⟩ => ?_
      refine ((Sim.print hm' hv.text_eq).evolving none (.print _)).bind ?_
      intro w'' _ _ m'' t'' hw' hm'' ⟨he, _⟩
      exact .pure hm'' ⟨.next, fun _ => ⟨henv'.evolve hw' he, inner'.evolve he⟩⟩
  | bare isName fresh =>
      refine (Sim.declare hm henv inner fresh fun _ _ _ _ => .nil).bind ?_
      intro w' _ env' m' t' _ hm' ⟨henv', inner', _⟩
      exact .pure hm' ⟨.next, fun _ => ⟨henv', inner'⟩⟩
  | @var _ x e e' isName fresh initial =>
      have pending := henv.declare x.lexeme
      refine (heval w _ e e' env m t initial pending hm).bind ?_
      intro w' v v' m' t' hw hm' ⟨he, hv⟩
      refine (Sim.declare hm' (henv.evolve hw he) (inner.evolve he) fresh
        fun _ _ hw' _ => hv.mono hw').bind ?_
      intro w'' _ env'' m'' t'' _ hm'' ⟨henv'', inner'', _⟩
      exact .pure hm'' ⟨.next, fun _ => ⟨henv'', inner''⟩⟩
  -- Both sides come back to where they were: one leaves the frame, the other drops the names.
  | @block _ c' ss ss' body =>
      have inside := hexec.execAll w c.enter ss ss' c' env.enter
        { m with store := (m.store.enter m.scope).2, scope := (m.store.enter m.scope).1 } t body
        (henv.enter _) (.enter hm.1.globalFrame _ _) ⟨hm.1.enter m.scope, hm.2⟩
      have whole : Sim w (exec (fuel + 1) (.block ss'))
          (Lexical.execAll (Lexical.exec fuel) env.enter ss) m t
          fun w' flow flow' _ => FlowMatch w' flow flow' :=
        Sim.inScope (m := { m with store := (m.store.enter m.scope).2 }) inside fun _ _ _ _ h => h
      refine (whole.evolving none (.block (evolving fuel).2 ss' m)).then_pure ?_
      intro w' flow flow' m' hw ⟨he, hf⟩
      exact ⟨hf, fun _ => ⟨henv.evolve hw he, inner.evolve he⟩⟩
  | @ifThen _ e e' s s' test consequent =>
      refine (value test).bind fun w' v v' m' t' _ hm' ⟨hv, henv', inner'⟩ => ?_
      rw [hv.truthy_eq]
      exact .ite (fun _ => hexec.branch consequent henv' inner' hm')
        fun _ => .pure hm' ⟨.next, fun _ => ⟨henv', inner'⟩⟩
  | @ifElse _ e e' s s' r r' test consequent alternative =>
      refine (value test).bind fun w' v v' m' t' _ hm' ⟨hv, henv', inner'⟩ => ?_
      rw [hv.truthy_eq]
      exact .ite (fun _ => hexec.branch consequent henv' inner' hm')
        fun _ => hexec.branch alternative henv' inner' hm'
  | whileDo test body =>
      refine (SimStmt.loop heval hexec test body henv inner hm).then_pure ?_
      intro w' flow flow' m' _ ⟨hf, next⟩
      exact ⟨hf, next⟩
  | @function _ f f' fresh declaration =>
      show Sim w (freshId >>= fun id =>
        define f'.name.lexeme (.function id ⟨f', m.scope, false⟩) >>= fun _ =>
          Pure.pure Flow.next) _ m t _
      rw [declaration.spelled.1]
      have numbered := (Sim.freshId hm).evolving none (.of_store rfl rfl rfl (.refl _))
      refine numbered.bind ?_
      rintro w' id _ m' t' hw hm' ⟨he, rfl⟩
      refine (Sim.declare hm' (henv.evolve hw he) (inner.evolve he) fresh ?_).bind ?_
      -- The function keeps the environment that has its own name.
      · intro w'' env' _ henv'
        rw [he.scope] at henv'
        exact .function ⟨.function, _, declaration, henv', rfl, nofun⟩
      · intro w'' _ env' m'' t'' _ hm'' ⟨henv', inner', _⟩
        exact .pure hm'' ⟨.next, fun _ => ⟨henv', inner'⟩⟩
  | bareReturn => exact .pure hm ⟨.returned .nil, nofun⟩
  | returning _ _ h =>
      refine (value h).bind fun w' v v' m' t' _ hm' ⟨hv, _⟩ => ?_
      exact .pure hm' ⟨.returned hv, nofun⟩
  | rootClass isName fresh methods =>
      refine (Sim.declareClass none hm henv inner fresh nofun methods rfl).bind ?_
      intro w' _ env' m' t' _ hm' ⟨henv', inner'⟩
      exact .pure hm' ⟨.next, fun _ => ⟨henv', inner'⟩⟩
  | @subclass _ x y depth ms ms' isName fresh superclass other methods =>
      refine (Sim.declareClass (some (y, eval fuel (.name y depth), fun env =>
        Lexical.eval fuel env (.name y none))) hm henv inner fresh ?_ methods rfl).bind ?_
      · rintro _ ⟨⟩ w env m t henv hm
        exact heval w _ _ _ env m t superclass henv hm
      · intro w' _ env' m' t' _ hm' ⟨henv', inner'⟩
        exact .pure hm' ⟨.next, fun _ => ⟨henv', inner'⟩⟩

/-- A tree and its resolved form end alike, wherever they stand. -/
theorem simulates (fuel : Nat) : SimExpr (eval fuel) (Lexical.eval fuel) ∧
    SimStmt (exec fuel) (Lexical.exec fuel) := by
  induction fuel with
  | zero =>
      refine ⟨?_, ?_⟩
      · intro _ _ _ _ _ _ _ _ _ _
        exact .exhausted
      · intro _ _ _ _ _ _ _ _ _ _ _ _
        exact .exhausted
  | succ fuel ih => exact ⟨ih.1.succ ih.2, .succ ih.1 ih.2⟩

end LoxLang
