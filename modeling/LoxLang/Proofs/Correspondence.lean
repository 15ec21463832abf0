import LoxLang.Proofs.Invariant
import LoxLang.Proofs.Lexical
import Mathlib.Data.List.Forall2
import Mathlib.Data.List.Nodup

/-!
# Frames and cells

One evaluator keeps a local variable in a frame, under its name; the other
keeps it in a cell of its own. A world says which cell stands for what: it is
the list of the cells' frames and names, so it grows at the end whenever a
variable is declared, and what it said of older cells stays true.

Along a world, environments match scopes at the contexts of resolution: a name
that is ready some depth out has the cell that stands for it in the frame so
far out, and a name that no tracked scope declares is in no environment. This
speaks of no contents, so it lasts. Values match if they are the same but for
what closures keep, and heaps match if matching values are in matching places.
-/

namespace LoxLang

open Lexical (Env)

/-- For each cell, its frame and its name. -/
abbrev World := List (Nat × String)

theorem World.getElem?_mono {w w' : World} (h : w <+: w') {cell : Nat} {place : Nat × String}
    (hc : w[cell]? = some place) : w'[cell]? = some place := by
  obtain ⟨more, rfl⟩ := h
  obtain ⟨inside, -⟩ := List.getElem?_eq_some_iff.1 hc
  rw [List.getElem?_append_left inside]
  exact hc

/-! ## Environments and scopes -/

/-- The environment has the cells of the names that are ready, and no others. -/
structure EnvMatch (w : World) (scopes : List Declared) (scope : Scope) (env : Env) : Prop where
  inside : env.inside = !scopes.isEmpty
  global : scopes = [] → scope = Machine.globalScope
  ready : ∀ x depth, Sees scopes x depth .ready → ∃ cell frame,
    env.cell? x = some cell ∧ scope[depth]? = some frame ∧ w[cell]? = some (frame, x)
  missing : ∀ x, Misses scopes x → env.cell? x = none

/-- The innermost frame, if it is not the global one, binds what is ready and nothing else. -/
structure Innermost (s : Store Value) (scopes : List Declared) (scope : Scope) : Prop where
  frame : scopes ≠ [] → ∃ frame outer, scope = frame :: outer ∧ frame ≠ Machine.globalFrame ∧
    frame < s.frames.size
  exact : Exact s scopes scope

section Scopes

variable {w w' : World} {s s' : Store Value} {scopes : List Declared} {scope : Scope} {env : Env}
  {c : Context} {x : String}

theorem EnvMatch.mono (h : EnvMatch w scopes scope env) (hw : w <+: w') :
    EnvMatch w' scopes scope env where
  inside := h.inside
  global := h.global
  ready y depth sees := by
    obtain ⟨cell, frame, hc, hf, hp⟩ := h.ready y depth sees
    exact ⟨cell, frame, hc, hf, World.getElem?_mono hw hp⟩
  missing := h.missing

theorem EnvMatch.start : EnvMatch [] Context.global.scopes Machine.globalScope .global where
  inside := rfl
  global _ := rfl
  ready _ _ sees := nomatch sees
  missing _ _ := rfl

theorem EnvMatch.enter (h : EnvMatch w scopes scope env) (frame : Nat) :
    EnvMatch w ([] :: scopes) (frame :: scope) env.enter where
  inside := rfl
  global := nofun
  ready y depth sees := by
    cases sees with
    | here hl => cases hl
    | out _ sees => exact h.ready y _ sees
  missing y misses := h.missing y fun outer ho => misses outer (List.mem_cons_of_mem _ ho)

theorem EnvMatch.extend {declared declared' : Declared} {frame cell : Nat}
    (h : EnvMatch w (declared :: scopes) (frame :: scope) env)
    (lookup : ∀ y, declared'.lookup y = if y = x then some .ready else declared.lookup y)
    (place : w[cell]? = some (frame, x)) :
    EnvMatch w (declared' :: scopes) (frame :: scope) (env.extend x cell) where
  inside := rfl
  global := nofun
  ready y depth sees := by
    by_cases hy : y = x
    · subst hy
      have here := sees.unique (.here (by rw [lookup, if_pos rfl]) : Sees _ _ 0 .ready)
      rw [here.1]
      exact ⟨cell, frame, List.lookup_cons_self, rfl, place⟩
    · rw [Env.cell?, Env.extend, List.lookup_cons, beq_false_of_ne hy]
      refine h.ready y depth ?_
      cases sees with
      | here hl =>
          rw [lookup, if_neg hy] at hl
          exact .here hl
      | out hl sees =>
          rw [lookup, if_neg hy] at hl
          exact .out hl sees
  missing y misses := by
    obtain ⟨hl, outer⟩ := misses_cons.1 misses
    rw [lookup] at hl
    split at hl
    · cases hl
    · next hy =>
        rw [Env.cell?, Env.extend, List.lookup_cons, beq_false_of_ne hy]
        exact h.missing y (misses_cons.2 ⟨hl, outer⟩)

/-- A name that is pending is not looked for. -/
theorem EnvMatch.declare (h : EnvMatch w c.scopes scope env) (x : String) :
    EnvMatch w (c.declare x).scopes scope env := by
  unfold Context.declare
  split
  · exact h
  · next declared outer hc =>
      split
      · exact h
      · rw [hc] at h
        refine ⟨h.inside, nofun, fun y depth sees => h.ready y depth ?_, fun y misses => ?_⟩
        · by_cases hy : y = x
          · subst hy
            cases (sees.unique (.here List.lookup_cons_self)).2
          · cases sees with
            | here hl =>
                rw [List.lookup_cons, beq_false_of_ne hy] at hl
                exact .here hl
            | out hl sees =>
                rw [List.lookup_cons, beq_false_of_ne hy] at hl
                exact .out hl sees
        · obtain ⟨hl, misses⟩ := misses_cons.1 misses
          rw [List.lookup_cons] at hl
          split at hl
          · cases hl
          · exact h.missing y (misses_cons.2 ⟨hl, misses⟩)

theorem Innermost.mono (h : Innermost s scopes scope) (hs : s.Extends none s') :
    Innermost s' scopes scope := by
  cases scopes with
  | nil => exact ⟨fun hne => absurd rfl hne, trivial⟩
  | cons declared outer =>
      obtain ⟨frame, rest, rfl, notGlobal, inside⟩ := h.frame nofun
      refine ⟨fun _ => ⟨frame, rest, rfl, notGlobal, Nat.lt_of_lt_of_le inside hs.size⟩, ?_⟩
      intro x hx
      exact h.exact x (hs.exact inside nofun hx)

theorem Innermost.start (s : Store Value) (scope : Scope) :
    Innermost s Context.global.scopes scope :=
  ⟨fun h => absurd rfl h, trivial⟩

theorem Innermost.enter (globalFrame : Machine.globalFrame < s.frames.size)
    (scopes : List Declared) (outer : Scope) :
    Innermost (s.enter outer).2 ([] :: scopes) (s.enter outer).1 := by
  refine ⟨fun _ => ⟨s.frames.size, outer, rfl, (Nat.ne_of_lt globalFrame).symm, ?_⟩, ?_⟩
  · rw [Store.size_enter]
    exact Nat.lt_succ_self _
  · intro x hx
    rw [Store.binds_enter, Store.binds_size] at hx
    cases hx

end Scopes

/-! ## Values -/

theorem rel_cases {α β : Type} {r : α → β → Prop} {o : Option α} {o' : Option β}
    (h : Option.Rel r o o') : (o = none ∧ o' = none) ∨ ∃ a b, o = some a ∧ o' = some b ∧ r a b := by
  cases h with
  | some h => exact .inr ⟨_, _, rfl, rfl, h⟩
  | none => exact .inl ⟨rfl, rfl⟩

theorem rel_map {α β γ δ : Type} {r : α → β → Prop} {q : γ → δ → Prop} {f : α → γ} {g : β → δ}
    (hfg : ∀ a b, r a b → q (f a) (g b)) {o : Option α} {o' : Option β} (h : Option.Rel r o o') :
    Option.Rel q (o.map f) (o'.map g) := by
  cases h with
  | none => exact .none
  | some h => exact .some (hfg _ _ h)

theorem rel_imp {α β : Type} {r r' : α → β → Prop} (imp : ∀ a b, r a b → r' a b) {o : Option α}
    {o' : Option β} (h : Option.Rel r o o') : Option.Rel r' o o' := by
  cases h with
  | none => exact .none
  | some h => exact .some (imp _ _ h)

/-- Functions made by one declaration, in a scope and an environment that match where it stands. -/
def ClosureMatch (w : World) (f : Closure) (g : Closure Env) : Prop :=
  ∃ (kind : Body) (c : Context),
    FunctionDecl.Resolved true kind c g.declaration f.declaration ∧
    EnvMatch w c.scopes f.scope g.scope ∧ f.isInitializer = g.isInitializer ∧
    (f.isInitializer = true → Sees c.scopes "this" 0 .ready)

/-- Methods made by one declaration, to which only `this` has to be added. -/
def MethodMatch (w : World) (f : Closure) (g : Closure Env) : Prop :=
  ∃ (c : Context) (hasSuperclass : Bool),
    FunctionDecl.Resolved true g.declaration.methodBody (c.inMethods hasSuperclass) g.declaration
      f.declaration ∧
    EnvMatch w (c.aroundMethods hasSuperclass).scopes f.scope g.scope ∧
    f.isInitializer = g.isInitializer

structure LayerMatch (w : World) (k : ClassLayer) (l : ClassLayer Env) : Prop where
  id : k.id = l.id
  name : k.name = l.name
  methods : List.Forall₂ (fun entry entry' => entry.1 = entry'.1 ∧
    MethodMatch w entry.2 entry'.2) k.methods l.methods

/-- Classes that match, and so do their superclasses. -/
def ClassMatch (w : World) (k : Class) (l : Class Env) : Prop :=
  List.Forall₂ (LayerMatch w) k.layers l.layers

/-- Values that no program can tell apart. -/
inductive ValueMatch (w : World) : Value → Value Env → Prop
  | nil : ValueMatch w .nil .nil
  | bool (b : Bool) : ValueMatch w (.bool b) (.bool b)
  | number (x : Float) : ValueMatch w (.number x) (.number x)
  | string (s : String) : ValueMatch w (.string s) (.string s)
  | clock : ValueMatch w .clock .clock
  | function {id : Nat} {f : Closure} {g : Closure Env} (h : ClosureMatch w f g) :
      ValueMatch w (.function id f) (.function id g)
  | ofClass {k : Class} {l : Class Env} (h : ClassMatch w k l) :
      ValueMatch w (.ofClass k) (.ofClass l)
  | object {id : Nat} {k : Class} {l : Class Env} (h : ClassMatch w k l) :
      ValueMatch w (.object id k) (.object id l)

inductive FlowMatch (w : World) : Flow → Flow Env → Prop
  | next : FlowMatch w .next .next
  | returned {v : Value} {v' : Value Env} (h : ValueMatch w v v') :
      FlowMatch w (.returned v) (.returned v')

theorem FlowMatch.value {w : World} {flow : Flow} {flow' : Flow Env} (h : FlowMatch w flow flow') :
    ValueMatch w flow.value flow'.value := by
  cases h with
  | next => exact .nil
  | returned h => exact h

section Values

variable {w w' : World} {v u : Value} {v' u' : Value Env}

theorem ClosureMatch.mono {f : Closure} {g : Closure Env} (h : ClosureMatch w f g)
    (hw : w <+: w') : ClosureMatch w' f g := by
  obtain ⟨kind, c, resolved, env, hi⟩ := h
  exact ⟨kind, c, resolved, env.mono hw, hi⟩

theorem MethodMatch.mono {f : Closure} {g : Closure Env} (h : MethodMatch w f g)
    (hw : w <+: w') : MethodMatch w' f g := by
  obtain ⟨c, hasSuperclass, resolved, env, hi⟩ := h
  exact ⟨c, hasSuperclass, resolved, env.mono hw, hi⟩

theorem ClassMatch.mono {k : Class} {l : Class Env} (h : ClassMatch w k l) (hw : w <+: w') :
    ClassMatch w' k l := by
  refine List.Forall₂.imp (fun _ _ layer => ⟨layer.id, layer.name, ?_⟩) h
  exact layer.methods.imp fun _ _ entry => ⟨entry.1, entry.2.mono hw⟩

theorem ValueMatch.mono (h : ValueMatch w v v') (hw : w <+: w') : ValueMatch w' v v' := by
  cases h with
  | nil => exact .nil
  | bool b => exact .bool b
  | number x => exact .number x
  | string s => exact .string s
  | clock => exact .clock
  | function h => exact .function (h.mono hw)
  | ofClass h => exact .ofClass (h.mono hw)
  | object h => exact .object (h.mono hw)

theorem ValueMatch.truthy_eq (h : ValueMatch w v v') : v.truthy = v'.truthy := by
  cases h <;> rfl

theorem ClassMatch.own {k : Class} {l : Class Env} (h : ClassMatch w k l) :
    LayerMatch w k.own l.own := (List.forall₂_cons.1 h).1

theorem ValueMatch.text_eq (h : ValueMatch w v v') : v.text = v'.text := by
  cases h with
  | bool b => cases b <;> rfl
  | function h =>
      obtain ⟨kind, c, resolved, -⟩ := h
      rw [Value.text, Value.text, resolved.spelled.1]
  | ofClass h => exact h.own.name
  | object h => rw [Value.text, Value.text, h.own.name]
  | _ => rfl

theorem ValueMatch.same_eq (h : ValueMatch w v v') (hu : ValueMatch w u u') :
    v.same u = v'.same u' := by
  cases h with
  | ofClass h =>
      cases hu with
      | ofClass hu => rw [Value.same, Value.same, h.own.id, hu.own.id]
      | _ => rfl
  | _ => cases hu <;> rfl

theorem lookup_match {ms : List (String × Closure)} {ms' : List (String × Closure Env)}
    (h : List.Forall₂ (fun entry entry' => entry.1 = entry'.1 ∧
      MethodMatch w entry.2 entry'.2) ms ms') (x : String) :
    Option.Rel (MethodMatch w) (ms.lookup x) (ms'.lookup x) := by
  induction h with
  | nil => exact .none
  | @cons entry entry' _ _ h _ ih =>
      obtain ⟨y, f⟩ := entry
      obtain ⟨z, g⟩ := entry'
      obtain ⟨rfl, h⟩ := h
      rw [List.lookup_cons, List.lookup_cons]
      cases x == y with
      | true => exact .some h
      | false => exact ih

theorem ClassMatch.method {k : Class} {l : Class Env} (h : ClassMatch w k l) (x : String) :
    Option.Rel (MethodMatch w) (k.method? x) (l.method? x) := by
  unfold ClassMatch at h
  unfold Class.method?
  generalize k.layers = layers, l.layers = layers' at h
  induction h with
  | nil => exact .none
  | @cons layer layer' _ _ h _ ih =>
      have found := lookup_match h.methods x
      rw [List.findSome?_cons, List.findSome?_cons]
      rcases rel_cases found with ⟨h₁, h₂⟩ | ⟨f, g, h₁, h₂, hf⟩
      · rw [h₁, h₂]
        exact ih
      · rw [h₁, h₂]
        exact .some hf

theorem ClassMatch.initializer {k : Class} {l : Class Env} (h : ClassMatch w k l) :
    Option.Rel (MethodMatch w) k.initializer? l.initializer? := h.method initializerName

inductive ResultMatch (w : World) : Except Fault Value → Except Fault (Value Env) → Prop
  | ok {v : Value} {v' : Value Env} (h : ValueMatch w v v') : ResultMatch w (.ok v) (.ok v')
  | error (fault : Fault) : ResultMatch w (.error fault) (.error fault)

theorem Value.unary_of_ne {σ : Type} {operator : Token.Kind} (v : Value σ)
    (minus : operator ≠ .symbol .minus) (bang : operator ≠ .symbol .bang) :
    v.unary operator = .error .unknownUnary := by
  unfold Value.unary
  split
  · exact absurd rfl minus
  · exact absurd rfl minus
  · exact absurd rfl bang
  · rfl

theorem ValueMatch.unary (h : ValueMatch w v v') (operator : Token.Kind) :
    ResultMatch w (v.unary operator) (v'.unary operator) := by
  by_cases minus : operator = .symbol .minus
  · subst minus
    cases h with
    | number x => exact .ok (.number _)
    | _ => exact .error _
  · by_cases bang : operator = .symbol .bang
    · subst bang
      cases h <;> exact .ok (.bool _)
    · rw [Value.unary_of_ne v minus bang, Value.unary_of_ne v' minus bang]
      exact .error _

theorem ValueMatch.numeric {f : Float → Float → Value} {g : Float → Float → Value Env}
    (h : ValueMatch w v v') (hu : ValueMatch w u u') (hf : ∀ x y, ValueMatch w (f x y) (g x y)) :
    ResultMatch w (Value.numeric f v u) (Value.numeric g v' u') := by
  cases h with
  | number x =>
      cases hu with
      | number y => exact .ok (hf x y)
      | _ => exact .error _
  | _ => cases hu <;> exact .error _

theorem ValueMatch.add (h : ValueMatch w v v') (hu : ValueMatch w u u') :
    ResultMatch w (v.add u) (v'.add u') := by
  cases h with
  | number x =>
      cases hu with
      | number y => exact .ok (.number _)
      | _ => exact .error _
  | string s =>
      cases hu with
      | string t => exact .ok (.string _)
      | _ => exact .error _
  | _ => cases hu <;> exact .error _

theorem ValueMatch.binary (h : ValueMatch w v v') (hu : ValueMatch w u u')
    (operator : Token.Kind) :
    ResultMatch w (v.binary operator u) (v'.binary operator u') := by
  unfold Value.binary
  split
  · exact h.add hu
  · exact h.numeric hu fun _ _ => .number _
  · exact h.numeric hu fun _ _ => .number _
  · exact h.numeric hu fun _ _ => .number _
  · exact h.numeric hu fun _ _ => .bool _
  · exact h.numeric hu fun _ _ => .bool _
  · exact h.numeric hu fun _ _ => .bool _
  · exact h.numeric hu fun _ _ => .bool _
  · rw [h.same_eq hu]
    exact .ok (.bool _)
  · rw [h.same_eq hu]
    exact .ok (.bool _)
  · exact .error _

end Values

/-! ## Heaps -/

/-- Cells and frames, the global table and the global frame, and the fields of objects match. -/
structure HeapMatch (w : World) (s : Store Value) (fields : Array (Bindings Value))
    (cells : Array (Value Env)) (globals : Bindings (Value Env))
    (fields' : Array (Bindings (Value Env))) : Prop where
  size : w.length = cells.size
  distinct : w.Nodup
  notGlobal : ∀ place ∈ w, place.1 ≠ Machine.globalFrame
  contents : ∀ (cell frame : Nat) (x : String), w[cell]? = some (frame, x) → ∃ v v',
    s.read? frame x = some v ∧ cells[cell]? = some v' ∧ ValueMatch w v v'
  globalFrame : Machine.globalFrame < s.frames.size
  globals : ∀ x, Option.Rel (ValueMatch w) (s.read? Machine.globalFrame x) (globals.get? x)
  objects : fields.size = fields'.size
  fields : ∀ (id : Nat) (x : String),
    Option.Rel (ValueMatch w) (fields[id]?.bind (·.get? x)) (fields'[id]?.bind (·.get? x))

theorem FunctionDecl.ResolvedAll.forall₂ {strict : Bool} {c : Context} :
    ∀ {fs fs' : List FunctionDecl}, FunctionDecl.ResolvedAll strict c fs fs' →
    List.Forall₂ (fun f' f => FunctionDecl.Resolved strict f.methodBody c f f') fs' fs
  | _, _, .nil => .nil
  | _, _, .cons head tail => .cons head tail.forall₂

section Heaps

variable {w w' : World} {s : Store Value} {fields : Array (Bindings Value)}
  {cells : Array (Value Env)} {globals : Bindings (Value Env)}
  {fields' : Array (Bindings (Value Env))}
  {v : Value} {v' : Value Env} {x : String} {frame : Nat} {scopes : List Declared} {scope : Scope}
  {env : Env}

theorem HeapMatch.binds (h : HeapMatch w s fields cells globals fields') (hp : (frame, x) ∈ w) :
    s.binds frame x = true := by
  obtain ⟨cell, place⟩ := List.getElem?_of_mem hp
  obtain ⟨v, v', hv, -⟩ := h.contents cell frame x place
  rw [Store.binds, hv]
  rfl

theorem HeapMatch.enter (h : HeapMatch w s fields cells globals fields') (outer : Scope) :
    HeapMatch w (s.enter outer).2 fields cells globals fields' where
  size := h.size
  distinct := h.distinct
  notGlobal := h.notGlobal
  contents cell frame x place := by
    rw [Store.read?_enter]
    exact h.contents cell frame x place
  globalFrame := by
    rw [Store.size_enter]
    exact Nat.lt_succ_of_lt h.globalFrame
  globals x := by
    rw [Store.read?_enter]
    exact h.globals x
  objects := h.objects
  fields := h.fields

/-- The next cell stands for the place that is put at the end of the world. -/
theorem HeapMatch.place_size (h : HeapMatch w s fields cells globals fields')
    (place : Nat × String) : (w ++ [place])[cells.size]? = some place := by
  rw [← h.size, List.getElem?_append_right (Nat.le_refl _), Nat.sub_self]
  rfl

/-- A new cell for a name that its frame does not bind yet. -/
theorem HeapMatch.allocate (h : HeapMatch w s fields cells globals fields')
    (notGlobal : frame ≠ Machine.globalFrame) (inside : frame < s.frames.size)
    (absent : s.binds frame x = false)
    (hv : ValueMatch (w ++ [(frame, x)]) v v') :
    HeapMatch (w ++ [(frame, x)]) (s.write frame x v) fields
      (cells.push v') globals fields' := by
  have hw : w <+: w ++ [(frame, x)] := List.prefix_append ..
  have fresh : (frame, x) ∉ w := by
    intro hp
    rw [h.binds hp] at absent
    cases absent
  refine ⟨?_, ?_, ?_, ?_, ?_, ?_, h.objects,
    fun id y => rel_imp (fun _ _ h => h.mono hw) (h.fields id y)⟩
  · rw [List.length_append, Array.size_push, h.size]
    rfl
  · rw [← List.concat_eq_append]
    exact h.distinct.concat fresh
  · intro place hp
    rcases List.mem_append.1 hp with hp | hp
    · exact h.notGlobal place hp
    · rw [List.mem_singleton.1 hp]
      exact notGlobal
  · intro cell other y place
    rw [Store.read?_write]
    rw [Array.getElem?_push, ← h.size]
    rcases Nat.lt_or_ge cell w.length with older | newest
    · rw [List.getElem?_append_left older] at place
      obtain ⟨u, u', hu, hu', hm⟩ := h.contents cell other y place
      rw [if_neg, if_neg (Nat.ne_of_lt older)]
      · exact ⟨u, u', hu, hu', hm.mono hw⟩
      · rintro ⟨rfl, rfl, -⟩
        exact fresh (List.mem_of_getElem? place)
    · rw [List.getElem?_append_right newest, List.getElem?_singleton] at place
      split at place
      · next last =>
          cases place
          rw [if_pos ⟨rfl, rfl, inside⟩, if_pos (by omega)]
          exact ⟨v, v', rfl, rfl, hv⟩
      · cases place
  · rw [Store.size_write]
    exact h.globalFrame
  · intro y
    rw [Store.read?_write, if_neg fun heq => notGlobal heq.1.symm]
    exact rel_imp (fun _ _ h => h.mono hw) (h.globals y)

theorem HeapMatch.writeCell (h : HeapMatch w s fields cells globals fields') {cell : Nat}
    (place : w[cell]? = some (frame, x)) (hv : ValueMatch w v v') :
    HeapMatch w (s.write frame x v) fields
      (cells.setIfInBounds cell v') globals fields' := by
  have notGlobal := h.notGlobal _ (List.mem_of_getElem? place)
  obtain ⟨inside, hplace⟩ := List.getElem?_eq_some_iff.1 place
  have framed := Store.lt_of_binds (h.binds (List.mem_of_getElem? place))
  refine ⟨?_, h.distinct, h.notGlobal, ?_, ?_, ?_, h.objects, h.fields⟩
  · rw [Array.size_setIfInBounds]
    exact h.size
  · intro other frame' y hp
    rw [Store.read?_write]
    rw [Array.getElem?_setIfInBounds, ← h.size]
    -- No two cells stand for one variable, so the write is seen through this cell only.
    by_cases same : cell = other
    · subst same
      rw [place] at hp
      cases hp
      rw [if_pos ⟨rfl, rfl, framed⟩, if_pos rfl, if_pos inside]
      exact ⟨v, v', rfl, rfl, hv⟩
    · rw [if_neg, if_neg same]
      · exact h.contents other frame' y hp
      · rintro ⟨rfl, rfl, -⟩
        exact same ((List.getElem?_inj inside h.distinct).1 (place.trans hp.symm))
  · rw [Store.size_write]
    exact h.globalFrame
  · intro y
    rw [Store.read?_write, if_neg fun heq => notGlobal heq.1.symm]
    exact h.globals y

theorem HeapMatch.writeGlobal (h : HeapMatch w s fields cells globals fields')
    (hv : ValueMatch w v v') :
    HeapMatch w (s.write Machine.globalFrame x v) fields cells
      (globals.set x v') fields' := by
  refine ⟨h.size, h.distinct, h.notGlobal, ?_, ?_, ?_, h.objects, h.fields⟩
  · intro cell frame y place
    rw [Store.read?_write, if_neg fun heq => h.notGlobal _ (List.mem_of_getElem? place) heq.1]
    exact h.contents cell frame y place
  · rw [Store.size_write]
    exact h.globalFrame
  · intro y
    rw [Store.read?_write, Bindings.get?_set]
    by_cases hy : y = x
    · rw [if_pos ⟨rfl, hy, h.globalFrame⟩, if_pos hy]
      exact .some hv
    · rw [if_neg fun heq => hy heq.2.1, if_neg hy]
      exact h.globals y

theorem HeapMatch.setField (h : HeapMatch w s fields cells globals fields') (id : Nat)
    (hv : ValueMatch w v v') :
    HeapMatch w s (fields.modify id (·.set x v)) cells globals
      (fields'.modify id (·.set x v')) := by
  refine ⟨h.size, h.distinct, h.notGlobal, h.contents, h.globalFrame, h.globals, ?_, ?_⟩
  · rw [Array.size_modify, Array.size_modify]
    exact h.objects
  · intro other y
    have before := h.fields other y
    rw [Array.getElem?_modify, Array.getElem?_modify]
    by_cases same : id = other
    · subst same
      rw [if_pos rfl, if_pos rfl]
      rcases Nat.lt_or_ge id fields.size with inside | outside
      · have inside' : id < fields'.size := by
          rw [← h.objects]
          exact inside
        rw [Array.getElem?_eq_getElem inside, Array.getElem?_eq_getElem inside'] at before ⊢
        show Option.Rel _ ((fields[id].set x v).get? y) ((fields'[id].set x v').get? y)
        rw [Bindings.get?_set, Bindings.get?_set]
        split
        · exact .some hv
        · exact before
      · rw [Array.getElem?_eq_none outside, Array.getElem?_eq_none (h.objects ▸ outside)]
        exact .none
    · rw [if_neg same, if_neg same]
      exact before

theorem HeapMatch.newObject (h : HeapMatch w s fields cells globals fields') :
    HeapMatch w s (fields.push .empty) cells globals (fields'.push .empty) := by
  refine ⟨h.size, h.distinct, h.notGlobal, h.contents, h.globalFrame, h.globals, ?_, ?_⟩
  · rw [Array.size_push, Array.size_push, h.objects]
  · intro id y
    rw [Array.getElem?_push, Array.getElem?_push, h.objects]
    split
    · exact .none
    · exact h.fields id y

/-! ## Reading names -/

/-- A name with a depth is in the environment, and has the same value. -/
theorem HeapMatch.get?_local {t : Lexical.State}
    (h : HeapMatch w s fields t.cells t.globals t.fields) (henv : EnvMatch w scopes scope env)
    {depth : Nat} (sees : Sees scopes x depth .ready) :
    ∃ v v', s.getAt? scope depth x = some v ∧ t.get? env x = some v' ∧ ValueMatch w v v' := by
  obtain ⟨cell, frame, hc, hf, place⟩ := henv.ready x depth sees
  obtain ⟨v, v', hv, hv', hm⟩ := h.contents cell frame x place
  refine ⟨v, v', ?_, ?_, hm⟩
  · have found : s.frameAt? scope depth x = some frame :=
      Option.filter_eq_some_iff.2 ⟨hf, h.binds (List.mem_of_getElem? place)⟩
    rw [Store.getAt?, found]
    exact hv
  · rw [Lexical.State.get?, hc]
    exact hv'

/-- A name without one is global. -/
theorem HeapMatch.get?_global {t : Lexical.State}
    (h : HeapMatch w s fields t.cells t.globals t.fields) (henv : EnvMatch w scopes scope env)
    (misses : Misses scopes x) :
    Option.Rel (ValueMatch w) (s.get? Machine.globalScope x) (t.get? env x) := by
  rw [Lexical.State.get?, henv.missing x misses, Machine.globalScope, Store.get?_singleton]
  exact h.globals x

end Heaps

end LoxLang
