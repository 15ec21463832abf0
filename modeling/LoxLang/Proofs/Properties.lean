import LoxLang.Proofs.CreationOrder
import LoxLang.Proofs.OwnCode

/-!
# Properties of objects

`o.name` is the field of the object, or else the method of its class, bound to
the object. The binding is made anew for each access, and nothing writes to it
again, so all code of the method has `o` for its `this`, whenever and from
wherever the method is called.
-/

namespace LoxLang

open LoxLang.Action MachineM

/-- The first operand of an expression has a sound value. -/
theorem Point.Sound.operand {own : Option String} {e d : Expr} {n : Nat} {m m' : Machine}
    {v : Value} (h : (Point.expr own e).Sound m) (hm : m.Sound) (operand : e.first? = some d)
    (value : eval n d m = .done v m') : v.Sound m'.store := by
  obtain ⟨c, _, resolved, -, stands⟩ := h
  obtain ⟨_, first⟩ := resolved.first operand
  exact (((keeps n).1 c _ d m first stands.placed hm).done value).2.2

section Operands

variable {n id : Nat} {k : Class} {object value : Expr} {name : Token} {m m' m'' : Machine}
  {v : Value}

theorem eval_get (ends : eval n object m = .done (.object id k) m') :
    eval (n + 1) (.get object name) m = property id k name m' := by
  rw [eval, bind_of_done ends]

theorem eval_set (ends : eval n object m = .done (.object id k) m')
    (written : eval n value m' = .done v m'') :
    eval (n + 1) (.set object name value) m =
      .done v { m'' with fields := m''.fields.modify id (·.set name.lexeme v) } := by
  rw [eval, bind_of_done ends]
  dsimp only
  rw [bind_of_done written]
  rfl

end Operands

theorem Activation.Owns.founded {clock : Nat → Float} {a : Activation} {b : Moment}
    (h : a.Owns clock b) (ha : a.body.machine.Founded) : b.machine.Founded := by
  induction h with
  | body => exact ha
  | part _ calls _ ih => exact Leads.founded calls ih
  | nested _ _ _ _ later _ => exact later.founded

/-- What code of a method writes through `this` is written to the object that the method is bound
to. -/
theorem Activation.Owns.eval_set_this {clock : Nat → Float} {a : Activation} {method : Closure}
    {n id : Nat} {k : Class} {own : Option String} {keyword name : Token} {depth : Option Nat}
    {value : Expr} {m m' : Machine} {v : Value} {s : Store Value}
    (h : a.Owns clock ⟨n + 2, .expr own (.set (.this keyword depth) name value), m⟩)
    (binds : a.closure.Binds method) (sound : method.SoundMethod s) (ha : a.body.Sound)
    (founded : a.body.machine.Founded)
    (bound : a.body.machine.store.getAt? a.closure.scope 0 "this" = some (.object id k))
    (written : eval (n + 1) value m = .done v m') :
    ∃ m'', eval (n + 2) (.set (.this keyword depth) name value) m = .done v m'' ∧
      m''.fields[id]?.bind (·.get? name.lexeme) = some v ∧
      ∀ other ≠ id, m''.fields[other]? = m'.fields[other]? := by
  have receiver : Moment.Calls ⟨n + 2, .expr own (.set (.this keyword depth) name value), m⟩
      ⟨n + 1, .expr own (.this keyword depth), m⟩ := Leads.first rfl
  have this := (h.part receiver fun _ => rfl).eval_this binds sound ha bound
  -- The object is there when its field is written: it has been bound since the method was.
  have found := (h.steady ha).getAt? (.inl rfl) bound
  have made : id < m.fields.size := ((h.founded founded).getAt? found).1
  have objects : m.fields.size ≤ m'.fields.size := (((evolving _).1 _ _).done written).objects
  refine ⟨_, eval_set this written, ?_, fun other hne => ?_⟩
  · rw [Array.getElem?_modify, if_pos rfl,
      Array.getElem?_eq_getElem (Nat.lt_of_lt_of_le made objects)]
    show (Bindings.set _ name.lexeme v).get? name.lexeme = some v
    rw [Bindings.get?_set, if_pos rfl]
  · rw [Array.getElem?_modify, if_neg hne.symm]

/-- Reading a property of an object in a run of a session. The object's own field has precedence.
Otherwise it is the method of the nearest class in the chain of the object's class that has one,
and there is none only if no class of the chain has one; in the chain no class comes up twice.
The method is bound to the object: whenever and from wherever the function is called afterwards,
every `this` in its code is the object, and a field written through it is a field of this object
and of no other. -/
theorem property_is_field_or_method {clock : Nat → Float} {n id : Nat} {own : Option String}
    {object : Expr} {name : Token} {m m1 : Machine} {k : Class}
    (happens : Moment.Happens clock ⟨n + 1, .expr own (.get object name), m⟩)
    (ends : eval n object m = .done (.object id k) m1) :
    id < m1.fields.size ∧ (k.layers.map (·.id)).Pairwise (· > ·) ∧
    (∀ v, m1.fields[id]?.bind (·.get? name.lexeme) = some v →
      eval (n + 1) (.get object name) m = .done v m1) ∧
    (m1.fields[id]?.bind (·.get? name.lexeme) = none → k.Lacks name.lexeme →
      eval (n + 1) (.get object name) m = .failed ⟨name, .undefinedProperty⟩ m1) ∧
    ∀ method, m1.fields[id]?.bind (·.get? name.lexeme) = none →
      k.Provides name.lexeme method → ∃ number f m',
        eval (n + 1) (.get object name) m = .done (.function number f) m' ∧
        f.Bound method (.object id k) m'.store ∧
        ∀ a : Activation, a.closure = f →
          Moment.Later clock ⟨n + 1, .expr own (.get object name), m⟩ a.body →
          (∀ l own keyword depth m, a.Owns clock ⟨l + 1, .expr own (.this keyword depth), m⟩ →
            eval (l + 1) (.this keyword depth) m = .done (.object id k) m) ∧
          ∀ l own keyword depth field value m v m',
            a.Owns clock ⟨l + 2, .expr own (.set (.this keyword depth) field value), m⟩ →
            eval (l + 1) value m = .done v m' →
            ∃ m'', eval (l + 2) (.set (.this keyword depth) field value) m = .done v m'' ∧
              m''.fields[id]?.bind (·.get? field.lexeme) = some v ∧
              ∀ other ≠ id, m''.fields[other]? = m'.fields[other]? := by
  have sound := happens.sound
  have made : (Value.object id k).Made m1 := (((founding n).1 _ _ happens.founded).done ends).2.2
  have hk : k.Sound m1.store := sound.point.operand sound.machine rfl ends
  have value : eval (n + 1) (.get object name) m = property id k name m1 := eval_get ends
  have descends := (List.pairwise_cons.1 made.2.descends).2
  refine ⟨made.1, descends, fun v field => ?_, fun field lacks => ?_,
    fun method field provides => ?_⟩
  · rw [value, property_of_field field]
  · rw [value, property_of_none field, boundMethod_of_lacks lacks]
  · obtain ⟨number, f, m', found, bound⟩ := boundMethod_of_provides provides (.object id k) m1
    rw [value, property_of_none field, found]
    refine ⟨number, f, m', rfl, bound, ?_⟩
    rintro a rfl later
    have resolved := hk.method (Class.method?_eq_some_iff.2 provides)
    have ended : m' ∈ (Moment.mk (n + 1) (.expr own (.get object name)) m).outcome.state? := by
      rw [Moment.outcome, Point.flow, bind_of_done (by rw [value, property_of_none field, found])]
      rfl
    have this := (later.steady ended).getAt? (.inl rfl) bound.this
    exact ⟨fun _ _ _ _ _ owned => owned.eval_this bound.binds resolved later.sound.2 this,
      fun _ _ _ _ _ _ _ _ _ owned written => owned.eval_set_this bound.binds resolved
        later.sound.2 later.founded this written⟩

namespace FieldWrite

/-- `this.x = nil` -/
def write (depth : Option Nat) : Expr :=
  .set (.this ⟨.symbol .thisWord, "this", 1⟩ depth) ⟨.identifier, "x", 1⟩ (.literal .nil)

/-- `m() { this.x = nil; }` -/
def method (depth : Option Nat) : FunctionDecl :=
  ⟨⟨.identifier, "m", 1⟩, [], [.expr (write depth)]⟩

/-- `class A { m() { this.x = nil; } }` -/
def declaration (depth : Option Nat) : Stmt :=
  .classDecl ⟨.identifier, "A", 1⟩ none [method depth]

/-- `A()` -/
def object : Expr := .call (.name ⟨.identifier, "A", 1⟩ none) ⟨.symbol .rightParen, ")", 1⟩ []

/-- `A().m` -/
def callee : Expr := .get object (method none).name

/-- `A().m()` -/
def call : Expr := .call callee ⟨.symbol .rightParen, ")", 1⟩ []

theorem accepted : Accepted (.stmts [declaration (some 1), .expr call]) :=
  @Accepted.program "class A \x7b m() \x7b this.x = nil; \x7d \x7d A().m();"
    [declaration none, .expr call] (by with_unfolding_all rfl) rfl

/-- The class. -/
def made : Class := ⟨⟨0, "A", [("m", ⟨method (some 1), [0], false⟩)]⟩, []⟩

/-- The machine behind the declaration. -/
def behind : Machine :=
  { Machine.initial fun _ => 0 with
    store := ⟨#[⟨[("clock", .clock), ("A", .ofClass made)]⟩]⟩, nextId := 1 }

/-- The machine with the method bound. -/
def bound : Machine :=
  { behind with
    store := ⟨#[⟨[("clock", .clock), ("A", .ofClass made)]⟩, ⟨[("this", .object 0 made)]⟩]⟩
    fields := #[.empty], nextId := 2 }

/-- The call of the method. -/
def activation : Activation where
  fuel := 7
  own := none
  call := call
  caller := behind
  callable := .closure ⟨method (some 1), [1, 0], false⟩
  arguments := []
  invoked := { bound with calls := 1 }
  closure := ⟨method (some 1), [1, 0], false⟩
  machine := { bound with calls := 1 }
  scope := [2, 1, 0]
  bound := _
  invokes := .call rfl rfl rfl rfl (by decide)
  runs := .closure
  enters := rfl

end FieldWrite

open FieldWrite in
/-- The field that the method writes is the object's. -/
theorem fieldWrite_lands : ∃ m', eval 6 (write (some 1)) activation.body.machine = .done .nil m' ∧
    m'.fields[0]?.bind (·.get? "x") = some .nil := by
  have reaches : ((Session.initial fun _ => 0).moment 9
      (.stmts [declaration (some 1), .expr call])).Reaches activation.expression :=
    .step (.step (.step .start (.moreStatements rfl)) .statement) (.value rfl)
  have access : activation.expression.Calls ⟨7, .expr none callee, behind⟩ := Leads.first rfl
  have after : After activation.expression ⟨7, .expr none callee, behind⟩ activation.body :=
    .trans (.arguments rfl) (.call rfl rfl rfl rfl (by decide) (.closure rfl))
  have later : Moment.Later (fun _ => 0) ⟨7, .expr none callee, behind⟩ activation.body :=
    .inRun .initial accepted ⟨_, _, _, reaches, after, .start, .start⟩
  have owned : activation.Owns (fun _ => 0) ⟨6, .expr none (write (some 1)),
      activation.body.machine⟩ := by
    have statement : activation.body.Calls ⟨7, .stmt (.expr (write (some 1))), _⟩ :=
      Leads.statement
    have value : Moment.Calls ⟨7, .stmt (.expr (write (some 1))), activation.body.machine⟩
      ⟨6, .expr none (write (some 1)), _⟩ := Leads.value rfl
    exact .part (.part .body statement nofun) value nofun
  have provides : made.Provides "m" ⟨method (some 1), [0], false⟩ := ⟨[], _, [], rfl, rfl, nofun⟩
  obtain ⟨-, -, -, -, binds⟩ := property_is_field_or_method
    ⟨_, _, 9, .initial, accepted, .step reaches access⟩
    (show eval 6 object behind = .done (.object 0 made)
      { behind with fields := #[.empty] } from rfl)
  obtain ⟨number, f, m', found, -, denotes⟩ := binds _ rfl provides
  cases found.symm.trans (show _ = .done (.function 1 activation.closure) bound from rfl)
  obtain ⟨-, writes⟩ := denotes activation rfl later
  obtain ⟨m'', ends, landed, -⟩ := writes _ _ _ _ _ _ _ _ _ owned rfl
  exact ⟨m'', ends, landed⟩

end LoxLang
