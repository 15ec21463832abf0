import LoxLang.Proofs.Alike

/-!
# The code that a machine holds

The tokens of a tree are all that it says about the text it was read from. A
machine holds the tokens of the functions and methods in its values. If each of
them may stand for itself, the machine is like itself.
-/

namespace LoxLang

mutual

/-- The tokens of an expression. -/
def Expr.tokens : Expr → List Token
  | .literal _ => []
  | .group inner => inner.tokens
  | .unary operator operand => operator :: operand.tokens
  | .binary left operator right => left.tokens ++ operator :: right.tokens
  | .logical left operator right => left.tokens ++ operator :: right.tokens
  | .name x _ => [x]
  | .assign x _ value => x :: value.tokens
  | .call callee paren arguments => callee.tokens ++ paren :: Expr.allTokens arguments
  | .get object property => object.tokens ++ [property]
  | .set object property value => object.tokens ++ property :: value.tokens
  | .this keyword _ => [keyword]
  | .super keyword _ method => [keyword, method]

/-- The tokens of expressions. -/
def Expr.allTokens : List Expr → List Token
  | [] => []
  | e :: es => e.tokens ++ Expr.allTokens es

end

/-- The tokens of an expression that may be absent. -/
def Expr.optTokens : Option Expr → List Token
  | none => []
  | some e => e.tokens

mutual

/-- The tokens of a statement. -/
def Stmt.tokens : Stmt → List Token
  | .expr value => value.tokens
  | .print value => value.tokens
  | .var name initial => name :: Expr.optTokens initial
  | .block body => Stmt.allTokens body
  | .ifThen condition consequent => condition.tokens ++ consequent.tokens
  | .ifElse condition consequent alternative =>
    condition.tokens ++ (consequent.tokens ++ alternative.tokens)
  | .whileDo condition body => condition.tokens ++ body.tokens
  | .function declaration => declaration.tokens
  | .returning keyword value => keyword :: Expr.optTokens value
  | .classDecl name superclass methods =>
    name :: (Expr.optTokens superclass ++ FunctionDecl.allTokens methods)

/-- The tokens of statements. -/
def Stmt.allTokens : List Stmt → List Token
  | [] => []
  | s :: ss => s.tokens ++ Stmt.allTokens ss

/-- The tokens of a function. -/
def FunctionDecl.tokens : FunctionDecl → List Token
  | ⟨name, parameters, body⟩ => name :: (parameters ++ Stmt.allTokens body)

/-- The tokens of functions. -/
def FunctionDecl.allTokens : List FunctionDecl → List Token
  | [] => []
  | f :: fs => f.tokens ++ FunctionDecl.allTokens fs

end

/-- The tokens of the methods of a class and of its superclasses. -/
def Class.tokens (k : Class) : List Token :=
  k.layers.flatMap fun layer => layer.methods.flatMap fun (_, f) => f.declaration.tokens

/-- The tokens that a value carries. -/
def Value.tokens : Value → List Token
  | .function _ closure => closure.declaration.tokens
  | .ofClass k => k.tokens
  | .object _ k => k.tokens
  | _ => []

/-- Some binding, or the field of some object, has a value that carries the token. -/
def Machine.Holds (m : Machine) (t : Token) : Prop :=
  ∃ v, t ∈ v.tokens ∧
    ∃ place x, m.store.read? place x = some v ∨ Store.read? ⟨m.fields⟩ place x = some v

/-- The tokens that the values in a table carry. -/
def Bindings.tokens (b : Bindings Value) : List Token := b.entries.flatMap fun (_, v) => v.tokens

/-- The tokens that a machine holds, all of them. -/
def Machine.tokens (m : Machine) : List Token :=
  (m.store.frames.toList ++ m.fields.toList).flatMap Bindings.tokens

theorem Bindings.mem_tokens {b : Bindings Value} {x : String} {v : Value} {t : Token}
    (h : b.get? x = some v) (ht : t ∈ v.tokens) : t ∈ b.tokens := by
  obtain ⟨before, after, entries, -⟩ := List.lookup_eq_some_iff.1 h
  refine List.mem_flatMap.2 ⟨(x, v), ?_, ht⟩
  rw [entries]
  exact List.mem_append_right _ List.mem_cons_self

theorem Machine.Holds.mem_tokens {m : Machine} {t : Token} (h : m.Holds t) : t ∈ m.tokens := by
  obtain ⟨v, ht, place, x, found⟩ := h
  rcases found with found | found <;> obtain ⟨b, here, bound⟩ := Option.bind_eq_some_iff.1 found
  · exact List.mem_flatMap.2 ⟨b, List.mem_append_left _
      (Array.mem_toList_iff.2 (Array.mem_of_getElem? here)), Bindings.mem_tokens bound ht⟩
  · exact List.mem_flatMap.2 ⟨b, List.mem_append_right _
      (Array.mem_toList_iff.2 (Array.mem_of_getElem? here)), Bindings.mem_tokens bound ht⟩

/-! ## Likeness to oneself -/

section Self

variable {L : Likeness}

open List (forall_mem_cons forall_mem_append)

mutual

theorem Expr.alike_self (hd : ∀ d, L.depth d d) : ∀ {e : Expr},
    (∀ t ∈ e.tokens, L.token t t) → e.Alike L e
  | .literal value, _ => .literal value
  | .group inner, h => .group (Expr.alike_self (e := inner) hd h)
  | .unary _ _, h => .unary (forall_mem_cons.1 h).1 (Expr.alike_self hd (forall_mem_cons.1 h).2)
  | .binary _ _ _, h => by
      obtain ⟨left, h⟩ := forall_mem_append.1 h
      obtain ⟨operator, right⟩ := forall_mem_cons.1 h
      exact .binary (Expr.alike_self hd left) operator (Expr.alike_self hd right)
  | .logical _ _ _, h => by
      obtain ⟨left, h⟩ := forall_mem_append.1 h
      obtain ⟨operator, right⟩ := forall_mem_cons.1 h
      exact .logical (Expr.alike_self hd left) operator (Expr.alike_self hd right)
  | .name _ d, h => .name (h _ List.mem_cons_self) (hd d)
  | .assign _ d _, h =>
      .assign (forall_mem_cons.1 h).1 (hd d) (Expr.alike_self hd (forall_mem_cons.1 h).2)
  | .call _ _ _, h => by
      obtain ⟨callee, h⟩ := forall_mem_append.1 h
      obtain ⟨paren, arguments⟩ := forall_mem_cons.1 h
      exact .call (Expr.alike_self hd callee) paren (Expr.allAlike_self hd arguments)
  | .get _ _, h => by
      obtain ⟨object, property⟩ := forall_mem_append.1 h
      exact .get (Expr.alike_self hd object) (property _ List.mem_cons_self)
  | .set _ _ _, h => by
      obtain ⟨object, h⟩ := forall_mem_append.1 h
      obtain ⟨property, value⟩ := forall_mem_cons.1 h
      exact .set (Expr.alike_self hd object) property (Expr.alike_self hd value)
  | .this _ d, h => .this (h _ List.mem_cons_self) (hd d)
  | .super _ d _, h => by
      obtain ⟨keyword, h⟩ := forall_mem_cons.1 h
      exact .super keyword (hd d) (h _ List.mem_cons_self)

theorem Expr.allAlike_self (hd : ∀ d, L.depth d d) : ∀ {es : List Expr},
    (∀ t ∈ Expr.allTokens es, L.token t t) → Expr.AllAlike L es es
  | [], _ => .nil
  | _ :: _, h => by
      obtain ⟨head, tail⟩ := forall_mem_append.1 h
      exact .cons (Expr.alike_self hd head) (Expr.allAlike_self hd tail)

end

theorem Expr.rel_self (hd : ∀ d, L.depth d d) {o : Option Expr}
    (h : ∀ t ∈ Expr.optTokens o, L.token t t) : Option.Rel (Expr.Alike L) o o := by
  cases o with
  | none => exact .none
  | some e => exact .some (Expr.alike_self hd h)

mutual

theorem Stmt.alike_self (hd : ∀ d, L.depth d d) : ∀ {s : Stmt},
    (∀ t ∈ s.tokens, L.token t t) → s.Alike L s
  | .expr value, h => .expr (Expr.alike_self (e := value) hd h)
  | .print value, h => .print (Expr.alike_self (e := value) hd h)
  | .var _ _, h => .var (forall_mem_cons.1 h).1 (Expr.rel_self hd (forall_mem_cons.1 h).2)
  | .block body, h => .block (@Stmt.allAlike_self hd body h)
  | .ifThen _ _, h => by
      obtain ⟨condition, consequent⟩ := forall_mem_append.1 h
      exact .ifThen (Expr.alike_self hd condition) (Stmt.alike_self hd consequent)
  | .ifElse _ _ _, h => by
      obtain ⟨condition, h⟩ := forall_mem_append.1 h
      obtain ⟨consequent, alternative⟩ := forall_mem_append.1 h
      exact .ifElse (Expr.alike_self hd condition) (Stmt.alike_self hd consequent)
        (Stmt.alike_self hd alternative)
  | .whileDo _ _, h => by
      obtain ⟨condition, body⟩ := forall_mem_append.1 h
      exact .whileDo (Expr.alike_self hd condition) (Stmt.alike_self hd body)
  | .function declaration, h => .function (FunctionDecl.alike_self (f := declaration) hd h)
  | .returning _ _, h =>
      .returning (forall_mem_cons.1 h).1 (Expr.rel_self hd (forall_mem_cons.1 h).2)
  | .classDecl _ _ _, h => by
      obtain ⟨name, h⟩ := forall_mem_cons.1 h
      obtain ⟨superclass, methods⟩ := forall_mem_append.1 h
      exact .classDecl name (Expr.rel_self hd superclass) (FunctionDecl.allAlike_self hd methods)

theorem Stmt.allAlike_self (hd : ∀ d, L.depth d d) : ∀ {ss : List Stmt},
    (∀ t ∈ Stmt.allTokens ss, L.token t t) → Stmt.AllAlike L ss ss
  | [], _ => .nil
  | _ :: _, h => by
      obtain ⟨head, tail⟩ := forall_mem_append.1 h
      exact .cons (Stmt.alike_self hd head) (Stmt.allAlike_self hd tail)

theorem FunctionDecl.alike_self (hd : ∀ d, L.depth d d) : ∀ {f : FunctionDecl},
    (∀ t ∈ f.tokens, L.token t t) → f.Alike L f
  | ⟨_, _, _⟩, h => by
      obtain ⟨name, h⟩ := forall_mem_cons.1 h
      obtain ⟨parameters, body⟩ := forall_mem_append.1 h
      exact .mk name (List.forall₂_same.2 parameters) (Stmt.allAlike_self hd body)

theorem FunctionDecl.allAlike_self (hd : ∀ d, L.depth d d) : ∀ {fs : List FunctionDecl},
    (∀ t ∈ FunctionDecl.allTokens fs, L.token t t) → FunctionDecl.AllAlike L fs fs
  | [], _ => .nil
  | _ :: _, h => by
      obtain ⟨head, tail⟩ := forall_mem_append.1 h
      exact .cons (FunctionDecl.alike_self hd head) (FunctionDecl.allAlike_self hd tail)

end

theorem Class.alike_self (hd : ∀ d, L.depth d d) {k : Class}
    (h : ∀ t ∈ k.tokens, L.token t t) : k.Alike L k := by
  refine List.forall₂_same.2 fun layer hlayer => ⟨rfl, rfl, List.forall₂_same.2 ?_⟩
  rintro ⟨x, f⟩ hf
  refine ⟨rfl, FunctionDecl.alike_self hd fun t ht => h t ?_, rfl, rfl⟩
  exact List.mem_flatMap.2 ⟨layer, hlayer, List.mem_flatMap.2 ⟨(x, f), hf, ht⟩⟩

theorem Value.alike_self (hd : ∀ d, L.depth d d) {v : Value}
    (h : ∀ t ∈ v.tokens, L.token t t) : v.Alike L v := by
  cases v with
  | nil => exact .nil
  | bool b => exact .bool b
  | number x => exact .number x
  | string s => exact .string s
  | clock => exact .clock
  | function id closure => exact .function ⟨FunctionDecl.alike_self hd h, rfl, rfl⟩
  | ofClass k => exact .ofClass (Class.alike_self hd h)
  | object id k => exact .object (Class.alike_self hd h)

theorem Store.alike_self (hd : ∀ d, L.depth d d) {s : Store Value}
    (h : ∀ frame x v, s.read? frame x = some v → ∀ t ∈ v.tokens, L.token t t) : s.Alike L s where
  size := rfl
  read frame x := by
    cases hv : s.read? frame x with
    | none => exact .none
    | some v => exact .some (Value.alike_self hd (h frame x v hv))

theorem Machine.alike_self (hd : ∀ d, L.depth d d) {m : Machine}
    (h : ∀ t, m.Holds t → L.token t t) : m.Alike L m where
  store := Store.alike_self hd fun frame x v hv t ht => h t ⟨v, ht, frame, x, .inl hv⟩
  fields := Store.alike_self hd fun id x v hv t ht => h t ⟨v, ht, id, x, .inr hv⟩
  rest := rfl

end Self

end LoxLang
