import Mathlib.Data.List.Forall2
import Mathlib.Logic.Basic
import LoxLang.Proofs.Alike
import LoxLang.Session.Tabled

/-!
# A tree and what its slots mean

Let every slot of a tree be replaced with what it means. If slots and their
meanings are depths that stand for each other, the two trees are alike. The
other way round, if tokens stand for themselves only and a slot stands for
nothing but its meaning, then what is like a tree or a value is the tree or the
value with its slots replaced.

A slot may come to mean more than it did. What was alike stays alike if more
things stand for each other.
-/

namespace LoxLang

/-! ## More that stands for each other -/

/-- Whatever stands for each other in the one likeness does in the other. -/
structure Likeness.Within (L L' : Likeness) : Prop where
  token : ∀ {t t'}, L.token t t' → L'.token t t'
  depth : ∀ {d d'}, L.depth d d' → L'.depth d d'

section Within

variable {L L' : Likeness}

mutual

theorem Expr.Alike.within (w : L.Within L') : ∀ {e e' : Expr}, e.Alike L e' → e.Alike L' e'
  | _, _, .literal value => .literal value
  | _, _, .group inner => .group (inner.within w)
  | _, _, .unary operator operand => .unary (w.token operator) (operand.within w)
  | _, _, .binary left operator right =>
      .binary (left.within w) (w.token operator) (right.within w)
  | _, _, .logical left operator right =>
      .logical (left.within w) (w.token operator) (right.within w)
  | _, _, .name x depth => .name (w.token x) (w.depth depth)
  | _, _, .assign x depth value => .assign (w.token x) (w.depth depth) (value.within w)
  | _, _, .call callee paren arguments =>
      .call (callee.within w) (w.token paren) (arguments.within w)
  | _, _, .get object property => .get (object.within w) (w.token property)
  | _, _, .set object property value => .set (object.within w) (w.token property) (value.within w)
  | _, _, .this keyword depth => .this (w.token keyword) (w.depth depth)
  | _, _, .super keyword depth method =>
      .super (w.token keyword) (w.depth depth) (w.token method)

theorem Expr.AllAlike.within (w : L.Within L') : ∀ {es es' : List Expr}, Expr.AllAlike L es es' →
    Expr.AllAlike L' es es'
  | _, _, .nil => .nil
  | _, _, .cons head tail => .cons (head.within w) (tail.within w)

end

mutual

theorem Stmt.Alike.within (w : L.Within L') : ∀ {s s' : Stmt}, s.Alike L s' → s.Alike L' s'
  | _, _, .expr value => .expr (value.within w)
  | _, _, .print value => .print (value.within w)
  | _, _, .var name initial =>
      .var (w.token name) (rel_imp (fun _ _ => Expr.Alike.within w) initial)
  | _, _, .block body => .block (body.within w)
  | _, _, .ifThen condition consequent => .ifThen (condition.within w) (consequent.within w)
  | _, _, .ifElse condition consequent alternative =>
      .ifElse (condition.within w) (consequent.within w) (alternative.within w)
  | _, _, .whileDo condition body => .whileDo (condition.within w) (body.within w)
  | _, _, .function declaration => .function (declaration.within w)
  | _, _, .returning keyword value =>
      .returning (w.token keyword) (rel_imp (fun _ _ => Expr.Alike.within w) value)
  | _, _, .classDecl name superclass methods =>
      .classDecl (w.token name) (rel_imp (fun _ _ => Expr.Alike.within w) superclass)
        (methods.within w)

theorem Stmt.AllAlike.within (w : L.Within L') : ∀ {ss ss' : List Stmt}, Stmt.AllAlike L ss ss' →
    Stmt.AllAlike L' ss ss'
  | _, _, .nil => .nil
  | _, _, .cons head tail => .cons (head.within w) (tail.within w)

theorem FunctionDecl.Alike.within (w : L.Within L') : ∀ {f f' : FunctionDecl}, f.Alike L f' →
    f.Alike L' f'
  | _, _, .mk name parameters body =>
      .mk (w.token name) (parameters.imp fun _ _ => w.token) (body.within w)

theorem FunctionDecl.AllAlike.within (w : L.Within L') : ∀ {fs fs' : List FunctionDecl},
    FunctionDecl.AllAlike L fs fs' → FunctionDecl.AllAlike L' fs fs'
  | _, _, .nil => .nil
  | _, _, .cons head tail => .cons (head.within w) (tail.within w)

end

variable (w : L.Within L')

include w

theorem Closure.Alike.within {c c' : Closure} (h : c.Alike L c') : c.Alike L' c' :=
  ⟨h.declaration.within w, h.scope, h.isInitializer⟩

theorem ClassLayer.Alike.within {k k' : ClassLayer} (h : k.Alike L k') : k.Alike L' k' :=
  ⟨h.id, h.name, h.methods.imp fun _ _ method => ⟨method.1, method.2.within w⟩⟩

theorem Class.Alike.within {k k' : Class} (h : k.Alike L k') : k.Alike L' k' :=
  List.Forall₂.imp (fun _ _ layer => ClassLayer.Alike.within w layer) h

theorem Value.Alike.within {v v' : Value} (h : v.Alike L v') : v.Alike L' v' := by
  cases h with
  | nil => exact .nil
  | bool b => exact .bool b
  | number x => exact .number x
  | string s => exact .string s
  | clock => exact .clock
  | function closure => exact .function (closure.within w)
  | ofClass h => exact .ofClass (h.within w)
  | object h => exact .object (h.within w)

theorem Store.Alike.within {s s' : Store Value} (h : s.Alike L s') : s.Alike L' s' :=
  ⟨h.size, fun frame x => rel_imp (fun _ _ => Value.Alike.within w) (h.read frame x)⟩

theorem Machine.Alike.within {m m' : Machine} (h : m.Alike L m') : m.Alike L' m' :=
  ⟨h.store.within w, h.fields.within w, h.rest⟩

end Within

/-! ## From slots to meanings -/

section Meaning

variable {L : Likeness} {f : Option Nat → Option Nat}

open List (forall_mem_append)

mutual

theorem Expr.alike_mapSlots (ht : ∀ t, L.token t t) : ∀ {e : Expr},
    (∀ slot ∈ e.slots, L.depth slot (f slot)) → e.Alike L (e.mapSlots f)
  | .literal value, _ => .literal value
  | .group inner, h => .group (Expr.alike_mapSlots ht (e := inner) h)
  | .unary operator operand, h =>
      .unary (ht operator) (Expr.alike_mapSlots ht (e := operand) h)
  | .binary _ operator _, h => by
      obtain ⟨left, right⟩ := forall_mem_append.1 h
      exact .binary (Expr.alike_mapSlots ht left) (ht operator) (Expr.alike_mapSlots ht right)
  | .logical _ operator _, h => by
      obtain ⟨left, right⟩ := forall_mem_append.1 h
      exact .logical (Expr.alike_mapSlots ht left) (ht operator) (Expr.alike_mapSlots ht right)
  | .name x _, h => .name (ht x) (h _ List.mem_cons_self)
  | .assign x _ _, h => by
      obtain ⟨value, slot⟩ := forall_mem_append.1 h
      exact .assign (ht x) (slot _ List.mem_cons_self) (Expr.alike_mapSlots ht value)
  | .call _ paren _, h => by
      obtain ⟨callee, arguments⟩ := forall_mem_append.1 h
      exact .call (Expr.alike_mapSlots ht callee) (ht paren) (Expr.allAlike_mapSlots ht arguments)
  | .get object property, h =>
      .get (Expr.alike_mapSlots ht (e := object) h) (ht property)
  | .set _ property _, h => by
      obtain ⟨value, object⟩ := forall_mem_append.1 h
      exact .set (Expr.alike_mapSlots ht object) (ht property) (Expr.alike_mapSlots ht value)
  | .this keyword _, h => .this (ht keyword) (h _ List.mem_cons_self)
  | .super keyword _ method, h => .super (ht keyword) (h _ List.mem_cons_self) (ht method)

theorem Expr.allAlike_mapSlots (ht : ∀ t, L.token t t) : ∀ {es : List Expr},
    (∀ slot ∈ Expr.allSlots es, L.depth slot (f slot)) →
      Expr.AllAlike L es (Expr.mapAllSlots f es)
  | [], _ => .nil
  | _ :: _, h => by
      obtain ⟨head, tail⟩ := forall_mem_append.1 h
      exact .cons (Expr.alike_mapSlots ht head) (Expr.allAlike_mapSlots ht tail)

end

theorem Expr.rel_mapSlots (ht : ∀ t, L.token t t) {o : Option Expr}
    (h : ∀ slot ∈ Expr.optSlots o, L.depth slot (f slot)) :
    Option.Rel (Expr.Alike L) o (o.map (·.mapSlots f)) := by
  cases o with
  | none => exact .none
  | some e => exact .some (Expr.alike_mapSlots ht h)

mutual

theorem Stmt.alike_mapSlots (ht : ∀ t, L.token t t) : ∀ {s : Stmt},
    (∀ slot ∈ s.slots, L.depth slot (f slot)) → s.Alike L (s.mapSlots f)
  | .expr value, h => .expr (Expr.alike_mapSlots ht (e := value) h)
  | .print value, h => .print (Expr.alike_mapSlots ht (e := value) h)
  | .var name initial, h => .var (ht name) (Expr.rel_mapSlots ht (o := initial) h)
  | .block body, h => .block (@Stmt.allAlike_mapSlots ht body h)
  | .ifThen _ _, h => by
      obtain ⟨condition, consequent⟩ := forall_mem_append.1 h
      exact .ifThen (Expr.alike_mapSlots ht condition) (Stmt.alike_mapSlots ht consequent)
  | .ifElse _ _ _, h => by
      obtain ⟨front, alternative⟩ := forall_mem_append.1 h
      obtain ⟨condition, consequent⟩ := forall_mem_append.1 front
      exact .ifElse (Expr.alike_mapSlots ht condition) (Stmt.alike_mapSlots ht consequent)
        (Stmt.alike_mapSlots ht alternative)
  | .whileDo _ _, h => by
      obtain ⟨condition, body⟩ := forall_mem_append.1 h
      exact .whileDo (Expr.alike_mapSlots ht condition) (Stmt.alike_mapSlots ht body)
  | .function declaration, h =>
      .function (FunctionDecl.alike_mapSlots ht (d := declaration) h)
  | .returning keyword value, h => .returning (ht keyword) (Expr.rel_mapSlots ht (o := value) h)
  | .classDecl name _ _, h => by
      obtain ⟨superclass, methods⟩ := forall_mem_append.1 h
      exact .classDecl (ht name) (Expr.rel_mapSlots ht superclass)
        (FunctionDecl.allAlike_mapSlots ht methods)

theorem Stmt.allAlike_mapSlots (ht : ∀ t, L.token t t) : ∀ {ss : List Stmt},
    (∀ slot ∈ Stmt.allSlots ss, L.depth slot (f slot)) →
      Stmt.AllAlike L ss (Stmt.mapAllSlots f ss)
  | [], _ => .nil
  | _ :: _, h => by
      obtain ⟨head, tail⟩ := forall_mem_append.1 h
      exact .cons (Stmt.alike_mapSlots ht head) (Stmt.allAlike_mapSlots ht tail)

theorem FunctionDecl.alike_mapSlots (ht : ∀ t, L.token t t) : ∀ {d : FunctionDecl},
    (∀ slot ∈ d.slots, L.depth slot (f slot)) → d.Alike L (d.mapSlots f)
  | ⟨name, _, body⟩, h =>
      .mk (ht name) (List.forall₂_same.2 fun p _ => ht p) (@Stmt.allAlike_mapSlots ht body h)

theorem FunctionDecl.allAlike_mapSlots (ht : ∀ t, L.token t t) : ∀ {ds : List FunctionDecl},
    (∀ slot ∈ FunctionDecl.allSlots ds, L.depth slot (f slot)) →
      FunctionDecl.AllAlike L ds (FunctionDecl.mapAllSlots f ds)
  | [], _ => .nil
  | _ :: _, h => by
      obtain ⟨head, tail⟩ := forall_mem_append.1 h
      exact .cons (FunctionDecl.alike_mapSlots ht head) (FunctionDecl.allAlike_mapSlots ht tail)

end

end Meaning

/-! ## From meanings to slots -/

/-- Tokens stand for themselves only, and a slot for its meaning only. -/
structure Likeness.Reads (L : Likeness) (f : Option Nat → Option Nat) : Prop where
  token : ∀ {t t'}, L.token t t' → t = t'
  depth : ∀ {d d'}, L.depth d d' → f d = d'

section Reads

variable {L : Likeness} {f : Option Nat → Option Nat}

mutual

theorem Expr.Alike.mapSlots_eq (r : L.Reads f) : ∀ {e e' : Expr}, e.Alike L e' → e.mapSlots f = e'
  | _, _, .literal _ => rfl
  | _, _, .group inner => congrArg Expr.group (inner.mapSlots_eq r)
  | _, _, .unary operator operand =>
      congrArg₂ Expr.unary (r.token operator) (operand.mapSlots_eq r)
  | _, _, .binary left operator right => by
      rw [Expr.mapSlots, left.mapSlots_eq r, r.token operator, right.mapSlots_eq r]
  | _, _, .logical left operator right => by
      rw [Expr.mapSlots, left.mapSlots_eq r, r.token operator, right.mapSlots_eq r]
  | _, _, .name x depth => congrArg₂ Expr.name (r.token x) (r.depth depth)
  | _, _, .assign x depth value => by
      rw [Expr.mapSlots, r.token x, r.depth depth, value.mapSlots_eq r]
  | _, _, .call callee paren arguments => by
      rw [Expr.mapSlots, callee.mapSlots_eq r, r.token paren, arguments.mapSlots_eq r]
  | _, _, .get object property => congrArg₂ Expr.get (object.mapSlots_eq r) (r.token property)
  | _, _, .set object property value => by
      rw [Expr.mapSlots, object.mapSlots_eq r, r.token property, value.mapSlots_eq r]
  | _, _, .this keyword depth => congrArg₂ Expr.this (r.token keyword) (r.depth depth)
  | _, _, .super keyword depth method => by
      rw [Expr.mapSlots, r.token keyword, r.depth depth, r.token method]

theorem Expr.AllAlike.mapSlots_eq (r : L.Reads f) : ∀ {es es' : List Expr}, Expr.AllAlike L es es' →
    Expr.mapAllSlots f es = es'
  | _, _, .nil => rfl
  | _, _, .cons head tail => congrArg₂ List.cons (head.mapSlots_eq r) (tail.mapSlots_eq r)

end

theorem Expr.rel_mapSlots_eq (r : L.Reads f) {o o' : Option Expr}
    (h : Option.Rel (Expr.Alike L) o o') : o.map (·.mapSlots f) = o' := by
  cases h with
  | none => rfl
  | some h => exact congrArg some (h.mapSlots_eq r)

mutual

theorem Stmt.Alike.mapSlots_eq (r : L.Reads f) : ∀ {s s' : Stmt}, s.Alike L s' → s.mapSlots f = s'
  | _, _, .expr value => congrArg Stmt.expr (value.mapSlots_eq r)
  | _, _, .print value => congrArg Stmt.print (value.mapSlots_eq r)
  | _, _, .var name initial => congrArg₂ Stmt.var (r.token name) (Expr.rel_mapSlots_eq r initial)
  | _, _, .block body => congrArg Stmt.block (body.mapSlots_eq r)
  | _, _, .ifThen condition consequent =>
      congrArg₂ Stmt.ifThen (condition.mapSlots_eq r) (consequent.mapSlots_eq r)
  | _, _, .ifElse condition consequent alternative => by
      rw [Stmt.mapSlots, condition.mapSlots_eq r, consequent.mapSlots_eq r,
        alternative.mapSlots_eq r]
  | _, _, .whileDo condition body =>
      congrArg₂ Stmt.whileDo (condition.mapSlots_eq r) (body.mapSlots_eq r)
  | _, _, .function declaration => congrArg Stmt.function (declaration.mapSlots_eq r)
  | _, _, .returning keyword value =>
      congrArg₂ Stmt.returning (r.token keyword) (Expr.rel_mapSlots_eq r value)
  | _, _, .classDecl name superclass methods => by
      rw [Stmt.mapSlots, r.token name, Expr.rel_mapSlots_eq r superclass, methods.mapSlots_eq r]

theorem Stmt.AllAlike.mapSlots_eq (r : L.Reads f) : ∀ {ss ss' : List Stmt}, Stmt.AllAlike L ss ss' →
    Stmt.mapAllSlots f ss = ss'
  | _, _, .nil => rfl
  | _, _, .cons head tail => congrArg₂ List.cons (head.mapSlots_eq r) (tail.mapSlots_eq r)

theorem FunctionDecl.Alike.mapSlots_eq (r : L.Reads f) : ∀ {d d' : FunctionDecl}, d.Alike L d' →
    d.mapSlots f = d'
  | _, _, .mk name parameters body => by
      have same := List.forall₂_eq_eq_eq ▸ parameters.imp fun _ _ => r.token
      rw [FunctionDecl.mapSlots, r.token name, same, body.mapSlots_eq r]

theorem FunctionDecl.AllAlike.mapSlots_eq (r : L.Reads f) : ∀ {ds ds' : List FunctionDecl},
    FunctionDecl.AllAlike L ds ds' → FunctionDecl.mapAllSlots f ds = ds'
  | _, _, .nil => rfl
  | _, _, .cons head tail => congrArg₂ List.cons (head.mapSlots_eq r) (tail.mapSlots_eq r)

end

/-- What is alike entry by entry is what replacing slots in every entry gives. -/
theorem map_eq_of_forall₂ {α : Type} {R : α → α → Prop} {g : α → α} (hg : ∀ a b, R a b → g a = b)
    {as bs : List α} (h : List.Forall₂ R as bs) : as.map g = bs := by
  induction h with
  | nil => rfl
  | cons head _ ih => exact congrArg₂ List.cons (hg _ _ head) ih

variable (r : L.Reads f)

include r

theorem Closure.Alike.mapSlots_eq {c c' : Closure} (h : c.Alike L c') : c.mapSlots f = c' := by
  obtain ⟨declaration, scope, isInitializer⟩ := c
  obtain ⟨declaration', scope', isInitializer'⟩ := c'
  obtain ⟨alike, rfl, rfl⟩ := h
  exact congrArg (Closure.mk · scope isInitializer) (alike.mapSlots_eq r)

theorem ClassLayer.Alike.mapSlots_eq {k k' : ClassLayer} (h : k.Alike L k') :
    k.mapSlots f = k' := by
  obtain ⟨id, name, methods⟩ := k
  obtain ⟨id', name', methods'⟩ := k'
  obtain ⟨rfl, rfl, alike⟩ := h
  refine congrArg (ClassLayer.mk id name) (map_eq_of_forall₂ (fun entry entry' h => ?_) alike)
  exact Prod.ext h.1 (h.2.mapSlots_eq r)

theorem Class.Alike.mapSlots_eq {k k' : Class} (h : k.Alike L k') : k.mapSlots f = k' := by
  obtain ⟨own, inherited⟩ := List.forall₂_cons.1 h
  exact congrArg₂ Class.mk (own.mapSlots_eq r)
    (map_eq_of_forall₂ (fun _ _ layer => ClassLayer.Alike.mapSlots_eq r layer) inherited)

theorem Value.Alike.mapSlots_eq {v v' : Value} (h : v.Alike L v') : v.mapSlots f = v' := by
  cases h with
  | function closure => exact congrArg (Value.function _) (closure.mapSlots_eq r)
  | ofClass h => exact congrArg Value.ofClass (h.mapSlots_eq r)
  | object h => exact congrArg (Value.object _) (h.mapSlots_eq r)
  | _ => rfl

theorem Value.rel_mapSlots_eq {o o' : Option Value} (h : Option.Rel (Value.Alike L) o o') :
    o.map (·.mapSlots f) = o' := by
  cases h with
  | none => rfl
  | some h => exact congrArg some (h.mapSlots_eq r)

end Reads

/-- Only what becomes of the slots that are there matters. -/
theorem Expr.mapSlots_congr {f g : Option Nat → Option Nat} {e : Expr}
    (h : ∀ slot ∈ e.slots, f slot = g slot) : e.mapSlots f = e.mapSlots g := by
  have alike : e.Alike ⟨Eq, (f · = ·), congrArg Token.kind, congrArg Token.lexeme⟩
      (e.mapSlots g) := Expr.alike_mapSlots (fun _ => rfl) h
  exact alike.mapSlots_eq ⟨id, id⟩

end LoxLang
