import LoxLang.Proofs.Ends
import LoxLang.Session

/-!
# More fuel keeps the answer

Fuel is no part of the language: it decides whether an evaluation gets to its
end, never how it ends. So an answer that was reached is reached with any more
fuel. The proof compares actions rather than answers. One action *completes*
another if it ends as the other does wherever that ends at all; whatever is
composed of actions keeps this, so the induction on the fuel has nothing to do
with what the single constructs mean.
-/

namespace LoxLang

open LoxLang.Action MachineM

/-- The second action ends as the first does, unless that runs out of fuel. -/
def Action.Completes {μ α : Type} (act act' : Action μ α) : Prop :=
  ∀ m, act m = .exhausted ∨ act' m = act m

namespace Action.Completes

section Rules

variable {μ σ α β : Type} {act act' : Action μ α}

theorem refl (act : Action μ α) : act.Completes act := fun _ => .inr rfl

theorem exhausted : (exhausted : Action μ α).Completes act := fun _ => .inl rfl

theorem bind {next next' : α → Action μ β} (h : act.Completes act')
    (hn : ∀ a, (next a).Completes (next' a)) : (act >>= next).Completes (act' >>= next') := by
  intro m
  rw [bind_apply, bind_apply]
  rcases h m with out | same
  · rw [out]
    exact .inl rfl
  · rw [same]
    cases act m with
    | done a m' => exact hn a m'
    | failed fault m' => exact .inr rfl
    | exhausted => exact .inl rfl

theorem ite {p : Prop} [Decidable p] {other other' : Action μ α} (h : act.Completes act')
    (ho : other.Completes other') :
    (if p then act else other).Completes (if p then act' else other') := by
  split
  · exact h
  · exact ho

theorem evalAll {run run' : α → Action μ (Value σ)} (h : ∀ a, (run a).Completes (run' a)) :
    ∀ as : List α, (evalAll run as).Completes (Action.evalAll run' as)
  | [] => .refl _
  | a :: as => (h a).bind fun _ => (evalAll h as).bind fun _ => .refl _

theorem execAll {run run' : Stmt → Action μ (Flow σ)} (h : ∀ s, (run s).Completes (run' s))
    (ss : List Stmt) : (execAll run ss).Completes (Action.execAll run' ss) := by
  induction ss with
  | nil => exact .refl _
  | cons s ss ih =>
      refine (h s).bind fun flow => ?_
      cases flow with
      | next => exact ih
      | returned v => exact .refl _

theorem loop {test test' : Action μ (Value σ)} {body body' : Action μ (Flow σ)}
    (ht : test.Completes test') (hb : body.Completes body') (fuel : Nat) :
    (loop test body fuel).Completes (Action.loop test' body' (fuel + 1)) := by
  induction fuel with
  | zero => exact .exhausted
  | succ fuel ih =>
      refine ht.bind fun v => .ite (hb.bind fun flow => ?_) (.refl _)
      cases flow with
      | next => exact ih
      | returned v => exact .refl _

end Rules

/-! ## Calls and classes -/

section Calls

variable {α : Type} {act act' : MachineM α} {run run' : List Stmt → MachineM Flow}

theorem inScope (h : act.Completes act') (scope : Scope) :
    (inScope scope act).Completes (MachineM.inScope scope act') := by
  intro m
  unfold MachineM.inScope
  rcases h { m with scope := scope } with out | same
  · dsimp only
    rw [out]
    exact .inl rfl
  · dsimp only
    rw [same]
    exact .inr rfl

theorem counted (h : act.Completes act') : (counted act).Completes (MachineM.counted act') := by
  intro m
  unfold MachineM.counted
  rcases h { m with calls := m.calls + 1 } with out | same
  · rw [out]
    exact .inl rfl
  · rw [same]
    exact .inr rfl

theorem enter (h : ∀ ss, (run ss).Completes (run' ss)) (c : Closure) (arguments : List Value) :
    (enter run c arguments).Completes (MachineM.enter run' c arguments) :=
  .bind (.refl _) fun _ => .bind (.refl _) fun _ => .bind (.inScope (h _) _) fun _ => .refl _

theorem invoke (h : ∀ ss, (run ss).Completes (run' ss)) (f : Callable) (arguments : List Value) :
    (invoke run f arguments).Completes (MachineM.invoke run' f arguments) := by
  cases f with
  | clock => exact .refl _
  | closure c => exact enter h c arguments
  | construct k =>
      refine .bind (.refl _) fun object => ?_
      cases k.initializer? with
      | none => exact .refl _
      | some initializer =>
          exact .bind (.refl _) fun bound => (enter h bound arguments).bind fun _ => .refl _

theorem apply (h : ∀ ss, (run ss).Completes (run' ss)) (paren : Token) (f : Value)
    (arguments : List Value) :
    (apply run paren f arguments).Completes (MachineM.apply run' paren f arguments) := by
  intro m
  unfold MachineM.apply
  cases f.callable? with
  | none => exact .inr rfl
  | some callable =>
      dsimp only
      split
      · exact .inr rfl
      split
      · exact .inr rfl
      · exact (invoke h callable arguments).counted m

theorem declareClass {value value' : MachineM Value} (h : value.Completes value') (name : Token)
    (token : Token) (methods : List FunctionDecl) :
    (declareClass name (some (token, value)) methods).Completes
      (MachineM.declareClass name (some (token, value')) methods) :=
  .bind (.refl _) fun _ => .bind (.refl _) fun _ => h.bind fun _ => .refl _

end Calls

end Action.Completes

/-! ## Evaluation -/

open Action.Completes in
theorem completes_eval_succ {fuel : Nat}
    (heval : ∀ e, (eval fuel e).Completes (eval (fuel + 1) e))
    (hexec : ∀ s, (exec fuel s).Completes (exec (fuel + 1) s)) (e : Expr) :
    (eval (fuel + 1) e).Completes (eval (fuel + 2) e) := by
  cases e with
  | group inner => exact heval inner
  | unary operator operand => exact (heval operand).bind fun _ => .refl _
  | binary left operator right =>
      exact (heval left).bind fun _ => (heval right).bind fun _ => .refl _
  | logical left operator right =>
      exact (heval left).bind fun _ => .ite (.refl _) (heval right)
  | assign x depth value => exact (heval value).bind fun _ => .refl _
  | call callee paren arguments =>
      exact (heval callee).bind fun f => (evalAll heval arguments).bind fun vs =>
        apply (execAll hexec) paren f vs
  | get object property => exact (heval object).bind fun _ => .refl _
  | set object property value =>
      refine (heval object).bind fun v => ?_
      cases v with
      | object id k => exact (heval value).bind fun _ => .refl _
      | _ => exact .refl _
  | _ => exact .refl _

open Action.Completes in
theorem completes_exec_succ {fuel : Nat}
    (heval : ∀ e, (eval fuel e).Completes (eval (fuel + 1) e))
    (hexec : ∀ s, (exec fuel s).Completes (exec (fuel + 1) s)) (s : Stmt) :
    (exec (fuel + 1) s).Completes (exec (fuel + 2) s) := by
  cases s with
  | expr value => exact (heval value).bind fun _ => .refl _
  | print value => exact (heval value).bind fun _ => .refl _
  | var name initial =>
      cases initial with
      | none => exact .refl _
      | some value => exact (heval value).bind fun _ => .refl _
  | block body =>
      exact .bind (.refl _) fun _ => .bind (.refl _) fun _ => .inScope (execAll hexec body) _
  | ifThen condition consequent =>
      exact (heval condition).bind fun _ => .ite (hexec consequent) (.refl _)
  | ifElse condition consequent alternative =>
      exact (heval condition).bind fun _ => .ite (hexec consequent) (hexec alternative)
  | whileDo condition body => exact loop (heval condition) (hexec body) fuel
  | function declaration => exact .refl _
  | returning keyword value =>
      cases value with
      | none => exact .refl _
      | some value => exact (heval value).bind fun _ => .refl _
  | classDecl name superclass methods =>
      cases superclass with
      | none => exact .refl _
      | some e =>
          exact (declareClass (heval e) name (superclassToken name e) methods).bind fun _ => .refl _

theorem completes_succ (fuel : Nat) :
    (∀ e, (eval fuel e).Completes (eval (fuel + 1) e)) ∧
    ∀ s, (exec fuel s).Completes (exec (fuel + 1) s) := by
  induction fuel with
  | zero => exact ⟨fun _ => .exhausted, fun _ => .exhausted⟩
  | succ fuel ih =>
      exact ⟨completes_eval_succ ih.1 ih.2, completes_exec_succ ih.1 ih.2⟩

theorem Action.Completes.trans {μ α : Type} {act act' act'' : Action μ α}
    (h : act.Completes act') (h' : act'.Completes act'') : act.Completes act'' := by
  intro m
  rcases h m with out | same
  · exact .inl out
  · rcases h' m with out | same'
    · exact .inl (same ▸ out)
    · exact .inr (same'.trans same)

theorem exec_completes {fuel fuel' : Nat} (more : fuel ≤ fuel') (s : Stmt) :
    (exec fuel s).Completes (exec fuel' s) := by
  induction more with
  | refl => exact .refl _
  | step _ ih => exact ih.trans ((completes_succ _).2 s)

/-- A program that has come to its end comes to the same end with more fuel. -/
theorem execProgram_completes {fuel fuel' : Nat} (more : fuel ≤ fuel') (program : List Stmt) :
    (execProgram fuel program).Completes (execProgram fuel' program) :=
  .execAll (exec_completes more) program

theorem execProgram_more {fuel fuel' : Nat} (more : fuel ≤ fuel') {program : List Stmt}
    {m : Machine} {outcome : Outcome Machine Flow} (h : execProgram fuel program m = outcome)
    (ends : outcome ≠ .exhausted) : execProgram fuel' program m = outcome := by
  rcases execProgram_completes more program m with out | same
  · exact absurd (h.symm.trans out) ends
  · exact same.trans h

namespace Session

theorem execute_more {fuel fuel' : Nat} (more : fuel ≤ fuel') {s t : Session}
    {program : List Stmt} (h : s.execute fuel program = some t) :
    s.execute fuel' program = some t := by
  unfold execute at h ⊢
  rcases execProgram_completes more program s.machine with out | same
  · rw [out] at h
    cases h
  · rw [same]
    exact h

/-- A run that has come to its end comes to the same end with more fuel. -/
theorem run_more {fuel fuel' : Nat} (more : fuel ≤ fuel') {s t : Session} {source : String}
    (h : s.run fuel source = some t) : s.run fuel' source = some t := by
  unfold run at h ⊢
  split at h
  · next heq =>
      dsimp only at h ⊢
      split at h
      · next closed =>
        rw [if_pos closed]
        exact h
      · next opened =>
        rw [if_neg opened]
        split at h
        · next closed' =>
          rw [if_pos closed']
          exact h
        · next opened' =>
          rw [if_neg opened']
          exact execute_more more h

end Session

end LoxLang
