import LoxLang.Machine.Eval

/-!
# How actions end

`act.Ends m ok err` says that the action, started in the state `m`, ends with a
value as `ok` says or with a fault as `err` says, unless it runs out of fuel.
The rules take such a statement apart along the way in which the action was
built. With these a property of evaluation is proved without a look at
outcomes: a sequence has it if its parts do, in the states they start in.
-/

namespace LoxLang

namespace Action

variable {μ α β : Type} {m : μ} {act : Action μ α} {ok ok' : α → μ → Prop}
  {err err' : Located Fault → μ → Prop}

/-- The action ends as described, or runs out of fuel. -/
def Ends (act : Action μ α) (m : μ) (ok : α → μ → Prop) (err : Located Fault → μ → Prop) : Prop :=
  match act m with
  | .done a m' => ok a m'
  | .failed fault m' => err fault m'
  | .exhausted => True

theorem Ends.done (h : act.Ends m ok err) {a : α} {m' : μ} (he : act m = .done a m') :
    ok a m' := by
  unfold Ends at h
  rw [he] at h
  exact h

theorem Ends.failed (h : act.Ends m ok err) {fault : Located Fault} {m' : μ}
    (he : act m = .failed fault m') : err fault m' := by
  unfold Ends at h
  rw [he] at h
  exact h

theorem ends_of (hok : ∀ a m', act m = .done a m' → ok a m')
    (herr : ∀ fault m', act m = .failed fault m' → err fault m') : act.Ends m ok err := by
  unfold Ends
  split
  · next he => exact hok _ _ he
  · next he => exact herr _ _ he
  · trivial

theorem Ends.mono (h : act.Ends m ok err) (hok : ∀ a m', ok a m' → ok' a m')
    (herr : ∀ fault m', err fault m' → err' fault m') : act.Ends m ok' err' :=
  ends_of (fun _ _ he => hok _ _ (h.done he)) fun _ _ he => herr _ _ (h.failed he)

theorem Ends.and (h : act.Ends m ok err) (h' : act.Ends m ok' err') :
    act.Ends m (fun a m' => ok a m' ∧ ok' a m') (fun fault m' => err fault m' ∧ err' fault m') :=
  ends_of (fun _ _ he => ⟨h.done he, h'.done he⟩) fun _ _ he => ⟨h.failed he, h'.failed he⟩

theorem bind_apply (act : Action μ α) (next : α → Action μ β) (m : μ) :
    (act >>= next) m = match act m with
      | .done a m' => next a m'
      | .failed fault m' => .failed fault m'
      | .exhausted => .exhausted := rfl

theorem bind_of_done {next : α → Action μ β} {a : α} {m' : μ} (h : act m = .done a m') :
    (act >>= next) m = next a m' := by
  rw [bind_apply, h]

theorem bind_of_failed {next : α → Action μ β} {fault : Located Fault} {m' : μ}
    (h : act m = .failed fault m') : (act >>= next) m = .failed fault m' := by
  rw [bind_apply, h]

/-! ## The rules -/

@[simp] theorem ends_bind {next : α → Action μ β} {ok : β → μ → Prop} :
    (act >>= next).Ends m ok err ↔ act.Ends m (fun a m' => (next a).Ends m' ok err) err := by
  unfold Ends
  rw [bind_apply]
  cases act m <;> rfl

theorem ends_settle {token : Token} {r : Except Fault α} (hok : ∀ a, r = .ok a → ok a m)
    (herr : ∀ fault, r = .error fault → err ⟨token, fault⟩ m) :
    (settle token r : Action μ α).Ends m ok err := by
  cases r with
  | ok a => exact hok a rfl
  | error fault => exact herr fault rfl

@[simp] theorem ends_read {f : μ → α} : (read f).Ends m ok err ↔ ok (f m) m := Iff.rfl

end Action

namespace MachineM

open LoxLang.Action

variable {α : Type} {m : Machine} {act : MachineM α} {err : Located Fault → Machine → Prop}

@[simp] theorem ends_inScope {scope : Scope} {ok : α → Machine → Prop} :
    (inScope scope act).Ends m ok err ↔
      act.Ends { m with scope := scope } (fun a m' => ok a { m' with scope := m.scope })
        (fun fault m' => err fault { m' with scope := m.scope }) := by
  unfold Ends inScope
  dsimp only
  cases act { m with scope := scope } <;> rfl

@[simp] theorem ends_counted {ok : α → Machine → Prop} :
    (counted act).Ends m ok err ↔
      act.Ends { m with calls := m.calls + 1 } (fun a m' => ok a { m' with calls := m'.calls - 1 })
        (fun fault m' => err fault { m' with calls := m'.calls - 1 }) := by
  unfold Ends counted
  cases act { m with calls := m.calls + 1 } <;> rfl

@[simp] theorem ends_openScope {outer : Scope} {ok : Scope → Machine → Prop} :
    (openScope outer).Ends m ok err ↔
      ok (m.store.frames.size :: outer) { m with store := (m.store.enter outer).2 } := Iff.rfl

/-- The fault is one with which a call is refused. -/
def RefusesCall : Fault → Prop
  | .notCallable | .arity .. | .tooManyCalls => True
  | _ => False

/-- A call that passes the checks runs as one more call; otherwise it is refused. -/
theorem ends_apply {run : List Stmt → MachineM Flow} {paren : Token} {f : Value}
    {arguments : List Value} {ok : Value → Machine → Prop}
    (refused : ∀ fault, RefusesCall fault → err ⟨paren, fault⟩ m)
    (invoked : ∀ callable, f.callable? = some callable → arguments.length = callable.arity →
      m.calls < maxCalls → (counted (invoke run callable arguments)).Ends m ok err) :
    (apply run paren f arguments).Ends m ok err := by
  unfold Ends apply
  cases hc : f.callable? with
  | none => exact refused _ trivial
  | some callable =>
      dsimp only
      by_cases arity : arguments.length ≠ callable.arity
      · rw [if_pos arity]
        exact refused _ trivial
      · rw [if_neg arity]
        by_cases full : maxCalls ≤ m.calls
        · rw [if_pos full]
          exact refused _ trivial
        · rw [if_neg full]
          exact invoked callable hc (by omega) (by omega)

end MachineM

end LoxLang
