import LoxLang.Proofs.Contexts
import LoxLang.Proofs.Ends
import LoxLang.Resolution.Annotate
import LoxLang.Resolution.Check

/-!
# Programs one behind the other

The global scope is not tracked, so a statement at top level leaves the context
as it found it, and a program is resolved in the same way wherever it stands.
A `return` at top level is an error. So a program without errors ends behind
its last statement, and what stands there runs next.
-/

namespace LoxLang

open LoxLang.Action MachineM

/-! ## Resolution -/

theorem Stmt.after_global : ∀ s : Stmt, s.after .global = .global
  | .expr _ | .print _ | .block _ | .returning _ _ => rfl
  | .var _ _ | .function _ | .classDecl _ _ _ => rfl
  | .ifThen _ s | .whileDo _ s => s.after_global
  | .ifElse _ s r => by rw [Stmt.after, s.after_global, r.after_global]

theorem Stmt.resolve_append (ss ss' : List Stmt) :
    Stmt.resolve (ss ++ ss') = Stmt.resolve ss ++ Stmt.resolve ss' := by
  unfold Stmt.resolve
  induction ss with
  | nil => rfl
  | cons s ss ih =>
      rw [List.cons_append, Stmt.annotateAll, Stmt.annotateAll, s.after_global, ih]
      rfl

theorem Stmt.staticErrors_append (ss ss' : List Stmt) :
    Stmt.staticErrors (ss ++ ss') = Stmt.staticErrors ss ++ Stmt.staticErrors ss' := by
  unfold Stmt.staticErrors
  induction ss with
  | nil => rfl
  | cons s ss ih =>
      rw [List.cons_append, Stmt.errorsAll, Stmt.errorsAll, s.after_global, ih, List.append_assoc]

/-! ## Statements that do not return -/

mutual

/-- No `return` belongs to what the statement stands in. -/
def Stmt.Stays : Stmt → Prop
  | .returning _ _ => False
  | .block body => Stmt.StaysAll body
  | .ifThen _ consequent => consequent.Stays
  | .ifElse _ consequent alternative => consequent.Stays ∧ alternative.Stays
  | .whileDo _ body => body.Stays
  | .expr _ | .print _ | .var _ _ | .function _ | .classDecl _ _ _ => True

/-- The same for statements. -/
def Stmt.StaysAll : List Stmt → Prop
  | [] => True
  | s :: ss => s.Stays ∧ Stmt.StaysAll ss

end

namespace Context

variable {c : Context}

theorem declare_body (x : String) : (c.declare x).body = c.body := by
  unfold declare
  split
  · rfl
  · split <;> rfl

theorem introduce_body (x : String) : (c.introduce x).body = c.body := by
  rw [introduce, define]
  split <;> exact declare_body x

theorem returnErrors_ne_nil (top : c.body = .topLevel) (hasValue : Bool) (keyword : Token) :
    c.returnErrors hasValue keyword ≠ [] := by
  rw [returnErrors, top]
  exact List.cons_ne_nil _ _

end Context

theorem Stmt.after_body (c : Context) : ∀ s : Stmt, (s.after c).body = c.body
  | .expr _ | .print _ | .block _ | .returning _ _ => rfl
  | .var _ _ | .function _ | .classDecl _ _ _ => Context.introduce_body _
  | .ifThen _ s | .whileDo _ s => s.after_body c
  | .ifElse _ s r => (r.after_body _).trans (s.after_body c)

mutual

theorem Stmt.stays_of_clean : ∀ {c : Context} {s : Stmt}, c.body = .topLevel → s.errors c = [] →
    (s.annotate c).Stays
  | _, .expr _, _, _ | _, .print _, _, _ | _, .var _ _, _, _ | _, .function _, _, _
  | _, .classDecl _ _ _, _, _ => trivial
  | _, .block _, top, clean => Stmt.staysAll_of_clean (c := Context.enter _) top clean
  | _, .ifThen _ s, top, clean =>
      Stmt.stays_of_clean (s := s) top (List.append_eq_nil_iff.1 clean).2
  | _, .ifElse _ s _, top, clean => by
      obtain ⟨front, clean'⟩ := List.append_eq_nil_iff.1 clean
      exact ⟨Stmt.stays_of_clean top (List.append_eq_nil_iff.1 front).2,
        Stmt.stays_of_clean ((s.after_body _).trans top) clean'⟩
  | _, .whileDo _ s, top, clean =>
      Stmt.stays_of_clean (s := s) top (List.append_eq_nil_iff.1 clean).2
  | _, .returning keyword _, top, clean =>
      absurd (List.append_eq_nil_iff.1 clean).1 (Context.returnErrors_ne_nil top _ keyword)

theorem Stmt.staysAll_of_clean : ∀ {c : Context} {ss : List Stmt}, c.body = .topLevel →
    Stmt.errorsAll c ss = [] → Stmt.StaysAll (Stmt.annotateAll c ss)
  | _, [], _, _ => trivial
  | _, s :: _, top, clean => by
      obtain ⟨first, others⟩ := List.append_eq_nil_iff.1 clean
      exact ⟨Stmt.stays_of_clean top first,
        Stmt.staysAll_of_clean ((s.after_body _).trans top) others⟩

end

/-- The action, if it ends with a value, does not return. -/
def Action.Falls {μ σ : Type} (act : Action μ (Flow σ)) : Prop :=
  ∀ m, act.Ends m (fun flow _ => flow = .next) fun _ _ => True

namespace Action.Falls

variable {μ σ α : Type}

theorem next : (pure .next : Action μ (Flow σ)).Falls := fun _ => rfl

theorem exhausted : (exhausted : Action μ (Flow σ)).Falls := fun _ => trivial

theorem bind {act : Action μ α} {next : α → Action μ (Flow σ)} (h : ∀ a, (next a).Falls) :
    (act >>= next).Falls :=
  fun _ => ends_bind.2 (ends_of (fun a m' _ => h a m') fun _ _ _ => trivial)

theorem done {act : Action μ (Flow σ)} (h : act.Falls) {m m' : μ} {flow : Flow σ}
    (he : act m = .done flow m') : flow = .next := (h m).done he

/-- Behind an action that does not return stands another. -/
theorem seq {act act' : Action μ (Flow σ)} (h : act.Falls) (h' : act'.Falls) :
    (act >>= fun | .next => act' | .returned v => pure (.returned v)).Falls := by
  refine fun m => ends_bind.2 ((h m).mono ?_ fun _ _ _ => trivial)
  rintro _ m' rfl
  exact h' m'

theorem ite {p : Prop} [Decidable p] {act act' : Action μ (Flow σ)} (h : act.Falls)
    (h' : act'.Falls) : (if p then act else act').Falls := by
  split
  · exact h
  · exact h'

theorem loop {test : Action μ (Value σ)} {body : Action μ (Flow σ)} (h : body.Falls) (fuel : Nat) :
    (loop test body fuel).Falls := by
  induction fuel with
  | zero => exact .exhausted
  | succ fuel ih => exact .bind fun v => .ite (h.seq ih) .next

end Action.Falls

theorem falls_execAll {μ σ : Type} {run : Stmt → Action μ (Flow σ)}
    (h : ∀ s, s.Stays → (run s).Falls) : ∀ {ss : List Stmt}, Stmt.StaysAll ss →
    (execAll run ss).Falls
  | [], _ => .next
  | s :: _, ⟨first, others⟩ => (h s first).seq (falls_execAll h others)

theorem falls_inScope {scope : Scope} {act : MachineM Flow} (h : act.Falls) :
    (inScope scope act).Falls := fun _ => ends_inScope.2 (h _)

/-- A statement without a `return` of its own does not return. -/
theorem falls_exec (fuel : Nat) : ∀ s : Stmt, s.Stays → (exec fuel s).Falls := by
  induction fuel with
  | zero => exact fun _ _ => .exhausted
  | succ fuel ih =>
      intro s stays
      cases s with
      | expr value => exact .bind fun _ => .next
      | print value => exact .bind fun _ => .bind fun _ => .next
      | var name initial =>
          cases initial with
          | none => exact .bind fun _ => .next
          | some value => exact .bind fun _ => .bind fun _ => .next
      | block body => exact .bind fun _ => .bind fun _ => falls_inScope (falls_execAll ih stays)
      | ifThen condition consequent => exact .bind fun _ => .ite (ih _ stays) .next
      | ifElse condition consequent alternative =>
          exact .bind fun _ => .ite (ih _ stays.1) (ih _ stays.2)
      | whileDo condition body => exact .loop (ih body stays) fuel
      | function declaration => exact .bind fun _ => .bind fun _ => .bind fun _ => .next
      | returning keyword value => exact stays.elim
      | classDecl name superclass methods => exact .bind fun _ => .next

/-! ## Runs -/

section Runs

variable {μ σ : Type} {run : Stmt → Action μ (Flow σ)} {ss : List Stmt}

theorem execAll_append (ss' : List Stmt) :
    execAll run (ss ++ ss') =
      (execAll run ss >>= fun | .next => execAll run ss' | .returned v => pure (.returned v)) := by
  induction ss with
  | nil => rfl
  | cons s ss ih =>
      rw [List.cons_append, execAll, execAll, bind_assoc]
      refine congrArg _ (funext fun flow => ?_)
      cases flow with
      | next => exact ih
      | returned v => rfl

end Runs

theorem falls_execProgram (fuel : Nat) {program : List Stmt}
    (clean : Stmt.staticErrors program = []) :
    (execProgram fuel (Stmt.resolve program)).Falls :=
  falls_execAll (falls_exec fuel) (Stmt.staysAll_of_clean rfl clean)

/-- A program without errors and what stands behind it. -/
theorem execProgram_append {fuel : Nat} {program : List Stmt}
    (clean : Stmt.staticErrors program = []) (others : List Stmt) (m : Machine) :
    execProgram fuel (Stmt.resolve program ++ others) m =
      match execProgram fuel (Stmt.resolve program) m with
      | .done _ m' => execProgram fuel others m'
      | .failed fault m' => .failed fault m'
      | .exhausted => .exhausted := by
  have falls := falls_execProgram fuel clean
  unfold execProgram at falls ⊢
  rw [execAll_append, bind_apply]
  cases h : execAll (exec fuel) (Stmt.resolve program) m with
  | done flow m' =>
      cases falls.done h
      rfl
  | failed fault m' => rfl
  | exhausted => rfl

end LoxLang
