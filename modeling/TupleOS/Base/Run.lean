import Mathlib.Algebra.Ring.Nat
import Mathlib.Tactic.Common

/-!
# Runs of a guarded step function

A system is a step function `step : S → O → Option S` (`none` is a step that
does not return) with a guard `ok : S → O → Prop` on the operations its clients
may call. `Run step ok s os s'` is a run through the operations `os`. An
invariant of every guarded step is an invariant of every run (`Run.invariant`).
A `Trace` also keeps the states on the way. `Calls` are runs that keep what each
operation returned; a system that matches every step of another with the same
result matches its runs (`Calls.simulate`).
-/

namespace TupleOS.Base

variable {S O : Type}

/-- `s` reaches `s'` through the operations `os`, all of them allowed. -/
inductive Run (step : S → O → Option S) (ok : S → O → Prop) : S → List O → S → Prop where
  | nil (s : S) : Run step ok s [] s
  | cons {s s₁ s' : S} {o : O} {os : List O} : ok s o → step s o = some s₁ →
      Run step ok s₁ os s' → Run step ok s (o :: os) s'

namespace Run

variable {step : S → O → Option S} {ok : S → O → Prop} {s s₁ s' : S} {o : O} {os os' : List O}

theorem invariant (Inv : S → Prop)
    (hstep : ∀ {s o s'}, Inv s → ok s o → step s o = some s' → Inv s')
    (h : Run step ok s os s') (hs : Inv s) : Inv s' := by
  induction h with
  | nil => exact hs
  | cons ho he _ ih => exact ih (hstep hs ho he)

theorem append (h : Run step ok s os s₁) (h' : Run step ok s₁ os' s') :
    Run step ok s (os ++ os') s' := by
  induction h with
  | nil => exact h'
  | cons ho he _ ih => exact .cons ho he (ih h')

theorem snoc (h : Run step ok s os s₁) (ho : ok s₁ o) (he : step s₁ o = some s') :
    Run step ok s (os ++ [o]) s' :=
  h.append (.cons ho he (.nil _))

end Run

/-- A run that keeps each state it goes through with the operation called there. -/
inductive Trace (step : S → O → Option S) (ok : S → O → Prop) : S → List (S × O) → S → Prop where
  | nil (s : S) : Trace step ok s [] s
  | cons {s s₁ s' : S} {o : O} {l : List (S × O)} : ok s o → step s o = some s₁ →
      Trace step ok s₁ l s' → Trace step ok s ((s, o) :: l) s'

/-- A run of operations that return something, with their results. -/
inductive Calls {R : Type} (call : S → O → Option (R × S)) (ok : S → O → Prop) :
    S → List (O × R) → S → Prop where
  | nil (s : S) : Calls call ok s [] s
  | cons {s s₁ s' : S} {o : O} {r : R} {l : List (O × R)} : ok s o → call s o = some (r, s₁) →
      Calls call ok s₁ l s' → Calls call ok s ((o, r) :: l) s'

theorem Calls.append {R : Type} {call : S → O → Option (R × S)} {ok : S → O → Prop} {s s₁ s' : S}
    {l l' : List (O × R)} (h : Calls call ok s l s₁) (h' : Calls call ok s₁ l' s') :
    Calls call ok s (l ++ l') s' := by
  induction h with
  | nil => exact h'
  | cons ho he _ ih => exact .cons ho he (ih h')

/-- **Simulation**: matching steps make matching runs, result by result. -/
theorem Calls.simulate {T R : Type} {call : S → O → Option (R × S)} {ok : S → O → Prop}
    {call' : T → O → Option (R × T)} {s s' : S} {t : T} {l : List (O × R)}
    (h : Calls call ok s l s') (Rel : S → T → Prop)
    (hstep : ∀ s t o r s', Rel s t → ok s o → call s o = some (r, s') →
      ∃ t', call' t o = some (r, t') ∧ Rel s' t') (hst : Rel s t) :
    ∃ t', Calls call' (fun _ _ => True) t l t' ∧ Rel s' t' := by
  induction h generalizing t with
  | nil => exact ⟨t, .nil t, hst⟩
  | cons ho he _ ih =>
    obtain ⟨t₁, ht, hrel⟩ := hstep _ _ _ _ _ hst ho he
    obtain ⟨t', hcalls, hrel'⟩ := ih hrel
    exact ⟨t', .cons trivial ht hcalls, hrel'⟩

end TupleOS.Base
