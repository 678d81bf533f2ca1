import Mathlib.Algebra.Ring.Nat
import Mathlib.Tactic.Common

/-!
# Fair runs

A system takes a step for every event of an infinite schedule. The events are of
several kinds, one for each party, and a schedule is fair when every kind occurs
again and again. A system gets somewhere under every fair schedule if in each
state the events of one kind bring it closer and the others do no harm
(`Fair.eventually`).
-/

namespace TupleOS.Base

variable {S E K : Type} {step : S → E → S} {kind : E → K} {sched : Nat → E} {s : S}

def statesOf (step : S → E → S) (sched : Nat → E) (s : S) : Nat → S
  | 0 => s
  | n + 1 => step (statesOf step sched s n) (sched n)

/-- Events of every kind occur again and again. -/
def Fair (kind : E → K) (sched : Nat → E) : Prop := ∀ k n, ∃ m, n ≤ m ∧ kind (sched m) = k

theorem statesOf_add (m n : Nat) : statesOf step sched s (m + n) =
    statesOf step (fun i => sched (m + i)) (statesOf step sched s m) n := by
  induction n with
  | zero => rfl
  | succ n ih =>
    rw [← Nat.add_assoc]
    show step (statesOf step sched s (m + n)) _ = step _ _
    rw [ih]

theorem Fair.shift (h : Fair kind sched) (m : Nat) : Fair kind fun i => sched (m + i) := by
  intro k n
  obtain ⟨i, hi, hk⟩ := h k (m + n)
  refine ⟨i - m, by omega, ?_⟩
  show kind (sched (m + (i - m))) = k
  rw [show m + (i - m) = i by omega]
  exact hk

theorem statesOf_invariant {Inv : S → Prop} (hstep : ∀ s e, Inv s → Inv (step s e)) (hs : Inv s)
    (n : Nat) : Inv (statesOf step sched s n) := by
  induction n with
  | zero => exact hs
  | succ n ih => exact hstep _ _ ih

theorem stays_or_closer {dist : S → Nat}
    (hother : ∀ e, step s e = s ∨ dist (step s e) < dist s) (n : Nat) :
    statesOf step sched s n = s ∨ ∃ m, statesOf step sched s (m + 1) = step s (sched m) ∧
      dist (step s (sched m)) < dist s := by
  induction n with
  | zero => exact .inl rfl
  | succ n ih =>
    rcases ih with heq | hcloser
    · have hnext : statesOf step sched s (n + 1) = step s (sched n) := by
        rw [statesOf, heq]
      rcases hother (sched n) with he | hlt
      · exact .inl (hnext.trans he)
      · exact .inr ⟨n, hnext, hlt⟩
    · exact .inr hcloser

/-- **Fair termination**: each state has a kind of events that bring it closer to the end,
and all other events leave it alone or bring it closer as well. -/
theorem Fair.eventually (hfair : Fair kind sched) (Inv Done : S → Prop) (dist : S → Nat)
    (helpful : S → K) (hinv : ∀ s e, Inv s → ¬ Done s → Inv (step s e))
    (hhelp : ∀ s e, Inv s → ¬ Done s → kind e = helpful s → dist (step s e) < dist s)
    (hother : ∀ s e, Inv s → ¬ Done s → step s e = s ∨ dist (step s e) < dist s)
    (hs : Inv s) : ∃ n, Inv (statesOf step sched s n) ∧ Done (statesOf step sched s n) := by
  -- on the distance: wait for an event of the helpful kind, then go on from there
  induction hn : dist s using Nat.strong_induction_on generalizing s sched with
  | _ d ih =>
    by_cases hd : Done s
    · exact ⟨0, hs, hd⟩
    obtain ⟨m, -, hm⟩ := hfair (helpful s) 0
    have hcloser : ∃ j, statesOf step sched s (j + 1) = step s (sched j) ∧
        dist (step s (sched j)) < dist s := by
      rcases stays_or_closer (hother s · hs hd) m with heq | hcloser
      · exact ⟨m, by rw [statesOf, heq], hhelp s _ hs hd hm⟩
      · exact hcloser
    obtain ⟨j, hj, hlt⟩ := hcloser
    obtain ⟨n, hdone⟩ := ih _ (hn ▸ hlt) (hfair.shift (j + 1)) (hinv s _ hs hd) rfl
    exact ⟨j + 1 + n, by rwa [statesOf_add, hj]⟩

end TupleOS.Base
