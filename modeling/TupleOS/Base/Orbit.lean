import Mathlib.Algebra.Ring.Nat
import Mathlib.Computability.StateTransition
import Mathlib.Data.Set.Finite.Basic
import Mathlib.Logic.Function.Iterate

/-!
# Walks that follow their data

A walk `x, f x, f (f x), …` goes on while `P` holds. If only finitely many points
satisfy `P`, the walk ends exactly when it comes to no point twice
(`exists_not_iterate_iff`). A machine given by a partial step function does not
stop while an invariant keeps it moving (`not_dom_of_invariant`).
-/

namespace TupleOS.Base

variable {α : Type} {f : α → α} {P : α → Prop} {x : α}

theorem iterate_repeats {i j : Nat} (hij : i < j) (h : f^[i] x = f^[j] x) (n : Nat) :
    ∃ k < j, f^[n] x = f^[k] x := by
  induction n using Nat.strong_induction_on with
  | _ n ih =>
    by_cases hn : n < j
    · exact ⟨n, hn, rfl⟩
    · obtain ⟨k, hk, heq⟩ := ih (n - j + i) (by omega)
      refine ⟨k, hk, heq ▸ ?_⟩
      rw [Function.iterate_add_apply, h, ← Function.iterate_add_apply,
        Nat.sub_add_cancel (by omega)]

/-- **A walk inside a finite set ends** exactly when it comes to no point twice. -/
theorem exists_not_iterate_iff (hfin : {a | P a}.Finite) :
    (∃ n, ¬ P (f^[n] x)) ↔
      ∀ i j, i < j → (∀ k < j, P (f^[k] x)) → f^[i] x ≠ f^[j] x := by
  constructor
  · rintro ⟨n, hn⟩ i j hij hP heq
    obtain ⟨k, hk, hnk⟩ := iterate_repeats hij heq n
    exact hn (hnk ▸ hP k hk)
  · intro hne
    by_contra hall
    have hP : ∀ n, P (f^[n] x) := fun n => not_not.mp fun h => hall ⟨n, h⟩
    have hinj : Function.Injective fun n => f^[n] x := fun i j h => by
      rcases Nat.lt_trichotomy i j with hij | hij | hij
      · exact absurd h (hne i j hij fun k _ => hP k)
      · exact hij
      · exact absurd h.symm (hne j i hij fun k _ => hP k)
    exact Set.infinite_of_injective_forall_mem hinj hP hfin

section Machine

variable {step : α → Option α}

theorem reaches_invariant (Inv : α → Prop) {a b : α}
    (hstep : ∀ {s s'}, Inv s → step s = some s' → Inv s')
    (h : StateTransition.Reaches step a b) (ha : Inv a) : Inv b := by
  induction h with
  | refl => exact ha
  | tail _ he ih => exact hstep ih he

theorem reaches_rounds_or (Inv : Nat → α → Prop) (Out : α → Prop) {n : Nat} {a : α}
    (hround : ∀ i s, i < n → Inv i s →
      ∃ s', StateTransition.Reaches step s s' ∧ (Inv (i + 1) s' ∨ Out s'))
    (ha : Inv 0 a) : ∀ i, i ≤ n → ∃ b, StateTransition.Reaches step a b ∧ (Inv i b ∨ Out b)
  | 0, _ => ⟨a, .refl, .inl ha⟩
  | i + 1, hi => by
    obtain ⟨b, hab, hb | hb⟩ := reaches_rounds_or Inv Out hround ha i (by omega)
    · obtain ⟨c, hbc, hc⟩ := hround i b (by omega) hb
      exact ⟨c, hab.trans hbc, hc⟩
    · exact ⟨b, hab, .inr hb⟩

theorem reaches_rounds (Inv : Nat → α → Prop) {n : Nat} {a : α}
    (hround : ∀ i s, i < n → Inv i s → ∃ s', StateTransition.Reaches step s s' ∧ Inv (i + 1) s')
    (ha : Inv 0 a) : ∃ b, StateTransition.Reaches step a b ∧ Inv n b := by
  obtain ⟨b, hab, hb⟩ := reaches_rounds_or Inv (fun _ => False)
    (fun i s hi h => (hround i s hi h).imp fun _ hs => ⟨hs.1, .inl hs.2⟩) ha n (Nat.le_refl n)
  exact ⟨b, hab, hb.resolve_right id⟩

theorem reaches_stop {a b c : α} (hb : StateTransition.Reaches step a b)
    (hc : StateTransition.Reaches step a c) (hstop : step c = none) :
    StateTransition.Reaches step b c := by
  rcases StateTransition.reaches_total hb hc with h | h
  · exact h
  · rcases h.cases_head with rfl | ⟨e, he, -⟩
    · exact .refl
    · rw [hstop] at he
      exact absurd he (Option.not_mem_none e)

theorem stop_unique {a b c : α} (hb : StateTransition.Reaches step a b)
    (hc : StateTransition.Reaches step a c) (hb' : step b = none) (hc' : step c = none) : b = c :=
  Part.mem_unique (StateTransition.mem_eval.mpr ⟨hb, hb'⟩) (StateTransition.mem_eval.mpr ⟨hc, hc'⟩)

theorem not_dom_of_invariant (Inv : α → Prop) {a : α}
    (hstep : ∀ {s s'}, Inv s → step s = some s' → Inv s') (hgo : ∀ {s}, Inv s → step s ≠ none)
    (ha : Inv a) : ¬ (StateTransition.eval step a).Dom := by
  intro hdom
  obtain ⟨hr, hstop⟩ := StateTransition.mem_eval.mp (Part.get_mem hdom)
  exact hgo (reaches_invariant Inv hstep hr ha) hstop

end Machine

end TupleOS.Base
