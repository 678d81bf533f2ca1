import Mathlib.Algebra.Ring.Nat
import Mathlib.Tactic.Common

/-!
# Loops over a fallible state

A `for` loop that counts upwards, and a loop over the elements of a list, of a body that may
fail (`Option`). Each has one rule: what holds at the start and is kept by a round that
returns, holds at the end of a loop that returns.
-/

namespace TupleOS.Base

variable {σ α : Type}

/-- `for (i = 0; i < n; i++) body(i)`. -/
def forLoop (body : Nat → σ → Option σ) : Nat → σ → Option σ
  | 0, s => some s
  | n + 1, s => (forLoop body n s).bind (body n)

theorem forLoop_rule (Inv : Nat → σ → Prop) {f : Nat → σ → Option σ} {n : Nat} {s : σ}
    (h0 : Inv 0 s) (hround : ∀ i < n, ∀ s, Inv i s → ∃ s', f i s = some s' ∧ Inv (i + 1) s') :
    ∃ s', forLoop f n s = some s' ∧ Inv n s' := by
  induction n with
  | zero => exact ⟨s, rfl, h0⟩
  | succ n ih =>
    obtain ⟨s₁, hs₁, hinv⟩ := ih fun i hi => hround i (by omega)
    obtain ⟨s', hs', hinv'⟩ := hround n (by omega) s₁ hinv
    exact ⟨s', by rw [forLoop, hs₁, Option.bind_some, hs'], hinv'⟩

theorem foldlM_rule (Inv : List α → σ → Prop) {f : σ → α → Option σ} {l : List α}
    (hround : ∀ done a s, a ∈ l → Inv done s → ∃ s', f s a = some s' ∧ Inv (done ++ [a]) s')
    (done : List α) {s : σ} (h : Inv done s) :
    ∃ s', l.foldlM f s = some s' ∧ Inv (done ++ l) s' := by
  induction l generalizing s done with
  | nil => exact ⟨s, rfl, (List.append_nil done).symm ▸ h⟩
  | cons a l ih =>
    obtain ⟨s₁, hs₁, hinv⟩ := hround done a s (List.mem_cons_self ..) h
    obtain ⟨s', hs', hinv'⟩ := ih (fun d b u hb => hround d b u (List.mem_cons_of_mem a hb)) _ hinv
    refine ⟨s', ?_, ?_⟩
    · rw [List.foldlM_cons, hs₁]
      exact hs'
    · rwa [List.append_assoc] at hinv'

end TupleOS.Base
