import Mathlib.Algebra.Ring.Nat
import Mathlib.Tactic.Common

/-!
# Cached translations

A processor keeps translations of pages that it has looked up, and goes on using
them. Between two accesses it may drop any of them and look up any page in
advance (`adjust`); software can only invalidate. `Fresh walk S` says that no
cached translation is stale, except for pages in `S`: a change of the tables adds
the pages that it concerns to `S` (`Fresh.change`), and invalidating a page takes
it out again (`Fresh.invalidate`).
-/

namespace TupleOS.Base

abbrev Tlb (ε : Type) := Nat → Option ε

/-- What becomes of the cached translation of a page between two accesses. -/
inductive CacheMove where
  | keep
  | drop
  | fill

namespace Tlb

variable {ε : Type}

def empty : Tlb ε := fun _ => none

def adjust (c : Tlb ε) (walk : Nat → Option ε) (moves : Nat → CacheMove) : Tlb ε := fun page =>
  match moves page with
  | .keep => c page
  | .drop => none
  | .fill => walk page

/-- The translation that is used: the cached one, if there is one. -/
def translate (c : Tlb ε) (walk : Nat → Option ε) (page : Nat) : Option ε := (c page).or (walk page)

def invalidate (c : Tlb ε) (page : Nat) : Tlb ε := fun p => if p = page then none else c p

/-- Off `S`, what is cached is what the tables say. -/
def Fresh (c : Tlb ε) (walk : Nat → Option ε) (S : Nat → Prop) : Prop :=
  ∀ page e, ¬ S page → c page = some e → walk page = some e

variable {c : Tlb ε} {walk walk' : Nat → Option ε} {S S' : Nat → Prop} {page : Nat}

theorem fresh_empty : (empty : Tlb ε).Fresh walk S := nofun

theorem Fresh.adjust (h : c.Fresh walk S) (moves : Nat → CacheMove) :
    (c.adjust walk moves).Fresh walk S := by
  intro page e hS he
  unfold Tlb.adjust at he
  split at he
  · exact h page e hS he
  · cases he
  · exact he

theorem Fresh.translate (h : c.Fresh walk S) (hS : ¬ S page) :
    c.translate walk page = walk page := by
  unfold Tlb.translate
  cases hc : c page with
  | none => rfl
  | some e => exact (h page e hS hc).symm

theorem Fresh.change (h : c.Fresh walk S) (hS : ∀ p, S p → S' p)
    (hw : ∀ p, ¬ S' p → walk' p = walk p) : c.Fresh walk' S' := by
  intro page e hp he
  rw [hw page hp]
  exact h page e (fun hs => hp (hS page hs)) he

theorem Fresh.invalidate (h : c.Fresh walk fun p => S p ∨ p = page) :
    (c.invalidate page).Fresh walk S := by
  intro p e hp he
  unfold Tlb.invalidate at he
  split at he
  · cases he
  · rename_i hne
    exact h p e (not_or.mpr ⟨hp, hne⟩) he

end Tlb

end TupleOS.Base
