import Mathlib.Algebra.Ring.Nat
import Mathlib.Data.Set.BooleanAlgebra
import Mathlib.Order.CompletePartialOrder
import Mathlib.Order.Interval.Set.Basic
import Mathlib.Tactic.Common

/-!
# Regions of memory in use

A program that keeps its buffers at fixed places lives in each of them for a
while. Its run is a list of `Use`s: a region writes some addresses, or from now
on lives in some. The run is `Clean` when no region writes where another lives.

`clean_of_within` proves it region by region: every region keeps to a territory.
`Clean.disjoint` reads it back: a write is apart from every region that stays
where it was. `Covers` says that a run of uses accounts for a change of memory.
-/

namespace TupleOS.Base

/-- One use of memory by a region. -/
inductive Use (R α : Type) where
  | write (r : R) (s : Set α)
  | live (r : R) (s : Set α)

section Within

variable {R α : Type} {W T : R → Set α} {us vs : List (Use R α)}

/-- The use keeps to the region's territory: what it may write, and where it may live. -/
def Use.Within (W T : R → Set α) : Use R α → Prop
  | .write r s => s ⊆ W r
  | .live r s => s ⊆ T r

/-- All uses of the run keep to their territories. -/
def Within (W T : R → Set α) (us : List (Use R α)) : Prop := ∀ u ∈ us, u.Within W T

@[simp] theorem within_nil : Within W T ([] : List (Use R α)) :=
  fun _ h => absurd h List.not_mem_nil

@[simp] theorem within_cons {u : Use R α} : Within W T (u :: us) ↔ u.Within W T ∧ Within W T us :=
  List.forall_mem_cons

@[simp] theorem within_append : Within W T (us ++ vs) ↔ Within W T us ∧ Within W T vs :=
  List.forall_mem_append

/-- The run does not move the region. -/
def Stays (r : R) (us : List (Use R α)) : Prop := ∀ s, .live r s ∉ us

variable {r r' : R} {s : Set α}

@[simp] theorem stays_nil : Stays r ([] : List (Use R α)) := fun _ => List.not_mem_nil

@[simp] theorem stays_append : Stays r (us ++ vs) ↔ Stays r us ∧ Stays r vs := by
  simp only [Stays, List.mem_append, not_or, forall_and]

@[simp] theorem stays_write : Stays r (.write r' s :: us) ↔ Stays r us := by
  simp only [Stays, List.mem_cons, reduceCtorEq, false_or]

theorem stays_live (hne : r ≠ r') : Stays r (.live r' s :: us) ↔ Stays r us := by
  simp only [Stays, List.mem_cons, Use.live.injEq, hne, false_and, false_or]

end Within

section Clean

variable {R α : Type} [DecidableEq R]

/-- Where the regions live after a use. -/
def Use.next (L : R → Set α) : Use R α → R → Set α
  | .write _ _ => L
  | .live r s => Function.update L r s

/-- The use writes nothing that another region lives in. -/
def Use.Clean (L : R → Set α) : Use R α → Prop
  | .write r s => ∀ r', r' ≠ r → Disjoint s (L r')
  | .live _ _ => True

/-- Where the regions live after a run. -/
def after (L : R → Set α) (us : List (Use R α)) : R → Set α := us.foldl Use.next L

/-- Every use of the run is clean when it happens. -/
def Clean : (R → Set α) → List (Use R α) → Prop
  | _, [] => True
  | L, u :: us => u.Clean L ∧ Clean (u.next L) us

variable {L W T : R → Set α} {us vs : List (Use R α)} {r r' : R} {s : Set α}

theorem after_append : after L (us ++ vs) = after (after L us) vs := List.foldl_append

theorem clean_append : Clean L (us ++ vs) ↔ Clean L us ∧ Clean (after L us) vs := by
  induction us generalizing L with
  | nil => exact ⟨fun h => ⟨trivial, h⟩, And.right⟩
  | cons u us ih => exact (and_congr_right fun _ => ih).trans and_assoc.symm

theorem after_of_stays (h : Stays r us) : after L us r = L r := by
  induction us generalizing L with
  | nil => rfl
  | cons u us ih =>
    have htail : after (u.next L) us r = u.next L r :=
      ih fun s hs => h s (List.mem_cons_of_mem _ hs)
    refine htail.trans ?_
    cases u with
    | write r₀ s₀ => rfl
    | live r₀ s₀ =>
      have hne : r ≠ r₀ := fun heq => h s₀ (heq ▸ List.mem_cons_self ..)
      exact Function.update_of_ne hne ..

theorem Clean.disjoint (hc : Clean L us) (hw : .write r s ∈ us) (hne : r' ≠ r)
    (hstays : Stays r' us) : Disjoint s (L r') := by
  obtain ⟨before, rest, rfl⟩ := List.append_of_mem hw
  have hrest := (clean_append.mp hc).2
  have hL : after L before r' = L r' := after_of_stays (stays_append.mp hstays).1
  rw [← hL]
  exact hrest.1 r' hne

theorem next_subset {u : Use R α} (hu : u.Within W T) (hL : ∀ r, L r ⊆ T r) (r : R) :
    u.next L r ⊆ T r := by
  cases u with
  | write r₀ s => exact hL r
  | live r₀ s =>
    by_cases hr : r = r₀
    · subst hr
      rw [show (Use.live r s).next L r = s from Function.update_self ..]
      exact hu
    · rw [show (Use.live r₀ s).next L r = L r from Function.update_of_ne hr ..]
      exact hL r

theorem after_subset (h : Within W T us) (hL : ∀ r, L r ⊆ T r) (r : R) : after L us r ⊆ T r := by
  induction us generalizing L with
  | nil => exact hL r
  | cons u us ih =>
    obtain ⟨hu, hus⟩ := within_cons.mp h
    exact ih hus (next_subset hu hL)

/-- **Territories.** A run whose regions write nothing in each other's
territories is clean. -/
theorem clean_of_within (hWT : ∀ r r', r' ≠ r → Disjoint (W r) (T r')) (h : Within W T us)
    (hL : ∀ r, L r ⊆ T r) : Clean L us := by
  induction us generalizing L with
  | nil => trivial
  | cons u us ih =>
    obtain ⟨hu, hus⟩ := within_cons.mp h
    refine ⟨?_, ih hus (next_subset hu hL)⟩
    cases u with
    | write r s => exact fun r' hne => (hWT r r' hne).mono hu (hL r')
    | live r s => trivial

end Clean

/-! ## What a run writes -/

section Covers

variable {R α β : Type} {us vs : List (Use R α)} {m m₁ m' : α → β} {r : R} {s : Set α} {a : α}

def writes (us : List (Use R α)) : Set α := {a | ∃ r s, .write r s ∈ us ∧ a ∈ s}

/-- The run writes all that has changed from `m` to `m'`. -/
def Covers (us : List (Use R α)) (m m' : α → β) : Prop := ∀ a ∉ writes us, m' a = m a

theorem notMem_of_writes (ha : a ∉ writes us) (hw : .write r s ∈ us) : a ∉ s :=
  fun h => ha ⟨r, s, hw, h⟩

theorem Covers.refl (us : List (Use R α)) (m : α → β) : Covers us m m := fun _ _ => rfl

theorem Covers.of_write (hw : .write r s ∈ us) (h : ∀ a ∉ s, m' a = m a) : Covers us m m' :=
  fun a ha => h a (notMem_of_writes ha hw)

theorem Covers.mono (h : Covers us m m') (hsub : us ⊆ vs) : Covers vs m m' :=
  fun a ha => h a fun ⟨r, s, hw, hs⟩ => ha ⟨r, s, hsub hw, hs⟩

theorem Covers.append (h : Covers us m m₁) (h' : Covers vs m₁ m') : Covers (us ++ vs) m m' :=
  fun a ha => (h'.mono (List.subset_append_right us vs) a ha).trans
    (h.mono (List.subset_append_left us vs) a ha)

end Covers

/-! ## Stacks -/

section Stack

variable {R : Type} {L W T : R → Set Nat} {r r' : R} {top sp n low : Nat}
  {body : List (Use R Nat)}

/-- Push `n` bytes on the stack `r`, run `body` and pop them. -/
def pushed (r : R) (top sp n : Nat) (body : List (Use R Nat)) : List (Use R Nat) :=
  .write r (Set.Ico (sp - n) sp) :: .live r (Set.Ico (sp - n) top) ::
    (body ++ [.live r (Set.Ico sp top)])

theorem subset_pushed (r : R) (top sp n : Nat) (body : List (Use R Nat)) :
    body ⊆ pushed r top sp n body := fun _ hu =>
  List.mem_cons_of_mem _ (List.mem_cons_of_mem _ (List.mem_append_left _ hu))

theorem stays_pushed (hne : r' ≠ r) : Stays r' (pushed r top sp n body) ↔ Stays r' body := by
  simp only [pushed, stays_write, stays_live hne, stays_append, stays_nil, and_true]

theorem within_pushed (hW : Set.Ico low top ⊆ W r) (hT : Set.Ico low top ⊆ T r)
    (hlow : low ≤ sp - n) (htop : sp ≤ top) (h : Within W T body) :
    Within W T (pushed r top sp n body) := by
  refine within_cons.mpr ⟨?_, within_cons.mpr ⟨?_, within_append.mpr ⟨h, within_cons.mpr
    ⟨?_, within_nil⟩⟩⟩⟩
  · exact (Set.Ico_subset_Ico hlow htop).trans hW
  · exact (Set.Ico_subset_Ico_left hlow).trans hT
  · exact (Set.Ico_subset_Ico_left (by omega)).trans hT

variable [DecidableEq R]

theorem after_pushed (L : R → Set Nat) (r : R) (top sp n : Nat) (body : List (Use R Nat)) :
    after L (pushed r top sp n body) =
      Function.update (after (Function.update L r (Set.Ico (sp - n) top)) body) r
        (Set.Ico sp top) := by
  show after _ (body ++ _) = _
  rw [after_append]
  rfl

theorem clean_pushed : Clean L (pushed r top sp n body) ↔
    (∀ r', r' ≠ r → Disjoint (Set.Ico (sp - n) sp) (L r')) ∧
      Clean (Function.update L r (Set.Ico (sp - n) top)) body := by
  refine ⟨fun h => ⟨h.1, (clean_append.mp h.2.2).1⟩, fun h => ⟨h.1, trivial, ?_⟩⟩
  exact clean_append.mpr ⟨h.2, trivial, trivial⟩

end Stack

end TupleOS.Base
