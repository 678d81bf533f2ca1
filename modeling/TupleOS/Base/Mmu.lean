import Mathlib.Algebra.Ring.Nat
import Mathlib.Tactic.Common

/-!
# Two-level page tables

Physical memory as frames of 1024 words. A directory entry names the frame of a
table, a table entry the frame of a page, both in their upper bits, with bit 0
for present. `walk m dir page` is the pair of entries through which directory
`dir` maps virtual page `page`, if both are present: frame and flags of the page
are those of the pair. A walk reads two words (`walk_congr`).

When the tables of a directory are frames of their own (`Tree`), a store into a
table changes the walk of one page (`Tree.walk_store`), and entering a cleared
table changes none (`Tree.walk_enter`). Writes off the tables (`SameTree`) change
none either.
-/

namespace TupleOS.Base

/-- The word at a frame and a word index. -/
abbrev Phys := Nat → Nat → Nat

def isPresent (entry : Nat) : Bool := entry % 2 == 1

def frameOf (entry : Nat) : Nat := entry / 4096

namespace Phys

variable {m m' : Phys} {f i w f' i' : Nat}

def store (m : Phys) (f i w : Nat) : Phys := fun f' i' => if f' = f ∧ i' = i then w else m f' i'

@[simp] theorem store_same (m : Phys) (f i w : Nat) : m.store f i w f i = w := by simp [store]

theorem store_frame (h : f' ≠ f) : m.store f i w f' = m f' := by
  funext j; simp [store, h]

theorem store_index (h : i' ≠ i) : m.store f i w f' i' = m f' i' := by simp [store, h]

/-- The first `n` words of frame `f` set to `w`. -/
def fill (m : Phys) (f w n : Nat) : Phys := fun f' i' => if f' = f ∧ i' < n then w else m f' i'

theorem fill_zero (m : Phys) (f w : Nat) : m.fill f w 0 = m := by
  funext f' i'; simp [fill]

theorem fill_succ (m : Phys) (f w n : Nat) : (m.fill f w n).store f n w = m.fill f w (n + 1) := by
  funext f' i'
  unfold fill store
  by_cases hf : f' = f
  · by_cases hi : i' = n
    · simp [hf, hi]
    · simp only [hf, hi, and_false, ↓reduceIte, true_and]
      exact if_congr (by omega) rfl rfl
  · simp [hf]

theorem fill_frame {n : Nat} (h : f' ≠ f) : m.fill f w n f' = m f' := by
  funext j; simp [fill, h]

theorem fill_in {n : Nat} (h : i < n) : m.fill f w n f i = w := by simp [fill, h]

end Phys

/-- The entries through which `dir` maps `page`. -/
def walk (m : Phys) (dir page : Nat) : Option (Nat × Nat) :=
  let pde := m dir (page / 1024)
  if isPresent pde then
    let pte := m (frameOf pde) (page % 1024)
    if isPresent pte then some (pde, pte) else none
  else none

section Walk

variable {m m' : Phys} {dir dir' page e e' : Nat}

theorem walk_some : walk m dir page = some (e, e') ↔
    m dir (page / 1024) = e ∧ isPresent e = true ∧ m (frameOf e) (page % 1024) = e' ∧
      isPresent e' = true := by
  unfold walk
  simp only
  constructor
  · intro h
    split at h
    · split at h
      · rename_i h1 h2
        cases h
        exact ⟨rfl, h1, rfl, h2⟩
      · cases h
    · cases h
  · rintro ⟨rfl, h1, rfl, h2⟩
    rw [if_pos h1, if_pos h2]

theorem walk_present (h : walk m dir page = some (e, e')) :
    isPresent (m dir (page / 1024)) = true := by
  obtain ⟨hd, hp, -⟩ := walk_some.mp h
  rw [hd]
  exact hp

theorem walk_absent (h : isPresent (m dir (page / 1024)) = false) : walk m dir page = none := by
  simp [walk, h]

theorem walk_congr (hd : m' dir' (page / 1024) = m dir (page / 1024))
    (ht : isPresent (m dir (page / 1024)) = true →
      m' (frameOf (m dir (page / 1024))) (page % 1024) =
        m (frameOf (m dir (page / 1024))) (page % 1024)) :
    walk m' dir' page = walk m dir page := by
  unfold walk
  simp only [hd]
  by_cases hp : isPresent (m dir (page / 1024)) = true
  · rw [if_pos hp, if_pos hp, ht hp]
  · rw [if_neg hp, if_neg hp]

theorem page_split (v : Nat) : 1024 * (v / 1024) + v % 1024 = v := Nat.div_add_mod v 1024

theorem page_slot {v : Nat} (hv : v < 2 ^ 20) : v / 1024 < 1024 := by omega

end Walk

/-! ## Tables that are frames of their own -/

structure Tree (m : Phys) (dir : Nat) : Prop where
  off : ∀ s < 1024, isPresent (m dir s) = true → frameOf (m dir s) ≠ dir
  inj : ∀ s < 1024, ∀ s' < 1024, isPresent (m dir s) = true → isPresent (m dir s') = true →
    frameOf (m dir s) = frameOf (m dir s') → s = s'

section Tree

variable {m : Phys} {dir s t e i u v w : Nat}

theorem Tree.store_dir (h : Tree m dir) (hs : s < 1024) (hp : isPresent (m dir s) = true) :
    m.store (frameOf (m dir s)) i w dir = m dir :=
  Phys.store_frame (h.off s hs hp).symm

theorem Tree.store (h : Tree m dir) (hs : s < 1024) (hp : isPresent (m dir s) = true) :
    Tree (m.store (frameOf (m dir s)) i w) dir := by
  have hd := h.store_dir (i := i) (w := w) hs hp
  exact ⟨by rw [hd]; exact h.off, by rw [hd]; exact h.inj⟩

/-- **One table entry**: the walk of its page changes and no other. -/
theorem Tree.walk_store (h : Tree m dir) (hv : v < 2 ^ 20)
    (hp : isPresent (m dir (v / 1024)) = true) (w : Nat) (hu : u < 2 ^ 20) :
    walk (m.store (frameOf (m dir (v / 1024))) (v % 1024) w) dir u =
      if u = v then if isPresent w then some (m dir (v / 1024), w) else none
      else walk m dir u := by
  have hd := h.store_dir (i := v % 1024) (w := w) (page_slot hv) hp
  by_cases huv : u = v
  · subst huv
    rw [if_pos rfl]
    unfold walk
    simp only [hd, hp, ↓reduceIte, Phys.store_same]
  · rw [if_neg huv]
    refine walk_congr (by rw [hd]) fun hp' => ?_
    by_cases hf : frameOf (m dir (u / 1024)) = frameOf (m dir (v / 1024))
    · have hslot := h.inj _ (page_slot hu) _ (page_slot hv) hp' hp hf
      rw [Phys.store_index fun hidx => huv (by
        rw [← page_split u, ← page_split v, hslot, hidx])]
    · rw [Phys.store_frame hf]

/-- Memory once frame `t`, cleared, is the table of slot `s`. -/
def enter (m : Phys) (dir t s e : Nat) : Phys := (m.fill t 0 1024).store dir s e

theorem enter_dir (ht : t ≠ dir) (hu : u ≠ s) : enter m dir t s e dir u = m dir u := by
  unfold enter
  rw [Phys.store_index hu, Phys.fill_frame ht.symm]

theorem enter_self : enter m dir t s e dir s = e := Phys.store_same _ _ _ _

theorem enter_frame {g : Nat} (h1 : g ≠ dir) (h2 : g ≠ t) : enter m dir t s e g = m g := by
  unfold enter
  rw [Phys.store_frame h1, Phys.fill_frame h2]

theorem enter_clear (ht : t ≠ dir) (hi : i < 1024) : enter m dir t s e t i = 0 := by
  unfold enter
  rw [Phys.store_frame ht, Phys.fill_in hi]

/-- No table of `dir`, and not `dir` itself. -/
def OffTree (m : Phys) (dir f : Nat) : Prop :=
  f ≠ dir ∧ ∀ s < 1024, isPresent (m dir s) = true → frameOf (m dir s) ≠ f

/-- **A new table** maps nothing and leaves the other walks alone. -/
theorem Tree.walk_enter (h : Tree m dir) (ht : OffTree m dir t) (he : frameOf e = t)
    (habs : isPresent (m dir s) = false) (hu : u < 2 ^ 20) :
    walk (enter m dir t s e) dir u = walk m dir u := by
  by_cases hus : u / 1024 = s
  · have habs' : walk m dir u = none := walk_absent (by rw [hus]; exact habs)
    rw [habs']
    unfold walk
    simp only [hus, enter_self]
    split
    · rw [he, enter_clear ht.1 (by omega)]; rfl
    · rfl
  · refine walk_congr (enter_dir ht.1 hus) fun hp => ?_
    rw [enter_frame (h.off _ (page_slot hu) hp) (ht.2 _ (page_slot hu) hp)]

theorem Tree.enter (h : Tree m dir) (ht : OffTree m dir t) (he : frameOf e = t) :
    Tree (Base.enter m dir t s e) dir := by
  refine ⟨fun u hu hp => ?_, fun u hu u' hu' hp hp' heq => ?_⟩
  · by_cases hus : u = s
    · rw [hus, enter_self, he]; exact ht.1
    · rw [enter_dir ht.1 hus] at hp ⊢
      exact h.off u hu hp
  · by_cases hus : u = s
    · by_cases hus' : u' = s
      · rw [hus, hus']
      · rw [enter_dir ht.1 hus'] at hp' heq
        rw [hus, enter_self, he] at heq
        exact absurd heq.symm (ht.2 u' hu' hp')
    · rw [enter_dir ht.1 hus] at hp heq
      by_cases hus' : u' = s
      · rw [hus', enter_self, he] at heq
        exact absurd heq (ht.2 u hu hp)
      · rw [enter_dir ht.1 hus'] at hp' heq
        exact h.inj u hu u' hu' hp hp' heq

end Tree

/-! ## Memory with the same tables -/

/-- `m'` is `m` off the tables of `dir`. -/
def SameTree (m m' : Phys) (dir : Nat) : Prop := ∀ g, ¬ OffTree m dir g → m' g = m g

section SameTree

variable {m m' m'' : Phys} {dir f i s u w : Nat}

theorem SameTree.refl (m : Phys) (dir : Nat) : SameTree m m dir := fun _ _ => rfl

theorem SameTree.entries (h : SameTree m m' dir) : m' dir = m dir := h dir fun ho => ho.1 rfl

theorem SameTree.table (h : SameTree m m' dir) (hs : s < 1024) (hp : isPresent (m dir s) = true) :
    m' (frameOf (m dir s)) = m (frameOf (m dir s)) := h _ fun ho => ho.2 s hs hp rfl

theorem SameTree.walk_eq (h : SameTree m m' dir) (hu : u < 2 ^ 20) :
    walk m' dir u = walk m dir u :=
  walk_congr (by rw [h.entries]) fun hp => by rw [h.table (page_slot hu) hp]

theorem SameTree.offTree_iff (h : SameTree m m' dir) : OffTree m' dir f ↔ OffTree m dir f := by
  unfold OffTree
  rw [h.entries]

theorem SameTree.trans (h : SameTree m m' dir) (h' : SameTree m' m'' dir) : SameTree m m'' dir :=
  fun g hg => (h' g fun ho => hg (h.offTree_iff.mp ho)).trans (h g hg)

theorem OffTree.same (ho : OffTree m dir f) (hout : ∀ g ≠ f, m' g = m g) : SameTree m m' dir :=
  fun g hg => hout g fun heq => hg (heq ▸ ho)

theorem OffTree.store (ho : OffTree m dir f) : SameTree m (m.store f i w) dir :=
  ho.same fun _ hg => Phys.store_frame hg

end SameTree

end TupleOS.Base
