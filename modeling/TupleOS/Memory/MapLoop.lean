import TupleOS.Memory.MapStep

/-!
# The loops of `vmm_map_region`, page by page

Page `k` of a range takes a frame, and one more when its table is missing and no
page before it has made it (`NewTable`), so the frame that each page gets is known
from the state before the call (`pageFrame`). `PagesIn` is the state of the mapping
loop after `i` pages, `Undone` that of the rollback after `j` of them. The loop goes
on while there are frames and every table that has to be made can be
(`TableServed`); where there is no frame for a table, zeroing the page faults
(`PagesIn.faults`).
-/

namespace TupleOS.Memory

open TupleOS.Base

def pageNo (vaddr k : Nat) : Nat := pageAddr vaddr k / pageSize

/-- The table of page `k` is missing, and no page before `k` is under it. -/
def NewTable (L : Layout) (m : Phys) (vaddr k : Nat) : Prop :=
  isPresent (pdeAt L m (pageNo vaddr k)) = false ∧
    ∀ j < k, pageNo vaddr j / 1024 ≠ pageNo vaddr k / 1024

instance (L : Layout) (m : Phys) (vaddr k : Nat) : Decidable (NewTable L m vaddr k) :=
  inferInstanceAs (Decidable (_ ∧ _))

/-- The tables that the first `k` pages need. -/
def newTables (L : Layout) (m : Phys) (vaddr : Nat) : Nat → Nat
  | 0 => 0
  | k + 1 => newTables L m vaddr k + if NewTable L m vaddr k then 1 else 0

def pageFrame (L : Layout) (M : Machine) (vaddr k : Nat) : Nat :=
  frameAfter M.pmm (k + newTables L M.phys vaddr k)

/-- The frame that a table made for page `k` gets. -/
def newTableFrame (L : Layout) (M : Machine) (vaddr k : Nat) : Nat :=
  frameAfter M.pmm (k + newTables L M.phys vaddr k + 1)

/-- If page `k` needs a new table, there is a frame for it, reached at a page outside
the first `n` of the range. -/
def TableServed (L : Layout) (M : Machine) (vaddr n k : Nat) : Prop :=
  NewTable L M.phys vaddr k → newTableFrame L M vaddr k ≠ 0 ∧
    M.Reaches (frameOf (newTableFrame L M vaddr k)) ∧
    ∀ j < n, pageNo vaddr j ≠ windowPage (frameOf (newTableFrame L M vaddr k))

section Pages

variable {L : Layout} {m : Phys} {vaddr j k n : Nat}

theorem pageAddr_lt (vaddr k : Nat) : pageAddr vaddr k < 2 ^ 32 := w32_lt _

theorem pageNo_lt (vaddr k : Nat) : pageNo vaddr k < 2 ^ 20 := va_page_lt (pageAddr_lt vaddr k)

theorem pageAddr_aligned (h : vaddr % pageSize = 0) (k : Nat) :
    pageAddr vaddr k % pageSize = 0 := by
  unfold pageAddr w32 pageSize at *
  omega

theorem pageNo_inj (hal : vaddr % pageSize = 0) (hj : j < 2 ^ 20) (hk : k < 2 ^ 20)
    (h : pageNo vaddr j = pageNo vaddr k) : j = k := by
  unfold pageNo pageAddr w32 pageSize at *
  omega

theorem newTables_mono (L : Layout) (m : Phys) (vaddr : Nat) (h : j ≤ k) :
    newTables L m vaddr j ≤ newTables L m vaddr k := by
  induction k, h using Nat.le_induction with
  | base => exact Nat.le_refl _
  | succ k _ ih =>
    exact Nat.le_trans ih (Nat.le_add_right _ _)

theorem newTables_succ (h : NewTable L m vaddr k) :
    newTables L m vaddr (k + 1) = newTables L m vaddr k + 1 := by
  rw [newTables, if_pos h]

theorem newTables_same (h : ¬ NewTable L m vaddr k) :
    newTables L m vaddr (k + 1) = newTables L m vaddr k := by
  rw [newTables, if_neg h, Nat.add_zero]

theorem newTables_none (h : ∀ j < k, ¬ NewTable L m vaddr j) : newTables L m vaddr k = 0 := by
  induction k with
  | zero => rfl
  | succ k ih => rw [newTables_same (h k (Nat.lt_succ_self k)), ih fun j hj => h j (by omega)]

end Pages

/-- The machine after `i` pages of the mapping loop, from `M₀`. No table is reached
through the first `n` pages of the range. -/
structure PagesIn (L : Layout) (M₀ : Machine) (vaddr pf n i : Nat) (M : Machine) : Prop where
  tabled : Tabled L M
  off : ∀ k < n, OffTables L M.phys (pageNo vaddr k)
  cr3 : M.cr3 = M₀.cr3
  pmm : M.pmm = allocs M₀.pmm (i + newTables L M₀.phys vaddr i)
  present : ∀ v < 2 ^ 20, isPresent (pdeAt L M.phys v) = true ↔
    isPresent (pdeAt L M₀.phys v) = true ∨ ∃ k < i, pageNo vaddr k / 1024 = v / 1024
  slots : ∀ s, isPresent (M₀.phys (pdFrame L) s) = true →
    M.phys (pdFrame L) s = M₀.phys (pdFrame L) s
  others : ∀ u < 2 ^ 20, (∀ k < i, u ≠ pageNo vaddr k) →
    walk M.phys (pdFrame L) u = walk M₀.phys (pdFrame L) u
  served : ∀ k < i, pageFrame L M₀ vaddr k ≠ 0
  mapped : ∀ k < i, ∃ pde, walk M.phys (pdFrame L) (pageNo vaddr k) =
    some (pde, pteFor (pageFrame L M₀ vaddr k) pf)
  data : ∀ k < i, ¬ TableFrame L M.phys (frameOf (pageFrame L M₀ vaddr k))
  zero : ∀ k < i, ∀ w < pageEntries, M.phys (frameOf (pageFrame L M₀ vaddr k)) w = 0
  tables : ∀ g, TableFrame L M.phys g → TableFrame L M₀.phys g ∨ M₀.pmm.Free g
  keeps : ∀ g, ¬ TableFrame L M₀.phys g → ¬ M₀.pmm.Free g → M.phys g = M₀.phys g

section Loop

variable {L : Layout} {M₀ M : Machine} {vaddr pf n i : Nat}

theorem PagesIn.start (pf : Nat) (h : Tabled L M₀)
    (hoff : ∀ k < n, OffTables L M₀.phys (pageNo vaddr k)) :
    PagesIn L M₀ vaddr pf n 0 M₀ where
  tabled := h
  off := hoff
  cr3 := rfl
  pmm := rfl
  present _ _ := ⟨.inl, fun h => h.elim id fun ⟨_, hk, _⟩ => absurd hk (Nat.not_lt_zero _)⟩
  slots _ _ := rfl
  others _ _ _ := rfl
  served _ hk := absurd hk (Nat.not_lt_zero _)
  mapped _ hk := absurd hk (Nat.not_lt_zero _)
  data _ hk := absurd hk (Nat.not_lt_zero _)
  zero _ hk := absurd hk (Nat.not_lt_zero _)
  tables _ hg := .inl hg
  keeps _ _ _ := rfl

theorem PagesIn.newTable_iff (h : PagesIn L M₀ vaddr pf n i M) :
    NewTable L M₀.phys vaddr i ↔ isPresent (pdeAt L M.phys (pageNo vaddr i)) = false := by
  rw [Bool.eq_false_iff, ne_eq, h.present _ (pageNo_lt vaddr i)]
  unfold NewTable
  rw [Bool.eq_false_iff]
  constructor
  · rintro ⟨hp, hj⟩ (hp' | ⟨k, hk, heq⟩)
    · exact hp hp'
    · exact hj k hk heq
  · exact fun hno => ⟨fun hp => hno (.inl hp), fun j hj heq => hno (.inr ⟨j, hj, heq⟩)⟩

theorem PagesIn.frame_eq (h : PagesIn L M₀ vaddr pf n i M) :
    (pmmAllocFrame M.pmm).1 = pageFrame L M₀ vaddr i := by
  rw [h.pmm]
  rfl

theorem PagesIn.next_pmm (h : PagesIn L M₀ vaddr pf n i M) :
    (pmmAllocFrame M.pmm).2 = allocs M₀.pmm (i + newTables L M₀.phys vaddr i + 1) := by
  rw [h.pmm]
  rfl

theorem pageFrame_spec {k : Nat} (h₀ : M₀.pmm.Sound) (hne : pageFrame L M₀ vaddr k ≠ 0) :
    pageFrame L M₀ vaddr k = frameOf (pageFrame L M₀ vaddr k) * pageSize ∧
    frameOf (pageFrame L M₀ vaddr k) < 32784 ∧ frameOf (pageFrame L M₀ vaddr k) ≠ 0 ∧
    M₀.pmm.Free (frameOf (pageFrame L M₀ vaddr k)) := by
  obtain ⟨hfree, hlt, hf0⟩ := frameAfter_free h₀ hne (Nat.zero_le _)
  rcases frameAfter_cases h₀ (k + newTables L M₀.phys vaddr k) with ⟨h0, -⟩ | ⟨-, heq, -⟩
  · exact absurd h0 hne
  · exact ⟨heq, hlt, hf0, hfree⟩

theorem pageFrame_ne {c k : Nat} (h₀ : M₀.pmm.Sound) (hc : frameAfter M₀.pmm c ≠ 0)
    (hk : k + newTables L M₀.phys vaddr k < c) :
    frameOf (pageFrame L M₀ vaddr k) ≠ frameOf (frameAfter M₀.pmm c) :=
  (frameAfter_ne h₀ hc hk).symm

theorem pageCalls_lt {k : Nat} (hk : k < i) :
    k + newTables L M₀.phys vaddr k < i + newTables L M₀.phys vaddr i := by
  have := newTables_mono L M₀.phys vaddr (Nat.le_of_lt hk)
  omega

theorem PagesIn.fresh (h : PagesIn L M₀ vaddr pf n i M) (h₀ : M₀.pmm.Sound)
    (hne : pageFrame L M₀ vaddr i ≠ 0) :
    ¬ TableFrame L M.phys (frameOf (pageFrame L M₀ vaddr i)) := by
  obtain ⟨hfree, hlt, -⟩ := frameAfter_free h₀ hne (Nat.le_refl _)
  rw [← h.pmm] at hfree
  exact h.tabled.fresh _ hlt hfree

theorem PagesIn.addPage (h : PagesIn L M₀ vaddr pf n i M) (h₀ : Tabled L M₀)
    (hal : vaddr % pageSize = 0) (hi : i < n) (hne : pageFrame L M₀ vaddr i ≠ 0)
    (hserved : TableServed L M₀ vaddr n i) :
    ∃ M₁ M₂, pagingMapPage machMem L (M.withPmm (pmmAllocFrame M.pmm).2) (pageAddr vaddr i)
        (pageFrame L M₀ vaddr i) pf = some M₁ ∧
      fillWords machMem M₁ (pageAddr vaddr i) 0 pageEntries = some M₂ ∧
      PageAdded L (M.withPmm (pmmAllocFrame M.pmm).2) M₂ (pageNo vaddr i)
        (pteFor (pageFrame L M₀ vaddr i) pf) := by
  refine Tabled.addPage (h.tabled.withPmm ?_ ?_) pf (pageAddr_lt vaddr i)
    (pageAddr_aligned hal i) ?_ (h.fresh h₀.sound hne) ?_ (h.off i hi) fun hp => ?_
  · exact allocs_sound h.tabled.sound 1
  · exact fun f hf hfree => h.tabled.fresh f hf ((allocs_free h.tabled.sound f 1).mp hfree).1
  · have hlt := (pageFrame_spec h₀.sound hne).2.1
    unfold frameOf at hlt
    omega
  · rw [h.next_pmm]
    exact fun hf => ((allocs_free h₀.sound _ _).mp hf).2 _ (Nat.lt_succ_self _) hne rfl
  · obtain ⟨h1, h2, h3⟩ := hserved (h.newTable_iff.mpr hp)
    have hframe : (pmmAllocFrame (pmmAllocFrame M.pmm).2).1 = newTableFrame L M₀ vaddr i := by
      rw [h.next_pmm]
      rfl
    unfold CanMakeTable
    rw [show (M.withPmm (pmmAllocFrame M.pmm).2).pmm = (pmmAllocFrame M.pmm).2 from rfl, hframe]
    refine ⟨h1, ?_, (h3 i hi).symm⟩
    refine h2.of_walk h₀.active h.cr3 (h.others _ (windowPage_lt _) fun k hk => ?_)
    exact (h3 k (by omega)).symm

section Snoc

variable {M₂ : Machine}

theorem PagesIn.snoc_pmm (h : PagesIn L M₀ vaddr pf n i M)
    (e : PageAdded L (M.withPmm (pmmAllocFrame M.pmm).2) M₂ (pageNo vaddr i)
      (pteFor (pageFrame L M₀ vaddr i) pf)) :
    M₂.pmm = allocs M₀.pmm (i + 1 + newTables L M₀.phys vaddr (i + 1)) := by
  have hpmm : M₂.pmm = if isPresent (pdeAt L M.phys (pageNo vaddr i)) then (pmmAllocFrame M.pmm).2
    else (pmmAllocFrame (pmmAllocFrame M.pmm).2).2 := e.pmm
  rw [hpmm, h.next_pmm]
  by_cases hnew : NewTable L M₀.phys vaddr i
  · rw [if_neg (Bool.eq_false_iff.mp (h.newTable_iff.mp hnew)), newTables_succ hnew,
      show i + 1 + (newTables L M₀.phys vaddr i + 1) = i + newTables L M₀.phys vaddr i + 1 + 1 by
        omega]
    rfl
  · rw [if_pos (by simpa using mt h.newTable_iff.mpr hnew), newTables_same hnew,
      Nat.add_right_comm]

theorem PagesIn.snoc_tables (h : PagesIn L M₀ vaddr pf n i M)
    (e : PageAdded L (M.withPmm (pmmAllocFrame M.pmm).2) M₂ (pageNo vaddr i)
      (pteFor (pageFrame L M₀ vaddr i) pf)) {g : Nat} (hg : TableFrame L M₂.phys g) :
    TableFrame L M.phys g ∨
      (NewTable L M₀.phys vaddr i ∧ g = frameOf (newTableFrame L M₀ vaddr i)) := by
  rcases e.tables g hg with hg | ⟨hp, heq⟩
  · exact .inl hg
  · refine .inr ⟨h.newTable_iff.mpr hp, ?_⟩
    have hpmm : (M.withPmm (pmmAllocFrame M.pmm).2).pmm = (pmmAllocFrame M.pmm).2 := rfl
    rw [hpmm, h.next_pmm] at heq
    exact heq

theorem PagesIn.snoc_present (h : PagesIn L M₀ vaddr pf n i M)
    (e : PageAdded L (M.withPmm (pmmAllocFrame M.pmm).2) M₂ (pageNo vaddr i)
      (pteFor (pageFrame L M₀ vaddr i) pf)) {v : Nat} (hv : v < 2 ^ 20) :
    isPresent (pdeAt L M₂.phys v) = true ↔
      isPresent (pdeAt L M₀.phys v) = true ∨ ∃ k < i + 1, pageNo vaddr k / 1024 = v / 1024 := by
  by_cases hs : pageNo vaddr i / 1024 = v / 1024
  · obtain ⟨pde, hw⟩ := e.here
    obtain ⟨h1, h2, -⟩ := walk_some.mp hw
    rw [hs] at h1
    refine ⟨fun _ => .inr ⟨i, Nat.lt_succ_self i, hs⟩, fun _ => ?_⟩
    unfold pdeAt
    rw [h1]
    exact h2
  · have heq : pdeAt L M₂.phys v = pdeAt L M.phys v := e.slots _ (.inl (Ne.symm hs))
    rw [heq, h.present v hv]
    refine or_congr_right ⟨fun ⟨k, hk, hks⟩ => ⟨k, Nat.lt_succ_of_lt hk, hks⟩, ?_⟩
    rintro ⟨k, hk, hks⟩
    rcases Nat.lt_succ_iff_lt_or_eq.mp hk with hk | rfl
    · exact ⟨k, hk, hks⟩
    · exact absurd hks hs

/-- **One page of the mapping loop.** -/
theorem PagesIn.snoc (h : PagesIn L M₀ vaddr pf n i M) (h₀ : M₀.pmm.Sound)
    (hal : vaddr % pageSize = 0) (hi : i < n) (hn : n ≤ 2 ^ 20) (hne : pageFrame L M₀ vaddr i ≠ 0)
    (hserved : TableServed L M₀ vaddr n i)
    (e : PageAdded L (M.withPmm (pmmAllocFrame M.pmm).2) M₂ (pageNo vaddr i)
      (pteFor (pageFrame L M₀ vaddr i) pf)) : PagesIn L M₀ vaddr pf n (i + 1) M₂ := by
  have hframe := (pteFor_spec (pageFrame L M₀ vaddr i) pf).1
  have hlast : ∀ {P : Nat → Prop}, (∀ k < i, P k) → P i → ∀ k < i + 1, P k := fun h1 h2 k hk => by
    rcases Nat.lt_succ_iff_lt_or_eq.mp hk with hk | rfl
    · exact h1 k hk
    · exact h2
  have htaken : ∀ g, (pmmAllocFrame M.pmm).2.Free g → M₀.pmm.Free g ∧
      ∀ k ≤ i, pageFrame L M₀ vaddr k ≠ 0 → g ≠ frameOf (pageFrame L M₀ vaddr k) := by
    intro g hg
    rw [h.next_pmm, allocs_free h₀] at hg
    refine ⟨hg.1, fun k hk => hg.2 _ ?_⟩
    rcases Nat.lt_or_eq_of_le hk with hk | rfl
    · exact Nat.lt_succ_of_lt (pageCalls_lt hk)
    · exact Nat.lt_succ_self _
  exact {
    tabled := e.tabled
    cr3 := e.cr3.trans h.cr3
    pmm := h.snoc_pmm e
    present := fun v hv => h.snoc_present e hv
    served := hlast h.served hne
    off := fun k hk g hg => by
      rcases h.snoc_tables e hg with hg | ⟨hnew, rfl⟩
      · exact h.off k hk g hg
      · exact ((hserved hnew).2.2 k hk).symm
    slots := fun s hs => by
      have hM := h.slots s hs
      exact (e.slots s (.inr (hM.symm ▸ hs))).trans hM
    others := fun u hu huk => by
      rw [← h.others u hu fun k hk => huk k (Nat.lt_succ_of_lt hk)]
      exact e.others u hu (huk i (Nat.lt_succ_self i))
    mapped := hlast (fun k hk => by
      obtain ⟨pde, hw⟩ := h.mapped k hk
      refine ⟨pde, (e.others _ (pageNo_lt vaddr k) fun heq => ?_).trans hw⟩
      have := pageNo_inj hal (by omega) (by omega) heq
      omega) e.here
    data := by
      refine hlast (fun k hk hg => ?_) fun hg => ?_
      · rcases h.snoc_tables e hg with hg | ⟨hnew, heq⟩
        · exact h.data k hk hg
        · exact pageFrame_ne h₀ (hserved hnew).1 (Nat.lt_succ_of_lt (pageCalls_lt hk)) heq
      · rcases h.snoc_tables e hg with hg | ⟨hnew, heq⟩
        · exact h.fresh h₀ hne hg
        · exact pageFrame_ne h₀ (hserved hnew).1 (Nat.lt_succ_self _) heq
    zero := by
      refine hlast (fun k hk w hw => ?_) (by rw [← hframe]; exact e.zero)
      rw [e.keeps _ (by rw [hframe]; exact pageFrame_ne h₀ hne (pageCalls_lt hk)) (h.data k hk)
        fun hg => (htaken _ hg).2 k (Nat.le_of_lt hk) (h.served k hk) rfl]
      exact h.zero k hk w hw
    tables := fun g hg => by
      rcases h.snoc_tables e hg with hg | ⟨hnew, rfl⟩
      · exact h.tables g hg
      · exact .inr (frameAfter_free h₀ (hserved hnew).1 (Nat.zero_le _)).1
    keeps := fun g hg hgf => by
      have hgi : g ≠ frameOf (pageFrame L M₀ vaddr i) := fun heq =>
        hgf (heq ▸ (pageFrame_spec h₀ hne).2.2.2)
      rw [e.keeps g (by rw [hframe]; exact hgi) (fun ht => (h.tables g ht).elim hg hgf)
        fun hf => hgf (htaken g hf).1]
      exact h.keeps g hg hgf }

end Snoc

/-! ## The mapping loop -/

theorem mapPages_succ (L : Layout) (M : Machine) (vaddr pf i c : Nat) :
    mapPages L M vaddr pf i (c + 1) =
      if (pmmAllocFrame M.pmm).1 = 0 then
        (undoPages L (M.withPmm (pmmAllocFrame M.pmm).2) vaddr 0 i).bind fun m => some (false, m)
      else (pagingMapPage machMem L (M.withPmm (pmmAllocFrame M.pmm).2) (pageAddr vaddr i)
        (pmmAllocFrame M.pmm).1 pf).bind fun m =>
          (fillWords machMem m (pageAddr vaddr i) 0 pageEntries).bind fun m =>
            mapPages L m vaddr pf (i + 1) c := rfl

theorem PagesIn.next {c : Nat} (h : PagesIn L M₀ vaddr pf n i M) (h₀ : Tabled L M₀)
    (hal : vaddr % pageSize = 0) (hn : n ≤ 2 ^ 20) (hi : i < n) (hne : pageFrame L M₀ vaddr i ≠ 0)
    (hserved : TableServed L M₀ vaddr n i) :
    ∃ M₂, PagesIn L M₀ vaddr pf n (i + 1) M₂ ∧
      mapPages L M vaddr pf i (c + 1) = mapPages L M₂ vaddr pf (i + 1) c := by
  obtain ⟨M₁, M₂, hmap, hfill, e⟩ := h.addPage h₀ hal hi hne hserved
  refine ⟨M₂, h.snoc h₀.sound hal hi hn hne hserved e, ?_⟩
  rw [mapPages_succ, h.frame_eq, if_neg hne, hmap, Option.bind_some, hfill, Option.bind_some]

theorem PagesIn.stops {c : Nat} (h : PagesIn L M₀ vaddr pf n i M) (h₀ : M₀.pmm.Sound)
    (h0 : pageFrame L M₀ vaddr i = 0) :
    mapPages L M vaddr pf i (c + 1) = (undoPages L M vaddr 0 i).bind fun m => some (false, m) := by
  have hpmm : (pmmAllocFrame M.pmm).2 = M.pmm := by
    rcases frameAfter_cases h₀ (i + newTables L M₀.phys vaddr i) with ⟨-, he⟩ | ⟨hne, -⟩
    · rw [h.next_pmm, he, h.pmm]
    · exact absurd h0 hne
  rw [mapPages_succ, h.frame_eq, if_pos h0, hpmm]
  rfl

/-- **The mapping loop**: every page is mapped, or there is no frame for page `j`. -/
theorem PagesIn.mapPages (h₀ : Tabled L M₀) (hal : vaddr % pageSize = 0) (hn : n ≤ 2 ^ 20) {c : Nat}
    (h : PagesIn L M₀ vaddr pf n i M)
    (hlt : ∀ k < i + c, pageFrame L M₀ vaddr k ≠ 0 → k < n)
    (hserved : ∀ k < i + c, pageFrame L M₀ vaddr k ≠ 0 → TableServed L M₀ vaddr n k) :
    (∃ M', Memory.mapPages L M vaddr pf i c = some (true, M') ∧
      PagesIn L M₀ vaddr pf n (i + c) M') ∨
    ∃ j M₁, j < i + c ∧ PagesIn L M₀ vaddr pf n j M₁ ∧ pageFrame L M₀ vaddr j = 0 ∧
      Memory.mapPages L M vaddr pf i c = (undoPages L M₁ vaddr 0 j).bind fun m =>
        some (false, m) := by
  induction c generalizing i M with
  | zero => exact .inl ⟨M, rfl, h⟩
  | succ c ih =>
    by_cases h0 : pageFrame L M₀ vaddr i = 0
    · exact .inr ⟨i, M, by omega, h, h0, h.stops h₀.sound h0⟩
    · obtain ⟨M₂, h₂, he⟩ := h.next (c := c) h₀ hal hn (hlt i (by omega) h0) h0
        (hserved i (by omega) h0)
      rw [he, show i + (c + 1) = i + 1 + c by omega]
      exact ih h₂ (fun k hk => hlt k (by omega)) fun k hk => hserved k (by omega)

/-- `PHYS_TO_VIRT` of a frame that becomes a table for the range is mapped to that frame or
not at all, and is off the range. -/
def NotAliased (L : Layout) (M : Machine) (vaddr n : Nat) : Prop :=
  ∀ k < n, NewTable L M.phys vaddr k → newTableFrame L M vaddr k ≠ 0 →
    (M.Reaches (frameOf (newTableFrame L M vaddr k)) ∨
      walk M.phys (pdFrame L) (windowPage (frameOf (newTableFrame L M vaddr k))) = none) ∧
    ∀ j < n, pageNo vaddr j ≠ windowPage (frameOf (newTableFrame L M vaddr k))

theorem PagesIn.faults {c : Nat} (h : PagesIn L M₀ vaddr pf n i M)
    (hne : pageFrame L M₀ vaddr i ≠ 0) (hnew : NewTable L M₀.phys vaddr i)
    (hbad : newTableFrame L M₀ vaddr i = 0 ∨
      (walk M.phys (pdFrame L) (windowPage (frameOf (newTableFrame L M₀ vaddr i))) = none)) :
    Memory.mapPages L M vaddr pf i (c + 1) = none := by
  have hp := h.newTable_iff.mp hnew
  have htabled : Tabled L (M.withPmm (pmmAllocFrame M.pmm).2) :=
    h.tabled.withPmm (allocs_sound h.tabled.sound 1) fun f hf hfree =>
      h.tabled.fresh f hf ((allocs_free h.tabled.sound f 1).mp hfree).1
  have hframe : (pmmAllocFrame (pmmAllocFrame M.pmm).2).1 = newTableFrame L M₀ vaddr i := by
    rw [h.next_pmm]
    rfl
  rw [mapPages_succ, h.frame_eq, if_neg hne]
  by_cases h0 : newTableFrame L M₀ vaddr i = 0
  · -- nothing is mapped, so the first word of the page faults
    have hfill : fillWords machMem (M.withPmm (pmmAllocFrame M.pmm).2) (pageAddr vaddr i) 0
        (1023 + 1) = none := by
      refine fillWords_fault ?_ 0 1023
      rw [htabled.active]
      exact walk_absent hp
    rw [htabled.mapPage_noTable (pageFrame L M₀ vaddr i) pf (pageAddr_lt vaddr i) hp
      (hframe.trans h0), Option.bind_some, show pageEntries = 1023 + 1 from rfl, hfill]
    rfl
  · have hw := hbad.resolve_left h0
    rw [← hframe] at hw
    rw [htabled.mapPage_fault (pageFrame L M₀ vaddr i) pf (pageAddr_lt vaddr i) hp
      (fun h => h0 (hframe.symm.trans h)) hw]
    rfl

/-- **A loop that returns** had a table for every page. -/
theorem PagesIn.served_of_some (h₀ : Tabled L M₀) (hal : vaddr % pageSize = 0) (hn : n ≤ 2 ^ 20)
    (hna : NotAliased L M₀ vaddr n) {c : Nat} (h : PagesIn L M₀ vaddr pf n i M) (hc : i + c ≤ n)
    (hsome : Memory.mapPages L M vaddr pf i c ≠ none) {k : Nat} (hik : i ≤ k) (hk : k < i + c)
    (hne : pageFrame L M₀ vaddr k ≠ 0) : TableServed L M₀ vaddr n k := by
  induction c generalizing i M with
  | zero => omega
  | succ c ih =>
    have hnei : pageFrame L M₀ vaddr i ≠ 0 := by
      rcases Nat.lt_or_eq_of_le hik with hlt | rfl
      · exact frameAfter_ne_zero h₀.sound hne (Nat.le_of_lt (pageCalls_lt hlt))
      · exact hne
    have hserved : TableServed L M₀ vaddr n i := by
      intro hnew
      by_cases h0 : newTableFrame L M₀ vaddr i = 0
      · exact absurd (h.faults hnei hnew (.inl h0)) hsome
      · obtain ⟨hreach, hoff⟩ := hna i (by omega) hnew h0
        refine ⟨h0, hreach.resolve_right fun hw => hsome ?_, hoff⟩
        refine h.faults hnei hnew (.inr ((h.others _ (windowPage_lt _) fun j hj => ?_).trans hw))
        exact (hoff j (by omega)).symm
    rcases Nat.lt_or_eq_of_le hik with hlt | rfl
    · obtain ⟨M₂, h₂, he⟩ := h.next (c := c) h₀ hal hn (by omega) hnei hserved
      rw [he] at hsome
      exact ih h₂ (by omega) hsome hlt (by omega)
    · exact hserved

/-! ## The rollback -/

/-- The machine after the rollback of the first `j` pages, from `M₁`. -/
structure Undone (L : Layout) (M₀ M₁ : Machine) (vaddr j : Nat) (M : Machine) : Prop where
  tabled : Tabled L M
  cr3 : M.cr3 = M₁.cr3
  dir : M.phys (pdFrame L) = M₁.phys (pdFrame L)
  gone : ∀ k < j, walk M.phys (pdFrame L) (pageNo vaddr k) = none
  others : ∀ u < 2 ^ 20, (∀ k < j, u ≠ pageNo vaddr k) →
    walk M.phys (pdFrame L) u = walk M₁.phys (pdFrame L) u
  free : ∀ g, M.pmm.Free g ↔
    M₁.pmm.Free g ∨ ∃ k < j, g = frameOf (pageFrame L M₀ vaddr k)
  keeps : ∀ g, ¬ TableFrame L M₁.phys g → M.phys g = M₁.phys g

theorem Undone.start {M₁ : Machine} (h : Tabled L M₁) : Undone L M₀ M₁ vaddr 0 M₁ where
  tabled := h
  cr3 := rfl
  dir := rfl
  gone _ hk := absurd hk (Nat.not_lt_zero _)
  others _ _ _ := rfl
  free _ := ⟨.inl, fun h => h.elim id fun ⟨_, hk, _⟩ => absurd hk (Nat.not_lt_zero _)⟩
  keeps _ _ := rfl

theorem undoPages_succ (L : Layout) (M : Machine) (vaddr j c : Nat) :
    undoPages L M vaddr j (c + 1) =
      (pagingGetPhysical machMem L M (pageAddr vaddr j)).bind fun phys =>
        (pagingUnmapPage machMem L M (pageAddr vaddr j)).bind fun m =>
          undoPages L (if phys ≠ 0 then m.withPmm (pmmFreeFrame m.pmm (roundDown pageSize phys))
            else m) vaddr (j + 1) c := rfl

/-- **One page of the rollback.** -/
theorem PagesIn.undo_next {M₁ : Machine} {j c : Nat} (h₀ : Tabled L M₀) (hal : vaddr % pageSize = 0)
    (hn : n ≤ 2 ^ 20) (h : PagesIn L M₀ vaddr pf n i M₁) (hin : i ≤ n) (hj : j < i)
    (u : Undone L M₀ M₁ vaddr j M) :
    ∃ M', Undone L M₀ M₁ vaddr (j + 1) M' ∧
      undoPages L M vaddr j (c + 1) = undoPages L M' vaddr (j + 1) c := by
  have hne := h.served j hj
  obtain ⟨hpage, hlt, hf0, -⟩ := pageFrame_spec h₀.sound hne
  -- the page is still mapped to its frame
  have hk : kmap L M.phys (pageNo vaddr j) = some (frameOf (pageFrame L M₀ vaddr j)) := by
    obtain ⟨pde, hw⟩ := h.mapped j hj
    unfold kmap
    rw [u.others _ (pageNo_lt vaddr j) fun k hk heq => by
      have := pageNo_inj hal (by omega) (by omega) heq
      omega, hw, Option.map_some, (pteFor_spec _ _).1]
  have hphys : physOf L M.phys (pageAddr vaddr j) = pageFrame L M₀ vaddr j :=
    (physOf_page (pageAddr_aligned hal j) hk (by omega)).trans hpage.symm
  have hnt : ¬ TableFrame L M.phys (frameOf (pageFrame L M₀ vaddr j)) := fun ht =>
    h.data j hj ((TableFrame.of_dir u.dir).mp ht)
  obtain ⟨M', hunmap, r⟩ := u.tabled.unmapPage (pageAddr_lt vaddr j) fun g hg =>
    h.off j (by omega) g ((TableFrame.of_dir u.dir).mp hg)
  have hfree : ∀ g, (pmmFreeFrame M'.pmm (pageFrame L M₀ vaddr j)).Free g ↔
      M.pmm.Free g ∨ g = frameOf (pageFrame L M₀ vaddr j) := fun g => by
    rw [pmmFreeFrame_free, r.pmm]
    refine or_congr_right ⟨fun hg => hg.1, fun hg => ⟨hg, ?_⟩⟩
    unfold maxFrames
    omega
  refine ⟨M'.withPmm (pmmFreeFrame M'.pmm (pageFrame L M₀ vaddr j)), ?_, ?_⟩
  · exact {
      tabled := by
        refine r.tabled.withPmm ⟨?_, fun hz => ?_⟩ fun f hf hfr ht => ?_
        · rw [pmmFreeFrame_total, r.pmm]; exact u.tabled.sound.total
        · exact ((hfree 0).mp hz).elim u.tabled.sound.zero fun h0 => hf0 h0.symm
        · have ht' := (TableFrame.of_dir r.dir).mp ht
          rcases (hfree f).mp hfr with hfr | rfl
          · exact u.tabled.fresh f hf hfr ht'
          · exact hnt ht'
      cr3 := r.cr3.trans u.cr3
      dir := r.dir.trans u.dir
      gone := fun k hk => by
        by_cases hkj : k = j
        · rw [hkj]; exact r.here
        · refine (r.others _ (pageNo_lt vaddr k) fun heq => hkj ?_).trans (u.gone k (by omega))
          exact pageNo_inj hal (by omega) (by omega) heq
      others := fun v hv hvk =>
        (r.others v hv (hvk j (Nat.lt_succ_self j))).trans
          (u.others v hv fun k hk => hvk k (Nat.lt_succ_of_lt hk))
      free := fun g => by
        refine (hfree g).trans ⟨fun hg => ?_, fun hg => ?_⟩
        · rcases hg with hg | hg
          · exact ((u.free g).mp hg).imp_right fun ⟨k, hk, heq⟩ => ⟨k, Nat.lt_succ_of_lt hk, heq⟩
          · exact .inr ⟨j, Nat.lt_succ_self j, hg⟩
        · rcases hg with hg | ⟨k, hk, heq⟩
          · exact .inl ((u.free g).mpr (.inl hg))
          · rcases Nat.lt_succ_iff_lt_or_eq.mp hk with hk | rfl
            · exact .inl ((u.free g).mpr (.inr ⟨k, hk, heq⟩))
            · exact .inr heq
      keeps := fun g hg =>
        (r.keeps g fun ht => hg ((TableFrame.of_dir u.dir).mp ht)).trans (u.keeps g hg) }
  · have hround : roundDown pageSize (pageFrame L M₀ vaddr j) = pageFrame L M₀ vaddr j := by
      unfold roundDown frameOf pageSize at *
      omega
    rw [undoPages_succ, u.tabled.getPhysical (pageAddr_lt vaddr j), Option.bind_some, hphys, hunmap,
      Option.bind_some, if_pos hne, hround]

/-- **The rollback** of the pages that are mapped. -/
theorem PagesIn.undo {M₁ : Machine} (h₀ : Tabled L M₀) (hal : vaddr % pageSize = 0)
    (hn : n ≤ 2 ^ 20) (h : PagesIn L M₀ vaddr pf n i M₁) (hin : i ≤ n) :
    ∃ M', undoPages L M₁ vaddr 0 i = some M' ∧ Undone L M₀ M₁ vaddr i M' := by
  have hloop : ∀ c j M, Undone L M₀ M₁ vaddr j M → j + c = i →
      ∃ M', undoPages L M vaddr j c = some M' ∧ Undone L M₀ M₁ vaddr i M' := by
    intro c
    induction c with
    | zero =>
      rintro j M u rfl
      exact ⟨M, rfl, u⟩
    | succ c ih =>
      intro j M u hj
      obtain ⟨M', u', he⟩ := h.undo_next (c := c) h₀ hal hn hin (by omega) u
      rw [he]
      exact ih (j + 1) M' u' (by omega)
  exact hloop i 0 M₁ (.start h.tabled) (Nat.zero_add i)

end Loop

end TupleOS.Memory
