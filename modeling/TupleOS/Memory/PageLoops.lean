import TupleOS.Memory.PagingSpec
import TupleOS.Memory.Vmm

/-!
# The page loops of the VMM

`mapPages`, `undoPages` and `releasePages` on a range of pages that no kernel
region covers. Each keeps the machine invariant, leaves every walk outside the
range and every created directory alone, and touches only frames of the range.
-/

namespace TupleOS.Memory

open TupleOS.Base TupleOS.Heap

section Loops

variable {L : Layout} {dirs : List Nat} {M M' : Machine} {vaddr i n : Nat}

/-- The range `i` to `i + n` of pages from `vaddr` is the VMM's to map. -/
structure PageRange (vaddr i n : Nat) : Prop where
  aligned : vaddr % pageSize = 0
  le : vaddr + (i + n) * pageSize ≤ 2 ^ 32
  family : ∀ k, i ≤ k → k < i + n → Family (vaddr / pageSize + k)

theorem PageRange.page (h : PageRange vaddr i n) {k : Nat} (hk : k < i + n) :
    pageAddr vaddr k < 2 ^ 32 ∧ pageAddr vaddr k % pageSize = 0 ∧
    pageAddr vaddr k / pageSize = vaddr / pageSize + k := by
  have h1 := h.aligned
  have h2 := h.le
  have hle : (i + n) * pageSize = (i + n) * 4096 := rfl
  have hk' : k * pageSize = k * 4096 := rfl
  unfold pageAddr
  rw [w32_of_lt (by omega)]
  unfold pageSize at *
  omega

theorem PageRange.tail (h : PageRange vaddr i (n + 1)) : PageRange vaddr (i + 1) n :=
  ⟨h.aligned, by rw [show i + 1 + n = i + (n + 1) by omega]; exact h.le,
    fun k h1 h2 => h.family k (by omega) (by omega)⟩

theorem PageRange.head (h : PageRange vaddr 0 (i + n)) : PageRange vaddr 0 i := by
  refine ⟨h.aligned, Nat.le_trans ?_ h.le, fun k h1 h2 => h.family k h1 (by omega)⟩
  exact Nat.add_le_add_left (Nat.mul_le_mul_right _ (by omega)) _

theorem Family.off_window {v : Nat} (h : Family v) : v < 0xC0100 ∨ 0xC0400 ≤ v := by
  rcases h.2 with h | h <;> omega

/-- What unmapping and freeing a run of pages does. -/
structure ReleaseEffect (L : Layout) (dirs : List Nat) (M M' : Machine) (lo hi : Nat) : Prop where
  inv : MachInv L dirs M'
  here : ∀ u, lo ≤ u → u < hi → kmap L M'.phys u = none ∨ kmap L M'.phys u = some 0
  others : ∀ u < 2 ^ 20, u < lo ∨ hi ≤ u → walk M'.phys (pdFrame L) u = walk M.phys (pdFrame L) u
  slots : M'.phys (pdFrame L) = M.phys (pdFrame L)
  keeps : ∀ d ∈ dirs, M'.phys d = M.phys d
  freed : ∀ g, M'.pmm.Free g → M.pmm.Free g ∨ ∃ u, lo ≤ u ∧ u < hi ∧ kmap L M.phys u = some g
  free : ∀ g, M.pmm.Free g → M'.pmm.Free g

theorem ReleaseEffect.refl (h : MachInv L dirs M) (lo : Nat) : ReleaseEffect L dirs M M lo lo :=
  ⟨h, fun u h1 h2 => by omega, fun _ _ _ => rfl, rfl, fun _ _ => rfl, fun _ hg => .inl hg,
    fun _ hg => hg⟩

theorem ReleaseEffect.trans {M'' : Machine} {lo mid hi : Nat} (h1 : lo ≤ mid) (h2 : mid ≤ hi)
    (hhi : hi ≤ 2 ^ 20) (e1 : ReleaseEffect L dirs M M' lo mid)
    (e2 : ReleaseEffect L dirs M' M'' mid hi) : ReleaseEffect L dirs M M'' lo hi := by
  have hk : ∀ u, u < mid → kmap L M''.phys u = kmap L M'.phys u := fun u hu => by
    unfold kmap; rw [e2.others u (by omega) (.inl hu)]
  have hk' : ∀ u, mid ≤ u → u < hi → kmap L M'.phys u = kmap L M.phys u := fun u hu hu' => by
    unfold kmap; rw [e1.others u (by omega) (.inr hu)]
  refine ⟨e2.inv, fun u hu1 hu2 => ?_, fun u hu hor => ?_, e2.slots.trans e1.slots,
    fun d hd => (e2.keeps d hd).trans (e1.keeps d hd), fun g hg => ?_,
    fun g hg => e2.free g (e1.free g hg)⟩
  · by_cases hum : u < mid
    · rw [hk u hum]; exact e1.here u hu1 hum
    · exact e2.here u (by omega) hu2
  · rw [e2.others u hu (by omega), e1.others u hu (by omega)]
  · rcases e2.freed g hg with hg | ⟨u, hu1, hu2, hm⟩
    · rcases e1.freed g hg with hg | ⟨u, hu1, hu2, hm⟩
      · exact .inl hg
      · exact .inr ⟨u, hu1, by omega, hm⟩
    · exact .inr ⟨u, by omega, hu2, by rw [← hk' u hu1 hu2]; exact hm⟩

/-- Unmapping one page of the family and freeing its frame. -/
theorem MachInv.release_ok (h : MachInv L dirs M) {va a : Nat} (hva : va < 2 ^ 32)
    (hf : Family (va / pageSize)) (hm : kmap L M.phys (va / pageSize) = some (frameOf a))
    (h0 : frameOf a ≠ 0) :
    ∃ M1, pagingUnmapPage machMem L M va = some M1 ∧
      ReleaseEffect L dirs M (M1.withPmm (pmmFreeFrame M1.pmm a)) (va / pageSize)
        (va / pageSize + 1)
    := by
  obtain ⟨M1, he, e⟩ := h.unmapPage_ok hva hf.off_window
  have hk : ∀ u, Family u → u ≠ va / pageSize → kmap L M1.phys u = kmap L M.phys u :=
    fun u hu hne => by
    unfold kmap; rw [e.others u hu.1 hne]
  have hhere : kmap L M1.phys (va / pageSize) = none := by unfold kmap; rw [e.here]; rfl
  refine ⟨M1, he, ⟨e.inv.tables.release fun hmax => ?_, e.inv.cr3⟩, fun u h1 h2 => ?_,
    fun u hu hor => e.others u hu (by omega), e.slots, e.keeps, fun g hg => ?_, fun g hg => ?_⟩
  · -- the frame was this page's alone
    have htab : IsTable L M1.phys (frameOf a) ↔ IsTable L M.phys (frameOf a) := by
      unfold IsTable; rw [e.slots]
    rcases h.tables.data _ _ hf hm with hz | hz | ho
    · exact absurd hz h0
    · omega
    · refine ⟨ho.ge, ho.not_dir, fun ht => ho.not_table (htab.mp ht), fun u hu hmu => ?_⟩
      by_cases huv : u = va / pageSize
      · rw [huv, hhere] at hmu; cases hmu
      · rw [hk u hu huv] at hmu
        exact huv (h.tables.data_inj _ _ _ hu hf hmu hm h0 hmax)
  · obtain rfl : u = va / pageSize := by omega
    exact .inl hhere
  · rcases (pmmFreeFrame_free _ _).mp hg with hg | ⟨rfl, -⟩
    · exact .inl (e.pmm ▸ hg)
    · exact .inr ⟨va / pageSize, by omega, by omega, hm⟩
  · exact (pmmFreeFrame_free _ _).mpr (.inl (e.pmm ▸ hg))

/-- A page of the family maps nothing, or a frame whose address is what
`paging_get_physical` answers. -/
theorem MachInv.physOf_cases (h : MachInv L dirs M) {va : Nat} (hal : va % pageSize = 0)
    (hf : Family (va / pageSize)) :
    (physOf L M.phys va = 0 ∧ (kmap L M.phys (va / pageSize) = none ∨
      kmap L M.phys (va / pageSize) = some 0)) ∨
    (physOf L M.phys va ≠ 0 ∧ frameOf (physOf L M.phys va) ≠ 0 ∧
      kmap L M.phys (va / pageSize) = some (frameOf (physOf L M.phys va)) ∧
      roundDown pageSize (physOf L M.phys va) = physOf L M.phys va) := by
  cases hk : kmap L M.phys (va / pageSize) with
  | none => exact .inl ⟨physOf_none hk, .inl rfl⟩
  | some f =>
    have hlt : f < 2 ^ 20 := by
      rcases h.tables.data _ _ hf hk with rfl | hm | ho
      · decide
      · exact hm.2
      · have := ho.lt; unfold maxFrames at this; omega
    have hp := physOf_page hal hk hlt
    have hfr : frameOf (f * pageSize) = f := by unfold frameOf pageSize; omega
    by_cases h0 : f = 0
    · subst h0; exact .inl ⟨by rw [hp]; rfl, .inr rfl⟩
    · refine .inr ⟨?_, ?_, ?_, ?_⟩
      · rw [hp]; unfold pageSize; omega
      · rw [hp, hfr]; exact h0
      · rw [hp, hfr]
      · rw [hp]; unfold roundDown pageSize; omega

/-- **`releasePages`** on a range of the VMM. -/
theorem MachInv.releasePages_ok (mask : Nat → Nat) (hmask : ∀ a, frameOf (mask a) = frameOf a) :
    ∀ {n i : Nat} {M : Machine}, MachInv L dirs M → PageRange vaddr i n →
      ∃ M', releasePages L mask M vaddr i n = some M' ∧
        ReleaseEffect L dirs M M' (vaddr / pageSize + i) (vaddr / pageSize + (i + n))
  | 0, i, M, h, _ => ⟨M, rfl, .refl h _⟩
  | n + 1, i, M, h, hr => by
    obtain ⟨h1, h2, h3⟩ := hr.page (k := i) (by omega)
    have hf := hr.family i (Nat.le_refl _) (by omega)
    have hlt := hf.1
    have hlast := (hr.family (i + n) (by omega) (by omega)).1
    rw [← h3] at hf
    rw [releasePages, h.getPhysical_eq h1]
    simp only [Option.bind_eq_bind, Option.bind_some]
    rcases h.physOf_cases h2 hf with ⟨h0, hk⟩ | ⟨h0, hf0, hk, -⟩
    · rw [if_neg (by simp [h0])]
      obtain ⟨M', he, e⟩ := MachInv.releasePages_ok mask hmask h hr.tail
      have e0 : ReleaseEffect L dirs M M (vaddr / pageSize + i) (vaddr / pageSize + (i + 1)) :=
        ⟨h, fun u hu1 hu2 => by
          obtain rfl : u = vaddr / pageSize + i := by omega
          rw [← h3]; exact hk, fun _ _ _ => rfl, rfl, fun _ _ => rfl, fun _ hg => .inl hg,
          fun _ hg => hg⟩
      refine ⟨M', he, e0.trans (by omega) (by omega) (by omega) ?_⟩
      rw [show i + (n + 1) = i + 1 + n by omega]
      exact e
    · rw [if_pos h0]
      rw [← hmask] at hk hf0
      obtain ⟨M1, hu, e1⟩ := h.release_ok h1 hf hk hf0
      rw [h3] at e1
      simp only [hu, Option.bind_some]
      obtain ⟨M', he, e⟩ := MachInv.releasePages_ok mask hmask e1.inv hr.tail
      refine ⟨M', he, e1.trans (by omega) (by omega) (by omega) ?_⟩
      rw [show vaddr / pageSize + i + 1 = vaddr / pageSize + (i + 1) by omega,
        show i + (n + 1) = i + 1 + n by omega]
      exact e

/-- **`undoPages`** on a range of the VMM. -/
theorem MachInv.undoPages_ok :
    ∀ {n i : Nat} {M : Machine}, MachInv L dirs M → PageRange vaddr i n →
      ∃ M', undoPages L M vaddr i n = some M' ∧
        ReleaseEffect L dirs M M' (vaddr / pageSize + i) (vaddr / pageSize + (i + n))
  | 0, i, M, h, _ => ⟨M, rfl, .refl h _⟩
  | n + 1, i, M, h, hr => by
    obtain ⟨h1, h2, h3⟩ := hr.page (k := i) (by omega)
    have hf := hr.family i (Nat.le_refl _) (by omega)
    have hlt := hf.1
    have hlast := (hr.family (i + n) (by omega) (by omega)).1
    rw [← h3] at hf
    -- one page, whether or not it was mapped
    obtain ⟨M1, he1, e1⟩ : ∃ M1, (pagingUnmapPage machMem L M (pageAddr vaddr i)).map (fun m =>
          if physOf L M.phys (pageAddr vaddr i) ≠ 0 then m.withPmm (pmmFreeFrame m.pmm
            (roundDown pageSize (physOf L M.phys (pageAddr vaddr i)))) else m) = some M1 ∧
        ReleaseEffect L dirs M M1 (vaddr / pageSize + i) (vaddr / pageSize + i + 1) := by
      rcases h.physOf_cases h2 hf with ⟨h0, hk⟩ | ⟨h0, hf0, hk, hrd⟩
      · obtain ⟨M1, hu, e⟩ := h.unmapPage_ok h1 hf.off_window
        rw [h3] at e
        refine ⟨M1, by rw [hu, Option.map_some, if_neg (by simp [h0])], e.inv, fun u hu1 hu2 => ?_,
          fun u hu hor => e.others u hu (by omega), e.slots, e.keeps, fun g hg => .inl (e.pmm ▸ hg),
          fun g hg => e.pmm ▸ hg⟩
        obtain rfl : u = vaddr / pageSize + i := by omega
        left
        unfold kmap; rw [e.here]; rfl
      · obtain ⟨M1, hu, e⟩ := h.release_ok h1 hf hk hf0
        rw [h3] at e
        exact ⟨_, by rw [hu, Option.map_some, if_pos h0, hrd], e⟩
    obtain ⟨M0, hu, rfl⟩ := Option.map_eq_some_iff.mp he1
    rw [undoPages, h.getPhysical_eq h1]
    simp only [Option.bind_eq_bind, Option.bind_some, hu]
    obtain ⟨M', he, e⟩ := MachInv.undoPages_ok e1.inv hr.tail
    refine ⟨M', he, e1.trans (by omega) (by omega) (by omega) ?_⟩
    rw [show vaddr / pageSize + i + 1 = vaddr / pageSize + (i + 1) by omega,
      show i + (n + 1) = i + 1 + n by omega]
    exact e

/-! ## The mapping loop -/

/-- With the tables `present` and `low` free frames below 4 MB, mapping the `n` pages from
`u` on puts every new table below 4 MB. A page takes a frame, and one under a missing table
takes the next frame for that table. -/
def TablesLow (present : Nat → Bool) (low u : Nat) : Nat → Prop
  | 0 => True
  | n + 1 =>
    if present (u / 1024) then TablesLow present (low - 1) (u + 1) n
    else 2 ≤ low ∧ TablesLow (fun s => s == u / 1024 || present s) (low - 2) (u + 1) n

section TablesLow

variable {present present' : Nat → Bool} {low low' u n : Nat}

theorem present_of_entered {t : Nat} (ht : present' t = true)
    (hp : ∀ s < 1024, present s = true → present' s = true) :
    ∀ s < 1024, (s == t || present s) = true → present' s = true := by
  intro s hs hor
  rcases Bool.or_eq_true_iff.mp hor with heq | hs'
  · rw [beq_iff_eq.mp heq]
    exact ht
  · exact hp s hs hs'

theorem TablesLow.mono (h : TablesLow present low u n) (hn : u + n ≤ 2 ^ 20)
    (hp : ∀ s < 1024, present s = true → present' s = true) (hl : low ≤ low') :
    TablesLow present' low' u n := by
  induction n generalizing present present' low low' u with
  | zero => trivial
  | succ n ih =>
    have hslot := page_slot (show u < 2 ^ 20 by omega)
    unfold TablesLow at h ⊢
    by_cases hu : present (u / 1024) = true
    · rw [if_pos hu] at h
      rw [if_pos (hp _ hslot hu)]
      exact ih h (by omega) hp (by omega)
    · rw [if_neg hu] at h
      obtain ⟨h2, h⟩ := h
      by_cases hu' : present' (u / 1024) = true
      · -- the table is there now, and its frame is left over
        rw [if_pos hu']
        exact ih h (by omega) (present_of_entered hu' hp) (by omega)
      · rw [if_neg hu']
        refine ⟨by omega, ih h (by omega) (present_of_entered ?_ fun s hs hs' => ?_) (by omega)⟩
        · exact Bool.or_eq_true_iff.mpr (.inl (beq_self_eq_true _))
        · exact Bool.or_eq_true_iff.mpr (.inr (hp s hs hs'))

theorem TablesLow.of_twice (h : 2 * n ≤ low) : TablesLow present low u n := by
  induction n generalizing present low u with
  | zero => trivial
  | succ n ih =>
    unfold TablesLow
    split
    · exact ih (by omega)
    · exact ⟨by omega, ih (by omega)⟩

theorem TablesLow.of_present (h : ∀ v, u ≤ v → v < u + n → present (v / 1024) = true) :
    TablesLow present low u n := by
  induction n generalizing low u with
  | zero => trivial
  | succ n ih =>
    unfold TablesLow
    rw [if_pos (h u (Nat.le_refl u) (by omega))]
    exact ih fun v h1 h2 => h v (by omega) (by omega)

end TablesLow

/-- The tables that mapping the pages from `lo` to `hi` makes are below 4 MB. -/
def Budget (L : Layout) (M : Machine) (lo hi : Nat) : Prop :=
  TablesLow (fun s => isPresent (M.phys (pdFrame L) s)) (lowFree M.pmm) lo (hi - lo)

theorem Budget.of_twice {lo hi : Nat} (h : 2 * (hi - lo) ≤ lowFree M.pmm) : Budget L M lo hi :=
  TablesLow.of_twice h

theorem Budget.of_present {lo hi : Nat} (hlt : lo ≤ hi)
    (h : ∀ u, lo ≤ u → u < hi → isPresent (M.phys (pdFrame L) (u / 1024)) = true) :
    Budget L M lo hi :=
  TablesLow.of_present fun u h1 h2 => h u h1 (by omega)

theorem Budget.first {lo hi : Nat} (hb : Budget L M lo hi) (hlt : lo < hi) :
    isPresent (M.phys (pdFrame L) (lo / 1024)) = true ∨ 2 ≤ lowFree M.pmm := by
  unfold Budget at hb
  rw [show hi - lo = (hi - lo - 1) + 1 by omega, TablesLow] at hb
  split at hb
  · exact .inl ‹_›
  · exact .inr hb.1

theorem Budget.tail {M1 : Machine} {lo hi : Nat} (hb : Budget L M lo hi) (hhi : hi ≤ 2 ^ 20)
    (hlt : lo < hi) (hslots : ∀ s < 1024, isPresent (M.phys (pdFrame L) s) = true →
      M1.phys (pdFrame L) s = M.phys (pdFrame L) s)
    (hhere : isPresent (M1.phys (pdFrame L) (lo / 1024)) = true)
    (hlow : lowFree M.pmm ≤ lowFree M1.pmm + (1 + missing L M lo)) : Budget L M1 (lo + 1) hi := by
  have hkeep : ∀ s < 1024, isPresent (M.phys (pdFrame L) s) = true →
      isPresent (M1.phys (pdFrame L) s) = true := fun s hs hp => by
    rw [hslots s hs hp]
    exact hp
  unfold Budget at hb ⊢
  rw [show hi - lo = (hi - (lo + 1)) + 1 by omega, TablesLow] at hb
  unfold missing at hlow
  split at hb
  · rename_i hp
    rw [if_pos hp] at hlow
    exact hb.mono (by omega) hkeep (by omega)
  · rename_i hp
    rw [if_neg hp] at hlow
    exact hb.2.mono (by omega) (present_of_entered hhere hkeep) (by omega)

theorem MachInv.zeroPage_ok (h : MachInv L dirs M) {va e e' : Nat} (hal : va % pageSize = 0)
    (hf : Family (va / pageSize)) (hw : walk M.phys (pdFrame L) (va / pageSize) = some (e, e'))
    (h0 : frameOf e' ≠ 0) (hmax : frameOf e' < maxFrames) :
    ∃ M', fillWords machMem M va 0 pageEntries = some M' ∧ MachInv L dirs M' ∧ M'.pmm = M.pmm ∧
      (∀ g, TableFrame L M.phys g → M'.phys g = M.phys g) ∧ ∀ d ∈ dirs, M'.phys d = M.phys d := by
  have hk : kmap L M.phys (va / pageSize) = some (frameOf e') := by unfold kmap; rw [hw]; rfl
  have ho : Owned L M.phys M.pmm dirs (frameOf e') := by
    rcases h.tables.data _ _ hf hk with hz | hz | ho
    · exact absurd hz h0
    · omega
    · exact ho
  have hnt := h.tables.not_tableFrame ho.ge ho.not_table
  obtain ⟨hd, hp, -, -⟩ := walk_some.mp hw
  have hsame : ∀ g, TableFrame L M.phys g → M.phys.fill (frameOf e') 0 pageEntries g = M.phys g :=
    fun g hg => Phys.fill_frame fun heq => hnt (heq ▸ hg)
  refine ⟨_, fillWords_mapped hal (by rw [h.cr3]; exact hw)
    (fun heq => hnt (.inl (heq.trans h.cr3)))
    (fun heq => hnt (.inr ⟨_, page_slot hf.1, by rw [hd]; exact hp,
      by rw [hd]; exact heq.symm⟩)) 0 _
    (Nat.le_refl _), ⟨h.tables.frame hsame, h.cr3⟩, rfl, hsame, fun d hd => ?_⟩
  exact Phys.fill_frame fun heq => ho.not_dir (heq ▸ hd)

/-- What one page of the mapping loop did, with frame `f` taken for it. -/
structure PageMapped (L : Layout) (dirs : List Nat) (M M' : Machine) (v f pf : Nat) : Prop where
  inv : MachInv L dirs M'
  here : ∃ pde, walk M'.phys (pdFrame L) v = some (pde, pteFor (f * pageSize) pf)
  others : ∀ u < 2 ^ 20, u ≠ v → walk M'.phys (pdFrame L) u = walk M.phys (pdFrame L) u
  slots : ∀ s < 1024, s ≠ v / 1024 ∨ isPresent (M.phys (pdFrame L) s) = true →
    M'.phys (pdFrame L) s = M.phys (pdFrame L) s
  keeps : ∀ d ∈ dirs, M'.phys d = M.phys d
  free : M.pmm.Free f
  used : ∀ g, M'.pmm.Free g → g ≠ f ∧ M.pmm.Free g
  low : lowFree M.pmm ≤ lowFree M'.pmm + (1 + missing L M v)
  reach : reachable M.pmm ≤ reachable M'.pmm + 2

theorem PageMapped.present {v f pf : Nat} (e : PageMapped L dirs M M' v f pf) :
    isPresent (M'.phys (pdFrame L) (v / 1024)) = true := by
  obtain ⟨pde, hw⟩ := e.here
  exact walk_present hw

/-- One page of the mapping loop: without a table for it, the zeroing faults. -/
theorem MachInv.mapOne {f : Nat} {p' : Pmm} {va : Nat} (h : MachInv L dirs M) (pf : Nat)
    (hva : va < 2 ^ 32) (hal : va % pageSize = 0) (hf : Family (va / pageSize))
    (tk : TookFrame M.pmm p' f)
    (hlow : isPresent (M.phys (pdFrame L) (va / pageSize / 1024)) = true ∨ 2 ≤ lowFree M.pmm) :
    ∃ M1, pagingMapPage machMem L (M.withPmm p') va (f * pageSize) pf = some M1 ∧
      ((fillWords machMem M1 va 0 pageEntries = none ∧ reachable M.pmm ≤ 1) ∨
        ∃ M2, fillWords machMem M1 va 0 pageEntries = some M2 ∧
          PageMapped L dirs M M2 (va / pageSize) f pf) := by
  obtain ⟨ho, hm⟩ := tk.owned h.tables
  have hk := (kernelEndFrame_bounds L).1
  have hge := ho.ge
  have hfr : frameOf (f * pageSize) = f := by unfold frameOf pageSize; omega
  have hlow' : isPresent (M.phys (pdFrame L) (va / pageSize / 1024)) = true ∨ 0 < lowFree p' :=
    hlow.imp id fun h2 => by have := tk.lowFree; omega
  obtain ⟨M1, he, e⟩ := (h.took tk).mapPage_ok (f * pageSize) pf hva
    hf.off_window hlow' fun _ => by
      rw [hfr]
      exact .inr (.inr ⟨ho, fun u hu _ => hm u hu⟩)
  refine ⟨M1, he, ?_⟩
  rcases e.here with ⟨pde, hw⟩ | ⟨rfl, habs, hr⟩
  · right
    have hpte : frameOf (pteFor (f * pageSize) pf) = f := (pteFor_spec _ _).1.trans hfr
    obtain ⟨M2, he2, hi, hpm, htab, hdir⟩ := e.inv.zeroPage_ok hal hf hw
      (by rw [hpte]; omega) (by rw [hpte]; exact ho.lt)
    have hpd : M2.phys (pdFrame L) = M1.phys (pdFrame L) := htab _ (.inl rfl)
    refine ⟨M2, he2, hi, ⟨pde, ?_⟩, fun u hu huv => ?_, fun s hs hor => ?_, fun d hd => ?_, tk.free,
      fun g hg => ?_, ?_, ?_⟩
    · rw [walk_frame htab hf.1]; exact hw
    · rw [walk_frame htab hu]; exact e.others u hu huv
    · rw [hpd]; exact e.slots s hs hor
    · rw [hdir d hd]; exact e.keeps d hd
    · exact (free_set tk.bitmap).mp (e.used g (hpm ▸ hg))
    · have h1 := tk.lowFree
      have h2 : lowFree p' ≤ lowFree M1.pmm + missing L M (va / pageSize) := e.low
      rw [hpm]
      omega
    · have h1 := tk.reachable; have h2 := e.reach
      rw [hpm]
      simp only [Machine.withPmm] at h2
      omega
  · left
    refine ⟨fillWords_fault ?_ 0 _, ?_⟩
    · rw [e.inv.cr3]; exact walk_absent habs
    · have := tk.reachable
      simp only [Machine.withPmm] at hr
      omega

/-- What the mapping loop did from page `i` on, from its start `v`. -/
structure MapRangeEffect (L : Layout) (dirs : List Nat) (pf v i n : Nat) (M M' : Machine)
    (ok : Bool) : Prop where
  inv : MachInv L dirs M'
  others : ∀ u < 2 ^ 20, u < v ∨ v + (i + n) ≤ u →
    walk M'.phys (pdFrame L) u = walk M.phys (pdFrame L) u
  before : ok = true → ∀ u < 2 ^ 20, u < v + i →
    walk M'.phys (pdFrame L) u = walk M.phys (pdFrame L) u
  mapped : ok = true → ∀ k, i ≤ k → k < i + n → ∃ pde f,
    walk M'.phys (pdFrame L) (v + k) = some (pde, pteFor (f * pageSize) pf) ∧ M.pmm.Free f ∧
      ¬ M'.pmm.Free f
  slots : ∀ s < 1024, (∀ k, i ≤ k → k < i + n → (v + k) / 1024 ≠ s) ∨
    isPresent (M.phys (pdFrame L) s) = true → M'.phys (pdFrame L) s = M.phys (pdFrame L) s
  keeps : ∀ d ∈ dirs, M'.phys d = M.phys d
  freed : ∀ g, M'.pmm.Free g → M.pmm.Free g ∨
    (ok = false ∧ ∃ u, v ≤ u ∧ u < v + i ∧ kmap L M.phys u = some g)
  low : ok = true → lowFree M.pmm ≤ lowFree M'.pmm + 2 * n
  reach : ok = true → reachable M.pmm ≤ reachable M'.pmm + 2 * n

/-- The loop after one page of it. -/
theorem PageMapped.range {M1 : Machine} {v f pf : Nat} {ok : Bool} (hv : v + (i + (n + 1)) ≤ 2 ^ 20)
    (e : PageMapped L dirs M M1 (v + i) f pf) (e' : MapRangeEffect L dirs pf v (i + 1) n M1 M' ok) :
    MapRangeEffect L dirs pf v i (n + 1) M M' ok where
  inv := e'.inv
  others u hu hor := by
    rw [e'.others u hu (by omega), e.others u hu (by omega)]
  before hok u hu hlt := by
    rw [e'.before hok u hu (by omega), e.others u hu (by omega)]
  mapped hok k h1 h2 := by
    by_cases hki : k = i
    · subst hki
      obtain ⟨pde, hw⟩ := e.here
      refine ⟨pde, f, by rw [e'.before hok _ (by omega) (by omega)]; exact hw, e.free, fun hf => ?_⟩
      rcases e'.freed f hf with hf | ⟨hno, -⟩
      · exact (e.used f hf).1 rfl
      · rw [hok] at hno; cases hno
    · obtain ⟨pde, g, hw, hg, hg'⟩ := e'.mapped hok k (by omega) (by omega)
      exact ⟨pde, g, hw, (e.used g hg).2, hg'⟩
  slots s hs hor := by
    have h1 : M1.phys (pdFrame L) s = M.phys (pdFrame L) s :=
      e.slots s hs (hor.imp (fun hk heq => hk i (Nat.le_refl _) (by omega) heq.symm) id)
    rw [e'.slots s hs (by
      rw [h1]
      exact hor.imp (fun hk k hk1 hk2 => hk k (by omega) (by omega)) id), h1]
  keeps d hd := (e'.keeps d hd).trans (e.keeps d hd)
  freed g hg := by
    rcases e'.freed g hg with hg | ⟨hok, u, h1, h2, hm⟩
    · exact .inl (e.used g hg).2
    · by_cases hu : u = v + i
      · -- the page just mapped: its frame was free before
        subst hu
        obtain ⟨pde, hw⟩ := e.here
        rw [kmap_pteFor hw] at hm
        cases hm
        exact .inl e.free
      · refine .inr ⟨hok, u, h1, by omega, ?_⟩
        unfold kmap at hm ⊢
        rw [← e.others u (by omega) hu]
        exact hm
  low hok := by
    have := e.low
    have := e'.low hok
    have := missing_le_one (L := L) (M := M) (v + i)
    omega
  reach hok := by have := e.reach; have := e'.reach hok; omega

/-- **`mapPages`** on a range of the VMM: a page fault for want of a table, or
the pages are mapped to new frames, or everything is as before. -/
theorem MachInv.mapPages_ok (pf : Nat) : ∀ {n i : Nat} {M : Machine}, MachInv L dirs M →
    PageRange vaddr 0 (i + n) → Budget L M (vaddr / pageSize + i) (vaddr / pageSize + (i + n)) →
    (mapPages L M vaddr pf i n = none ∧ reachable M.pmm ≤ 2 * n) ∨
    ∃ ok M', mapPages L M vaddr pf i n = some (ok, M') ∧
      MapRangeEffect L dirs pf (vaddr / pageSize) i n M M' ok ∧
      (2 * n < reachable M.pmm → ok = true)
  | 0, i, M, h, _, _ => .inr ⟨true, M, rfl, ⟨h, fun _ _ _ => rfl, fun _ _ _ _ => rfl,
      fun _ k h1 h2 => by omega, fun _ _ _ => rfl, fun _ _ => rfl, fun _ hg => .inl hg,
      fun _ => by omega,
      fun _ => by omega⟩, fun _ => rfl⟩
  | n + 1, i, M, h, hr, hb => by
    obtain ⟨h1, h2, h3⟩ := hr.page (k := i) (by omega)
    have hf : Family (vaddr / pageSize + i) := hr.family i (Nat.zero_le _) (by omega)
    have hlast := (hr.family (i + n) (by omega) (by omega)).1
    rw [mapPages]
    rcases h.tables.pmmAllocFrame_cases with ⟨ha, hnone⟩ | ⟨f, p', ha, tk⟩
    · -- no frame: the pages mapped so far are released
      right
      obtain ⟨M', he, e⟩ := h.undoPages_ok hr.head
      rw [Nat.zero_add, Nat.add_zero] at e
      refine ⟨false, M', ?_, ⟨e.inv, fun u hu hor => e.others u hu (by omega), nofun, nofun,
        fun s _ _ => by rw [e.slots], e.keeps, fun g hg => ?_, nofun, nofun⟩, fun hlt => by omega⟩
      · rw [machMem_alloc ha]
        show (undoPages L M vaddr 0 i).bind _ = _
        rw [he]
        rfl
      · exact (e.freed g hg).imp id fun ⟨u, hu1, hu2, hm⟩ => ⟨rfl, u, hu1, hu2, hm⟩
    · rw [← h3] at hf hb
      obtain ⟨M1, hmap, hcase⟩ := h.mapOne pf h1 h2 hf tk (hb.first (by omega))
      have h0 := tk.ne_zero h.tables
      rw [machMem_alloc ha]
      simp only [h0, ↓reduceIte, hmap, Option.bind_eq_bind, Option.bind_some]
      rcases hcase with ⟨hfault, hle⟩ | ⟨M2, hfill, e⟩
      · exact .inl ⟨by rw [hfault]; rfl, by omega⟩
      · have hb' := hb.tail (by omega) (by omega) (fun s hs hp => e.slots s hs (.inr hp))
          e.present e.low
        rw [h3] at e hb'
        rw [hfill, Option.bind_some]
        have hreach := e.reach
        rw [show i + (n + 1) = i + 1 + n by omega] at hr hb'
        rcases MachInv.mapPages_ok pf e.inv hr hb' with ⟨he, hle⟩ | ⟨ok, M', he, e', hok⟩
        · exact .inl ⟨he, by omega⟩
        · exact .inr ⟨ok, M', he, e.range (by omega) e', fun hlt => hok (by omega)⟩

/-! ## Heap growth -/

structure GrowEffect (L : Layout) (dirs : List Nat) (M M' : Machine) (lo hi : Nat) : Prop where
  inv : MachInv L dirs M'
  others : ∀ u < 2 ^ 20, u < lo ∨ hi ≤ u → walk M'.phys (pdFrame L) u = walk M.phys (pdFrame L) u
  slots : ∀ s < 1024, (∀ u, lo ≤ u → u < hi → u / 1024 ≠ s) ∨
    isPresent (M.phys (pdFrame L) s) = true → M'.phys (pdFrame L) s = M.phys (pdFrame L) s
  keeps : ∀ d ∈ dirs, M'.phys d = M.phys d
  used : ∀ g, M'.pmm.Free g → M.pmm.Free g
  low : lowFree M.pmm ≤ lowFree M'.pmm + 2 * (hi - lo)
  reach : reachable M.pmm ≤ reachable M'.pmm + 2 * (hi - lo)

theorem GrowEffect.unchanged {lo hi : Nat} (h : MachInv L dirs M) : GrowEffect L dirs M M lo hi :=
  ⟨h, fun _ _ _ => rfl, fun _ _ _ => rfl, fun _ _ => rfl, fun _ hg => hg, by omega, by omega⟩

theorem GrowEffect.trans {M'' : Machine} {lo mid hi : Nat} (h1 : lo ≤ mid) (h2 : mid ≤ hi)
    (e1 : GrowEffect L dirs M M' lo mid) (e2 : GrowEffect L dirs M' M'' mid hi) :
    GrowEffect L dirs M M'' lo hi where
  inv := e2.inv
  others u hu hor := by rw [e2.others u hu (by omega), e1.others u hu (by omega)]
  slots s hs hor := by
    have h1 : M'.phys (pdFrame L) s = M.phys (pdFrame L) s :=
      e1.slots s hs (hor.imp (fun hk u hu1 hu2 => hk u hu1 (by omega)) id)
    rw [e2.slots s hs (by
      rw [h1]
      exact hor.imp (fun hk u hu1 hu2 => hk u (by omega) hu2) id), h1]
  keeps d hd := (e2.keeps d hd).trans (e1.keeps d hd)
  used g hg := e1.used g (e2.used g hg)
  low := by have := e1.low; have := e2.low; omega
  reach := by have := e1.reach; have := e2.reach; omega

/-- One page of the heap: its page is outside the family, so any frame will do. Without a
frame for its table the page stays unmapped, and then no frame is left for the next one. -/
theorem MachInv.mapHeapPage {f va : Nat} {p' : Pmm} (h : MachInv L dirs M) (flags : Nat)
    (hlo : 0xC0400 ≤ va / pageSize) (hhi : va / pageSize < 0xC1400)
    (tk : TookFrame M.pmm p' f)
    (hlow : isPresent (M.phys (pdFrame L) (va / pageSize / 1024)) = true ∨ 2 ≤ lowFree M.pmm) :
    ∃ M1, pagingMapPage machMem L (M.withPmm p') va (f * pageSize) flags = some M1 ∧
      GrowEffect L dirs M M1 (va / pageSize) (va / pageSize + 1) ∧
      lowFree M.pmm ≤ lowFree M1.pmm + (1 + missing L M (va / pageSize)) ∧
      (isPresent (M1.phys (pdFrame L) (va / pageSize / 1024)) = true ∨ reachable M1.pmm = 0) := by
  have hlow' : isPresent (M.phys (pdFrame L) (va / pageSize / 1024)) = true ∨ 0 < lowFree p' :=
    hlow.imp id fun h2 => by have := tk.lowFree; omega
  obtain ⟨M1, he, e⟩ := (h.took tk).mapPage_ok (f * pageSize) flags
    (by unfold pageSize at hhi; omega) (.inr hlo) hlow' fun hf => by
      rcases hf.2 with hf | hf <;> omega
  have hused : ∀ g, M1.pmm.Free g → g ≠ f ∧ M.pmm.Free g := fun g hg =>
    (free_set tk.bitmap).mp (e.used g hg)
  have hcost : lowFree M.pmm ≤ lowFree M1.pmm + (1 + missing L M (va / pageSize)) := by
    have h1 := tk.lowFree
    have h2 : lowFree p' ≤ lowFree M1.pmm + missing L M (va / pageSize) := e.low
    omega
  have hone := missing_le_one (L := L) (M := M) (va / pageSize)
  refine ⟨M1, he, ⟨e.inv, fun u hu hor => e.others u hu (by omega), fun s hs hor => ?_, e.keeps,
    fun g hg => (hused g hg).2, by omega, ?_⟩, hcost, ?_⟩
  · exact e.slots s hs (hor.imp (fun hk heq => hk _ (Nat.le_refl _) (by omega) heq.symm) id)
  · have h1 := tk.reachable; have h2 := e.reach
    simp only [Machine.withPmm] at h2
    omega
  · rcases e.here with ⟨pde, hw⟩ | ⟨rfl, -, hr⟩
    · exact .inl (walk_present hw)
    · exact .inr hr

theorem MachInv.mapHeapPage_present {f va : Nat} {p' : Pmm} (h : MachInv L dirs M) (flags : Nat)
    (hlo : 0xC0400 ≤ va / pageSize) (hhi : va / pageSize < 0xC1400) (tk : TookFrame M.pmm p' f)
    (hp : isPresent (M.phys (pdFrame L) (va / pageSize / 1024)) = true) :
    ∃ M1, pagingMapPage machMem L (M.withPmm p') va (f * pageSize) flags = some M1 ∧ M1.pmm = p' ∧
      MapEffect L dirs (M.withPmm p') M1 (va / pageSize) (pteFor (f * pageSize) flags) := by
  have hva : va < 2 ^ 32 := by unfold pageSize at hhi; omega
  have hi := h.took tk
  refine ⟨_, hi.mapPage_present hva hp, rfl, hi.store_pte_effect (va_page_lt hva) (.inr hlo) hp
    (pteFor_spec _ _).2 fun hf => ?_⟩
  rcases hf.2 with hf | hf <;> omega

theorem mapHeapPages_none (bytes : Bytes) (base n : Nat) (ha : pmmAllocFrame M.pmm = (0, M.pmm)) :
    mapHeapPages (vmEnv L) M bytes base (n + 1) = some (false, M, bytes) := by
  have ha' : (vmEnv L).pmmAllocFrame M = (0, M) := machMem_alloc ha
  rw [mapHeapPages, ha']
  rfl

theorem MachInv.mapHeapPages_exhausted (h : MachInv L dirs M) (hr : reachable M.pmm = 0)
    (bytes : Bytes) (base n : Nat) :
    ∃ ok, mapHeapPages (vmEnv L) M bytes base n = some (ok, M, bytes) := by
  cases n with
  | zero => exact ⟨true, rfl⟩
  | succ n =>
    rcases h.tables.pmmAllocFrame_cases with ⟨ha, -⟩ | ⟨f, p', -, tk⟩
    · exact ⟨false, mapHeapPages_none bytes base n ha⟩
    · have := tk.reachable_eq
      omega

theorem MachInv.mapHeapPages_succ {M₁ : Machine} {f base : Nat} {p' : Pmm} (h : MachInv L dirs M)
    (bytes : Bytes) (n : Nat) (ha : pmmAllocFrame M.pmm = (f * pageSize, p'))
    (tk : TookFrame M.pmm p' f)
    (hmap : pagingMapPage machMem L (M.withPmm p') base (f * pageSize)
      (pagePresent ||| pageWrite) = some M₁) :
    mapHeapPages (vmEnv L) M bytes base (n + 1) =
      mapHeapPages (vmEnv L) M₁ bytes (base + pageSize) n := by
  have ha' : (vmEnv L).pmmAllocFrame M = (f * pageSize, M.withPmm p') := machMem_alloc ha
  have hmap' : (vmEnv L).pagingMapPage (M.withPmm p') bytes base (f * pageSize)
      (pagePresent ||| pageWrite) = some (M₁, bytes) := by
    show (pagingMapPage machMem L (M.withPmm p') base (f * pageSize) _).map _ = _
    rw [hmap]
    rfl
  rw [mapHeapPages, ha']
  simp only [tk.ne_zero h.tables, ↓reduceIte, hmap', Option.bind_eq_bind, Option.bind_some]

/-- **The mapping loop of the heap** inside its window. -/
theorem MachInv.mapHeapPages_ok (h : MachInv L dirs M) (bytes : Bytes) (n base : Nat)
    (hal : base % pageSize = 0) (hlo : 0xC0400 ≤ base / pageSize)
    (hhi : base / pageSize + n ≤ 0xC1400)
    (hb : Budget L M (base / pageSize) (base / pageSize + n)) :
    ∃ ok M', mapHeapPages (vmEnv L) M bytes base n = some (ok, M', bytes) ∧
      GrowEffect L dirs M M' (base / pageSize) (base / pageSize + n) ∧
      (2 * n < reachable M.pmm → ok = true) := by
  induction n generalizing base M with
  | zero => exact ⟨true, M, rfl, .unchanged h, fun _ => rfl⟩
  | succ n ih =>
    rcases h.tables.pmmAllocFrame_cases with ⟨ha, hnone⟩ | ⟨f, p', ha, tk⟩
    · exact ⟨false, M, mapHeapPages_none bytes base n ha, .unchanged h, fun hlt => by omega⟩
    · obtain ⟨M1, hmap, e, hcost, hhere⟩ := h.mapHeapPage (pagePresent ||| pageWrite) hlo
        (by omega) tk (hb.first (by omega))
      have hround := h.mapHeapPages_succ bytes n ha tk hmap
      have hnext : (base + pageSize) / pageSize = base / pageSize + 1 := by
        unfold pageSize; omega
      have hsum : base / pageSize + 1 + n = base / pageSize + (n + 1) := by omega
      have hr := e.reach
      rcases hhere with hp | hnone
      · have hb' := hb.tail (by omega) (by omega) (fun s hs hp => e.slots s hs (.inr hp)) hp hcost
        obtain ⟨ok, M', he, e', hok⟩ := ih e.inv (base + pageSize)
          (by unfold pageSize at *; omega) (by omega) (by omega) (by rw [hnext, hsum]; exact hb')
        rw [hnext, hsum] at e'
        exact ⟨ok, M', hround.trans he, e.trans (by omega) (by omega) e',
          fun hlt => hok (by omega)⟩
      · -- the frames ran out under the page, and the loop stops here
        obtain ⟨ok, he⟩ := e.inv.mapHeapPages_exhausted hnone bytes (base + pageSize) n
        exact ⟨ok, M1, hround.trans he,
          e.trans (by omega) (by omega) (.unchanged e.inv), fun hlt => by omega⟩

end Loops

end TupleOS.Memory
