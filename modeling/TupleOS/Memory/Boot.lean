import TupleOS.Memory.VmmSpec

/-!
# Boot

From `_start` to `vmm_init`: the boot directory maps the first 4 MB, so that
`paging_init` can write the static tables through it; after it, the heap is
mapped through the static tables alone. `bootVm_ok`: what comes out satisfies
`VmInv`, whatever memory and bitmap held before.
-/

namespace TupleOS.Memory

open TupleOS.Base TupleOS.Heap

/-! ## `_start` -/

section Start

variable {L : Layout} {phys : Phys} {p : Pmm} {M : Machine}

theorem bootFillTable_spec (phys : Phys) (table : Nat) : ∀ n i, i < n →
    bootFillTable phys table n table i = i * pageSize + 3
  | 0, _, h => by omega
  | n + 1, i, h => by
    rw [bootFillTable]
    by_cases hi : i = n
    · subst hi; exact Phys.store_same _ _ _ _
    · rw [Phys.store_index hi]
      exact bootFillTable_spec phys table n i (by omega)

structure BootFrames (L : Layout) (dir table : Nat) : Prop where
  ne : table ≠ dir
  pd : pdFrame L ≠ dir ∧ pdFrame L ≠ table
  pt : ∀ j < 4, ptFrame L j ≠ dir ∧ ptFrame L j ≠ table

theorem bootFrames (L : Layout) :
    BootFrames L (imageFrame L.bootPageDirectory) (imageFrame L.bootPageTable) := by
  have h1 := L.bootDirectory_ge
  have h2 := L.bootTable_eq
  have h3 := L.bootTable_le
  have h4 := L.kernelEnd_le
  have h5 := L.boot_disjoint
  have hL := staticFrames L
  have hpd := hL.pd_addr
  have hpt := hL.pt_addr
  obtain ⟨hd, -⟩ := imageFrame_eq h1 (by unfold pageSize at *; omega) L.bootDirectory_aligned
  obtain ⟨ht, -⟩ := imageFrame_eq (a := L.bootPageTable) (by omega) (by unfold pageSize at *; omega)
    L.bootTable_aligned
  generalize imageFrame L.bootPageDirectory = dir at *
  generalize imageFrame L.bootPageTable = table at *
  have hpt0 := hpt 0
  refine ⟨?_, ?_, fun j hj => ?_⟩
  · unfold pageSize at *; omega
  · unfold pageSize at *; omega
  · have := hpt j
    unfold pageSize at *; omega

/-- **`_start`** maps the first 4 MB at `0xC0000000`. -/
theorem bootStart_direct (L : Layout) (phys : Phys) (p : Pmm) : Direct (bootStart L phys p) ∧
    frameOf (bootStart L phys p).cr3 = imageFrame L.bootPageDirectory ∧
    frameOf ((bootStart L phys p).phys (imageFrame L.bootPageDirectory) 768) =
      imageFrame L.bootPageTable := by
  have hne := (bootFrames L).ne
  have hcr3 : frameOf (bootStart L phys p).cr3 = imageFrame L.bootPageDirectory :=
    Nat.mul_div_cancel _ (by decide)
  have hdir : (bootStart L phys p).phys (imageFrame L.bootPageDirectory) 768 =
      imageFrame L.bootPageTable * pageSize + 3 := Phys.store_same _ _ _ _
  refine ⟨⟨?_, fun i _ hi => ?_⟩, hcr3, ?_⟩
  · rw [hcr3, hdir]; exact entry_present _
  · rw [hcr3, hdir, entry_frame]
    unfold bootStart
    simp only
    rw [Phys.store_frame hne, Phys.store_frame hne, Phys.fill_frame hne]
    exact bootFillTable_spec _ _ _ _ hi
  · rw [hdir]; exact entry_frame _

end Start

/-! ## `paging_init` -/

section Init

variable {L : Layout} {M : Machine}

/-- The static tables as `paging_init` leaves them. -/
structure StaticTables (L : Layout) (m : Phys) : Prop where
  slot : ∀ j < 4, m (pdFrame L) (768 + j) = ptFrame L j * pageSize + 3
  absent : ∀ s, DynSlot s → m (pdFrame L) s = 2
  entry : ∀ j < 4, ∀ i < 1024, m (ptFrame L j) i = (j * pageEntries + i) * pageSize + 3

theorem fillTable_ok {t : Nat} (h : Direct M) (ht : t < 4) (ho : M.OffWalk (ptFrame L t)) :
    ∀ n, n ≤ 1024 → ∃ m, fillTable machMem L M t n = some (M.withPhys m) ∧
      (∀ g ≠ ptFrame L t, m g = M.phys g) ∧
      ∀ i < n, m (ptFrame L t) i = (t * pageEntries + i) * pageSize + 3
  | 0, _ => ⟨M.phys, rfl, fun _ _ => rfl, nofun⟩
  | n + 1, hn => by
    obtain ⟨m, he, hout, hin⟩ := fillTable_ok h ht ho n (by omega)
    have hL := staticFrames L
    have h1 := hL.pt_ge; have h2 := hL.pt_lt; have h3 := hL.end_le
    have hd : Direct (M.withPhys m) := h.frame_off ho hout
    rw [fillTable, he]
    simp only [Option.bind_eq_bind, Option.bind_some]
    rw [hL.pt_addr, hd.store (by unfold ptFrame at *; omega) (by unfold ptFrame at *; omega)
      (by omega)]
    refine ⟨_, rfl, fun g hg => (Phys.store_frame hg).trans (hout g hg), fun i hi => ?_⟩
    by_cases hin' : i = n
    · subst hin'; exact Phys.store_same _ _ _ _
    · exact (Phys.store_index hin').trans (hin i (by omega))

theorem ptFrame_inj {j j' : Nat} (h : ptFrame L j = ptFrame L j') : j = j' := by
  unfold ptFrame at h; omega

theorem virtToPhys_table (L : Layout) {t : Nat} (ht : t < 4) :
    mkEntry (virtToPhys (L.pageTables + pageSize * t)) (pagePresent ||| pageWrite) =
      ptFrame L t * pageSize + 3 := by
  have hL := staticFrames L
  have h2 := hL.pt_lt; have h3 := hL.end_le
  rw [hL.pt_addr]
  unfold virtToPhys kernelVirtualBase
  rw [sub32_of_le (by omega) (by unfold ptFrame pageSize at *; omega)]
  unfold mkEntry pagePresent pageWrite
  simp only [Nat.reduceOr]
  omega

/-- The table loop of `paging_init`, by induction on the tables. -/
theorem fillTables_ok (h : Direct M) (hpd : M.OffWalk (pdFrame L))
    (hpt : ∀ j < 4, M.OffWalk (ptFrame L j)) (habs : ∀ s < 1024, M.phys (pdFrame L) s = 2) :
    ∀ t, t ≤ 4 → ∃ m, fillTables machMem L M t = some (M.withPhys m) ∧
      (∀ g ≠ pdFrame L, (∀ j < 4, g ≠ ptFrame L j) → m g = M.phys g) ∧
      (∀ j < t, m (pdFrame L) (768 + j) = ptFrame L j * pageSize + 3) ∧
      (∀ s < 1024, (∀ j < t, s ≠ 768 + j) → m (pdFrame L) s = 2) ∧
      ∀ j < t, ∀ i < 1024, m (ptFrame L j) i = (j * pageEntries + i) * pageSize + 3
  | 0, _ => ⟨M.phys, rfl, fun _ _ _ => rfl, nofun, fun s hs _ => habs s hs, nofun⟩
  | t + 1, ht => by
    obtain ⟨m, he, hout, hslot, hab, hent⟩ := fillTables_ok h hpd hpt habs t (by omega)
    have hL := staticFrames L
    have h1 := hL.pd_ge; have h2 := hL.pd_lt; have h3 := hL.end_le
    -- the boot tables are neither, so the window stays
    have hd : Direct (M.withPhys m) := by
      refine h.frame (by rw [hout _ hpd.1.symm fun j hj => (hpt j hj).1.symm]) fun i _ _ => ?_
      rw [hout _ hpd.2.symm fun j hj => (hpt j hj).2.symm]
    have hoff : (M.withPhys m).OffWalk (ptFrame L t) := by
      refine ⟨(hpt t (by omega)).1, ?_⟩
      show _ ≠ frameOf (m (frameOf M.cr3) 768)
      rw [hout _ hpd.1.symm fun j hj => (hpt j hj).1.symm]
      exact (hpt t (by omega)).2
    obtain ⟨m', he', hout', hin'⟩ := fillTable_ok hd (by omega) hoff 1024 (Nat.le_refl _)
    have hd' : Direct (M.withPhys m') := hd.frame_off hoff hout'
    have hne := hL.pt_ne t (by omega)
    have hpd' : m' (pdFrame L) = m (pdFrame L) := hout' _ hne.symm
    have hstore : machMem.store (M.withPhys m') (L.pageDirectory + 4 * (768 + t))
        (ptFrame L t * pageSize + 3) =
        some (M.withPhys (m'.store (pdFrame L) (768 + t) (ptFrame L t * pageSize + 3))) := by
      rw [hL.pd_addr]
      exact hd'.store h1 (by omega) (by omega) _
    have he'' : fillTable machMem L (M.withPhys m) t pageEntries = some (M.withPhys m') := he'
    refine ⟨m'.store (pdFrame L) (768 + t) (ptFrame L t * pageSize + 3), ?_, fun g hg hgt => ?_,
      fun j hj => ?_, fun s hs hsj => ?_, fun j hj i hi => ?_⟩
    · rw [fillTables, he]
      simp only [Option.bind_eq_bind, Option.bind_some, he'',
        virtToPhys_table L (show t < 4 by omega)]
      exact hstore
    · rw [Phys.store_frame hg, hout' g (hgt t (by omega))]
      exact hout g hg hgt
    · by_cases hjt : j = t
      · subst hjt; exact Phys.store_same _ _ _ _
      · rw [Phys.store_index (by omega), hpd']
        exact hslot j (by omega)
    · rw [Phys.store_index (hsj t (by omega)), hpd']
      exact hab s hs fun j hj => hsj j (by omega)
    · rw [Phys.store_frame (hL.pt_ne j (by omega))]
      by_cases hjt : j = t
      · subst hjt; exact hin' i hi
      · rw [hout' _ fun heq => hjt (ptFrame_inj heq)]
        exact hent j (by omega) i hi

/-- **`paging_init`** on the boot machine. -/
theorem pagingInitLoad_ok (L : Layout) (phys : Phys) (p : Pmm) :
    ∃ M, pagingInitLoad L (bootStart L phys p) = some M ∧ StaticTables L M.phys ∧
      frameOf M.cr3 = pdFrame L ∧ M.pmm = p := by
  obtain ⟨hd, hcr3, htab⟩ := bootStart_direct L phys p
  have hB := bootFrames L
  have hL := staticFrames L
  have h2 := hL.pd_lt; have h3 := hL.end_le
  have hpd : (bootStart L phys p).OffWalk (pdFrame L) := by
    unfold Machine.OffWalk
    rw [hcr3, htab]
    exact hB.pd
  have hpt : ∀ j < 4, (bootStart L phys p).OffWalk (ptFrame L j) := fun j hj => by
    unfold Machine.OffWalk
    rw [hcr3, htab]
    exact hB.pt j hj
  have hpm : (bootStart L phys p).pmm = p := rfl
  generalize bootStart L phys p = M0 at *
  have hfill := fillWords_direct hd hL.pd_ge (by omega) hpd 2 (Nat.le_refl pageEntries)
  rw [← hL.pd_addr] at hfill
  -- the same facts after the directory is cleared
  have hout : ∀ g ≠ pdFrame L, M0.phys.fill (pdFrame L) 2 pageEntries g = M0.phys g :=
    fun g hg => Phys.fill_frame hg
  have hoff : ∀ f, M0.OffWalk f →
      (M0.withPhys (M0.phys.fill (pdFrame L) 2 pageEntries)).OffWalk f := fun f hf =>
    ⟨hf.1, by
      show f ≠ frameOf (M0.phys.fill (pdFrame L) 2 pageEntries (frameOf M0.cr3) 768)
      rw [hout _ hpd.1.symm]
      exact hf.2⟩
  obtain ⟨m, he, -, hslot, hab, hent⟩ := fillTables_ok (hd.frame_off hpd hout) (hoff _ hpd)
    (fun j hj => hoff _ (hpt j hj)) (fun s hs => Phys.fill_in hs) 4 (Nat.le_refl _)
  refine ⟨{ M0 with phys := m, cr3 := pagingGetDirectory L }, ?_, ⟨hslot, fun s hs => ?_, hent⟩,
    pagingGetDirectory_eq L, hpm⟩
  · unfold pagingInitLoad pagingInit
    rw [hfill, Option.bind_eq_bind, Option.bind_some, he, Option.map_some]
    rfl
  · exact hab s hs.1 fun j hj => by have := hs.2; omega

/-- The invariant holds once the static tables are in place. -/
theorem StaticTables.inv {M : Machine} (h : StaticTables L M.phys) (hc : frameOf M.cr3 = pdFrame L)
    (hr : M.pmm.Reserves L) (ht : M.pmm.totalFrames ≤ 32784) : MachInv L [] M := by
  have habs : ∀ {s}, DynSlot s → isPresent (M.phys (pdFrame L) s) = false := fun hs => by
    rw [h.absent _ hs]; rfl
  have hdata : ∀ v f, Family v → kmap L M.phys v = some f → f = 0 := by
    intro v f hv hm
    have hslot : v / 1024 < 1024 := page_slot hv.1
    rcases slot_static_or_dyn hslot with ⟨j, hj, hs⟩ | hd
    · -- page `0xC0000`
      obtain rfl : v = 0xC0000 := by have := hv.2; omega
      have hw : walk M.phys (pdFrame L) 0xC0000 = some (ptFrame L 0 * pageSize + 3, 3) := by
        refine walk_some.mpr ⟨h.slot 0 (by omega), entry_present _, ?_, rfl⟩
        rw [entry_frame]
        exact h.entry 0 (by omega) 0 (by omega)
      unfold kmap at hm
      rw [hw] at hm
      have hf : f = frameOf 3 := (Option.some.inj hm).symm
      rw [hf]
      rfl
    · unfold kmap at hm
      rw [walk_absent (habs hd)] at hm
      cases hm
  refine ⟨?_, hc⟩
  exact {
    static := h.slot
    window := fun i _ hi => by
      rw [h.entry 0 (by omega) i hi, Nat.zero_mul, Nat.zero_add]
    table := fun f ⟨s, hs, hp, _⟩ => by rw [habs hs] at hp; cases hp
    table_inj := fun s s' hs _ hp => by rw [habs hs] at hp; cases hp
    dir := nofun
    nodup := List.nodup_nil
    reserves := hr
    total := ht
    data := fun v f hv hm => .inl (hdata v f hv hm)
    data_inj := fun v v' f hv _ hm _ h0 => absurd (hdata v f hv hm) h0 }

end Init

/-! ## `kheap_init` and `vmm_init` -/

section Boot

variable {L : Layout} {phys : Phys} {bitmap : Bitmap} {bytes : Bytes}
  {mmap : Option (List MmapEntry)} {vm : Vm}

/-- The heap as `kheap_init` leaves it: one free block. -/
def initialHeap (bytes : Bytes) : KHeap where
  mem := writeHeader bytes heapStartAddr (initialHeapSize - headerSize) 1 0
  heapStart := heapStartAddr
  heapEnd := heapStartAddr + initialHeapSize
  heapMax := heapStartAddr + maxHeapSize
  firstBlock := heapStartAddr
  totalAllocated := 0

theorem initialHeap_bounds (bytes : Bytes) : HeapBounds (initialHeap bytes) := by
  have hend : (initialHeap bytes).heapEnd = 0xC0500000 := rfl
  refine ⟨?_, ?_, ?_, rfl⟩ <;> rw [hend] <;> decide

/-- What boot leaves, from the machine `M` after `paging_init`. -/
structure BootEffect (L : Layout) (p : Pmm) (bytes : Bytes) (M : Machine) (vm : Vm) : Prop where
  tables : StaticTables L M.phys
  start : MachInv L [] M
  pmm : M.pmm = p
  heap : vm.heap = initialHeap bytes
  map : mapHeapPages (vmEnv L) M bytes heapStartAddr 256 = some (true, vm.mach, bytes)
  grow : GrowEffect L [] M vm.mach 0xC0400 0xC0500
  inv : VmInv L vm
  spaces : vm.spaces = []
  pool : vm.regionPoolUsed = (kernelRegions L).length
  regions : vm.kernelSpace.regions.Perm (kernelRegions L)

theorem kernelRegions_length (L : Layout) : (kernelRegions L).length ≤ 4 := by
  unfold kernelRegions
  simp only [List.length_append, List.length_cons, List.length_nil]
  split <;> simp

theorem StaticTables.heap_present {m : Phys} (h : StaticTables L m) (u : Nat) (h1 : 0xC0400 ≤ u)
    (h2 : u < 0xC0400 + 256) : isPresent (m (pdFrame L) (u / 1024)) = true := by
  rw [show u / 1024 = 768 + 1 by omega, h.slot 1 (by omega)]
  exact entry_present _

theorem kheapInit_machine {M : Machine} (h : MachInv L [] M) (ht : StaticTables L M.phys)
    (bytes : Bytes) :
    ∃ ok M', mapHeapPages (vmEnv L) M bytes heapStartAddr 256 = some (ok, M', bytes) ∧
      GrowEffect L [] M M' 0xC0400 0xC0500 ∧ (512 < reachable M.pmm → ok = true) ∧
      (ok = true → kheapInit (vmEnv L) M bytes = some (true, initialHeap bytes, M')) ∧
      (ok = false → ∃ h', kheapInit (vmEnv L) M bytes = some (false, h', M')) := by
  obtain ⟨ok, M', he, e, hok⟩ := h.mapHeapPages_ok bytes 256 heapStartAddr
    (by decide) (by decide) (by decide) (.of_present (Nat.le_add_right _ _) ht.heap_present)
  refine ⟨ok, M', he, e, hok, fun ht => ?_, fun hf => ?_⟩
  · subst ht
    unfold kheapInit
    rw [show initialHeapSize / pageSize = 256 by decide, he, Option.bind_eq_bind, Option.bind_some]
    rfl
  · subst hf
    unfold kheapInit
    rw [show initialHeapSize / pageSize = 256 by decide, he, Option.bind_eq_bind, Option.bind_some]
    exact ⟨_, rfl⟩

theorem vmmInit_lists (L : Layout) (M : Machine) (heap : KHeap) :
    (vmmInit L M heap).kernelSpace.pageDirectory = pagingGetDirectory L ∧
      (vmmInit L M heap).kernelSpace.regions.Perm (kernelRegions L) ∧
      (vmmInit L M heap).regionPoolUsed = (kernelRegions L).length := by
  obtain ⟨hdir, hused, hregs⟩ := registerAll_ok (kernelRegions L)
    ⟨pagingGetDirectory L, [], 0⟩ 0
    (by have := kernelRegions_length L; unfold vmmMaxRegions; omega)
  rw [List.append_nil] at hregs
  exact ⟨hdir, hregs, hused.trans (Nat.zero_add _)⟩

theorem vmmInit_inv {M : Machine} (h : MachInv L [] M) {heap : KHeap} (hb : HeapBounds heap) :
    VmInv L (vmmInit L M heap) := by
  obtain ⟨hdir, hregs, -⟩ := vmmInit_lists L M heap
  have hsp : (vmmInit L M heap).spaces = [] := rfl
  have hdirs : (vmmInit L M heap).dirs = [] := by unfold Vm.dirs; rw [hsp, List.map_nil]
  exact ⟨by rw [hdirs]; exact h, hb, hdir, ⟨fun g hg => hregs.mem_iff.mpr hg, fun g hg =>
    .inl (hregs.mem_iff.mp hg)⟩, by rw [hsp]; simp, by rw [hdirs]; simp⟩

/-- **Boot**, if it succeeds, leaves the invariant in force. -/
theorem bootVm_ok (ht : (pmmInit L bitmap mmap).totalFrames ≤ 32784)
    (he : bootVm L phys bitmap bytes mmap = some vm) :
    ∃ M, BootEffect L (pmmInit L bitmap mmap) bytes M vm := by
  obtain ⟨M, hload, htab, hcr3, hpm⟩ := pagingInitLoad_ok L phys (pmmInit L bitmap mmap)
  have hi : MachInv L [] M := htab.inv hcr3 (by rw [hpm]; exact pmmInit_reserves L bitmap mmap)
    (by rw [hpm]; exact ht)
  obtain ⟨ok, M', hmap, e, -, hyes, hno⟩ := kheapInit_machine hi htab bytes
  unfold bootVm at he
  rw [hload, Option.bind_eq_bind, Option.bind_some] at he
  cases ok with
  | false =>
    obtain ⟨h', hk⟩ := hno rfl
    rw [hk, Option.bind_eq_bind, Option.bind_some] at he
    cases he
  | true =>
    rw [hyes rfl, Option.bind_eq_bind, Option.bind_some] at he
    cases he
    obtain ⟨-, hregs, hpool⟩ := vmmInit_lists L M' (initialHeap bytes)
    exact ⟨M, htab, hi, hpm, rfl, hmap, e, vmmInit_inv e.inv (initialHeap_bounds bytes), rfl, hpool,
      hregs⟩

theorem bootVm_some (L : Layout) (phys : Phys) (bytes : Bytes)
    (ht : (pmmInit L bitmap mmap).totalFrames ≤ 32784)
    (hr : 512 < reachable (pmmInit L bitmap mmap)) :
    ∃ vm, bootVm L phys bitmap bytes mmap = some vm := by
  obtain ⟨M, hload, htab, hcr3, hpm⟩ := pagingInitLoad_ok L phys (pmmInit L bitmap mmap)
  have hi : MachInv L [] M := htab.inv hcr3 (by rw [hpm]; exact pmmInit_reserves L bitmap mmap)
    (by rw [hpm]; exact ht)
  obtain ⟨ok, M', hmap, e, hok, hyes, -⟩ := kheapInit_machine hi htab bytes
  refine ⟨vmmInit L M' (initialHeap bytes), ?_⟩
  unfold bootVm
  rw [hload, Option.bind_eq_bind, Option.bind_some, hyes (hok (by rw [hpm]; exact hr)),
    Option.bind_eq_bind, Option.bind_some]
  rfl

end Boot

end TupleOS.Memory
