import TupleOS.Memory.VmRun

/-!
# Page tables in the direct window

`paging.c` reaches a table or directory `t` at `PHYS_TO_VIRT(t)`. While new ones
come from below 4 MB that address maps `t` itself (`tables_direct_mapped`): the
window up to 4 MB is never remapped. From 4 MB on, the heap takes the place of the
direct mapping. Once the frames below are used up, the next directory is written
over a page of the heap (`directory_over_heap`).
-/

namespace TupleOS.Memory

open TupleOS.Base TupleOS.Heap

/-- The frame was taken for a page table or a page directory. -/
def TakenTable (L : Layout) (vm : Vm) (t : Nat) : Prop := IsTable L vm.mach.phys t ∨ t ∈ vm.dirs

/-- The page at which the code reaches frame `t`. -/
def directPage (t : Nat) : Nat := physToVirt (t * pageSize) / pageSize

/-- Frame `t` is reached at its direct address, which is no page of the heap nor of
a mapped region. -/
structure DirectMapped (L : Layout) (vm : Vm) (t : Nat) : Prop where
  self : kmap L vm.mach.phys (directPage t) = some t
  heap : ¬ InRange heapStartAddr maxHeapSize (directPage t)
  region : ∀ s a, vm.space s = some a → ∀ g ∈ a.regions, g ∉ kernelRegions L →
    ¬ InRange g.base g.size (directPage t)

def DirectGuard (L : Layout) (vm : Vm) (op : VmOp) : Prop := op.Valid vm ∧ op.Fits L vm

section Direct

variable {L : Layout} {vm : Vm} {t : Nat}

theorem directPage_low (ht : t < 1024) : directPage t = 0xC0000 + t := by
  unfold directPage
  rw [physToVirt_low ht]
  unfold pageSize
  omega

theorem VmInv.taken_low (h : VmInv L vm) (ht : TakenTable L vm t) :
    kernelEndFrame L ≤ t ∧ t < 1024 := by
  rcases ht with ht | ht
  · have := h.mach.tables.table t ht
    exact ⟨this.1, this.2.1⟩
  · have := (h.mach.tables.dir t ht).1
    exact ⟨this.1, this.2.1⟩

theorem VmInv.directMapped (h : VmInv L vm) (ht : TakenTable L vm t) : DirectMapped L vm t := by
  obtain ⟨h1, h2⟩ := h.taken_low ht
  have hk := (kernelEndFrame_bounds L).1
  have hw := h.mach.direct.walk (f := t) (by omega) h2
  rw [h.mach.cr3] at hw
  refine ⟨?_, ?_, fun s a ha g hg hnk => ?_⟩
  · rw [directPage_low h2, kmap, hw, Option.map_some, entry_frame]
  · rw [directPage_low h2]
    unfold InRange heapStartAddr maxHeapSize pageSize
    omega
  · rw [directPage_low h2]
    intro hin
    have hreg := ((h.space_ok ha).others g hg).resolve_left hnk
    rcases (hreg.pages hin).2.2.2 with hf | hf <;> omega

/-- **Tables and directories are reached where they are** in every state of a run
whose calls find frames below 4 MB for them. -/
theorem tables_direct_mapped {phys : Phys} {bitmap : Bitmap} {bytes : Bytes}
    {mmap : Option (List MmapEntry)} {vm₀ : Vm} {ops : List VmOp}
    (ht : (pmmInit L bitmap mmap).totalFrames ≤ 32784)
    (hb : bootVm L phys bitmap bytes mmap = some vm₀)
    (hrun : Run (vmStep L) (DirectGuard L) vm₀ ops vm) :
    ∀ t, TakenTable L vm t → DirectMapped L vm t := by
  obtain ⟨M, hb⟩ := bootVm_ok ht hb
  have hi : VmInv L vm := by
    refine hrun.invariant (VmInv L) (fun h hg he => ?_) hb.inv
    obtain ⟨_, he⟩ := vmStep_some he
    exact (h.step hg.1 hg.2 he).inv
  exact fun t => hi.directMapped

/-- The theorem at a boot and the directory of one new space. -/
theorem tables_direct_mapped_first : ∃ vm₀ vm₁ space, sampleBootVm = some vm₀ ∧
    vmStep sampleLayout vm₀ .create = some vm₁ ∧ vm₁.space (.created firstSpace) = some space ∧
    DirectMapped sampleLayout vm₁ (frameOf space.pageDirectory) := by
  obtain ⟨M, vm₀, vm₁, space, hf⟩ := firstSpace_ok
  have hg : DirectGuard sampleLayout vm₀ .create := ⟨trivial, hf.fits⟩
  exact ⟨vm₀, vm₁, space, hf.boot, hf.step, hf.lookup,
    tables_direct_mapped (by rw [samplePmm.1]; decide) hf.boot (.cons hg hf.step (.nil vm₁)) _
      (.inr (mem_dirs hf.lookup))⟩

end Direct

/-! ## When the low frames run out -/

section Drain

variable {L : Layout} {dirs : List Nat} {M M' : Machine} {bytes bytes' : Bytes} {n : Nat}

/-- What the mapping loop of the heap did with low frames alone. -/
structure LowGrowth (L : Layout) (M M' : Machine) (lo hi : Nat) : Prop where
  low : lowFree M'.pmm + (hi - lo) = lowFree M.pmm
  high : ∀ g, 1024 ≤ g → M.pmm.Free g → M'.pmm.Free g
  before : ∀ u < 2 ^ 20, u < lo → walk M'.phys (pdFrame L) u = walk M.phys (pdFrame L) u
  mapped : ∀ u, lo ≤ u → u < hi → ∃ f, kmap L M'.phys u = some f ∧ kernelEndFrame L ≤ f ∧ f < 1024

/-- While low frames last, the heap takes those. -/
theorem MachInv.mapHeapPages_low (h : MachInv L dirs M) (base : Nat) (hal : base % pageSize = 0)
    (hlo : 0xC0400 ≤ base / pageSize) (hhi : base / pageSize + n ≤ 0xC1400)
    (hp : ∀ u, base / pageSize ≤ u → u < base / pageSize + n →
      isPresent (M.phys (pdFrame L) (u / 1024)) = true) (hn : n ≤ lowFree M.pmm)
    (he : mapHeapPages (vmEnv L) M bytes base n = some (true, M', bytes')) :
    LowGrowth L M M' (base / pageSize) (base / pageSize + n) := by
  induction n generalizing base M with
  | zero =>
    cases he
    exact ⟨by omega, fun _ _ hg => hg, fun _ _ _ => rfl, fun u h1 h2 => by omega⟩
  | succ n ih =>
    rcases h.tables.pmmAllocFrame_cases with ⟨ha, -⟩ | ⟨f, p', ha, tk⟩
    · rw [mapHeapPages_none bytes base n ha] at he
      cases he
    · obtain ⟨M1, hmap, hpm, e⟩ := h.mapHeapPage_present (pagePresent ||| pageWrite) hlo
        (by omega) tk (hp _ (Nat.le_refl _) (by omega))
      rw [h.mapHeapPages_succ bytes n ha tk hmap] at he
      have hf := tk.low (by omega)
      have hcount : lowFree M1.pmm + 1 = lowFree M.pmm := by
        rw [hpm, lowFree, tk.bitmap]
        exact Bitmap.clearCount_set tk.free hf
      have hnext : (base + pageSize) / pageSize = base / pageSize + 1 := by
        unfold pageSize; omega
      have g := ih e.inv (base + pageSize) (by unfold pageSize at *; omega) (by omega)
        (by omega) (fun u h1 h2 => by
          have hpu := hp u (by omega) (by omega)
          rw [e.slots _ (page_slot (by omega)) (.inr hpu)]
          exact hpu) (by omega) he
      rw [hnext, show base / pageSize + 1 + n = base / pageSize + (n + 1) by omega] at g
      refine ⟨by have := g.low; omega, fun x hx hfree => g.high x hx ?_, fun u hu hlt => ?_,
        fun u h1 h2 => ?_⟩
      · rw [hpm, free_set tk.bitmap]
        exact ⟨by omega, hfree⟩
      · rw [g.before u hu (by omega)]
        exact e.others u hu (by omega)
      · by_cases hu : u = base / pageSize
        · subst hu
          obtain ⟨pde, hw⟩ := e.walk_here (hp (base / pageSize) (Nat.le_refl _) (by omega))
          refine ⟨f, ?_, (tk.owned h.tables).1.ge, hf⟩
          rw [← g.before _ (by omega) (by omega)] at hw
          exact kmap_pteFor hw
        · exact g.mapped u (by omega) h2

end Drain

/-! ## A directory over the heap -/

section Over

/-- 1 MB from the end of a 128 KB image, and 12 MB from 4 MB on. -/
def gapMap : Option (List MmapEntry) :=
  some [⟨0x120000#64, 0x100000#64, memoryAvailable⟩, ⟨0x400000#64, 0xC00000#64, memoryAvailable⟩]

theorem gapPmm : (pmmInit sampleLayout (fun _ => 0#8) gapMap).totalFrames = 3328 ∧
    ∀ g < 4096, (pmmInit sampleLayout (fun _ => 0#8) gapMap).Free g ↔
      (288 ≤ g ∧ g < 544) ∨ (1024 ≤ g ∧ g < 4096) := by
  obtain ⟨hfree, htot⟩ := releaseEntry_range (L := sampleLayout) (p := fullPmm fun _ => 0#8)
    ⟨0x120000#64, 0x100000#64, memoryAvailable⟩ 288 544 rfl (by decide)
    (by decide) (by decide) (by decide) (by decide)
  have htot1 : (releaseEntry sampleLayout (fullPmm fun _ => 0#8)
    ⟨0x120000#64, 0x100000#64, memoryAvailable⟩).totalFrames = 256 := htot
  rw [gapMap, pmmInit_some, List.foldl_cons, List.foldl_cons, List.foldl_nil]
  generalize releaseEntry sampleLayout (fullPmm fun _ => 0#8)
    ⟨0x120000#64, 0x100000#64, memoryAvailable⟩ = p at hfree htot1
  obtain ⟨hfree', htot'⟩ := releaseEntry_range (L := sampleLayout) (p := p)
    ⟨0x400000#64, 0xC00000#64, memoryAvailable⟩ 1024 4096 rfl (by decide)
    (by decide) (by decide) (by decide) (by rw [htot1]; decide)
  refine ⟨by rw [htot', htot1], fun g hg => ?_⟩
  rw [hfree', hfree]
  have hfull : ¬ (fullPmm fun _ => 0#8).Free g := fullPmm_used _ (by
    rw [show capacity = 32784 from rfl]; omega)
  simp only [hfull, false_or]

/-- Boot under that map, on blank memory. -/
def gapBootVm : Option Vm := bootVm sampleLayout (fun _ _ => 0) (fun _ => 0#8) (fun _ => 0#8) gapMap

theorem gapBootVm_ok : ∃ vm M, gapBootVm = some vm ∧
    BootEffect sampleLayout (pmmInit sampleLayout (fun _ => 0#8) gapMap) (fun _ => 0#8) M vm ∧
    LowGrowth sampleLayout M vm.mach 0xC0400 0xC0500 ∧ lowFree vm.mach.pmm = 0 ∧
    0 < reachable vm.mach.pmm ∧ vm.mach.pmm.Free 1024 := by
  obtain ⟨htot, hfree⟩ := gapPmm
  have hlow : lowFree (pmmInit sampleLayout (fun _ => 0#8) gapMap) = 256 := by
    apply Nat.le_antisymm
    · exact Bitmap.clearCount_le 288 544 fun g hg hclear => by
        have := (hfree g (by omega)).mp hclear
        omega
    · exact Bitmap.le_clearCount 288 544
        (fun g h1 h2 => (hfree g (by omega)).mpr (.inl ⟨h1, h2⟩)) (by omega)
  have hreach : 2304 ≤ reachable (pmmInit sampleLayout (fun _ => 0#8) gapMap) := by
    unfold reachable
    rw [htot]
    exact Bitmap.le_clearCount 1024 3328
      (fun g h1 h2 => (hfree g (by omega)).mpr (.inr ⟨h1, by omega⟩)) (by omega)
  obtain ⟨vm, hvm⟩ := bootVm_some sampleLayout (fun _ _ => 0) (fun _ => 0#8)
    (show (pmmInit sampleLayout (fun _ => 0#8) gapMap).totalFrames ≤ 32784 by omega) (by omega)
  obtain ⟨M, hb⟩ := bootVm_ok (by omega) hvm
  have hg : LowGrowth sampleLayout M vm.mach 0xC0400 (0xC0400 + 256) :=
    hb.start.mapHeapPages_low heapStartAddr rfl (Nat.le_refl _) (Nat.le_of_ble_eq_true rfl)
      (fun u h1 h2 => hb.tables.heap_present u h1 h2) (by rw [hb.pmm, hlow]) hb.map
  have hl := hg.low
  have hr := hb.grow.reach
  rw [hb.pmm] at hl hr
  refine ⟨vm, M, hvm, hb, hg, by omega, by omega, hg.high 1024 (Nat.le_refl _) ?_⟩
  rw [hb.pmm]
  exact (hfree 1024 (by omega)).mpr (.inr ⟨by omega, by omega⟩)

theorem BootEffect.no_table {L : Layout} {p : Pmm} {bytes : Bytes} {M : Machine} {vm : Vm}
    (h : BootEffect L p bytes M vm) (f : Nat) : ¬ IsTable L vm.mach.phys f := by
  rintro ⟨s, hs, hp, -⟩
  rw [h.grow.slots s hs.1 (.inl fun u h1 h2 => by have := hs.2; omega), h.tables.absent s hs] at hp
  cases hp

theorem TookFrame.first_high {p p' : Pmm} {f : Nat} (tk : TookFrame p p' f)
    (hl : Memory.lowFree p = 0)
    (hf : p.Free 1024) : f = 1024 := by
  have hle : ¬ 1024 < f := fun hlt => tk.lowest 1024 hlt hf
  have hge : ¬ f < 1024 := fun hlt => by
    have := Bitmap.clearCount_set tk.free hlt
    unfold Memory.lowFree at hl
    omega
  omega

/-- **A directory over the heap**: with the low frames gone, the first space's
directory is frame 1024, and its direct address is the first page of the heap. -/
theorem directory_over_heap : ∃ vm₀ vm₁, gapBootVm = some vm₀ ∧
    vmStep sampleLayout vm₀ .create = some vm₁ ∧ TakenTable sampleLayout vm₁ 1024 ∧
    InRange heapStartAddr initialHeapSize (directPage 1024) ∧
    ¬ DirectMapped sampleLayout vm₁ 1024 := by
  obtain ⟨vm₀, M, hvm, hb, hg, hl, hr, hfree⟩ := gapBootVm_ok
  have hi := hb.inv.mach
  obtain ⟨heap, hk⟩ := initialHeap_kmalloc sampleLayout (fun _ => 0#8) vm₀.mach
  rw [← hb.heap] at hk
  obtain ⟨f, p', ha, tk⟩ := hi.tables.alloc_some hr
  obtain rfl := tk.first_high hl hfree
  -- the page at which the directory is written is a heap page, backed by a low frame
  obtain ⟨d, hd, hge, hlt⟩ := hg.mapped 0xC0400 (by omega) (by omega)
  obtain ⟨⟨e, e'⟩, hw, rfl⟩ := Option.map_eq_some_iff.mp hd
  have hnt : ¬ TableFrame sampleLayout vm₀.mach.phys (frameOf e') :=
    hi.tables.not_tableFrame hge (hb.no_table _)
  obtain ⟨M', hc, -, -, hsame, -, -⟩ := hi.createDirectory_at ha tk hw rfl hnt
  have hk' : kmap sampleLayout M'.phys (directPage 1024) = some (frameOf e') := by
    show (walk M'.phys _ 0xC0400).map _ = _
    rw [walk_frame (fun g hg => hsame g fun heq => hnt (heq ▸ hg)) (by omega), hw]
    rfl
  have hpool : vm₀.regionPoolUsed + vm₀.kernelSpace.regions.length ≤ vmmMaxRegions := by
    have h4 := kernelRegions_length sampleLayout
    rw [hb.pool, hb.regions.length_eq]
    unfold vmmMaxRegions
    omega
  obtain ⟨hdir, -, -⟩ := registerAll_ok vm₀.kernelSpace.regions
    ⟨1024 * pageSize, [], 0⟩ vm₀.regionPoolUsed hpool
  generalize hreg : registerAll ⟨1024 * pageSize, [], 0⟩ vm₀.regionPoolUsed
    vm₀.kernelSpace.regions = sp at hdir
  obtain ⟨space, used⟩ := sp
  refine ⟨vm₀, ⟨M', heap, vm₀.kernelSpace, (firstSpace, space) :: vm₀.spaces, used⟩, hvm,
    ?_, .inr ?_, ⟨by decide, by decide⟩, fun hdm => ?_⟩
  · unfold vmStep vmCall vmmCreateAddressSpace
    rw [hk, Option.bind_eq_bind, Option.bind_some]
    simp only [if_neg (show firstSpace ≠ 0 by decide), hc, Option.bind_eq_bind, Option.bind_some,
      if_neg (show 1024 * pageSize ≠ 0 by decide), hreg, Option.map_some]
  · refine List.mem_map.mpr ⟨(firstSpace, space), List.mem_cons_self, ?_⟩
    rw [show space.pageDirectory = 1024 * pageSize from hdir]
    rfl
  · have heq : frameOf e' = 1024 := Option.some.inj (hk'.symm.trans hdm.self)
    simp only at hlt
    omega

end Over

end TupleOS.Memory
