import TupleOS.Memory.RegionLists

/-!
# Giving back what was taken

`remove_region` and `vmm_destroy_address_space` unlink regions, but
`region_pool_used` only counts up: a slot that was taken is never obtainable
again (`slots_never_return`). One page mapped and unmapped has used one up
(`unmap_keeps_slot`). What is left of the intended law are the runs in which
every call is turned down before it takes anything (`resources_conserved`).
-/

namespace TupleOS.Memory

open TupleOS.Base TupleOS.Heap

/-- The calls that `alloc_region` can still answer. -/
def Vm.freeSlots (vm : Vm) : Nat := vmmMaxRegions - vm.regionPoolUsed

/-- Every region mapped since `vm₀` is unmapped and every space made since is gone. -/
structure WoundUp (vm₀ vm : Vm) : Prop where
  regions : vm.kernelSpace.regions.Perm vm₀.kernelSpace.regions
  spaces : vm.spaces = vm₀.spaces

/-- The free frames and the free slots are those of `vm₀`. -/
structure Conserved (vm₀ vm : Vm) : Prop where
  frames : ∀ g, vm.mach.pmm.Free g ↔ vm₀.mach.pmm.Free g
  slots : vm.freeSlots = vm₀.freeSlots

def NoFrame (p : Pmm) : Prop := ∀ g < 8 * (p.totalFrames / 8), ¬ p.Free g

/-- The call is turned down before it takes a frame or a slot, and it is not the
unmapping of the MMIO region, whose frames were never taken. -/
def VmOp.TakesNothing (vm : Vm) : VmOp → Prop
  | .create => HasRoom vm.heap addressSpaceSize ∧ NoFrame vm.mach.pmm
  | .map s vaddr size _ _ => MapRefused vm s vaddr size ∨ (0 < size ∧ NoFrame vm.mach.pmm)
  | .unmap _ vaddr => vaddr ≠ 0xC0001000
  | _ => True

def ConserveGuard (vm : Vm) (op : VmOp) : Prop :=
  op.Valid vm ∧ op.EditsRegions ∧ op.TakesNothing vm

/-- Only the heap has changed since `vm₀`. -/
structure SameButHeap (vm₀ vm : Vm) : Prop where
  mach : vm.mach = vm₀.mach
  kernel : vm.kernelSpace = vm₀.kernelSpace
  spaces : vm.spaces = vm₀.spaces
  pool : vm.regionPoolUsed = vm₀.regionPoolUsed

section Steps

variable {L : Layout} {vm₀ vm vm' : Vm} {op : VmOp} {s : SpaceRef} {r : Int} {M : Machine}

theorem NoFrame.alloc (h : NoFrame M.pmm) : machMem.pmmAllocFrame M = (0, M) := by
  rcases pmmAllocFrame_cases M.pmm with ⟨he, -⟩ | ⟨f, -, hfree, hlt, -⟩
  · show ((pmmAllocFrame M.pmm).1, M.withPmm (pmmAllocFrame M.pmm).2) = _
    rw [he]
    rfl
  · exact absurd hfree (h f hlt)

theorem NoFrame.mapRegion {vaddr size flags : Nat} {type : RegionType} (h : NoFrame vm.mach.pmm)
    (h0 : 0 < size) : vmmMapRegion L vm s vaddr size flags type = some (-1, vm) := by
  by_cases hr : MapRefused vm s vaddr size
  · exact vmmMapRegion_refused hr
  obtain ⟨space, hs, hchecks⟩ := not_forall₂.mp hr
  obtain ⟨ha, hsz, hno⟩ : vaddr % pageSize = 0 ∧ size % pageSize = 0 ∧
      ¬ space.regions.any (overlaps vaddr size) = true := by
    simpa only [not_or, not_not] using hchecks
  obtain ⟨n, hn⟩ : ∃ n, size / pageSize = n + 1 :=
    ⟨size / pageSize - 1, by unfold pageSize at *; omega⟩
  unfold vmmMapRegion
  simp only [hs]
  rw [if_neg (by simpa using ha), if_neg (by simpa using hsz), if_neg hno, hn, mapPages, h.alloc]
  rfl

theorem NoFrame.create {p : Nat} (h : NoFrame vm.mach.pmm) (hr : HasRoom vm.heap addressSpaceSize)
    (he : vmmCreateAddressSpace L vm = some (p, vm')) : SameButHeap vm vm' := by
  unfold vmmCreateAddressSpace at he
  obtain ⟨⟨q, h1, M1⟩, hk, he⟩ := Option.bind_eq_some_iff.mp he
  obtain rfl : M1 = vm.mach := by
    rcases kmalloc_cases hk with ⟨rfl, -⟩ | ⟨-, hfull, -⟩
    · rfl
    · exact absurd hr hfull
  simp only at he
  split at he
  · cases he
    exact ⟨rfl, rfl, rfl, rfl⟩
  rw [pagingCreateDirectory_eq, h.alloc] at he
  simp only [↓reduceIte, Option.bind_eq_bind, Option.bind_some] at he
  obtain ⟨h2, -, he⟩ := Option.bind_eq_some_iff.mp he
  cases he
  exact ⟨rfl, rfl, rfl, rfl⟩

/-- As long as there is only the kernel's space with the regions of `vmm_init`,
only the MMIO region can be unmapped. -/
theorem unmapRefused_kernel {vaddr : Nat} (hregs : vm.kernelSpace.regions.Perm (kernelRegions L))
    (hsp : vm.spaces = []) (hv : vaddr ≠ 0xC0001000) : UnmapRefused vm s vaddr := by
  rintro g ⟨space, hs, hf⟩
  have hbase : g.base = vaddr := by simpa using List.find?_some hf
  cases s with
  | null => cases hs
  | kernel =>
    cases hs
    exact kernelRegion_protected (hregs.mem_iff.mp (List.mem_of_find?_eq_some hf)) (by rwa [hbase])
  | created p =>
    rw [Vm.space, hsp] at hs
    cases hs

theorem SameButHeap.trans {vm₁ : Vm} (h : SameButHeap vm₀ vm₁) (h' : SameButHeap vm₁ vm) :
    SameButHeap vm₀ vm :=
  ⟨h'.mach.trans h.mach, h'.kernel.trans h.kernel, h'.spaces.trans h.spaces, h'.pool.trans h.pool⟩

/-- One call that takes nothing. -/
theorem TakesNothing.step (hregs : vm.kernelSpace.regions.Perm (kernelRegions L))
    (hsp : vm.spaces = []) (hg : ConserveGuard vm op) (he : vmStep L vm op = some vm') :
    SameButHeap vm vm' := by
  obtain ⟨r, he⟩ := vmStep_some he
  obtain ⟨-, hop, htake⟩ := hg
  cases op with
  | create =>
    obtain ⟨⟨p, vm₁⟩, hc, he⟩ := Option.map_eq_some_iff.mp he
    cases he
    exact htake.2.create htake.1 hc
  | map s vaddr size flags type =>
    have hnone : vmCall L vm (.map s vaddr size flags type) = some (-1, vm) :=
      htake.elim vmmMapRegion_refused fun h => h.2.mapRegion h.1
    rw [hnone] at he
    cases he
    exact ⟨rfl, rfl, rfl, rfl⟩
  | unmap s vaddr =>
    rw [vmCall, vmmUnmapRegion_refused (unmapRefused_kernel hregs hsp htake)] at he
    cases he
    exact ⟨rfl, rfl, rfl, rfl⟩
  | destroy s =>
    obtain ⟨vm₁, hd, he⟩ := Option.map_eq_some_iff.mp he
    cases he
    cases s with
    | null => cases hd; exact ⟨rfl, rfl, rfl, rfl⟩
    | kernel => cases hd; exact ⟨rfl, rfl, rfl, rfl⟩
    | created p =>
      rw [vmmDestroyAddressSpace, hsp] at hd
      cases hd
  | kmalloc size => exact hop.elim
  | kfree p => exact hop.elim
  | mapPage v p flags => exact hop.elim
  | unmapPage v => exact hop.elim

/-- **What the calls take is given back** in a run from `vmm_init` whose calls are
all turned down before they take anything. -/
theorem resources_conserved {m : Machine} {h : KHeap} {ops : List VmOp}
    (hrun : Run (vmStep L) ConserveGuard (vmmInit L m h) ops vm) :
    WoundUp (vmmInit L m h) vm ∧ Conserved (vmmInit L m h) vm := by
  obtain ⟨-, hregs, -⟩ := vmmInit_lists L m h
  have hsame : SameButHeap (vmmInit L m h) vm := by
    refine hrun.invariant (SameButHeap (vmmInit L m h)) (fun hi hg he => hi.trans ?_)
      ⟨rfl, rfl, rfl, rfl⟩
    exact TakesNothing.step (by rw [hi.kernel]; exact hregs) (by rw [hi.spaces]; rfl) hg he
  refine ⟨⟨by rw [hsame.kernel], hsame.spaces⟩, fun g => by rw [hsame.mach], ?_⟩
  rw [Vm.freeSlots, Vm.freeSlots, hsame.pool]

end Steps

/-- A page inside the heap's region, and a base without a region. -/
def refusedOps : List VmOp :=
  [.map .kernel 0xC0400000 4096 (vmmRead ||| vmmWrite) .userData, .unmap .kernel 0xD0000000]

/-- The theorem at a boot and two calls that are turned down. -/
theorem resources_conserved_refused : ∃ vm₀ vm, sampleBootVm = some vm₀ ∧
    Run (vmStep sampleLayout) ConserveGuard vm₀ refusedOps vm ∧ Conserved vm₀ vm := by
  obtain ⟨vm₀, M, hvm, hb, -, -⟩ := sampleBootVm_ok
  have hmap : MapRefused vm₀ .kernel 0xC0400000 4096 := by
    rintro space hs
    cases hs
    refine .inr (.inr (List.any_eq_true.mpr ⟨_, hb.regions.mem_iff.mpr
      (mem_kernelRegions.mpr (.inr (.inr (.inr rfl)))), by decide⟩))
  have hun : UnmapRefused vm₀ .kernel 0xD0000000 :=
    unmapRefused_kernel hb.regions hb.spaces (by decide)
  have hrun : Run (vmStep sampleLayout) ConserveGuard vm₀ refusedOps vm₀ :=
    .cons ⟨⟨.inr ⟨_, rfl⟩, by decide, by decide, by decide⟩, trivial, .inl hmap⟩
      (vmStep_of_call (vmmMapRegion_refused hmap))
      (.cons ⟨⟨.inr ⟨_, rfl⟩, by decide⟩, trivial, show 0xD0000000 ≠ 0xC0001000 by decide⟩
        (vmStep_of_call (vmmUnmapRegion_refused hun)) (.nil vm₀))
  obtain ⟨m, h, rfl⟩ := bootVm_init hvm
  exact ⟨_, _, hvm, hrun, (resources_conserved hrun).2⟩

/-! ## Slots do not come back -/

section Slots

variable {L : Layout} {vm₀ vm vm' : Vm} {op : VmOp}

theorem setSpace_pool (vm : Vm) (s : SpaceRef) (a : AddressSpace) :
    (vm.setSpace s a).regionPoolUsed = vm.regionPoolUsed := by cases s <;> rfl

theorem vmStep_pool (hop : op.EditsRegions) (he : vmStep L vm op = some vm') :
    vm.regionPoolUsed ≤ vm'.regionPoolUsed := by
  obtain ⟨r, he⟩ := vmStep_some he
  cases op with
  | create =>
    obtain ⟨⟨p, vm₁⟩, hc, he⟩ := Option.map_eq_some_iff.mp he
    cases he
    rcases vmmCreateAddressSpace_cases hc with ⟨-, heap, M, rfl⟩ | ⟨heap, M, dir, -, rfl⟩
    · exact Nat.le_refl _
    · obtain ⟨gs, -, -, hn⟩ := registerAll_sublist vm.kernelSpace.regions ⟨dir, [], 0⟩
        vm.regionPoolUsed
      simp only [hn]
      omega
  | map s vaddr size flags type =>
    rcases vmmMapRegion_cases he with ⟨-, M, rfl⟩ | ⟨space, M, -, -, -, rfl⟩
    · exact Nat.le_refl _
    · rw [setSpace_pool]
      exact Nat.le_succ _
  | unmap s vaddr =>
    rcases vmmUnmapRegion_cases he with ⟨-, rfl⟩ | ⟨space, region, M, -, -, -, rfl⟩
    · exact Nat.le_refl _
    · rw [setSpace_pool]
  | destroy s =>
    obtain ⟨vm₁, hd, he⟩ := Option.map_eq_some_iff.mp he
    cases he
    rcases vmmDestroyAddressSpace_cases hd with rfl | ⟨q, heap, M, -, rfl⟩ <;> exact Nat.le_refl _
  | kmalloc size => exact hop.elim
  | kfree p => exact hop.elim
  | mapPage v p flags => exact hop.elim
  | unmapPage v => exact hop.elim

/-- A slot that was taken is not obtainable again, whatever is unmapped or
destroyed later. -/
theorem slots_never_return {ops : List VmOp}
    (hrun : Run (vmStep L) (fun _ op => op.EditsRegions) vm₀ ops vm) :
    vm.freeSlots ≤ vm₀.freeSlots := by
  have hle : vm₀.regionPoolUsed ≤ vm.regionPoolUsed :=
    hrun.invariant (fun vm => vm₀.regionPoolUsed ≤ vm.regionPoolUsed)
      (fun h hop he => Nat.le_trans h (vmStep_pool hop he)) (Nat.le_refl _)
  unfold Vm.freeSlots
  omega

theorem eraseBase_perm {base : Nat} {r : Region} : ∀ {rs : List Region},
    rs.find? (fun g => g.base = base) = some r → rs.Perm (r :: eraseBase base rs)
  | [], h => by cases h
  | x :: xs, h => by
    rw [eraseBase]
    by_cases hx : x.base = base
    · rw [List.find?_cons_of_pos (by simpa using hx)] at h
      cases h
      rw [if_pos hx]
    · rw [List.find?_cons_of_neg (by simpa using hx)] at h
      rw [if_neg hx]
      exact ((eraseBase_perm h).cons x).trans (.swap _ _ _)

theorem find_base {r : Region} {rs : List Region} (hr : r ∈ rs)
    (hu : ∀ g ∈ rs, g.base = r.base → g = r) : rs.find? (fun g => g.base = r.base) = some r := by
  have hsome : (rs.find? fun g => g.base = r.base).isSome = true :=
    List.find?_isSome.mpr ⟨r, hr, by simp⟩
  obtain ⟨g, hg⟩ := Option.isSome_iff_exists.mp hsome
  rw [hg, hu g (List.mem_of_find?_eq_some hg) (by simpa using List.find?_some hg)]

theorem kernelRegion_base_lt {g : Region} (hg : g ∈ kernelRegions L) : g.base < 0xC1400000 := by
  have h := (kernelEnd_page L).2.1
  rcases mem_kernelRegions.mp hg with rfl | rfl | ⟨-, rfl⟩ | rfl <;> simp only <;> omega

theorem VmInv.unmap_succeeds {s : SpaceRef} {space : AddressSpace} {r : Region} (h : VmInv L vm)
    (hs : vm.space s = some space) (hf : space.regions.find? (fun g => g.base = r.base) = some r)
    (hr : RegionOk r) (ht : RegionType.identityMap.val < r.type.val) :
    ∃ M, vmmUnmapRegion L vm s r.base =
      some (0, { vm with mach := M }.setSpace s (removeRegion space r.base)) := by
  have hcount : (r.size + (pageSize - 1)) / pageSize = r.size / pageSize := by
    have := hr.aligned
    unfold pageSize at *
    omega
  obtain ⟨M, hrel, -⟩ := h.mach.releasePages_ok (roundDown pageSize)
    (fun a => by unfold frameOf roundDown pageSize; omega) hr.range
  refine ⟨M, ?_⟩
  unfold vmmUnmapRegion
  simp only [hs, hf]
  rw [if_neg (by omega), hcount, hrel]
  rfl

end Slots

/-- One page of data for the kernel. -/
def dataPage : Region := ⟨0xD0000000, 4096, vmmRead ||| vmmWrite, .userData⟩

def mapData : VmOp := .map .kernel dataPage.base dataPage.size dataPage.flags dataPage.type

def unmapData : VmOp := .unmap .kernel dataPage.base

/-- **One page mapped and unmapped** has used up a slot. -/
theorem unmap_keeps_slot : ∃ vm₀ vm₁ vm₂, sampleBootVm = some vm₀ ∧
    mapData.Valid vm₀ ∧ vmStep sampleLayout vm₀ mapData = some vm₁ ∧
    unmapData.Valid vm₁ ∧ vmStep sampleLayout vm₁ unmapData = some vm₂ ∧
    WoundUp vm₀ vm₂ ∧ ¬ Conserved vm₀ vm₂ := by
  obtain ⟨vm₀, M, hvm, hb, hlow, hreach⟩ := sampleBootVm_ok
  have hfour := kernelRegions_length sampleLayout
  have hpool : vm₀.regionPoolUsed < vmmMaxRegions := by
    rw [hb.pool]
    unfold vmmMaxRegions
    omega
  obtain ⟨vm₁, he₁⟩ := hb.inv.onePage_succeeds (s := .kernel) dataPage.base dataPage.flags
    dataPage.type rfl hb.regions rfl (by decide) (.inr (by decide)) (by omega) (by omega) hpool
  have hstep₁ : vmStep sampleLayout vm₀ mapData = some vm₁ := vmStep_of_call he₁
  have hi := (hb.inv.map_ok (.inr (onePage_fits (by decide) (by omega))) he₁).op.inv
  rcases vmmMapRegion_cases he₁ with ⟨hr, -⟩ | ⟨space, M₁, -, hacc, -, rfl⟩
  · cases hr
  obtain rfl : vm₀.kernelSpace = space := Option.some.inj hacc.live
  have hperm : (insertRegion vm₀.kernelSpace dataPage).regions.Perm
      (dataPage :: vm₀.kernelSpace.regions) := insertRegion_perm
  have hf : (insertRegion vm₀.kernelSpace dataPage).regions.find?
      (fun g => g.base = dataPage.base) = some dataPage := by
    apply find_base (hperm.mem_iff.mpr List.mem_cons_self)
    intro g hg hbase
    rcases List.mem_cons.mp (hperm.mem_iff.mp hg) with rfl | hg
    · rfl
    · have hlt := kernelRegion_base_lt (hb.regions.mem_iff.mp hg)
      rw [hbase] at hlt
      exact absurd hlt (by decide)
  have hreg : RegionOk dataPage :=
    hb.inv.kernel.region_ok rfl rfl (by decide) hacc.free
  obtain ⟨M₂, he₂⟩ := hi.unmap_succeeds (s := .kernel) rfl hf hreg (by decide)
  have hstep₂ : vmStep sampleLayout _ unmapData = some _ := vmStep_of_call he₂
  refine ⟨vm₀, _, _, hvm, ⟨.inr ⟨_, rfl⟩, by decide, by decide, by decide⟩, hstep₁,
    ⟨.inr ⟨_, rfl⟩, by decide⟩, hstep₂, ⟨?_, rfl⟩, fun hc => ?_⟩
  · exact ((eraseBase_perm hf).symm.trans hperm).cons_inv
  · have hs : vmmMaxRegions - (vm₀.regionPoolUsed + 1) = vmmMaxRegions - vm₀.regionPoolUsed :=
      hc.slots
    omega

end TupleOS.Memory
