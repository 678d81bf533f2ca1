import TupleOS.Memory.VmRun

/-!
# The shared kernel half

A created directory copies the kernel's entries once. It goes on sharing the
tables they name, so every later change inside a table is seen by all. An entry
that is new in `page_directory` is not: as long as none is made above `0xC0000000`
while a created space is there, the two halves stay the same
(`kernel_half_shared`); one page mapped at `0xD0000000` sets them apart
(`new_kernel_table_not_shared`).
-/

namespace TupleOS.Memory

open TupleOS.Base TupleOS.Heap

/-- Above `0xC0000000` every created directory translates as `page_directory` does. -/
def SharedHalf (L : Layout) (vm : Vm) : Prop :=
  ∀ q ∈ vm.spaces, ∀ u, 0xC0000 ≤ u → u < 2 ^ 20 →
    q.2.translate vm u = walk vm.mach.phys (pdFrame L) u

/-- The call enters no new table above `0xC0000000` while a created space is there. -/
def VmOp.NoNewKernelTable (L : Layout) (vm : Vm) (op : VmOp) : Prop :=
  vm.spaces = [] ∨ ∀ u, op.pages vm u → 0xC0000 ≤ u →
    isPresent (vm.mach.phys (pdFrame L) (u / 1024)) = true

def HalfGuard (L : Layout) (vm : Vm) (op : VmOp) : Prop :=
  op.Valid vm ∧ op.Fits L vm ∧ op.NoNewKernelTable L vm

structure HalfInv (L : Layout) (vm : Vm) : Prop where
  inv : VmInv L vm
  half : ∀ d ∈ vm.dirs, ∀ s, 768 ≤ s → s < 1024 →
    vm.mach.phys d s = vm.mach.phys (pdFrame L) s

section Half

variable {L : Layout} {vm vm' : Vm} {op : VmOp} {r : Int}

theorem HalfInv.shared (h : HalfInv L vm) : SharedHalf L vm := by
  intro q hq u h1 h2
  have hd : frameOf q.2.pageDirectory ∈ vm.dirs := List.mem_map_of_mem hq
  exact walk_congr (h.half _ hd _ (by omega) (by omega)) fun _ => rfl

theorem HalfInv.step (h : HalfInv L vm) (hg : HalfGuard L vm op)
    (he : vmCall L vm op = some (r, vm')) : HalfInv L vm' := by
  have e := h.inv.step hg.1 hg.2.1 he
  refine ⟨e.inv, fun d hd s h1 h2 => ?_⟩
  rcases e.dirs d hd with hold | hcopy
  · have hkeep : vm'.mach.phys (pdFrame L) s = vm.mach.phys (pdFrame L) s := by
      apply e.keeps.slots s h2
      rcases hg.2.2 with hnone | hpres
      · rw [Vm.dirs, hnone] at hold
        cases hold
      · by_cases ht : ∃ u, op.pages vm u ∧ u / 1024 = s
        · obtain ⟨u, hu, rfl⟩ := ht
          exact .inr (hpres u hu (by omega))
        · exact .inl fun u hu heq => ht ⟨u, hu, heq⟩
    rw [e.keeps.dirs d hold, hkeep]
    exact h.half d hold s h1 h2
  · exact hcopy s h1 h2

/-- **The kernel half is shared** in every state of a run that enters no new
kernel table while a created space is there. -/
theorem kernel_half_shared {phys : Phys} {bitmap : Bitmap} {bytes : Bytes}
    {mmap : Option (List MmapEntry)} {vm₀ : Vm} {ops : List VmOp}
    (ht : (pmmInit L bitmap mmap).totalFrames ≤ 32784)
    (hb : bootVm L phys bitmap bytes mmap = some vm₀)
    (hrun : Run (vmStep L) (HalfGuard L) vm₀ ops vm) : SharedHalf L vm := by
  obtain ⟨M, hb⟩ := bootVm_ok ht hb
  have h₀ : HalfInv L vm₀ := ⟨hb.inv, by unfold Vm.dirs; rw [hb.spaces]; nofun⟩
  refine (hrun.invariant (HalfInv L) (fun h hg he => ?_) h₀).shared
  obtain ⟨_, he⟩ := vmStep_some he
  exact h.step hg he

/-- The theorem at a boot and one new space. -/
theorem kernel_half_shared_first : ∃ vm₀ vm₁, sampleBootVm = some vm₀ ∧
    vmStep sampleLayout vm₀ .create = some vm₁ ∧ vm₁.spaces ≠ [] ∧ SharedHalf sampleLayout vm₁ := by
  obtain ⟨M, vm₀, vm₁, space, hf⟩ := firstSpace_ok
  have hg : HalfGuard sampleLayout vm₀ .create := ⟨trivial, hf.fits, .inl hf.effect.spaces⟩
  refine ⟨vm₀, vm₁, hf.boot, hf.step, fun hnil => ?_,
    kernel_half_shared (by rw [samplePmm.1]; decide) hf.boot (.cons hg hf.step (.nil vm₁))⟩
  have hl : vm₁.spaces.lookup firstSpace = some space := hf.lookup
  rw [hnil] at hl
  cases hl

/-! ## A new kernel table -/

theorem FirstSpace.entry_absent {M : Machine} {vm₀ vm₁ : Vm} {space : AddressSpace}
    (h : FirstSpace M vm₀ vm₁ space) :
    isPresent (vm₁.mach.phys (frameOf space.pageDirectory) 832) = false := by
  have hM : M.phys (pdFrame sampleLayout) 832 = 2 := h.effect.tables.absent 832 ⟨by omega, by omega⟩
  have h₀ : vm₀.mach.phys (pdFrame sampleLayout) 832 = 2 := by
    rw [h.effect.grow.slots 832 (by omega) (.inl fun u h1 h2 => by omega)]
    exact hM
  have h₁ : vm₁.mach.phys (pdFrame sampleLayout) 832 = 2 := by
    rw [h.create.op.keeps.slots 832 (by omega) (.inl fun u hu => ?_)]
    · exact h₀
    · obtain ⟨rfl, -⟩ := hu
      rw [h.effect.heap]
      exact show 0xC0500000 / pageSize / 1024 ≠ 832 by decide
  rcases (h.create.op.inv.dirOk _ (mem_dirs h.lookup)).kernel 832 (by omega) (by omega)
    with heq | habs
  · rw [heq, h₁]; rfl
  · exact habs

/-- **A page at `0xD0000000`**, mapped for the kernel once a space is there, is
missing from that space. -/
theorem new_kernel_table_not_shared : ∃ vm₀ vm₁ vm₂, sampleBootVm = some vm₀ ∧
    vmStep sampleLayout vm₀ .create = some vm₁ ∧ vmStep sampleLayout vm₁ mapPageAtD0 = some vm₂ ∧
    mapPageAtD0.Valid vm₁ ∧ ¬ SharedHalf sampleLayout vm₂ := by
  obtain ⟨M, vm₀, vm₁, space, hf⟩ := firstSpace_ok
  have hi := hf.create.op.inv
  have hregs : vm₁.kernelSpace.regions.Perm (kernelRegions sampleLayout) := by
    rw [hf.create.kernel]; exact hf.effect.regions
  have hfit : MapFits sampleLayout vm₁ 0xD0000000 4096 := onePage_fits (by omega) hf.low
  obtain ⟨vm₂, he⟩ := hi.onePage_succeeds (s := .kernel) 0xD0000000
    (vmmRead ||| vmmWrite) .kernelData rfl hregs rfl (by omega)
    (.inr (by omega)) hf.low hf.reach hf.pool
  have e := hi.map_ok (.inr hfit) he
  refine ⟨vm₀, vm₁, vm₂, hf.boot, hf.step, ?_, mapPageAtD0_valid vm₁, fun hshared => ?_⟩
  · exact vmStep_of_call he
  · obtain ⟨pde, f, hw, -⟩ := e.mapped rfl 0xD0000 (by decide) (by decide)
    obtain ⟨l₁, l₂, hsp, -⟩ := List.lookup_eq_some_iff.mp
      (show vm₁.spaces.lookup firstSpace = some space from hf.lookup)
    have hmem : (firstSpace, space) ∈ vm₂.spaces := by
      rw [vmmMapRegion_spaces he, hsp]
      exact List.mem_append_right _ List.mem_cons_self
    have heq := hshared _ hmem 0xD0000 (by decide) (by decide)
    rw [hw] at heq
    unfold AddressSpace.translate at heq
    rw [walk_absent] at heq
    · cases heq
    · rw [e.op.keeps.dirs _ (mem_dirs hf.lookup)]
      exact hf.entry_absent

end Half

end TupleOS.Memory
