import TupleOS.Memory.VmRun

/-!
# Isolation of address spaces

What `vmm_map_region` and `vmm_unmap_region` should do for a space: the pages are
translated by that space's own directory, and no other space notices. The paging
primitives edit `page_directory`, the kernel's, whichever space is given. So the
property holds of runs that map and unmap for the kernel's space only
(`spaces_isolated`), and mapping a page for a created space leaves its directory
empty (`created_space_not_mapped`).
-/

namespace TupleOS.Memory

open TupleOS.Base TupleOS.Heap

/-- The frame backs a page of a region of the space. -/
def AddressSpace.Backs (a : AddressSpace) (vm : Vm) (f : Nat) : Prop :=
  ∃ g ∈ a.regions, ∃ u e, InRange g.base g.size u ∧ a.translate vm u = some e ∧ frameOf e.2 = f

structure MapIsolated (vm vm' : Vm) (s : SpaceRef) (a : AddressSpace)
    (vaddr size : Nat) : Prop where
  mapped : ∀ u, InRange vaddr size u → ∃ e, a.translate vm' u = some e ∧
    vm.mach.pmm.Free (frameOf e.2) ∧ ¬ vm'.mach.pmm.Free (frameOf e.2)
  others : ∀ s' b, s' ≠ s → vm.space s' = some b →
    ∀ u < 2 ^ 20, b.translate vm' u = b.translate vm u
  backing : ∀ s' b, s' ≠ s → vm.space s' = some b →
    ∀ f, b.Backs vm f → vm'.mach.pmm.Free f → vm.mach.pmm.Free f

structure UnmapIsolated (vm vm' : Vm) (s : SpaceRef) (a : AddressSpace) (vaddr : Nat) : Prop where
  unmapped : ∀ s' b, vm.space s' = some b → ∀ u < 2 ^ 20, b.translate vm' u ≠ b.translate vm u →
    s' = s ∧ ∃ g, Finds vm s vaddr g ∧ InRange g.base g.size u
  freed : ∀ f, vm'.mach.pmm.Free f → vm.mach.pmm.Free f ∨
    ∃ g u e, Finds vm s vaddr g ∧ InRange g.base g.size u ∧
      a.translate vm u = some e ∧ frameOf e.2 = f

/-- What a call with result `r` should do. -/
def Isolated (vm vm' : Vm) (r : Int) : VmOp → Prop
  | .map s vaddr size _ _ => r = 0 → ∀ a, vm.space s = some a → MapIsolated vm vm' s a vaddr size
  | .unmap s vaddr => ∀ a, vm.space s = some a → UnmapIsolated vm vm' s a vaddr
  | _ => True

/-- A space is made, or pages below `0xC0000000` are mapped or unmapped. -/
def VmOp.UserCall (vm : Vm) : VmOp → Prop
  | .create => True
  | .map _ vaddr size _ _ => vaddr + size ≤ 0xC0000000
  | .unmap s vaddr => ∀ g, Finds vm s vaddr g → g.base + g.size ≤ 0xC0000000
  | _ => False

/-- For a created space the call maps and unmaps nothing: it is turned down, or
there are no pages. -/
def VmOp.KernelOnly (vm : Vm) : VmOp → Prop
  | .map (.created p) vaddr size _ _ => MapRefused vm (.created p) vaddr size ∨ size = 0
  | .unmap (.created p) vaddr => ∀ g, Finds vm (.created p) vaddr g →
      g.type.val ≤ RegionType.identityMap.val ∨ g.size = 0
  | _ => True

def IsolationGuard (L : Layout) (vm : Vm) (op : VmOp) : Prop :=
  op.Valid vm ∧ op.UserCall vm ∧ op.Fits L vm ∧ op.KernelOnly vm

section Isolation

variable {L : Layout} {vm vm' : Vm} {T : Nat → Prop} {s : SpaceRef} {a : AddressSpace} {r : Int}

theorem OpEffect.created_walk {d u : Nat} (h : VmInv L vm) (e : OpEffect L T vm vm')
    (hT : ∀ u, T u → u < 0xC0000) (hd : d ∈ vm.dirs) (hu : u < 2 ^ 20) :
    walk vm'.mach.phys d u = walk vm.mach.phys d u := by
  have hdir := e.keeps.dirs d hd
  by_cases hp : isPresent (vm.mach.phys d (u / 1024)) = true
  · -- a kernel entry, shared with `page_directory`
    have hs : 768 ≤ u / 1024 := by
      by_contra hlt
      rw [(h.dirOk d hd).user _ (by omega)] at hp
      cases hp
    have hslot := page_slot hu
    have heq : vm.mach.phys d (u / 1024) = vm.mach.phys (pdFrame L) (u / 1024) :=
      ((h.dirOk d hd).kernel _ hs hslot).resolve_right (by simp [hp])
    have hkeep := e.keeps.slots _ hslot (.inr (heq ▸ hp))
    calc walk vm'.mach.phys d u
        = walk vm'.mach.phys (pdFrame L) u :=
          walk_congr (by rw [hdir, hkeep]; exact heq) fun _ => rfl
      _ = walk vm.mach.phys (pdFrame L) u := e.keeps.walks u hu fun ht => by
          have := hT u ht; omega
      _ = walk vm.mach.phys d u := walk_congr heq.symm fun _ => rfl
  · have hp' := Bool.eq_false_iff.mpr hp
    rw [walk_absent hp', walk_absent (by rw [hdir]; exact hp')]

theorem OpEffect.other_space {s' : SpaceRef} {b : AddressSpace} (h : VmInv L vm)
    (e : OpEffect L T vm vm') (hT : ∀ u, T u → u < 0xC0000)
    (hk : ∀ u, T u → s = .kernel) (hne : s' ≠ s) (hs : vm.space s' = some b) {u : Nat}
    (hu : u < 2 ^ 20) : b.translate vm' u = b.translate vm u := by
  cases s' with
  | null => cases hs
  | kernel =>
    cases hs
    unfold AddressSpace.translate
    rw [h.kernelDir, pagingGetDirectory_eq]
    exact e.keeps.walks u hu fun ht => hne (hk u ht).symm
  | created p => exact e.created_walk h hT (mem_dirs hs) hu

theorem rangePages_low {vaddr size u : Nat} (hv : vaddr + size ≤ 0xC0000000)
    (h : RangePages vaddr size u) : u < 0xC0000 := by
  have := h.2.1
  unfold pageSize at this
  omega

theorem map_kernel {vaddr size flags u : Nat} {type : RegionType}
    (hk : (VmOp.map s vaddr size flags type).KernelOnly vm)
    (he : vmmMapRegion L vm s vaddr size flags type = some (0, vm')) (hs : vm.space s = some a)
    (hu : InRange vaddr size u) : s = .kernel := by
  cases s with
  | null => cases hs
  | kernel => rfl
  | created p =>
    rcases hk with href | h0
    · rw [vmmMapRegion_refused href] at he
      cases he
    · have h1 := hu.1; have h2 := hu.2
      rw [h0, Nat.zero_div] at h2
      omega

theorem VmInv.map_isolated {vaddr size flags : Nat} {type : RegionType} (h : VmInv L vm)
    (hg : IsolationGuard L vm (.map s vaddr size flags type))
    (he : vmmMapRegion L vm s vaddr size flags type = some (0, vm')) (hs : vm.space s = some a) :
    MapIsolated vm vm' s a vaddr size := by
  obtain ⟨-, hlow, hfit, hk⟩ := hg
  have e := h.map_ok hfit he
  have hT : ∀ u, RangePages vaddr size u → u < 0xC0000 := fun u => rangePages_low hlow
  have hkern : ∀ u, InRange vaddr size u → s = .kernel := fun u => map_kernel hk he hs
  refine ⟨fun u hu => ?_, fun s' b hne hb u hu => ?_, fun s' b _ _ f _ => e.used f⟩
  · obtain ⟨pde, f, hw, hfree, hused⟩ := e.mapped rfl u hu.1 hu.2
    obtain rfl := hkern u hu
    cases hs
    have hfr : frameOf (pteFor (f * pageSize) (vmmFlagsToPageFlags flags)) = f :=
      (pteFor_spec _ _).1.trans (Nat.mul_div_cancel f (by decide))
    rw [← hfr] at hfree hused
    refine ⟨(pde, pteFor (f * pageSize) (vmmFlagsToPageFlags flags)), ?_, hfree, hused⟩
    unfold AddressSpace.translate
    rw [h.kernelDir, pagingGetDirectory_eq]
    exact hw
  · exact e.op.other_space h hT (fun u ht => hkern u ⟨ht.1, ht.2.1⟩) hne hb hu

theorem unmap_kernel {vaddr u : Nat} (hk : (VmOp.unmap s vaddr).KernelOnly vm)
    (hr : ¬ UnmapRefused vm s vaddr) (hs : vm.space s = some a) (hu : UnmapPages vm s vaddr u) :
    s = .kernel := by
  cases s with
  | null => cases hs
  | kernel => rfl
  | created p =>
    obtain ⟨g, hg, hu⟩ := hu
    rcases hk g hg with hty | h0
    · -- the region found is the only one that could be
      refine absurd (fun g' hg' => ?_) hr
      obtain ⟨b, hb, hf⟩ := hg
      obtain ⟨b', hb', hf'⟩ := hg'
      obtain rfl : b = b' := Option.some.inj (hb.symm.trans hb')
      obtain rfl : g = g' := Option.some.inj (hf.symm.trans hf')
      exact hty
    · have h1 := hu.1; have h2 := hu.2.1
      rw [h0, Nat.zero_div] at h2
      omega

theorem VmInv.unmap_isolated {vaddr : Nat} (h : VmInv L vm)
    (hg : IsolationGuard L vm (.unmap s vaddr))
    (he : vmmUnmapRegion L vm s vaddr = some (r, vm')) (hs : vm.space s = some a) :
    UnmapIsolated vm vm' s a vaddr := by
  obtain ⟨-, hlow, hfit, hk⟩ := hg
  by_cases href : UnmapRefused vm s vaddr
  · rw [vmmUnmapRegion_refused href] at he
    cases he
    exact ⟨fun _ _ _ _ _ hne => absurd rfl hne, fun _ hf => .inl hf⟩
  have e := h.unmap_ok hfit he
  have hT : ∀ u, UnmapPages vm s vaddr u → u < 0xC0000 := fun u ⟨g, hg, hu⟩ =>
    rangePages_low (hlow g hg) hu
  have hkern : ∀ u, UnmapPages vm s vaddr u → s = .kernel := fun u => unmap_kernel hk href hs
  refine ⟨fun s' b hb u hu hne => ?_, fun f hf => ?_⟩
  · have hss : s' = s := by
      by_contra hns
      exact hne (e.op.other_space h hT hkern hns hb hu)
    refine ⟨hss, ?_⟩
    by_contra hnone
    have hnt : ¬ UnmapPages vm s vaddr u := fun ⟨g, hg, hu⟩ => hnone ⟨g, hg, hu.1, hu.2.1⟩
    subst hss
    cases s' with
    | null => cases hb
    | kernel =>
      cases hb
      unfold AddressSpace.translate at hne
      rw [h.kernelDir, pagingGetDirectory_eq] at hne
      exact hne (e.op.keeps.walks u hu hnt)
    | created p => exact hne (e.op.created_walk h hT (mem_dirs hb) hu)
  · rcases e.freed f hf with hf | ⟨u, hu, hm⟩
    · exact .inl hf
    · obtain rfl := hkern u hu
      cases hs
      obtain ⟨g, hg, hr⟩ := hu
      obtain ⟨w, hw, rfl⟩ := Option.map_eq_some_iff.mp hm
      refine .inr ⟨g, u, w, hg, ⟨hr.1, hr.2.1⟩, ?_, rfl⟩
      unfold AddressSpace.translate
      rw [h.kernelDir, pagingGetDirectory_eq]
      exact hw

/-- **Isolation**: in a run that maps and unmaps pages below `0xC0000000` for the
kernel's space only, every call leaves the other spaces alone. -/
theorem spaces_isolated {phys : Phys} {bitmap : Bitmap} {bytes : Bytes}
    {mmap : Option (List MmapEntry)} {vm₀ : Vm} {ops : List VmOp} {op : VmOp}
    (ht : (pmmInit L bitmap mmap).totalFrames ≤ 32784)
    (hb : bootVm L phys bitmap bytes mmap = some vm₀)
    (hrun : Run (vmStep L) (IsolationGuard L) vm₀ ops vm) (hg : IsolationGuard L vm op)
    (he : vmCall L vm op = some (r, vm')) : Isolated vm vm' r op := by
  have hi : VmInv L vm := by
    obtain ⟨_, hb⟩ := bootVm_ok ht hb
    refine hrun.invariant (VmInv L) (fun h hg he => ?_) hb.inv
    obtain ⟨_, he⟩ := vmStep_some he
    exact (h.step hg.1 hg.2.2.1 he).inv
  cases op with
  | map s vaddr size flags type =>
    rintro rfl a ha
    exact hi.map_isolated hg he ha
  | unmap s vaddr => exact fun a ha => hi.unmap_isolated hg he ha
  | _ => trivial

end Isolation

/-! ## The first page -/

section First

/-- Map one page of user data at 4 MB. -/
def mapPageAt4M (s : SpaceRef) : VmOp := .map s 0x400000 4096 (vmmRead ||| vmmWrite) .userData

/-- The theorem at a page that the kernel maps for itself with a second space around. -/
theorem spaces_isolated_kernel : ∃ vm₀ vm₁ vm₂, sampleBootVm = some vm₀ ∧
    vmCall sampleLayout vm₀ .create = some ((firstSpace : Int), vm₁) ∧
    vmCall sampleLayout vm₁ (mapPageAt4M .kernel) = some (0, vm₂) ∧
    (∃ space, vm₁.space (.created firstSpace) = some space) ∧
    Isolated vm₁ vm₂ 0 (mapPageAt4M .kernel) := by
  obtain ⟨M, vm₀, vm₁, space, hf⟩ := firstSpace_ok
  have hregs : vm₁.kernelSpace.regions.Perm (kernelRegions sampleLayout) :=
    hf.create.kernel ▸ hf.effect.regions
  obtain ⟨vm₂, he⟩ := hf.create.op.inv.onePage_succeeds (s := .kernel) 0x400000
    (vmmRead ||| vmmWrite) .userData rfl hregs rfl (by omega) (.inl (by omega)) hf.low hf.reach
    hf.pool
  have hcreate : IsolationGuard sampleLayout vm₀ .create := ⟨trivial, trivial, hf.fits, trivial⟩
  have hg : IsolationGuard sampleLayout vm₁ (mapPageAt4M .kernel) :=
    ⟨⟨.inr ⟨_, rfl⟩, by decide, by decide, by decide⟩, Nat.le_of_ble_eq_true rfl,
      .inr (onePage_fits (by omega) hf.low), trivial⟩
  exact ⟨vm₀, vm₁, vm₂, hf.boot, hf.call, he, ⟨space, hf.lookup⟩,
    spaces_isolated (by rw [samplePmm.1]; decide) hf.boot (.cons hcreate hf.step (.nil _)) hg he⟩

/-- **A created space**: `vmm_map_region` returns `0` for it, and its own directory
maps nothing. -/
theorem created_space_not_mapped : ∃ vm₀ vm₁ vm₂, sampleBootVm = some vm₀ ∧
    vmCall sampleLayout vm₀ .create = some ((firstSpace : Int), vm₁) ∧
    (mapPageAt4M (.created firstSpace)).Valid vm₁ ∧
    (mapPageAt4M (.created firstSpace)).UserCall vm₁ ∧
    vmCall sampleLayout vm₁ (mapPageAt4M (.created firstSpace)) = some (0, vm₂) ∧
    ¬ Isolated vm₁ vm₂ 0 (mapPageAt4M (.created firstSpace)) := by
  obtain ⟨M, vm₀, vm₁, space, hf⟩ := firstSpace_ok
  have hi := hf.create.op.inv
  obtain ⟨vm₂, he⟩ := hi.onePage_succeeds 0x400000 (vmmRead ||| vmmWrite) .userData
    hf.lookup hf.regions rfl (by omega) (.inl (by omega)) hf.low hf.reach hf.pool
  refine ⟨vm₀, vm₁, vm₂, hf.boot, hf.call,
    ⟨.inr ⟨space, hf.lookup⟩, by decide, by decide, by decide⟩,
    Nat.le_of_ble_eq_true rfl, he, fun hiso => ?_⟩
  have hop := (hi.map_ok (.inr (onePage_fits (by omega) hf.low)) he).op
  obtain ⟨w, hw, -⟩ := (hiso rfl space hf.lookup).mapped 0x400 ⟨by decide, by decide⟩
  -- the entry of the space's directory is still empty
  have hd := mem_dirs hf.lookup
  have hempty : vm₂.mach.phys (frameOf space.pageDirectory) 1 = 2 := by
    rw [hop.keeps.dirs _ hd]
    exact (hi.dirOk _ hd).user 1 (by omega)
  unfold AddressSpace.translate at hw
  rw [walk_absent (by rw [show 0x400 / 1024 = 1 by decide, hempty]; rfl)] at hw
  cases hw

end First

end TupleOS.Memory
