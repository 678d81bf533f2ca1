import TupleOS.Base.Run
import TupleOS.Heap.Flat
import TupleOS.Memory.Boot

/-!
# Runs of the memory manager

The calls that clients make after boot, their arguments, and one step lemma for
all of them: a call that fits (`VmOp.Fits`) keeps `VmInv` and touches only its
pages (`VmInv.step`). What the conditions exclude, the code does not check:
running out of frames below 4 MB, a range that wraps around, and the tearing down
of the MMIO region that `vmm_init` registers.
-/

namespace TupleOS.Memory

open TupleOS.Base TupleOS.Heap

/-- The translation of page `u` through the space's own directory. -/
def AddressSpace.translate (a : AddressSpace) (vm : Vm) (u : Nat) : Option (Nat × Nat) :=
  walk vm.mach.phys (frameOf a.pageDirectory) u

/-- Page `u` is one of the range. -/
def InRange (vaddr size u : Nat) : Prop :=
  vaddr / pageSize ≤ u ∧ u < vaddr / pageSize + size / pageSize

/-- A call into `vmm.c`, `kheap.c` or `paging.c`. -/
inductive VmOp where
  | create
  | map (s : SpaceRef) (vaddr size flags : Nat) (type : RegionType)
  | unmap (s : SpaceRef) (vaddr : Nat)
  | destroy (s : SpaceRef)
  | kmalloc (size : Nat)
  | kfree (p : Nat)
  | mapPage (v p flags : Nat)
  | unmapPage (v : Nat)

/-- The call, with what it returns (`0` for a `void` function). -/
def vmCall (L : Layout) (vm : Vm) : VmOp → Option (Int × Vm)
  | .create => (vmmCreateAddressSpace L vm).map fun r => (r.1, r.2)
  | .map s vaddr size flags type => vmmMapRegion L vm s vaddr size flags type
  | .unmap s vaddr => vmmUnmapRegion L vm s vaddr
  | .destroy s => (vmmDestroyAddressSpace L vm s).map fun vm => (0, vm)
  | .kmalloc size => (kmalloc (vmEnv L) vm.heap vm.mach size).map fun r =>
      (r.1, { vm with heap := r.2.1, mach := r.2.2 })
  | .kfree p => (kfree vm.heap p).map fun h => (0, { vm with heap := h })
  | .mapPage v p flags => (pagingMapPage machMem L vm.mach v p flags).map fun m =>
      (0, { vm with mach := m })
  | .unmapPage v => (pagingUnmapPage machMem L vm.mach v).map fun m => (0, { vm with mach := m })

def vmStep (L : Layout) (vm : Vm) (op : VmOp) : Option Vm := (vmCall L vm op).map fun r => r.2

/-- The space argument is a pointer that a client can hold. -/
def SpaceRef.Live (vm : Vm) (s : SpaceRef) : Prop := s = .null ∨ ∃ space, vm.space s = some space

/-- The arguments have the types of the C prototypes. -/
def VmOp.Valid (vm : Vm) : VmOp → Prop
  | .create => True
  | .map s vaddr size flags _ => s.Live vm ∧ vaddr < 2 ^ 32 ∧ size < 2 ^ 32 ∧ flags < 2 ^ 32
  | .unmap s vaddr => s.Live vm ∧ vaddr < 2 ^ 32
  | .destroy s => s.Live vm
  | .kmalloc size => size < 2 ^ 32
  | .kfree p => p < 2 ^ 32
  | .mapPage v p flags => v < 2 ^ 32 ∧ p < 2 ^ 32 ∧ flags < 2 ^ 32
  | .unmapPage v => v < 2 ^ 32

/-- The page is not one through which tables are reached. -/
def OffWindow (v : Nat) : Prop := v / pageSize < 0xC0100 ∨ 0xC0400 ≤ v / pageSize

/-- What the code takes for granted of a call. -/
def VmOp.Fits (L : Layout) (vm : Vm) : VmOp → Prop
  | .create => CreateFits vm
  | .map s vaddr size _ _ => MapRefused vm s vaddr size ∨ MapFits L vm vaddr size
  | .unmap s vaddr => UnmapRefused vm s vaddr ∨ vaddr ≠ 0xC0001000
  | .destroy s => s = .null ∨ s = .kernel
  | .kmalloc size => HeapFits L vm.mach vm.heap size
  | .kfree _ => True
  | .mapPage v p _ => OffWindow v ∧ (Family (v / pageSize) → maxFrames ≤ frameOf p) ∧
      (isPresent (vm.mach.phys (pdFrame L) (v / pageSize / 1024)) = true ∨ 0 < lowFree vm.mach.pmm)
  | .unmapPage v => OffWindow v

/-- The pages a call may map or unmap. -/
def VmOp.pages (vm : Vm) : VmOp → Nat → Prop
  | .create => CreatePages vm
  | .map s vaddr size _ _ => fun u => ¬ MapRefused vm s vaddr size ∧ RangePages vaddr size u
  | .unmap s vaddr => UnmapPages vm s vaddr
  | .destroy _ => fun _ => False
  | .kmalloc size => fun u => vm.heap.heapEnd / pageSize ≤ u ∧
      u < vm.heap.heapEnd / pageSize + growPages size
  | .kfree _ => fun _ => False
  | .mapPage v _ _ => fun u => u = v / pageSize
  | .unmapPage v => fun u => u = v / pageSize

section Step

variable {L : Layout} {vm vm' : Vm} {op : VmOp} {r : Int} {a : AddressSpace}

theorem VmInv.mapPage_op {v p flags : Nat} {M' : Machine} (h : VmInv L vm)
    (hv : (VmOp.mapPage v p flags).Valid vm) (hf : (VmOp.mapPage v p flags).Fits L vm)
    (he : pagingMapPage machMem L vm.mach v p flags = some M') :
    OpEffect L (fun u => u = v / pageSize) vm { vm with mach := M' } := by
  obtain ⟨hwin, hdata, hlow⟩ := hf
  obtain ⟨M1, he1, e⟩ := h.mach.mapPage_ok p flags hv.1 hwin hlow fun hfam =>
    .inr (.inl ⟨hdata hfam, by have := hv.2.1; unfold frameOf; omega⟩)
  obtain rfl : M1 = M' := Option.some.inj (he1.symm.trans he)
  refine h.effect e.inv ⟨fun u hu hne => e.others u hu hne, fun s hs hor => ?_, e.keeps⟩ h.heap
  exact e.slots s hs (hor.imp (fun hk heq => hk _ rfl heq.symm) id)

theorem VmInv.unmapPage_op {v : Nat} {M' : Machine} (h : VmInv L vm)
    (hv : (VmOp.unmapPage v).Valid vm) (hf : (VmOp.unmapPage v).Fits L vm)
    (he : pagingUnmapPage machMem L vm.mach v = some M') :
    OpEffect L (fun u => u = v / pageSize) vm { vm with mach := M' } := by
  obtain ⟨M1, he1, e⟩ := h.mach.unmapPage_ok hv hf
  obtain rfl : M1 = M' := Option.some.inj (he1.symm.trans he)
  exact h.effect e.inv ⟨fun u hu hne => e.others u hu hne, fun s _ _ => by rw [e.slots], e.keeps⟩
    h.heap

theorem mem_dirs {p : Nat} (hs : vm.space (.created p) = some a) :
    frameOf a.pageDirectory ∈ vm.dirs := by
  obtain ⟨l₁, l₂, heq, -⟩ := List.lookup_eq_some_iff.mp (show vm.spaces.lookup p = some a from hs)
  unfold Vm.dirs
  rw [heq]
  exact List.mem_map_of_mem (List.mem_append_right l₁ List.mem_cons_self)

/-- **Every call that fits** keeps the invariant and touches only its pages. -/
theorem VmInv.step (h : VmInv L vm) (hv : op.Valid vm) (hf : op.Fits L vm)
    (he : vmCall L vm op = some (r, vm')) : OpEffect L (op.pages vm) vm vm' := by
  cases op with
  | create =>
    obtain ⟨⟨p, vm1⟩, hc, he⟩ := Option.map_eq_some_iff.mp he
    cases he
    exact (h.create_ok hf hc).op
  | map s vaddr size flags type =>
    by_cases hr : MapRefused vm s vaddr size
    · rw [vmCall, vmmMapRegion_refused hr] at he
      cases he
      exact .refl h
    · exact (h.map_ok hf he).op.mono fun u hu => ⟨hr, hu⟩
  | unmap s vaddr => exact (h.unmap_ok hf he).op
  | destroy s =>
    rcases hf with rfl | rfl <;> cases he <;> exact .refl h
  | kmalloc size =>
    obtain ⟨⟨p, h1, M1⟩, hk, he⟩ := Option.map_eq_some_iff.mp he
    cases he
    obtain ⟨hb, e, -⟩ := h.mach.kmalloc_ok h.heap hf hk
    exact h.effect e.inv e.toKeeps hb
  | kfree p =>
    obtain ⟨h1, hk, he⟩ := Option.map_eq_some_iff.mp he
    cases he
    exact h.effect h.mach (.refl _ _ _ _) (h.heap.same (kfree_bounds hk))
  | mapPage v p flags =>
    obtain ⟨M1, hm, he⟩ := Option.map_eq_some_iff.mp he
    cases he
    exact h.mapPage_op hv hf hm
  | unmapPage v =>
    obtain ⟨M1, hm, he⟩ := Option.map_eq_some_iff.mp he
    cases he
    exact h.unmapPage_op hv hf hm

theorem vmStep_some (he : vmStep L vm op = some vm') : ∃ r, vmCall L vm op = some (r, vm') := by
  obtain ⟨⟨r, vm1⟩, hc, he⟩ := Option.map_eq_some_iff.mp he
  cases he
  exact ⟨r, hc⟩

theorem vmStep_of_call (he : vmCall L vm op = some (r, vm')) : vmStep L vm op = some vm' := by
  rw [vmStep, he]
  rfl

end Step

/-! ## Calls that succeed -/

section Succeeds

variable {L : Layout} {vm : Vm} {s : SpaceRef} {space : AddressSpace}

/-- With frames and regions to spare, a range off the kernel's pages that passes
the checks is mapped. -/
theorem MachInv.mapRegion_succeeds {vaddr size : Nat} (h : MachInv L vm.dirs vm.mach)
    (flags : Nat) (type : RegionType) (hs : vm.space s = some space) (ha : vaddr % pageSize = 0)
    (hsz : size % pageSize = 0) (hno : space.regions.any (overlaps vaddr size) = false)
    (hrange : PageRange vaddr 0 (size / pageSize))
    (hb : Budget L vm.mach (vaddr / pageSize) (vaddr / pageSize + size / pageSize))
    (hr : 2 * (size / pageSize) < reachable vm.mach.pmm) (hp : vm.regionPoolUsed < vmmMaxRegions) :
    ∃ M', MapRangeEffect L vm.dirs (vmmFlagsToPageFlags flags) (vaddr / pageSize) 0
        (size / pageSize) vm.mach M' true ∧
      vmmMapRegion L vm s vaddr size flags type =
        some (0, { vm with mach := M', regionPoolUsed := vm.regionPoolUsed + 1 }.setSpace s
          (insertRegion space ⟨vaddr, size, flags, type⟩)) := by
  rcases h.mapPages_ok (vmmFlagsToPageFlags flags) (i := 0) (by rwa [Nat.zero_add]) (by
    rwa [Nat.add_zero, Nat.zero_add]) with ⟨-, hle⟩ | ⟨ok, M', hmap, e, hok⟩
  · omega
  · obtain rfl := hok hr
    refine ⟨M', e, ?_⟩
    unfold vmmMapRegion
    simp only [hs]
    rw [if_neg (by simpa using ha), if_neg (by simpa using hsz), if_neg (by rw [hno]; simp), hmap,
      Option.bind_eq_bind, Option.bind_some]
    simp only [↓reduceIte]
    rw [if_neg (by omega)]

theorem VmInv.map_succeeds {vaddr size flags : Nat} {type : RegionType} (h : VmInv L vm)
    (hs : vm.space s = some space) (ha : vaddr % pageSize = 0) (hsz : size % pageSize = 0)
    (hno : space.regions.any (overlaps vaddr size) = false) (hfit : MapFits L vm vaddr size)
    (hr : 2 * (size / pageSize) < reachable vm.mach.pmm) (hp : vm.regionPoolUsed < vmmMaxRegions) :
    ∃ vm', vmmMapRegion L vm s vaddr size flags type = some (0, vm') := by
  have hreg : RegionOk ⟨vaddr, size, flags, type⟩ := (h.space_ok hs).region_ok ha hsz hfit.1 hno
  obtain ⟨M', -, he⟩ := h.mach.mapRegion_succeeds flags type hs ha hsz hno hreg.range hfit.2 hr hp
  exact ⟨_, he⟩

theorem onePage_fits {vaddr : Nat} (hv : vaddr + 4096 < 2 ^ 32) (hl : 100 < lowFree vm.mach.pmm) :
    MapFits L vm vaddr 4096 := by
  have h1 : 4096 / pageSize = 1 := rfl
  exact ⟨hv, .of_twice (by omega)⟩

theorem VmInv.onePage_succeeds (h : VmInv L vm) (vaddr flags : Nat) (type : RegionType)
    (hs : vm.space s = some space) (hr : space.regions.Perm (kernelRegions L))
    (ha : vaddr % pageSize = 0) (hv : vaddr + 4096 < 2 ^ 32)
    (hout : vaddr + 4096 ≤ 0xC0001000 ∨ 0xC1400000 ≤ vaddr) (hl : 100 < lowFree vm.mach.pmm)
    (hreach : 100 < reachable vm.mach.pmm) (hp : vm.regionPoolUsed < vmmMaxRegions) :
    ∃ vm', vmmMapRegion L vm s vaddr 4096 flags type = some (0, vm') := by
  have hno : space.regions.any (overlaps vaddr 4096) = false := by
    rw [List.any_eq_false]
    intro g hg
    rw [kernelRegion_apart (hr.mem_iff.mp hg) hv hout]
    exact Bool.false_ne_true
  have h1 : 4096 / pageSize = 1 := rfl
  exact h.map_succeeds hs ha rfl hno (onePage_fits hv hl) (by omega) hp

theorem VmInv.create_succeeds {p : Nat} {heap : KHeap} (h : VmInv L vm)
    (hk : kmalloc (vmEnv L) vm.heap vm.mach addressSpaceSize = some (p, heap, vm.mach)) (hp : p ≠ 0)
    (hl : 0 < lowFree vm.mach.pmm) (hr : 0 < reachable vm.mach.pmm)
    (hpool : vm.regionPoolUsed + vm.kernelSpace.regions.length ≤ vmmMaxRegions) :
    ∃ vm' space f, vmmCreateAddressSpace L vm = some (p, vm') ∧
      vm'.spaces = (p, space) :: vm.spaces ∧ frameOf space.pageDirectory = f ∧
      TookFrame vm.mach.pmm vm'.mach.pmm f ∧ space.regions.Perm vm.kernelSpace.regions ∧
      vm'.regionPoolUsed = vm.regionPoolUsed + vm.kernelSpace.regions.length := by
  rcases h.mach.createDirectory_ok hl with ⟨-, h0⟩ | ⟨f, M', hd, h0, -, -, tk, -⟩
  · omega
  · obtain ⟨hdir, hused, hregs⟩ := registerAll_ok vm.kernelSpace.regions
      ⟨f * pageSize, [], 0⟩ vm.regionPoolUsed hpool
    rw [List.append_nil] at hregs
    have hframe : frameOf (f * pageSize) = f := Nat.mul_div_cancel f (by decide)
    refine ⟨⟨M', heap, vm.kernelSpace, (p, _) :: vm.spaces, _⟩, _, f, ?_, rfl,
      by rw [hdir]; exact hframe, tk, hregs, hused⟩
    unfold vmmCreateAddressSpace
    rw [hk, Option.bind_eq_bind, Option.bind_some]
    simp only [if_neg hp, hd, Option.bind_eq_bind, Option.bind_some, if_neg h0]

end Succeeds

/-! ## The first calls after boot -/

section First

theorem initialHeap_find (bytes : Bytes) {size : Nat} (hs : size ≤ initialHeapSize - headerSize) :
    findFreeBlock (initialHeap bytes).mem size walkFuel (initialHeap bytes).firstBlock =
      some heapStartAddr := by
  have hfit : fits size bootBlock = true := by
    rw [fits, Bool.and_eq_true, decide_eq_true_eq]
    exact ⟨rfl, hs⟩
  have hfind := @findFreeBlock_seg _ _ size walkFuel _ _ (bootBlock_seg bytes) (by decide)
    (by decide)
  rw [List.find?_cons_of_pos hfit] at hfind
  exact hfind

theorem initialHeap_room (bytes : Bytes) : HasRoom (initialHeap bytes) addressSpaceSize :=
  freeBlockFrom_of_find (initialHeap_find bytes (by decide)) (by decide)

def firstSpace : Nat := 0xC040000C

theorem initialHeap_kmalloc (L : Layout) (bytes : Bytes) (M : Machine) :
    ∃ heap, kmalloc (vmEnv L) (initialHeap bytes) M addressSpaceSize =
      some (firstSpace, heap, M) := by
  unfold kmalloc
  rw [if_neg (by decide)]
  simp only [initialHeap_find bytes (show roundUp 8 addressSpaceSize ≤ _ by decide),
    Option.bind_eq_bind, Option.bind_some]
  rw [if_pos (by decide)]
  exact ⟨_, rfl⟩

def sampleBootVm : Option Vm :=
  bootVm sampleLayout (fun _ _ => 0) (fun _ => 0#8) (fun _ => 0#8) sampleMap

theorem sampleBootVm_ok : ∃ vm M, sampleBootVm = some vm ∧
    BootEffect sampleLayout (pmmInit sampleLayout (fun _ => 0#8) sampleMap) (fun _ => 0#8) M vm ∧
    200 < lowFree vm.mach.pmm ∧ 2000 < reachable vm.mach.pmm := by
  obtain ⟨htot, hfree⟩ := samplePmm
  have hlow : 736 ≤ lowFree (pmmInit sampleLayout (fun _ => 0#8) sampleMap) :=
    Bitmap.le_clearCount 288 1024 (fun g h1 h2 => hfree g h1 (by omega)) (by omega)
  have hreach : 3520 ≤ reachable (pmmInit sampleLayout (fun _ => 0#8) sampleMap) := by
    unfold reachable
    rw [htot]
    exact Bitmap.le_clearCount 288 3808 (fun g h1 h2 => hfree g h1 (by omega))
      (by omega)
  obtain ⟨vm, hvm⟩ := bootVm_some sampleLayout (fun _ _ => 0) (fun _ => 0#8)
    (show (pmmInit sampleLayout (fun _ => 0#8) sampleMap).totalFrames ≤ 32784 by omega) (by omega)
  obtain ⟨M, hb⟩ := bootVm_ok (by omega) hvm
  have h1 := hb.grow.low
  have h2 := hb.grow.reach
  rw [hb.pmm] at h1 h2
  exact ⟨vm, M, hvm, hb, by omega, by omega⟩

/-- Map one page for the kernel at `0xD0000000`. -/
def mapPageAtD0 : VmOp := .map .kernel 0xD0000000 4096 (vmmRead ||| vmmWrite) .kernelData

theorem mapPageAtD0_valid (vm : Vm) : mapPageAtD0.Valid vm :=
  ⟨.inr ⟨_, rfl⟩, by decide, by decide, by decide⟩

/-- The sample boot to `vm₀`, and the first space made after it, in `vm₁`. -/
structure FirstSpace (M : Machine) (vm₀ vm₁ : Vm) (space : AddressSpace) : Prop where
  boot : sampleBootVm = some vm₀
  effect : BootEffect sampleLayout (pmmInit sampleLayout (fun _ => 0#8) sampleMap)
    (fun _ => 0#8) M vm₀
  fits : CreateFits vm₀
  call : vmCall sampleLayout vm₀ .create = some ((firstSpace : Int), vm₁)
  create : CreateEffect sampleLayout vm₀ vm₁ firstSpace
  lookup : vm₁.space (.created firstSpace) = some space
  regions : space.regions.Perm (kernelRegions sampleLayout)
  pool : vm₁.regionPoolUsed < vmmMaxRegions
  low : 100 < lowFree vm₁.mach.pmm
  reach : 100 < reachable vm₁.mach.pmm

theorem firstSpace_ok : ∃ M vm₀ vm₁ space, FirstSpace M vm₀ vm₁ space := by
  obtain ⟨vm₀, M, hvm, hb, hlow, hreach⟩ := sampleBootVm_ok
  have hlen := hb.regions.length_eq
  have h4 := kernelRegions_length sampleLayout
  have hpool := hb.pool
  obtain ⟨heap, hk⟩ := initialHeap_kmalloc sampleLayout (fun _ => 0#8) vm₀.mach
  rw [← hb.heap] at hk
  have hfit : CreateFits vm₀ := ⟨by omega, by unfold vmmMaxRegions; omega⟩
  obtain ⟨vm₁, space, f, hc, hsp, hdir, tk, hregs, hused⟩ := hb.inv.create_succeeds hk (by decide)
    (by omega) (by omega) hfit.pool
  have h1 := tk.lowFree
  have h2 := tk.reachable
  refine ⟨M, vm₀, vm₁, space, hvm, hb, hfit, ?_, hb.inv.create_ok hfit hc, ?_,
    hregs.trans hb.regions, by unfold vmmMaxRegions; omega, by omega, by omega⟩
  · show (vmmCreateAddressSpace sampleLayout vm₀).map _ = _
    rw [hc]
    rfl
  · show vm₁.spaces.lookup firstSpace = some space
    rw [hsp, List.lookup_cons_self]

theorem FirstSpace.step {M : Machine} {vm₀ vm₁ : Vm} {space : AddressSpace}
    (h : FirstSpace M vm₀ vm₁ space) : vmStep sampleLayout vm₀ .create = some vm₁ :=
  vmStep_of_call h.call

end First

end TupleOS.Memory
