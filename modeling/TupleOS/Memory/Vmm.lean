import TupleOS.Heap.Ops
import TupleOS.Memory.Machine

/-!
# The virtual memory manager (`kernel/vmm.c`)

Address spaces are a page directory and a list of regions. The kernel's space is
a static; further spaces are allocated with `kmalloc` and known by their pointer.
Regions come from a static pool of 256 that is never given back to. The paging
primitives take no directory: whatever the space, they edit `page_directory`.

The bytes of the heap are kept with the heap's own state, apart from physical
memory.
-/

namespace TupleOS.Memory

open TupleOS.Base TupleOS.Heap

/-- `vmm_region_type_t`, in the order of the enumeration. -/
inductive RegionType where
  | free | kernelCode | kernelData | kernelHeap | kernelStack | identityMap
  | userCode | userData | userHeap | userStack | mmio
  deriving DecidableEq, Repr

def RegionType.val : RegionType → Nat
  | .free => 0 | .kernelCode => 1 | .kernelData => 2 | .kernelHeap => 3 | .kernelStack => 4
  | .identityMap => 5 | .userCode => 6 | .userData => 7 | .userHeap => 8 | .userStack => 9
  | .mmio => 10

structure Region where
  base : Nat
  size : Nat
  flags : Nat
  type : RegionType
  deriving DecidableEq, Repr

structure AddressSpace where
  pageDirectory : Nat
  regions : List Region
  regionCount : Nat

def vmmRead : Nat := 0x01
def vmmWrite : Nat := 0x02
def vmmExec : Nat := 0x04
def vmmUser : Nat := 0x08

def vmmMaxRegions : Nat := 256

def addressSpaceSize : Nat := 12

/-- The machine, the heap and the statics of `vmm.c`. -/
structure Vm where
  mach : Machine
  heap : KHeap
  kernelSpace : AddressSpace
  /-- The spaces made by `vmm_create_address_space`, by pointer. -/
  spaces : List (Nat × AddressSpace)
  regionPoolUsed : Nat

inductive SpaceRef where
  | null
  | kernel
  | created (p : Nat)
  deriving DecidableEq, Repr

def Vm.space (vm : Vm) : SpaceRef → Option AddressSpace
  | .null => none
  | .kernel => some vm.kernelSpace
  | .created p => vm.spaces.lookup p

def setCreated (p : Nat) (a : AddressSpace) : List (Nat × AddressSpace) → List (Nat × AddressSpace)
  | [] => []
  | q :: qs => if q.1 = p then (p, a) :: qs else q :: setCreated p a qs

def Vm.setSpace (vm : Vm) (s : SpaceRef) (a : AddressSpace) : Vm :=
  match s with
  | .null => vm
  | .kernel => { vm with kernelSpace := a }
  | .created p => { vm with spaces := setCreated p a vm.spaces }

/-! ## Region lists -/

/-- The walk of `insert_region`: `region` goes after the last node whose base is
smaller. -/
def insertAfter (region : Region) : List Region → List Region
  | [] => [region]
  | [curr] => [curr, region]
  | curr :: next :: rest =>
    if next.base < region.base then curr :: insertAfter region (next :: rest)
    else curr :: region :: next :: rest

def insertRegion (space : AddressSpace) (region : Region) : AddressSpace :=
  { space with
    regions := match space.regions with
      | [] => [region]
      | first :: rest =>
        if region.base < first.base then region :: first :: rest
        else insertAfter region (first :: rest)
    regionCount := w32 (space.regionCount + 1) }

/-- Unlink the first node with this base, the one the search of
`vmm_unmap_region` stops at. -/
def eraseBase (base : Nat) : List Region → List Region
  | [] => []
  | r :: rs => if r.base = base then rs else r :: eraseBase base rs

def removeRegion (space : AddressSpace) (base : Nat) : AddressSpace :=
  { space with regions := eraseBase base space.regions, regionCount := sub32 space.regionCount 1 }

/-- `register_existing_region`, with the pool counter; nothing happens when the
pool is empty. -/
def registerExistingRegion (space : AddressSpace) (used : Nat) (region : Region) :
    AddressSpace × Nat :=
  if vmmMaxRegions ≤ used then (space, used) else (insertRegion space region, used + 1)

/-! ## Pages of a region -/

section Pages

variable (L : Layout)

/-- The address of page `i` of a range. -/
def pageAddr (vaddr i : Nat) : Nat := w32 (vaddr + i * pageSize)

/-- The rollback of `vmm_map_region`: pages `i` to `i + n`. -/
def undoPages (m : Machine) (vaddr i : Nat) : Nat → Option Machine
  | 0 => some m
  | n + 1 => do
    let phys ← pagingGetPhysical machMem L m (pageAddr vaddr i)
    let m ← pagingUnmapPage machMem L m (pageAddr vaddr i)
    let m := if phys ≠ 0 then m.withPmm (pmmFreeFrame m.pmm (roundDown pageSize phys)) else m
    undoPages m vaddr (i + 1) n

/-- The mapping loop of `vmm_map_region`: pages `i` to `i + n`, each zeroed
through its new mapping. `false` after a rollback. -/
def mapPages (m : Machine) (vaddr pageFlags i : Nat) : Nat → Option (Bool × Machine)
  | 0 => some (true, m)
  | n + 1 =>
    let (frame, m) := machMem.pmmAllocFrame m
    if frame = 0 then do
      let m ← undoPages L m vaddr 0 i
      some (false, m)
    else do
      let m ← pagingMapPage machMem L m (pageAddr vaddr i) frame pageFlags
      let m ← fillWords machMem m (pageAddr vaddr i) 0 pageEntries
      mapPages m vaddr pageFlags (i + 1) n

/-- The loop of `vmm_unmap_region` (`mask` cuts the offset) and of
`vmm_destroy_address_space` (it does not): unmap and free what is mapped. -/
def releasePages (mask : Nat → Nat) (m : Machine) (base i : Nat) : Nat → Option Machine
  | 0 => some m
  | n + 1 => do
    let phys ← pagingGetPhysical machMem L m (pageAddr base i)
    if phys ≠ 0 then do
      let m ← pagingUnmapPage machMem L m (pageAddr base i)
      releasePages mask (m.withPmm (pmmFreeFrame m.pmm (mask phys))) base (i + 1) n
    else releasePages mask m base (i + 1) n

end Pages

/-! ## Entry points -/

def vmmFlagsToPageFlags (vmmFlags : Nat) : Nat :=
  pagePresent ||| (if vmmFlags &&& vmmWrite ≠ 0 then pageWrite else 0)
    ||| (if vmmFlags &&& vmmUser ≠ 0 then pageUser else 0)

/-- The overlap test of `vmm_map_region`. Both ends wrap. -/
def overlaps (vaddr size : Nat) (r : Region) : Bool :=
  vaddr < w32 (r.base + r.size) && r.base < w32 (vaddr + size)

/-- The four calls of `vmm_init`, in order. -/
def kernelRegions (L : Layout) : List Region :=
  let kend := roundUp pageSize L.kernelEnd
  [⟨0xC0001000, 0x000FF000, vmmRead ||| vmmWrite, .mmio⟩,
    ⟨0xC0100000, sub32 kend 0xC0100000, vmmRead ||| vmmWrite ||| vmmExec, .kernelCode⟩] ++
  (if kend < 0xC0400000 then
    [⟨kend, sub32 0xC0400000 kend, vmmRead ||| vmmWrite, .identityMap⟩] else []) ++
  [⟨0xC0400000, 16 * 1024 * 1024, vmmRead ||| vmmWrite, .kernelHeap⟩]

/-- Register a list of regions, in order. -/
def registerAll (space : AddressSpace) (used : Nat) : List Region → AddressSpace × Nat
  | [] => (space, used)
  | r :: rs =>
    let (space, used) := registerExistingRegion space used r
    registerAll space used rs

def vmmInit (L : Layout) (m : Machine) (h : KHeap) : Vm :=
  let (space, used) := registerAll ⟨pagingGetDirectory L, [], 0⟩ 0 (kernelRegions L)
  { mach := m, heap := h, kernelSpace := space, spaces := [], regionPoolUsed := used }

def vmEnv (L : Layout) : PageEnv Machine where
  pmmAllocFrame := machMem.pmmAllocFrame
  pagingMapPage m bytes v p flags := (pagingMapPage machMem L m v p flags).map fun m => (m, bytes)

/-- `vmm_map_region`: `0` or `-1`. -/
def vmmMapRegion (L : Layout) (vm : Vm) (s : SpaceRef) (vaddr size flags : Nat)
    (type : RegionType) : Option (Int × Vm) :=
  match vm.space s with
  | none => some (-1, vm)
  | some space =>
    if vaddr % pageSize ≠ 0 then some (-1, vm)
    else if size % pageSize ≠ 0 then some (-1, vm)
    else if space.regions.any (overlaps vaddr size) then some (-1, vm)
    else do
      let (ok, m) ← mapPages L vm.mach vaddr (vmmFlagsToPageFlags flags) 0 (size / pageSize)
      let vm := { vm with mach := m }
      if ok then
        if vmmMaxRegions ≤ vm.regionPoolUsed then do
          let m ← undoPages L vm.mach vaddr 0 (size / pageSize)
          some (-1, { vm with mach := m })
        else
          let vm := { vm with regionPoolUsed := vm.regionPoolUsed + 1 }
          some (0, vm.setSpace s (insertRegion space ⟨vaddr, size, flags, type⟩))
      else some (-1, vm)

def vmmUnmapRegion (L : Layout) (vm : Vm) (s : SpaceRef) (vaddr : Nat) : Option (Int × Vm) :=
  match vm.space s with
  | none => some (-1, vm)
  | some space =>
    match space.regions.find? fun r => r.base = vaddr with
    | none => some (-1, vm)
    | some region =>
      if region.type.val ≤ RegionType.identityMap.val then some (-1, vm)
      else do
        let m ← releasePages L (roundDown pageSize) vm.mach region.base 0
          ((region.size + (pageSize - 1)) / pageSize)
        some (0, { vm with mach := m }.setSpace s (removeRegion space vaddr))

/-- `vmm_create_address_space`; `0` is `NULL`. -/
def vmmCreateAddressSpace (L : Layout) (vm : Vm) : Option (Nat × Vm) := do
  let (p, h, m) ← kmalloc (vmEnv L) vm.heap vm.mach addressSpaceSize
  let vm := { vm with heap := h, mach := m }
  if p = 0 then some (0, vm)
  else do
    let (dir, m) ← pagingCreateDirectory machMem L vm.mach
    let vm := { vm with mach := m }
    if dir = 0 then do
      let h ← kfree vm.heap p
      some (0, { vm with heap := h })
    else
      let (space, used) := registerAll ⟨dir, [], 0⟩ vm.regionPoolUsed vm.kernelSpace.regions
      some (p, { vm with spaces := (p, space) :: vm.spaces, regionPoolUsed := used })

def destroyRegions (L : Layout) (m : Machine) : List Region → Option Machine
  | [] => some m
  | r :: rs =>
    if RegionType.userCode.val ≤ r.type.val then do
      -- `addr < end` with a wrapping end
      let pages := (w32 (r.base + r.size) - r.base + (pageSize - 1)) / pageSize
      let m ← releasePages L id m r.base 0 pages
      destroyRegions L m rs
    else destroyRegions L m rs

def vmmDestroyAddressSpace (L : Layout) (vm : Vm) (s : SpaceRef) : Option Vm :=
  match s with
  | .null => some vm
  | .kernel => some vm
  | .created p => do
    let space ← vm.spaces.lookup p
    let m ← destroyRegions L vm.mach space.regions
    let m := m.withPmm (pmmFreeFrame m.pmm space.pageDirectory)
    let h ← kfree vm.heap p
    some { vm with mach := m, heap := h, spaces := vm.spaces.eraseP fun q => q.1 = p }

/-- `pmm_init`, `paging_init`, `kheap_init` and `vmm_init`, as `kernel_main` calls
them after `_start`. `none` when a step faults or the heap cannot be set up. -/
def bootVm (L : Layout) (phys : Phys) (bitmap : Bitmap) (bytes : Bytes)
    (mmap : Option (List MmapEntry)) : Option Vm := do
  let m ← pagingInitLoad L (bootStart L phys (pmmInit L bitmap mmap))
  let (ok, h, m) ← kheapInit (vmEnv L) m bytes
  if ok then some (vmmInit L m h) else none

end TupleOS.Memory
