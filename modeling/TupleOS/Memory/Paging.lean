import TupleOS.Base.Mmu
import TupleOS.Base.Word

/-!
# Paging (`kernel/paging.c`)

The paging primitives edit two-level tables through kernel virtual addresses:
`page_directory` is a static array of the kernel image, and a table whose
physical address stands in a directory entry is reached at
`PHYS_TO_VIRT(table)`. What such an address names depends on the machine
(a flat memory, or a physical memory behind an MMU), so the code is written
over a `TableMem`: word accesses that may fault, and the frame allocator.
-/

namespace TupleOS.Memory

open TupleOS.Base

def pageSize : Nat := 4096
def pageEntries : Nat := 1024
def kernelVirtualBase : Nat := 0xC0000000

def physToVirt (addr : Nat) : Nat := w32 (addr + kernelVirtualBase)

def virtToPhys (addr : Nat) : Nat := sub32 addr kernelVirtualBase

def pagePresent : Nat := 0x001
def pageWrite : Nat := 0x002
def pageUser : Nat := 0x004

/-- Where the linker put the symbols the memory managers use. The image starts
at `0xC0100000` (`linker.ld`) and ends below the heap. -/
structure Layout where
  /-- `&_kernel_end`. -/
  kernelEnd : Nat
  /-- `&page_directory[0]`. -/
  pageDirectory : Nat
  /-- `&page_tables[0][0]`. -/
  pageTables : Nat
  /-- `boot_page_directory` of `boot.asm`. -/
  bootPageDirectory : Nat
  /-- `boot_page_table` of `boot.asm`. -/
  bootPageTable : Nat
  pageDirectory_aligned : pageDirectory % pageSize = 0
  pageTables_aligned : pageTables % pageSize = 0
  pageDirectory_ge : 0xC0100000 ≤ pageDirectory
  pageTables_ge : 0xC0100000 ≤ pageTables
  pageDirectory_le : pageDirectory + pageSize ≤ kernelEnd
  pageTables_le : pageTables + 4 * pageSize ≤ kernelEnd
  arrays_disjoint : pageDirectory + pageSize ≤ pageTables ∨
    pageTables + 4 * pageSize ≤ pageDirectory
  bootDirectory_aligned : bootPageDirectory % pageSize = 0
  bootTable_aligned : bootPageTable % pageSize = 0
  bootDirectory_ge : 0xC0100000 ≤ bootPageDirectory
  bootTable_eq : bootPageTable = bootPageDirectory + pageSize
  bootTable_le : bootPageTable + pageSize ≤ kernelEnd
  boot_disjoint : (bootPageTable + pageSize ≤ pageDirectory ∨
      pageDirectory + pageSize ≤ bootPageDirectory) ∧
    (bootPageTable + pageSize ≤ pageTables ∨ pageTables + 4 * pageSize ≤ bootPageDirectory)
  kernelEnd_le : kernelEnd ≤ 0xC0400000

def sampleLayout : Layout where
  kernelEnd := 0xC0120000
  pageDirectory := 0xC0110000
  pageTables := 0xC0111000
  bootPageDirectory := 0xC0116000
  bootPageTable := 0xC0117000
  pageDirectory_aligned := by decide
  pageTables_aligned := by decide
  pageDirectory_ge := by decide
  pageTables_ge := by decide
  pageDirectory_le := by decide
  pageTables_le := by decide
  arrays_disjoint := by decide
  bootDirectory_aligned := by decide
  bootTable_aligned := by decide
  bootDirectory_ge := by decide
  bootTable_eq := by decide
  bootTable_le := by decide
  boot_disjoint := by decide
  kernelEnd_le := by decide

/-- The memory the paging code runs on: words at kernel virtual addresses
(`none` is a page fault, which halts the kernel) and `pmm_alloc_frame`. -/
structure TableMem (τ : Type) where
  load : τ → Nat → Option Nat
  store : τ → Nat → Nat → Option τ
  pmmAllocFrame : τ → Nat × τ

def entryAddr (entry : Nat) : Nat := roundDown pageSize entry

/-- `addr | bits` for a page-aligned `addr` and `bits` below the page size. -/
def mkEntry (addr bits : Nat) : Nat := addr + bits

section Code

variable {τ : Type} (I : TableMem τ) (L : Layout)

/-- Store the word `v` at the `n` consecutive words from `base`. -/
def fillWords (t : τ) (base v : Nat) : Nat → Option τ
  | 0 => some t
  | n + 1 => do
    let t ← fillWords t base v n
    I.store t (base + 4 * n) v

/-- One table of `paging_init`: entry `i` maps frame `1024 t + i`. -/
def fillTable (m : τ) (t : Nat) : Nat → Option τ
  | 0 => some m
  | n + 1 => do
    let m ← fillTable m t n
    I.store m (L.pageTables + pageSize * t + 4 * n)
      (mkEntry ((t * pageEntries + n) * pageSize) (pagePresent ||| pageWrite))

/-- The table loop of `paging_init`: fill table `t` and enter it at `768 + t`. -/
def fillTables (m : τ) : Nat → Option τ
  | 0 => some m
  | t + 1 => do
    let m ← fillTables m t
    let m ← fillTable I L m t pageEntries
    I.store m (L.pageDirectory + 4 * (768 + t))
      (mkEntry (virtToPhys (L.pageTables + pageSize * t)) (pagePresent ||| pageWrite))

/-- `paging_init`, up to the loading of CR3. -/
def pagingInit (m : τ) : Option τ := do
  let m ← fillWords I m L.pageDirectory 0x00000002 pageEntries
  fillTables I L m 4

/-- The branch of `paging_map_page` for an absent directory entry: take a frame,
clear it, enter it. `false` when the allocator has no frame left. -/
def newPageTable (t : τ) (pdIndex flags : Nat) : Option (Bool × τ) :=
  let (newTablePhys, t) := I.pmmAllocFrame t
  if newTablePhys = 0 then some (false, t)
  else do
    let t ← fillWords I t (physToVirt newTablePhys) 0 pageEntries
    let t ← I.store t (L.pageDirectory + 4 * pdIndex)
      (mkEntry newTablePhys (pagePresent ||| pageWrite ||| (flags &&& pageUser)))
    some (true, t)

theorem newPageTable_eq (t : τ) (pdIndex flags : Nat) :
    newPageTable I L t pdIndex flags =
      if (I.pmmAllocFrame t).1 = 0 then some (false, (I.pmmAllocFrame t).2)
      else (fillWords I (I.pmmAllocFrame t).2 (physToVirt (I.pmmAllocFrame t).1) 0 pageEntries).bind
        fun t' => (I.store t' (L.pageDirectory + 4 * pdIndex) (mkEntry (I.pmmAllocFrame t).1
          (pagePresent ||| pageWrite ||| (flags &&& pageUser)))).bind
        fun t' => some (true, t') := rfl

def pagingMapPage (t : τ) (virtualAddr physicalAddr flags : Nat) : Option τ := do
  let pdIndex := virtualAddr / 2 ^ 22
  let ptIndex := virtualAddr / 2 ^ 12 % 2 ^ 10
  let pde ← I.load t (L.pageDirectory + 4 * pdIndex)
  let (ok, t) ← if isPresent pde then some (true, t) else newPageTable I L t pdIndex flags
  if ok then do
    let pde ← I.load t (L.pageDirectory + 4 * pdIndex)
    I.store t (physToVirt (entryAddr pde) + 4 * ptIndex)
      (mkEntry (roundDown pageSize physicalAddr) (flags % pageSize ||| pagePresent))
  else some t

section Map

variable {I L} {t t' : τ} {pde pde' virtualAddr physicalAddr flags : Nat}

theorem pagingMapPage_noTable
    (hl : I.load t (L.pageDirectory + 4 * (virtualAddr / 2 ^ 22)) = some pde)
    (hp : isPresent pde = false)
    (hn : newPageTable I L t (virtualAddr / 2 ^ 22) flags = some (false, t')) :
    pagingMapPage I L t virtualAddr physicalAddr flags = some t' := by
  simp only [pagingMapPage, hl, hp, hn, Option.bind_eq_bind, Option.bind_some, Bool.false_eq_true,
    ↓reduceIte]

theorem pagingMapPage_newTable
    (hl : I.load t (L.pageDirectory + 4 * (virtualAddr / 2 ^ 22)) = some pde)
    (hp : isPresent pde = false)
    (hn : newPageTable I L t (virtualAddr / 2 ^ 22) flags = some (true, t'))
    (hl' : I.load t' (L.pageDirectory + 4 * (virtualAddr / 2 ^ 22)) = some pde')
    (hp' : isPresent pde' = true) :
    pagingMapPage I L t virtualAddr physicalAddr flags =
      pagingMapPage I L t' virtualAddr physicalAddr flags := by
  simp only [pagingMapPage, hl, hp, hn, hl', hp', Option.bind_eq_bind, Option.bind_some,
    Bool.false_eq_true, ↓reduceIte]

end Map

def pagingUnmapPage (t : τ) (virtualAddr : Nat) : Option τ := do
  let pdIndex := virtualAddr / 2 ^ 22
  let ptIndex := virtualAddr / 2 ^ 12 % 2 ^ 10
  let pde ← I.load t (L.pageDirectory + 4 * pdIndex)
  if isPresent pde then I.store t (physToVirt (entryAddr pde) + 4 * ptIndex) 0
  else some t

/-- `paging_get_physical`: `0` when the page is not mapped. -/
def pagingGetPhysical (t : τ) (virtualAddr : Nat) : Option Nat := do
  let pdIndex := virtualAddr / 2 ^ 22
  let ptIndex := virtualAddr / 2 ^ 12 % 2 ^ 10
  let pde ← I.load t (L.pageDirectory + 4 * pdIndex)
  if isPresent pde then do
    let pte ← I.load t (physToVirt (entryAddr pde) + 4 * ptIndex)
    if isPresent pte then some (w32 (entryAddr pte + virtualAddr % pageSize)) else some 0
  else some 0

/-- Copy the kernel half of `page_directory` into the directory at `newDir`. -/
def copyKernelHalf (t : τ) (newDir : Nat) : Nat → Option τ
  | 0 => some t
  | n + 1 => do
    let t ← copyKernelHalf t newDir n
    let pde ← I.load t (L.pageDirectory + 4 * (768 + n))
    I.store t (newDir + 4 * (768 + n)) pde

/-- `paging_create_directory`: the physical address, `0` for `NULL`. -/
def pagingCreateDirectory (t : τ) : Option (Nat × τ) :=
  let (dirPhys, t) := I.pmmAllocFrame t
  if dirPhys = 0 then some (0, t)
  else do
    let t ← fillWords I t (physToVirt dirPhys) 0x00000002 pageEntries
    let t ← copyKernelHalf I L t (physToVirt dirPhys) 256
    some (dirPhys, t)

theorem pagingCreateDirectory_eq (t : τ) :
    pagingCreateDirectory I L t =
      if (I.pmmAllocFrame t).1 = 0 then some (0, (I.pmmAllocFrame t).2)
      else (fillWords I (I.pmmAllocFrame t).2 (physToVirt (I.pmmAllocFrame t).1) 2 pageEntries).bind
        fun t' => (copyKernelHalf I L t' (physToVirt (I.pmmAllocFrame t).1) 256).bind
          fun t' => some ((I.pmmAllocFrame t).1, t') := rfl

/-- `paging_get_directory`: the physical address of `page_directory`. -/
def pagingGetDirectory : Nat := virtToPhys L.pageDirectory

end Code

end TupleOS.Memory
