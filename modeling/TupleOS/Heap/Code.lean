import TupleOS.Base.Bytes
import TupleOS.Memory.Paging

/-!
# The kernel heap (`kernel/kheap.c`)

The heap is a singly linked list of blocks threaded through the managed memory:
a 12-byte header (`size` at `+0`, `is_free` at `+4`, `next` at `+8`) before each
payload. `KHeap` holds kernel memory and the file's statics. The list walks are
`while` loops over pointers read from memory; they run on fuel, and `none` is a
walk that does not return. Growing the heap asks for page frames and maps them,
which is another component's business (`PageEnv`).
-/

namespace TupleOS.Heap

open TupleOS.Base TupleOS.Memory

/-- `HEADER_SIZE`: two words and a pointer. -/
def headerSize : Nat := 12

def initialHeapSize : Nat := 1024 * 1024
def maxHeapSize : Nat := 16 * 1024 * 1024
def heapStartAddr : Nat := 0xC0400000

/-- A list in a 32-bit address space that is longer than this has a cycle. -/
def walkFuel : Nat := 2 ^ 32

/-- Kernel memory and the statics of `kheap.c`. -/
structure KHeap where
  mem : Bytes
  heapStart : Nat
  heapEnd : Nat
  heapMax : Nat
  /-- `0` is `NULL`. -/
  firstBlock : Nat
  totalAllocated : Nat

/-- What `kheap.c` calls to grow: `pmm_alloc_frame` (`0` is `NULL`) and
`paging_map_page`, which may write kernel memory. -/
structure PageEnv (σ : Type) where
  pmmAllocFrame : σ → Nat × σ
  pagingMapPage : σ → Bytes → Nat → Nat → Nat → Option (σ × Bytes)

/-! ## Headers -/

def blockSize (m : Bytes) (block : Nat) : Nat := load32 m block
def blockIsFree (m : Bytes) (block : Nat) : Nat := load32 m (block + 4)
def blockNext (m : Bytes) (block : Nat) : Nat := load32 m (block + 8)

def setSize (m : Bytes) (block v : Nat) : Bytes := store32 m block v
def setIsFree (m : Bytes) (block v : Nat) : Bytes := store32 m (block + 4) v
def setNext (m : Bytes) (block v : Nat) : Bytes := store32 m (block + 8) v

/-- The three header stores, in the order every site makes them. -/
def writeHeader (m : Bytes) (block size isFree next : Nat) : Bytes :=
  setNext (setIsFree (setSize m block size) block isFree) block next

/-! ## List walks -/

/-- `find_free_block`: the first free block that fits, `0` for `NULL`. -/
def findFreeBlock (m : Bytes) (size : Nat) : Nat → Nat → Option Nat
  | 0, _ => none
  | n + 1, block =>
    if block = 0 then some 0
    else if blockIsFree m block ≠ 0 ∧ size ≤ blockSize m block then some block
    else findFreeBlock m size n (blockNext m block)

def lastBlock (m : Bytes) : Nat → Nat → Option Nat
  | 0, _ => none
  | n + 1, block => if blockNext m block = 0 then some block else lastBlock m n (blockNext m block)

def mergeFreeBlocks : Nat → Bytes → Nat → Option Bytes
  | 0, _, _ => none
  | n + 1, m, block =>
    if block = 0 ∨ blockNext m block = 0 then some m
    else
      let next := blockNext m block
      if blockIsFree m block ≠ 0 ∧ blockIsFree m next ≠ 0 then
        -- the block absorbs its neighbour and is looked at again
        let m := setSize m block (w32 (blockSize m block + headerSize + blockSize m next))
        mergeFreeBlocks n (setNext m block (blockNext m next)) block
      else mergeFreeBlocks n m next

/-! ## Growing -/

section Env

variable {σ : Type} (E : PageEnv σ)

/-- The mapping loop of `kheap_init` and `heap_expand`: `n` pages from `base`,
`false` when a frame is missing. Pages mapped before that stay mapped. -/
def mapHeapPages (e : σ) (m : Bytes) (base : Nat) : Nat → Option (Bool × σ × Bytes)
  | 0 => some (true, e, m)
  | n + 1 => do
    let (frame, e) := E.pmmAllocFrame e
    if frame = 0 then some (false, e, m)
    else do
      let (e, m) ← E.pagingMapPage e m base frame (pagePresent ||| pageWrite)
      mapHeapPages e m (base + pageSize) n

/-- `kheap_init`; the flag is `false` on its early return. -/
def kheapInit (e : σ) (m : Bytes) : Option (Bool × KHeap × σ) := do
  let (ok, e, m) ← mapHeapPages E e m heapStartAddr (initialHeapSize / pageSize)
  if ok then
    some (true, {
      mem := writeHeader m heapStartAddr (initialHeapSize - headerSize) 1 0
      heapStart := heapStartAddr
      heapEnd := heapStartAddr + initialHeapSize
      heapMax := heapStartAddr + maxHeapSize
      firstBlock := heapStartAddr
      totalAllocated := 0 }, e)
  else
    some (false, {
      mem := m
      heapStart := heapStartAddr
      heapEnd := heapStartAddr
      heapMax := heapStartAddr + maxHeapSize
      firstBlock := 0
      totalAllocated := 0 }, e)

/-- The end of `heap_expand`: extend the last block, or put a new one after it. -/
def appendSpace (h : KHeap) (expandSize : Nat) : Option KHeap := do
  let block ← lastBlock h.mem walkFuel h.firstBlock
  let m :=
    if blockIsFree h.mem block ≠ 0 then
      setSize h.mem block (w32 (blockSize h.mem block + expandSize))
    else
      setNext (writeHeader h.mem h.heapEnd (sub32 expandSize headerSize) 1 0) block h.heapEnd
  some { h with mem := m, heapEnd := w32 (h.heapEnd + expandSize) }

def heapExpand (h : KHeap) (e : σ) (minSize : Nat) : Option (Bool × KHeap × σ) :=
  let expandSize := roundUp pageSize minSize
  if w32 (h.heapEnd + expandSize) > h.heapMax then some (false, h, e)
  else do
    let (ok, e, m) ← mapHeapPages E e h.mem h.heapEnd (expandSize / pageSize)
    if ok then do
      let h ← appendSpace { h with mem := m } expandSize
      some (true, h, e)
    else some (false, { h with mem := m }, e)

def splitBlock (m : Bytes) (block size : Nat) : Bytes :=
  if w32 (size + headerSize + 32) ≤ blockSize m block then
    let newBlock := w32 (block + headerSize + size)
    let m := setSize m newBlock (sub32 (sub32 (blockSize m block) size) headerSize)
    let m := setIsFree m newBlock 1
    let m := setNext m newBlock (blockNext m block)
    let m := setSize m block size
    setNext m block newBlock
  else m

/-- The end of `kmalloc`: split the block and hand it out. -/
def takeBlock (h : KHeap) (block size : Nat) : Nat × KHeap :=
  let m := setIsFree (splitBlock h.mem block size) block 0
  (w32 (block + headerSize),
    { h with mem := m, totalAllocated := w32 (h.totalAllocated + blockSize m block) })

/-- `kmalloc`; `0` is `NULL`. -/
def kmalloc (h : KHeap) (e : σ) (size : Nat) : Option (Nat × KHeap × σ) :=
  if size = 0 then some (0, h, e)
  else do
    let size := roundUp 8 size
    let block ← findFreeBlock h.mem size walkFuel h.firstBlock
    if block ≠ 0 then
      let (p, h) := takeBlock h block size
      some (p, h, e)
    else do
      let (ok, h, e) ← heapExpand E h e (w32 (size + headerSize))
      if ok then do
        let block ← findFreeBlock h.mem size walkFuel h.firstBlock
        if block ≠ 0 then
          let (p, h) := takeBlock h block size
          some (p, h, e)
        else some (0, h, e)
      else some (0, h, e)

/-- `kmalloc_aligned`: a page boundary inside a block one page larger. -/
def kmallocAligned (h : KHeap) (e : σ) (size : Nat) : Option (Nat × KHeap × σ) := do
  let (ptr, h, e) ← kmalloc E h e (w32 (size + pageSize))
  if ptr = 0 then some (0, h, e) else some (roundUp pageSize ptr, h, e)

/-- `kcalloc`: the product wraps, as `size_t` does. -/
def kcalloc (h : KHeap) (e : σ) (num size : Nat) : Option (Nat × KHeap × σ) := do
  let total := w32 (num * size)
  let (ptr, h, e) ← kmalloc E h e total
  if ptr = 0 then some (0, h, e) else some (ptr, { h with mem := zeroBytes h.mem ptr total }, e)

end Env

/-- `kfree`: the header is found at a fixed offset before `ptr`. -/
def kfree (h : KHeap) (ptr : Nat) : Option KHeap :=
  if ptr = 0 then some h
  else
    let block := sub32 ptr headerSize
    if blockIsFree h.mem block ≠ 0 then some h
    else do
      let m := setIsFree h.mem block 1
      let total := sub32 h.totalAllocated (blockSize m block)
      let m ← mergeFreeBlocks walkFuel m h.firstBlock
      some { h with mem := m, totalAllocated := total }

def kheapGetUsed (h : KHeap) : Nat := h.totalAllocated

end TupleOS.Heap
