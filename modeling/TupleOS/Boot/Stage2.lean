import TupleOS.Base.Bytes
import TupleOS.Base.Word
import TupleOS.Base.Regions
import TupleOS.Boot.Multiboot

/-!
# What stage 2 writes (`boot/stage2.asm`)

Stage 2 keeps its buffers and two stacks at fixed addresses of the first 640 KB.
`stage2` is its run from the BIOS banner to the kernel entry as a list of
`Use`s: each store, each push and each buffer handed to the BIOS is a write by
the region it belongs to, and each region says from when to when it lives where.

The run depends on what the BIOS and the disk return (`BootInput`). What stage 2
reads back from a buffer is what was stored there. That holds up to the first
write of one region into another, so the run is the real one up to that write,
and is clean exactly when the real one is.

Printing a string pushes the same bytes for every character; one character
stands for all. `Boot.Footprint` compares the lists with the code.
-/

namespace TupleOS.Boot

open TupleOS.Base TupleOS.Memory

/-- What stage 2 must keep apart. The `other` writes are into memory that nothing
lives in: the sector buffer, the A20 probe, the screen, the multiboot info and
the kernel's segments. -/
inductive Region where
  | stack
  | pmStack
  | code
  | map
  | fat
  | image
  | other
  deriving DecidableEq

abbrev Uses := List (Use Region Nat)

/-- The 32 sectors that stage 1 loads. -/
def codeWin : Set Nat := Set.Ico 0x7E00 0xBE00

/-- A store to a variable of stage 2. -/
def setVar : Uses := [.write .code codeWin]

/-! ## The stack in real mode -/

def stackTop : Nat := 0x7C00

def push (sp n : Nat) (body : Nat → Uses) : Uses := pushed .stack stackTop sp n (body (sp - n))

def call (sp : Nat) (body : Nat → Uses) : Uses := push sp 2 body

/-- `int`: flags, segment and return address; the BIOS writes `buffer`. -/
def interrupt (sp : Nat) (buffer : Uses) : Uses := push sp 6 fun _ => buffer

def printString (sp : Nat) : Uses := call sp fun sp => interrupt sp []

def printHex (sp : Nat) : Uses := call sp fun sp => interrupt sp []

/-! ## The A20 line -/

/-- `check_a20`: both bytes are written, then restored. -/
def checkA20 (sp : Nat) : Uses :=
  call sp fun sp => push sp 10 fun sp =>
    push sp 2 (fun sp =>
      push sp 2 (fun _ => [.write .other {0x500, 0x100500}]) ++ [.write .other {0x100500}]) ++
    [.write .other {0x500}]

def kbdWait (sp : Nat) : Uses := call sp fun _ => []

/-- How the A20 line answers: the carry of the BIOS, and the first two checks. -/
structure A20 where
  carry : Bool
  bios : Bool
  kbd : Bool

def enableA20 (a20 : A20) (sp : Nat) : Uses :=
  call sp fun sp =>
    printString sp ++ interrupt sp [] ++ (if a20.carry then [] else checkA20 sp) ++
    if ! a20.carry && a20.bios then [] else
      printString sp ++ kbdWait sp ++ kbdWait sp ++ kbdWait sp ++ checkA20 sp ++
      if a20.kbd then [] else printString sp ++ checkA20 sp

def startUp (a20 : A20) : Uses :=
  .live .code codeWin :: (setVar ++ interrupt stackTop [] ++ printString stackTop ++
    printHex stackTop ++ printString stackTop ++ enableA20 a20 stackTop ++ checkA20 stackTop ++
    printString stackTop)

/-! ## The memory map -/

/-- One reply of the BIOS to E820: the carry, the echoed signature, `cl`, whether
`ebx` is `0`, and the length in the entry. -/
structure Reply where
  carry : Bool
  smap : Bool
  size : Nat
  last : Bool
  length : Nat

def Reply.fails (r : Reply) : Bool := r.carry || ! r.smap

def Reply.usable (r : Reply) : Bool := decide (20 ≤ r.size) && decide (r.length ≠ 0)

def mapWin (c : Nat) : Set Nat := Set.Ico mmapEntries (mmapData + 24 * c)

def countWin : Set Nat := Set.Ico mmapEntries (mmapEntries + 4)

def e820Di (c : Nat) : Nat := (mmapData + mmapEntrySize * c) % 2 ^ 16

/-- The attributes of the entry at `di`. -/
def attrsWin (c : Nat) : Set Nat := Set.Ico (e820Di c + 20) (e820Di c + 24)

def e820Call (sp c : Nat) : Uses :=
  .write .map (attrsWin c) ::
    interrupt sp [.write .map (Set.Ico (e820Di c) (e820Di c + 24))]

/-- What follows a reply that did not fail, up to `.e820_skip`. -/
def e820Keep (c : Nat) (r : Reply) : Uses :=
  (if 20 ≤ r.size then [.write .map (attrsWin c)] else []) ++
    if r.usable then [.write .map countWin, .live .map (mapWin (c + 1))] else []

/-- The loop `.e820_loop` from `c` entries: its uses, the count and whether it
ended in `.e820_fail`. A BIOS that has no more replies fails. -/
def e820Loop (sp : Nat) : Nat → List Reply → Uses × Nat × Bool
  | c, [] => (e820Call sp c, c, true)
  | c, r :: rs =>
    if r.fails then (e820Call sp c, c, true)
    else
      let us := e820Call sp c ++ e820Keep c r
      let c := if r.usable then c + 1 else c
      if r.last then (us, c, false)
      else ((us ++ (e820Loop sp c rs).1), (e820Loop sp c rs).2)

def e820Done (sp : Nat) : Uses := printString sp ++ printHex sp ++ printString sp

def tryE801 (sp : Nat) (e801 : Bool) : Uses × Nat :=
  let ask := printString sp ++ interrupt sp []
  if e801 then
    (ask ++ [.write .map (Set.Ico mmapData (mmapData + 48)), .write .map countWin,
      .live .map (mapWin 2)] ++ e820Done sp, 2)
  else (ask ++ printString sp, 0)

def detectMemory (replies : List Reply) (e801 : Bool) (sp : Nat) : Uses × Nat :=
  let start := printString sp ++ [.write .map countWin, .live .map (mapWin 0)]
  let (us, c, failed) := e820Loop sp 0 replies
  if failed && decide (c = 0) then
    ((start ++ us ++ (tryE801 sp e801).1), (tryE801 sp e801).2)
  else ((start ++ us ++ e820Done sp), c)

def printEntry (sp : Nat) : Uses :=
  push sp 2 fun sp =>
    push sp 2 printString ++ push sp 2 printHex ++
    push sp 2 (fun sp => printHex sp ++ printString sp) ++ push sp 2 printHex ++
    push sp 2 (fun sp => printHex sp ++ printString sp) ++
    push sp 2 fun sp => interrupt sp [] ++ printString sp

def printMemoryMap (n sp : Nat) : Uses :=
  call sp fun sp => (List.replicate (n % 2 ^ 16) (printEntry sp)).flatten

/-! ## The file system -/

def sectorBuf : Nat := 0x0500
def fatBuf : Nat := 0x1000
def kernelSeg : Nat := 0x1000

/-- `read_sectors`; the BIOS fills `buffer`. -/
def readSectors (buffer : Uses) (sp : Nat) : Uses :=
  call sp fun sp => push sp 16 fun sp => setVar ++ interrupt sp buffer

def sectorRead : Uses := [.write .other (Set.Ico sectorBuf (sectorBuf + 512))]

def fatWin (fatSize : Nat) : Set Nat := Set.Ico fatBuf (fatBuf + 512 * fatSize)

def fat16Init (fatSize sp : Nat) : Uses :=
  call sp fun sp =>
    printString sp ++
    push sp 2 (fun sp =>
      readSectors sectorRead sp ++ setVar ++
      readSectors [.write .fat (fatWin fatSize), .live .fat (fatWin fatSize)] sp) ++
    printString sp

/-- One sector of `.scan_sector`; `pusha` is around the comparison of names. -/
def scanSector (sp : Nat) : Uses :=
  push sp 2 fun sp =>
    push sp 4 (fun sp => push sp 2 (readSectors sectorRead)) ++ push sp 16 fun _ => []

/-- `fat16_find_file`, with the entry in the last of `scanned` sectors. -/
def fat16FindFile (scanned sp : Nat) : Uses :=
  call sp fun sp =>
    printString sp ++ (List.replicate scanned (scanSector sp)).flatten ++ setVar ++
    push sp 2 printString

/-- The loop `.load_cluster`; `none` when the chain takes more than `fuel` clusters. -/
def loadCluster (fat : Nat → Nat) (spc sp : Nat) : Nat → Nat → Nat → Option Uses
  | 0, _, _ => none
  | fuel + 1, cluster, seg =>
    let read := push sp 2 (readSectors [.write .image (Set.Ico (16 * seg) (16 * seg + 512 * spc))])
    let next := fat cluster
    if next < 0xFFF8 then
      (loadCluster fat spc sp fuel next ((seg + 32 * spc) % 2 ^ 16)).map (read ++ setVar ++ ·)
    else some (read ++ setVar)

def imageWin (size : Nat) : Set Nat := Set.Ico (16 * kernelSeg) (16 * kernelSeg + size)

/-- `fat16_load_file`. The image lives from here, the FAT no longer after it. -/
def fat16LoadFile (fat : Nat → Nat) (spc size first fuel sp : Nat) : Option Uses :=
  (loadCluster fat spc (sp - 2) fuel first kernelSeg).map fun us =>
    call sp (fun sp => .live .image (imageWin size) :: (setVar ++ us ++ printString sp)) ++
      [.live .fat ∅]

/-! ## Protected mode -/

def pmStackTop : Nat := 0x90000

def pmPush (sp : Nat) (body : Nat → Uses) : Uses :=
  pushed .pmStack pmStackTop sp 4 (body (sp - 4))

/-- A text of cells on the screen. -/
def vga (pos : Nat) (text : String) : Uses := [.write .other (Set.Ico pos (pos + 2 * text.length))]

def nextRow (pos : Nat) : Nat := ((pos - 0xB8000) / 160 + 1) * 160 + 0xB8000

def pmVgaPos : Nat := 0xB8000 + 3520

def pmPrintLine (pos : Nat) (text : String) (sp : Nat) : Uses :=
  pmPush sp fun _ => vga pos text ++ setVar

/-- What `elf_load` reads of a program header; the source of a segment's bytes is
only read from. -/
structure Phdr where
  type : Nat
  paddr : Nat
  filesz : Nat
  memsz : Nat
  deriving DecidableEq

/-- The `n` addresses from `a`, in 32-bit arithmetic. -/
def wrapWin (a n : Nat) : Set Nat := {x | ∃ k < n, x = w32 (a + k)}

def elfValid (file : Bytes) : Bool :=
  decide (load32 file 0 = 0x464C457F) && decide (file 4 = 1) && decide (file 5 = 1) &&
    decide (load16 file 16 = 2) && decide (load16 file 18 = 3)

def elfPhoff (file : Bytes) : Nat := load32 file 28
def elfPhentsize (file : Bytes) : Nat := load16 file 42
def elfPhnum (file : Bytes) : Nat := load16 file 44

def phdrAt (file : Bytes) (a : Nat) : Phdr where
  type := load32 file a
  paddr := load32 file (a + 12)
  filesz := load32 file (a + 16)
  memsz := load32 file (a + 20)

/-- The program headers, in the order of the loop. -/
def phdrs (file : Bytes) : List Phdr :=
  (List.range (elfPhnum file)).map fun i => phdrAt file (elfPhoff file + i * elfPhentsize file)

/-- `rep movsb`, then `rep stosb` over what the file does not hold. -/
def loadSegment (p : Phdr) : Uses :=
  if p.type = 1 then
    [.write .other (wrapWin p.paddr p.filesz),
      .write .other (wrapWin (p.paddr + p.filesz) (p.memsz - p.filesz))]
  else []

def elfSegments (file : Bytes) (sp : Nat) : Uses :=
  (phdrs file).flatMap fun p => pmPush sp fun sp => pmPush sp fun _ => loadSegment p

def elfDone (sp : Nat) : Uses :=
  vga pmVgaPos "ELF: loaded, entry 0x" ++
    pmPush sp (fun _ => vga (pmVgaPos + 2 * "ELF: loaded, entry 0x".length) "00000000") ++ setVar

/-- One entry of `.mb_convert`; it is read before the next. -/
def mbEntryUses (n i : Nat) : Uses :=
  [.write .other (Set.Ico (mbootMmap + 24 * i) (mbootMmap + 24 * i + 24)),
    .write .other (Set.Ico (mbootInfo + 4) (mbootInfo + 12)),
    .live .map (Set.Ico (mmapData + 24 * (i + 1)) (mmapData + 24 * n))]

/-- `build_multiboot` over a map of `n` entries. -/
def buildMultibootUses (n : Nat) (sp : Nat) : Uses :=
  pmPush sp fun _ =>
    .write .other (Set.Ico mbootInfo (mbootInfo + 88)) ::
    .live .map (Set.Ico mmapData (mmapData + 24 * n)) ::
    ((List.range n).flatMap (mbEntryUses n) ++
      [.live .map ∅, .write .other (Set.Ico mbootInfo (mbootInfo + 88))])

/-- From the return of `elf_load` to the kernel. -/
def handOff (n : Nat) : Uses :=
  pmPrintLine (nextRow pmVgaPos) "Building multiboot info struct..." pmStackTop ++
    buildMultibootUses n pmStackTop ++
    pmPrintLine (nextRow (nextRow pmVgaPos)) "Jumping to kernel entry point..." pmStackTop

/-- `elf_load`. The image has been copied at `.elf_done`. -/
def elfLoad (file : Bytes) (sp : Nat) : Uses :=
  if elfValid file then setVar ++ elfSegments file sp ++ .live .image ∅ :: elfDone sp
  else pmPrintLine pmVgaPos "[FAIL] Invalid ELF binary!" sp

/-- `pm_entry`. It stops at a file that is not valid. -/
def pmEntry (file : Bytes) (n : Nat) : Uses :=
  .live .stack ∅ :: (vga (0xB8000 + 3360) "[ OK ] 32-bit protected mode active!" ++
    pmPush pmStackTop (elfLoad file) ++ if elfValid file then handOff n else [])

/-! ## Stage 2 -/

/-- The clusters of a file, from the first to the one that ends the chain. -/
inductive Follows (fat : Nat → Nat) : List Nat → Prop
  | last {c : Nat} (h : 0xFFF8 ≤ fat c) : Follows fat [c]
  | next {c : Nat} {cs : List Nat} (h : fat c < 0xFFF8) (hcs : Follows fat (fat c :: cs)) :
      Follows fat (c :: fat c :: cs)

/-- What is loaded for the kernel. A file that `elf_load` takes holds the program headers
that it names; any other is loaded too. -/
structure KernelFile where
  bytes : Bytes
  size : Nat
  limit : size ≤ 589824
  table : elfValid bytes = true → ∀ i < elfPhnum bytes,
    elfPhoff bytes + i * elfPhentsize bytes + 24 ≤ size

/-- What the BIOS and the disk give stage 2. The A20 line is enabled in the end,
the disk reads succeed and the kernel's file is found. -/
structure BootInput where
  a20 : A20
  replies : List Reply
  e801 : Bool
  /-- Sectors per cluster, a byte. -/
  spc : Nat
  spc_pos : 1 ≤ spc
  spc_le : spc ≤ 255
  /-- Sectors per FAT. -/
  fatSize : Nat
  fatSize_pos : 1 ≤ fatSize
  fatSize_le : fatSize ≤ 256
  fat : Nat → Nat
  /-- Sectors of the root directory up to the file's entry. -/
  scanned : Nat
  scanned_pos : 1 ≤ scanned
  file : KernelFile
  first : Nat
  rest : List Nat
  chain : Follows fat (first :: rest)
  clusters : (first :: rest).length = (file.size + 512 * spc - 1) / (512 * spc)

def BootInput.count (x : BootInput) : Nat := (detectMemory x.replies x.e801 (stackTop - 2)).2

def BootInput.findKernel (x : BootInput) : Uses :=
  printString stackTop ++ printMemoryMap x.count stackTop ++ fat16Init x.fatSize stackTop ++
    fat16FindFile x.scanned stackTop

/-- Stage 2, from `stage2_start` to the jump to the kernel. -/
def stage2 (x : BootInput) (fuel : Nat) : Option Uses :=
  (fat16LoadFile x.fat x.spc x.file.size x.first fuel stackTop).map fun load =>
    startUp x.a20 ++ call stackTop (fun sp => (detectMemory x.replies x.e801 sp).1) ++
      (x.findKernel ++ load ++ printString stackTop) ++ pmEntry x.file.bytes x.count

end TupleOS.Boot
