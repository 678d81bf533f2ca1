import TupleOS.Base.Orbit
import TupleOS.Boot.Stage2

/-!
# The FAT16 reader (`boot/stage2.asm`)

Steps 8 and 9 of `stage2_start` in real mode: `fat16_init` reads the BPB and caches the
FAT, `fat16_find_file` looks for the kernel in the root directory, and `fat16_load_file`
follows its clusters. `step` is one block of this code, from a label to the next jump.
Registers are 16 or 32 bits wide, the stack is a list of words and return addresses, and
the variables of stage 2 are fields of the state; `mem` is the rest of memory.

The BIOS and the disk are `Bios`. A read may fail, and then leaves anything in the sectors
that it moved. A read over the interrupt vectors, the stack or stage 2 itself is the end
of what can be said about the machine, and `step` is `none` there. The data segment is `0`.
-/

namespace TupleOS.Fat16

open TupleOS.Base
open TupleOS.Boot (sectorBuf fatBuf kernelSeg)

/-! ## The machine -/

/-- The labels. `findKernel`, `foundKernel` and `kernelReady` are where `stage2_start` goes
on after each of its three calls. -/
inductive Label where
  | initFs
  | findKernel
  | foundKernel
  | kernelReady
  | halt
  | fat16Init
  | initFail
  | fat16FindFile
  | scanSector
  | checkEntry
  | skipEntry
  | findNotFound
  | findFound
  | fat16LoadFile
  | loadCluster
  | loadFail
  deriving DecidableEq

inductive Slot where
  | word (w : Nat)
  | ret (back : Label)
  deriving DecidableEq

structure Vars where
  bps : Nat
  spc : Nat
  reserved : Nat
  numFats : Nat
  rootEntries : Nat
  fatSize : Nat
  spt : Nat
  heads : Nat
  fatStart : Nat
  rootStart : Nat
  rootSectors : Nat
  dataStart : Nat
  currCluster : Nat
  loadSeg : Nat
  fileSize : Nat

structure Dap where
  count : Nat
  offset : Nat
  segment : Nat
  lba : Nat

/-- `reads` counts the calls of `int 0x13`, and `screen` is what was printed. -/
structure State where
  pc : Label
  eax : Nat
  ecx : Nat
  bx : Nat
  dx : Nat
  si : Nat
  di : Nat
  bp : Nat
  es : Nat
  cf : Bool
  zf : Bool
  stack : List Slot
  mem : Bytes
  vars : Vars
  dap : Dap
  reads : Nat
  screen : List String

/-- The BIOS, the disk and what else stage 2 does not decide. -/
structure Bios where
  /-- The bytes of a sector. -/
  disk : Nat → Bytes
  /-- Whether read `n` succeeds. -/
  ok : Nat → Bool
  /-- How many sectors read `n` moves when it fails, and what they then hold. -/
  moved : Nat → Nat
  junk : Nat → Bytes
  /-- What is found after read `n` at the addresses of `Own`. -/
  own : Nat → Bytes
  /-- `ax`, `bx` and `si` after a text was printed. -/
  shown : String → Nat × Nat × Nat

def w16 (n : Nat) : Nat := n % 2 ^ 16

def sub16 (a b : Nat) : Nat := w16 (2 ^ 16 - b + a)

/-- The interrupt vectors and the data of the BIOS, the stack, and stage 2. -/
def Own (a : Nat) : Prop := a < 0x500 ∨ InWin 0x7A00 0x7C00 a ∨ InWin 0x7E00 0xBE00 a

instance (a : Nat) : Decidable (Own a) := inferInstanceAs (Decidable (_ ∨ _))

/-- The `n` sectors from `a` meet `Own`. -/
def Clobbers (a n : Nat) : Prop :=
  0 < n ∧ (a < 0x500 ∨ (a < 0x7C00 ∧ 0x7A00 < a + 512 * n) ∨ (a < 0xBE00 ∧ 0x7E00 < a + 512 * n))

instance (a n : Nat) : Decidable (Clobbers a n) := inferInstanceAs (Decidable (_ ∧ _))

namespace State

def ax (s : State) : Nat := w16 s.eax
def cx (s : State) : Nat := w16 s.ecx

/-- `mov ax, v`; the high half stays. -/
def setAx (v : Nat) (s : State) : State := { s with eax := s.eax / 2 ^ 16 * 2 ^ 16 + w16 v }
def setCx (v : Nat) (s : State) : State := { s with ecx := s.ecx / 2 ^ 16 * 2 ^ 16 + w16 v }

def push (w : Nat) (s : State) : State := { s with stack := .word w :: s.stack }

/-- `push eax`: the low word is on top. -/
def pushEax (s : State) : State := (s.push (s.eax / 2 ^ 16)).push s.ax

def call (target back : Label) (s : State) : State :=
  { s with stack := .ret back :: s.stack, pc := target }

def ret (s : State) : Option State :=
  match s.stack with
  | .ret back :: stack => some { s with stack := stack, pc := back }
  | _ => none

def popEs (s : State) : Option State :=
  match s.stack with
  | .word w :: stack => some { s with es := w, stack := stack }
  | _ => none

def popCx (s : State) : Option State :=
  match s.stack with
  | .word w :: stack => some ({ s with stack := stack }.setCx w)
  | _ => none

def popAx (s : State) : Option State :=
  match s.stack with
  | .word w :: stack => some ({ s with stack := stack }.setAx w)
  | _ => none

def popEax (s : State) : Option State :=
  match s.stack with
  | .word lo :: .word hi :: stack => some { s with eax := hi * 2 ^ 16 + lo, stack := stack }
  | _ => none

def pusha (s : State) : State :=
  { s with
    stack := .word s.di :: .word s.si :: .word s.bp :: .word (0x7C00 - 2 * s.stack.length) ::
      .word s.bx :: .word s.dx :: .word s.cx :: .word s.ax :: s.stack }

/-- `popa` leaves the flags and the high halves. -/
def popa (s : State) : Option State :=
  match s.stack with
  | .word di :: .word si :: .word bp :: .word _ :: .word bx :: .word dx :: .word cx :: .word ax ::
      stack =>
    some (({ s with
      di := di, si := si, bp := bp, bx := bx, dx := dx, stack := stack }.setCx cx).setAx ax)
  | _ => none

end State

/-! ## Disk and screen -/

def printString (b : Bios) (text : String) (s : State) : State :=
  { s.setAx (b.shown text).1 with
    bx := (b.shown text).2.1, si := (b.shown text).2.2, screen := s.screen ++ [text] }

/-- Memory after `n` sectors were moved to `a`. -/
def fill (m : Bytes) (a n : Nat) (data : Bytes) : Bytes := fun x =>
  if InWin a (a + 512 * n) x then data (x - a) else m x

/-- The sectors of the disk from `lba`, byte by byte. -/
def sectors (disk : Nat → Bytes) (lba : Nat) : Bytes := fun j => disk (lba + j / 512) (j % 512)

def int13 (b : Bios) (s : State) : Option State :=
  let a := 16 * s.dap.segment + s.dap.offset
  let ok := b.ok s.reads
  let n := if ok then s.dap.count else min (b.moved s.reads) s.dap.count
  let data := if ok then sectors b.disk s.dap.lba else b.junk s.reads
  if Clobbers a n then none
  else some { s with mem := fill s.mem a n data, cf := !ok, reads := s.reads + 1 }

/-- `read_sectors`, between its `call` and its `ret`. The registers of the call itself,
`ah`, `dl` and `si`, come back with `popa`. -/
def readSectors (b : Bios) (s : State) : Option State := do
  let s := s.pusha
  let s := { s with dap := ⟨s.cx, s.bx, s.es, s.eax⟩ }
  let s ← int13 b s
  s.popa

/-! ## `fat16_init` -/

/-- The variables, from the sector in `SECTOR_BUF`. -/
def parseBpb (m : Bytes) (v : Vars) : Vars :=
  let reserved := load16 m (sectorBuf + 0x0E)
  let numFats := (m (sectorBuf + 0x10)).toNat
  let rootEntries := load16 m (sectorBuf + 0x11)
  let fatSize := load16 m (sectorBuf + 0x16)
  let rootStart := w16 (w16 (numFats * fatSize) + reserved)
  { v with
    bps := load16 m (sectorBuf + 0x0B), spc := (m (sectorBuf + 0x0D)).toNat
    reserved := reserved, numFats := numFats, rootEntries := rootEntries, fatSize := fatSize
    spt := load16 m (sectorBuf + 0x18), heads := load16 m (sectorBuf + 0x1A)
    fatStart := reserved, rootStart := rootStart, rootSectors := rootEntries / 16
    dataStart := w16 (rootEntries / 16 + rootStart) }

def fat16Init (b : Bios) (s : State) : Option State := do
  let s := printString b "FAT16: reading BPB...\r\n" s
  let s := s.push s.es
  let s := { s with es := 0, bx := sectorBuf, eax := 0 }.setCx 1
  let s ← readSectors b s
  if s.cf then some { s with pc := .initFail }
  else
    let v := parseBpb s.mem s.vars
    let s := { s with
      vars := v, si := sectorBuf, dx := v.numFats * v.fatSize / 2 ^ 16
      eax := v.fatStart, bx := fatBuf }.setCx v.fatSize
    let s ← readSectors b s
    if s.cf then some { s with pc := .initFail }
    else
      let s ← s.popEs
      (printString b "FAT16: filesystem initialized.\r\n" s).ret

def initFail (b : Bios) (s : State) : Option State := do
  let s ← s.popEs
  (printString b "FAT16: failed to read BPB\r\n" s).ret

/-! ## `fat16_find_file` -/

def fat16KernelName : List Char := ['T', 'U', 'P', 'L', 'E', 'O', 'S', ' ', 'B', 'I', 'N']

def fat16FindFile (b : Bios) (s : State) : State :=
  let s := printString b "FAT16: searching for TUPLEOS.BIN...\r\n" s
  { { s with eax := s.vars.rootStart }.setCx s.vars.rootSectors with pc := .scanSector }

def scanSector (b : Bios) (s : State) : Option State := do
  let s := ((s.push s.cx).pushEax).push s.es
  let s := { s with es := 0, bx := sectorBuf }.setCx 1
  let s ← readSectors b s
  let s ← s.popEs
  let s ← s.popEax
  if s.cf then some { s with pc := .findNotFound }
  else some { s with di := sectorBuf, dx := 16, pc := .checkEntry }

/-- `repe cmpsb` with a name: whether all its characters are at `es:di`. -/
def repeCmpsb (m : Bytes) (es : Nat) : Nat → List Char → Bool
  | _, [] => true
  | di, c :: cs =>
    decide (m (16 * es + w16 di) = BitVec.ofNat 8 c.toNat) && repeCmpsb m es (di + 1) cs

def checkEntry (s : State) : Option State :=
  if s.mem s.di = 0x00 then some { s with pc := .findNotFound }
  else if s.mem s.di = 0xE5 then some { s with pc := .skipEntry }
  else if s.mem (s.di + 0x0B) = 0x0F then some { s with pc := .skipEntry }
  else do
    let s := s.pusha
    let s := { s with zf := repeCmpsb s.mem s.es s.di fat16KernelName }
    let s ← s.popa
    if s.zf then some { s with pc := .findFound } else some { s with pc := .skipEntry }

def skipEntry (s : State) : Option State :=
  let s := { s with di := w16 (s.di + 32), dx := sub16 s.dx 1 }
  if s.dx ≠ 0 then some { s with pc := .checkEntry }
  else do
    let s ← s.popCx
    let s := { s with eax := w32 (s.eax + 1) }.setCx (sub16 s.cx 1)
    if s.cx ≠ 0 then some { s with pc := .scanSector } else (s.setAx 0).ret

def findNotFound (b : Bios) (s : State) : Option State := do
  let s ← s.popCx
  let s := printString b "FAT16: TUPLEOS.BIN not found!\r\n" s
  (s.setAx 0).ret

def findFound (b : Bios) (s : State) : Option State := do
  let size := load32 s.mem (s.di + 0x1C)
  let s := { s with ecx := size, vars := { s.vars with fileSize := size } }
  let s := s.setAx (load16 s.mem (s.di + 0x1A))
  let s ← s.popCx
  let s := s.push s.ax
  let s := printString b "FAT16: file found, loading...\r\n" s
  let s ← s.popAx
  s.ret

/-! ## `fat16_load_file` -/

def fat16LoadFile (s : State) : State :=
  { s with
    vars := { s.vars with currCluster := s.ax, loadSeg := kernelSeg }, pc := .loadCluster }

/-- `dap_lba` for a cluster, in 16 bits. -/
def clusterLba (v : Vars) (c : Nat) : Nat := w16 (w16 (sub16 c 2 * v.spc) + v.dataStart)

/-- The offset of a cluster's entry in the FAT, in 16 bits. -/
def entryOffset (c : Nat) : Nat := w16 (w16 (2 * c) + fatBuf)

/-- The word at `si`. What stage 2 and the BIOS keep changing is up to `Bios.own`. -/
def lookup (b : Bios) (n : Nat) (m : Bytes) (si : Nat) : Nat :=
  load16 (fun a => if Own a then b.own n a else m a) si

/-- The state when the load segment is moved on and the next cluster is known. -/
def nextCluster (b : Bios) (s : State) : State :=
  let si := entryOffset s.vars.currCluster
  let next := lookup b s.reads s.mem si
  { s.setAx next with
    si := si
    vars := { s.vars with
      loadSeg := w16 (s.vars.loadSeg + w16 (32 * s.vars.spc)), currCluster := next } }

def followChain (b : Bios) (s : State) : Option State :=
  if s.cf then some { s with pc := .loadFail }
  else
    let s := nextCluster b s
    if s.vars.currCluster < 0xFFF8 then some { s with pc := .loadCluster }
    else (printString b "FAT16: kernel loaded to 0x10000\r\n" s).ret

def loadCluster (b : Bios) (s : State) : Option State := do
  let c := s.vars.currCluster
  let s := { s with eax := clusterLba s.vars c, dx := sub16 c 2 * s.vars.spc / 2 ^ 16 }
  let s := s.push s.es
  let s := { s with es := s.vars.loadSeg, bx := 0 }.setCx s.vars.spc
  let s ← readSectors b s
  let s ← s.popEs
  followChain b s

def loadFail (b : Bios) (s : State) : Option State :=
  (printString b "FAT16: disk read error!\r\n" s).ret

/-! ## `stage2_start`, steps 8 and 9 -/

def foundKernel (s : State) : State :=
  if s.ax = 0 then { s with pc := .halt } else s.call .fat16LoadFile .kernelReady

/-- The code at a label. `.halt` does nothing more, and `.kernel_ready` leaves real mode. -/
def step (b : Bios) (s : State) : Option State :=
  match s.pc with
  | .initFs => some (s.call .fat16Init .findKernel)
  | .findKernel => some (s.call .fat16FindFile .foundKernel)
  | .foundKernel => some (foundKernel s)
  | .kernelReady => none
  | .halt => none
  | .fat16Init => fat16Init b s
  | .initFail => initFail b s
  | .fat16FindFile => some (fat16FindFile b s)
  | .scanSector => scanSector b s
  | .checkEntry => checkEntry s
  | .skipEntry => skipEntry s
  | .findNotFound => findNotFound b s
  | .findFound => findFound b s
  | .fat16LoadFile => some (fat16LoadFile s)
  | .loadCluster => loadCluster b s
  | .loadFail => loadFail b s

/-! ## Small facts -/

section Facts

variable {b : Bios} {s : State}

theorem w16_low (x v : Nat) : w16 (x / 2 ^ 16 * 2 ^ 16 + w16 v) = w16 v := by
  unfold w16
  omega

@[simp] theorem State.ax_setAx (v : Nat) : (s.setAx v).ax = w16 v := w16_low s.eax v

@[simp] theorem State.cx_setCx (v : Nat) : (s.setCx v).cx = w16 v := w16_low s.ecx v

theorem State.setAx_self : s.setAx s.ax = s := by
  have h : s.eax / 2 ^ 16 * 2 ^ 16 + w16 s.ax = s.eax := by
    unfold State.ax w16
    omega
  unfold State.setAx
  rw [h]

theorem State.setCx_self : s.setCx s.cx = s := by
  have h : s.ecx / 2 ^ 16 * 2 ^ 16 + w16 s.cx = s.ecx := by
    unfold State.cx w16
    omega
  unfold State.setCx
  rw [h]

theorem State.popCx_eq {w : Nat} {stack : List Slot} (h : s.stack = .word w :: stack) :
    s.popCx = some (State.setCx w { s with stack := stack }) := by
  unfold State.popCx
  rw [h]

theorem State.popAx_eq {w : Nat} {stack : List Slot} (h : s.stack = .word w :: stack) :
    s.popAx = some (State.setAx w { s with stack := stack }) := by
  unfold State.popAx
  rw [h]

theorem State.popEs_eq {w : Nat} {stack : List Slot} (h : s.stack = .word w :: stack) :
    s.popEs = some { s with es := w, stack := stack } := by
  unfold State.popEs
  rw [h]

theorem State.ret_eq {back : Label} {stack : List Slot} (h : s.stack = .ret back :: stack) :
    s.ret = some { s with stack := stack, pc := back } := by
  unfold State.ret
  rw [h]

theorem popa_pusha (m : Bytes) (cf zf : Bool) (d : Dap) (n : Nat) :
    State.popa { s.pusha with mem := m, cf := cf, zf := zf, dap := d, reads := n } =
      some { s with mem := m, cf := cf, zf := zf, dap := d, reads := n } := by
  show some ((State.setCx s.cx { s with mem := m, cf := cf, zf := zf, dap := d, reads := n }).setAx
    s.ax) = _
  have h : State.setCx s.cx { s with mem := m, cf := cf, zf := zf, dap := d, reads := n } = _ :=
    State.setCx_self
  rw [h]
  exact congrArg some State.setAx_self

/-- What a call of `read_sectors` leaves when its sectors are not over `Own`. -/
def afterRead (s : State) (n : Nat) (data : Bytes) (cf : Bool) : State :=
  { s with
    dap := ⟨s.cx, s.bx, s.es, s.eax⟩, mem := fill s.mem (16 * s.es + s.bx) n data
    cf := cf, reads := s.reads + 1 }

/-- The sectors that read `n` of `count` sectors moves. -/
def Bios.count (b : Bios) (n count : Nat) : Nat :=
  if b.ok n then count else min (b.moved n) count

theorem readSectors_eq (b : Bios) (s : State) : readSectors b s =
    if Clobbers (16 * s.es + s.bx) (b.count s.reads s.cx) then none
    else some (afterRead s (b.count s.reads s.cx)
      (if b.ok s.reads then sectors b.disk s.eax else b.junk s.reads) (!b.ok s.reads)) := by
  have hint : int13 b { s.pusha with dap := ⟨s.cx, s.bx, s.es, s.eax⟩ } =
      if Clobbers (16 * s.es + s.bx) (b.count s.reads s.cx) then none
      else some { s.pusha with
        dap := ⟨s.cx, s.bx, s.es, s.eax⟩
        mem := fill s.mem (16 * s.es + s.bx) (b.count s.reads s.cx)
          (if b.ok s.reads then sectors b.disk s.eax else b.junk s.reads)
        cf := !b.ok s.reads, reads := s.reads + 1 } := rfl
  show (int13 b { s.pusha with dap := ⟨s.cx, s.bx, s.es, s.eax⟩ }).bind State.popa = _
  rw [hint]
  by_cases hc : Clobbers (16 * s.es + s.bx) (b.count s.reads s.cx)
  · rw [if_pos hc, if_pos hc]
    rfl
  · rw [if_neg hc, if_neg hc]
    exact popa_pusha _ _ s.zf _ _

theorem readSectors_ok (hok : b.ok s.reads = true) (hfree : ¬ Clobbers (16 * s.es + s.bx) s.cx) :
    readSectors b s = some (afterRead s s.cx (sectors b.disk s.eax) false) := by
  have hcount : b.count s.reads s.cx = s.cx := by
    unfold Bios.count
    rw [if_pos hok]
  rw [readSectors_eq, hcount, if_neg hfree, if_pos hok, hok]
  rfl

theorem readSectors_fail (hfail : b.ok s.reads = false)
    (hfree : ¬ Clobbers (16 * s.es + s.bx) (min (b.moved s.reads) s.cx)) :
    readSectors b s = some (afterRead s (min (b.moved s.reads) s.cx) (b.junk s.reads) true) := by
  have hcount : b.count s.reads s.cx = min (b.moved s.reads) s.cx := by
    unfold Bios.count
    rw [hfail]
    rfl
  rw [readSectors_eq, hcount, if_neg hfree, hfail]
  rfl

end Facts

end TupleOS.Fat16
