import TupleOS.Base.Orbit
import TupleOS.Boot.Stage2

/-!
# The ELF loader (`boot/stage2.asm`)

`elf_load` runs in protected mode over the file at `ELF_BASE`. It keeps its variables and
its stack in the memory that it copies segments into, and saves the loop's counter and
pointer on that stack around each copy. `elfStep` is one block of its code, from a label
to the next jump.

For a file whose segments lie above 1 MB, apart from each other, the loop puts every
segment in its place and touches nothing else but the two words of its stack
(`Laid.round`). The message that follows goes to the screen (`prints_ok`), and the routine
returns (`elf_load_correct`). The direction flag is clear throughout: stage 2 clears it at
its start.
-/

namespace TupleOS.Elf

open TupleOS.Base TupleOS.Boot
open StateTransition (Reaches)

/-! ## The code -/

def elfBase : Nat := 0x10000

/-- The labels of `elf_load`, and of `pm_print_hex32` that it calls. -/
inductive Label where
  | elfLoad
  | elfPhdrLoop
  | elfSkip
  | elfDone
  | elfOkPrint
  | elfOkHex
  | pphLoop
  | elfNextRow
  | elfBad
  | returned
  deriving DecidableEq

structure State where
  pc : Label
  eax : Nat
  ebx : Nat
  ecx : Nat
  edx : Nat
  esi : Nat
  edi : Nat
  esp : Nat
  mem : Bytes

/-- What the assembler chose: the address of `kernel_entry`, which the other variables
and the message follow, and the address after `call pm_print_hex32`. -/
structure Placement where
  kernelEntry : Nat
  back : Nat

namespace Placement

def elfPhoff (P : Placement) : Nat := P.kernelEntry + 4
def elfPhentsize (P : Placement) : Nat := P.kernelEntry + 8
def elfPhnum (P : Placement) : Nat := P.kernelEntry + 10
def pmVgaPos (P : Placement) : Nat := P.kernelEntry + 12
def msgElfOk (P : Placement) : Nat := P.kernelEntry + 16

end Placement

def msgElfOk : List Char :=
  ['E', 'L', 'F', ':', ' ', 'l', 'o', 'a', 'd', 'e', 'd', ',', ' ', 'e', 'n', 't', 'r', 'y', ' ',
    '0', 'x']

def image (m : Bytes) : Bytes := fun i => m (elfBase + i)

/-- The fields of a program header that `elf_load` reads. -/
structure Header where
  type : Nat
  offset : Nat
  paddr : Nat
  filesz : Nat
  memsz : Nat
  deriving DecidableEq

def headerAt (m : Bytes) (ebx : Nat) : Header where
  type := load32 m ebx
  offset := load32 m (w32 (ebx + 4))
  paddr := load32 m (w32 (ebx + 12))
  filesz := load32 m (w32 (ebx + 16))
  memsz := load32 m (w32 (ebx + 20))

def State.push (v : Nat) (s : State) : State :=
  { s with esp := sub32 s.esp 4, mem := store32 s.mem (sub32 s.esp 4) v }

/-- `rep movsb`, one byte after the other. -/
def repMovsb (m : Bytes) (edi esi : Nat) : Nat → Bytes
  | 0 => m
  | n + 1 =>
    let m := repMovsb m edi esi n
    store8 m (w32 (edi + n)) (m (w32 (esi + n)))

def repStosb (m : Bytes) (edi : Nat) (al : BitVec 8) : Nat → Bytes
  | 0 => m
  | n + 1 => store8 (repStosb m edi al n) (w32 (edi + n)) al

/-- `elf_load`, to the loop or to `.elf_bad`. -/
def elfLoad (P : Placement) (s : State) : State :=
  if elfValid (image s.mem) then
    let m := store32 s.mem P.kernelEntry (load32 s.mem (elfBase + 24))
    let m := store32 m P.elfPhoff (load32 m (elfBase + 28))
    let m := store16 m P.elfPhentsize (load16 m (elfBase + 42))
    let m := store16 m P.elfPhnum (load16 m (elfBase + 44))
    { s with
      eax := load16 m (elfBase + 44), ebx := w32 (load32 m P.elfPhoff + elfBase)
      ecx := load16 m P.elfPhnum, mem := m, pc := .elfPhdrLoop }
  else { s with pc := .elfBad }

def elfPhdrLoop (s : State) : State :=
  if s.ecx = 0 then { s with pc := .elfDone }
  else
    let s := (s.push s.ecx).push s.ebx
    let h := headerAt s.mem s.ebx
    if h.type ≠ 1 then { s with pc := .elfSkip }
    else
      let esi := w32 (h.offset + elfBase)
      let s := { s with
        mem := repMovsb s.mem h.paddr esi h.filesz
        esi := w32 (esi + h.filesz), edi := w32 (h.paddr + h.filesz) }
      -- both sizes are read again, after the copy
      let h := headerAt s.mem s.ebx
      let bss := sub32 h.memsz h.filesz
      if h.memsz ≤ h.filesz then { s with ecx := bss, pc := .elfSkip }
      else
        { s with
          eax := s.eax / 256 * 256, mem := repStosb s.mem s.edi 0 bss
          edi := w32 (s.edi + bss), ecx := 0, pc := .elfSkip }

def elfSkip (P : Placement) (s : State) : State :=
  let eax := load16 s.mem P.elfPhentsize
  { s with
    eax := eax, ebx := w32 (load32 s.mem s.esp + eax)
    ecx := sub32 (load32 s.mem (w32 (s.esp + 4))) 1
    esp := w32 (s.esp + 8), pc := .elfPhdrLoop }

def elfDone (P : Placement) (s : State) : State :=
  { s with
    esi := P.msgElfOk, edi := load32 s.mem P.pmVgaPos
    eax := s.eax / 2 ^ 16 * 2 ^ 16 + 0x0A00 + s.eax % 256, pc := .elfOkPrint }

/-- `.elf_ok_print`: one character. -/
def elfOkPrint (s : State) : State :=
  let al := (s.mem s.esi).toNat
  let s := { s with eax := s.eax / 256 * 256 + al, esi := w32 (s.esi + 1) }
  if al = 0 then { s with pc := .elfOkHex }
  else { s with mem := store16 s.mem s.edi (s.eax % 2 ^ 16), edi := w32 (s.edi + 2) }

def elfOkHex (P : Placement) (s : State) : State :=
  let eax := load32 s.mem P.kernelEntry
  { s.push P.back with eax := eax, ebx := eax, ecx := 8, pc := .pphLoop }

def hexDigit (n : Nat) : Nat := if n + 0x30 ≤ 0x39 then n + 0x30 else n + 0x30 + 7

/-- `.pph_loop`: one digit. The last one returns to the address on the stack. -/
def pphLoop (P : Placement) (s : State) : Option State :=
  let ebx := w32 (s.ebx * 16) + s.ebx / 2 ^ 28
  let ax := 0x0A00 + hexDigit (ebx % 16)
  let s := { s with
    ebx := ebx, eax := s.eax / 2 ^ 16 * 2 ^ 16 + ax, mem := store16 s.mem s.edi ax
    edi := w32 (s.edi + 2), ecx := sub32 s.ecx 1 }
  if s.ecx ≠ 0 then some s
  else if load32 s.mem s.esp = P.back then some { s with esp := w32 (s.esp + 4), pc := .elfNextRow }
  else none

/-- From the return of `pm_print_hex32` to `ret`. -/
def elfNextRow (P : Placement) (s : State) : State :=
  let pos := sub32 (load32 s.mem P.pmVgaPos) 0xB8000
  let eax := w32 (w32 ((pos / 160 + 1) * 160) + 0xB8000)
  { s with
    eax := eax, ecx := 160, edx := pos % 160, mem := store32 s.mem P.pmVgaPos eax
    esp := w32 (s.esp + 4), pc := .returned }

/-- The code at a label. `.elf_bad` halts, and the caller is not part of the model. -/
def elfStep (P : Placement) (s : State) : Option State :=
  match s.pc with
  | .elfLoad => some (elfLoad P s)
  | .elfPhdrLoop => some (elfPhdrLoop s)
  | .elfSkip => some (elfSkip P s)
  | .elfDone => some (elfDone P s)
  | .elfOkPrint => some (elfOkPrint s)
  | .elfOkHex => some (elfOkHex P s)
  | .pphLoop => pphLoop P s
  | .elfNextRow => some (elfNextRow P s)
  | .elfBad => none
  | .returned => none

/-! ## What is loaded -/

/-- The program headers that the file names, in order. -/
def headers (m : Bytes) : List Header :=
  (List.range (elfPhnum (image m))).map fun i =>
    headerAt m (elfBase + elfPhoff (image m) + i * elfPhentsize (image m))

/-- `a` is in the destination of a segment to load. -/
def Header.Dest (h : Header) (a : Nat) : Prop := h.type = 1 ∧ InWin h.paddr (h.paddr + h.memsz) a

/-- What belongs at `a`: a byte of the file, then zeros. -/
def Header.byte (m : Bytes) (h : Header) (a : Nat) : BitVec 8 :=
  if a - h.paddr < h.filesz then image m (h.offset + (a - h.paddr)) else 0

/-- The file that the theorem is about: it passes the checks, ends below the stack and
holds its headers. -/
structure FileOk (m : Bytes) (size : Nat) : Prop where
  valid : elfValid (image m) = true
  fits : elfBase + size ≤ 0x8FFF4
  table : ∀ i < elfPhnum (image m),
    elfPhoff (image m) + i * elfPhentsize (image m) + 24 ≤ size

/-- A segment that comes from the file and goes above 1 MB. -/
structure SegmentOk (size : Nat) (h : Header) : Prop where
  sizes : h.filesz ≤ h.memsz
  file : h.offset + h.filesz ≤ size
  above : 0x100000 ≤ h.paddr
  below : h.paddr + h.memsz ≤ 2 ^ 32

def Apart (hs : List Header) : Prop := hs.Pairwise fun h g => ∀ a, ¬ (h.Dest a ∧ g.Dest a)

/-- The stack below the return address of `elf_load`. -/
def OnStack (a : Nat) : Prop := InWin 0x8FFF4 0x8FFFC a

def OnScreen (a : Nat) : Prop := InWin 0xB8000 (0xB8000 + 25 * 160) a

def Placement.OwnVar (P : Placement) (a : Nat) : Prop := InWin P.kernelEntry (P.kernelEntry + 16) a

/-- The variables and the message are in stage 2, and the message has its text. -/
structure Text (P : Placement) (m : Bytes) : Prop where
  placed : 0x7E00 ≤ P.kernelEntry ∧ P.msgElfOk + msgElfOk.length < 0xBE00
  chars : ∀ i (h : i < msgElfOk.length), m (P.msgElfOk + i) = BitVec.ofNat 8 (msgElfOk[i]).toNat
  zero : m (P.msgElfOk + msgElfOk.length) = 0

/-- The call of `elf_load`, before anything was printed at `pm_vga_pos`. -/
structure Called (P : Placement) (s : State) : Prop where
  pc : s.pc = .elfLoad
  esp : s.esp = 0x8FFFC
  back : P.back < 2 ^ 32
  row : load32 s.mem P.pmVgaPos = pmVgaPos
  text : Text P s.mem

/-- The segments of `hs` are in place, and the rest is as in `m` but for the stack. -/
structure Laid (m m' : Bytes) (hs : List Header) : Prop where
  placed : ∀ h ∈ hs, ∀ a, h.Dest a → m' a = h.byte m a
  kept : ∀ a, (∀ h ∈ hs, ¬ h.Dest a) → ¬ OnStack a → m' a = m a

section Segments

variable {P : Placement} {m m' m'' file : Bytes} {s : State} {h : Header} {hs : List Header}
  {edi esi n x size : Nat}

theorem inWin_succ (hx : x ≠ edi + n) : InWin edi (edi + n) x ↔ InWin edi (edi + (n + 1)) x := by
  unfold InWin
  omega

theorem repMovsb_apply (hd : edi + n ≤ 2 ^ 32) (hs : esi + n ≤ 2 ^ 32)
    (hapart : edi + n ≤ esi ∨ esi + n ≤ edi) :
    repMovsb m edi esi n x = if InWin edi (edi + n) x then m (esi + (x - edi)) else m x := by
  induction n generalizing x with
  | zero => rw [if_neg (by unfold InWin; omega)]; rfl
  | succ n ih =>
    have hsrc := ih (x := esi + n) (by omega) (by omega) (by omega)
    rw [if_neg (by unfold InWin; omega)] at hsrc
    rw [repMovsb, w32_of_lt (by omega), w32_of_lt (by omega), hsrc]
    by_cases hx : x = edi + n
    · subst hx
      rw [store8_same, if_pos ⟨by omega, by omega⟩, Nat.add_sub_cancel_left]
    · rw [store8_out hx, ih (by omega) (by omega) (by omega)]
      exact if_congr (inWin_succ hx) rfl rfl

theorem repStosb_apply {al : BitVec 8} (hd : edi + n ≤ 2 ^ 32) :
    repStosb m edi al n x = if InWin edi (edi + n) x then al else m x := by
  induction n with
  | zero => rw [if_neg (by unfold InWin; omega)]; rfl
  | succ n ih =>
    rw [repStosb, w32_of_lt (by omega)]
    by_cases hx : x = edi + n
    · subst hx
      rw [store8_same, if_pos ⟨by omega, by omega⟩]
    · rw [store8_out hx, ih (by omega)]
      exact if_congr (inWin_succ hx) rfl rfl

theorem headerAt_congr {a : Nat} (ha : a + 24 < 2 ^ 32) (h : AgreeOn m m' a (a + 24)) :
    headerAt m' a = headerAt m a := by
  unfold headerAt
  rw [w32_of_lt (by omega), w32_of_lt (by omega), w32_of_lt (by omega), w32_of_lt (by omega),
    load32_congr (h.mono (by omega) (by omega)), load32_congr (h.mono (by omega) (by omega)),
    load32_congr (h.mono (by omega) (by omega)), load32_congr (h.mono (by omega) (by omega)),
    load32_congr (h.mono (by omega) (by omega))]

/-- The copy and the zeros of one segment. -/
def placeSegment (m : Bytes) (h : Header) : Bytes :=
  repStosb (repMovsb m h.paddr (w32 (h.offset + elfBase)) h.filesz) (w32 (h.paddr + h.filesz)) 0
    (h.memsz - h.filesz)

/-- The memory after one round of the loop, with the counter and the pointer pushed. -/
def roundMem (m : Bytes) (h : Header) : Bytes := if h.type = 1 then placeSegment m h else m

/-- `a` is written when the segment is loaded; the addresses may wrap around. -/
def Header.Target (h : Header) (a : Nat) : Prop :=
  h.type = 1 ∧ ∃ k < max h.filesz h.memsz, a = w32 (h.paddr + k)

/-- Loading the segment writes nothing from `lo` to `hi`. -/
def Header.Spares (h : Header) (lo hi : Nat) : Prop := ∀ a, h.Target a → ¬ InWin lo hi a

/-- It writes neither its header at `ptr`, nor the stack, nor `elf_phentsize`. -/
structure Header.Clear (h : Header) (P : Placement) (ptr : Nat) : Prop where
  header : h.Spares ptr (ptr + 24)
  stack : h.Spares 0x8FFF4 0x8FFFC
  stride : h.Spares P.elfPhentsize (P.elfPhentsize + 2)

theorem repMovsb_out (hx : ∀ k < n, x ≠ w32 (edi + k)) : repMovsb m edi esi n x = m x := by
  induction n with
  | zero => rfl
  | succ n ih =>
    rw [repMovsb, store8_out (hx n (Nat.lt_succ_self n))]
    exact ih fun k hk => hx k (Nat.lt_succ_of_lt hk)

theorem repStosb_out {al : BitVec 8} (hx : ∀ k < n, x ≠ w32 (edi + k)) :
    repStosb m edi al n x = m x := by
  induction n with
  | zero => rfl
  | succ n ih =>
    rw [repStosb, store8_out (hx n (Nat.lt_succ_self n))]
    exact ih fun k hk => hx k (Nat.lt_succ_of_lt hk)

theorem copy_out (ht : h.type = 1) (hx : ¬ h.Target x) :
    repMovsb m h.paddr esi h.filesz x = m x :=
  repMovsb_out fun k hk heq => hx ⟨ht, k, by omega, heq⟩

theorem roundMem_out (hx : ¬ h.Target x) : roundMem m h x = m x := by
  unfold roundMem
  split
  · rename_i ht
    have hzeros : ∀ k < h.memsz - h.filesz, x ≠ w32 (w32 (h.paddr + h.filesz) + k) :=
      fun k hk heq => by
        rw [w32_add_w32, Nat.add_assoc] at heq
        exact hx ⟨ht, h.filesz + k, by omega, heq⟩
    exact (repStosb_out hzeros).trans (copy_out ht hx)
  · rfl

theorem Header.Spares.round {lo hi : Nat} (hs : h.Spares lo hi) : AgreeOn m (roundMem m h) lo hi :=
  fun a ha => roundMem_out fun ht => hs a ht ha

theorem SegmentOk.dest (hok : h.type = 1 → SegmentOk size h) (ht : h.Target x) : h.Dest x := by
  obtain ⟨h1, k, hk, rfl⟩ := ht
  obtain ⟨h2, -, h3, h4⟩ := hok h1
  rw [w32_of_lt (by omega)]
  exact ⟨h1, by omega, by omega⟩

theorem SegmentOk.spares (hok : h.type = 1 → SegmentOk size h) {lo hi : Nat} (hle : hi ≤ 0x100000) :
    h.Spares lo hi := fun a ht hin => by
  have h1 := (hok ht.1).above
  have h2 := (SegmentOk.dest hok ht).2.1
  have h3 := hin.2
  omega

theorem placeSegment_apply (hok : SegmentOk size h) (hfit : elfBase + size ≤ 0x8FFF4) :
    placeSegment m h x = if InWin h.paddr (h.paddr + h.memsz) x then h.byte m x else m x := by
  obtain ⟨h1, h2, h3, h4⟩ := hok
  have hsrc : w32 (h.offset + elfBase) = elfBase + h.offset := by
    rw [Nat.add_comm, w32_of_lt (by omega)]
  have hcopy : repMovsb m h.paddr (elfBase + h.offset) h.filesz x = _ :=
    repMovsb_apply (by omega) (by omega) (by omega)
  have hzeros : ∀ m' : Bytes, repStosb m' (w32 (h.paddr + h.filesz)) 0 (h.memsz - h.filesz) x =
      if InWin (h.paddr + h.filesz) (h.paddr + h.memsz) x then 0 else m' x := fun m' => by
    by_cases hbss : h.memsz = h.filesz
    · rw [hbss, Nat.sub_self, if_neg (by unfold InWin; omega)]
      rfl
    · rw [w32_of_lt (by omega), repStosb_apply (by omega),
        show h.paddr + h.filesz + (h.memsz - h.filesz) = h.paddr + h.memsz by omega]
  unfold placeSegment Header.byte image
  rw [hzeros, hsrc, hcopy, ← Nat.add_assoc]
  by_cases hfile : InWin h.paddr (h.paddr + h.filesz) x
  · obtain ⟨hlo, hhi⟩ := hfile
    rw [if_neg (by unfold InWin; omega), if_pos ⟨hlo, hhi⟩, if_pos ⟨hlo, by omega⟩,
      if_pos (by omega)]
  · rw [if_neg hfile]
    unfold InWin at hfile
    by_cases hzero : InWin h.paddr (h.paddr + h.memsz) x
    · obtain ⟨hlo, hhi⟩ := hzero
      rw [if_pos ⟨by omega, by omega⟩, if_pos ⟨hlo, hhi⟩, if_neg (by omega)]
    · rw [if_neg hzero]
      unfold InWin at hzero
      rw [if_neg (by unfold InWin; omega)]

def pushedMem (s : State) : Bytes := store32 (store32 s.mem 0x8FFF8 s.ecx) 0x8FFF4 s.ebx

theorem pushedMem_agree (s : State) {lo hi : Nat} (h : hi ≤ 0x8FFF4 ∨ 0x8FFFC ≤ lo) :
    AgreeOn s.mem (pushedMem s) lo hi :=
  (store32_agree _ (by omega)).trans (store32_agree _ (by omega))

theorem elfPhdrLoop_next (hecx : s.ecx ≠ 0) (hesp : s.esp = 0x8FFFC) (hptr : s.ebx + 24 ≤ 0x8FFF4)
    (hh : headerAt s.mem s.ebx = h) (hkeep : h.Spares s.ebx (s.ebx + 24)) :
    (elfPhdrLoop s).pc = .elfSkip ∧ (elfPhdrLoop s).esp = 0x8FFF4 ∧
      (elfPhdrLoop s).mem = roundMem (pushedMem s) h := by
  have hpush : (s.push s.ecx).push s.ebx = { s with esp := 0x8FFF4, mem := pushedMem s } := by
    have h1 : sub32 0x8FFFC 4 = 0x8FFF8 := by decide
    have h2 : sub32 0x8FFF8 4 = 0x8FFF4 := by decide
    simp only [State.push, pushedMem, hesp, h1, h2]
  have hhdr : headerAt (pushedMem s) s.ebx = h := by
    rw [headerAt_congr (by omega) (pushedMem_agree s (by omega)), hh]
  unfold elfPhdrLoop roundMem
  rw [if_neg hecx, hpush]
  simp only [hhdr]
  by_cases ht : h.type = 1
  · have hagain : headerAt (repMovsb (pushedMem s) h.paddr (w32 (h.offset + elfBase)) h.filesz)
        s.ebx = h := by
      rw [headerAt_congr (by omega) fun a ha => copy_out ht fun htarget => hkeep a htarget ha, hhdr]
    rw [if_neg (not_not.mpr ht), if_pos ht, hagain]
    unfold placeSegment
    by_cases hbss : h.memsz ≤ h.filesz
    · rw [if_pos hbss, Nat.sub_eq_zero_of_le hbss]
      exact ⟨rfl, rfl, rfl⟩
    · have hmem : h.memsz < 2 ^ 32 := by
        rw [← hh]
        exact load32_lt _ _
      rw [if_neg hbss, sub32_of_le (by omega) hmem]
      exact ⟨rfl, rfl, rfl⟩
  · rw [if_pos ht, if_neg ht]
    exact ⟨rfl, rfl, rfl⟩

/-- **One header**: the segment is put in its place, and the loop goes on. -/
theorem header_round (hpc : s.pc = .elfPhdrLoop) (hecx : s.ecx = n + 1) (hn : n + 1 < 2 ^ 32)
    (hesp : s.esp = 0x8FFFC) (hptr : s.ebx + 24 ≤ 0x8FFF4) (hh : headerAt s.mem s.ebx = h)
    (hclear : h.Clear P s.ebx) (hP : P.kernelEntry + 16 ≤ 0xBE00) :
    ∃ s', Reaches (elfStep P) s s' ∧ s'.pc = .elfPhdrLoop ∧ s'.ecx = n ∧ s'.esp = 0x8FFFC ∧
      s'.ebx = w32 (s.ebx + load16 s.mem P.elfPhentsize) ∧ s'.mem = roundMem (pushedMem s) h := by
  obtain ⟨hpc₁, hesp₁, hmem₁⟩ := elfPhdrLoop_next (by omega) hesp hptr hh hclear.header
  have hstep : elfStep P s = some (elfPhdrLoop s) := by
    unfold elfStep
    rw [hpc]
  have hskip : elfStep P (elfPhdrLoop s) = some (elfSkip P (elfPhdrLoop s)) := by
    unfold elfStep
    rw [hpc₁]
  have hword : ∀ a, 0x8FFF4 ≤ a → a + 4 ≤ 0x8FFFC →
      load32 (roundMem (pushedMem s) h) a = load32 (pushedMem s) a := fun a h1 h2 =>
    load32_congr (hclear.stack.round.mono h1 h2)
  refine ⟨_, .head hstep (.single hskip), rfl, ?_, ?_, ?_, ?_⟩
  · show sub32 (load32 _ (w32 (_ + 4))) 1 = n
    rw [hesp₁, hmem₁, show w32 (0x8FFF4 + 4) = 0x8FFF8 by decide, hword _ (by omega) (by omega),
      pushedMem, load32_store32_miss _ (by omega), load32_store32 _ _ (by omega), hecx,
      sub32_of_le (by omega) hn, Nat.add_sub_cancel]
  · show w32 (_ + 8) = 0x8FFFC
    rw [hesp₁]
    decide
  · show w32 (load32 _ _ + load16 _ _) = _
    have hsize : load16 (roundMem (pushedMem s) h) P.elfPhentsize =
      load16 s.mem P.elfPhentsize := by
      rw [load16_congr hclear.stride.round, load16_congr (pushedMem_agree s (.inl ?_))]
      unfold Placement.elfPhentsize
      omega
    rw [hesp₁, hmem₁, hword _ (by omega) (by omega), hsize, pushedMem,
      load32_store32 _ _ (by omega)]
  · exact hmem₁

theorem Laid.low (h₀ : Laid m m' hs) (hok : ∀ h ∈ hs, h.type = 1 → SegmentOk size h) {lo hi : Nat}
    (hwin : hi ≤ 0x8FFF4 ∨ 0x8FFFC ≤ lo ∧ hi ≤ 0x100000) : AgreeOn m m' lo hi := by
  intro a ha
  obtain ⟨h1, h2⟩ := ha
  refine h₀.kept a (fun h hh hd => ?_) (by unfold OnStack InWin; omega)
  have h3 := (hok h hh hd.1).above
  have h4 := hd.2.1
  omega

/-- One more segment is in place after a round. -/
theorem Laid.round (h₀ : Laid m s.mem hs) (hoks : ∀ g ∈ hs, g.type = 1 → SegmentOk size g)
    (hok : h.type = 1 → SegmentOk size h) (hfit : elfBase + size ≤ 0x8FFF4)
    (hnew : ∀ g ∈ hs, ∀ a, ¬ (g.Dest a ∧ h.Dest a)) :
    Laid m (roundMem (pushedMem s) h) (hs ++ [h]) := by
  have hpush : ∀ a, ¬ OnStack a → pushedMem s a = s.mem a := fun a ha => by
    unfold OnStack InWin at ha
    have hone : AgreeOn s.mem (pushedMem s) a (a + 1) := pushedMem_agree s (by omega)
    exact hone a ⟨by omega, by omega⟩
  have hhigh : ∀ g : Header, (g.type = 1 → SegmentOk size g) → ∀ a, g.Dest a → ¬ OnStack a :=
    fun g hg a hd hs => by
      have h1 := (hg hd.1).above
      have h2 := hd.2.1
      have h3 := hs.2
      omega
  constructor
  · intro g hg a ha
    rcases List.mem_append.mp hg with hg | hg
    · rw [roundMem_out fun hd => hnew g hg a ⟨ha, SegmentOk.dest hok hd⟩,
        hpush a (hhigh g (hoks g hg) a ha)]
      exact h₀.placed g hg a ha
    · obtain rfl := List.mem_singleton.mp hg
      have hk := hok ha.1
      rw [roundMem, if_pos ha.1, placeSegment_apply hk hfit, if_pos ha.2]
      unfold Header.byte image
      split
      · have hfile := hk.file
        rw [hpush _ (by unfold OnStack InWin; omega)]
        exact h₀.low hoks (.inl (Nat.le_refl _)) _ ⟨Nat.zero_le _, by omega⟩
      · rfl
  · intro a ha hst
    rw [roundMem_out fun hd => ha h (by simp) (SegmentOk.dest hok hd), hpush a hst]
    exact h₀.kept a (fun g hg => ha g (by simp [hg])) hst

end Segments

/-! ## The loop -/

def headerPtr (m : Bytes) (i : Nat) : Nat :=
  elfBase + elfPhoff (image m) + i * elfPhentsize (image m)

/-- The loop has been through `i` headers of the file in `m`. -/
structure LoopAt (m : Bytes) (i : Nat) (s : State) : Prop where
  pc : s.pc = .elfPhdrLoop
  ecx : s.ecx = elfPhnum (image m) - i
  esp : s.esp = 0x8FFFC
  ebx : s.ebx = w32 (headerPtr m i)

/-- The same, with their segments in place. -/
structure AtHeader (m : Bytes) (i : Nat) (s : State) : Prop extends LoopAt m i s where
  laid : Laid m s.mem ((headers m).take i)

section Loop

variable {P : Placement} {m : Bytes} {s : State} {size i : Nat}

theorem headers_length (m : Bytes) : (headers m).length = elfPhnum (image m) := by
  unfold headers
  rw [List.length_map, List.length_range]

theorem headers_take (hi : i < elfPhnum (image m)) :
    (headers m).take (i + 1) = (headers m).take i ++ [headerAt m (headerPtr m i)] := by
  rw [List.take_succ_eq_append_getElem (by rw [headers_length]; exact hi)]
  unfold headers headerPtr
  rw [List.getElem_map, List.getElem_range]

theorem LoopAt.round (h : LoopAt m i s) (hi : i < elfPhnum (image m))
    (hptr : headerPtr m i + 24 ≤ 0x8FFF4)
    (hhdr : AgreeOn m s.mem (headerPtr m i) (headerPtr m i + 24))
    (hstride : load16 s.mem P.elfPhentsize = elfPhentsize (image m))
    (hclear : (headerAt m (headerPtr m i)).Clear P (headerPtr m i))
    (hP : P.kernelEntry + 16 ≤ 0xBE00) :
    ∃ s', Reaches (elfStep P) s s' ∧ LoopAt m (i + 1) s' ∧
      s'.mem = roundMem (pushedMem s) (headerAt m (headerPtr m i)) := by
  have hnum : elfPhnum (image m) < 2 ^ 16 := load16_lt _ _
  have hebx : s.ebx = headerPtr m i := by
    rw [h.ebx, w32_of_lt (by omega)]
  have hread : headerAt s.mem s.ebx = headerAt m (headerPtr m i) := by
    rw [hebx]
    exact headerAt_congr (by omega) hhdr
  obtain ⟨s', hr, hpc, hecx, hesp, hebx', hm⟩ := header_round (P := P)
    (n := elfPhnum (image m) - (i + 1)) h.pc (by rw [h.ecx]; omega) (by omega) h.esp
    (by omega) hread (hebx ▸ hclear) hP
  refine ⟨s', hr, ⟨hpc, hecx, hesp, ?_⟩, hm⟩
  rw [hebx', hebx, hstride]
  unfold headerPtr
  rw [Nat.succ_mul, ← Nat.add_assoc]

theorem LoopAt.done (h : LoopAt m (elfPhnum (image m)) s) :
    elfStep P s = some { s with pc := .elfDone } := by
  unfold elfStep elfPhdrLoop
  rw [h.pc]
  simp only [h.ecx, Nat.sub_self, ↓reduceIte]

/-- **One round of the loop** puts one more segment in its place. -/
theorem AtHeader.round (hi : i < elfPhnum (image m)) (h : AtHeader m i s) (hf : FileOk m size)
    (hok : ∀ h ∈ headers m, h.type = 1 → SegmentOk size h) (hapart : Apart (headers m))
    (hP : 0x7E00 ≤ P.kernelEntry ∧ P.kernelEntry + 16 ≤ 0xBE00)
    (hstride : load16 m P.elfPhentsize = elfPhentsize (image m)) :
    ∃ s', Reaches (elfStep P) s s' ∧ AtHeader m (i + 1) s' := by
  have hin := hf.table i hi
  have hfit := hf.fits
  have hsub : ∀ k, ∀ g ∈ (headers m).take k, g.type = 1 → SegmentOk size g := fun k g hg =>
    hok g (List.mem_of_mem_take hg)
  have hlow : ∀ lo hi, _ → AgreeOn m s.mem lo hi := fun lo hi => h.laid.low (hsub i)
  have hnext : headerAt m (headerPtr m i) ∈ (headers m).take (i + 1) := by
    rw [headers_take hi]
    exact List.mem_append_right _ List.mem_cons_self
  have hspares : ∀ lo hi, hi ≤ 0x100000 → (headerAt m (headerPtr m i)).Spares lo hi :=
    fun lo hi => SegmentOk.spares (hsub _ _ hnext)
  have hptr : headerPtr m i + 24 ≤ 0x8FFF4 := by
    unfold headerPtr
    omega
  have hvar : P.elfPhentsize + 2 ≤ 0xBE00 := by
    unfold Placement.elfPhentsize
    omega
  obtain ⟨s', hr, hat, hm⟩ := h.toLoopAt.round hi hptr (hlow _ _ (.inl hptr))
    ((load16_congr (hlow _ _ (.inl (by omega)))).trans hstride)
    ⟨hspares _ _ (by omega), hspares _ _ (by omega), hspares _ _ (by omega)⟩ hP.2
  refine ⟨s', hr, hat, ?_⟩
  rw [hm, headers_take hi]
  refine h.laid.round (hsub i) (hsub _ _ hnext) hfit fun g hg => ?_
  have hpair := hapart.sublist (List.take_sublist (i + 1) _)
  rw [headers_take hi] at hpair
  exact (List.pairwise_append.mp hpair).2.2 g hg _ List.mem_cons_self

/-- **The whole loop**, to `.elf_done`. -/
theorem loads_all (h : AtHeader m 0 s) (hf : FileOk m size)
    (hok : ∀ h ∈ headers m, h.type = 1 → SegmentOk size h) (hapart : Apart (headers m))
    (hP : 0x7E00 ≤ P.kernelEntry ∧ P.kernelEntry + 16 ≤ 0xBE00)
    (hstride : load16 m P.elfPhentsize = elfPhentsize (image m)) :
    ∃ s', Reaches (elfStep P) s s' ∧ s'.pc = .elfDone ∧ s'.esp = 0x8FFFC ∧
      Laid m s'.mem (headers m) := by
  obtain ⟨b, hr, hb⟩ := reaches_rounds (AtHeader m)
    (fun i s hi h => AtHeader.round hi h hf hok hapart hP hstride) h
  have hlaid := hb.laid
  rw [← headers_length, List.take_length] at hlaid
  exact ⟨_, hr.tail hb.done, rfl, hb.esp, hlaid⟩

end Loop

/-! ## The message -/

section Message

variable {P : Placement} {m : Bytes} {s : State} {i pos : Nat}

/-- The cells of the message and of the entry point's digits. -/
def OnMessage (a : Nat) : Prop := InWin pmVgaPos (pmVgaPos + 58) a

theorem OnMessage.onScreen {a : Nat} (h : OnMessage a) : OnScreen a := by
  have hpos : pmVgaPos = 0xB8DC0 := rfl
  unfold OnMessage OnScreen InWin at *
  omega

def MessageOnly (m m' : Bytes) : Prop := ∀ a, ¬ OnMessage a → m' a = m a

/-- The message has `i` characters on the screen. -/
structure AtChar (P : Placement) (m : Bytes) (i : Nat) (s : State) : Prop where
  pc : s.pc = .elfOkPrint
  esi : s.esi = P.msgElfOk + i
  edi : s.edi = pmVgaPos + 2 * i
  esp : s.esp = 0x8FFFC
  mem : MessageOnly m s.mem

/-- The entry point has `i` digits on the screen. -/
structure AtDigit (P : Placement) (m : Bytes) (i : Nat) (s : State) : Prop where
  pc : s.pc = .pphLoop
  ecx : s.ecx = 8 - i
  edi : s.edi = pmVgaPos + 42 + 2 * i
  esp : s.esp = 0x8FFF8
  mem : MessageOnly m s.mem

theorem MessageOnly.store (h : MessageOnly m s.mem) {a v : Nat} (h1 : pmVgaPos ≤ a)
    (h2 : a + 2 ≤ pmVgaPos + 58) : MessageOnly m (store16 s.mem a v) := by
  intro x hx
  unfold OnMessage InWin at hx
  have hone : AgreeOn s.mem (store16 s.mem a v) x (x + 1) := store16_agree _ (by omega)
  rw [hone x ⟨by omega, by omega⟩]
  exact h x hx

theorem AtChar.round (hi : i < msgElfOk.length) (h : AtChar P m i s) (ht : Text P m) :
    ∃ s', Reaches (elfStep P) s s' ∧ AtChar P m (i + 1) s' := by
  obtain ⟨hlo, hhi⟩ := ht.placed
  have hlen : msgElfOk.length = 21 := rfl
  have hpos : pmVgaPos = 0xB8DC0 := rfl
  have hchar : s.mem s.esi = BitVec.ofNat 8 (msgElfOk[i]).toNat := by
    rw [h.esi, h.mem _ (by unfold OnMessage InWin; omega), ht.chars i hi]
  have hne : (s.mem s.esi).toNat ≠ 0 := by
    have hall : ∀ c ∈ msgElfOk, (BitVec.ofNat 8 c.toNat).toNat ≠ 0 := by simp [msgElfOk]
    rw [hchar]
    exact hall _ (List.getElem_mem hi)
  have hstep : elfStep P s = some (elfOkPrint s) := by
    unfold elfStep
    rw [h.pc]
  have hok : elfOkPrint s = { s with
      eax := s.eax / 256 * 256 + (s.mem s.esi).toNat, esi := w32 (s.esi + 1)
      mem := store16 s.mem s.edi ((s.eax / 256 * 256 + (s.mem s.esi).toNat) % 2 ^ 16)
      edi := w32 (s.edi + 2) } := by
    unfold elfOkPrint
    exact if_neg hne
  have hedi := h.edi
  refine ⟨_, .single hstep, ?_⟩
  rw [hok]
  refine ⟨h.pc, ?_, ?_, h.esp, h.mem.store (by omega) (by omega)⟩
  · show w32 (s.esi + 1) = _
    rw [h.esi, w32_of_lt (by omega), Nat.add_assoc]
  · show w32 (s.edi + 2) = _
    rw [hedi, w32_of_lt (by omega)]
    omega

theorem AtDigit.round (hi : i < 7) (h : AtDigit P m i s) :
    ∃ s', Reaches (elfStep P) s s' ∧ AtDigit P m (i + 1) s' := by
  have hpos : pmVgaPos = 0xB8DC0 := rfl
  have hecx := h.ecx
  have hedi := h.edi
  have hdec : sub32 s.ecx 1 = s.ecx - 1 := sub32_of_le (by omega) (by omega)
  have hstep : elfStep P s = pphLoop P s := by
    unfold elfStep
    rw [h.pc]
  unfold pphLoop at hstep
  simp only at hstep
  rw [if_pos (by omega)] at hstep
  refine ⟨_, .single hstep, h.pc, ?_, ?_, h.esp, h.mem.store (by omega) (by omega)⟩
  · show sub32 s.ecx 1 = _
    omega
  · show w32 (s.edi + 2) = _
    rw [w32_of_lt (by omega)]
    omega

theorem AtDigit.last (h : AtDigit P m 7 s) (hback : load32 m 0x8FFF8 = P.back) :
    ∃ s', Reaches (elfStep P) s s' ∧ s'.pc = .elfNextRow ∧ s'.esp = 0x8FFFC ∧
      MessageOnly m s'.mem := by
  have hpos : pmVgaPos = 0xB8DC0 := rfl
  have hecx := h.ecx
  have hedi := h.edi
  have hdec : sub32 s.ecx 1 = s.ecx - 1 := sub32_of_le (by omega) (by omega)
  have hmem : ∀ v, MessageOnly m (store16 s.mem s.edi v) := fun v =>
    h.mem.store (by omega) (by omega)
  have hret : ∀ v, load32 (store16 s.mem s.edi v) s.esp = P.back := fun v => by
    rw [h.esp, ← hback]
    refine load32_congr fun a ha => hmem v a ?_
    obtain ⟨h1, h2⟩ := ha
    unfold OnMessage InWin
    omega
  have hstep : elfStep P s = pphLoop P s := by
    unfold elfStep
    rw [h.pc]
  unfold pphLoop at hstep
  simp only at hstep
  rw [if_neg (by omega), if_pos (hret _)] at hstep
  refine ⟨_, .single hstep, rfl, ?_, hmem _⟩
  show w32 (s.esp + 4) = _
  rw [h.esp]
  decide

/-- From `.elf_done` to `.elf_ok_hex`. -/
theorem prints_text (hpc : s.pc = .elfDone) (hesp : s.esp = 0x8FFFC) (ht : Text P s.mem)
    (hrow : load32 s.mem P.pmVgaPos = pmVgaPos) :
    ∃ s', Reaches (elfStep P) s s' ∧ s'.pc = .elfOkHex ∧ s'.edi = pmVgaPos + 42 ∧
      s'.esp = 0x8FFFC ∧ MessageOnly s.mem s'.mem := by
  obtain ⟨hlo, hhi⟩ := ht.placed
  have hlen : msgElfOk.length = 21 := rfl
  have hpos : pmVgaPos = 0xB8DC0 := rfl
  have hdone : elfStep P s = some (elfDone P s) := by
    unfold elfStep
    rw [hpc]
  have hstart : AtChar P s.mem 0 (elfDone P s) :=
    ⟨rfl, rfl, hrow, hesp, fun _ _ => rfl⟩
  obtain ⟨b, hb, hchar⟩ := reaches_rounds (AtChar P s.mem)
    (fun i s' hi h => AtChar.round hi h ht) hstart
  -- the zero at the end of the text
  have hzero : b.mem b.esi = 0 := by
    rw [hchar.esi, hchar.mem _ (by unfold OnMessage InWin; omega), ht.zero]
  have hprint : elfStep P b = some { b with
      eax := b.eax / 256 * 256 + 0, esi := w32 (b.esi + 1), pc := .elfOkHex } := by
    unfold elfStep
    rw [hchar.pc]
    unfold elfOkPrint
    simp only [hzero]
    rfl
  exact ⟨_, .head hdone (hb.tail hprint), rfl, hchar.edi, hchar.esp, hchar.mem⟩

/-- From `.elf_ok_hex` to `.elf_next_row`. -/
theorem prints_entry (hpc : s.pc = .elfOkHex) (hedi : s.edi = pmVgaPos + 42)
    (hesp : s.esp = 0x8FFFC) (hback : P.back < 2 ^ 32) :
    ∃ s', Reaches (elfStep P) s s' ∧ s'.pc = .elfNextRow ∧ s'.esp = 0x8FFFC ∧
      ∀ a, ¬ OnMessage a → ¬ InWin 0x8FFF8 0x8FFFC a → s'.mem a = s.mem a := by
  have hhex : elfStep P s = some (elfOkHex P s) := by
    unfold elfStep
    rw [hpc]
  have hpush : s.push P.back = { s with esp := 0x8FFF8, mem := store32 s.mem 0x8FFF8 P.back } := by
    have h1 : sub32 0x8FFFC 4 = 0x8FFF8 := by decide
    simp only [State.push, hesp, h1]
  have hdigits : AtDigit P (store32 s.mem 0x8FFF8 P.back) 0 (elfOkHex P s) := by
    unfold elfOkHex
    rw [hpush]
    exact ⟨rfl, rfl, hedi, rfl, fun _ _ => rfl⟩
  obtain ⟨d, hd, hdig⟩ := reaches_rounds (AtDigit P (store32 s.mem 0x8FFF8 P.back))
    (fun i s' hi h => AtDigit.round hi h) hdigits
  obtain ⟨e, he, hepc, heesp, hemem⟩ := hdig.last (load32_store32 _ _ hback)
  refine ⟨e, .head hhex (hd.trans he), hepc, heesp, fun a h1 h2 => ?_⟩
  unfold InWin at h2
  rw [hemem a h1, store32_out (by omega)]

/-- **From `.elf_done` to the return**: the message goes to the screen. -/
theorem prints_ok (hpc : s.pc = .elfDone) (hesp : s.esp = 0x8FFFC) (ht : Text P s.mem)
    (hrow : load32 s.mem P.pmVgaPos = pmVgaPos) (hback : P.back < 2 ^ 32) :
    ∃ s', Reaches (elfStep P) s s' ∧ s'.pc = .returned ∧ s'.esp = 0x90000 ∧
      ∀ a, ¬ OnMessage a → ¬ InWin 0x8FFF8 0x8FFFC a → ¬ InWin P.pmVgaPos (P.pmVgaPos + 4) a →
        s'.mem a = s.mem a := by
  obtain ⟨b, hb, hbpc, hbedi, hbesp, hbmem⟩ := prints_text hpc hesp ht hrow
  obtain ⟨e, he, hepc, heesp, hemem⟩ := prints_entry hbpc hbedi hbesp hback
  have hlast : elfStep P e = some (elfNextRow P e) := by
    unfold elfStep
    rw [hepc]
  refine ⟨_, hb.trans (he.tail hlast), rfl, ?_, fun a h1 h2 h3 => ?_⟩
  · show w32 (e.esp + 4) = _
    rw [heesp]
    decide
  · unfold InWin at h3
    show store32 e.mem P.pmVgaPos _ a = _
    rw [store32_out (by omega), hemem a h1 h2]
    exact hbmem a h1

end Message

/-! ## The routine -/

/-- The variables that `elf_load` fills from the header. -/
structure VarsSet (P : Placement) (m m' : Bytes) : Prop where
  entry : load32 m' P.kernelEntry = load32 m (elfBase + 24)
  phoff : load32 m' P.elfPhoff = load32 m (elfBase + 28)
  phentsize : load16 m' P.elfPhentsize = load16 m (elfBase + 42)
  phnum : load16 m' P.elfPhnum = load16 m (elfBase + 44)
  kept : ∀ a, ¬ InWin P.kernelEntry (P.kernelEntry + 12) a → m' a = m a

section Routine

variable {P : Placement} {m m' : Bytes} {s : State} {size : Nat}

def varsMem (P : Placement) (m : Bytes) : Bytes :=
  let m := store32 m P.kernelEntry (load32 m (elfBase + 24))
  let m := store32 m P.elfPhoff (load32 m (elfBase + 28))
  let m := store16 m P.elfPhentsize (load16 m (elfBase + 42))
  store16 m P.elfPhnum (load16 m (elfBase + 44))

theorem varsMem_set (hP : P.kernelEntry + 16 ≤ 0xBE00) (m : Bytes) : VarsSet P m (varsMem P m) := by
  have hbase : elfBase = 0x10000 := rfl
  have hp : P.elfPhoff = P.kernelEntry + 4 := rfl
  have he : P.elfPhentsize = P.kernelEntry + 8 := rfl
  have hn : P.elfPhnum = P.kernelEntry + 10 := rfl
  unfold varsMem
  dsimp only
  generalize h1 : store32 m P.kernelEntry (load32 m (elfBase + 24)) = m₁
  have a1 : ∀ lo hi, _ → AgreeOn m m₁ lo hi := fun lo hi h => h1 ▸ store32_agree m h
  generalize h2 : store32 m₁ P.elfPhoff (load32 m₁ (elfBase + 28)) = m₂
  have a2 : ∀ lo hi, _ → AgreeOn m₁ m₂ lo hi := fun lo hi h => h2 ▸ store32_agree m₁ h
  generalize h3 : store16 m₂ P.elfPhentsize (load16 m₂ (elfBase + 42)) = m₃
  have a3 : ∀ lo hi, _ → AgreeOn m₂ m₃ lo hi := fun lo hi h => h3 ▸ store16_agree m₂ h
  generalize h4 : store16 m₃ P.elfPhnum (load16 m₃ (elfBase + 44)) = m₄
  have a4 : ∀ lo hi, _ → AgreeOn m₃ m₄ lo hi := fun lo hi h => h4 ▸ store16_agree m₃ h
  refine ⟨?_, ?_, ?_, ?_, fun a ha => ?_⟩
  · rw [load32_congr (a4 _ _ (by omega)), load32_congr (a3 _ _ (by omega)),
      load32_congr (a2 _ _ (by omega)), ← h1, load32_store32 _ _ (load32_lt _ _)]
  · rw [load32_congr (a4 _ _ (by omega)), load32_congr (a3 _ _ (by omega)), ← h2,
      load32_store32 _ _ (load32_lt _ _), load32_congr (a1 _ _ (by omega))]
  · rw [load16_congr (a4 _ _ (by omega)), ← h3, load16_store16 _ _ (load16_lt _ _),
      load16_congr (a2 _ _ (by omega)), load16_congr (a1 _ _ (by omega))]
  · rw [← h4, load16_store16 _ _ (load16_lt _ _), load16_congr (a3 _ _ (by omega)),
      load16_congr (a2 _ _ (by omega)), load16_congr (a1 _ _ (by omega))]
  · have hwin : InWin a (a + 1) a := ⟨by omega, by omega⟩
    unfold InWin at ha
    rw [a4 _ _ (by omega) a hwin, a3 _ _ (by omega) a hwin, a2 _ _ (by omega) a hwin,
      a1 _ _ (by omega) a hwin]

theorem VarsSet.image_eq (h : VarsSet P m m') (hP : P.kernelEntry + 16 ≤ 0xBE00) :
    image m' = image m := by
  funext i
  exact h.kept _ (by unfold InWin elfBase; omega)

theorem VarsSet.headers_eq (h : VarsSet P m m') (hP : P.kernelEntry + 16 ≤ 0xBE00)
    (hf : FileOk m size) : headers m' = headers m := by
  unfold headers
  rw [h.image_eq hP]
  refine List.map_congr_left fun i hi => headerAt_congr ?_ fun a ha => h.kept a ?_
  · have h1 := hf.table i (List.mem_range.mp hi)
    have h2 := hf.fits
    omega
  · have := ha.1
    unfold elfBase at this
    unfold InWin
    omega

theorem Called.placed (hc : Called P s) : P.kernelEntry + 16 ≤ 0xBE00 := by
  have := hc.text.placed.2
  unfold Placement.msgElfOk at this
  omega

theorem Called.starts (hc : Called P s) (hvalid : elfValid (image s.mem) = true) :
    ∃ s₁, elfStep P s = some s₁ ∧ LoopAt (varsMem P s.mem) 0 s₁ ∧ s₁.mem = varsMem P s.mem := by
  have hv := varsMem_set hc.placed s.mem
  have himg := hv.image_eq hc.placed
  have hstep : elfStep P s = some { s with
      eax := load16 (varsMem P s.mem) (elfBase + 44)
      ebx := w32 (load32 (varsMem P s.mem) P.elfPhoff + elfBase)
      ecx := load16 (varsMem P s.mem) P.elfPhnum, mem := varsMem P s.mem, pc := .elfPhdrLoop } := by
    unfold elfStep elfLoad
    rw [hc.pc, if_pos hvalid]
    rfl
  refine ⟨_, hstep, ⟨rfl, ?_, hc.esp, ?_⟩, rfl⟩
  · show load16 (varsMem P s.mem) P.elfPhnum = _
    rw [hv.phnum, himg]
    rfl
  · show w32 (load32 (varsMem P s.mem) P.elfPhoff + elfBase) = _
    rw [hv.phoff, headerPtr, himg, Nat.zero_mul, Nat.add_comm]
    rfl

theorem Called.finishes {s₁ : State} (hc : Called P s) (hpc : s₁.pc = .elfDone)
    (hesp : s₁.esp = 0x8FFFC)
    (hown : ∀ a, P.kernelEntry + 12 ≤ a → a < 0xBE00 → s₁.mem a = s.mem a) :
    ∃ s₂, Reaches (elfStep P) s₁ s₂ ∧ s₂.pc = .returned ∧ s₂.esp = 0x90000 ∧
      ∀ a, ¬ OnMessage a → ¬ InWin 0x8FFF8 0x8FFFC a → ¬ InWin P.pmVgaPos (P.pmVgaPos + 4) a →
        s₂.mem a = s₁.mem a := by
  obtain ⟨hlo, hhi⟩ := hc.text.placed
  have hP := hc.placed
  have htext : Text P s₁.mem := by
    refine ⟨⟨hlo, hhi⟩, fun i hi => ?_, ?_⟩
    · rw [hown _ (by unfold Placement.msgElfOk; omega) (by omega), hc.text.chars i hi]
    · rw [hown _ (by unfold Placement.msgElfOk; omega) (by omega), hc.text.zero]
  have hrow : load32 s₁.mem P.pmVgaPos = pmVgaPos := by
    rw [← hc.row]
    refine load32_congr fun a ha => hown a ?_ ?_
    · exact ha.1
    · have := ha.2
      unfold Placement.pmVgaPos at this
      omega
  exact prints_ok hpc hesp htext hrow hc.back

/-- **`elf_load` loads the kernel.** For every file that passes its checks, with headers
inside and segments that lie above 1 MB and apart, it returns with each byte of each
segment in its place and `kernel_entry` set. No other memory has changed, but for the
screen, its stack and its variables. -/
theorem elf_load_correct (hc : Called P s) (hf : FileOk s.mem size)
    (hok : ∀ h ∈ headers s.mem, h.type = 1 → SegmentOk size h) (hapart : Apart (headers s.mem)) :
    ∃ s', Reaches (elfStep P) s s' ∧ s'.pc = .returned ∧ s'.esp = 0x90000 ∧
      (∀ h ∈ headers s.mem, h.type = 1 → ∀ j < h.memsz, s'.mem (h.paddr + j) =
        if j < h.filesz then s.mem (elfBase + (h.offset + j)) else 0) ∧
      load32 s'.mem P.kernelEntry = load32 s.mem (elfBase + 24) ∧
      ∀ a, (∀ h ∈ headers s.mem, ¬ h.Dest a) → ¬ OnScreen a → ¬ OnStack a → ¬ P.OwnVar a →
        s'.mem a = s.mem a := by
  have hlo := hc.text.placed.1
  have hP := hc.placed
  have hv := varsMem_set hP s.mem
  obtain ⟨s₀, hstep, hstart, hmem⟩ := hc.starts hf.valid
  generalize hm' : varsMem P s.mem = m' at hv hstart hmem
  have himg := hv.image_eq hP
  have hhs := hv.headers_eq hP hf
  have hf' : FileOk m' size := by
    constructor
    · rw [himg]; exact hf.valid
    · exact hf.fits
    · rw [himg]; exact hf.table
  rw [← hhs] at hok hapart
  obtain ⟨s₁, hr₁, hpc₁, hesp₁, hlaid⟩ := loads_all
    ⟨hstart, fun h hh => absurd hh List.not_mem_nil, fun a _ _ => congrFun hmem a⟩ hf' hok hapart
    ⟨hlo, hP⟩ (by rw [hv.phentsize, himg]; rfl)
  -- stage 2 itself is below the segments
  have hlow : ∀ lo hi, _ → AgreeOn m' s₁.mem lo hi := fun lo hi => hlaid.low hok
  obtain ⟨s₂, hr₂, hpc₂, hesp₂, hkept⟩ := hc.finishes hpc₁ hesp₁ fun a h1 h2 => by
    rw [hlow a (a + 1) (by omega) a ⟨by omega, by omega⟩, hv.kept a (by unfold InWin; omega)]
  have hpos : Boot.pmVgaPos = 0xB8DC0 := rfl
  refine ⟨s₂, .head hstep (hr₁.trans hr₂), hpc₂, hesp₂, ?_, ?_, ?_⟩
  · intro h hh ht j hj
    rw [← hhs] at hh
    have hab := (hok h hh ht).above
    have hd : h.Dest (h.paddr + j) := ⟨ht, by omega, by omega⟩
    rw [hkept _ (by unfold OnMessage InWin; omega) (by unfold InWin; omega)
      (by unfold Placement.pmVgaPos InWin; omega), hlaid.placed h hh _ hd, Header.byte,
      Nat.add_sub_cancel_left, himg]
    rfl
  · rw [← hv.entry, ← load32_congr (hlow _ _ (.inl (by omega)))]
    refine load32_congr fun a ha => hkept a ?_ ?_ ?_
    all_goals
      obtain ⟨h1, h2⟩ := ha
      unfold OnMessage Placement.pmVgaPos InWin at *
      omega
  · intro a h1 h2 h3 h4
    unfold Placement.OwnVar InWin at h4
    rw [← hhs] at h1
    rw [hkept a (fun h => h2 h.onScreen) (by unfold OnStack InWin at *; omega)
      (by unfold Placement.pmVgaPos InWin; omega), hlaid.kept a h1 h3,
      hv.kept a (by unfold InWin; omega)]

end Routine

/-- An image with a segment of four bytes that takes eight in memory, and a header that
is not `PT_LOAD`. -/
def sampleElf : List (BitVec 8) :=
  [0x7F, 0x45, 0x4C, 0x46, 1, 1, 1, 0, 0, 0, 0, 0, 0, 0, 0, 0,
    2, 0, 3, 0, 1, 0, 0, 0, 0, 0, 0x10, 0, 0x34, 0, 0, 0,
    0, 0, 0, 0, 0, 0, 0, 0, 0x34, 0, 0x20, 0, 2, 0, 0, 0, 0, 0, 0, 0,
    1, 0, 0, 0, 0x74, 0, 0, 0, 0, 0, 0x10, 0xC0, 0, 0, 0x10, 0, 4, 0, 0, 0, 8, 0, 0, 0,
    5, 0, 0, 0, 0, 0x10, 0, 0,
    0x51, 0xE5, 0x74, 0x64, 0, 0, 0, 0, 0, 0, 0, 0, 0, 0, 0, 0, 0, 0, 0, 0, 0, 0, 0, 0,
    6, 0, 0, 0, 4, 0, 0, 0, 0xDE, 0xAD, 0xBE, 0xEF]

/-- Stage 2's data with the image, at sample addresses. -/
def samplePlacement : Placement := ⟨0xB000, 0x8500⟩

def sampleElfMem : Bytes := fun a =>
  if elfBase ≤ a then sampleElf.getD (a - elfBase) 0
  else if 0xB010 ≤ a then (msgElfOk.map fun c => BitVec.ofNat 8 c.toNat).getD (a - 0xB010) 0
  else store32 (fun _ => 0) 0xB00C pmVgaPos a

def sampleCall : State := ⟨.elfLoad, 0, 0, 0, 0, 0, 0, 0x8FFFC, sampleElfMem⟩

/-- The sample image is loaded. -/
theorem elf_load_correct_sample : ∃ s', Reaches (elfStep samplePlacement) sampleCall s' ∧
    s'.pc = .returned ∧ s'.mem 0x100003 = 0xEF ∧ s'.mem 0x100007 = 0 ∧
    load32 s'.mem 0xB000 = 0x100000 := by
  have hhs : headers sampleElfMem = [⟨1, 0x74, 0x100000, 4, 8⟩, ⟨0x6474E551, 0, 0, 0, 0⟩] := by
    decide
  have hcall : Called samplePlacement sampleCall :=
    ⟨rfl, rfl, by decide, by decide, by decide, by decide, by decide⟩
  have hfile : FileOk sampleCall.mem 120 := ⟨by decide, by decide, by decide⟩
  obtain ⟨s', hr, hpc, -, hbytes, hentry, -⟩ := elf_load_correct hcall hfile
    (fun h hh ht => by
      rw [show headers sampleCall.mem = _ from hhs] at hh
      rcases List.mem_pair.mp hh with rfl | rfl
      · exact ⟨by decide, by decide, by decide, by decide⟩
      · exact absurd ht (by decide))
    (by
      rw [show headers sampleCall.mem = _ from hhs]
      refine List.pairwise_pair.mpr fun a ha => absurd ha.2.1 (by decide))
  rw [show headers sampleCall.mem = _ from hhs] at hbytes
  have hb := hbytes _ List.mem_cons_self rfl
  exact ⟨s', hr, hpc, hb 3 (by decide), hb 7 (by decide), hentry⟩

end TupleOS.Elf
