import TupleOS.Base.Early
import TupleOS.Memory.Boot

/-!
# `_start` (`boot/boot.asm`)

The boot code instruction by instruction: it fills the boot tables through physical
addresses, turns paging on while it runs at the identity map, jumps to the upper half and
calls `kernel_main` there. Every fetch and every access goes through the tables once
paging is on, so that coming to `kernel_main` means that nothing on the way was missing
(`start_reaches_kernel`). The memory it leaves is that of `bootStart`, but for the words on
the stack.
-/

namespace TupleOS.Boot

open TupleOS.Base TupleOS.Memory StateTransition

/-! ## The code -/

/-- A symbol of the image less `KERNEL_VIRTUAL_BASE`. -/
def physSymbol (a : Nat) : Word := BitVec.ofNat 32 (virtToPhys a)

/-- The section `.boot`, with the addresses of its labels. -/
def startCode (L : Layout) (fillTable clearPd higherHalfStart : Word) : List EarlyInstr :=
  [.mov .esi .eax,
    .mov .edi .ebx,
    .movImm .ebx (physSymbol L.bootPageTable),
    .movImm .ecx 0,
    -- .fill_table
    .mov .eax .ecx,
    .orImm .eax 0x003,
    .store .eax .ebx 0,
    .addImm .ecx 4096,
    .addImm .ebx 4,
    .cmpImm .ecx (1024 * 4096),
    .jl fillTable,
    .movImm .ebx (physSymbol L.bootPageDirectory),
    .movImm .ecx 0,
    -- .clear_pd
    .storeImm 0x00000002 .ebx .ecx,
    .inc .ecx,
    .cmpImm .ecx 1024,
    .jl clearPd,
    .movImm .eax (physSymbol L.bootPageTable),
    .orImm .eax 0x003,
    .movImm .ebx (physSymbol L.bootPageDirectory),
    .store .eax .ebx 0,
    .store .eax .ebx (768 * 4),
    .setCr3 .ebx,
    .getCr0 .eax,
    .orImm .eax 0x80000000,
    .setCr0 .eax,
    .movImm .eax higherHalfStart,
    .jmpReg .eax]

def higherHalfCode (stackTop kernelMain : Word) : List EarlyInstr :=
  [.movImm .esp stackTop, .push .edi, .push .esi, .call kernelMain]

/-- Where the linker put the code and the stack. -/
structure StartImage (L : Layout) where
  code : Code
  /-- The instructions of `.boot`, which runs at its physical addresses. -/
  boot : Nat → Word
  /-- The instructions of `_higher_half_start`. -/
  high : Nat → Word
  stackTop : Word
  kernelMain : Word
  boot_placed : Placed code 0 boot (startCode L (boot 4) (boot 13) (high 0))
  boot_lt : ∀ i < 28, (boot i).toNat < 0x400000
  high_placed : Placed code 0xC0000000 high (higherHalfCode stackTop kernelMain)
  high_ge : ∀ i < 4, 0xC0000000 ≤ (high i).toNat
  high_lt : ∀ i < 4, (high i).toNat < 0xC0400000
  stack_eq : stackTop.toNat = L.bootPageTable + pageSize + 16384
  stack_le : stackTop.toNat ≤ L.kernelEnd

/-! ## The boot tables -/

section Frames

variable (L : Layout)

def tableFrame : Nat := imageFrame L.bootPageTable
def dirFrame : Nat := imageFrame L.bootPageDirectory

theorem boot_frames : L.bootPageTable = 0xC0000000 + tableFrame L * 4096 ∧
    L.bootPageDirectory = 0xC0000000 + dirFrame L * 4096 ∧ tableFrame L = dirFrame L + 1 ∧
    256 ≤ dirFrame L ∧ tableFrame L < 1024 := by
  have h1 := L.bootDirectory_ge
  have h2 := L.bootTable_eq
  have h3 := L.bootTable_le
  have h4 := L.kernelEnd_le
  obtain ⟨hd, hd'⟩ := imageFrame_eq h1 (by unfold pageSize at *; omega) L.bootDirectory_aligned
  obtain ⟨ht, -⟩ := imageFrame_eq (a := L.bootPageTable) (by omega) (by unfold pageSize at *; omega)
    L.bootTable_aligned
  unfold tableFrame dirFrame pageSize at *
  omega

theorem physSymbol_table : physSymbol L.bootPageTable = BitVec.ofNat 32 (tableFrame L * 4096) := by
  obtain ⟨h, -, -, -, hlt⟩ := boot_frames L
  unfold physSymbol virtToPhys kernelVirtualBase
  rw [sub32_of_le (by omega) (by omega)]
  exact congrArg (BitVec.ofNat 32) (by omega)

theorem physSymbol_dir : physSymbol L.bootPageDirectory = BitVec.ofNat 32 (dirFrame L * 4096) := by
  obtain ⟨-, h, hd, -, hlt⟩ := boot_frames L
  unfold physSymbol virtToPhys kernelVirtualBase
  rw [sub32_of_le (by omega) (by omega)]
  exact congrArg (BitVec.ofNat 32) (by omega)

end Frames

/-! ## The stretches of the code -/

section Blocks

variable {s : Early} {addr : Nat → Word} {i : Nat}

def saveBlock (table : Word) : List EarlyInstr :=
  [.mov .esi .eax, .mov .edi .ebx, .movImm .ebx table, .movImm .ecx 0]

def fillBlock (fillTable : Word) : List EarlyInstr :=
  [.mov .eax .ecx, .orImm .eax 0x003, .store .eax .ebx 0, .addImm .ecx 4096, .addImm .ebx 4,
    .cmpImm .ecx (1024 * 4096), .jl fillTable]

def clearBlock (clearPd : Word) : List EarlyInstr :=
  [.storeImm 0x00000002 .ebx .ecx, .inc .ecx, .cmpImm .ecx 1024, .jl clearPd]

def enterBlock (table dir : Word) : List EarlyInstr :=
  [.movImm .eax table, .orImm .eax 0x003, .movImm .ebx dir, .store .eax .ebx 0,
    .store .eax .ebx (768 * 4), .setCr3 .ebx, .getCr0 .eax, .orImm .eax 0x80000000, .setCr0 .eax]

theorem saveBlock_run (table : Word) (hpaging : s.cr0.getLsbD 31 = false)
    (heip : s.eip = addr i) : ∃ s', Early.straight addr i (saveBlock table) s = some s' ∧
      s'.eip = addr (i + 4) ∧ s'.reg .ecx = 0 ∧ s'.reg .ebx = table ∧
      s'.reg .esi = s.reg .eax ∧ s'.reg .edi = s.reg .ebx ∧ s'.cr0 = s.cr0 ∧ s'.phys = s.phys := by
  simp only [saveBlock, Early.straight, Early.exec, Early.paging, hpaging, heip, Early.set,
    and_self, if_true, Option.bind_some, reduceCtorEq, if_false]
  exact ⟨_, rfl, rfl, rfl, rfl, rfl, rfl, rfl, rfl⟩

theorem fillBlock_run {a entry : Nat} {again : Bool} (label : Word)
    (hpaging : s.cr0.getLsbD 31 = false) (heip : s.eip = addr i)
    (haddr : (s.reg .ebx + 0).toNat = a) (ha : a % 4 = 0)
    (hentry : (s.reg .ecx ||| 3).toNat = entry)
    (hless : (s.reg .ecx + 4096).slt (1024 * 4096) = again) :
    ∃ s', Early.straight addr i (fillBlock label) s = some s' ∧
      s'.eip = (if again then label else addr (i + 7)) ∧
      s'.reg .ecx = s.reg .ecx + 4096 ∧ s'.reg .ebx = s.reg .ebx + 4 ∧
      s'.reg .esi = s.reg .esi ∧ s'.reg .edi = s.reg .edi ∧ s'.cr0 = s.cr0 ∧
      s'.phys = s.phys.store (a / 4096) (a % 4096 / 4) entry := by
  simp only [fillBlock, Early.straight, Early.exec, Early.paging, hpaging, heip, Early.set,
    Early.write, Early.translate, Early.add, haddr, hentry, hless, ha, and_self, if_true,
    Option.bind_some, Option.map_some, Option.bind_eq_bind, reduceCtorEq, if_false,
    Bool.false_eq_true]
  exact ⟨_, rfl, rfl, rfl, rfl, rfl, rfl, rfl, rfl⟩

theorem clearBlock_run {a : Nat} {again : Bool} (label : Word)
    (hpaging : s.cr0.getLsbD 31 = false) (heip : s.eip = addr i)
    (haddr : (s.reg .ebx + 4 * s.reg .ecx).toNat = a) (ha : a % 4 = 0)
    (hless : (s.reg .ecx + 1).slt 1024 = again) :
    ∃ s', Early.straight addr i (clearBlock label) s = some s' ∧
      s'.eip = (if again then label else addr (i + 4)) ∧
      s'.reg .ecx = s.reg .ecx + 1 ∧ s'.reg .ebx = s.reg .ebx ∧
      s'.reg .esi = s.reg .esi ∧ s'.reg .edi = s.reg .edi ∧ s'.cr0 = s.cr0 ∧
      s'.phys = s.phys.store (a / 4096) (a % 4096 / 4) 2 := by
  simp only [clearBlock, Early.straight, Early.exec, Early.paging, hpaging, heip, Early.set,
    Early.write, Early.translate, Early.add, haddr, hless, ha, and_self, if_true,
    Option.bind_some, Option.map_some, Option.bind_eq_bind, if_false, Bool.false_eq_true]
  exact ⟨_, rfl, rfl, rfl, rfl, rfl, rfl, rfl, rfl⟩

theorem enterBlock_run (table dir : Word) {a a' entry : Nat}
    (hpaging : s.cr0.getLsbD 31 = false) (heip : s.eip = addr i)
    (haddr : (dir + 0).toNat = a) (ha : a % 4 = 0) (haddr' : (dir + 768 * 4).toNat = a')
    (ha' : a' % 4 = 0) (hentry : (table ||| 3).toNat = entry) :
    ∃ s', Early.straight addr i (enterBlock table dir) s = some s' ∧
      s'.eip = addr (i + 9) ∧ s'.reg .esi = s.reg .esi ∧ s'.reg .edi = s.reg .edi ∧
      s'.cr0 = s.cr0 ||| 0x80000000 ∧ s'.cr3 = dir ∧
      s'.phys = (s.phys.store (a / 4096) (a % 4096 / 4) entry).store (a' / 4096)
        (a' % 4096 / 4) entry := by
  simp only [enterBlock, Early.straight, Early.exec, Early.paging, hpaging, heip, Early.set,
    Early.write, Early.translate, haddr, haddr', hentry, ha, ha', and_self, if_true,
    Option.bind_some, Option.map_some, Option.bind_eq_bind, reduceCtorEq, if_false,
    Bool.false_eq_true]
  exact ⟨_, rfl, rfl, rfl, rfl, rfl, rfl, rfl⟩

end Blocks

/-! ## The loops -/

section Loops

variable {L : Layout} {I : StartImage L} {s₀ s : Early} {k : Nat}

/-- What `_start` does not touch until paging is on: the arguments are in `%esi` and `%edi`. -/
structure Saved (s₀ s : Early) : Prop where
  esi : s.reg .esi = s₀.reg .eax
  edi : s.reg .edi = s₀.reg .ebx
  cr0 : s.cr0 = s₀.cr0

/-- At `.fill_table` for the time `k`, or after it. -/
structure Filling (I : StartImage L) (s₀ : Early) (k : Nat) (s : Early) : Prop where
  eip : s.eip = if k < 1024 then I.boot 4 else I.boot 11
  ecx : s.reg .ecx = BitVec.ofNat 32 (k * 4096)
  ebx : s.reg .ebx = BitVec.ofNat 32 (tableFrame L * 4096 + 4 * k)
  saved : Saved s₀ s
  phys : s.phys = bootFillTable s₀.phys (tableFrame L) k

theorem Filling.round (h : Filling I s₀ k s) (hk : k < 1024) (hp : s₀.paging = false) :
    ∃ s', Reaches (Early.step I.code) s s' ∧ Filling I s₀ (k + 1) s' := by
  obtain ⟨-, -, -, -, hlt⟩ := boot_frames L
  have hpaging : s.cr0.getLsbD 31 = false := by rw [h.saved.cr0]; exact hp
  have heip := h.eip
  rw [if_pos hk] at heip
  have haddr : (s.reg .ebx + 0).toNat = tableFrame L * 4096 + 4 * k := by
    rw [h.ebx]
    exact (Early.toNat_add_ofNat _ 0).trans (by omega)
  have hentry : (s.reg .ecx ||| 3).toNat = k * 4096 + 3 := by
    rw [h.ecx]
    exact Early.frame_or_three (by omega)
  have hecx : s.reg .ecx + 4096 = BitVec.ofNat 32 ((k + 1) * 4096) := by
    rw [h.ecx]
    exact (BitVec.ofNat_add_ofNat _ 4096).trans (congrArg _ (by omega))
  have hebx : s.reg .ebx + 4 = BitVec.ofNat 32 (tableFrame L * 4096 + 4 * (k + 1)) := by
    rw [h.ebx]
    exact (BitVec.ofNat_add_ofNat _ 4).trans (congrArg _ (by omega))
  have hless : (s.reg .ecx + 4096).slt (1024 * 4096) = decide (k + 1 < 1024) := by
    have hlimit : (1024 * 4096 : Word) = BitVec.ofNat 32 4194304 := by decide
    rw [hecx, hlimit, Early.slt_ofNat (by omega) (by decide)]
    exact decide_eq_decide.mpr (by omega)
  obtain ⟨s', hs', heip', hecx', hebx', hesi, hedi, hcr0, hphys⟩ :=
    fillBlock_run (I.boot 4) hpaging heip haddr (by omega) hentry hless
  refine ⟨s', Early.straight_reaches I.boot_placed ⟨_, rfl⟩ hs', ?_,
    hecx'.trans hecx, hebx'.trans hebx, ⟨hesi.trans h.saved.esi, hedi.trans h.saved.edi,
    hcr0.trans h.saved.cr0⟩, ?_⟩
  · rw [heip']
    simp only [decide_eq_true_eq]
  · rw [hphys, h.phys, show (tableFrame L * 4096 + 4 * k) / 4096 = tableFrame L by omega,
      show (tableFrame L * 4096 + 4 * k) % 4096 / 4 = k by omega]
    rfl

/-- At `.clear_pd` for the time `k`, or after it. -/
structure Clearing (I : StartImage L) (s₀ : Early) (k : Nat) (s : Early) : Prop where
  eip : s.eip = if k < 1024 then I.boot 13 else I.boot 17
  ecx : s.reg .ecx = BitVec.ofNat 32 k
  ebx : s.reg .ebx = BitVec.ofNat 32 (dirFrame L * 4096)
  saved : Saved s₀ s
  phys : s.phys = (bootFillTable s₀.phys (tableFrame L) 1024).fill (dirFrame L) 2 k

theorem Clearing.round (h : Clearing I s₀ k s) (hk : k < 1024) (hp : s₀.paging = false) :
    ∃ s', Reaches (Early.step I.code) s s' ∧ Clearing I s₀ (k + 1) s' := by
  obtain ⟨-, -, hdt, -, hlt⟩ := boot_frames L
  have hpaging : s.cr0.getLsbD 31 = false := by rw [h.saved.cr0]; exact hp
  have heip := h.eip
  rw [if_pos hk] at heip
  have haddr : (s.reg .ebx + 4 * s.reg .ecx).toNat = dirFrame L * 4096 + 4 * k := by
    rw [h.ebx, h.ecx, show (4 : Word) * BitVec.ofNat 32 k = BitVec.ofNat 32 (4 * k) from
      BitVec.ofNat_mul_ofNat .., Early.toNat_add_ofNat]
    omega
  have hecx : s.reg .ecx + 1 = BitVec.ofNat 32 (k + 1) := by
    rw [h.ecx]
    exact BitVec.ofNat_add_ofNat k 1
  have hless : (s.reg .ecx + 1).slt 1024 = decide (k + 1 < 1024) := by
    rw [hecx]
    exact Early.slt_ofNat (by omega) (by decide)
  obtain ⟨s', hs', heip', hecx', hebx', hesi, hedi, hcr0, hphys⟩ :=
    clearBlock_run (I.boot 13) hpaging heip haddr (by omega) hless
  refine ⟨s', Early.straight_reaches I.boot_placed ⟨_, rfl⟩ hs', ?_, hecx'.trans hecx,
    hebx'.trans h.ebx, ⟨hesi.trans h.saved.esi, hedi.trans h.saved.edi, hcr0.trans h.saved.cr0⟩, ?_⟩
  · rw [heip']
    simp only [decide_eq_true_eq]
  · rw [hphys, h.phys, show (dirFrame L * 4096 + 4 * k) / 4096 = dirFrame L by omega,
      show (dirFrame L * 4096 + 4 * k) % 4096 / 4 = k by omega, Phys.fill_succ]

theorem rounds {step : Early → Option Early} {P : Nat → Early → Prop}
    (hround : ∀ k s, k < 1024 → P k s → ∃ s', Reaches step s s' ∧ P (k + 1) s') (h : P 0 s) :
    ∀ n ≤ 1024, ∃ s', Reaches step s s' ∧ P n s'
  | 0, _ => ⟨s, .refl, h⟩
  | n + 1, hn => by
    obtain ⟨s₁, hs₁, h₁⟩ := rounds hround h n (by omega)
    obtain ⟨s', hs', h'⟩ := hround n s₁ (by omega) h₁
    exact ⟨s', hs₁.trans hs', h'⟩

/-- **Up to paging**: the tables are those of `bootStart`, and paging has just been turned on. -/
theorem tables_built (I : StartImage L) (pmm : Pmm) (heip : s₀.eip = I.boot 0)
    (hp : s₀.paging = false) :
    ∃ s, Reaches (Early.step I.code) s₀ s ∧ s.eip = I.boot 26 ∧ s.reg .esi = s₀.reg .eax ∧
      s.reg .edi = s₀.reg .ebx ∧ s.cr0 = s₀.cr0 ||| 0x80000000 ∧
      s.cr3 = BitVec.ofNat 32 (dirFrame L * 4096) ∧ s.phys = (bootStart L s₀.phys pmm).phys := by
  obtain ⟨-, -, hdt, -, hlt⟩ := boot_frames L
  obtain ⟨s₁, hs₁, heip₁, hecx₁, hebx₁, hesi₁, hedi₁, hcr0₁, hphys₁⟩ :=
    saveBlock_run (physSymbol L.bootPageTable) hp heip
  have hr₁ := Early.straight_reaches I.boot_placed ⟨_, rfl⟩ hs₁
  have hfill₁ : Filling I s₀ 0 s₁ := by
    refine ⟨?_, hecx₁, ?_, ⟨hesi₁, hedi₁, hcr0₁⟩, hphys₁⟩
    · rw [if_pos (by decide), heip₁]
    · rw [hebx₁, physSymbol_table, Nat.mul_zero, Nat.add_zero]
  obtain ⟨s₂, hr₂, hfill⟩ := rounds (fun k s hk h => Filling.round h hk hp) hfill₁ 1024 le_rfl
  have heip₂ := hfill.eip
  rw [if_neg (by decide)] at heip₂
  -- `%ebx` and `%ecx` for the second loop
  have hpaging₂ : s₂.cr0.getLsbD 31 = false := by rw [hfill.saved.cr0]; exact hp
  obtain ⟨s₃, hr₃, hclear₃⟩ : ∃ s₃, Reaches (Early.step I.code) s₂ s₃ ∧ Clearing I s₀ 0 s₃ := by
    have hs₃ : ∃ s₃, Early.straight I.boot 11 [.movImm .ebx (physSymbol L.bootPageDirectory),
        .movImm .ecx 0] s₂ = some s₃ ∧ Clearing I s₀ 0 s₃ := by
      simp only [Early.straight, Early.exec, Early.paging, hpaging₂, heip₂, Early.set, and_self,
        if_true, Option.bind_some]
      refine ⟨_, rfl, rfl, rfl, physSymbol_dir L, ⟨hfill.saved.esi, hfill.saved.edi,
        hfill.saved.cr0⟩, ?_⟩
      rw [Phys.fill_zero]
      exact hfill.phys
    obtain ⟨s₃, hs₃, hclear⟩ := hs₃
    exact ⟨s₃, Early.straight_reaches I.boot_placed ⟨_, rfl⟩ hs₃, hclear⟩
  obtain ⟨s₄, hr₄, hclear⟩ := rounds (fun k s hk h => Clearing.round h hk hp) hclear₃ 1024 le_rfl
  have hpaging₄ : s₄.cr0.getLsbD 31 = false := by rw [hclear.saved.cr0]; exact hp
  have heip₄ := hclear.eip
  rw [if_neg (by decide)] at heip₄
  obtain ⟨s₅, hs₅, heip₅, hesi₅, hedi₅, hcr0₅, hcr3₅, hphys₅⟩ :=
    enterBlock_run (BitVec.ofNat 32 (tableFrame L * 4096)) (BitVec.ofNat 32 (dirFrame L * 4096))
      hpaging₄ heip₄
      ((Early.toNat_add_ofNat _ 0).trans (Nat.mod_eq_of_lt (by omega))) (by omega)
      ((Early.toNat_add_ofNat _ 3072).trans (Nat.mod_eq_of_lt (by omega))) (by omega)
      (Early.frame_or_three (by omega))
  rw [← physSymbol_table, ← physSymbol_dir] at hs₅
  have hr₅ := Early.straight_reaches I.boot_placed ⟨_, rfl⟩ hs₅
  refine ⟨s₅, (((hr₁.trans hr₂).trans hr₃).trans hr₄).trans hr₅, heip₅,
    hesi₅.trans hclear.saved.esi, hedi₅.trans hclear.saved.edi,
    hcr0₅.trans (congrArg (· ||| _) hclear.saved.cr0), hcr3₅, ?_⟩
  rw [hphys₅, hclear.phys, show (dirFrame L * 4096 + 0) / 4096 = dirFrame L by omega,
    show (dirFrame L * 4096 + 0) % 4096 / 4 = 0 by omega,
    show (dirFrame L * 4096 + 3072) / 4096 = dirFrame L by omega,
    show (dirFrame L * 4096 + 3072) % 4096 / 4 = 768 by omega]
  rfl

end Loops

/-! ## With paging -/

section Paged

variable {L : Layout} {s : Early} {va : Word}

/-- The address of the boot map behind an address. -/
def bootMapped (va : Nat) : Option Nat :=
  if va < 0x400000 then some va
  else if 0xC0000000 ≤ va ∧ va < 0xC0400000 then some (va - 0xC0000000)
  else none

/-- Paging is on, with the boot tables. -/
structure BootMap (L : Layout) (s : Early) : Prop where
  paging : s.paging = true
  cr3 : s.cr3 = BitVec.ofNat 32 (dirFrame L * 4096)
  table : ∀ i < 1024, s.phys (tableFrame L) i = i * 4096 + 3
  entry : ∀ i, i = 0 ∨ i = 768 → s.phys (dirFrame L) i = tableFrame L * 4096 + 3
  absent : ∀ i < 1024, i ≠ 0 → i ≠ 768 → s.phys (dirFrame L) i = 2

theorem BootMap.translate (h : BootMap L s) (va : Word) :
    s.translate va = bootMapped va.toNat := by
  obtain ⟨-, -, hdt, -, hlt⟩ := boot_frames L
  have hva : va.toNat < 2 ^ 32 := va.isLt
  have hdir : frameOf s.cr3.toNat = dirFrame L := by
    rw [h.cr3, BitVec.toNat_ofNat]
    unfold frameOf
    omega
  unfold Early.translate
  rw [if_pos h.paging, hdir]
  by_cases hslot : va.toNat / 4096 / 1024 = 0 ∨ va.toNat / 4096 / 1024 = 768
  · have hwalk : walk s.phys (dirFrame L) (va.toNat / 4096) =
        some (tableFrame L * 4096 + 3, va.toNat / 4096 % 1024 * 4096 + 3) := by
      refine walk_some.mpr ⟨h.entry _ hslot, entry_present _, ?_, entry_present _⟩
      rw [show frameOf (tableFrame L * 4096 + 3) = tableFrame L from entry_frame _]
      exact h.table _ (Nat.mod_lt _ (by decide))
    rw [hwalk, Option.map_some]
    show some (frameOf (va.toNat / 4096 % 1024 * 4096 + 3) * 4096 + va.toNat % 4096) = _
    rw [show frameOf (va.toNat / 4096 % 1024 * 4096 + 3) = _ from entry_frame _]
    unfold bootMapped
    rcases hslot with hslot | hslot
    · rw [if_pos (by omega)]
      exact congrArg some (by omega)
    · rw [if_neg (by omega), if_pos (by omega)]
      exact congrArg some (by omega)
  · have habsent := h.absent (va.toNat / 4096 / 1024) (by omega) (fun h0 => hslot (.inl h0))
      (fun h0 => hslot (.inr h0))
    rw [walk_absent (by rw [habsent]; rfl)]
    unfold bootMapped
    rw [if_neg (by omega), if_neg (by omega)]
    rfl

theorem BootMap.store (h : BootMap L s) {f : Nat} (hd : f ≠ dirFrame L) (ht : f ≠ tableFrame L)
    (i w : Nat) : BootMap L { s with phys := s.phys.store f i w } where
  paging := h.paging
  cr3 := h.cr3
  table := fun j hj => by
    show s.phys.store f i w _ _ = _
    rw [Phys.store_frame ht.symm]
    exact h.table j hj
  entry := fun j hj => by
    show s.phys.store f i w _ _ = _
    rw [Phys.store_frame hd.symm]
    exact h.entry j hj
  absent := fun j hj h0 h1 => by
    show s.phys.store f i w _ _ = _
    rw [Phys.store_frame hd.symm]
    exact h.absent j hj h0 h1

theorem BootMap.of_eq {s' : Early} (h : BootMap L s) (h0 : s'.cr0 = s.cr0) (h3 : s'.cr3 = s.cr3)
    (hp : s'.phys = s.phys) : BootMap L s' where
  paging := (congrArg (BitVec.getLsbD · 31) h0).trans h.paging
  cr3 := h3.trans h.cr3
  table := hp ▸ h.table
  entry := hp ▸ h.entry
  absent := hp ▸ h.absent

theorem bootStart_map (L : Layout) (phys : Phys) (pmm : Pmm)
    (hphys : s.phys = (bootStart L phys pmm).phys)
    (hcr3 : s.cr3 = BitVec.ofNat 32 (dirFrame L * 4096)) (hp : s.paging = true) : BootMap L s := by
  obtain ⟨-, -, hdt, -, -⟩ := boot_frames L
  have hne : tableFrame L ≠ dirFrame L := by omega
  have hs : s.phys = (((bootFillTable phys (tableFrame L) 1024).fill (dirFrame L) 2 1024).store
      (dirFrame L) 0 (tableFrame L * 4096 + 3)).store (dirFrame L) 768 (tableFrame L * 4096 + 3) :=
    hphys
  refine ⟨hp, hcr3, fun i hi => ?_, ?_, fun i hi h0 h1 => ?_⟩
  · rw [hs, Phys.store_frame hne, Phys.store_frame hne, Phys.fill_frame hne]
    exact bootFillTable_spec _ _ _ _ hi
  · rintro i (rfl | rfl)
    · rw [hs, Phys.store_index (by decide), Phys.store_same]
    · rw [hs, Phys.store_same]
  · rw [hs, Phys.store_index h1, Phys.store_index h0, Phys.fill_in hi]

theorem bootMapped_high {a : Nat} (h : a < 0x400000) :
    bootMapped (0xC0000000 + a) = some a := by
  unfold bootMapped
  rw [if_neg (by omega), if_pos (by omega)]
  exact congrArg some (by omega)

theorem BootMap.push (h : BootMap L s) {a : Nat} (ha : a < 0x400000) (h4 : a % 4 = 0)
    (hsp : (s.reg .esp - 4).toNat = 0xC0000000 + a) (v : Word) :
    s.pushWord v = some { s.set .esp (s.reg .esp - 4) with
      phys := s.phys.store (a / 4096) (a % 4096 / 4) v.toNat } := by
  have hset : BootMap L (s.set .esp (s.reg .esp - 4)) := h.of_eq rfl rfl rfl
  unfold Early.pushWord Early.write
  rw [hset.translate, hsp, bootMapped_high ha, Option.bind_eq_bind, Option.bind_some, if_pos h4]
  rfl

variable {I : StartImage L} {i : Nat}

theorem BootMap.fetch_boot (h : BootMap L s) (I : StartImage L) (hi : i < 28) :
    s.translate (I.boot i) = some ((I.boot i).toNat - 0) := by
  rw [h.translate]
  exact if_pos (I.boot_lt i hi)

theorem BootMap.fetch_high (h : BootMap L s) (I : StartImage L) (hi : i < 4) :
    s.translate (I.high i) = some ((I.high i).toNat - 0xC0000000) := by
  have hge := I.high_ge i hi
  have hlt := I.high_lt i hi
  rw [h.translate]
  unfold bootMapped
  rw [if_neg (by omega), if_pos ⟨hge, hlt⟩]

theorem push_step (h : BootMap L s) (hi : i < 4) (heip : s.eip = I.high i) {ins : EarlyInstr}
    {v next : Word} (hins : (higherHalfCode I.stackTop I.kernelMain)[i]? = some ins)
    (hexec : s.exec (I.high (i + 1)) ins = (s.pushWord v).map fun s => { s with eip := next })
    {f j : Nat} (hf : f < 1024) (hd : f ≠ dirFrame L) (ht : f ≠ tableFrame L) (hj : j < 1024)
    (hsp : (s.reg .esp - 4).toNat = 0xC0000000 + (f * 4096 + 4 * j)) :
    ∃ s', Reaches (Early.step I.code) s s' ∧ BootMap L s' ∧ s'.eip = next ∧
      s'.reg .esp = s.reg .esp - 4 ∧ (∀ r, r ≠ .esp → s'.reg r = s.reg r) ∧ s'.cr3 = s.cr3 ∧
      s'.phys = s.phys.store f j v.toNat := by
  have hpush := h.push (by omega) (by omega) hsp v
  rw [show (f * 4096 + 4 * j) / 4096 = f by omega,
    show (f * 4096 + 4 * j) % 4096 / 4 = j by omega] at hpush
  rw [hpush, Option.map_some] at hexec
  refine ⟨_, Early.reaches_placed I.high_placed hins heip (h.fetch_high I hi) hexec,
    (h.store hd ht j v.toNat).of_eq rfl rfl rfl, rfl, Early.set_self s .esp _,
    fun r hr => Early.set_other hr s _, rfl, rfl⟩

end Paged

/-- The words that `_start` leaves on the stack, in physical memory. -/
def startStack {L : Layout} (I : StartImage L) (s : Early) (phys : Phys) : Phys :=
  ((phys.store (tableFrame L + 4) 1023 (s.reg .ebx).toNat).store (tableFrame L + 4) 1022
    (s.reg .eax).toNat).store (tableFrame L + 4) 1021 (I.high 4).toNat

/-- **From `_start` to `kernel_main`**: with paging off, and whatever is in the registers and in
memory, the code runs through to the call of `kernel_main`. Memory is then that of
`bootStart` and the words on the stack, `%cr3` holds the boot directory, the first 4 MB are
mapped at `0` and at `0xC0000000` and nothing else is mapped, and `kernel_main` finds its
return address, the magic number and the multiboot pointer on its stack. -/
theorem start_reaches_kernel {L : Layout} (I : StartImage L) (s : Early) (pmm : Pmm)
    (heip : s.eip = I.boot 0) (hp : s.paging = false) :
    ∃ s', Reaches (Early.step I.code) s s' ∧ s'.eip = I.kernelMain ∧
      s'.reg .esp = I.stackTop - 12 ∧ s'.read (I.stackTop - 12) = some (I.high 4).toNat ∧
      s'.read (I.stackTop - 8) = some (s.reg .eax).toNat ∧
      s'.read (I.stackTop - 4) = some (s.reg .ebx).toNat ∧
      s'.cr3.toNat = (bootStart L s.phys pmm).cr3 ∧
      s'.phys = startStack I s (bootStart L s.phys pmm).phys ∧
      ∀ va : Word, s'.translate va = bootMapped va.toNat := by
  obtain ⟨ht, -, hdt, hge, hlt⟩ := boot_frames L
  have hstack : I.stackTop.toNat = 0xC0000000 + (tableFrame L + 5) * 4096 := by
    rw [I.stack_eq]
    unfold pageSize
    omega
  have hroom : tableFrame L + 5 ≤ 1024 := by
    have h1 := I.stack_le
    have h2 := L.kernelEnd_le
    omega
  obtain ⟨s₁, hr₁, heip₁, hesi₁, hedi₁, hcr0₁, hcr3₁, hphys₁⟩ := tables_built I pmm heip hp
  have hpaging : s₁.paging = true := by
    unfold Early.paging
    rw [hcr0₁, BitVec.getLsbD_or]
    simp
  have hmap := bootStart_map L s.phys pmm hphys₁ hcr3₁ hpaging
  -- the jump to the upper half, and the stack
  obtain ⟨s₂, hr₂, heip₂, hesp₂, hesi₂, hedi₂, hcr3₂, hphys₂, hmap₂⟩ : ∃ s₂,
      Reaches (Early.step I.code) s₁ s₂ ∧ s₂.eip = I.high 1 ∧ s₂.reg .esp = I.stackTop ∧
      s₂.reg .esi = s₁.reg .esi ∧ s₂.reg .edi = s₁.reg .edi ∧ s₂.cr3 = s₁.cr3 ∧
      s₂.phys = s₁.phys ∧ BootMap L s₂ := by
    have h26 := Early.reaches_placed I.boot_placed (i := 26) rfl heip₁
      (hmap.fetch_boot I (by decide)) rfl
    have h27 := Early.reaches_placed I.boot_placed (i := 27) rfl
      (s := { s₁.set .eax (I.high 0) with eip := I.boot 27 }) rfl
      ((hmap.of_eq rfl rfl rfl).fetch_boot I (by decide)) rfl
    have hhigh := Early.reaches_placed I.high_placed (i := 0) rfl
      (s := { s₁.set .eax (I.high 0) with eip := I.high 0 }) rfl
      ((hmap.of_eq rfl rfl rfl).fetch_high I (by decide)) rfl
    exact ⟨_, (h26.trans h27).trans hhigh, rfl, rfl, rfl, rfl, rfl, rfl, hmap.of_eq rfl rfl rfl⟩
  -- the three words on the stack are the last of its uppermost frame
  have hword : ∀ n ≤ 3, (I.stackTop - BitVec.ofNat 32 (4 * n)).toNat =
      0xC0000000 + ((tableFrame L + 4) * 4096 + 4 * (1024 - n)) := by
    intro n hn
    rw [BitVec.toNat_sub, BitVec.toNat_ofNat, hstack]
    omega
  obtain ⟨s₃, hr₃, hmap₃, heip₃, hesp₃, hreg₃, hcr3₃, hphys₃⟩ := push_step (f := tableFrame L + 4)
    (j := 1023) hmap₂ (by decide) heip₂ rfl rfl (by omega) (by omega) (by omega) (by decide)
    (by rw [hesp₂]; exact hword 1 (by decide))
  have hesp₃' : s₃.reg .esp - 4 = I.stackTop - BitVec.ofNat 32 (4 * 2) := by
    rw [hesp₃, hesp₂, BitVec.sub_sub]
    rfl
  obtain ⟨s₄, hr₄, hmap₄, heip₄, hesp₄, hreg₄, hcr3₄, hphys₄⟩ := push_step (f := tableFrame L + 4)
    (j := 1022) hmap₃ (by decide) heip₃ rfl rfl (by omega) (by omega) (by omega) (by decide)
    (by rw [hesp₃']; exact hword 2 (by decide))
  have hesp₄' : s₄.reg .esp - 4 = I.stackTop - BitVec.ofNat 32 (4 * 3) := by
    rw [hesp₄, hesp₃', BitVec.sub_sub]
    rfl
  obtain ⟨s₅, hr₅, hmap₅, heip₅, hesp₅, hreg₅, hcr3₅, hphys₅⟩ := push_step (f := tableFrame L + 4)
    (j := 1021) hmap₄ (by decide) heip₄ rfl rfl (by omega) (by omega) (by omega) (by decide)
    (by rw [hesp₄']; exact hword 3 (by decide))
  have hphys : s₅.phys = startStack I s (bootStart L s.phys pmm).phys := by
    rw [hphys₅, hphys₄, hphys₃, hphys₂, hphys₁, hreg₃ .esi (by decide), hesi₂, hedi₂, hesi₁, hedi₁]
    rfl
  have hread : ∀ n, 1 ≤ n → n ≤ 3 → s₅.read (I.stackTop - BitVec.ofNat 32 (4 * n)) =
      some (s₅.phys (tableFrame L + 4) (1024 - n)) := by
    intro n h1 h3
    unfold Early.read
    rw [hmap₅.translate, hword n h3, bootMapped_high (by omega), Option.map_some,
      show ((tableFrame L + 4) * 4096 + 4 * (1024 - n)) / 4096 = tableFrame L + 4 by omega,
      show ((tableFrame L + 4) * 4096 + 4 * (1024 - n)) % 4096 / 4 = 1024 - n by omega]
  refine ⟨s₅, (((hr₁.trans hr₂).trans hr₃).trans hr₄).trans hr₅, heip₅, hesp₅.trans hesp₄',
    (hread 3 (by decide) (by decide)).trans ?_, (hread 2 (by decide) (by decide)).trans ?_,
    (hread 1 (by decide) (by decide)).trans ?_, ?_, hphys, hmap₅.translate⟩
  · rw [hphys]
    exact congrArg some (Phys.store_same ..)
  · rw [hphys]
    exact congrArg some ((Phys.store_index (by decide)).trans (Phys.store_same ..))
  · rw [hphys]
    exact congrArg some ((Phys.store_index (by decide)).trans ((Phys.store_index (by decide)).trans
      (Phys.store_same ..)))
  · rw [hcr3₅, hcr3₄, hcr3₃, hcr3₂, hcr3₁, BitVec.toNat_ofNat]
    show dirFrame L * 4096 % 2 ^ 32 = dirFrame L * 4096
    omega

/-! ## An image -/

def slots (base : Nat) (i : Nat) : Word := BitVec.ofNat 32 (base + 8 * i)

theorem slots_toNat {base i : Nat} (h : base + 8 * i < 2 ^ 32) :
    (slots base i).toNat = base + 8 * i := by
  unfold slots
  rw [BitVec.toNat_ofNat, Nat.mod_eq_of_lt h]

def slotCode (base : Nat) (l : List EarlyInstr) (a : Nat) : Option (EarlyInstr × Nat) :=
  l[(a - base) / 8]?.map (·, 8)

theorem slots_placed {code : Code} {base shift : Nat} {l : List EarlyInstr}
    (hbase : base + 8 * l.length + 8 < 2 ^ 32) (hshift : shift ≤ base)
    (hcode : ∀ i < l.length, code (base - shift + 8 * i) = slotCode (base - shift) l
      (base - shift + 8 * i)) :
    Placed code shift (slots base) l := by
  intro i ins hi
  obtain ⟨hlt, -⟩ := List.getElem?_eq_some_iff.mp hi
  have hsize : (slots base (i + 1) - slots base i).toNat = 8 := by
    rw [BitVec.toNat_sub, slots_toNat (by omega), slots_toNat (by omega)]
    omega
  rw [slots_toNat (by omega), hsize, show base + 8 * i - shift = base - shift + 8 * i by omega,
    hcode i hlt, slotCode, show (base - shift + 8 * i - (base - shift)) / 8 = i by omega, hi]
  rfl

def sampleStart : StartImage sampleLayout where
  code a := if a < 0x101000 then
      slotCode 0x100010 (startCode sampleLayout (slots 0x100010 4) (slots 0x100010 13)
        (slots 0xC0101000 0)) a
    else slotCode 0x101000 (higherHalfCode 0xC011C000 0xC0102000) a
  boot := slots 0x100010
  high := slots 0xC0101000
  stackTop := 0xC011C000
  kernelMain := 0xC0102000
  boot_placed := slots_placed (by decide) (by decide) fun i hi => if_pos (by
    have : i < 28 := hi
    omega)
  boot_lt := fun i hi => by rw [slots_toNat (by omega)]; omega
  high_placed := slots_placed (by decide) (by decide) fun i _ => if_neg (by omega)
  high_ge := fun i hi => by rw [slots_toNat (by omega)]; omega
  high_lt := fun i hi => by rw [slots_toNat (by omega)]; omega
  stack_eq := by decide
  stack_le := by decide

/-- The processor as a boot loader hands it over. -/
def sampleEarly : Early where
  reg := fun r => if r = .eax then 0x2BADB002 else if r = .ebx then 0x9500 else 0
  less := false
  cr0 := 0x11
  cr3 := 0
  eip := slots 0x100010 0
  phys := fun _ _ => 0xFFFFFFFF

/-- The theorem for the image: `kernel_main` gets the magic number. -/
theorem start_reaches_kernel_image : ∃ s', Reaches (Early.step sampleStart.code) sampleEarly s' ∧
    s'.eip = 0xC0102000 ∧ s'.read 0xC011BFF8 = some 0x2BADB002 ∧
    s'.read 0xC011BFFC = some 0x9500 := by
  obtain ⟨s', hr, he, -, -, hmagic, hmbi, -⟩ :=
    start_reaches_kernel sampleStart sampleEarly
      (pmmInit sampleLayout (fun _ => 0) sampleMap) rfl rfl
  exact ⟨s', hr, he, hmagic, hmbi⟩

end TupleOS.Boot
