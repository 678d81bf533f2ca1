import Mathlib.Logic.Function.Basic
import TupleOS.Base.Descriptors
import TupleOS.Base.X86

/-!
# The descriptor tables (`kernel/gdt.c`, `kernel/idt.c`, `boot/gdt_flush.asm`)

`gdt_set_entry` and `idt_set_entry` scatter their arguments over the bytes of an
entry; the processor puts them together again (`gdtSetEntry_segment`,
`idtSetEntry_gate`). After `gdt_init` the segment registers hold flat segments of
ring 0, whatever they held before (`gdt_init_flat`), and after `idt_init` the first
48 vectors have the gates of their stubs, the others none (`idtInit_gate`).
-/

namespace TupleOS.Interrupt

open TupleOS.Base

/-! ## `gdt_set_entry` -/

def gdtSetEntry (m : Bytes) (gdt index base limit : Nat) (access gran : BitVec 8) : Bytes :=
  let e := gdt + 8 * index
  let m := store16 m (e + 2) (base % 2 ^ 16)
  let m := store8 m (e + 4) (BitVec.ofNat 8 (base / 2 ^ 16))
  let m := store8 m (e + 7) (BitVec.ofNat 8 (base / 2 ^ 24))
  let m := store16 m e (limit % 2 ^ 16)
  let m := store8 m (e + 6) (BitVec.ofNat 8 (limit / 2 ^ 16 % 16))
  let m := store8 m (e + 6) (m (e + 6) ||| (gran &&& 0xF0))
  store8 m (e + 5) access

theorem high_nibble (g : BitVec 8) : (g &&& 0xF0).toNat = 16 * (g.toNat / 16) := by
  revert g
  decide

theorem granularity_toNat (n : Nat) (g : BitVec 8) :
    (BitVec.ofNat 8 (n % 16) ||| (g &&& 0xF0)).toNat = 16 * (g.toNat / 16) + n % 16 := by
  rw [BitVec.toNat_or, high_nibble, BitVec.toNat_ofNat, Nat.or_comm, Nat.mod_eq_of_lt (by omega)]
  exact (Nat.two_pow_add_eq_or_of_lt (i := 4) (by omega) _).symm

section Gdt

variable {m : Bytes} {gdt index base limit lo hi : Nat} {access gran : BitVec 8}

/-- **The processor reads back what `gdt_set_entry` was given**, with the limit cut
to twenty bits. -/
theorem gdtSetEntry_segment (m : Bytes) (gdt index limit : Nat) (access gran : BitVec 8)
    (hb : base < 2 ^ 32) :
    segmentAt (gdtSetEntry m gdt index base limit access gran) (gdt + 8 * index) =
      ⟨base, limit % 2 ^ 20, access, gran.toNat / 16⟩ := by
  have hg := granularity_toNat (limit / 2 ^ 16) gran
  unfold gdtSetEntry
  generalize gdt + 8 * index = e
  unfold segmentAt
  simp (disch := omega) only [load16_store8, load16_store16_miss, store8_out, store16_out,
    store8_same, load16_store16, hg, BitVec.toNat_ofNat, Segment.mk.injEq, true_and]
  omega

theorem gdtSetEntry_agree (h : hi ≤ gdt + 8 * index ∨ gdt + 8 * index + 8 ≤ lo) :
    AgreeOn m (gdtSetEntry m gdt index base limit access gran) lo hi := by
  unfold gdtSetEntry
  generalize gdt + 8 * index = e at h
  have h2 := (store16_agree m (a := e + 2) (v := base % 2 ^ 16) (by omega)).trans
    (store8_agree _ (BitVec.ofNat 8 (base / 2 ^ 16)) (by omega : hi ≤ e + 4 ∨ e + 4 + 1 ≤ lo))
  have h4 := (h2.trans (store8_agree _ (BitVec.ofNat 8 (base / 2 ^ 24))
    (by omega : hi ≤ e + 7 ∨ e + 7 + 1 ≤ lo))).trans
    (store16_agree _ (v := limit % 2 ^ 16) (by omega : hi ≤ e ∨ e + 2 ≤ lo))
  exact ((h4.trans (store8_agree _ _ (by omega))).trans (store8_agree _ _ (by omega))).trans
    (store8_agree _ _ (by omega))

end Gdt

/-! ## `gdt_init` and `gdt_flush` -/

/-- `gdt_init` up to the call of `gdt_flush`, with `gdt` and `gp` where the linker put
them. -/
def gdtInit (m : Bytes) (gdt gp : Nat) : Bytes :=
  let m := store16 m gp (8 * 3 - 1)
  let m := store32 m (gp + 2) gdt
  let m := gdtSetEntry m gdt 0 0 0 0 0
  let m := gdtSetEntry m gdt 1 0 0xFFFFFFFF 0x9A 0xCF
  gdtSetEntry m gdt 2 0 0xFFFFFFFF 0x92 0xCF

inductive SReg where
  | cs | ds | es | fs | gs | ss
  deriving DecidableEq, Repr

/-- What the processor asks of a segment before it loads the register. -/
def SReg.Accepts (d : Segment) : SReg → Prop
  | .cs => d.LoadsCode
  | .ss => d.LoadsStack
  | .ds | .es | .fs | .gs => d.LoadsData

instance (d : Segment) : (r : SReg) → Decidable (r.Accepts d)
  | .cs => inferInstanceAs (Decidable d.LoadsCode)
  | .ss => inferInstanceAs (Decidable d.LoadsStack)
  | .ds | .es | .fs | .gs => inferInstanceAs (Decidable d.LoadsData)

/-- The segment registers with the descriptors that they hold. The accessed bit, which
the processor sets in the table, is left out. -/
structure Segmented where
  mem : Bytes
  gdtr : TableReg
  sreg : SReg → Segment

def Segmented.lgdt (s : Segmented) (a : Nat) : Segmented := { s with gdtr := tableRegAt s.mem a }

/-- A load of a segment register; `none` is a fault. -/
def Segmented.loadSeg (s : Segmented) (r : SReg) (selector : BitVec 16) : Option Segmented :=
  match s.gdtr.segment s.mem selector with
  | none => none
  | some d =>
    if r.Accepts d then some { s with sreg := Function.update s.sreg r d } else none

def gdtFlush (s : Segmented) (gdtPtrAddress : Nat) : Option Segmented := do
  let s := s.lgdt gdtPtrAddress
  let s ← s.loadSeg .ds 0x10
  let s ← s.loadSeg .es 0x10
  let s ← s.loadSeg .fs 0x10
  let s ← s.loadSeg .gs 0x10
  let s ← s.loadSeg .ss 0x10
  s.loadSeg .cs 0x08

def flatCode : Segment := ⟨0, 0xFFFFF, 0x9A, 0xC⟩

def flatData : Segment := ⟨0, 0xFFFFF, 0x92, 0xC⟩

section Flush

variable {m : Bytes} {gdt gp : Nat} {s : Segmented} {r : SReg} {d : Segment}
  {selector : BitVec 16}

theorem gdtInit_entries (m : Bytes) (hgdt : gdt < 2 ^ 32) (h : gp + 6 ≤ gdt ∨ gdt + 24 ≤ gp) :
    tableRegAt (gdtInit m gdt gp) gp = ⟨23, gdt⟩ ∧
      segmentAt (gdtInit m gdt gp) (gdt + 8) = flatCode ∧
      segmentAt (gdtInit m gdt gp) (gdt + 16) = flatData := by
  have hreg : tableRegAt (store32 (store16 m gp (8 * 3 - 1)) (gp + 2) gdt) gp = ⟨23, gdt⟩ := by
    unfold tableRegAt
    rw [load32_store32 _ _ hgdt, load16_congr (store32_agree _ (by omega)),
      load16_store16 _ _ (by omega)]
  refine ⟨?_, ?_, gdtSetEntry_segment _ gdt 2 0xFFFFFFFF 0x92 0xCF (by omega)⟩
  · rw [← hreg]
    unfold gdtInit
    refine tableRegAt_congr (AgreeOn.trans (AgreeOn.trans (gdtSetEntry_agree ?_)
      (gdtSetEntry_agree ?_)) (gdtSetEntry_agree ?_)) <;> omega
  · refine (segmentAt_congr (gdtSetEntry_agree (.inl ?_))).trans
      (gdtSetEntry_segment _ gdt 1 0xFFFFFFFF 0x9A 0xCF (by omega))
    omega

theorem loadSeg_some (hd : s.gdtr.segment s.mem selector = some d) (hl : r.Accepts d) :
    s.loadSeg r selector = some { s with sreg := Function.update s.sreg r d } := by
  unfold Segmented.loadSeg
  rw [hd]
  exact if_pos hl

def flatRegister (r : SReg) : Segment := if r = .cs then flatCode else flatData

theorem flatRegister_flat (r : SReg) : (flatRegister r).present = true ∧
    (flatRegister r).ring = 0 ∧ (flatRegister r).Flat := by
  unfold flatRegister
  split
  · exact ⟨by decide, by decide, Segment.flat_of rfl (by decide)⟩
  · exact ⟨by decide, by decide, Segment.flat_of rfl (by decide)⟩

theorem gdtFlush_some (s : Segmented) (hreg : tableRegAt s.mem gp = ⟨23, gdt⟩)
    (hcode : segmentAt s.mem (gdt + 8) = flatCode) (hdata : segmentAt s.mem (gdt + 16) = flatData) :
    gdtFlush s gp = some ⟨s.mem, ⟨23, gdt⟩, flatRegister⟩ := by
  have hcs : (⟨23, gdt⟩ : TableReg).segment s.mem 0x08 = some flatCode := congrArg some hcode
  have hds : (⟨23, gdt⟩ : TableReg).segment s.mem 0x10 = some flatData := congrArg some hdata
  have hload : ∀ (f : SReg → Segment) r, r ≠ .cs →
      (⟨s.mem, ⟨23, gdt⟩, f⟩ : Segmented).loadSeg r 0x10 =
        some ⟨s.mem, ⟨23, gdt⟩, Function.update f r flatData⟩ := by
    intro f r hr
    refine loadSeg_some hds ?_
    cases r with
    | cs => exact absurd rfl hr
    | _ => decide
  unfold gdtFlush Segmented.lgdt
  rw [hreg]
  simp only [Option.bind_eq_bind, hload _ .ds nofun, hload _ .es nofun, hload _ .fs nofun,
    hload _ .gs nofun, hload _ .ss nofun, Option.bind_some]
  refine (loadSeg_some hcs (show SReg.cs.Accepts flatCode by decide)).trans ?_
  refine congrArg some (congrArg _ (funext fun r => ?_))
  cases r <;> rfl

/-- **`gdt_init`** replaces whatever segments were in use by flat ones of ring 0. -/
theorem gdt_init_flat (s : Segmented) (hgdt : gdt < 2 ^ 32) (h : gp + 6 ≤ gdt ∨ gdt + 24 ≤ gp) :
    ∃ s', gdtFlush { s with mem := gdtInit s.mem gdt gp } gp = some s' ∧
      s'.gdtr = ⟨23, gdt⟩ ∧ (s'.sreg .cs).executable = true ∧
      ∀ r, (s'.sreg r).present = true ∧ (s'.sreg r).ring = 0 ∧
        ∀ off < 2 ^ 32, (s'.sreg r).linear off = some off := by
  obtain ⟨hreg, hcode, hdata⟩ := gdtInit_entries s.mem hgdt h
  have hx : (flatRegister .cs).executable = true := by decide
  refine ⟨_, gdtFlush_some _ hreg hcode hdata, rfl, hx, flatRegister_flat⟩

/-- The theorem at a table in the image, from segments that cannot be used at all. -/
theorem gdt_init_flat_image : ∃ s', gdtFlush ⟨gdtInit (fun _ => 0) 0xC0110000 0xC0110018, ⟨0, 0⟩,
      fun _ => ⟨0, 0, 0, 0⟩⟩ 0xC0110018 = some s' ∧
    ∀ r, (s'.sreg r).linear 0xFFFFFFFF = some 0xFFFFFFFF := by
  obtain ⟨s', he, -, -, hr⟩ := gdt_init_flat ⟨fun _ => 0, ⟨0, 0⟩, fun _ => ⟨0, 0, 0, 0⟩⟩
    (show 0xC0110000 < 2 ^ 32 by decide)
    (show 0xC0110018 + 6 ≤ 0xC0110000 ∨ 0xC0110000 + 24 ≤ 0xC0110018 by decide)
  exact ⟨s', he, fun r => (hr r).2.2 _ (by decide)⟩

end Flush

/-! ## `idt_set_entry` -/

def idtSetEntry (m : Bytes) (idt index base : Nat) (selector : BitVec 16) (flags : BitVec 8) :
    Bytes :=
  let e := idt + 8 * index
  let m := store16 m e (base % 2 ^ 16)
  let m := store16 m (e + 6) (base / 2 ^ 16 % 2 ^ 16)
  let m := store16 m (e + 2) selector.toNat
  let m := store8 m (e + 4) 0
  store8 m (e + 5) flags

section Idt

variable {m : Bytes} {idt index base lo hi : Nat} {selector : BitVec 16} {flags : BitVec 8}

/-- **The processor reads back what `idt_set_entry` was given.** -/
theorem idtSetEntry_gate (m : Bytes) (idt index : Nat) (selector : BitVec 16) (flags : BitVec 8)
    (hb : base < 2 ^ 32) :
    gateAt (idtSetEntry m idt index base selector flags) (idt + 8 * index) =
      ⟨base, selector, flags⟩ := by
  have hsel := selector.isLt
  unfold idtSetEntry
  generalize idt + 8 * index = e
  unfold gateAt
  simp (disch := omega) only [load16_store8, load16_store16_miss, load16_store16, store8_same,
    BitVec.ofNat_toNat, BitVec.setWidth_eq, Gate.mk.injEq, and_true]
  omega

theorem idtSetEntry_agree (h : hi ≤ idt + 8 * index ∨ idt + 8 * index + 8 ≤ lo) :
    AgreeOn m (idtSetEntry m idt index base selector flags) lo hi := by
  unfold idtSetEntry
  generalize idt + 8 * index = e at h
  have h3 := ((store16_agree m (v := base % 2 ^ 16) (by omega : hi ≤ e ∨ e + 2 ≤ lo)).trans
    (store16_agree _ (v := base / 2 ^ 16 % 2 ^ 16)
      (by omega : hi ≤ e + 6 ∨ e + 6 + 2 ≤ lo))).trans
    (store16_agree _ (v := selector.toNat) (by omega : hi ≤ e + 2 ∨ e + 2 + 2 ≤ lo))
  exact (h3.trans (store8_agree _ _ (by omega))).trans (store8_agree _ _ (by omega))

end Idt

/-! ## `idt_init` -/

/-- Where the linker put the entry code of `interrupts.asm`. -/
structure Stubs where
  /-- `isr0` to `isr31`. -/
  isr : Nat → Word
  /-- `irq0` to `irq15`. -/
  irq : Nat → Word
  isrCommon : Word
  interruptHandler : Word
  /-- After `call interrupt_handler` in `isr_common`. -/
  isrReturn : Word

/-- The stub that `idt_init` enters for a vector. -/
def Stubs.entry (Y : Stubs) (vector : Nat) : Word :=
  if vector < 32 then Y.isr vector else Y.irq (vector - 32)

/-- The calls of `idt_set_entry` in `idt_init`, for the first `n` vectors. -/
def idtEntries (m : Bytes) (idt : Nat) (Y : Stubs) : Nat → Bytes
  | 0 => m
  | n + 1 => idtSetEntry (idtEntries m idt Y n) idt n (Y.entry n).toNat 0x08 0x8E

/-- `idt_init` without the controllers, up to `lidt`. -/
def idtInit (m : Bytes) (idt idtp : Nat) (Y : Stubs) : Bytes :=
  let m := store16 m idtp (8 * 256 - 1)
  let m := store32 m (idtp + 2) idt
  idtEntries m idt Y 48

section Init

variable {m : Bytes} {idt idtp n v lo hi : Nat} {Y : Stubs}

theorem idtEntries_agree (h : hi ≤ idt ∨ idt + 8 * n ≤ lo) :
    AgreeOn m (idtEntries m idt Y n) lo hi := by
  induction n with
  | zero => exact AgreeOn.refl _ _ _
  | succ n ih => exact (ih (by omega)).trans (idtSetEntry_agree (by omega))

def Stubs.gate (Y : Stubs) (v : Nat) : Gate := ⟨(Y.entry v).toNat, 0x08, 0x8E⟩

theorem idtEntries_gate (hv : v < n) :
    gateAt (idtEntries m idt Y n) (idt + 8 * v) = Y.gate v := by
  induction n with
  | zero => omega
  | succ n ih =>
    rw [idtEntries]
    by_cases hvn : v = n
    · subst hvn
      exact idtSetEntry_gate _ idt v 0x08 0x8E (Y.entry v).isLt
    · rw [gateAt_congr (idtSetEntry_agree (by omega))]
      exact ih (by omega)

/-- **`idt_init`**: the first 48 vectors have the gates of their stubs, the others
none, since `idt` starts out as zeros. -/
theorem idtInit_gate (hidt : idt < 2 ^ 32) (h : idtp + 6 ≤ idt ∨ idt + 8 * 256 ≤ idtp)
    (hz : ∀ x, InWin idt (idt + 8 * 256) x → m x = 0) :
    tableRegAt (idtInit m idt idtp Y) idtp = ⟨2047, idt⟩ ∧
      ∀ v, (⟨2047, idt⟩ : TableReg).gate (idtInit m idt idtp Y) v =
        if v < 48 then some (Y.gate v) else none := by
  constructor
  · have hreg : tableRegAt (store32 (store16 m idtp (8 * 256 - 1)) (idtp + 2) idt) idtp =
        ⟨2047, idt⟩ := by
      unfold tableRegAt
      rw [load32_store32 _ _ hidt, load16_congr (store32_agree _ (by omega)),
        load16_store16 _ _ (by omega)]
    rw [← hreg]
    exact tableRegAt_congr (idtEntries_agree (by omega))
  · intro v
    unfold TableReg.gate
    simp only
    by_cases hv : v < 48
    · have hg : gateAt (idtInit m idt idtp Y) (idt + 8 * v) = Y.gate v := idtEntries_gate hv
      rw [if_pos hv, hg, if_pos]
      exact ⟨show 8 * v + 7 ≤ 2047 by omega, show (0x8E : BitVec 8) &&& 0x9F = 0x8E by decide⟩
    · rw [if_neg hv, if_neg]
      rintro ⟨hc, hg⟩
      have hc : 8 * v + 7 ≤ 2047 := hc
      have hflags : (gateAt (idtInit m idt idtp Y) (idt + 8 * v)).flags = 0 := by
        have hag : AgreeOn m (idtInit m idt idtp Y) (idt + 8 * v) (idt + 8 * v + 8) :=
          ((store16_agree m (by omega)).trans (store32_agree _ (by omega))).trans
            (idtEntries_agree (by omega))
        exact (hag _ ⟨by omega, by omega⟩).trans (hz _ ⟨by omega, by omega⟩)
      unfold Gate.Interrupt at hg
      rw [hflags] at hg
      exact absurd hg (by decide)

end Init

end TupleOS.Interrupt
