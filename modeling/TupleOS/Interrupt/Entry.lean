import Mathlib.Tactic.IntervalCases
import TupleOS.Interrupt.Frame
import TupleOS.Interrupt.Tables

/-!
# The interrupt stubs (`boot/interrupts.asm`)

An interrupt goes through its gate to one of 48 stubs, and from there to
`isr_common`. Some exceptions come with an error code that the processor pushed;
the other stubs push a dummy, so that the stack holds a `struct interrupt_frame`
whatever the vector is (`enter_some`). Leaving gives the interrupted context back
and takes the error code off the stack (`interrupt_round_trip`).
-/

namespace TupleOS.Interrupt

open TupleOS.Base

/-! ## The code -/

/-- `isr0` to `isr31` and `irq0` to `irq15`, up to the `jmp`. -/
def stubs : List (List Instr) :=
  [dummyStub 0, dummyStub 1, dummyStub 2, dummyStub 3, dummyStub 4, dummyStub 5, dummyStub 6,
    dummyStub 7, errorStub 8, dummyStub 9, errorStub 10, errorStub 11, errorStub 12, errorStub 13,
    errorStub 14, dummyStub 15, dummyStub 16, errorStub 17, dummyStub 18, dummyStub 19,
    dummyStub 20, errorStub 21, dummyStub 22, dummyStub 23, dummyStub 24, dummyStub 25,
    dummyStub 26, dummyStub 27, dummyStub 28, errorStub 29, errorStub 30, dummyStub 31,
    dummyStub 32, dummyStub 33, dummyStub 34, dummyStub 35, dummyStub 36, dummyStub 37,
    dummyStub 38, dummyStub 39, dummyStub 40, dummyStub 41, dummyStub 42, dummyStub 43,
    dummyStub 44, dummyStub 45, dummyStub 46, dummyStub 47]

def Stubs.codeAt (Y : Stubs) (a : Word) : Option (List Instr) :=
  match (List.range 48).find? fun v => Y.entry v = a with
  | some v => stubs[v]?
  | none => none

structure Tables where
  gdtr : TableReg
  idtr : TableReg

/-- The processor goes through the gate of a vector; `none` is another fault. -/
def deliver (T : Tables) (m : Cpu) (vector : Nat) (error : Option Word) : Option Cpu :=
  match T.idtr.gate m.mem vector with
  | none => none
  | some g =>
    match T.gdtr.segment m.mem g.selector with
    | none => none
    | some c =>
      if c.LoadsCode then
        let m := m.interrupt g.selector (BitVec.ofNat 32 g.offset)
        some (match error with
          | some e => m.push e
          | none => m)
      else none

/-- From the interrupt to the first instruction of `interrupt_handler`. -/
def Stubs.enter (Y : Stubs) (T : Tables) (m : Cpu) (vector : Nat) (error : Option Word) :
    Option Cpu :=
  match deliver T m vector error with
  | none => none
  | some m =>
    match Y.codeAt m.eip with
    | none => none
    | some code => some (m.run
        (code ++ .jmp Y.isrCommon :: isrCommonEntry Y.interruptHandler Y.isrReturn))

/-! ## Entry -/

/-- The gates and the code segment are in place, and the stubs are apart. -/
structure Installed (Y : Stubs) (T : Tables) (mem : Bytes) : Prop where
  gate : ∀ v < 48, T.idtr.gate mem v = some (Y.gate v)
  code : ∃ c, T.gdtr.segment mem 0x08 = some c ∧ c.LoadsCode
  apart : ∀ v < 48, ∀ w < 48, Y.entry v = Y.entry w → v = w

section Entry

variable {Y : Stubs} {T : Tables} {m : Cpu} {v : Nat} {error : Option Word}

/-- What the stub of a vector pushes. -/
def stubOf (v : Nat) : List Instr :=
  if pushesErrorCode v then errorStub (BitVec.ofNat 32 v) else dummyStub (BitVec.ofNat 32 v)

theorem stubs_get (hv : v < 48) : stubs[v]? = some (stubOf v) := by
  interval_cases v <;> rfl

theorem Installed.codeAt (h : Installed Y T m.mem) (hv : v < 48) :
    Y.codeAt (Y.entry v) = some (stubOf v) := by
  have hfind : ((List.range 48).find? fun w => Y.entry w = Y.entry v) = some v := by
    cases hf : (List.range 48).find? fun w => Y.entry w = Y.entry v with
    | none =>
      have := List.find?_eq_none.mp hf v (List.mem_range.mpr hv)
      simp at this
    | some w =>
      have hw : w < 48 := List.mem_range.mp (List.mem_of_find?_eq_some hf)
      have he : Y.entry w = Y.entry v := by simpa using List.find?_some hf
      rw [h.apart w hw v hv he]
  unfold Stubs.codeAt
  rw [hfind]
  exact stubs_get hv

/-- The processor at the first instruction of the stub. -/
def Stubs.gated (Y : Stubs) (m : Cpu) (v : Nat) (error : Option Word) : Cpu :=
  match error with
  | some e => (m.interrupt 0x08 (Y.entry v)).push e
  | none => m.interrupt 0x08 (Y.entry v)

theorem gated_eip : (Y.gated m v error).eip = Y.entry v := by
  cases error <;> rfl

theorem Installed.deliver (h : Installed Y T m.mem) (hv : v < 48) :
    deliver T m v error = some (Y.gated m v error) := by
  obtain ⟨c, hc, hl⟩ := h.code
  have haddr : BitVec.ofNat 32 (Y.gate v).offset = Y.entry v := by
    simp [Stubs.gate]
  unfold Interrupt.deliver
  rw [h.gate v hv]
  simp only [haddr]
  rw [show (Y.gate v).selector = 0x08 from rfl, hc]
  exact if_pos hl

theorem stub_pushed (herr : error.isSome = pushesErrorCode v) (hroom : 64 ≤ m.sp) :
    Pushed m ((Y.gated m v error).run (stubOf v))
      [BitVec.ofNat 32 v, error.getD 0, m.eip, m.cs.setWidth 32, m.eflags] := by
  have h1 := Pushed.interrupt m 0x08 (Y.entry v) (by omega)
  unfold stubOf
  cases error with
  | some e =>
    rw [if_pos (show pushesErrorCode v = true from herr.symm)]
    exact (h1.push e (by simp; omega)).push (BitVec.ofNat 32 v) (by simp; omega)
  | none =>
    rw [if_neg (by rw [← herr]; exact Bool.false_ne_true)]
    exact (h1.push 0 (by simp; omega)).push (BitVec.ofNat 32 v) (by simp; omega)

theorem stub_regs (Y : Stubs) (m : Cpu) (v : Nat) (error : Option Word) :
    (∀ r, r ≠ .esp → ((Y.gated m v error).run (stubOf v)).reg r = m.reg r) ∧
    ((Y.gated m v error).run (stubOf v)).seg = m.seg := by
  unfold Stubs.gated stubOf errorStub dummyStub
  cases error <;> cases pushesErrorCode v <;>
    exact ⟨fun r hr => by simp [Cpu.run, Cpu.exec, hr], rfl⟩

/-- **Entry**: for each of the 48 vectors, `interrupt_handler` is called with a frame that
holds the interrupted state, the vector, and the error code or `0`. -/
theorem enter_some (h : Installed Y T m.mem) (hv : v < 48)
    (herr : error.isSome = pushesErrorCode v) (hroom : 64 ≤ m.sp) :
    ∃ m₁ fp esp, Y.enter T m v error = some m₁ ∧ m₁.eip = Y.interruptHandler ∧
      m₁.seg = (fun _ => 0x10) ∧ fp.toNat = m₁.sp + 8 ∧
      Pushed m m₁ (Y.isrReturn :: fp ::
        interruptFrame m esp (BitVec.ofNat 32 v) (error.getD 0)) := by
  obtain ⟨hreg, hseg⟩ := stub_regs Y m v error
  have hb := (stub_pushed (Y := Y) herr hroom).same
    (n := ((Y.gated m v error).run (stubOf v)).exec (.jmp Y.isrCommon)) rfl rfl
  obtain ⟨fp, esp, hfp, hp⟩ := common_pushed Y.interruptHandler Y.isrReturn hb hreg hseg hroom
  refine ⟨_, fp, esp, ?_, common_eip _ _ _, common_seg _ _ _, hfp, hp⟩
  unfold Stubs.enter
  rw [h.deliver hv]
  simp only [gated_eip, h.codeAt hv, Cpu.run_append]
  rfl

end Entry

/-! ## From the tables that the kernel builds -/

/-- Where the linker put the tables and the operands of `lgdt` and `lidt`. -/
structure TableLayout where
  gdt : Nat
  gp : Nat
  idt : Nat
  idtp : Nat
  gdt_lt : gdt < 2 ^ 32
  idt_lt : idt < 2 ^ 32
  gp_apart : gp + 6 ≤ gdt ∨ gdt + 24 ≤ gp
  idtp_apart : idtp + 6 ≤ idt ∨ idt + 8 * 256 ≤ idtp
  tables_apart : idt + 8 * 256 ≤ gdt ∨ gdt + 24 ≤ idt
  gp_idt_apart : gp + 6 ≤ idt ∨ idt + 8 * 256 ≤ gp
  gdt_idtp_apart : idtp + 6 ≤ gdt ∨ gdt + 24 ≤ idtp

namespace TableLayout

def init (K : TableLayout) (mem : Bytes) (Y : Stubs) : Bytes :=
  idtInit (gdtInit mem K.gdt K.gp) K.idt K.idtp Y

def registers (K : TableLayout) (mem : Bytes) (Y : Stubs) : Tables where
  gdtr := tableRegAt (gdtInit mem K.gdt K.gp) K.gp
  idtr := tableRegAt (K.init mem Y) K.idtp

/-- The tables are as the kernel built them. -/
structure Kept (K : TableLayout) (mem₀ : Bytes) (Y : Stubs) (mem : Bytes) : Prop where
  gdt : AgreeOn (K.init mem₀ Y) mem K.gdt (K.gdt + 24)
  idt : AgreeOn (K.init mem₀ Y) mem K.idt (K.idt + 8 * 256)

variable {K : TableLayout} {mem₀ mem : Bytes} {Y : Stubs}

theorem registers_eq (hz : ∀ x, InWin K.idt (K.idt + 8 * 256) x → mem₀ x = 0) :
    K.registers mem₀ Y = ⟨⟨23, K.gdt⟩, ⟨2047, K.idt⟩⟩ ∧
      ∀ v, (⟨2047, K.idt⟩ : TableReg).gate (K.init mem₀ Y) v =
        if v < 48 then some (Y.gate v) else none := by
  have hz' : ∀ x, InWin K.idt (K.idt + 8 * 256) x → gdtInit mem₀ K.gdt K.gp x = 0 := by
    intro x hx
    have h1 := K.gp_idt_apart
    have h2 := K.tables_apart
    have hag : AgreeOn mem₀ (gdtInit mem₀ K.gdt K.gp) K.idt (K.idt + 8 * 256) := by
      unfold gdtInit
      refine AgreeOn.trans (AgreeOn.trans (AgreeOn.trans (AgreeOn.trans (store16_agree mem₀ ?_)
        (store32_agree _ ?_)) (gdtSetEntry_agree ?_)) (gdtSetEntry_agree ?_))
        (gdtSetEntry_agree ?_) <;> omega
    rw [hag x hx, hz x hx]
  obtain ⟨hreg, hgate⟩ := idtInit_gate (Y := Y) K.idt_lt K.idtp_apart hz'
  obtain ⟨hgreg, -, -⟩ := gdtInit_entries mem₀ K.gdt_lt K.gp_apart
  refine ⟨?_, hgate⟩
  unfold registers
  rw [hgreg, show tableRegAt (K.init mem₀ Y) K.idtp = _ from hreg]

theorem Kept.installed (h : K.Kept mem₀ Y mem)
    (hz : ∀ x, InWin K.idt (K.idt + 8 * 256) x → mem₀ x = 0)
    (hY : ∀ v < 48, ∀ w < 48, Y.entry v = Y.entry w → v = w) :
    Installed Y (K.registers mem₀ Y) mem := by
  obtain ⟨hregs, hgate⟩ := registers_eq (Y := Y) hz
  obtain ⟨-, hcode, -⟩ := gdtInit_entries mem₀ K.gdt_lt K.gp_apart
  rw [hregs]
  refine ⟨fun v hv => ?_, ⟨flatCode, ?_, by decide⟩, hY⟩
  · have hg := hgate v
    rw [if_pos hv] at hg
    rw [← hg]
    unfold TableReg.gate
    rw [gateAt_congr (h.idt.mono (Nat.le_add_right _ _) (by omega))]
  · have h1 := K.tables_apart
    have h2 := K.gdt_idtp_apart
    have hag : AgreeOn (gdtInit mem₀ K.gdt K.gp) mem (K.gdt + 8) (K.gdt + 8 + 8) := by
      refine AgreeOn.trans ?_ (h.gdt.mono (by omega) (by omega))
      exact ((store16_agree _ (by omega)).trans (store32_agree _ (by omega))).trans
        (idtEntries_agree (by omega))
    exact congrArg some ((segmentAt_congr hag).trans hcode)

end TableLayout

/-- **Interrupts are transparent**: with the tables that `gdt_init` and `idt_init` built,
every one of the 48 vectors calls `interrupt_handler` with a frame that holds the
interrupted state, the vector and the error code, and a handler that keeps to the calling
convention comes back to the context and the stack that were interrupted. -/
theorem interrupt_round_trip {K : TableLayout} {Y : Stubs} {mem₀ : Bytes} {m : Cpu} {v : Nat}
    {error : Option Word} (hz : ∀ x, InWin K.idt (K.idt + 8 * 256) x → mem₀ x = 0)
    (hY : ∀ v < 48, ∀ w < 48, Y.entry v = Y.entry w → v = w) (hK : K.Kept mem₀ Y m.mem)
    (hv : v < 48) (herr : error.isSome = pushesErrorCode v) (hroom : 64 ≤ m.sp)
    (hseg : ∀ s, m.seg s = m.seg .ds) :
    ∃ m₁ esp, Y.enter (K.registers mem₀ Y) m v error = some m₁ ∧ m₁.eip = Y.interruptHandler ∧
      Words m₁.mem (m₁.top 4).toNat (interruptFrame m esp (BitVec.ofNat 32 v) (error.getD 0)) ∧
      ∀ m₂ hi, Returned 4 hi m₁ m₂ → m.sp ≤ hi → m₂.eip = Y.isrReturn ∧
        SameContext m (isrLeave m₂) ∧ AgreeOn m.mem (isrLeave m₂).mem m.sp hi := by
  obtain ⟨m₁, fp, esp, he, heip, -, hfp, hp⟩ := enter_some (hK.installed hz hY) hv herr hroom
  have hlt : m.sp < 2 ^ 32 := (m.reg .esp).isLt
  have hsp := hp.sp
  have htop : Top m₁ (Y.isrReturn :: fp ::
      interruptFrame m esp (BitVec.ofNat 32 v) (error.getD 0)) := ⟨hp.words, by omega⟩
  have hfp' : m₁.top 4 = fp := htop.get 1 rfl
  refine ⟨m₁, esp, he, heip, ?_, fun m₂ hi hret hhi => ?_⟩
  · rw [hfp', hfp]
    exact hp.words.2.2
  · exact ⟨hret.eip.trans (htop.get 0 rfl), leave_context hroom hp hret hhi hseg⟩

/-! ## A kernel image -/

def sampleTables : TableLayout where
  gdt := 0xC0110000
  gp := 0xC0110018
  idt := 0xC0111000
  idtp := 0xC0111800
  gdt_lt := by decide
  idt_lt := by decide
  gp_apart := by decide
  idtp_apart := by decide
  tables_apart := by decide
  gp_idt_apart := by decide
  gdt_idtp_apart := by decide

/-- Stubs of 16 bytes, one after the other. -/
def sampleStubs : Stubs where
  isr n := BitVec.ofNat 32 (0xC0101000 + 16 * n)
  irq n := BitVec.ofNat 32 (0xC0101200 + 16 * n)
  isrCommon := 0xC0101300
  interruptHandler := 0xC0102000
  isrReturn := 0xC0101320

theorem sampleStubs_apart : ∀ v < 48, ∀ w < 48, sampleStubs.entry v = sampleStubs.entry w →
    v = w := by
  have hentry : ∀ v < 48, (sampleStubs.entry v).toNat = 0xC0101000 + 16 * v := by
    intro v hv
    unfold Stubs.entry sampleStubs
    split
    · rw [BitVec.toNat_ofNat]; omega
    · rw [BitVec.toNat_ofNat]; omega
  intro v hv w hw he
  have := congrArg BitVec.toNat he
  rw [hentry v hv, hentry w hw] at this
  omega

/-- A processor in kernel code, with the tables just built. -/
def sampleCpu : Cpu where
  reg := fun r => if r = .esp then 0xC0200000 else 7
  seg := fun _ => 0x10
  cs := 0x08
  eip := 0xC0105000
  eflags := 0x202
  mem := sampleTables.init (fun _ => 0) sampleStubs

theorem sampleCpu_kept : sampleTables.Kept (fun _ => 0) sampleStubs sampleCpu.mem :=
  ⟨.refl _ _ _, .refl _ _ _⟩

/-- The theorem at a page fault. -/
theorem interrupt_round_trip_fault : ∃ m₁ esp,
    sampleStubs.enter (sampleTables.registers (fun _ => 0) sampleStubs) sampleCpu 14 (some 2) =
      some m₁ ∧
    Words m₁.mem (m₁.top 4).toNat
      [0x10, 7, 7, 7, esp, 7, 7, 7, 7, 14, 2, 0xC0105000, 0x08, 0x202] := by
  obtain ⟨m₁, esp, he, -, hw, -⟩ := interrupt_round_trip (fun _ _ => rfl)
    sampleStubs_apart sampleCpu_kept (show 14 < 48 by decide)
    (show (some (2 : Word)).isSome = pushesErrorCode 14 from rfl) (show 64 ≤ 0xC0200000 by decide)
    (fun _ => rfl)
  exact ⟨m₁, esp, he, hw⟩

end TupleOS.Interrupt
