import TupleOS.Interrupt.Frame
import TupleOS.Process.Table

/-!
# The timer interrupt and the stack switch (`boot/interrupts.asm`, `boot/context_switch.asm`)

The timer interrupt enters the kernel through `irq0` and `isr_common` (`isrEnter`), with
the frame of any interrupt on the stack (`isrEnter_pushed`). `contextSwitch_old` and
`contextSwitch_new` describe `context_switch` on the stack it leaves and on the
stack it goes to.
-/

namespace TupleOS.Process

open TupleOS.Base TupleOS.Interrupt

/-- Where the linker put the code and the tables. -/
structure Symbols where
  irq0 : Word
  isrCommon : Word
  interruptHandler : Word
  /-- After `call interrupt_handler` in `isr_common`. -/
  isrReturn : Word
  /-- After the call of `context_switch` in `schedule`. -/
  scheduleReturn : Word
  kthreadTrampoline : Word
  /-- The physical address of `page_directory`. -/
  pageDirectory : Nat
  /-- `&kernel_space`. -/
  kernelSpace : Nat
  /-- `&process_table[0]`. -/
  processTable : Nat
  /-- `stack_bottom` of `boot.asm`. -/
  bootStackBottom : Nat
  /-- `stack_top` of `boot.asm`. -/
  bootStackTop : Nat
  returns_ne : scheduleReturn ≠ kthreadTrampoline
  bootStackTop_lt : bootStackTop < 2 ^ 32
  bootStack_apart : bootStackTop ≤ processTable ∨
    processTable + 136 * maxProcesses ≤ bootStackBottom

/-- `&process_table[i].kernel_esp`, at offset 120 of a 136-byte `process_t`. -/
def Symbols.kernelEspAddr (Y : Symbols) (i : Slot) : Nat := Y.processTable + 136 * i + 120

/-! ## Entry -/

/-- `irq0` and `isr_common`, up to the call of `interrupt_handler`. -/
def isrEntry (Y : Symbols) : List Instr :=
  dummyStub 32 ++ .jmp Y.isrCommon :: isrCommonEntry Y.interruptHandler Y.isrReturn

/-- The timer interrupt, up to the first instruction of `interrupt_handler`. -/
def isrEnter (Y : Symbols) (m : Cpu) : Cpu := (m.interrupt 0x08 Y.irq0).run (isrEntry Y)

section Entry

variable (Y : Symbols) (m : Cpu)

theorem isrEnter_eq : isrEnter Y m =
    ((((m.interrupt 0x08 Y.irq0).push 0).push 32).exec (.jmp Y.isrCommon)).run
      (isrCommonEntry Y.interruptHandler Y.isrReturn) := by
  simp only [isrEnter, isrEntry, dummyStub, Cpu.run, List.cons_append, List.nil_append,
    List.foldl_cons]
  rfl

/-- **The stack when the timer calls `interrupt_handler`.** -/
theorem isrEnter_pushed (h : 64 ≤ m.sp) : ∃ fp esp, fp.toNat = (isrEnter Y m).sp + 8 ∧
    Pushed m (isrEnter Y m) (Y.isrReturn :: fp :: interruptFrame m esp 32 0) := by
  have h1 := Pushed.interrupt m 0x08 Y.irq0 (by omega)
  have h2 := (h1.push 0 (by simp; omega)).push 32 (by simp; omega)
  have h3 := h2.same (n := (((m.interrupt 0x08 Y.irq0).push 0).push 32).exec (.jmp Y.isrCommon))
    rfl rfl
  rw [isrEnter_eq]
  exact common_pushed Y.interruptHandler Y.isrReturn h3 (fun r hr => by simp [Cpu.exec, hr]) rfl h

theorem isrEnter_seg : (isrEnter Y m).seg = fun _ => 0x10 := by
  rw [isrEnter_eq]
  exact common_seg _ _ _

end Entry

/-! ## The switch -/

def contextSwitch : List Instr :=
  [.load .eax .esp 4, .load .ecx .esp 8, .pushReg .ebp, .pushReg .ebx, .pushReg .esi,
    .pushReg .edi, .store .esp .eax, .mov .esp .ecx, .popReg .edi, .popReg .esi, .popReg .ebx,
    .popReg .ebp, .ret]

section Switch

variable (m : Cpu)

def pushSaved : Cpu :=
  (((m.push (m.reg .ebp)).push (m.reg .ebx)).push (m.reg .esi)).push (m.reg .edi)

/-- Memory after `context_switch` has saved the old stack pointer. -/
def savedMem : Bytes := store32 (pushSaved m).mem (m.top 4).toNat (pushSaved m).sp

/-- `context_switch`, as a whole: everything it restores is read at the new stack
pointer, its second argument. -/
theorem contextSwitch_eq :
    (m.run contextSwitch).mem = savedMem m ∧ (m.run contextSwitch).seg = m.seg ∧
    (m.run contextSwitch).reg .edi = BitVec.ofNat 32 (load32 (savedMem m) (m.top 8).toNat) ∧
    (m.run contextSwitch).reg .esi = BitVec.ofNat 32 (load32 (savedMem m) (m.top 8 + 4).toNat) ∧
    (m.run contextSwitch).reg .ebx = BitVec.ofNat 32 (load32 (savedMem m) (m.top 8 + 8).toNat) ∧
    (m.run contextSwitch).reg .ebp = BitVec.ofNat 32 (load32 (savedMem m) (m.top 8 + 12).toNat) ∧
    (m.run contextSwitch).eip = BitVec.ofNat 32 (load32 (savedMem m) (m.top 8 + 16).toNat) ∧
    (m.run contextSwitch).reg .esp = m.top 8 + 20 := by
  simp only [contextSwitch, Cpu.run, List.foldl_cons, List.foldl_nil, Cpu.exec, Cpu.popReg,
    Cpu.drop, savedMem, pushSaved, Cpu.push, Cpu.store, Cpu.top, Cpu.load, Cpu.sp]
  refine ⟨?_, ?_, ?_, ?_, ?_, ?_, ?_, ?_⟩ <;> simp [BitVec.add_assoc]

variable {m}

theorem pushSaved_pushed (h : 16 ≤ m.sp) :
    Pushed m (pushSaved m) [m.reg .edi, m.reg .esi, m.reg .ebx, m.reg .ebp] := by
  have h1 := (Pushed.refl m).push (m.reg .ebp) (by rw [List.length_nil]; omega)
  have h2 := h1.push (m.reg .ebx) (by simp only [List.length_cons, List.length_nil]; omega)
  have h3 := h2.push (m.reg .esi) (by simp only [List.length_cons, List.length_nil]; omega)
  exact h3.push (m.reg .edi) (by simp only [List.length_cons, List.length_nil]; omega)

/-- **The stack that `context_switch` leaves**: four registers below the return
address, and their address in `*old_esp_ptr`. Nothing else is written. -/
theorem contextSwitch_old (h : 16 ≤ m.sp)
    (ha : (m.top 4).toNat + 4 ≤ m.sp - 16 ∨ m.sp ≤ (m.top 4).toNat) :
    Words (savedMem m) (m.sp - 16) [m.reg .edi, m.reg .esi, m.reg .ebx, m.reg .ebp] ∧
    load32 (savedMem m) (m.top 4).toNat = m.sp - 16 ∧
    ∀ x, ¬ InWin (m.sp - 16) m.sp x → ¬ InWin (m.top 4).toNat ((m.top 4).toNat + 4) x →
      savedMem m x = m.mem x := by
  have hp := pushSaved_pushed h
  have hsp : (pushSaved m).sp = m.sp - 16 := by
    have := hp.sp
    simp only [List.length_cons, List.length_nil] at this
    omega
  have hlt : (pushSaved m).sp < 2 ^ 32 := ((pushSaved m).reg .esp).isLt
  unfold savedMem
  refine ⟨?_, ?_, fun x hx hx' => ?_⟩
  · have hw := hp.words
    rw [hsp] at hw
    refine hw.congr (store32_agree _ ?_)
    simp only [List.length_cons, List.length_nil]
    omega
  · rw [load32_store32 _ _ hlt, hsp]
  · rw [store32_out (by unfold InWin at hx'; omega)]
    refine hp.frame x ?_
    rw [hsp]
    exact hx

/-- **The stack that `context_switch` goes to**: four registers and a return address. -/
theorem contextSwitch_new {edi esi ebx ebp eip : Word}
    (h : Words (savedMem m) (m.top 8).toNat [edi, esi, ebx, ebp, eip])
    (hb : (m.top 8).toNat + 20 < 2 ^ 32) :
    (m.run contextSwitch).reg .edi = edi ∧ (m.run contextSwitch).reg .esi = esi ∧
    (m.run contextSwitch).reg .ebx = ebx ∧ (m.run contextSwitch).reg .ebp = ebp ∧
    (m.run contextSwitch).eip = eip ∧ (m.run contextSwitch).sp = (m.top 8).toNat + 20 := by
  obtain ⟨-, -, h1, h2, h3, h4, h5, h6⟩ := contextSwitch_eq m
  have hat : ∀ i, i ≤ 5 →
      (m.top 8 + BitVec.ofNat 32 (4 * i)).toNat = (m.top 8).toNat + 4 * i := by
    intro i hi
    rw [BitVec.toNat_add, BitVec.toNat_ofNat]
    omega
  have hget : ∀ i w, [edi, esi, ebx, ebp, eip][i]? = some w → i ≤ 5 → BitVec.ofNat 32
      (load32 (savedMem m) (m.top 8 + BitVec.ofNat 32 (4 * i)).toNat) = w := by
    intro i w hw hi
    rw [hat i hi, h.get hw, BitVec.ofNat_toNat, BitVec.setWidth_eq]
  have h0 : m.top 8 = m.top 8 + BitVec.ofNat 32 (4 * 0) := by simp
  rw [h0] at h1
  exact ⟨h1.trans (hget 0 _ rfl (by omega)), h2.trans (hget 1 _ rfl (by omega)),
    h3.trans (hget 2 _ rfl (by omega)), h4.trans (hget 3 _ rfl (by omega)),
    h5.trans (hget 4 _ rfl (by omega)), (congrArg BitVec.toNat h6).trans (hat 5 (by omega))⟩

end Switch

end TupleOS.Process
