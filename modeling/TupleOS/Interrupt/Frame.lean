import TupleOS.Base.X86

/-!
# The interrupt frame (`boot/interrupts.asm`)

A stub pushes an error code, if the processor has not, and the vector, and goes to
`isr_common`, which saves the registers and calls `interrupt_handler` with the frame
(`common_pushed`). After the call it takes the frame off again (`isrLeave`). A handler that
keeps to the calling convention thereby gives back the context that was interrupted
(`leave_context`).
-/

namespace TupleOS.Interrupt

open TupleOS.Base

/-! ## The code -/

/-- A stub that pushes a dummy error code. -/
def dummyStub (n : Word) : List Instr := [.pushImm 0, .pushImm n]

/-- A stub for an exception with an error code. -/
def errorStub (n : Word) : List Instr := [.pushImm n]

/-- `isr_common` up to the call of `interrupt_handler`, which comes back to `isrReturn`. -/
def isrCommonEntry (interruptHandler isrReturn : Word) : List Instr :=
  [.pusha, .movAxSeg .ds, .pushReg .eax, .movAxImm 0x10, .movSegAx .ds, .movSegAx .es,
    .movSegAx .fs, .movSegAx .gs, .pushReg .esp, .call interruptHandler isrReturn]

def isrExit : List Instr :=
  [.addImm .esp 4, .popReg .eax, .movSegAx .ds, .movSegAx .es, .movSegAx .fs, .movSegAx .gs,
    .popa, .addImm .esp 8, .iret]

def isrLeave (m : Cpu) : Cpu := m.run isrExit

/-- What a thread can tell of an interruption: all registers, flags and segments. -/
structure SameContext (m m' : Cpu) : Prop where
  reg : m'.reg = m.reg
  eip : m'.eip = m.eip
  eflags : m'.eflags = m.eflags
  cs : m'.cs = m.cs
  seg : m'.seg = m.seg

/-- `struct interrupt_frame`, from `ds` upwards; `esp` is what `pusha` stored for `%esp`,
which no code reads. -/
def interruptFrame (m : Cpu) (esp number error : Word) : List Word :=
  [setLowHalf (m.reg .eax) (m.seg .ds), m.reg .edi, m.reg .esi, m.reg .ebp, esp,
    m.reg .ebx, m.reg .edx, m.reg .ecx, m.reg .eax, number, error, m.eip, m.cs.setWidth 32,
    m.eflags]

/-! ## Entry -/

section Entry

variable {m b : Cpu} {number error : Word}

theorem save_pushed (h : Pushed m b [number, error, m.eip, m.cs.setWidth 32, m.eflags])
    (hreg : ∀ r, r ≠ .esp → b.reg r = m.reg r) (hseg : b.seg = m.seg) (hroom : 64 ≤ m.sp) :
    ∃ esp, Pushed m (b.run [.pusha, .movAxSeg .ds, .pushReg .eax])
      (interruptFrame m esp number error) := by
  have h1 := h.pushAll (by simp; omega)
  have h2 := (h1.same (n := b.pushAll.exec (.movAxSeg .ds)) (by simp [Cpu.exec]) rfl).push
    (setLowHalf (m.reg .eax) (m.seg .ds)) (by simp; omega)
  have he : b.run [.pusha, .movAxSeg .ds, .pushReg .eax] =
      (b.pushAll.exec (.movAxSeg .ds)).push (setLowHalf (m.reg .eax) (m.seg .ds)) := by
    rw [← hreg .eax (by decide), ← hseg]
    simp [Cpu.run, Cpu.exec]
  refine ⟨b.reg .esp, ?_⟩
  rw [he]
  simpa [interruptFrame, hreg] using h2

theorem common_eq (b : Cpu) (interruptHandler isrReturn : Word) :
    ∃ f : Cpu, f.sp = (b.run [.pusha, .movAxSeg .ds, .pushReg .eax]).sp ∧
      f.mem = (b.run [.pusha, .movAxSeg .ds, .pushReg .eax]).mem ∧ f.seg = (fun _ => 0x10) ∧
      b.run (isrCommonEntry interruptHandler isrReturn) =
        (f.push (f.reg .esp)).exec (.call interruptHandler isrReturn) := by
  rw [show isrCommonEntry interruptHandler isrReturn = [.pusha, .movAxSeg .ds, .pushReg .eax] ++
    ([.movAxImm 0x10, .movSegAx .ds, .movSegAx .es, .movSegAx .fs, .movSegAx .gs] ++
      [.pushReg .esp, .call interruptHandler isrReturn]) from rfl, Cpu.run_append]
  generalize b.run [.pusha, .movAxSeg .ds, .pushReg .eax] = d
  refine ⟨d.run [.movAxImm 0x10, .movSegAx .ds, .movSegAx .es, .movSegAx .fs, .movSegAx .gs],
    ?_, rfl, ?_, by rw [Cpu.run_append]; rfl⟩
  · simp [Cpu.run, Cpu.exec, Cpu.setSeg, Cpu.sp]
  · funext s
    cases s <;> simp [Cpu.run, Cpu.exec, Cpu.setSeg, lowHalf_setLowHalf]

theorem common_seg (b : Cpu) (interruptHandler isrReturn : Word) :
    (b.run (isrCommonEntry interruptHandler isrReturn)).seg = fun _ => 0x10 := by
  obtain ⟨f, -, -, hseg, he⟩ := common_eq b interruptHandler isrReturn
  rw [he]
  exact hseg

theorem common_eip (b : Cpu) (interruptHandler isrReturn : Word) :
    (b.run (isrCommonEntry interruptHandler isrReturn)).eip = interruptHandler := by
  obtain ⟨f, -, -, -, he⟩ := common_eq b interruptHandler isrReturn
  rw [he]
  rfl

/-- **The stack of `isr_common` when it calls `interrupt_handler`**, on top of what a stub
pushed: the return address, the pointer to the frame, and the frame. -/
theorem common_pushed (interruptHandler isrReturn : Word)
    (h : Pushed m b [number, error, m.eip, m.cs.setWidth 32, m.eflags])
    (hreg : ∀ r, r ≠ .esp → b.reg r = m.reg r) (hseg : b.seg = m.seg) (hroom : 64 ≤ m.sp) :
    ∃ fp esp, fp.toNat = (b.run (isrCommonEntry interruptHandler isrReturn)).sp + 8 ∧
      Pushed m (b.run (isrCommonEntry interruptHandler isrReturn))
        (isrReturn :: fp :: interruptFrame m esp number error) := by
  obtain ⟨esp, hs⟩ := save_pushed h hreg hseg hroom
  obtain ⟨f, hsp, hmem, -, he⟩ := common_eq b interruptHandler isrReturn
  have h1 := (hs.same hsp hmem).push (f.reg .esp) (by simp [interruptFrame]; omega)
  have h2 := h1.push isrReturn (by simp [interruptFrame]; omega)
  have h3 : Pushed m (b.run (isrCommonEntry interruptHandler isrReturn))
      (isrReturn :: f.reg .esp :: interruptFrame m esp number error) := by
    rw [he]
    exact ⟨h2.sp, h2.words, h2.frame⟩
  refine ⟨f.reg .esp, esp, ?_, h3⟩
  have hl := h3.sp
  have hl' := hs.sp
  have hfp : (f.reg .esp).toNat = (b.run [.pusha, .movAxSeg .ds, .pushReg .eax]).sp := hsp
  simp only [List.length_cons] at hl
  omega

end Entry

/-! ## Exit -/

section Exit

variable {m m₁ m₂ r : Cpu} {hi : Nat} {a e number code : Word}

theorem isrLeave_eq (m : Cpu) :
    (isrLeave m).reg = (fun
      | .edi => m.top 8
      | .esi => m.top 12
      | .ebp => m.top 16
      | .esp => m.reg .esp + 60
      | .ebx => m.top 24
      | .edx => m.top 28
      | .ecx => m.top 32
      | .eax => m.top 36) ∧
    (isrLeave m).eip = m.top 48 ∧ (isrLeave m).cs = lowHalf (m.top 52) ∧
    (isrLeave m).eflags = m.top 56 ∧ (isrLeave m).seg = fun _ => lowHalf (m.top 4) := by
  simp only [isrLeave, isrExit, Cpu.run, List.foldl_cons, List.foldl_nil, Cpu.exec, Cpu.popAll,
    Cpu.popReg, Cpu.drop, Cpu.setSeg, Cpu.top, Cpu.load]
  refine ⟨?_, ?_, ?_, ?_, ?_⟩
  · funext r
    cases r <;> simp [BitVec.add_assoc]
  · simp [BitVec.add_assoc]
  · simp [BitVec.add_assoc]
  · simp [BitVec.add_assoc]
  · funext s
    cases s <;> simp [BitVec.add_assoc]

theorem isrLeave_mem (m : Cpu) : (isrLeave m).mem = m.mem := rfl

/-- **Leaving with the frame of `r` on the stack gives back the context of `r`.** -/
theorem isrLeave_frame (h : Top m (a :: interruptFrame r e number code))
    (hesp : m.reg .esp + 60 = r.reg .esp) (hseg : ∀ s, r.seg s = r.seg .ds) :
    SameContext r (isrLeave m) := by
  obtain ⟨h1, h2, h3, h4, h5⟩ := isrLeave_eq m
  have hget := fun i w hi => h.get i (w := w) hi
  refine ⟨?_, ?_, ?_, ?_, ?_⟩
  · rw [h1]
    funext x
    cases x with
    | edi => exact hget 2 _ rfl
    | esi => exact hget 3 _ rfl
    | ebp => exact hget 4 _ rfl
    | esp => exact hesp
    | ebx => exact hget 6 _ rfl
    | edx => exact hget 7 _ rfl
    | ecx => exact hget 8 _ rfl
    | eax => exact hget 9 _ rfl
  · rw [h2]; exact hget 12 _ rfl
  · rw [h4]; exact hget 14 _ rfl
  · rw [h3, show m.top 52 = r.cs.setWidth 32 from hget 13 _ rfl]
    simp [lowHalf]
  · rw [h5, show m.top 4 = setLowHalf (r.reg .eax) (r.seg .ds) from hget 1 _ rfl,
      lowHalf_setLowHalf]
    funext s
    exact (hseg s).symm

/-- A handler that keeps to the calling convention comes back to the context it
interrupted, and to its stack. -/
theorem leave_context {isrReturn fp esp : Word} (hroom : 64 ≤ m.sp)
    (hp : Pushed m m₁ (isrReturn :: fp :: interruptFrame m esp number code))
    (hret : Returned 4 hi m₁ m₂) (hhi : m.sp ≤ hi) (hseg : ∀ s, m.seg s = m.seg .ds) :
    SameContext m (isrLeave m₂) ∧ AgreeOn m.mem (isrLeave m₂).mem m.sp hi := by
  have hsp := hp.sp
  have hlt : m.sp < 2 ^ 32 := (m.reg .esp).isLt
  simp only [List.length_cons, interruptFrame, List.length_nil] at hsp
  have h4 : BitVec.toNat (4 : Word) = 4 := rfl
  have h60 : BitVec.toNat (60 : Word) = 60 := rfl
  have hmsp : m₂.sp = m₁.sp + 4 := by
    unfold Cpu.sp at *
    rw [hret.esp, BitVec.toNat_add, h4]
    omega
  obtain ⟨-, -, hw⟩ := hp.words
  have hframe : Words m₂.mem (m₂.sp + 4) (interruptFrame m esp number code) := by
    rw [hmsp]
    refine hw.congr (hret.frame.mono (by omega) ?_)
    simp only [interruptFrame, List.length_cons, List.length_nil]
    omega
  refine ⟨isrLeave_frame (a := BitVec.ofNat 32 (load32 m₂.mem m₂.sp)) (e := esp)
    ⟨⟨?_, hframe⟩, ?_⟩ ?_ hseg, fun x hx => ?_⟩
  · rw [BitVec.toNat_ofNat, Nat.mod_eq_of_lt (load32_lt _ _)]
  · simp only [interruptFrame, List.length_cons, List.length_nil]
    omega
  · apply BitVec.eq_of_toNat_eq
    rw [BitVec.toNat_add, h60]
    unfold Cpu.sp at *
    omega
  · obtain ⟨hx1, hx2⟩ := hx
    rw [isrLeave_mem, hret.frame x ⟨by omega, hx2⟩]
    exact hp.frame x (by unfold InWin; omega)

end Exit

end TupleOS.Interrupt
