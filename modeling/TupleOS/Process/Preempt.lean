import TupleOS.Process.Create

/-!
# Preemption is transparent

The machine runs one thread at a time. A timer tick saves its context in four
layers (the interrupt frame, `isr_common`, the C frames down to `schedule`, and
`context_switch`) and goes on with another thread, which it takes up where that
one was left. Compiled C is any code that follows the i386 convention (`CCode`);
a thread writes its own stack and memory outside the stacks (`KeepsStacks`).

`Suspended` says what the stack of a thread that was switched out holds. Nothing
another thread does changes it (`Suspended.frame`), and resuming from it gives
back the interrupted context (`Suspended.resume`).
-/

namespace TupleOS.Process

open TupleOS.Base TupleOS.Interrupt

/-! ## Stacks -/

structure Window where
  lo : Nat
  hi : Nat

/-- PID 0 runs on the boot stack, every other process on its own 8 KB. -/
def stackOf (Y : Symbols) (k : ProcTable) (i : Slot) : Window :=
  if i = 0 then ⟨Y.bootStackBottom, Y.bootStackTop⟩
  else ⟨(k.process i).kernelStack, (k.process i).kernelStack + kernelStackSize⟩

/-- The window is a place for a stack: clear of the other runnable processes' stacks
and of the saved stack pointers in `process_table`. -/
structure Clear (Y : Symbols) (k : ProcTable) (w : Window) (i : Slot) : Prop where
  below : w.hi < 2 ^ 32
  table : ∀ j, Y.kernelEspAddr j + 4 ≤ w.lo ∨ w.hi ≤ Y.kernelEspAddr j
  apart : ∀ j, j ≠ i → (k.process j).Runnable →
    w.hi ≤ (stackOf Y k j).lo ∨ (stackOf Y k j).hi ≤ w.lo

/-- The stacks of runnable processes are apart. -/
def StacksApart (Y : Symbols) (k : ProcTable) : Prop :=
  ∀ i, (k.process i).Runnable → Clear Y k (stackOf Y k i) i

/-- What process `c` writes is in no other runnable process's stack. -/
def KeepsStacks (Y : Symbols) (k : ProcTable) (c : Slot) (mem mem' : Bytes) : Prop :=
  ∀ i, i ≠ c → (k.process i).Runnable → AgreeOn mem mem' (stackOf Y k i).lo (stackOf Y k i).hi

/-! ## The machine -/

/-- The processor with its memory, and the process table. -/
structure Sys where
  cpu : Cpu
  procs : ProcTable

/-- Compiled C between the pieces of assembly, on a stack that ends at a given
address. `toSwitch` is `interrupt_handler`, `timer_handler` and `schedule` up to the
call of `context_switch`, and `fromSwitch` the rest after that call returned; they
follow the i386 convention as one function does that calls another. Neither C
function writes the frame it is passed. -/
structure CCode where
  /-- `interrupt_handler` when `schedule` does not switch. -/
  handle : Nat → Cpu → Cpu → Prop
  toSwitch : Nat → Cpu → Cpu → Prop
  fromSwitch : Nat → Cpu → Cpu → Prop
  /-- `kthread_exit` and `schedule` up to the call of `context_switch`. -/
  exitToSwitch : Nat → Cpu → Cpu → Prop
  handle_returned : ∀ {hi m m'}, handle hi m m' → Returned 4 hi m m'
  switch_returned : ∀ {hi m m₁ m₂ m₃}, toSwitch hi m m₁ → Returned 8 hi m₁ m₂ →
    fromSwitch hi m₂ m₃ → Returned 4 hi m m₃

/-- `schedule` calls `context_switch(&old->kernel_esp, next->kernel_esp)`, with room
left on the stack. -/
structure CallsSwitch (Y : Symbols) (k : ProcTable) (sw : Switch) (m : Cpu) : Prop where
  ret : m.top 0 = Y.scheduleReturn
  old : (m.top 4).toNat = Y.kernelEspAddr sw.old
  new : (m.top 8).toNat = (k.process sw.next).kernelEsp
  lo : (stackOf Y k sw.old).lo + 16 ≤ m.sp
  hi : m.sp + 12 ≤ (stackOf Y k sw.old).hi

/-- The table once `context_switch` has written `old->kernel_esp`. -/
def savedEsp (k : ProcTable) (sw : Switch) (esp : Nat) : ProcTable :=
  (k.switch sw).modify sw.old fun p => { p with kernelEsp := esp }

/-- From the return of `context_switch` to the thread's own code: a new thread
starts in `kthread_trampoline`, a preempted one goes back through `schedule`,
`interrupt_handler` and `isr_common`. -/
inductive Resumes (Y : Symbols) (C : CCode) (hi : Nat) (m : Cpu) : Cpu → Prop where
  | starts : m.eip = Y.kthreadTrampoline → Resumes Y C hi m m
  | returns {m'} : m.eip = Y.scheduleReturn → C.fromSwitch hi m m' → m'.eip = Y.isrReturn →
      Resumes Y C hi m (isrLeave m')

/-- Switching from the call `m` of `context_switch`. -/
structure Switches (Y : Symbols) (C : CCode) (k : ProcTable) (sw : Switch) (m : Cpu) (s' : Sys) :
    Prop where
  calls : CallsSwitch Y k sw m
  procs : s'.procs = savedEsp k sw (load32 (m.run contextSwitch).mem (Y.kernelEspAddr sw.old))
  resumes : Resumes Y C (stackOf Y k sw.next).hi (m.run contextSwitch) s'.cpu
  keeps : KeepsStacks Y s'.procs sw.next (m.run contextSwitch).mem s'.cpu.mem

/-- What `kthread_create` and `process_free` see of the machine, when the heap
answers `stack`. -/
def threadEnv (Y : Symbols) (stack : Nat) : ProcEnv Bytes where
  pagingGetDirectory := Y.pageDirectory
  vmmGetKernelSpace := Y.kernelSpace
  kthreadTrampoline := Y.kthreadTrampoline.toNat
  kmallocAligned m _ := some (stack, m)
  kfree m _ := some m
  vmmDestroyAddressSpace m _ := some m
  vmmSwitchAddressSpace m _ := some m
  store m a v := some (store32 m a v)

/-- The heap hands out a stack that is clear of all others, or `NULL`. -/
def HeapAnswer (Y : Symbols) (k : ProcTable) (stack : Nat) : Prop :=
  stack = 0 ∨ (∀ i, Clear Y k ⟨stack, stack + kernelStackSize⟩ i)

inductive SysOp where
  | code
  | create
  | free
  | tick
  | exit

/-- One step: the running thread executes code of its own, creates a thread or
frees a zombie, or the timer interrupts it, or it exits. -/
inductive SysStep (Y : Symbols) (C : CCode) (s : Sys) : SysOp → Sys → Prop where
  | code {c m} : s.procs.current = some c → KeepsStacks Y s.procs c s.cpu.mem m.mem →
      m.seg = s.cpu.seg → SysStep Y C s .code ⟨m, s.procs⟩
  | create {stack entry name r k mem} : HeapAnswer Y s.procs stack → entry < 2 ^ 32 →
      kthreadCreate (threadEnv Y stack) s.procs s.cpu.mem entry name = some (r, k, mem) →
      SysStep Y C s .create ⟨{ s.cpu with mem := mem }, k⟩
  | free {slot stack k mem} : (s.procs.process slot).state = .zombie →
      processFree (threadEnv Y stack) s.procs s.cpu.mem (some slot) = some (k, mem) →
      SysStep Y C s .free ⟨{ s.cpu with mem := mem }, k⟩
  | tick {c m} : s.procs.current = some c → s.cpu.InterruptsOn →
      (stackOf Y s.procs c).lo + 64 ≤ s.cpu.sp → s.cpu.sp ≤ (stackOf Y s.procs c).hi →
      pickNext s.procs = none → C.handle (stackOf Y s.procs c).hi (isrEnter Y s.cpu) m →
      KeepsStacks Y s.procs c (isrEnter Y s.cpu).mem m.mem →
      SysStep Y C s .tick ⟨isrLeave m, s.procs⟩
  | preempt {c m sw s'} : s.procs.current = some c → s.cpu.InterruptsOn →
      (stackOf Y s.procs c).lo + 64 ≤ s.cpu.sp → s.cpu.sp ≤ (stackOf Y s.procs c).hi →
      pickNext s.procs = some sw → C.toSwitch (stackOf Y s.procs c).hi (isrEnter Y s.cpu) m →
      KeepsStacks Y s.procs c (isrEnter Y s.cpu).mem m.mem → m.seg = (isrEnter Y s.cpu).seg →
      Switches Y C s.procs sw m s' → SysStep Y C s .tick s'
  | exit {c m sw s'} : s.procs.current = some c → pickNext (exitCurrent s.procs) = some sw →
      C.exitToSwitch (stackOf Y s.procs c).hi s.cpu m →
      KeepsStacks Y s.procs c s.cpu.mem m.mem → m.seg = s.cpu.seg →
      Switches Y C (exitCurrent s.procs) sw m s' → SysStep Y C s .exit s'

/-! ## What waits on a stack -/

/-- A thread that `kthread_create` made and that has not run. -/
structure Fresh (Y : Symbols) (k : ProcTable) (mem : Bytes) (i : Slot) : Prop where
  lo : (stackOf Y k i).lo ≤ (k.process i).kernelEsp
  hi : (k.process i).kernelEsp + 20 ≤ (stackOf Y k i).hi
  ret : load32 mem ((k.process i).kernelEsp + 16) = Y.kthreadTrampoline.toNat

/-- A thread that the timer interrupted in the context `r`, and that was switched
out in the call `m` of `context_switch`. -/
structure SuspendedAt (Y : Symbols) (C : CCode) (k : ProcTable) (mem : Bytes) (i : Slot)
    (r m : Cpu) : Prop where
  enter : C.toSwitch (stackOf Y k i).hi (isrEnter Y r) m
  room : (stackOf Y k i).lo + 64 ≤ r.sp
  inside : r.sp ≤ (stackOf Y k i).hi
  lo : (stackOf Y k i).lo + 16 ≤ m.sp
  hi : m.sp + 12 ≤ (stackOf Y k i).hi
  ret : m.top 0 = Y.scheduleReturn
  esp : (k.process i).kernelEsp = m.sp - 16
  words : Words mem (m.sp - 16)
    [m.reg .edi, m.reg .esi, m.reg .ebx, m.reg .ebp, Y.scheduleReturn]
  frame : AgreeOn m.mem mem (m.sp + 12) (stackOf Y k i).hi

def Suspended (Y : Symbols) (C : CCode) (k : ProcTable) (mem : Bytes) (i : Slot) (r : Cpu) : Prop :=
  ∃ m, SuspendedAt Y C k mem i r m

section Waiting

variable {Y : Symbols} {C : CCode} {k k' : ProcTable} {mem mem' : Bytes} {i c : Slot} {r : Cpu}

theorem stackOf_congr (h : (k'.process i).kernelStack = (k.process i).kernelStack) :
    stackOf Y k' i = stackOf Y k i := by
  unfold stackOf
  rw [h]

/-- The control block of `i` says the same about its stack. -/
def SameStack (k k' : ProcTable) (i : Slot) : Prop :=
  (k'.process i).kernelStack = (k.process i).kernelStack ∧
  (k'.process i).kernelEsp = (k.process i).kernelEsp

theorem Fresh.frame (h : Fresh Y k mem i) (hs : SameStack k k' i)
    (hm : AgreeOn mem mem' (stackOf Y k i).lo (stackOf Y k i).hi) : Fresh Y k' mem' i := by
  have hst := stackOf_congr (Y := Y) hs.1
  refine ⟨?_, ?_, ?_⟩
  · rw [hst, hs.2]; exact h.lo
  · rw [hst, hs.2]; exact h.hi
  · rw [hs.2, load32_congr (hm.mono _ _), h.ret]
    · have := h.lo; omega
    · have := h.hi; omega

/-- **Nothing that others do changes a suspended thread.** -/
theorem Suspended.frame (h : Suspended Y C k mem i r) (hs : SameStack k k' i)
    (hm : AgreeOn mem mem' (stackOf Y k i).lo (stackOf Y k i).hi) : Suspended Y C k' mem' i r := by
  obtain ⟨m, h⟩ := h
  have hst := stackOf_congr (Y := Y) hs.1
  have hlo := h.lo
  have hhi := h.hi
  refine ⟨m, ?_⟩
  constructor
  case enter => rw [hst]; exact h.enter
  case room => rw [hst]; exact h.room
  case inside => rw [hst]; exact h.inside
  case lo => rw [hst]; exact h.lo
  case hi => rw [hst]; exact h.hi
  case ret => exact h.ret
  case esp => rw [hs.2]; exact h.esp
  case words =>
    refine h.words.congr (hm.mono ?_ ?_)
    · omega
    · simp only [List.length_cons, List.length_nil]; omega
  case frame =>
    rw [hst]
    exact h.frame.trans (hm.mono (by omega) (by omega))

theorem context_of_returned {hi : Nat} {m : Cpu} (h : Returned 4 hi (isrEnter Y r) m)
    (hroom : 64 ≤ r.sp) (hhi : r.sp ≤ hi) (hseg : ∀ x, r.seg x = 0x10) :
    SameContext r (isrLeave m) := by
  obtain ⟨fp, esp, -, hp⟩ := isrEnter_pushed Y r hroom
  exact (leave_context hroom hp h hhi fun x => (hseg x).trans (hseg .ds).symm).1

theorem Fresh.eip {m : Cpu} (h : Fresh Y k (m.run contextSwitch).mem i)
    (hn : (m.top 8).toNat = (k.process i).kernelEsp) (hlt : (stackOf Y k i).hi < 2 ^ 32) :
    (m.run contextSwitch).eip = Y.kthreadTrampoline := by
  obtain ⟨hmem, -, -, -, -, -, heip, -⟩ := contextSwitch_eq m
  have hhi := h.hi
  have ha : (m.top 8 + 16).toNat = (k.process i).kernelEsp + 16 := by
    rw [BitVec.toNat_add, hn]
    have : BitVec.toNat (16 : Word) = 16 := rfl
    rw [this]
    omega
  rw [ha, ← hmem, h.ret, BitVec.ofNat_toNat, BitVec.setWidth_eq] at heip
  exact heip

theorem Fresh.resume {m m' : Cpu} (h : Fresh Y k (m.run contextSwitch).mem i)
    (hn : (m.top 8).toNat = (k.process i).kernelEsp) (hlt : (stackOf Y k i).hi < 2 ^ 32)
    (hr : Resumes Y C (stackOf Y k i).hi (m.run contextSwitch) m') : m' = m.run contextSwitch := by
  cases hr with
  | starts => rfl
  | returns he => exact absurd (he.symm.trans (h.eip hn hlt)) Y.returns_ne

/-- Switching back to a suspended thread looks to it like the return of its call of
`context_switch`. -/
theorem SuspendedAt.returned {m m₁ : Cpu} (h : SuspendedAt Y C k (m.run contextSwitch).mem i r m₁)
    (hn : (m.top 8).toNat = (k.process i).kernelEsp) (hlt : (stackOf Y k i).hi < 2 ^ 32) :
    (m.run contextSwitch).eip = Y.scheduleReturn ∧
    Returned 8 (stackOf Y k i).hi m₁ (m.run contextSwitch) := by
  have hlo := h.lo
  have hhi := h.hi
  have hw := h.words
  rw [(contextSwitch_eq m).1, ← h.esp, ← hn] at hw
  obtain ⟨hedi, hesi, hebx, hebp, heip, hsp⟩ := contextSwitch_new hw (by rw [hn, h.esp]; omega)
  rw [hn, h.esp] at hsp
  refine ⟨heip, heip.trans h.ret.symm, ?_, fun x hx => ?_, h.frame⟩
  · apply BitVec.eq_of_toNat_eq
    rw [BitVec.toNat_add]
    have : BitVec.toNat (4 : Word) = 4 := rfl
    rw [this]
    unfold Cpu.sp at *
    omega
  · simp only [calleeSaved, List.mem_cons, List.not_mem_nil, or_false] at hx
    rcases hx with rfl | rfl | rfl | rfl
    · exact hebx
    · exact hesi
    · exact hedi
    · exact hebp

/-- **A suspended thread resumes in the context it was interrupted in.** -/
theorem Suspended.resume {m m' : Cpu} (h : Suspended Y C k (m.run contextSwitch).mem i r)
    (hn : (m.top 8).toNat = (k.process i).kernelEsp) (hlt : (stackOf Y k i).hi < 2 ^ 32)
    (hseg : ∀ x, r.seg x = 0x10)
    (hr : Resumes Y C (stackOf Y k i).hi (m.run contextSwitch) m') : SameContext r m' := by
  obtain ⟨m₁, h⟩ := h
  obtain ⟨heip, hback⟩ := h.returned hn hlt
  cases hr with
  | starts he => exact absurd (heip.symm.trans he) Y.returns_ne
  | returns he hc hret =>
    exact context_of_returned (C.switch_returned h.enter hback hc)
      (by have := h.room; omega) h.inside hseg

end Waiting

/-! ## The switch of stacks -/

section Switch

variable {Y : Symbols} {C : CCode} {k : ProcTable} {sw : Switch} {m r : Cpu} {s' : Sys} {i : Slot}

theorem savedEsp_process (esp : Nat) : (savedEsp k sw esp).process i =
    { k.process i with
      state := switchState k sw i
      kernelEsp := if i = sw.old then esp else (k.process i).kernelEsp } := by
  unfold savedEsp
  by_cases h : i = sw.old
  · subst h; simp [switch_process]
  · simp [switch_process, h]

theorem stackOf_savedEsp (esp : Nat) : stackOf Y (savedEsp k sw esp) i = stackOf Y k i :=
  stackOf_congr (by rw [savedEsp_process])

theorem Holds.savedEsp (h : Holds k sw.old) (esp : Nat) : Runs (savedEsp k sw esp) sw.next := by
  have hr := h.switch sw.next
  have hst : ∀ j, ((Process.savedEsp k sw esp).process j).state =
      ((k.switch sw).process j).state := by
    intro j
    rw [savedEsp_process, switch_process]
  exact {
    enabled := hr.enabled
    current := rfl
    used := by rw [hst]; exact hr.used
    notReady := by rw [IsReady, hst]; exact hr.notReady
    running := fun j hj => hr.running j (by rw [hst] at hj; exact hj)
    runs := by rw [hst]; exact hr.runs }

theorem runnable_of_savedEsp {esp : Nat} (hn : IsReady k sw.next)
    (h : ((savedEsp k sw esp).process i).Runnable) : (k.process i).Runnable := by
  rw [savedEsp_process] at h
  unfold Pcb.Runnable at h
  simp only [switchState] at h
  split at h
  · rename_i he
    subst he
    exact .inl hn
  · split at h
    · rename_i he
      rw [he.1]
      exact .inr he.2
    · exact h

/-- The stack pointer that `context_switch` saves and the words it pushes stay clear
of every other stack. -/
theorem contextSwitch_keeps (hcall : CallsSwitch Y k sw m)
    (hclear : Clear Y k (stackOf Y k sw.old) sw.old) (hap : StacksApart Y k) :
    KeepsStacks Y k sw.old m.mem (m.run contextSwitch).mem := by
  intro i hi hrun x hx
  have hlo := hcall.lo
  have hhi := hcall.hi
  have hold := hcall.old
  obtain ⟨-, -, hout⟩ := contextSwitch_old (m := m) (by omega)
    (by rw [hold]; have := hclear.table sw.old; omega)
  rw [(contextSwitch_eq m).1]
  obtain ⟨hx1, hx2⟩ := hx
  refine hout x ?_ ?_
  · have := hclear.apart i hi hrun
    unfold InWin
    omega
  · have := (hap i hrun).table sw.old
    rw [hold]
    unfold InWin
    omega

/-- **The stack that is left** holds a suspended thread. -/
theorem suspended_of_call (hcall : CallsSwitch Y k sw m)
    (hclear : Clear Y k (stackOf Y k sw.old) sw.old)
    (hto : C.toSwitch (stackOf Y k sw.old).hi (isrEnter Y r) m)
    (hroom : (stackOf Y k sw.old).lo + 64 ≤ r.sp) (hin : r.sp ≤ (stackOf Y k sw.old).hi) :
    Suspended Y C (savedEsp k sw (load32 (m.run contextSwitch).mem (Y.kernelEspAddr sw.old)))
      (m.run contextSwitch).mem sw.old r := by
  have hlo := hcall.lo
  have hhi := hcall.hi
  have hold := hcall.old
  have htab := hclear.table sw.old
  have hlt := hclear.below
  obtain ⟨hw, hesp, hout⟩ := contextSwitch_old (m := m) (by omega) (by rw [hold]; omega)
  rw [← (contextSwitch_eq m).1, hold] at hesp hout
  rw [← (contextSwitch_eq m).1] at hw
  -- above the pushes, the old stack is as it was at the call
  have hag : AgreeOn m.mem (m.run contextSwitch).mem m.sp (stackOf Y k sw.old).hi := by
    intro x hx
    obtain ⟨hx1, hx2⟩ := hx
    refine hout x ?_ ?_
    · unfold InWin; omega
    · unfold InWin; omega
  have hret : load32 m.mem m.sp = Y.scheduleReturn.toNat := by
    have h0 : m.top 0 = BitVec.ofNat 32 (load32 m.mem m.sp) := by
      simp [Cpu.top, Cpu.load, Cpu.sp]
    rw [← hcall.ret, h0, BitVec.toNat_ofNat, Nat.mod_eq_of_lt (load32_lt _ _)]
  refine ⟨m, ?_⟩
  constructor
  case enter => rw [stackOf_savedEsp]; exact hto
  case room => rw [stackOf_savedEsp]; exact hroom
  case inside => rw [stackOf_savedEsp]; exact hin
  case lo => rw [stackOf_savedEsp]; exact hlo
  case hi => rw [stackOf_savedEsp]; exact hhi
  case ret => exact hcall.ret
  case esp => rw [savedEsp_process]; simpa using hesp
  case words =>
    refine Words.append (v := [Y.scheduleReturn]) hw ⟨?_, trivial⟩
    rw [show m.sp - 16 + 4 * [m.reg .edi, m.reg .esi, m.reg .ebx, m.reg .ebp].length = m.sp by
      simp only [List.length_cons, List.length_nil]; omega]
    rw [load32_congr (hag.mono (Nat.le_refl _) (by omega))]
    exact hret
  case frame =>
    rw [stackOf_savedEsp]
    exact hag.mono (by omega) (Nat.le_refl _)

end Switch

/-! ## The invariant -/

/-- A ready process is new, or was switched out by the timer in some context. -/
def Waiting (Y : Symbols) (C : CCode) (k : ProcTable) (mem : Bytes) (i : Slot) : Prop :=
  Fresh Y k mem i ∨ ∃ r, Suspended Y C k mem i r ∧ ∀ x, r.seg x = 0x10

theorem Waiting.frame {Y : Symbols} {C : CCode} {k k' : ProcTable} {mem mem' : Bytes} {i : Slot}
    (h : Waiting Y C k mem i) (hs : SameStack k k' i)
    (hm : AgreeOn mem mem' (stackOf Y k i).lo (stackOf Y k i).hi) : Waiting Y C k' mem' i := by
  rcases h with h | ⟨r, h, hseg⟩
  · exact .inl (h.frame hs hm)
  · exact .inr ⟨r, h.frame hs hm, hseg⟩

/-- Slot 0 is the kernel's for good. -/
def KernelSlot (k : ProcTable) : Prop :=
  (k.process 0).pid = 0 ∧ (k.process 0).state ≠ .unused

/-- Between two steps: one process runs, the stacks are apart, the segments are the
kernel's, and every ready process waits on its stack. -/
structure SysOk (Y : Symbols) (C : CCode) (s : Sys) : Prop where
  runs : ∃ c, Runs s.procs c
  kernel : KernelSlot s.procs
  apart : StacksApart Y s.procs
  segs : ∀ x, s.cpu.seg x = 0x10
  waiting : ∀ i, IsReady s.procs i → Waiting Y C s.procs s.cpu.mem i

section Switch

variable {Y : Symbols} {C : CCode} {k : ProcTable} {sw : Switch} {m r : Cpu} {s' : Sys} {i : Slot}

theorem StacksApart.savedEsp {esp : Nat} (h : StacksApart Y k) (hn : IsReady k sw.next) :
    StacksApart Y (savedEsp k sw esp) := by
  intro i hi
  have hc := h i (runnable_of_savedEsp hn hi)
  rw [stackOf_savedEsp]
  refine ⟨hc.below, hc.table, fun j hj hrj => ?_⟩
  rw [stackOf_savedEsp]
  exact hc.apart j hj (runnable_of_savedEsp hn hrj)

theorem sameStack_savedEsp {esp : Nat} (h : i ≠ sw.old) : SameStack k (savedEsp k sw esp) i := by
  constructor
  · rw [savedEsp_process]
  · rw [savedEsp_process]; simp [h]

/-- What a switch needs to know of the state it starts in. -/
structure SwitchFrom (Y : Symbols) (C : CCode) (k : ProcTable) (sw : Switch) (m : Cpu) : Prop where
  holds : Holds k sw.old
  kernel : KernelSlot k
  next : IsReady k sw.next
  clear : Clear Y k (stackOf Y k sw.old) sw.old
  apart : StacksApart Y k
  segs : ∀ x, m.seg x = 0x10
  waiting : ∀ i, IsReady k i → Waiting Y C k m.mem i

theorem SwitchFrom.ne (h : SwitchFrom Y C k sw m) (hi : IsReady k i) : i ≠ sw.old := by
  rintro rfl
  exact h.holds.notReady hi

theorem Switches.agree (h : Switches Y C k sw m s') (hf : SwitchFrom Y C k sw m)
    (hi : IsReady k i) :
    AgreeOn m.mem (m.run contextSwitch).mem (stackOf Y k i).lo (stackOf Y k i).hi ∧
    (i ≠ sw.next → AgreeOn m.mem s'.cpu.mem (stackOf Y k i).lo (stackOf Y k i).hi) := by
  have h1 := contextSwitch_keeps h.calls hf.clear hf.apart i (hf.ne hi) (.inl hi)
  refine ⟨h1, fun hn => h1.trans ?_⟩
  have hrun : (s'.procs.process i).Runnable := by
    rw [h.procs, savedEsp_process]
    left
    simp only [switchState, hn, hf.ne hi, false_and, ↓reduceIte]
    exact hi
  have := h.keeps i hn hrun
  rwa [h.procs, stackOf_savedEsp] at this

theorem Switches.kept (h : Switches Y C k sw m s') (hf : SwitchFrom Y C k sw m)
    (hi : IsReady k i) (hn : i ≠ sw.next) (hs : Suspended Y C k m.mem i r) :
    IsReady s'.procs i ∧ Suspended Y C s'.procs s'.cpu.mem i r := by
  constructor
  · rw [IsReady, h.procs, savedEsp_process]
    simp only [switchState, hn, hf.ne hi, false_and, ↓reduceIte]
    exact hi
  · refine hs.frame ?_ ((h.agree hf hi).2 hn)
    rw [h.procs]
    exact sameStack_savedEsp (hf.ne hi)

theorem Switches.resumed (h : Switches Y C k sw m s') (hf : SwitchFrom Y C k sw m)
    (hs : Suspended Y C k m.mem sw.next r) (hseg : ∀ x, r.seg x = 0x10) :
    SameContext r s'.cpu := by
  have hag := (h.agree hf hf.next).1
  exact (hs.frame ⟨rfl, rfl⟩ hag).resume h.calls.new (hf.apart _ (.inl hf.next)).below
    hseg h.resumes

theorem Switches.segs (h : Switches Y C k sw m s') (hf : SwitchFrom Y C k sw m) (x : SegReg) :
    s'.cpu.seg x = 0x10 := by
  have hag := (h.agree hf hf.next).1
  have hlt := (hf.apart _ (.inl hf.next)).below
  rcases hf.waiting _ hf.next with hw | ⟨r, hw, hseg⟩
  · rw [(hw.frame ⟨rfl, rfl⟩ hag).resume h.calls.new hlt h.resumes, (contextSwitch_eq m).2.1]
    exact hf.segs x
  · rw [(h.resumed hf hw hseg).seg]
    exact hseg x

/-- **A switch keeps the invariant**, when the process it leaves waits or ends. -/
theorem Switches.ok (h : Switches Y C k sw m s') (hf : SwitchFrom Y C k sw m)
    (hold : IsReady s'.procs sw.old → Waiting Y C s'.procs s'.cpu.mem sw.old) :
    SysOk Y C s' := by
  refine ⟨⟨sw.next, ?_⟩, ?_, ?_, h.segs hf, fun i hi => ?_⟩
  · rw [h.procs]
    exact hf.holds.savedEsp _
  · rw [h.procs, KernelSlot, savedEsp_process]
    refine ⟨hf.kernel.1, ?_⟩
    simp only [switchState]
    split
    · intro hst
      cases hst
    · split
      · intro hst
        cases hst
      · exact hf.kernel.2
  · rw [h.procs]
    exact hf.apart.savedEsp hf.next
  · by_cases hio : i = sw.old
    · subst hio
      exact hold hi
    · -- any other ready process was ready before, and was not selected
      rw [IsReady, h.procs, savedEsp_process] at hi
      simp only [switchState, hio, false_and, ↓reduceIte] at hi
      split at hi
      · cases hi
      · rename_i hin
        refine (hf.waiting i hi).frame ?_ ((h.agree hf hi).2 hin)
        rw [h.procs]
        exact sameStack_savedEsp hio

end Switch

/-! ## New threads -/

section Create

variable {Y : Symbols} {C : CCode} {k k' : ProcTable} {stack entry : Nat} {mem mem' : Bytes}
  {name : List (BitVec 8)} {res : Option Slot} {slot i : Slot}

theorem threadEnv_wordStore : WordStore (threadEnv Y stack) id fun _ m => m :=
  ⟨fun _ _ _ => rfl, fun _ _ => rfl, fun _ _ _ => rfl, fun _ => rfl⟩

/-- `kthread_create` with the answer of the heap. -/
theorem kthreadCreate_thread
    (h : kthreadCreate (threadEnv Y stack) k mem entry name = some (res, k', mem'))
    (hlt : stack + kernelStackSize < 2 ^ 32) (he : entry < 2 ^ 32) :
    (res = none → mem' = mem) ∧ ∀ slot, res = some slot →
      stack ≠ 0 ∧ (k'.process slot).kernelStack = stack ∧
      (k'.process slot).kernelEsp = stack + kernelStackSize - 24 ∧
      load32 mem' (stack + kernelStackSize - 24 + 16) = Y.kthreadTrampoline.toNat ∧
      ∀ x, ¬ InWin stack (stack + kernelStackSize) x → mem' x = mem x := by
  rw [kthreadCreate_eq] at h
  cases hf : findUnused k with
  | none =>
    rw [hf] at h
    simp only [Option.elim_none, Option.some.injEq, Prod.mk.injEq] at h
    obtain ⟨rfl, -, rfl⟩ := h
    exact ⟨fun _ => rfl, nofun⟩
  | some slot =>
    rw [hf, Option.elim_some] at h
    by_cases h0 : stack = 0
    · subst h0
      have hm : (threadEnv Y 0).kmallocAligned mem kernelStackSize = some (0, mem) := rfl
      obtain ⟨k₁, hc, -⟩ := createOn_fails k slot name entry hm
      rw [hc] at h
      simp only [Option.some.injEq, Prod.mk.injEq] at h
      obtain ⟨rfl, -, rfl⟩ := h
      exact ⟨fun _ => rfl, nofun⟩
    · obtain ⟨k₁, m₁, hc, -, hks, hesp, hw, hout⟩ := createOn_builds (E := threadEnv Y stack) k slot
        name threadEnv_wordStore rfl h0 hlt Y.kthreadTrampoline.isLt he
      rw [hc] at h
      simp only [Option.some.injEq, Prod.mk.injEq] at h
      obtain ⟨rfl, rfl, rfl⟩ := h
      refine ⟨nofun, ?_⟩
      rintro slot' ⟨⟩
      refine ⟨h0, hks, hesp, ?_, hout⟩
      have := hw.get (i := 4) (w := BitVec.ofNat 32 Y.kthreadTrampoline.toNat) rfl
      rwa [BitVec.ofNat_toNat, BitVec.setWidth_eq] at this

end Create

/-! ## A machine at the call of `context_switch` -/

section Plain

variable {Y : Symbols} {k : ProcTable} {w : Switch} {m : Cpu}

theorem plainCall_pushed (Y : Symbols) (m : Cpu) (a b : Word) (h : 12 ≤ m.sp) :
    Pushed m (((m.push b).push a).push Y.scheduleReturn) [Y.scheduleReturn, a, b] := by
  have h1 := (Pushed.refl m).push b (by rw [List.length_nil]; omega)
  have h2 := h1.push a (by simp only [List.length_cons, List.length_nil]; omega)
  exact h2.push Y.scheduleReturn (by simp only [List.length_cons, List.length_nil]; omega)

/-- The arguments of `context_switch` and the return address, pushed on `m`. -/
def plainCall (Y : Symbols) (k : ProcTable) (w : Switch) (m : Cpu) : Cpu :=
  ((m.push (BitVec.ofNat 32 (k.process w.next).kernelEsp)).push
    (BitVec.ofNat 32 (Y.kernelEspAddr w.old))).push Y.scheduleReturn

theorem plainCall_calls (hlo : (stackOf Y k w.old).lo + 28 ≤ m.sp)
    (hhi : m.sp ≤ (stackOf Y k w.old).hi)
    (hlt : (stackOf Y k w.old).hi < 2 ^ 32) (haddr : Y.kernelEspAddr w.old < 2 ^ 32)
    (hesp : (k.process w.next).kernelEsp < 2 ^ 32) :
    CallsSwitch Y k w (plainCall Y k w m) ∧ Pushed m (plainCall Y k w m)
      [Y.scheduleReturn, BitVec.ofNat 32 (Y.kernelEspAddr w.old),
        BitVec.ofNat 32 (k.process w.next).kernelEsp] := by
  have hp := plainCall_pushed Y m (BitVec.ofNat 32 (Y.kernelEspAddr w.old))
    (BitVec.ofNat 32 (k.process w.next).kernelEsp) (by omega)
  refine ⟨?_, hp⟩
  have hsp := hp.sp
  simp only [List.length_cons, List.length_nil] at hsp
  have htop : Top (plainCall Y k w m) _ := ⟨hp.words, by
    simp only [List.length_cons, List.length_nil, plainCall]; omega⟩
  refine ⟨htop.get 0 rfl, ?_, ?_, ?_, ?_⟩
  · rw [show (plainCall Y k w m).top 4 = BitVec.ofNat 32 (Y.kernelEspAddr w.old)
      from htop.get 1 rfl, BitVec.toNat_ofNat, Nat.mod_eq_of_lt haddr]
  · rw [show (plainCall Y k w m).top 8 = BitVec.ofNat 32 (k.process w.next).kernelEsp from
      htop.get 2 rfl, BitVec.toNat_ofNat, Nat.mod_eq_of_lt hesp]
  · simp only [plainCall]; omega
  · simp only [plainCall]; omega

end Plain

def sampleSymbols : Symbols where
  irq0 := 0xC0101000
  isrCommon := 0xC0101100
  interruptHandler := 0xC0103000
  isrReturn := 0xC0101120
  scheduleReturn := 0xC0104200
  kthreadTrampoline := 0xC0105000
  pageDirectory := 0x110000
  kernelSpace := 0xC0118000
  processTable := 0xC0119000
  bootStackBottom := 0xC011C000
  bootStackTop := 0xC0120000
  returns_ne := by decide
  bootStackTop_lt := by omega
  bootStack_apart := by unfold maxProcesses; omega

/-- A processor in kernel mode with interrupts enabled. -/
def sampleCpu (esp : Word) (mem : Bytes) : Cpu where
  reg r := if r = .esp then esp else 7
  seg _ := 0x10
  cs := 0x08
  eip := 0xC0102000
  eflags := 0x202
  mem := mem

theorem sampleCpu_on (esp : Word) (mem : Bytes) : (sampleCpu esp mem).InterruptsOn := by
  show BitVec.getLsbD (0x202 : Word) 9 = true
  decide

end TupleOS.Process
