import TupleOS.Base.Cyclic
import TupleOS.Base.Word

/-!
# Processes and the scheduler (`kernel/process.c`, `kernel/scheduler.c`)

The process table is a flat array of control blocks; a `process_t*` is a slot of
it. `ProcTable` holds the statics of both files. The heap, the address spaces
and the kernel stacks belong to other components, which the code reaches through
a `ProcEnv`; `none` is a call that does not return. `schedule` ends in
`context_switch`, whose two arguments are the `Switch` it returns.
-/

namespace TupleOS.Process

open TupleOS.Base

def maxProcesses : Nat := 64
def processNameLen : Nat := 32
def kernelStackSize : Nat := 8192

instance : NeZero maxProcesses := ⟨by decide⟩

/-- An index of `process_table`, or the `process_t*` that points there. -/
abbrev Slot := Fin maxProcesses

inductive ProcessState where
  | unused
  | ready
  | running
  | blocked
  | zombie
  deriving DecidableEq, Repr

/-- `process_t`, without the `registers` that no code reads or writes. -/
structure Pcb where
  pid : Nat
  state : ProcessState
  /-- The bytes of `name` before its `NUL`. -/
  name : List (BitVec 8)
  pageDirectory : Nat
  addressSpace : Nat
  kernelStack : Nat
  kernelEsp : Nat
  priority : Nat
  parentPid : Nat
  exitCode : Nat

def Pcb.zeroed : Pcb where
  pid := 0
  state := .unused
  name := []
  pageDirectory := 0
  addressSpace := 0
  kernelStack := 0
  kernelEsp := 0
  priority := 0
  parentPid := 0
  exitCode := 0

def Pcb.Runnable (p : Pcb) : Prop := p.state = .ready ∨ p.state = .running

instance (p : Pcb) : Decidable p.Runnable := inferInstanceAs (Decidable (_ ∨ _))

structure ProcTable where
  process : Slot → Pcb
  nextPid : Nat
  /-- `current_process`, `none` for `NULL`. -/
  current : Option Slot
  schedulerEnabled : Bool

structure ProcEnv (σ : Type) where
  pagingGetDirectory : Nat
  vmmGetKernelSpace : Nat
  kthreadTrampoline : Nat
  kmallocAligned : σ → Nat → Option (Nat × σ)
  kfree : σ → Nat → Option σ
  vmmDestroyAddressSpace : σ → Nat → Option σ
  vmmSwitchAddressSpace : σ → Nat → Option σ
  /-- A word store to a kernel stack. -/
  store : σ → Nat → Nat → Option σ

/-- `copy_name`: at most `maxLen - 1` bytes, up to the `NUL`. -/
def copyName (src : List (BitVec 8)) (maxLen : Nat) : List (BitVec 8) :=
  (src.takeWhile (· ≠ 0)).take (maxLen - 1)

/-! ## Edits of one slot -/

namespace ProcTable

def modify (k : ProcTable) (slot : Slot) (f : Pcb → Pcb) : ProcTable :=
  { k with process := fun i => if i = slot then f (k.process i) else k.process i }

def setState (k : ProcTable) (slot : Slot) (st : ProcessState) : ProcTable :=
  k.modify slot fun p => { p with state := st }

section

variable (k : ProcTable) {slot i : Slot} (f : Pcb → Pcb)

@[simp] theorem modify_same : (k.modify slot f).process slot = f (k.process slot) := by
  simp [modify]

@[simp] theorem modify_ne (h : i ≠ slot) : (k.modify slot f).process i = k.process i := by
  simp [modify, h]

@[simp] theorem modify_current : (k.modify slot f).current = k.current := rfl
@[simp] theorem modify_nextPid : (k.modify slot f).nextPid = k.nextPid := rfl
@[simp] theorem modify_enabled : (k.modify slot f).schedulerEnabled = k.schedulerEnabled := rfl

@[simp] theorem modify_modify (g : Pcb → Pcb) :
    (k.modify slot f).modify slot g = k.modify slot (g ∘ f) := by
  simp only [modify, Function.comp_apply, mk.injEq, and_true]
  funext j
  by_cases h : j = slot <;> simp [h]

end

end ProcTable

/-! ## Processes -/

def processGetBySlot (k : ProcTable) (slot : Slot) : Option Slot :=
  if (k.process slot).state = .unused then none else some slot

def findUnused (k : ProcTable) : Option Slot :=
  (List.finRange maxProcesses).find? fun i => (k.process i).state = .unused

/-- The start of `process_alloc` on its slot: the block is zeroed and `READY`
under the next PID. -/
def reserve (k : ProcTable) (slot : Slot) : ProcTable :=
  let k := k.modify slot fun _ => Pcb.zeroed
  let k := { k.modify slot fun p => { p with pid := k.nextPid } with
    nextPid := w32 (k.nextPid + 1) }
  let k := k.setState slot .ready
  k.modify slot fun p => { p with parentPid := k.current.elim 0 fun c => (k.process c).pid }

/-- The words of a new thread's stack in the order they are pushed. -/
def frameWords (trampoline entry : Nat) : List Nat := [0, trampoline, 0, entry, 0, 0]

section Code

variable {σ : Type} (E : ProcEnv σ)

def processInit : ProcTable where
  process i := if i = 0 then
      { Pcb.zeroed with
        state := .running
        name := copyName [0x6b, 0x65, 0x72, 0x6e, 0x65, 0x6c] processNameLen
        pageDirectory := E.pagingGetDirectory
        addressSpace := E.vmmGetKernelSpace }
    else Pcb.zeroed
  nextPid := 1
  current := some 0
  schedulerEnabled := false

/-- `process_alloc`; `none` is `NULL`. -/
def processAlloc (k : ProcTable) (s : σ) : Option (Option Slot × ProcTable × σ) :=
  match findUnused k with
  | none => some (none, k, s)
  | some slot => do
    let (stack, s) ← E.kmallocAligned s kernelStackSize
    let k := (reserve k slot).modify slot fun p => { p with kernelStack := stack }
    if stack = 0 then some (none, k.setState slot .unused, s)
    else
      some (some slot, k.modify slot
        fun p => { p with kernelEsp := w32 (stack + kernelStackSize) }, s)

def pushWords (s : σ) (sp : Nat) : List Nat → Option (Nat × σ)
  | [] => some (sp, s)
  | w :: ws => do
    let s ← E.store s (sub32 sp 4) w
    pushWords s (sub32 sp 4) ws

def kthreadCreate (k : ProcTable) (s : σ) (entry : Nat) (name : List (BitVec 8)) :
    Option (Option Slot × ProcTable × σ) := do
  let (proc, k, s) ← processAlloc E k s
  match proc with
  | none => some (none, k, s)
  | some slot =>
    let k := k.modify slot fun p => { p with
      name := copyName name processNameLen
      pageDirectory := E.pagingGetDirectory
      addressSpace := E.vmmGetKernelSpace }
    let (sp, s) ← pushWords E s (w32 ((k.process slot).kernelStack + kernelStackSize))
      (frameWords E.kthreadTrampoline entry)
    some (some slot, k.modify slot fun p => { p with kernelEsp := sp }, s)

def freeStack (s : σ) (kernelStack : Nat) : Option σ :=
  if kernelStack = 0 then some s else E.kfree s kernelStack

def freeSpace (s : σ) (addressSpace : Nat) : Option σ :=
  if addressSpace = 0 then some s else E.vmmDestroyAddressSpace s addressSpace

def processFree (k : ProcTable) (s : σ) : Option Slot → Option (ProcTable × σ)
  | none => some (k, s)
  | some slot =>
    let proc := k.process slot
    if proc.pid = 0 then some (k, s)
    else do
      let s ← freeStack E s proc.kernelStack
      let s ← freeSpace E s proc.addressSpace
      some (k.modify slot fun _ => Pcb.zeroed, s)

end Code

/-! ## The scheduler -/

structure Switch where
  old : Slot
  next : Slot
  deriving DecidableEq, Repr

def schedulerInit (k : ProcTable) : ProcTable := { k with schedulerEnabled := true }

/-- The loop of `schedule` that looks for `current` in the table. -/
def currentSlot (k : ProcTable) (current : Slot) : Option Slot :=
  (List.finRange maxProcesses).find? fun i => processGetBySlot k i = some current

/-- The loop of `schedule` that picks the next process, at
`(current_slot + i) % MAX_PROCESSES`. -/
def nextSlot (k : ProcTable) (c : Slot) : Option Slot :=
  (circle c).find? fun i =>
    (processGetBySlot k i).any fun p => (k.process p).state = .ready

/-- `schedule` up to its choice: `none` for each of its early returns. -/
def pickNext (k : ProcTable) : Option Switch :=
  if k.schedulerEnabled then do
    let current ← k.current
    let c ← currentSlot k current
    let next ← nextSlot k c
    some ⟨current, next⟩
  else none

def ProcTable.switch (k : ProcTable) (sw : Switch) : ProcTable :=
  let k := if (k.process sw.old).state = .running then k.setState sw.old .ready else k
  { k.setState sw.next .running with current := some sw.next }

section Code

variable {σ : Type} (E : ProcEnv σ)

/-- `schedule` up to the call of `context_switch`, `none` when it returns before. -/
def schedule (k : ProcTable) (s : σ) : Option (Option Switch × ProcTable × σ) :=
  match pickNext k with
  | none => some (none, k, s)
  | some sw =>
    let k := k.switch sw
    if (k.process sw.next).pageDirectory = (k.process sw.old).pageDirectory then
      some (some sw, k, s)
    else do
      let s ← E.vmmSwitchAddressSpace s (k.process sw.next).addressSpace
      some (some sw, k, s)

def exitCurrent (k : ProcTable) : ProcTable :=
  k.current.elim k fun c => k.setState c .zombie

/-- `kthread_exit`: when `schedule` returns without a switch it ends in its halt
loop, with interrupts disabled. -/
def kthreadExit (k : ProcTable) (s : σ) : Option (Option Switch × ProcTable × σ) :=
  schedule E (exitCurrent k) s

end Code

end TupleOS.Process
