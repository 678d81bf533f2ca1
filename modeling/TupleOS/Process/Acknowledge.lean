import TupleOS.Base.Pic
import TupleOS.Process.Steps

/-!
# Acknowledging interrupts (`kernel/idt.c`, `kernel/timer.c`)

`interrupt_handler` ends the interrupt at the controllers after the registered
handler has returned. `timer_handler` does so before, because its `schedule()`
may leave for another thread; the thread it resumes was left in the same place,
and ends its own, older interrupt once more.

The system is followed from one of these points to the next: where the running
stack is (`Point`), and where each thread that was switched out resumes
(`Resume`). Interrupts come whenever they are enabled, and the code in between
changes the process table as it likes. Whenever interrupts are enabled no line
is in service, and no end of interrupt hits another line (`acknowledge_safe`).
-/

namespace TupleOS.Process

open TupleOS.Base

abbrev Irq := Fin 16

def Irq.OnSlave (irq : Irq) : Prop := 8 ≤ irq.val

instance (irq : Irq) : Decidable irq.OnSlave := inferInstanceAs (Decidable (_ ≤ _))

/-- The line of the master that is in service for an interrupt; the slave is on line 2. -/
def Irq.masterLine (irq : Irq) : Fin 8 := if irq.OnSlave then 2 else Fin.ofNat 8 irq.val

def Irq.slaveLine (irq : Irq) : Fin 8 := Fin.ofNat 8 (irq.val - 8)

/-- Where the running stack is. Interrupts are enabled in `code` only. -/
inductive Point where
  /-- Thread code. -/
  | code
  /-- `interrupt_handler`, with the registered handler if it is not the timer's. -/
  | handler (irq : Irq)
  /-- `timer_handler`, before its `outb`. -/
  | timer
  /-- `timer_handler`, at `schedule()`. -/
  | timerSchedule
  /-- `interrupt_handler` after the registered handler. -/
  | tail (irq : Irq)
  /-- `interrupt_handler`, at its `outb` to the master. -/
  | masterEoi (irq : Irq)
  /-- `isr_common` after the call, up to `iret`. -/
  | iret
  /-- `kthread_trampoline`, before `sti`. -/
  | trampoline
  /-- `kthread_exit`, at `schedule()`. -/
  | exitSchedule
  /-- The loop at the end of `kthread_exit`. -/
  | halt
  deriving DecidableEq

/-- Where a thread resumes when it is switched to. -/
inductive Resume where
  /-- It has no frame yet, so there is nowhere to resume. -/
  | unbuilt
  /-- The frame of `kthread_create`. -/
  | fresh
  /-- The `schedule()` of `timer_handler`. -/
  | timer
  /-- The `schedule()` of `kthread_exit`. -/
  | exit
  deriving DecidableEq

structure Irqs where
  procs : ProcTable
  master : Pic
  slave : Pic
  /-- `handlers[TIMER_IRQ]` is set. -/
  timerRegistered : Bool
  resume : Slot → Resume
  point : Point

inductive IrqOp where
  /-- The CPU takes an interrupt. -/
  | irq (irq : Irq)
  /-- The running stack goes on to its next point. -/
  | next
  | timerInit
  /-- A thread calls `kthread_exit`. -/
  | kthreadExit
  /-- The running code changes the process table. -/
  | table (procs : ProcTable)
  /-- `process_alloc` takes the slot. -/
  | reserve (slot : Slot)
  /-- `kthread_create` has built the frame of the slot. -/
  | build (slot : Slot)

def Irqs.enabled (s : Irqs) : Bool := s.point = .code

/-- Threads and handlers other than the timer's may run any code. -/
def Point.RunsCode : Point → Prop
  | .code => True
  | .handler _ => True
  | _ => False

instance : (p : Point) → Decidable p.RunsCode
  | .code => inferInstanceAs (Decidable True)
  | .handler _ => inferInstanceAs (Decidable True)
  | .timer | .timerSchedule | .tail _ | .masterEoi _ | .iret | .trampoline | .exitSchedule
  | .halt =>
    inferInstanceAs (Decidable False)

/-- The controllers when the CPU takes an interrupt. -/
def Irqs.take (s : Irqs) (irq : Irq) : Irqs :=
  let s := { s with master := s.master.take irq.masterLine }
  if irq.OnSlave then { s with slave := s.slave.take irq.slaveLine } else s

/-- The point at which a thread resumes. -/
def Resume.point : Resume → Option Point
  | .unbuilt => none
  | .fresh => some .trampoline
  | .timer => some (.tail 0)
  | .exit => some .halt

/-- `schedule()`: back to the caller at `back`, or away to another thread. `next->kernel_esp`
is read before `current->kernel_esp` is written. -/
def Irqs.schedule (s : Irqs) (here : Resume) (back : Point) : Option Irqs :=
  match pickNext s.procs with
  | none => some { s with point := back }
  | some sw => (s.resume sw.next).point.map fun p =>
    { s with
      procs := s.procs.switch sw
      resume := Function.update s.resume sw.old here
      point := p }

/-- The next point of the running stack. -/
def Irqs.next (s : Irqs) : Option Irqs :=
  match s.point with
  | .code => none
  | .handler irq =>
    some { s with point := if irq = 0 ∧ s.timerRegistered then .timer else .tail irq }
  | .timer => some { s with master := s.master.eoi, point := .timerSchedule }
  | .timerSchedule => s.schedule .timer (.tail 0)
  | .tail irq =>
    let s := if irq.OnSlave then { s with slave := s.slave.eoi } else s
    some { s with point := .masterEoi irq }
  | .masterEoi _ => some { s with master := s.master.eoi, point := .iret }
  | .iret => some { s with point := .code }
  | .trampoline => some { s with point := .code }
  | .exitSchedule => s.schedule .exit .halt
  | .halt => none

def irqStep (s : Irqs) : IrqOp → Option Irqs
  | .irq irq => if s.point = .code then some { s.take irq with point := .handler irq } else none
  | .next => s.next
  | .timerInit => if s.point = .code then some { s with timerRegistered := true } else none
  | .kthreadExit =>
    if s.point = .code then some { s with procs := exitCurrent s.procs, point := .exitSchedule }
    else none
  | .table procs => if s.point.RunsCode then some { s with procs := procs } else none
  | .reserve slot =>
    if s.point.RunsCode then some { s with resume := Function.update s.resume slot .unbuilt }
    else none
  | .build slot =>
    if s.point.RunsCode then some { s with resume := Function.update s.resume slot .fresh }
    else none

/-- After the `sti` of `idt_init`. `pic_remap` has initialised both controllers. -/
def irqStart (procs : ProcTable) : Irqs where
  procs := procs
  master := fun _ => false
  slave := fun _ => false
  timerRegistered := false
  resume := fun _ => .unbuilt
  point := .code

/-! ## Safety -/

/-- The interrupt for which the next step sends an end of interrupt to the master. -/
def Point.endsMaster : Point → Option Irq
  | .timer => some 0
  | .masterEoi irq => some irq
  | _ => none

def Point.endsSlave : Point → Option Irq
  | .tail irq => if irq.OnSlave then some irq else none
  | _ => none

structure Acknowledged (s : Irqs) : Prop where
  /-- While interrupts are enabled nothing is in service. -/
  idle : s.enabled = true → s.master.Idle ∧ s.slave.Idle
  /-- An end of interrupt to the master is for the sender's line, or for none. -/
  master : ∀ irq, s.point.endsMaster = some irq → ∀ l, s.master.highest = some l →
    l = irq.masterLine
  slave : ∀ irq, s.point.endsSlave = some irq → ∀ l, s.slave.highest = some l →
    l = irq.slaveLine

/-- What can be in service for an interrupt. -/
structure ServedBy (p q : Pic) (irq : Irq) : Prop where
  master : p.Only irq.masterLine
  slave : q.Only irq.slaveLine
  idle : ¬ irq.OnSlave → q.Idle

/-- What can be in service at each point. -/
def InService (p q : Pic) : Point → Prop
  | .handler irq | .tail irq => ServedBy p q irq
  | .timer => ServedBy p q 0
  | .masterEoi irq => p.Only irq.masterLine ∧ q.Idle
  | .code | .timerSchedule | .iret | .trampoline | .exitSchedule | .halt => p.Idle ∧ q.Idle

def Irqs.Inv (s : Irqs) : Prop := InService s.master s.slave s.point

section Safety

variable {s s' : Irqs} {p q : Pic} {irq : Irq}

theorem ServedBy.of_idle (h : p.Idle ∧ q.Idle) : ServedBy p q irq :=
  ⟨h.1.only, h.2.only, fun _ => h.2⟩

theorem ServedBy.take (h : s.master.Idle ∧ s.slave.Idle) :
    ServedBy (s.take irq).master (s.take irq).slave irq := by
  unfold Irqs.take
  by_cases hs : irq.OnSlave
  · simp only [if_pos hs]
    exact ⟨h.1.take, h.2.take, fun hn => absurd hs hn⟩
  · simp only [if_neg hs]
    exact ⟨h.1.take, h.2.only, fun _ => h.2⟩

theorem Irqs.Inv.schedule {here : Resume} {back : Point} (h : s.schedule here back = some s')
    (hidle : s.master.Idle ∧ s.slave.Idle) (hback : InService s.master s.slave back) : s'.Inv := by
  unfold Irqs.schedule at h
  cases hp : pickNext s.procs with
  | none =>
    rw [hp] at h
    cases h
    exact hback
  | some sw =>
    rw [hp] at h
    obtain ⟨p, hres, rfl⟩ := Option.map_eq_some_iff.mp h
    cases hr : s.resume sw.next with
    | unbuilt => rw [hr] at hres; cases hres
    | fresh => rw [hr] at hres; cases hres; exact hidle
    | timer => rw [hr] at hres; cases hres; exact ServedBy.of_idle hidle
    | exit => rw [hr] at hres; cases hres; exact hidle

/-- From one point to the next, by the point. -/
theorem Irqs.Inv.next (h : s.Inv) (he : s.next = some s') : s'.Inv := by
  unfold Irqs.Inv at h
  unfold Irqs.next at he
  cases hp : s.point with
  | code => simp only [hp] at he; cases he
  | halt => simp only [hp] at he; cases he
  | handler irq =>
    simp only [hp, Option.some.injEq] at h he
    subst he
    by_cases ht : irq = 0 ∧ s.timerRegistered = true
    · simp only [Irqs.Inv, if_pos ht]
      rw [ht.1] at h
      exact h
    · simp only [Irqs.Inv, if_neg ht]
      exact h
  | timer =>
    simp only [hp, Option.some.injEq] at h he
    subst he
    exact ⟨h.master.eoi, h.idle (by decide)⟩
  | timerSchedule =>
    simp only [hp] at h he
    exact Irqs.Inv.schedule he h (ServedBy.of_idle h)
  | tail irq =>
    simp only [hp, Option.some.injEq] at h he
    subst he
    by_cases hs : irq.OnSlave
    · simp only [Irqs.Inv, if_pos hs]
      exact ⟨h.master, h.slave.eoi⟩
    · simp only [Irqs.Inv, if_neg hs]
      exact ⟨h.master, h.idle hs⟩
  | masterEoi irq =>
    simp only [hp, Option.some.injEq] at h he
    subst he
    exact ⟨h.1.eoi, h.2⟩
  | iret =>
    simp only [hp, Option.some.injEq] at h he
    subst he
    exact h
  | trampoline =>
    simp only [hp, Option.some.injEq] at h he
    subst he
    exact h
  | exitSchedule =>
    simp only [hp] at h he
    exact Irqs.Inv.schedule he h h

theorem some_of_guard {α : Type} {c : Prop} [Decidable c] {x y : α}
    (h : (if c then some x else none) = some y) : c ∧ y = x := by
  split at h
  · exact ⟨‹c›, (Option.some.inj h).symm⟩
  · cases h

theorem Irqs.Inv.step {o : IrqOp} (h : s.Inv) (he : irqStep s o = some s') : s'.Inv := by
  cases o with
  | irq irq =>
    obtain ⟨hp, rfl⟩ := some_of_guard he
    unfold Irqs.Inv at h
    rw [hp] at h
    exact ServedBy.take h
  | next => exact h.next he
  | kthreadExit =>
    obtain ⟨hp, rfl⟩ := some_of_guard he
    unfold Irqs.Inv at h
    rw [hp] at h
    exact h
  | timerInit =>
    obtain ⟨-, rfl⟩ := some_of_guard he
    exact h
  | table procs =>
    obtain ⟨-, rfl⟩ := some_of_guard he
    exact h
  | reserve slot =>
    obtain ⟨-, rfl⟩ := some_of_guard he
    exact h
  | build slot =>
    obtain ⟨-, rfl⟩ := some_of_guard he
    exact h

theorem Irqs.Inv.acknowledged (h : s.Inv) : Acknowledged s := by
  unfold Irqs.Inv at h
  refine ⟨fun hen => ?_, fun irq hirq l hl => ?_, fun irq hirq l hl => ?_⟩
  · have hp : s.point = .code := of_decide_eq_true hen
    rw [hp] at h
    exact h
  · cases hp : s.point with
    | timer =>
      rw [hp] at h hirq
      cases hirq
      exact h.master.highest hl
    | masterEoi irq' =>
      rw [hp] at h hirq
      cases hirq
      exact h.1.highest hl
    | _ => rw [hp] at hirq; cases hirq
  · cases hp : s.point with
    | tail irq' =>
      rw [hp] at h hirq
      obtain ⟨-, rfl⟩ := some_of_guard hirq
      exact h.slave.highest hl
    | _ => rw [hp] at hirq; cases hirq

/-- **Interrupts are acknowledged safely** in every interleaving. -/
theorem acknowledge_safe {procs : ProcTable} {os : List IrqOp}
    (hrun : Run irqStep (fun _ _ => True) (irqStart procs) os s) : Acknowledged s :=
  (hrun.invariant Irqs.Inv (fun h _ he => h.step he) ⟨fun _ => rfl, fun _ => rfl⟩).acknowledged

/-- A kernel thread in slot 0 and a new one in slot 1. -/
def twoThreads : ProcTable where
  process i := if i = 0 then { Pcb.zeroed with state := .running }
    else if i = 1 then { Pcb.zeroed with pid := 1, state := .ready } else Pcb.zeroed
  nextPid := 2
  current := some 0
  schedulerEnabled := true

/-- A tick switches to the new thread, which is interrupted by the slave's first line. -/
theorem acknowledge_safe_switch : ∃ s,
    Run irqStep (fun _ _ => True) (irqStart twoThreads)
      [.build 1, .timerInit, .irq 0, .next, .next, .next, .next, .irq 8, .next] s ∧
    s.procs.current = some 1 ∧ s.point = .tail 8 ∧ Acknowledged s := by
  obtain ⟨s, hrun, hcur, hpoint⟩ : ∃ s,
      Run irqStep (fun _ _ => True) (irqStart twoThreads)
        [.build 1, .timerInit, .irq 0, .next, .next, .next, .next, .irq 8, .next] s ∧
      s.procs.current = some 1 ∧ s.point = .tail 8 :=
    ⟨_, .cons trivial rfl (.cons trivial rfl
      (.cons trivial rfl (.cons trivial rfl (.cons trivial rfl
      (.cons trivial rfl (.cons trivial rfl (.cons trivial rfl (.cons trivial rfl (.nil _))))))))),
      rfl, rfl⟩
  exact ⟨s, hrun, hcur, hpoint, acknowledge_safe hrun⟩

end Safety

end TupleOS.Process
