import TupleOS.Heap.Aligned
import TupleOS.Process.Preempt

/-!
# Only complete threads are switched to

Threads call `process_alloc` and `kthread_create` with interrupts enabled, so a
timer tick can fall between any two statements of a call. A slot is `READY` long
before its stack and its frame exist. `built_threads`: as long as no tick comes
between the scan that finds a slot and the statement that sets `kernel_esp`, every
process that is switched to for the first time has a complete frame. A tick right
after the slot is `READY` switches to stack pointer 0 (`tick_after_ready`).
-/

namespace TupleOS.Process

open TupleOS.Base TupleOS.Memory TupleOS.Heap

/-! ## Runs -/

/-- What `process.c` calls, over flat kernel memory; `a` is what `pmm_alloc_frame`
answers to the heap. Kernel threads share the kernel's address space, which is never
left, and `vmm_destroy_address_space` refuses to destroy it; other address spaces are
not followed here. -/
def kernelEnv (Y : Symbols) (L : Layout) (a : Answers) : ProcEnv KHeap where
  pagingGetDirectory := Y.pageDirectory
  vmmGetKernelSpace := Y.kernelSpace
  kthreadTrampoline := Y.kthreadTrampoline.toNat
  kmallocAligned h n := (kmallocAligned (heapEnv L) h a n).map fun r => (r.1, r.2.1)
  kfree := kfree
  vmmDestroyAddressSpace h space := if space = Y.kernelSpace then some h else none
  vmmSwitchAddressSpace h space := if space = Y.kernelSpace then some h else none
  store h x v := some { h with mem := store32 h.mem x v }

/-- The process table and the heap, with the call each thread is in. `out` and `entry`
are for the reader: whether the process in a slot was ever switched out, and the
function it was created for. -/
structure Threads where
  procs : ProcTable
  heap : KHeap
  call : Slot → Call
  answers : Slot → Answers
  out : Slot → Bool
  entry : Slot → Nat

inductive ThreadOp where
  | create (entry : Nat) (name : List (BitVec 8)) (answers : Answers)
  | alloc (answers : Answers)
  /-- The next statement of the running thread's call. -/
  | stmt
  /-- `schedule`; `m` is the machine at its call of `context_switch`, or at its return. -/
  | tick (m : Cpu)
  | exit (m : Cpu)

/-- The slot that the next statement finds. -/
def Call.found (k : ProcTable) (c : Call) : Option Slot :=
  match c.rest with
  | .scan i :: _ =>
    if h : i < maxProcesses then
      if (k.process ⟨i, h⟩).state = .unused then some ⟨i, h⟩ else none
    else none
  | _ => none

namespace Threads

def setCall (s : Threads) (c : Slot) (w : Call) : Threads :=
  { s with call := Function.update s.call c w }

def mark (s : Threads) (entry : Nat) : Option Slot → Threads
  | none => s
  | some slot =>
    { s with
      out := Function.update s.out slot false
      entry := Function.update s.entry slot entry }

def schedule (Y : Symbols) (s : Threads) (m : Cpu) : Threads :=
  match pickNext s.procs with
  | none => { s with heap := { s.heap with mem := m.mem } }
  | some sw =>
    { s with
      procs := savedEsp s.procs sw (load32 (m.run contextSwitch).mem (Y.kernelEspAddr sw.old))
      heap := { s.heap with mem := (m.run contextSwitch).mem }
      out := Function.update s.out sw.old true }

/-- The state in which `kthread_exit` calls `schedule`. -/
def exited (s : Threads) : Threads := { s with procs := exitCurrent s.procs }

end Threads

def threadStep (Y : Symbols) (L : Layout) (s : Threads) : ThreadOp → Option Threads
  | .create entry name a => s.procs.current.map fun c =>
      { s.setCall c (createCall (kernelEnv Y L a) entry name) with
        answers := Function.update s.answers c a }
  | .alloc a => s.procs.current.map fun c =>
      { s.setCall c allocCall with answers := Function.update s.answers c a }
  | .stmt => do
    let c ← s.procs.current
    let (k, h, w) ← Call.step (kernelEnv Y L (s.answers c)) s.procs s.heap (s.call c)
    some ({ s.mark (s.call c).entry ((s.call c).found s.procs) with
      procs := k, heap := h }.setCall c w)
  | .tick m => some (s.schedule Y m)
  | .exit m => (pickNext s.exited.procs).map fun _ => s.exited.schedule Y m

/-- The running thread has written nothing but its own stack, and calls
`context_switch` as `schedule` does. -/
structure AtSwitch (Y : Symbols) (s : Threads) (m : Cpu) : Prop where
  own : ∀ c, s.procs.current = some c → ∀ x,
    ¬ InWin (stackOf Y s.procs c).lo (stackOf Y s.procs c).hi x → m.mem x = s.heap.mem x
  calls : ∀ sw, pickNext s.procs = some sw → CallsSwitch Y s.procs sw m

/-- The running thread is in no call. -/
def Threads.Free (s : Threads) : Prop := ∀ c, s.procs.current = some c → (s.call c).rest = []

/-- The steps of a run: a thread calls, and exits, outside of calls. -/
def ThreadOp.Allowed (Y : Symbols) (L : Layout) (s : Threads) : ThreadOp → Prop
  | .create entry _ a => s.Free ∧ entry < 2 ^ 32 ∧ a.FromPmm L
  | .alloc a => s.Free ∧ a.FromPmm L
  | .stmt => True
  | .tick m => AtSwitch Y s m
  | .exit m => s.Free ∧ AtSwitch Y s.exited m

/-- The call has found its slot and has not returned. -/
def Call.Building (c : Call) : Prop := ∃ st rest, c.rest = st :: rest ∧ ∀ i, st ≠ .scan i

/-- `process_alloc` is called by `kthread_create` only, no tick comes while a thread
is being built, and the heap puts no page table on itself. -/
def ThreadOp.Calm (s : Threads) : ThreadOp → Prop
  | .create _ _ a => a.TablesOffHeap
  | .alloc _ => False
  | .stmt => True
  | .tick _ => ∀ c, s.procs.current = some c → ¬ (s.call c).Building
  | .exit _ => True

/-- The choice of a step that calls `schedule`, with the machine it is made on. -/
def ThreadOp.selects (s : Threads) : ThreadOp → Option (Switch × Cpu)
  | .tick m => (pickNext s.procs).map fun sw => (sw, m)
  | .exit m => (pickNext s.exited.procs).map fun sw => (sw, m)
  | _ => none

/-- The state after `kheap_init`, `process_init` and `scheduler_init`. -/
def bootThreads (Y : Symbols) (L : Layout) (h : KHeap) : Threads where
  procs := bootTable (kernelEnv Y L ⟨[], []⟩)
  heap := h
  call _ := ⟨0, [], 0, 0, []⟩
  answers _ := ⟨[], []⟩
  out _ := false
  entry _ := 0

/-- `context_switch` starts the process: `kernel_esp` is inside its own stack, at the
six words that make it go on in `kthread_trampoline` with the entry in `EBX`. -/
structure StartsThread (Y : Symbols) (p : Pcb) (entry : Nat) (m : Cpu) : Prop where
  stack : p.kernelStack ≠ 0
  lo : p.kernelStack ≤ p.kernelEsp
  hi : p.kernelEsp + 24 ≤ p.kernelStack + kernelStackSize
  frame : Words m.mem p.kernelEsp
    [0, 0, BitVec.ofNat 32 entry, 0, Y.kthreadTrampoline, 0]
  edi : (m.run contextSwitch).reg .edi = 0
  esi : (m.run contextSwitch).reg .esi = 0
  ebx : (m.run contextSwitch).reg .ebx = BitVec.ofNat 32 entry
  ebp : (m.run contextSwitch).reg .ebp = 0
  eip : (m.run contextSwitch).eip = Y.kthreadTrampoline

/-! ## The invariant -/

/-- The image keeps the boot stack, the process table and the page directory apart,
below the heap. -/
structure Placed (Y : Symbols) (L : Layout) : Prop where
  boot : Y.bootStackTop ≤ heapStartAddr
  table : Y.processTable + 136 * maxProcesses ≤ heapStartAddr
  bootOff : Y.bootStackTop ≤ L.pageDirectory ∨ L.pageDirectory + pageSize ≤ Y.bootStackBottom
  tableOff : Y.processTable + 136 * maxProcesses ≤ L.pageDirectory ∨
    L.pageDirectory + pageSize ≤ Y.processTable

def Used (k : ProcTable) (i : Slot) : Prop := (k.process i).state ≠ .unused

/-- Every process but PID 0 has its stack in a block of the heap. -/
def StacksBacked (k : ProcTable) (bs : List Block) : Prop :=
  ∀ i, i ≠ 0 → Used k i → ∃ b, Backs bs b (k.process i).kernelStack kernelStackSize

structure NewThread (Y : Symbols) (mem : Bytes) (p : Pcb) (entry : Nat) : Prop where
  lo : p.kernelStack ≤ p.kernelEsp
  hi : p.kernelEsp + 24 ≤ p.kernelStack + kernelStackSize
  frame : Words mem p.kernelEsp (newFrame Y.kthreadTrampoline.toNat entry)

structure ThreadsOk (Y : Symbols) (L : Layout) (s : Threads) : Prop where
  holds : ∃ c, Holds s.procs c
  kernel : Used s.procs 0
  tables : TablesOk L s.heap.mem
  heap : ∃ live bs, HeapOk s.heap live bs ∧ StacksBacked s.procs bs
  apart : ∀ i j, i ≠ 0 → j ≠ 0 → Used s.procs i → Used s.procs j → i ≠ j →
    (s.procs.process i).kernelStack + kernelStackSize ≤ (s.procs.process j).kernelStack ∨
    (s.procs.process j).kernelStack + kernelStackSize ≤ (s.procs.process i).kernelStack
  built : ∀ i, IsReady s.procs i →
    s.out i = true ∨ i ≠ 0 ∧ NewThread Y s.heap.mem (s.procs.process i) (s.entry i)

theorem NewThread.congr {Y : Symbols} {mem mem' : Bytes} {p p' : Pcb} {entry : Nat}
    (h : NewThread Y mem p entry) (hs : p'.kernelStack = p.kernelStack)
    (he : p'.kernelEsp = p.kernelEsp)
    (hm : AgreeOn mem mem' p.kernelStack (p.kernelStack + kernelStackSize)) :
    NewThread Y mem' p' entry := by
  have h1 := h.lo
  have h2 := h.hi
  refine ⟨?_, ?_, ?_⟩
  · rw [hs, he]; exact h1
  · rw [hs, he]; exact h2
  · rw [he]
    refine h.frame.congr (hm.mono h1 ?_)
    simp only [newFrame, frameWords, List.length_map, List.length_reverse, List.length_cons,
      List.length_nil]
    omega

/-! ## What a switch writes -/

section Switch

variable {Y : Symbols} {L : Layout} {s : Threads} {k : ProcTable} {sw : Switch} {m : Cpu}
  {c i : Slot}

theorem kernelEspAddr_bounds (Y : Symbols) (i : Slot) : Y.processTable ≤ Y.kernelEspAddr i ∧
    Y.kernelEspAddr i + 4 ≤ Y.processTable + 136 * maxProcesses := by
  have hi : i.val < maxProcesses := i.isLt
  unfold Symbols.kernelEspAddr
  unfold maxProcesses at *
  omega

theorem stackOf_ne {i : Slot} (h : i ≠ 0) : stackOf Y k i =
    ⟨(k.process i).kernelStack, (k.process i).kernelStack + kernelStackSize⟩ := by
  rw [stackOf, if_neg h]

/-- Only the stack of `c` and its `kernel_esp` are written. -/
def WritesOwn (Y : Symbols) (k : ProcTable) (c : Slot) (mem mem' : Bytes) : Prop :=
  ∀ x, ¬ InWin (stackOf Y k c).lo (stackOf Y k c).hi x →
    ¬ InWin (Y.kernelEspAddr c) (Y.kernelEspAddr c + 4) x → mem' x = mem x

theorem ThreadsOk.stack_place (h : ThreadsOk Y L s) (P : Placed Y L) (hc : Used s.procs c) :
    (stackOf Y s.procs c).hi < 2 ^ 32 ∧
    (Y.kernelEspAddr c + 4 ≤ (stackOf Y s.procs c).lo ∨
      (stackOf Y s.procs c).hi ≤ Y.kernelEspAddr c) := by
  obtain ⟨hk1, hk2⟩ := kernelEspAddr_bounds Y c
  by_cases h0 : c = 0
  · subst h0
    have := Y.bootStack_apart
    have := Y.bootStackTop_lt
    simp only [stackOf, ↓reduceIte]
    omega
  · obtain ⟨live, bs, H, hb⟩ := h.heap
    obtain ⟨b, hb⟩ := hb c h0 hc
    obtain ⟨h1, h2⟩ := H.addr_pos hb.mem
    have hend := H.end_le
    have hlo := hb.lo
    have hhi := hb.hi
    have hbp : b.payload = b.addr + headerSize := rfl
    have hbig : heapMaxAddr < 2 ^ 32 := by decide
    have := P.table
    rw [stackOf_ne h0]
    simp only
    omega

theorem switch_writes (hcall : CallsSwitch Y k sw m) {mem : Bytes}
    (hown : ∀ x, ¬ InWin (stackOf Y k sw.old).lo (stackOf Y k sw.old).hi x → m.mem x = mem x)
    (hoff : Y.kernelEspAddr sw.old + 4 ≤ (stackOf Y k sw.old).lo ∨
      (stackOf Y k sw.old).hi ≤ Y.kernelEspAddr sw.old) :
    WritesOwn Y k sw.old mem (m.run contextSwitch).mem := by
  intro x hx hx'
  have hlo := hcall.lo
  have hhi := hcall.hi
  have hold := hcall.old
  obtain ⟨-, -, hout⟩ := contextSwitch_old (m := m) (by omega) (by rw [hold]; omega)
  rw [(contextSwitch_eq m).1, hout x ?_ ?_]
  · exact hown x hx
  · unfold InWin at *
    omega
  · rw [hold]
    exact hx'

theorem WritesOwn.keeps {mem mem' : Bytes} {x : Nat} (hw : WritesOwn Y k c mem mem')
    (hboot : ¬ InWin Y.bootStackBottom Y.bootStackTop x)
    (htable : ¬ InWin Y.processTable (Y.processTable + 136 * maxProcesses) x)
    (hstack : c ≠ 0 → ¬ InWin (k.process c).kernelStack
      ((k.process c).kernelStack + kernelStackSize) x) : mem' x = mem x := by
  obtain ⟨hk1, hk2⟩ := kernelEspAddr_bounds Y c
  refine hw x (fun hx => ?_) fun hx => htable (by unfold InWin at *; omega)
  by_cases h0 : c = 0
  · subst h0
    simp only [stackOf, ↓reduceIte] at hx
    exact hboot hx
  · rw [stackOf_ne h0] at hx
    exact hstack h0 hx

/-- The heap's list is not touched by writes to stacks, and neither are the page
directory and the stacks of others. -/
theorem ThreadsOk.writes (h : ThreadsOk Y L s) (P : Placed Y L) (hc : Used s.procs c) {mem : Bytes}
    (hw : WritesOwn Y s.procs c s.heap.mem mem) :
    (∃ live bs, HeapOk { s.heap with mem := mem } live bs ∧ StacksBacked s.procs bs) ∧
    TablesOk L mem ∧ ∀ i, i ≠ 0 → Used s.procs i → i ≠ c → AgreeOn s.heap.mem mem
      (s.procs.process i).kernelStack ((s.procs.process i).kernelStack + kernelStackSize) := by
  obtain ⟨live, bs, H, hbs⟩ := h.heap
  have hpt := P.table
  have hpb := P.boot
  have hpo := P.bootOff
  have hpo' := P.tableOff
  have hend := H.end_le
  refine ⟨⟨live, bs, H.frame fun b hb x hx => ?_, hbs⟩, h.tables.frame fun x hx => ?_,
    fun i hi hu hic x hx => ?_⟩
  · obtain ⟨h1, h2⟩ := H.addr_pos hb
    refine hw.keeps (by unfold InWin at *; omega) (by unfold InWin at *; omega) fun h0 hx' => ?_
    -- the stack is in the payload of a block, and the header is in none
    obtain ⟨d, hd⟩ := hbs c h0 hc
    have hlo := hd.lo
    have hhi := hd.hi
    have hdp : d.payload = d.addr + headerSize := rfl
    have hbf : b.fin = b.addr + headerSize + b.size := rfl
    obtain ⟨hx1, hx2⟩ := hx
    obtain ⟨hx3, hx4⟩ := hx'
    rcases H.seg.sep hb hd.mem with rfl | h' | h'
    · omega
    · omega
    · omega
  · -- the page directory is in the image
    have hpl := L.pageDirectory_le
    have hke := L.kernelEnd_le
    refine hw.keeps (by unfold InWin at *; omega) (by unfold InWin at *; omega) fun h0 hx' => ?_
    obtain ⟨d, hd⟩ := hbs c h0 hc
    obtain ⟨h1, h2⟩ := H.addr_pos hd.mem
    have hlo := hd.lo
    have hdp : d.payload = d.addr + headerSize := rfl
    unfold InWin heapStartAddr at *
    omega
  · obtain ⟨b, hb⟩ := hbs i hi hu
    obtain ⟨h1, h2⟩ := H.addr_pos hb.mem
    have hlo := hb.lo
    have hbp : b.payload = b.addr + headerSize := rfl
    refine hw.keeps (by unfold InWin at *; omega) (by unfold InWin at *; omega) fun h0 hx' => ?_
    have := h.apart i c hi h0 hu hc hic
    unfold InWin at *
    omega

/-- **A process that is switched to for the first time starts as a thread.** -/
theorem ThreadsOk.starts (h : ThreadsOk Y L s) (P : Placed Y L) (hat : AtSwitch Y s m)
    (hp : pickNext s.procs = some sw) (hout : s.out sw.next = false) :
    StartsThread Y (s.procs.process sw.next) (s.entry sw.next) m := by
  obtain ⟨c, hc⟩ := h.holds
  obtain ⟨rfl, hn⟩ := hc.pick_some hp
  have hcall := hat.calls sw hp
  have hnext : IsReady s.procs sw.next := hn.1
  rcases h.built sw.next hnext with ho | ⟨h0, hnew⟩
  · rw [hout] at ho
    cases ho
  have hne : sw.next ≠ sw.old := fun he => hc.notReady (he ▸ hnext)
  have hu : Used s.procs sw.next := fun he => by rw [IsReady, he] at hnext; cases hnext
  have hown := hat.own sw.old hc.current
  have hw := switch_writes hcall hown (h.stack_place P hc.used).2
  have hag := (h.writes P hc.used hw).2.2 sw.next h0 hu hne
  have hag' := (h.writes P hc.used (fun x hx _ => hown x hx)).2.2 sw.next h0 hu hne
  have hfr := hnew.congr rfl rfl hag
  have hlt := (h.stack_place P hu).1
  rw [stackOf_ne h0] at hlt
  simp only at hlt
  have hhi := hnew.hi
  have hnf : newFrame Y.kthreadTrampoline.toNat (s.entry sw.next) =
      [0, 0, BitVec.ofNat 32 (s.entry sw.next), 0, Y.kthreadTrampoline, 0] := by
    simp [newFrame, frameWords]
  -- the frame without its last word is what `context_switch` pops
  have hpop : Words (savedMem m) (m.top 8).toNat
      [0, 0, BitVec.ofNat 32 (s.entry sw.next), 0, Y.kthreadTrampoline] := by
    rw [hcall.new, ← (contextSwitch_eq m).1]
    have := hfr.frame
    rw [hnf] at this
    obtain ⟨w1, w2, w3, w4, w5, -⟩ := this
    exact ⟨w1, w2, w3, w4, w5, trivial⟩
  obtain ⟨hedi, hesi, hebx, hebp, heip, -⟩ := contextSwitch_new hpop (by rw [hcall.new]; omega)
  obtain ⟨live, bs, H, hbs⟩ := h.heap
  obtain ⟨b, hb⟩ := hbs sw.next h0 hu
  refine ⟨?_, hnew.lo, hhi, ?_, hedi, hesi, hebx, hebp, heip⟩
  · have h1 := (H.addr_pos hb.mem).1
    have hlo := hb.lo
    have hbp : b.payload = b.addr + headerSize := rfl
    unfold heapStartAddr at h1
    omega
  · rw [← hnf]
    exact (hnew.congr rfl rfl hag').frame

theorem used_savedEsp {esp : Nat} : Used (savedEsp k sw esp) i ↔ i = sw.next ∨ Used k i := by
  unfold Used
  rw [savedEsp_process]
  simp only [switchState]
  split
  · rename_i he
    simp [he]
  · rename_i he
    split
    · rename_i hr
      simp [hr.1, hr.2]
    · simp [he]

/-- `schedule` keeps the invariant. -/
theorem ThreadsOk.schedule (h : ThreadsOk Y L s) (P : Placed Y L) (hat : AtSwitch Y s m) :
    ThreadsOk Y L (s.schedule Y m) := by
  obtain ⟨c, hc⟩ := h.holds
  have hown := hat.own c hc.current
  unfold Threads.schedule
  cases hp : pickNext s.procs with
  | none =>
    obtain ⟨hheap, htab, hag⟩ := h.writes P hc.used (fun x hx _ => hown x hx)
    refine ⟨⟨c, hc⟩, h.kernel, htab, hheap, h.apart, fun i hi => ?_⟩
    rcases h.built i hi with ho | ⟨h0, hnew⟩
    · exact .inl ho
    · refine .inr ⟨h0, hnew.congr rfl rfl (hag i h0 ?_ ?_)⟩
      · intro he
        rw [IsReady, he] at hi
        cases hi
      · rintro rfl
        exact hc.notReady hi
  | some sw =>
    obtain ⟨rfl, hn⟩ := hc.pick_some hp
    have hnext : IsReady s.procs sw.next := hn.1
    have hnu : Used s.procs sw.next := fun he => by rw [IsReady, he] at hnext; cases hnext
    have hu : ∀ {i esp}, Used (savedEsp s.procs sw esp) i → Used s.procs i := by
      intro i esp hi
      rcases used_savedEsp.mp hi with rfl | hi
      · exact hnu
      · exact hi
    obtain ⟨⟨live, bs, H, hbs⟩, htab, hag⟩ := h.writes P hc.used
      (switch_writes (hat.calls sw hp) hown (h.stack_place P hc.used).2)
    simp only
    generalize (m.run contextSwitch).mem = mem at H htab hag ⊢
    refine ⟨⟨sw.next, (hc.savedEsp _).toHolds⟩, used_savedEsp.mpr (.inr h.kernel), htab,
      ⟨live, bs, H, fun i h0 hi => ?_⟩, fun i j h0 h0' hi hj hij => ?_, fun i hi => ?_⟩
    · rw [savedEsp_process]
      exact hbs i h0 (hu hi)
    · rw [savedEsp_process, savedEsp_process]
      exact h.apart i j h0 h0' (hu hi) (hu hj) hij
    · by_cases hio : i = sw.old
      · left
        rw [hio]
        exact Function.update_self ..
      · rw [IsReady, savedEsp_process] at hi
        simp only [switchState, hio, false_and, ↓reduceIte] at hi
        split at hi
        · cases hi
        · rcases h.built i hi with ho | ⟨h0, hnew⟩
          · left
            simp only
            rw [Function.update_of_ne hio]
            exact ho
          · refine .inr ⟨h0, hnew.congr ?_ ?_ (hag i h0 ?_ hio)⟩
            · rw [savedEsp_process]
            · rw [savedEsp_process]
              simp [hio]
            · intro he
              rw [he] at hi
              cases hi

theorem ThreadsOk.exited (h : ThreadsOk Y L s) : ThreadsOk Y L s.exited := by
  obtain ⟨c, hc⟩ := h.holds
  have hst : ∀ i, (s.exited.procs.process i).kernelStack = (s.procs.process i).kernelStack ∧
      (s.exited.procs.process i).kernelEsp = (s.procs.process i).kernelEsp := by
    intro i
    simp only [Threads.exited, exitCurrent_eq hc.current, ProcTable.setState]
    by_cases hi : i = c
    · subst hi; simp
    · simp [hi]
  have hu : ∀ i, Used s.exited.procs i ↔ Used s.procs i := by
    intro i
    simp only [Used, Threads.exited, exitCurrent_eq hc.current, ProcTable.setState]
    by_cases hi : i = c
    · subst hi
      simp [hc.used]
    · simp [hi]
  obtain ⟨live, bs, H, hbs⟩ := h.heap
  refine ⟨⟨c, hc.exit⟩, (hu 0).mpr h.kernel, h.tables, ⟨live, bs, H, fun i h0 hi => ?_⟩,
    fun i j h0 h0' hi hj hij => ?_, fun i hi => ?_⟩
  · rw [(hst i).1]
    exact hbs i h0 ((hu i).mp hi)
  · rw [(hst i).1, (hst j).1]
    exact h.apart i j h0 h0' ((hu i).mp hi) ((hu j).mp hj) hij
  · rcases h.built i ((hc.ready_exit i).mp hi) with ho | ⟨h0, hnew⟩
    · exact .inl ho
    · exact .inr ⟨h0, hnew.congr (hst i).1 (hst i).2 (.refl _ _ _)⟩

end Switch

/-! ## Building a thread -/

section Build

variable {Y : Symbols} {L : Layout} {s : Threads} {a : Answers} {slot : Slot} {entry : Nat}

theorem kernelEnv_wordStore :
    WordStore (kernelEnv Y L a) KHeap.mem fun h m => { h with mem := m } :=
  ⟨fun _ _ _ => rfl, fun _ _ => rfl, fun _ _ _ => rfl, fun _ => rfl⟩

/-- Editing a slot that is not taken, with the heap grown behind it. -/
theorem ThreadsOk.edit {k : ProcTable} {h' : KHeap} {st : ProcessState} (h : ThreadsOk Y L s)
    (hu : ¬ Used s.procs slot) (he : EditsSlot s.procs k slot st) (hst : st ≠ .running)
    {live : List Alloc} {bs bs' : List Block} (hbs : StacksBacked s.procs bs)
    (H : HeapOk h' live bs')
    (hkb : KeepsBlocks bs bs') (htab : TablesOk L h'.mem)
    (hag : ∀ i, i ≠ 0 → Used s.procs i → AgreeOn s.heap.mem h'.mem
      (s.procs.process i).kernelStack ((s.procs.process i).kernelStack + kernelStackSize))
    (hnew : st ≠ .unused → (∃ b, Backs bs' b (k.process slot).kernelStack kernelStackSize ∧
        ∀ c ∈ bs, c.free = false → c ≠ b) ∧
      NewThread Y h'.mem (k.process slot) (s.entry slot)) :
    ThreadsOk Y L { s with procs := k, heap := h' } := by
  obtain ⟨c, hc⟩ := h.holds
  have hcs : c ≠ slot := by
    rintro rfl
    exact hu hc.used
  have h0 : slot ≠ 0 := by
    rintro rfl
    exact hu h.kernel
  have hold : ∀ {i}, i ≠ slot → Used k i → Used s.procs i := by
    intro i hi hui
    rwa [Used, he.others i hi] at hui
  have hst' : Used k slot → st ≠ .unused := fun hus => by rwa [Used, he.state] at hus
  -- a new stack is in a block of its own
  have hapart : ∀ i, i ≠ 0 → i ≠ slot → Used s.procs i → Used k slot →
      (s.procs.process i).kernelStack + kernelStackSize ≤ (k.process slot).kernelStack ∨
      (k.process slot).kernelStack + kernelStackSize ≤ (s.procs.process i).kernelStack := by
    intro i hi his hui hus
    obtain ⟨⟨b, hb, hne⟩, -⟩ := hnew (hst' hus)
    obtain ⟨d, hd⟩ := hbs i hi hui
    have h1 := hb.lo
    have h2 := hb.hi
    have h3 := hd.lo
    have h4 := hd.hi
    have hbp : b.payload = b.addr + headerSize := rfl
    have hdp : d.payload = d.addr + headerSize := rfl
    rcases H.seg.sep (hkb d hd.mem hd.used) hb.mem with rfl | h' | h'
    · exact absurd rfl (hne d hd.mem hd.used)
    · omega
    · omega
  refine ⟨⟨c, hc.edit he hcs hst⟩, ?_, htab, ⟨live, bs', H, fun i hi hui => ?_⟩,
    fun i j hi hj hui huj hij => ?_, fun i hi => ?_⟩
  · rw [Used, he.others 0 h0.symm]
    exact h.kernel
  · by_cases his : i = slot
    · subst his
      obtain ⟨⟨b, hb, -⟩, -⟩ := hnew (hst' hui)
      exact ⟨b, hb⟩
    · obtain ⟨b, hb⟩ := hbs i hi (hold his hui)
      simp only [he.others i his]
      exact ⟨b, hkb b hb.mem hb.used, hb.used, hb.lo, hb.hi⟩
  · simp only
    by_cases his : i = slot
    · subst his
      have hji : j ≠ i := fun he => hij he.symm
      have := hapart j hj hji (hold hji huj) hui
      rw [he.others j hji]
      omega
    · by_cases hjs : j = slot
      · subst hjs
        have := hapart i hi his (hold his hui) huj
        rwa [he.others i his]
      · rw [he.others i his, he.others j hjs]
        exact h.apart i j hi hj (hold his hui) (hold hjs huj) hij
  · by_cases his : i = slot
    · subst his
      refine .inr ⟨h0, (hnew fun hs => ?_).2⟩
      rw [IsReady, he.state, hs] at hi
      cases hi
    · rw [IsReady, he.others i his] at hi
      rcases h.built i hi with ho | ⟨hi0, hn⟩
      · exact .inl ho
      · simp only [he.others i his]
        refine .inr ⟨hi0, hn.congr rfl rfl (hag i hi0 fun hui => ?_)⟩
        rw [hui] at hi
        cases hi

/-- **A call that has found its slot finishes**, if nothing interrupts it, with the
invariant in force. -/
theorem ThreadsOk.builds (h : ThreadsOk Y L s) (name : List (BitVec 8))
    (hu : ¬ Used s.procs slot) (hf : a.FromPmm L) (ho : a.TablesOffHeap) (he : entry < 2 ^ 32)
    (hentry : s.entry slot = entry) :
    ∃ r k h', createOn (kernelEnv Y L a) s.procs s.heap slot entry name = some (r, k, h') ∧
      ThreadsOk Y L { s with procs := k, heap := h' } := by
  obtain ⟨live, bs, H, hbs⟩ := h.heap
  obtain ⟨p, h₁, a', hm, htab, hkeep, hz, hnz⟩ :=
    kmallocAligned_ok (n := kernelStackSize) H h.tables hf ho (H.noWrap (by decide))
  have hm' : (kernelEnv Y L a).kmallocAligned s.heap kernelStackSize = some (p, h₁) := by
    simp only [kernelEnv, hm, Option.map_some]
  -- the frames of threads that wait are in payloads that are kept
  have hag : ∀ i, i ≠ 0 → Used s.procs i → AgreeOn s.heap.mem h₁.mem
      (s.procs.process i).kernelStack ((s.procs.process i).kernelStack + kernelStackSize) := by
    intro i hi hui
    obtain ⟨b, hb⟩ := hbs i hi hui
    exact (hkeep b hb.mem hb.used).mono hb.lo hb.hi
  by_cases hp : p = 0
  · subst hp
    obtain ⟨k, hcr, hed⟩ := createOn_fails s.procs slot name entry hm'
    exact ⟨none, k, h₁, hcr, h.edit hu hed nofun hbs (hz rfl) (fun b hb _ => hb) htab hag
      fun hc => absurd rfl hc⟩
  · obtain ⟨live', bs', b, H', hkb, hb, -, hne⟩ := hnz hp
    obtain ⟨h1, h2⟩ := H'.addr_pos hb.mem
    have hend := H'.end_le
    have hlo := hb.lo
    have hhi := hb.hi
    have hbp : b.payload = b.addr + headerSize := rfl
    have hbig : heapMaxAddr < 2 ^ 32 := by decide
    obtain ⟨k, mem, hcr, hed, hks, hesp, hw, hout⟩ := createOn_builds s.procs slot name
      kernelEnv_wordStore hm' hp (by omega) Y.kthreadTrampoline.isLt he
    have hout' : ∀ x, ¬ InWin b.payload b.fin x → mem x = h₁.mem x := by
      intro x hx
      refine hout x fun hx' => hx ?_
      unfold InWin at *
      omega
    refine ⟨some slot, k, _, hcr, h.edit hu hed nofun hbs (H'.write hb.mem hout') hkb
      (htab.frame (agree_pageDirectory fun x hx => hout' x fun hx' => hx ?_)) (fun i hi hui => ?_)
      fun _ => ⟨⟨b, ?_, hne⟩, ?_, ?_, ?_⟩⟩
    · unfold InWin at *
      omega
    · -- the new block is not the one behind an older stack
      obtain ⟨d, hd⟩ := hbs i hi hui
      refine (hag i hi hui).trans ?_
      exact (H'.write_keeps hb.mem hout' (hkb d hd.mem hd.used) (hne d hd.mem hd.used)).mono hd.lo
        hd.hi
    · rw [hks]
      exact hb
    · rw [hks, hesp]
      unfold kernelStackSize
      omega
    · rw [hks, hesp]
      unfold kernelStackSize
      omega
    · rw [hesp, hentry]
      exact hw

end Build

/-! ## Runs -/

/-- No call, or a call of `kthread_create` that looks for a slot. -/
def IdleCall (Y : Symbols) (L : Layout) (c : Call) (a : Answers) : Prop :=
  c.rest = [] ∨
    (∃ i, c.rest = .scan i :: (allocStmts ++ createStmts Y.kthreadTrampoline.toNat c.entry)) ∧
    c.entry < 2 ^ 32 ∧ a.FromPmm L ∧ a.TablesOffHeap

/-- The running thread is building another one, and would end well. -/
structure UnderWay (Y : Symbols) (L : Layout) (s : Threads) (c : Slot) (k : ProcTable) (h : KHeap) :
    Prop where
  current : s.procs.current = some c
  others : ∀ i, i ≠ c → IdleCall Y L (s.call i) (s.answers i)
  building : (s.call c).Building
  noScan : ∀ i, Stmt.scan i ∉ (s.call c).rest
  finishes : Finishes (kernelEnv Y L (s.answers c)) (s.procs, s.heap, s.call c) (k, h)
  ends : ThreadsOk Y L { s with procs := k, heap := h }

def ThreadsInv (Y : Symbols) (L : Layout) (s : Threads) : Prop :=
  (ThreadsOk Y L s ∧ ∀ i, IdleCall Y L (s.call i) (s.answers i)) ∨ ∃ c k h, UnderWay Y L s c k h

section Runs

variable {Y : Symbols} {L : Layout} {s s' : Threads} {k : ProcTable} {h : KHeap} {c : Slot}

theorem ThreadsOk.same (ok : ThreadsOk Y L s) (hp : s'.procs = s.procs) (hh : s'.heap = s.heap)
    (ho : s'.out = s.out) (he : s'.entry = s.entry) : ThreadsOk Y L s' := by
  obtain ⟨h1, h2, h3, h4, h5, h6⟩ := ok
  constructor
  case holds => rw [hp]; exact h1
  case kernel => rw [hp]; exact h2
  case tables => rw [hh]; exact h3
  case heap => rw [hp, hh]; exact h4
  case apart => rw [hp]; exact h5
  case built => rw [hp, hh, ho, he]; exact h6

theorem ThreadsOk.mark (ok : ThreadsOk Y L s) (entry : Nat) {slot : Slot}
    (hu : ¬ Used s.procs slot) : ThreadsOk Y L (s.mark entry (some slot)) := by
  obtain ⟨h1, h2, h3, h4, h5, h6⟩ := ok
  refine ⟨h1, h2, h3, h4, h5, fun i hi => ?_⟩
  have his : i ≠ slot := by
    rintro rfl
    refine hu fun he => ?_
    have hi : (s.procs.process i).state = .ready := hi
    rw [he] at hi
    cases hi
  simp only [Threads.mark, Function.update_of_ne his]
  exact h6 i hi

theorem Call.Building.found {w : Call} (hb : w.Building) (k : ProcTable) : w.found k = none := by
  obtain ⟨st, rest, hr, hns⟩ := hb
  unfold Call.found
  rw [hr]
  cases st with
  | scan i => exact absurd rfl (hns i)
  | _ => rfl

theorem Call.step_building {σ : Type} {E : ProcEnv σ} {k : ProcTable} {s : σ} {c : Call}
    {x : ProcTable × σ × Call} (hb : c.Building) (hs : Call.step E k s c = some x) :
    x.1.current = k.current ∧ (x.2.2.rest = c.rest.tail ∨ x.2.2.rest = [.fail]) := by
  obtain ⟨entry, name, proc, sp, rest⟩ := c
  obtain ⟨st, rest', hr, hns⟩ := hb
  simp only at hr
  subst hr
  cases st with
  | scan i => exact absurd rfl (hns i)
  | stack =>
    obtain ⟨r, -, hs⟩ := Option.bind_eq_some_iff.mp hs
    cases hs
    exact ⟨rfl, .inl rfl⟩
  | push w =>
    obtain ⟨r, -, hs⟩ := Option.bind_eq_some_iff.mp hs
    cases hs
    exact ⟨rfl, .inl rfl⟩
  | check =>
    simp only [Call.step] at hs
    split at hs
    · cases hs
      exact ⟨rfl, .inr rfl⟩
    · cases hs
      exact ⟨rfl, .inl rfl⟩
  | _ =>
    cases hs
    exact ⟨rfl, .inl rfl⟩

/-- A statement of a thread that is being built. -/
theorem UnderWay.step (hw : UnderWay Y L s c k h) {x : ProcTable × KHeap × Call}
    (hx : Call.step (kernelEnv Y L (s.answers c)) s.procs s.heap (s.call c) = some x) :
    ThreadsInv Y L ({ s with procs := x.1, heap := x.2.1 }.setCall c x.2.2) := by
  obtain ⟨hcur, hrest⟩ := Call.step_building hw.building hx
  have hf := hw.finishes.next hx
  obtain ⟨k₁, h₁, w⟩ := x
  have hothers : ∀ i, i ≠ c →
      IdleCall Y L (({ s with procs := k₁, heap := h₁ }.setCall c w).call i) (s.answers i) := by
    intro i hi
    simp only [Threads.setCall, Function.update_of_ne hi]
    exact hw.others i hi
  have hcall : (({ s with procs := k₁, heap := h₁ } : Threads).setCall c w).call c = w :=
    Function.update_self ..
  by_cases hr : w.rest = []
  · -- the call has returned
    cases hf with
    | step hs => rw [Call.step_done hr] at hs; cases hs
    | done =>
      refine .inl ⟨hw.ends.same rfl rfl rfl rfl, fun i => ?_⟩
      by_cases hi : i = c
      · subst hi
        rw [hcall]
        exact .inl hr
      · exact hothers i hi
  · have hns : ∀ i, Stmt.scan i ∉ w.rest := by
      intro i hi
      rcases hrest with he | he
      · rw [he] at hi
        exact hw.noScan i (List.mem_of_mem_tail hi)
      · rw [he] at hi
        simp at hi
    obtain ⟨st, rest, hst⟩ := List.exists_cons_of_ne_nil hr
    refine .inr ⟨c, k, h, ?_⟩
    constructor
    case current => exact hcur.trans hw.current
    case others => exact hothers
    case building =>
      rw [hcall]
      refine ⟨st, rest, hst, ?_⟩
      rintro i rfl
      exact hns i (by rw [hst]; exact List.mem_cons_self)
    case noScan => rw [hcall]; exact hns
    case finishes => rw [hcall]; exact hf
    case ends => exact hw.ends.same rfl rfl rfl rfl

theorem IdleCall.update {call : Slot → Call} {answers : Slot → Answers} {w : Call} {a : Answers}
    (hidle : ∀ i, IdleCall Y L (call i) (answers i)) (hw : IdleCall Y L w a) (j : Slot) :
    IdleCall Y L (Function.update call c w j) (Function.update answers c a j) := by
  by_cases hj : j = c
  · subst hj
    rwa [Function.update_self, Function.update_self]
  · rw [Function.update_of_ne hj, Function.update_of_ne hj]
    exact hidle j

/-- The scan has come to a free slot: from here on the thread is being built. -/
theorem ThreadsOk.scan_found (ok : ThreadsOk Y L s)
    (hidle : ∀ i, IdleCall Y L (s.call i) (s.answers i)) (hc : s.procs.current = some c)
    {slot : Slot} {entry : Nat} {name : List (BitVec 8)} (sp : Nat)
    (hu : (s.procs.process slot).state = .unused) (he : entry < 2 ^ 32)
    (hf : (s.answers c).FromPmm L) (ho : (s.answers c).TablesOffHeap) :
    ThreadsInv Y L ({ s.mark entry (some slot) with procs := s.procs, heap := s.heap }.setCall c
      ⟨entry, name, slot, sp, allocStmts ++ createStmts Y.kthreadTrampoline.toNat entry⟩) := by
  have hnu : ¬ Used s.procs slot := fun h => h hu
  obtain ⟨r, k, h, hcr, hok⟩ :=
    (ok.mark entry hnu).builds name hnu hf ho he (Function.update_self ..)
  have hself : ∀ w, (({ s.mark entry (some slot) with
      procs := s.procs, heap := s.heap } : Threads).setCall c w).call c = w :=
    fun w => Function.update_self ..
  refine .inr ⟨c, k, h, ?_⟩
  constructor
  case current => exact hc
  case others =>
    intro j hj
    simp only [Threads.setCall, Threads.mark, Function.update_of_ne hj]
    exact hidle j
  case building =>
    rw [hself]
    exact ⟨_, _, rfl, fun i hi => by cases hi⟩
  case noScan =>
    rw [hself]
    simp [allocStmts, createStmts, frameWords]
  case finishes =>
    rw [hself]
    exact finishes_createOn _ hcr
  case ends => exact hok.same rfl rfl rfl rfl

/-- A statement of a thread that looks for a slot. -/
theorem ThreadsOk.scan (ok : ThreadsOk Y L s) (hidle : ∀ i, IdleCall Y L (s.call i) (s.answers i))
    (hc : s.procs.current = some c) {x : ProcTable × KHeap × Call}
    (hx : Call.step (kernelEnv Y L (s.answers c)) s.procs s.heap (s.call c) = some x) :
    ThreadsInv Y L ({ s.mark (s.call c).entry ((s.call c).found s.procs) with
      procs := x.1, heap := x.2.1 }.setCall c x.2.2) := by
  -- a call that does not find a slot here stays idle
  have hstay : ∀ w : Call, IdleCall Y L w (s.answers c) → ThreadsInv Y L (s.setCall c w) := by
    intro w hw
    refine .inl ⟨ok.same rfl rfl rfl rfl, fun j => ?_⟩
    have hj := IdleCall.update (c := c) hidle hw j
    rwa [Function.update_eq_self] at hj
  have hcall := hidle c
  generalize s.call c = w at hx hcall
  obtain ⟨entry, name, proc, sp, rest⟩ := w
  rcases hcall with hr | ⟨⟨i, hr⟩, he, hf, ho⟩
  · rw [Call.step_done hr] at hx
    cases hx
  simp only at hr he
  subst hr
  simp only [Call.step] at hx
  by_cases hi : i < maxProcesses
  · rw [dif_pos hi] at hx
    by_cases hu : (s.procs.process ⟨i, hi⟩).state = .unused
    · rw [if_pos hu, Option.some.injEq] at hx
      subst hx
      have hfound : Call.found s.procs ⟨entry, name, proc, sp,
          .scan i :: (allocStmts ++ createStmts Y.kthreadTrampoline.toNat entry)⟩ =
            some ⟨i, hi⟩ := by
        simp [Call.found, hi, hu]
      rw [hfound]
      exact ok.scan_found hidle hc sp hu he hf ho
    · rw [if_neg hu, Option.some.injEq] at hx
      subst hx
      have hfound : Call.found s.procs ⟨entry, name, proc, sp,
          .scan i :: (allocStmts ++ createStmts Y.kthreadTrampoline.toNat entry)⟩ = none := by
        simp [Call.found, hi, hu]
      rw [hfound]
      exact hstay _ (.inr ⟨⟨i + 1, rfl⟩, he, hf, ho⟩)
  · rw [dif_neg hi, Option.some.injEq] at hx
    subst hx
    have hfound : Call.found s.procs ⟨entry, name, proc, sp,
        .scan i :: (allocStmts ++ createStmts Y.kthreadTrampoline.toNat entry)⟩ = none := by
      simp [Call.found, hi]
    rw [hfound]
    exact hstay _ (.inl rfl)

/-- **One step.** -/
theorem ThreadsInv.step (P : Placed Y L) (hi : ThreadsInv Y L s) {op : ThreadOp}
    (ha : op.Allowed Y L s) (hcalm : op.Calm s) (hs : threadStep Y L s op = some s') :
    ThreadsInv Y L s' := by
  rcases hi with ⟨ok, hidle⟩ | ⟨c, k, h, hw⟩
  · cases op with
    | create entry name a =>
      obtain ⟨c, hc, rfl⟩ := Option.map_eq_some_iff.mp hs
      exact .inl ⟨ok.same rfl rfl rfl rfl,
        IdleCall.update hidle (.inr ⟨⟨0, rfl⟩, ha.2.1, ha.2.2, hcalm⟩)⟩
    | alloc a => exact hcalm.elim
    | stmt =>
      obtain ⟨c, hc, hs⟩ := Option.bind_eq_some_iff.mp hs
      obtain ⟨x, hx, hs⟩ := Option.bind_eq_some_iff.mp hs
      cases hs
      exact ok.scan hidle hc hx
    | tick m =>
      cases hs
      refine .inl ⟨ok.schedule P ha, ?_⟩
      rw [Threads.schedule]
      split <;> exact hidle
    | exit m =>
      obtain ⟨sw, hp, rfl⟩ := Option.map_eq_some_iff.mp hs
      refine .inl ⟨ok.exited.schedule P ha.2, ?_⟩
      rw [Threads.schedule]
      split <;> exact hidle
  · -- a thread is being built: only its next statement can follow
    have hbusy : ¬ s.Free := fun hfree => by
      obtain ⟨st, rest, hr, -⟩ := hw.building
      rw [hfree c hw.current] at hr
      cases hr
    cases op with
    | create entry name a => exact absurd ha.1 hbusy
    | alloc a => exact hcalm.elim
    | stmt =>
      obtain ⟨c', hc, hs⟩ := Option.bind_eq_some_iff.mp hs
      obtain rfl : c' = c := Option.some.inj (hc.symm.trans hw.current)
      obtain ⟨x, hx, hs⟩ := Option.bind_eq_some_iff.mp hs
      cases hs
      rw [hw.building.found]
      exact hw.step hx
    | tick m => exact absurd hw.building (hcalm c hw.current)
    | exit m => exact absurd ha.1 hbusy

theorem bootThreads_inv {L : Layout} {m : Bytes} {a a' : Answers} {h : KHeap} (hf : a.FromPmm L)
    (ho : a.TablesOffHeap) (hboot : bootHeap L m a = some (true, h, a')) :
    ThreadsInv Y L (bootThreads Y L h) := by
  obtain ⟨⟨bs, H⟩, hT⟩ := bootHeap_inv hf ho hboot
  have hruns := bootTable_runs (kernelEnv Y L ⟨[], []⟩)
  have hzero : ∀ i, i ≠ 0 → ¬ Used (bootThreads Y L h).procs i := by
    intro i hi hu
    refine hu ?_
    simp [bootThreads, bootTable, schedulerInit, processInit, hi, Pcb.zeroed]
  refine .inl ⟨⟨⟨0, hruns.toHolds⟩, hruns.used, hT,
    ⟨[], bs, H, fun i hi hu => absurd hu (hzero i hi)⟩,
    fun i j hi _ hu => absurd hu (hzero i hi), fun i hi => ?_⟩, fun _ => .inl rfl⟩
  by_cases h0 : i = 0
  · subst h0
    exact absurd hi hruns.notReady
  · refine absurd (fun he => ?_) (hzero i h0)
    rw [IsReady, he] at hi
    cases hi

/-- Left alone, a call that has found its slot returns. -/
theorem Finishes.run (guard : Threads → ThreadOp → Prop) (hg : ∀ s, guard s .stmt) {a : Answers}
    {x : ProcTable × KHeap × Call} {r : ProcTable × KHeap} (hf : Finishes (kernelEnv Y L a) x r)
    (s : Threads) (hx : x = (s.procs, s.heap, s.call c)) (ha : s.answers c = a)
    (hc : s.procs.current = some c) (hns : ∀ i, Stmt.scan i ∉ (s.call c).rest) :
    ∃ n s', Run (threadStep Y L) guard s (List.replicate n .stmt) s' ∧ s'.procs = r.1 ∧
      s'.heap = r.2 ∧ s'.out = s.out ∧ s'.entry = s.entry ∧ (s'.call c).rest = [] := by
  induction hf generalizing s with
  | done hd =>
    obtain ⟨rfl, rfl, rfl⟩ := by simpa only [Prod.mk.injEq] using hx
    exact ⟨0, s, .nil _, rfl, rfl, rfl, rfl, hd⟩
  | @step k h w x r hs _ ih =>
    obtain ⟨rfl, rfl, rfl⟩ := by simpa only [Prod.mk.injEq] using hx
    -- the next statement is not a scan
    obtain ⟨st, rest, hst⟩ : ∃ st rest, (s.call c).rest = st :: rest := by
      refine List.exists_cons_of_ne_nil fun hd => ?_
      rw [Call.step_done hd] at hs
      cases hs
    have hb : (s.call c).Building := by
      refine ⟨st, rest, hst, ?_⟩
      rintro i rfl
      exact hns i (by rw [hst]; exact List.mem_cons_self)
    obtain ⟨hcur, hrest⟩ := Call.step_building hb hs
    obtain ⟨n, s', hrun, h1, h2, h3, h4, h5⟩ :=
      ih ({ s with procs := x.1, heap := x.2.1 }.setCall c x.2.2)
      (by simp [Threads.setCall]) ha (hcur.trans hc) (by
        intro i hi
        simp only [Threads.setCall, Function.update_self] at hi
        rcases hrest with he | he
        · rw [he] at hi
          exact hns i (List.mem_of_mem_tail hi)
        · rw [he] at hi
          simp at hi)
    refine ⟨n + 1, s', .cons (hg _) ?_ hrun, h1, h2, h3, h4, h5⟩
    have hfound := hb.found s.procs
    simp only [threadStep, hc, ha, hs, hfound, Option.bind_eq_bind, Option.bind_some]
    rfl

end Runs

/-- **Only complete threads are switched to.** In a run in which no tick interrupts
`kthread_create` between the scan that finds its slot and the statement that sets
`kernel_esp`, every process selected for the first time is at its complete frame. -/
theorem built_threads {Y : Symbols} {L : Layout} (P : Placed Y L) {m₀ : Bytes} {a a' : Answers}
    {h : KHeap} (hf : a.FromPmm L) (ho : a.TablesOffHeap)
    (hboot : bootHeap L m₀ a = some (true, h, a'))
    {ops : List ThreadOp} {s : Threads} (hrun : Run (threadStep Y L)
      (fun s op => op.Allowed Y L s ∧ op.Calm s) (bootThreads Y L h) ops s)
    {op : ThreadOp} {sw : Switch} {m : Cpu} (ha : op.Allowed Y L s) (hcalm : op.Calm s)
    (hsel : op.selects s = some (sw, m)) (hout : s.out sw.next = false) :
    StartsThread Y (s.procs.process sw.next) (s.entry sw.next) m := by
  have hinv : ThreadsInv Y L s := hrun.invariant (ThreadsInv Y L)
    (fun hi hg hs => hi.step P hg.1 hg.2 hs) (bootThreads_inv hf ho hboot)
  rcases hinv with ⟨ok, -⟩ | ⟨c, k, h, hw⟩
  · cases op with
    | tick m' =>
      obtain ⟨sw', hp, he⟩ := Option.map_eq_some_iff.mp hsel
      cases he
      exact ok.starts P ha hp hout
    | exit m' =>
      obtain ⟨sw', hp, he⟩ := Option.map_eq_some_iff.mp hsel
      cases he
      have hst := ok.exited.starts P ha.2 hp hout
      obtain ⟨c, hc⟩ := ok.holds
      have hne : sw.next ≠ c := by
        rintro rfl
        exact hc.notReady ((hc.ready_exit _).mp (hc.exit.pick_some hp).2.1)
      rwa [Threads.exited, exitCurrent_eq hc.current, ProcTable.setState,
        ProcTable.modify_ne _ _ hne] at hst
    | create => cases hsel
    | alloc => cases hsel
    | stmt => cases hsel
  · cases op with
    | tick m' => exact absurd hw.building (hcalm c hw.current)
    | exit m' =>
      obtain ⟨st, rest, hr, -⟩ := hw.building
      rw [ha.1 c hw.current] at hr
      cases hr
    | create => cases hsel
    | alloc => cases hsel
    | stmt => cases hsel

/-! ## Two runs -/

theorem atSwitch_boot {s : Threads} {w : Switch} (hc : s.procs.current = some 0)
    (hp : pickNext s.procs = some w) (hold : w.old = 0)
    (hesp : (s.procs.process w.next).kernelEsp < 2 ^ 32) :
    AtSwitch sampleSymbols s
      (plainCall sampleSymbols s.procs w (sampleCpu 0xC011F000 s.heap.mem)) := by
  have hstack : stackOf sampleSymbols s.procs w.old = ⟨0xC011C000, 0xC0120000⟩ := by
    rw [hold]
    rfl
  have hsp : (sampleCpu 0xC011F000 s.heap.mem).sp = 0xC011F000 := rfl
  have haddr : sampleSymbols.kernelEspAddr w.old < 2 ^ 32 := by
    rw [hold]
    decide
  obtain ⟨hcalls, hpush⟩ := plainCall_calls (m := sampleCpu 0xC011F000 s.heap.mem)
    (by rw [hstack, hsp]; decide) (by rw [hstack, hsp]; decide) (by rw [hstack]; decide) haddr hesp
  have hmsp := hpush.sp
  rw [hsp] at hmsp
  simp only [List.length_cons, List.length_nil] at hmsp
  refine ⟨fun c hc' x hx => ?_, fun w' hw => ?_⟩
  · obtain rfl : c = 0 := Option.some.inj (hc'.symm.trans hc)
    rw [← hold, hstack] at hx
    refine hpush.frame x fun hx' => hx ?_
    rw [hsp] at hx'
    unfold InWin at *
    simp only
    omega
  · obtain rfl : w' = w := Option.some.inj (hw.symm.trans hp)
    exact hcalls

/-- PID 0 is in `process_alloc`, and has just made slot 1 `READY`. -/
def readyRun : List ThreadOp :=
  [.create 0xC0106000 [] ⟨[], []⟩, .stmt, .stmt, .stmt, .stmt, .stmt]

/-- **A tick right after `proc->state = PROCESS_READY`** selects a process without a
stack: `context_switch` is called with stack pointer 0. -/
theorem tick_after_ready : ∃ h a' s m,
    bootHeap sampleLayout (fun _ => 0) sampleBoot = some (true, h, a') ∧
    Run (threadStep sampleSymbols sampleLayout)
      (fun s op => op.Allowed sampleSymbols sampleLayout s)
      (bootThreads sampleSymbols sampleLayout h) readyRun s ∧
    (ThreadOp.tick m).Allowed sampleSymbols sampleLayout s ∧
    (ThreadOp.tick m).selects s = some (⟨0, 1⟩, m) ∧ s.out 1 = false ∧
    (s.procs.process 1).kernelStack = 0 ∧ (s.procs.process 1).kernelEsp = 0 ∧
    ¬ StartsThread sampleSymbols (s.procs.process 1) (s.entry 1) m := by
  obtain ⟨hf, ho, -⟩ := sampleBoot_ok
  obtain ⟨h, a', hb⟩ := sampleBoot_succeeds fun _ => 0
  obtain ⟨s, hrun, hcur, hpick, hout, hst, hesp⟩ : ∃ s, Run (threadStep sampleSymbols sampleLayout)
      (fun s op => op.Allowed sampleSymbols sampleLayout s)
      (bootThreads sampleSymbols sampleLayout h) readyRun s ∧ s.procs.current = some 0 ∧
      pickNext s.procs = some ⟨0, 1⟩ ∧ s.out 1 = false ∧ (s.procs.process 1).kernelStack = 0 ∧
      (s.procs.process 1).kernelEsp = 0 := by
    have hfree : (ThreadOp.create 0xC0106000 [] ⟨[], []⟩).Allowed sampleSymbols sampleLayout
        (bootThreads sampleSymbols sampleLayout h) :=
      ⟨fun _ _ => rfl, by omega, nofun⟩
    exact ⟨_, .cons hfree rfl (.cons trivial rfl (.cons trivial rfl (.cons trivial rfl
      (.cons trivial rfl (.cons trivial rfl (.nil _)))))), rfl, rfl, rfl, rfl, rfl⟩
  have hat := atSwitch_boot hcur hpick rfl (by rw [hesp]; omega)
  generalize plainCall sampleSymbols s.procs ⟨0, 1⟩ (sampleCpu 0xC011F000 s.heap.mem) = m at hat
  refine ⟨h, a', s, m, hb, hrun, hat, ?_, hout, hst, hesp, fun hs => hs.stack hst⟩
  simp [ThreadOp.selects, hpick]

theorem sample_placed : Placed sampleSymbols sampleLayout := by
  constructor
  · decide
  · decide
  · decide
  · decide

/-- The first thread that PID 0 creates is at its frame when the next tick selects it. -/
theorem built_threads_first : ∃ s m, (ThreadOp.tick m).selects s = some (⟨0, 1⟩, m) ∧
    StartsThread sampleSymbols (s.procs.process 1) (s.entry 1) m := by
  obtain ⟨hf, ho, -⟩ := sampleBoot_ok
  obtain ⟨h, a', hb⟩ := sampleBoot_succeeds fun _ => 0
  -- the call finds slot 1
  obtain ⟨s₁, hrun, hprocs, hheap, hcall, hans, hout⟩ :
      ∃ s₁, Run (threadStep sampleSymbols sampleLayout)
      (fun s op => op.Allowed sampleSymbols sampleLayout s ∧ op.Calm s)
      (bootThreads sampleSymbols sampleLayout h)
      [.create 0xC0106000 [] ⟨[], []⟩, .stmt, .stmt] s₁ ∧
      s₁.procs = bootTable (kernelEnv sampleSymbols sampleLayout ⟨[], []⟩) ∧ s₁.heap = h ∧
      s₁.call 0 = ⟨0xC0106000, [], 1, 0,
        allocStmts ++ createStmts sampleSymbols.kthreadTrampoline.toNat 0xC0106000⟩ ∧
      s₁.answers 0 = ⟨[], []⟩ ∧ s₁.out 1 = false := by
    refine ⟨_, .cons ⟨⟨fun _ _ => rfl, by omega, noAnswers_fromPmm _⟩, noAnswers_tablesOffHeap⟩ rfl
      (.cons ⟨trivial, trivial⟩ rfl
      (.cons ⟨trivial, trivial⟩ rfl (.nil _))), rfl, rfl, rfl, rfl, rfl⟩
  -- left alone, it returns a complete thread
  obtain ⟨h₁, -, hm, -⟩ := kmallocAligned_boot (bootHeap_ok hf ho hb).1 sampleLayout ⟨[], []⟩
  have hm' : (kernelEnv sampleSymbols sampleLayout ⟨[], []⟩).kmallocAligned s₁.heap
      kernelStackSize = some (0xC0401000, h₁) := by
    rw [hheap, kernelEnv]
    simp only [kernelStackSize, hm, Option.map_some]
  obtain ⟨k, mem, hcr, hed, -, hesp, -, -⟩ := createOn_builds s₁.procs 1 [] kernelEnv_wordStore hm'
    (by omega) (by unfold kernelStackSize; omega) sampleSymbols.kthreadTrampoline.isLt
    (show 0xC0106000 < 2 ^ 32 by omega)
  have hruns : Runs s₁.procs 0 := by rw [hprocs]; exact bootTable_runs _
  obtain ⟨n, s₂, hrun₂, hp₂, -, ho₂, -, hdone⟩ := (finishes_createOn 0 hcr).run (c := 0)
    (fun s op => op.Allowed sampleSymbols sampleLayout s ∧ op.Calm s)
    (fun _ => ⟨trivial, trivial⟩) s₁ (by rw [hcall]; rfl) hans hruns.current (by
      rw [hcall]
      simp [allocStmts, createStmts, frameWords])
  -- slot 1 is the only one that is ready
  have hholds : Holds k 0 := hruns.toHolds.edit hed (by decide) (by decide)
  have hnext : nextSlot k 0 = some 1 := by
    refine nextSlot_some.mpr ⟨hed.state, fun x hx => ?_⟩
    by_cases hx1 : x = 1
    · rw [hx1]
    · rw [IsReady, hed.others x hx1, hprocs] at hx
      by_cases hx0 : x = 0
      · simp [hx0, bootTable, schedulerInit, processInit] at hx
      · simp [hx0, bootTable, schedulerInit, processInit, Pcb.zeroed] at hx
  have hpick : pickNext s₂.procs = some ⟨0, 1⟩ := by
    rw [hp₂, hholds.pickNext, hnext]
    rfl
  have hat := atSwitch_boot (s := s₂) (w := ⟨0, 1⟩) (by rw [hp₂]; exact hholds.current) hpick rfl
    (by rw [hp₂]; simp only; rw [hesp]; unfold kernelStackSize; omega)
  generalize plainCall sampleSymbols s₂.procs ⟨0, 1⟩ (sampleCpu 0xC011F000 s₂.heap.mem) = m at hat
  have hsel : (ThreadOp.tick m).selects s₂ = some (⟨0, 1⟩, m) := by simp [ThreadOp.selects, hpick]
  have hcur : s₂.procs.current = some 0 := by rw [hp₂]; exact hholds.current
  have hall : (ThreadOp.tick m).Allowed sampleSymbols sampleLayout s₂ := hat
  refine ⟨s₂, m, hsel, built_threads sample_placed hf ho hb (hrun.append hrun₂) hall ?_ hsel ?_⟩
  · intro c hc
    obtain rfl : c = 0 := Option.some.inj (hc.symm.trans hcur)
    rintro ⟨st, rest, hr, -⟩
    rw [hdone] at hr
    cases hr
  · rw [ho₂]
    exact hout

end TupleOS.Process
