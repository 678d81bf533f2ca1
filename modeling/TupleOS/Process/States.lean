import TupleOS.Process.Steps

/-!
# The state machine of the process table

After `process_init` and `scheduler_init`, threads are created, preempted, exit
and are freed. Exactly one slot is `RUNNING`, the one `current_process` points
to; slot 0 stays runnable, so the `schedule()` of `kthread_exit` always finds a
process; and a zombie stays one until it is freed (`table_states`).
-/

namespace TupleOS.Process

open TupleOS.Base

variable {σ : Type} {E : ProcEnv σ} {k k' : ProcTable} {s s' : σ} {c slot : Slot}

/-- Slot 0 is the kernel and runnable, and all processes share its directory. -/
structure KernelOk (E : ProcEnv σ) (k : ProcTable) : Prop where
  pid : (k.process 0).pid = 0
  kernel : (k.process 0).Runnable
  directory : ∀ i, (k.process i).state ≠ .unused →
    (k.process i).pageDirectory = E.pagingGetDirectory

/-! ## `schedule` and `kthread_exit` -/

theorem KernelOk.switch (h : KernelOk E k) (hc : Holds k c) {b : Slot} (hb : IsReady k b) :
    KernelOk E (k.switch ⟨c, b⟩) where
  pid := by rw [switch_process]; exact h.pid
  kernel := by
    unfold Pcb.Runnable
    rw [switch_process]
    simp only [switchState]
    split
    · exact .inr rfl
    · split
      · exact .inl rfl
      · exact h.kernel
  directory i hi := by
    rw [switch_process]
    refine h.directory i fun hu => hi ?_
    have hib : i ≠ b := by
      rintro rfl
      rw [IsReady, hu] at hb
      cases hb
    have hic : i ≠ c := by
      rintro rfl
      exact hc.used hu
    simp [switch_process, switchState, hib, hic, hu]

theorem KernelOk.exit (h : KernelOk E k) (hc : Runs k c) (h0 : c ≠ 0) :
    KernelOk E (exitCurrent k) := by
  rw [exitCurrent_eq hc.current]
  have hst : ∀ i, i ≠ c → (k.setState c .zombie).process i = k.process i :=
    fun i hi => ProcTable.modify_ne _ _ hi
  refine ⟨?_, ?_, fun i hi => ?_⟩
  · rw [hst 0 h0.symm]; exact h.pid
  · rw [hst 0 h0.symm]; exact h.kernel
  · by_cases hic : i = c
    · subst hic
      rw [ProcTable.setState, ProcTable.modify_same]
      exact h.directory i hc.used
    · rw [hst i hic] at hi ⊢
      exact h.directory i hi

/-- **The `schedule()` of `kthread_exit` finds a process**: slot 0 at the latest. -/
theorem KernelOk.exit_switches (h : KernelOk E k) (hc : Runs k c) (h0 : c ≠ 0) (s : σ) :
    ∃ b, IsReady k b ∧
      kthreadExit E k s = some (some ⟨c, b⟩, (exitCurrent k).switch ⟨c, b⟩, s) := by
  have hx := h.exit hc h0
  have hzero : IsReady (exitCurrent k) 0 := by
    rcases hx.kernel with hr | hr
    · exact hr
    · exact absurd (hc.exit.running 0 hr).symm h0
  obtain ⟨b, hb⟩ : ∃ b, nextSlot (exitCurrent k) c = some b := by
    cases hn : nextSlot (exitCurrent k) c with
    | none => exact absurd hzero (nextSlot_none.mp hn 0)
    | some b => exact ⟨b, rfl⟩
  have hready := (nextSlot_some.mp hb).1
  refine ⟨b, (hc.ready_exit b).mp hready, schedule_switch ?_ ?_⟩
  · rw [hc.exit.pickNext, hb]; rfl
  · rw [hx.directory b (by rw [hready]; nofun), hx.directory c hc.exit.used]

/-! ## `kthread_create` and `process_free` -/

theorem KernelOk.edit (h : KernelOk E k) {st : ProcessState} (he : EditsSlot k k' slot st)
    (hold : ¬ (k.process slot).Runnable) (hst : st = .unused ∨
      st = .ready ∧ (k'.process slot).pageDirectory = E.pagingGetDirectory) :
    KernelOk E k' := by
  have h0 : (0 : Slot) ≠ slot := by
    rintro rfl
    exact hold h.kernel
  refine ⟨?_, ?_, fun i hi => ?_⟩
  · rw [he.others 0 h0]; exact h.pid
  · rw [he.others 0 h0]; exact h.kernel
  · by_cases his : i = slot
    · subst his
      rcases hst with rfl | ⟨-, hd⟩
      · exact absurd he.state hi
      · exact hd
    · rw [he.others i his] at hi ⊢
      exact h.directory i hi

/-! ## Runs -/

/-- The table between two calls of a run. -/
def TableOk (E : ProcEnv σ) (k : ProcTable) : Prop := KernelOk E k ∧ ∃ c, Runs k c

/-- The calls of a run: a thread other than PID 0 may exit, and zombies that do
not run are freed. -/
def ProcOp.Allowed (k : ProcTable) (op : ProcOp) : Prop :=
  op.Sound k ∧ (op = .exit → ∃ c, k.current = some c ∧ (k.process c).pid ≠ 0)

/-- What a call may do to a zombie: leave it, or free it. -/
def ZombieKept (k k' : ProcTable) (op : ProcOp) : Prop :=
  ∀ z, (k.process z).state = .zombie → op.selected k ≠ some z ∧
    ((k'.process z).state = .zombie ∨ (op = .free z ∧ (k'.process z).state = .unused))

theorem not_runnable_of {st : ProcessState} (h : (k.process slot).state = st)
    (hst : st = .unused ∨ st = .zombie) : ¬ (k.process slot).Runnable := by
  rintro (hr | hr) <;> rcases hst with rfl | rfl <;> rw [h] at hr <;> cases hr

theorem zombie_switch {b z : Slot} (hb : IsReady k b) (hz : (k.process z).state = .zombie) :
    z ≠ b ∧ ((k.switch ⟨c, b⟩).process z).state = .zombie := by
  have hzb : z ≠ b := by
    rintro rfl
    rw [IsReady, hz] at hb
    cases hb
  refine ⟨hzb, ?_⟩
  rw [switch_process]
  simp only [switchState, hzb, ↓reduceIte]
  split
  · rename_i hzc
    rw [← hzc.1, hz] at hzc
    cases hzc.2
  · exact hz

theorem zombie_exit (hc : Runs k c) {z : Slot} (hz : (k.process z).state = .zombie) :
    ((exitCurrent k).process z).state = .zombie := by
  rw [exitCurrent_eq hc.current, ProcTable.setState]
  by_cases hzc : z = c
  · subst hzc; rw [ProcTable.modify_same]
  · rw [ProcTable.modify_ne _ _ hzc]; exact hz

theorem zombie_create {st : ProcessState} {entry : Nat} {name : List (BitVec 8)}
    (he : EditsSlot k k' slot st) (hu : (k.process slot).state = .unused) :
    ZombieKept k k' (.create entry name) := by
  intro z hz
  refine ⟨nofun, .inl ?_⟩
  rw [he.others z (by rintro rfl; rw [hu] at hz; cases hz)]
  exact hz

/-- **One call** keeps the table in order and touches zombies by `process_free` only. -/
theorem TableOk.step (h : TableOk E k) {op : ProcOp} (ho : op.Allowed k)
    (hs : procStep E (k, s) op = some (k', s')) : TableOk E k' ∧ ZombieKept k k' op := by
  obtain ⟨hk, c, hc⟩ := h
  have hedit : ∀ {slot st}, EditsSlot k k' slot st → ¬ (k.process slot).Runnable →
      (st = .unused ∨ st = .ready ∧ (k'.process slot).pageDirectory = E.pagingGetDirectory) →
      TableOk E k' := by
    intro slot st he hold hst
    refine ⟨hk.edit he hold hst, c, hc.edit he (fun hr => hold (.inr hr)) ?_⟩
    rcases hst with rfl | ⟨rfl, -⟩ <;> nofun
  cases op with
  | create entry name =>
    obtain ⟨⟨r, k1, s1⟩, hcr, he⟩ := Option.map_eq_some_iff.mp hs
    simp only [Prod.mk.injEq] at he
    obtain ⟨rfl, rfl⟩ := he
    rcases kthreadCreate_cases hcr with ⟨-, rfl | ⟨slot, hu, he⟩⟩ | ⟨slot, -, hu, he, hd⟩
    · exact ⟨⟨hk, c, hc⟩, fun z hz => ⟨nofun, .inl hz⟩⟩
    · exact ⟨hedit he (not_runnable_of hu (.inl rfl)) (.inl rfl), zombie_create he hu⟩
    · exact ⟨hedit he (not_runnable_of hu (.inl rfl)) (.inr ⟨rfl, hd⟩), zombie_create he hu⟩
  | tick =>
    obtain ⟨⟨r, k1, s1⟩, hsc, he⟩ := Option.map_eq_some_iff.mp hs
    simp only [Prod.mk.injEq] at he
    obtain ⟨rfl, rfl⟩ := he
    obtain ⟨rfl, rfl⟩ := schedule_cases hsc
    have hsel : ProcOp.selected k .tick = (pickNext k).map Switch.next := rfl
    cases hp : pickNext k with
    | none =>
      refine ⟨⟨hk, c, hc⟩, fun z hz => ⟨?_, .inl hz⟩⟩
      rw [hsel, hp]; nofun
    | some sw =>
      obtain ⟨rfl, hn⟩ := hc.pick_some hp
      refine ⟨⟨hk.switch hc.toHolds hn.1, sw.next, hc.switch sw.next⟩, fun z hz => ?_⟩
      obtain ⟨hzb, hzs⟩ := zombie_switch (c := sw.old) hn.1 hz
      refine ⟨?_, .inl hzs⟩
      rw [hsel, hp, Option.map_some, ne_eq, Option.some.injEq]
      exact hzb.symm
  | exit =>
    obtain ⟨c', hc', hpid⟩ := ho.2 rfl
    obtain rfl : c' = c := Option.some.inj (hc'.symm.trans hc.current)
    have h0 : c' ≠ 0 := by
      rintro rfl
      exact hpid hk.pid
    obtain ⟨b, hb, hx⟩ := hk.exit_switches hc h0 s
    have hstep : procStep E (k, s) .exit = some ((exitCurrent k).switch ⟨c', b⟩, s) := by
      simp only [procStep, hx]
      rfl
    rw [hstep, Option.some.injEq, Prod.mk.injEq] at hs
    obtain ⟨rfl, rfl⟩ := hs
    have hb' := (hc.ready_exit b).mpr hb
    refine ⟨⟨(hk.exit hc h0).switch hc.exit hb', b, hc.exit.switch b⟩, fun z hz => ?_⟩
    obtain ⟨hzb, hzs⟩ := zombie_switch (c := c') hb' (zombie_exit hc hz)
    refine ⟨?_, .inl hzs⟩
    show (pickNext (exitCurrent k)).map Switch.next ≠ some z
    rw [← (schedule_cases hx).1, Option.map_some, ne_eq, Option.some.injEq]
    exact hzb.symm
  | free slot =>
    obtain ⟨hz, -⟩ := ho.1
    rcases processFree_cases hs with ⟨-, rfl⟩ | he
    · exact ⟨⟨hk, c, hc⟩, fun z hz => ⟨nofun, .inl hz⟩⟩
    · refine ⟨hedit he (not_runnable_of hz (.inr rfl)) (.inl rfl), fun z hz' => ⟨nofun, ?_⟩⟩
      by_cases hzs : z = slot
      · subst hzs; exact .inr ⟨rfl, he.state⟩
      · rw [he.others z hzs]; exact .inl hz'

theorem bootTable_ok (E : ProcEnv σ) : TableOk E (bootTable E) := by
  refine ⟨⟨rfl, .inr rfl, fun i hi => ?_⟩, 0, bootTable_runs E⟩
  by_cases hi0 : i = 0
  · subst hi0; rfl
  · simp [bootTable, schedulerInit, processInit, hi0, Pcb.zeroed] at hi

/-- The states of the table: one slot runs, and `current_process` points to it;
slot 0 is runnable and has PID 0. -/
structure TableStates (k : ProcTable) : Prop where
  one : ∃ c, k.current = some c ∧ ∀ i, (k.process i).state = .running ↔ i = c
  kernel : (k.process 0).pid = 0 ∧ (k.process 0).Runnable

theorem TableOk.states (h : TableOk E k) : TableStates k := by
  obtain ⟨hk, c, hc⟩ := h
  refine ⟨⟨c, hc.current, fun i => ⟨hc.running i, ?_⟩⟩, hk.pid, hk.kernel⟩
  rintro rfl
  exact hc.runs

/-- **The state machine of the process table.** In every state of every run, one
slot runs and it is the current one, and slot 0 is runnable; every further call
selects no zombie and changes none, except that `process_free` empties its slot;
and a thread other than PID 0 that exits always switches to a ready process. -/
theorem table_states {ops : List ProcOp} {s₀ : σ}
    (h : Run (procStep E) (fun x op => op.Allowed x.1) (bootTable E, s₀) ops (k, s)) :
    TableStates k ∧
    (∀ op k' s', op.Allowed k → procStep E (k, s) op = some (k', s') → ZombieKept k k' op) ∧
    (∀ c, k.current = some c → (k.process c).pid ≠ 0 → ∃ b, IsReady k b ∧
      kthreadExit E k s = some (some ⟨c, b⟩, (exitCurrent k).switch ⟨c, b⟩, s)) := by
  have hok : TableOk E k := by
    refine h.invariant (fun x => TableOk E x.1) ?_ (bootTable_ok E)
    rintro ⟨k, s⟩ op ⟨k', s'⟩ hk ho hs
    exact (hk.step ho hs).1
  refine ⟨hok.states, fun op k' s' ho hs => (hok.step ho hs).2, fun c' hc' hpid => ?_⟩
  obtain ⟨hk, c, hc⟩ := hok
  obtain rfl : c' = c := Option.some.inj (hc'.symm.trans hc.current)
  refine hk.exit_switches hc ?_ s
  rintro rfl
  exact hpid hk.pid

/-- One thread, created and switched to: its exit finds the kernel. -/
theorem table_states_sample : ∃ k s, Run (procStep sampleEnv) (fun x op => op.Allowed x.1)
      (bootTable sampleEnv, 0xC0401000) [.create 0xC0101000 [], .tick] (k, s) ∧
    TableStates k ∧ ∃ b, IsReady k b ∧
      kthreadExit sampleEnv k s = some (some ⟨1, b⟩, (exitCurrent k).switch ⟨1, b⟩, s) := by
  have hrun : Run (procStep sampleEnv) (fun x op => op.Allowed x.1)
      (bootTable sampleEnv, 0xC0401000) [.create 0xC0101000 [], .tick] _ :=
    .cons ⟨trivial, nofun⟩ rfl (.cons ⟨trivial, nofun⟩ rfl (.nil _))
  obtain ⟨h1, -, h3⟩ := table_states hrun
  exact ⟨_, _, hrun, h1, h3 1 rfl (by decide)⟩

end TupleOS.Process
