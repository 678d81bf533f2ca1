import TupleOS.Base.Run
import TupleOS.Process.Table

/-!
# What the process operations do to the table

One description per operation: `kthread_create` fills one unused slot or leaves
every process as it is, `process_free` empties its slot, and `schedule` moves
`RUNNING` to the nearest `READY` slot after the current one. `procStep` puts them
together as the steps of a run, for any heap and any address spaces behind them.
-/

namespace TupleOS.Process

open TupleOS.Base

def IsReady (k : ProcTable) (i : Slot) : Prop := (k.process i).state = .ready

instance (k : ProcTable) (i : Slot) : Decidable (IsReady k i) :=
  inferInstanceAs (Decidable (_ = _))

/-! ## `schedule` -/

section Pick

variable {k : ProcTable} {c b : Slot}

theorem ready_test (k : ProcTable) (i : Slot) :
    ((processGetBySlot k i).any fun p => decide ((k.process p).state = .ready)) =
      decide (IsReady k i) := by
  rw [Bool.eq_iff_iff, decide_eq_true_eq]
  unfold processGetBySlot IsReady
  by_cases h : (k.process i).state = .unused
  · simp [h]
  · simp [h]

theorem nextSlot_some : nextSlot k c = some b ↔ Nearest (IsReady k) c b := by
  unfold nextSlot Nearest
  rw [find_circle]
  simp only [ready_test, decide_eq_true_eq]

theorem nextSlot_none : nextSlot k c = none ↔ ∀ i, ¬ IsReady k i := by
  unfold nextSlot
  rw [find_circle_none]
  simp only [ready_test, decide_eq_false_iff_not]

theorem currentSlot_self (h : (k.process c).state ≠ .unused) : currentSlot k c = some c := by
  have hf : ∀ i, (processGetBySlot k i = some c) ↔ i = c := by
    intro i
    unfold processGetBySlot
    by_cases hi : (k.process i).state = .unused
    · rw [if_pos hi]
      refine ⟨nofun, ?_⟩
      rintro rfl
      exact absurd hi h
    · rw [if_neg hi, Option.some.injEq]
  unfold currentSlot
  simp only [hf]
  obtain ⟨a, ha⟩ := Option.isSome_iff_exists.mp (List.find?_isSome.mpr
    (⟨c, List.mem_finRange c, decide_eq_true rfl⟩ :
      ∃ x, x ∈ List.finRange maxProcesses ∧ decide (x = c) = true))
  have := List.find?_some ha
  rw [decide_eq_true_eq] at this
  rw [ha, this]

theorem pickNext_eq (he : k.schedulerEnabled = true) (hc : k.current = some c)
    (hu : (k.process c).state ≠ .unused) :
    pickNext k = (nextSlot k c).map fun b => ⟨c, b⟩ := by
  unfold pickNext
  rw [if_pos he, hc]
  simp only [Option.bind_eq_bind, Option.bind_some, currentSlot_self hu]
  cases nextSlot k c <;> rfl

end Pick

section Switch

variable {k : ProcTable} {sw : Switch} {i : Slot}

/-- The state a slot has after a switch. -/
def switchState (k : ProcTable) (sw : Switch) (i : Slot) : ProcessState :=
  if i = sw.next then .running
  else if i = sw.old ∧ (k.process sw.old).state = .running then .ready
  else (k.process i).state

theorem switch_process : (k.switch sw).process i =
    { k.process i with state := switchState k sw i } := by
  obtain ⟨old, next⟩ := sw
  simp only [ProcTable.switch, switchState, ProcTable.setState]
  by_cases ho : (k.process old).state = .running
  · by_cases hn : i = next
    · subst hn
      by_cases hio : i = old
      · subst hio; simp [ho]
      · simp [ho, hio]
    · by_cases hio : i = old
      · subst hio; simp [ho, hn]
      · simp [ho, hn, hio]
  · by_cases hn : i = next
    · subst hn; simp [ho]
    · simp [ho, hn]

@[simp] theorem switch_current : (k.switch sw).current = some sw.next := rfl

@[simp] theorem switch_enabled : (k.switch sw).schedulerEnabled = k.schedulerEnabled := by
  unfold ProcTable.switch ProcTable.setState
  by_cases ho : (k.process sw.old).state = .running <;> simp [ho]

variable {σ : Type} {E : ProcEnv σ} {s s' : σ} {k' : ProcTable} {r : Option Switch}

theorem schedule_cases (h : schedule E k s = some (r, k', s')) :
    r = pickNext k ∧ k' = r.elim k k.switch := by
  unfold schedule at h
  cases hp : pickNext k with
  | none =>
    rw [hp] at h
    simp only [Option.some.injEq, Prod.mk.injEq] at h
    obtain ⟨rfl, rfl, -⟩ := h
    exact ⟨rfl, rfl⟩
  | some sw =>
    rw [hp] at h
    simp only at h
    split at h
    · simp only [Option.some.injEq, Prod.mk.injEq] at h
      obtain ⟨rfl, rfl, -⟩ := h
      exact ⟨rfl, rfl⟩
    · obtain ⟨s1, -, h⟩ := Option.bind_eq_some_iff.mp h
      simp only [Option.some.injEq, Prod.mk.injEq] at h
      obtain ⟨rfl, rfl, -⟩ := h
      exact ⟨rfl, rfl⟩

theorem schedule_switch (hp : pickNext k = some sw)
    (hd : (k.process sw.next).pageDirectory = (k.process sw.old).pageDirectory) :
    schedule E k s = some (some sw, k.switch sw, s) := by
  unfold schedule
  rw [hp]
  simp only [switch_process, hd, ↓reduceIte]

end Switch

/-! ## `kthread_create`, `kthread_exit` and `process_free` -/

/-- Only `slot` is edited, and it ends in state `st`. -/
structure EditsSlot (k k' : ProcTable) (slot : Slot) (st : ProcessState) : Prop where
  others : ∀ i, i ≠ slot → k'.process i = k.process i
  state : (k'.process slot).state = st
  current : k'.current = k.current
  enabled : k'.schedulerEnabled = k.schedulerEnabled

theorem EditsSlot.modify {k k' : ProcTable} {slot : Slot} {st : ProcessState}
    (h : EditsSlot k k' slot st) (f : Pcb → Pcb) {st' : ProcessState}
    (hf : (f (k'.process slot)).state = st') : EditsSlot k (k'.modify slot f) slot st' where
  others i hi := by rw [ProcTable.modify_ne _ _ hi, h.others i hi]
  state := by rw [ProcTable.modify_same]; exact hf
  current := h.current
  enabled := h.enabled

theorem reserve_edits (k : ProcTable) (slot : Slot) : EditsSlot k (reserve k slot) slot .ready where
  others i hi := by simp [reserve, ProcTable.setState, hi]
  state := by simp [reserve, ProcTable.setState]
  current := rfl
  enabled := rfl

theorem findUnused_state {k : ProcTable} {slot : Slot} (h : findUnused k = some slot) :
    (k.process slot).state = .unused := by
  have := List.find?_some h
  simpa using this

section Create

variable {σ : Type} {E : ProcEnv σ} {k k' : ProcTable} {s s' : σ} {r : Option Slot} {entry : Nat}
  {name : List (BitVec 8)}

theorem processAlloc_cases (h : processAlloc E k s = some (r, k', s')) :
    (r = none ∧ (k' = k ∨ ∃ slot, (k.process slot).state = .unused ∧ EditsSlot k k' slot .unused)) ∨
    ∃ slot, r = some slot ∧ (k.process slot).state = .unused ∧ EditsSlot k k' slot .ready := by
  unfold processAlloc at h
  cases hf : findUnused k with
  | none =>
    rw [hf] at h
    simp only [Option.some.injEq, Prod.mk.injEq] at h
    obtain ⟨rfl, rfl, -⟩ := h
    exact .inl ⟨rfl, .inl rfl⟩
  | some slot =>
    rw [hf] at h
    obtain ⟨⟨stack, s1⟩, -, h⟩ := Option.bind_eq_some_iff.mp h
    simp only at h
    have hu := findUnused_state hf
    have hr := (reserve_edits k slot).modify (fun p => { p with kernelStack := stack })
      (reserve_edits k slot).state
    split at h
    · simp only [Option.some.injEq, Prod.mk.injEq] at h
      obtain ⟨rfl, rfl, -⟩ := h
      exact .inl ⟨rfl, .inr ⟨slot, hu, hr.modify _ rfl⟩⟩
    · simp only [Option.some.injEq, Prod.mk.injEq] at h
      obtain ⟨rfl, rfl, -⟩ := h
      exact .inr ⟨slot, rfl, hu, hr.modify _ hr.state⟩

theorem kthreadCreate_cases (h : kthreadCreate E k s entry name = some (r, k', s')) :
    (r = none ∧ (k' = k ∨ ∃ slot, (k.process slot).state = .unused ∧ EditsSlot k k' slot .unused)) ∨
    ∃ slot, r = some slot ∧ (k.process slot).state = .unused ∧ EditsSlot k k' slot .ready ∧
      (k'.process slot).pageDirectory = E.pagingGetDirectory := by
  obtain ⟨⟨proc, k1, s1⟩, ha, h⟩ := Option.bind_eq_some_iff.mp h
  rcases processAlloc_cases ha with ⟨rfl, hk⟩ | ⟨slot, rfl, hu, hk⟩
  · simp only [Option.some.injEq, Prod.mk.injEq] at h
    obtain ⟨rfl, rfl, -⟩ := h
    exact .inl ⟨rfl, hk⟩
  · simp only at h
    obtain ⟨⟨sp, s2⟩, -, h⟩ := Option.bind_eq_some_iff.mp h
    simp only [Option.some.injEq, Prod.mk.injEq] at h
    obtain ⟨rfl, rfl, -⟩ := h
    refine .inr ⟨slot, rfl, hu, (hk.modify _ hk.state).modify _ ?_, by simp⟩
    rw [ProcTable.modify_same]
    exact hk.state

end Create

section Free

variable {σ : Type} {E : ProcEnv σ} {k k' : ProcTable} {s s' : σ} {slot : Slot}

theorem processFree_cases (h : processFree E k s (some slot) = some (k', s')) :
    ((k.process slot).pid = 0 ∧ k' = k) ∨ EditsSlot k k' slot .unused := by
  simp only [processFree] at h
  split at h
  · rename_i hp
    simp only [Option.some.injEq, Prod.mk.injEq] at h
    exact .inl ⟨hp, h.1.symm⟩
  · obtain ⟨s1, -, h⟩ := Option.bind_eq_some_iff.mp h
    obtain ⟨s2, -, h⟩ := Option.bind_eq_some_iff.mp h
    simp only [Option.some.injEq, Prod.mk.injEq] at h
    obtain ⟨rfl, -⟩ := h
    exact .inr ⟨fun i hi => ProcTable.modify_ne _ _ hi, by simp [Pcb.zeroed], rfl, rfl⟩

end Free

theorem exitCurrent_eq {k : ProcTable} {c : Slot} (hc : k.current = some c) :
    exitCurrent k = k.setState c .zombie := by
  simp [exitCurrent, hc]

/-! ## The process that holds the CPU -/

/-- `c` is the current process, and nothing else runs. -/
structure Holds (k : ProcTable) (c : Slot) : Prop where
  enabled : k.schedulerEnabled = true
  current : k.current = some c
  used : (k.process c).state ≠ .unused
  notReady : ¬ IsReady k c
  running : ∀ i, (k.process i).state = .running → i = c

/-- The table between two calls: the current process runs. -/
structure Runs (k : ProcTable) (c : Slot) : Prop extends Holds k c where
  runs : (k.process c).state = .running

section Holds

variable {k k' : ProcTable} {c b slot : Slot}

theorem Holds.pickNext (h : Holds k c) : pickNext k = (nextSlot k c).map fun b => ⟨c, b⟩ :=
  pickNext_eq h.enabled h.current h.used

theorem Holds.pick_some (h : Holds k c) {sw : Switch} (hp : Process.pickNext k = some sw) :
    sw.old = c ∧ Nearest (IsReady k) c sw.next := by
  rw [h.pickNext] at hp
  obtain ⟨b, hb, rfl⟩ := Option.map_eq_some_iff.mp hp
  exact ⟨rfl, nextSlot_some.mp hb⟩

theorem Holds.switch (h : Holds k c) (b : Slot) : Runs (k.switch ⟨c, b⟩) b where
  enabled := by rw [switch_enabled]; exact h.enabled
  current := rfl
  used := by simp [switch_process, switchState]
  notReady := by simp [IsReady, switch_process, switchState]
  running i hi := by
    by_contra hne
    rw [switch_process, switchState] at hi
    simp only [hne, ↓reduceIte] at hi
    split at hi
    · cases hi
    · rename_i hc
      have hic := h.running i hi
      subst hic
      exact hc ⟨rfl, hi⟩
  runs := by simp [switch_process, switchState]

theorem Holds.exit (h : Holds k c) : Holds (exitCurrent k) c := by
  rw [exitCurrent_eq h.current]
  have hc : ((k.setState c .zombie).process c).state = .zombie := by simp [ProcTable.setState]
  exact {
    enabled := h.enabled
    current := h.current
    used := by rw [hc]; nofun
    notReady := by rw [IsReady, hc]; nofun
    running := fun i hi => by
      by_contra hne
      rw [ProcTable.setState, ProcTable.modify_ne _ _ hne] at hi
      exact hne (h.running i hi) }

theorem Holds.ready_exit (h : Holds k c) (i : Slot) : IsReady (exitCurrent k) i ↔ IsReady k i := by
  by_cases hi : i = c
  · subst hi
    exact ⟨fun hr => absurd hr h.exit.notReady, fun hr => absurd hr h.notReady⟩
  · rw [IsReady, exitCurrent_eq h.current, ProcTable.setState, ProcTable.modify_ne _ _ hi, IsReady]

theorem Holds.edit (h : Holds k c) {st : ProcessState} (he : EditsSlot k k' slot st)
    (hc : c ≠ slot) (hst : st ≠ .running) : Holds k' c := by
  refine { enabled := he.enabled.trans h.enabled, current := he.current.trans h.current,
           used := ?_, notReady := ?_, running := fun i hi => ?_ }
  · rw [he.others c hc]; exact h.used
  · rw [IsReady, he.others c hc]; exact h.notReady
  · by_cases his : i = slot
    · subst his
      exact absurd (he.state.symm.trans hi) hst
    · rw [he.others i his] at hi
      exact h.running i hi

theorem Runs.edit (h : Runs k c) {st : ProcessState} (he : EditsSlot k k' slot st)
    (hold : (k.process slot).state ≠ .running) (hst : st ≠ .running) : Runs k' c := by
  have hc : c ≠ slot := by
    rintro rfl
    exact hold h.runs
  refine { h.toHolds.edit he hc hst with runs := ?_ }
  rw [he.others c hc]
  exact h.runs

end Holds

/-! ## Steps -/

/-- What happens to the table, one call at a time. -/
inductive ProcOp where
  | create (entry : Nat) (name : List (BitVec 8))
  | tick
  | exit
  | free (slot : Slot)

/-- One call. A `kthread_exit` that finds no process to switch to halts the
machine, and no step follows it. -/
def procStep {σ : Type} (E : ProcEnv σ) (x : ProcTable × σ) : ProcOp → Option (ProcTable × σ)
  | .create entry name => (kthreadCreate E x.1 x.2 entry name).map fun r => r.2
  | .tick => (schedule E x.1 x.2).map fun r => r.2
  | .exit => (kthreadExit E x.1 x.2).bind fun r => r.1.map fun _ => r.2
  | .free slot => processFree E x.1 x.2 (some slot)

/-- Zombies that do not run are freed. -/
def ProcOp.Sound (k : ProcTable) : ProcOp → Prop
  | .free slot => (k.process slot).state = .zombie ∧ k.current ≠ some slot
  | _ => True

def ProcOp.selected (k : ProcTable) : ProcOp → Option Slot
  | .tick => (pickNext k).map Switch.next
  | .exit => (pickNext (exitCurrent k)).map Switch.next
  | _ => none

def bootTable {σ : Type} (E : ProcEnv σ) : ProcTable := schedulerInit (processInit E)

theorem bootTable_runs {σ : Type} (E : ProcEnv σ) : Runs (bootTable E) 0 where
  enabled := rfl
  current := rfl
  used := by simp [bootTable, schedulerInit, processInit]
  notReady := by simp [IsReady, bootTable, schedulerInit, processInit]
  running i hi := by
    by_contra hne
    simp [bootTable, schedulerInit, processInit, hne, Pcb.zeroed] at hi
  runs := rfl

/-- A machine whose stacks come from consecutive addresses. -/
def sampleEnv : ProcEnv Nat where
  pagingGetDirectory := 0x110000
  vmmGetKernelSpace := 0xC0118000
  kthreadTrampoline := 0xC0102000
  kmallocAligned s n := some (s, s + n)
  kfree s _ := some s
  vmmDestroyAddressSpace s _ := some s
  vmmSwitchAddressSpace s _ := some s
  store s _ _ := some s

end TupleOS.Process
