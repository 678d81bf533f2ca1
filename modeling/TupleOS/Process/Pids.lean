import TupleOS.Process.Steps
import Mathlib.Data.List.Range

/-!
# PIDs

`process_alloc` takes its PIDs from a 32-bit counter, also when it then fails for
lack of a stack. `PidState` keeps the list of the PIDs given so far. Up to the
wrap of the counter they are `0, 1, 2, …`, every process has its own, and
`process_get` finds it (`pids_unique`). The wrap takes 2^32 calls, and gives a
second process the PID of the kernel (`pid_reused`).
-/

namespace TupleOS.Process

open TupleOS.Base

def processGet (k : ProcTable) (pid : Nat) : Option Slot :=
  (List.finRange maxProcesses).find? fun i =>
    (k.process i).state ≠ .unused ∧ (k.process i).pid = pid

/-! ## Runs -/

/-- A call of `process_alloc` alone, or one of the other calls. -/
inductive PidOp where
  | alloc
  | call (o : ProcOp)

def PidOp.allocates : PidOp → Bool
  | .alloc => true
  | .call (.create _ _) => true
  | .call _ => false

/-- The call gives a PID: `process_alloc` finds a slot. -/
def PidOp.gives (k : ProcTable) (o : PidOp) : Bool := o.allocates && (findUnused k).isSome

/-- The table, the machine behind it and the PIDs given so far. -/
structure PidState (σ : Type) where
  table : ProcTable
  world : σ
  given : List Nat

section Runs

variable {σ : Type} (E : ProcEnv σ)

/-- What the call does to the table and the machine. -/
def PidOp.run (x : ProcTable × σ) : PidOp → Option (ProcTable × σ)
  | .alloc => (processAlloc E x.1 x.2).map fun r => r.2
  | .call o => procStep E x o

def pidStep (x : PidState σ) (o : PidOp) : Option (PidState σ) :=
  (o.run E (x.table, x.world)).map fun r => {
    table := r.1
    world := r.2
    given := if o.gives x.table then x.given ++ [x.table.nextPid] else x.given }

/-- After `process_init`, with the scheduler on or off. -/
def pidStart (enabled : Bool) (s : σ) : PidState σ where
  table := { processInit E with schedulerEnabled := enabled }
  world := s
  given := [0]

/-- `next_pid` has not wrapped when a PID is given, and the process that calls
`kthread_exit` has not been freed. -/
def PidOp.Sound (x : PidState σ) : PidOp → Prop
  | .call .exit => ∀ c, x.table.current = some c → (x.table.process c).state ≠ .unused
  | o => o.gives x.table = true → x.table.nextPid ≠ 0

end Runs

/-- No PID was given twice, and `process_get` finds the process of each PID. -/
structure PidsUnique {σ : Type} (x : PidState σ) : Prop where
  given : x.given.Nodup
  known : ∀ i, (x.table.process i).state ≠ .unused → (x.table.process i).pid ∈ x.given
  distinct : ∀ i j, (x.table.process i).state ≠ .unused → (x.table.process j).state ≠ .unused →
    (x.table.process i).pid = (x.table.process j).pid → i = j
  found : ∀ pid i, processGet x.table pid = some i ↔
    (x.table.process i).state ≠ .unused ∧ (x.table.process i).pid = pid

/-! ## What a call does to the PIDs -/

/-- No process has a PID that it did not have. -/
structure KeepsPids (k k' : ProcTable) : Prop where
  nextPid : k'.nextPid = k.nextPid
  pids : ∀ i, (k'.process i).state ≠ .unused →
    (k.process i).state ≠ .unused ∧ (k'.process i).pid = (k.process i).pid

structure GivesPid (k k' : ProcTable) (slot : Slot) : Prop where
  nextPid : k'.nextPid = w32 (k.nextPid + 1)
  others : ∀ i, i ≠ slot → k'.process i = k.process i
  pid : (k'.process slot).pid = k.nextPid

theorem KeepsPids.refl (k : ProcTable) : KeepsPids k k := ⟨rfl, fun _ h => ⟨h, rfl⟩⟩

theorem KeepsPids.trans {k k₁ k' : ProcTable} (h : KeepsPids k k₁) (h' : KeepsPids k₁ k') :
    KeepsPids k k' where
  nextPid := h'.nextPid.trans h.nextPid
  pids i hi := by
    obtain ⟨hu, hp⟩ := h'.pids i hi
    obtain ⟨hu', hp'⟩ := h.pids i hu
    exact ⟨hu', hp.trans hp'⟩

theorem GivesPid.modify {k k' : ProcTable} {slot : Slot} (h : GivesPid k k' slot) (f : Pcb → Pcb)
    (hf : ∀ p, (f p).pid = p.pid) : GivesPid k (k'.modify slot f) slot where
  nextPid := h.nextPid
  others i hi := by rw [ProcTable.modify_ne _ _ hi]; exact h.others i hi
  pid := by rw [ProcTable.modify_same, hf]; exact h.pid

theorem reserve_gives (k : ProcTable) (slot : Slot) : GivesPid k (reserve k slot) slot where
  nextPid := rfl
  others i hi := by simp [reserve, ProcTable.setState, hi]
  pid := by simp [reserve, ProcTable.setState]

section Calls

variable {σ : Type} {E : ProcEnv σ} {k k' : ProcTable} {s s' : σ} {r : Option Slot}

theorem processAlloc_pids (h : processAlloc E k s = some (r, k', s')) :
    (findUnused k = none ∧ k' = k ∧ r = none) ∨
      ∃ slot, findUnused k = some slot ∧ GivesPid k k' slot ∧ ∀ q, r = some q → q = slot := by
  unfold processAlloc at h
  cases hf : findUnused k with
  | none =>
    rw [hf] at h
    simp only [Option.some.injEq, Prod.mk.injEq] at h
    obtain ⟨rfl, rfl, -⟩ := h
    exact .inl ⟨rfl, rfl, rfl⟩
  | some slot =>
    rw [hf] at h
    obtain ⟨⟨stack, s₁⟩, -, h⟩ := Option.bind_eq_some_iff.mp h
    simp only at h
    have hgives := (reserve_gives k slot).modify (fun p => { p with kernelStack := stack })
      fun _ => rfl
    refine .inr ⟨slot, rfl, ?_⟩
    split at h
    · simp only [Option.some.injEq, Prod.mk.injEq] at h
      obtain ⟨rfl, rfl, -⟩ := h
      exact ⟨hgives.modify _ fun _ => rfl, nofun⟩
    · simp only [Option.some.injEq, Prod.mk.injEq] at h
      obtain ⟨rfl, rfl, -⟩ := h
      exact ⟨hgives.modify _ fun _ => rfl, fun q hq => (Option.some.inj hq).symm⟩

theorem kthreadCreate_pids {entry : Nat} {name : List (BitVec 8)}
    (h : kthreadCreate E k s entry name = some (r, k', s')) :
    (findUnused k = none ∧ k' = k) ∨
      ∃ slot, findUnused k = some slot ∧ GivesPid k k' slot := by
  obtain ⟨⟨proc, k₁, s₁⟩, ha, h⟩ := Option.bind_eq_some_iff.mp h
  rcases processAlloc_pids ha with ⟨hf, rfl, rfl⟩ | ⟨slot, hf, hgives, hslot⟩
  · simp only [Option.some.injEq, Prod.mk.injEq] at h
    exact .inl ⟨hf, h.2.1.symm⟩
  · refine .inr ⟨slot, hf, ?_⟩
    cases proc with
    | none =>
      simp only [Option.some.injEq, Prod.mk.injEq] at h
      obtain ⟨-, rfl, -⟩ := h
      exact hgives
    | some q =>
      obtain rfl := hslot q rfl
      simp only at h
      obtain ⟨⟨sp, s₂⟩, -, h⟩ := Option.bind_eq_some_iff.mp h
      simp only [Option.some.injEq, Prod.mk.injEq] at h
      obtain ⟨-, rfl, -⟩ := h
      refine GivesPid.modify (GivesPid.modify hgives _ ?_) _ ?_
      · exact fun _ => rfl
      · exact fun _ => rfl

theorem processFree_pids {slot : Slot} (h : processFree E k s (some slot) = some (k', s')) :
    KeepsPids k k' := by
  simp only [processFree] at h
  split at h
  · simp only [Option.some.injEq, Prod.mk.injEq] at h
    obtain ⟨rfl, -⟩ := h
    exact KeepsPids.refl k
  · obtain ⟨s₁, -, h⟩ := Option.bind_eq_some_iff.mp h
    obtain ⟨s₂, -, h⟩ := Option.bind_eq_some_iff.mp h
    simp only [Option.some.injEq, Prod.mk.injEq] at h
    obtain ⟨rfl, -⟩ := h
    refine ⟨rfl, fun i hi => ?_⟩
    by_cases his : i = slot
    · subst his
      rw [ProcTable.modify_same] at hi
      exact absurd rfl hi
    · rw [ProcTable.modify_ne _ _ his] at hi ⊢
      exact ⟨hi, rfl⟩

theorem switch_nextPid (k : ProcTable) (sw : Switch) : (k.switch sw).nextPid = k.nextPid := by
  unfold ProcTable.switch ProcTable.setState
  by_cases h : (k.process sw.old).state = .running <;> simp [h]

theorem pickNext_ready {sw : Switch} (h : pickNext k = some sw) : IsReady k sw.next := by
  unfold pickNext at h
  split at h
  · obtain ⟨c, -, h⟩ := Option.bind_eq_some_iff.mp h
    obtain ⟨c', -, h⟩ := Option.bind_eq_some_iff.mp h
    obtain ⟨b, hb, h⟩ := Option.bind_eq_some_iff.mp h
    cases h
    exact (nextSlot_some.mp hb).1
  · cases h

theorem schedule_pids {q : Option Switch} (h : schedule E k s = some (q, k', s')) :
    KeepsPids k k' := by
  obtain ⟨hq, rfl⟩ := schedule_cases h
  cases q with
  | none => exact KeepsPids.refl k
  | some sw =>
    have hready := pickNext_ready hq.symm
    refine ⟨switch_nextPid k sw, fun i hi => ?_⟩
    show _ ∧ ((k.switch sw).process i).pid = _
    rw [switch_process]
    refine ⟨fun hu => hi ?_, rfl⟩
    have hin : i ≠ sw.next := by
      rintro rfl
      rw [IsReady, hu] at hready
      cases hready
    have hold : ¬ (i = sw.old ∧ (k.process sw.old).state = .running) := by
      rintro ⟨rfl, hr⟩
      rw [hu] at hr
      cases hr
    show ((k.switch sw).process i).state = .unused
    rw [switch_process]
    simp only [switchState, hin, hold, ↓reduceIte, hu]

theorem exitCurrent_pids (h : ∀ c, k.current = some c → (k.process c).state ≠ .unused) :
    KeepsPids k (exitCurrent k) := by
  unfold exitCurrent
  cases hc : k.current with
  | none => exact KeepsPids.refl k
  | some c =>
    refine ⟨rfl, fun i hi => ?_⟩
    show _ ∧ ((k.setState c .zombie).process i).pid = _
    by_cases hic : i = c
    · subst hic
      rw [ProcTable.setState, ProcTable.modify_same]
      exact ⟨h i hc, rfl⟩
    · have hsame : (k.setState c .zombie).process i = k.process i := ProcTable.modify_ne _ _ hic
      have hi' : ((k.setState c .zombie).process i).state ≠ .unused := hi
      rw [hsame] at hi' ⊢
      exact ⟨hi', rfl⟩

end Calls

/-! ## The run -/

/-- The PIDs given so far are the first ones, and every process has one of them. -/
structure PidInv {σ : Type} (x : PidState σ) : Prop where
  given : x.given = List.range x.given.length
  next : x.table.nextPid = w32 x.given.length
  bound : x.given.length ≤ 2 ^ 32
  below : ∀ i, (x.table.process i).state ≠ .unused → (x.table.process i).pid < x.given.length
  distinct : ∀ i j, (x.table.process i).state ≠ .unused → (x.table.process j).state ≠ .unused →
    (x.table.process i).pid = (x.table.process j).pid → i = j

section Run

variable {σ : Type} {E : ProcEnv σ} {x : PidState σ} {k' : ProcTable} {s' : σ}

theorem PidInv.keeps (h : PidInv x) (hk : KeepsPids x.table k') :
    PidInv { table := k', world := s', given := x.given } where
  given := h.given
  next := hk.nextPid.trans h.next
  bound := h.bound
  below i hi := by
    obtain ⟨hu, hp⟩ := hk.pids i hi
    show (k'.process i).pid < x.given.length
    rw [hp]
    exact h.below i hu
  distinct i j hi hj hij := by
    obtain ⟨hui, hpi⟩ := hk.pids i hi
    obtain ⟨huj, hpj⟩ := hk.pids j hj
    exact h.distinct i j hui huj (hpi.symm.trans (hij.trans hpj))

/-- A PID that is given before the wrap is new. -/
theorem PidInv.gives (h : PidInv x) {slot : Slot} (hk : GivesPid x.table k' slot)
    (hnext : x.table.nextPid ≠ 0) :
    PidInv { table := k', world := s', given := x.given ++ [x.table.nextPid] } := by
  have hlen : x.given.length < 2 ^ 32 := by
    refine Nat.lt_of_le_of_ne h.bound fun heq => hnext ?_
    rw [h.next, heq]
    rfl
  have hpid : x.table.nextPid = x.given.length := h.next.trans (w32_of_lt hlen)
  have hlen' : (x.given ++ [x.table.nextPid]).length = x.given.length + 1 := List.length_append
  have hother : ∀ i, (k'.process i).state ≠ .unused → i ≠ slot →
      (k'.process i).pid < x.given.length := fun i hi his => by
    rw [hk.others i his] at hi ⊢
    exact h.below i hi
  have hslot : (k'.process slot).pid = x.given.length := hk.pid.trans hpid
  refine ⟨?_, ?_, ?_, fun i hi => ?_, fun i j hi hj hij => ?_⟩
  · show x.given ++ [x.table.nextPid] = List.range (x.given ++ [x.table.nextPid]).length
    rw [hlen', List.range_succ, ← h.given, hpid]
  · show k'.nextPid = w32 (x.given ++ [x.table.nextPid]).length
    rw [hlen', hk.nextPid, hpid]
  · show (x.given ++ [x.table.nextPid]).length ≤ 2 ^ 32
    omega
  · show (k'.process i).pid < (x.given ++ [x.table.nextPid]).length
    rw [hlen']
    by_cases his : i = slot
    · rw [his, hslot]
      omega
    · exact Nat.lt_succ_of_lt (hother i hi his)
  · by_cases his : i = slot
    · by_cases hjs : j = slot
      · rw [his, hjs]
      · have := hother j hj hjs
        rw [← hij, his, hslot] at this
        omega
    · by_cases hjs : j = slot
      · have := hother i hi his
        rw [hij, hjs, hslot] at this
        omega
      · have hi' : (x.table.process i).state ≠ .unused := by rw [← hk.others i his]; exact hi
        have hj' : (x.table.process j).state ≠ .unused := by rw [← hk.others j hjs]; exact hj
        refine h.distinct i j hi' hj' ?_
        rw [← hk.others i his, ← hk.others j hjs]
        exact hij

theorem pidStart_inv (enabled : Bool) (s : σ) : PidInv (pidStart E enabled s) where
  given := rfl
  next := rfl
  bound := show 1 ≤ 2 ^ 32 by decide
  below i hi := by
    by_cases h0 : i = 0
    · subst h0
      exact Nat.zero_lt_one
    · exact absurd (by simp [pidStart, processInit, h0, Pcb.zeroed]) hi
  distinct i j hi hj _ := by
    have hzero : ∀ i : Slot, ((pidStart E enabled s).table.process i).state ≠ .unused → i = 0 :=
      fun i hi => by
        by_contra h0
        exact hi (by simp [pidStart, processInit, h0, Pcb.zeroed])
    rw [hzero i hi, hzero j hj]

theorem PidInv.step (h : PidInv x) {o : PidOp} {x' : PidState σ} (hok : o.Sound x)
    (he : pidStep E x o = some x') : PidInv x' := by
  obtain ⟨⟨k', s'⟩, hrun, rfl⟩ := Option.map_eq_some_iff.mp he
  cases o with
  | alloc =>
    obtain ⟨⟨r, q⟩, hr, hq⟩ := Option.map_eq_some_iff.mp hrun
    obtain rfl : q = (k', s') := hq
    rcases processAlloc_pids hr with ⟨hf, rfl, -⟩ | ⟨slot, hf, hgives, -⟩
    · have hg : ¬ PidOp.gives x.table .alloc = true := by simp [PidOp.gives, hf]
      rw [if_neg hg]
      exact h.keeps (KeepsPids.refl _)
    · have hg : PidOp.gives x.table .alloc = true := by simp [PidOp.gives, PidOp.allocates, hf]
      rw [if_pos hg]
      exact h.gives hgives (hok hg)
  | call o =>
    cases o with
    | create entry name =>
      obtain ⟨⟨r, q⟩, hr, hq⟩ := Option.map_eq_some_iff.mp hrun
      obtain rfl : q = (k', s') := hq
      rcases kthreadCreate_pids hr with ⟨hf, rfl⟩ | ⟨slot, hf, hgives⟩
      · have hg : ¬ PidOp.gives x.table (.call (.create entry name)) = true := by
          simp [PidOp.gives, hf]
        rw [if_neg hg]
        exact h.keeps (KeepsPids.refl _)
      · have hg : PidOp.gives x.table (.call (.create entry name)) = true := by
          simp [PidOp.gives, PidOp.allocates, hf]
        rw [if_pos hg]
        exact h.gives hgives (hok hg)
    | tick =>
      obtain ⟨⟨r, q⟩, hr, hq⟩ := Option.map_eq_some_iff.mp hrun
      obtain rfl : q = (k', s') := hq
      exact h.keeps (schedule_pids hr)
    | exit =>
      obtain ⟨⟨r, k₁, s₁⟩, hr, hq⟩ := Option.bind_eq_some_iff.mp hrun
      obtain ⟨sw, -, hq⟩ := Option.map_eq_some_iff.mp hq
      cases hq
      exact h.keeps ((exitCurrent_pids hok).trans (schedule_pids hr))
    | free slot => exact h.keeps (processFree_pids hrun)

theorem processGet_iff {k : ProcTable} (h : ∀ i j, (k.process i).state ≠ .unused →
    (k.process j).state ≠ .unused → (k.process i).pid = (k.process j).pid → i = j) (pid : Nat)
    (i : Slot) :
    processGet k pid = some i ↔ (k.process i).state ≠ .unused ∧ (k.process i).pid = pid := by
  constructor
  · intro hget
    simpa using List.find?_some hget
  · rintro ⟨hu, hp⟩
    have hsome : (processGet k pid).isSome := List.find?_isSome.mpr
      ⟨i, List.mem_finRange i, decide_eq_true ⟨hu, hp⟩⟩
    obtain ⟨j, hj⟩ := Option.isSome_iff_exists.mp hsome
    have hfound : (k.process j).state ≠ .unused ∧ (k.process j).pid = pid := by
      simpa using List.find?_some hj
    rw [h i j hu hfound.1 (hp.trans hfound.2.symm)]
    exact hj

/-- **PIDs are unique** in every run that does not wrap `next_pid`. -/
theorem pids_unique (enabled : Bool) (s : σ) {os : List PidOp} {x' : PidState σ}
    (h : Run (pidStep E) (fun x o => o.Sound x) (pidStart E enabled s) os x') :
    PidsUnique x' := by
  have hinv := h.invariant PidInv (fun hi ho he => hi.step ho he) (pidStart_inv enabled s)
  exact {
    given := by rw [hinv.given]; exact List.nodup_range
    known := fun i hi => by
      rw [hinv.given]
      exact List.mem_range.mpr (hinv.below i hi)
    distinct := hinv.distinct
    found := processGet_iff hinv.distinct }

end Run

/-! ## The wrap -/

/-- A machine that gives every new thread the stack that the last one freed. -/
def reuseEnv : ProcEnv Unit where
  pagingGetDirectory := 0x110000
  vmmGetKernelSpace := 0xC0118000
  kthreadTrampoline := 0xC0102000
  kmallocAligned s _ := some (0xD0000000, s)
  kfree s _ := some s
  vmmDestroyAddressSpace s _ := some s
  vmmSwitchAddressSpace s _ := some s
  store s _ _ := some s

/-- The kernel alone in the table, with `next_pid` at `p`. -/
def aloneTable (p : Nat) : ProcTable := { bootTable reuseEnv with nextPid := p }

theorem alloc_alone (p : Nat) (g : List Nat) : ∃ k,
    pidStep reuseEnv ⟨aloneTable p, (), g⟩ .alloc = some ⟨k, (), g ++ [p]⟩ ∧
      GivesPid (aloneTable p) k 1 ∧ EditsSlot (aloneTable p) k 1 .ready := by
  obtain ⟨r, k, hr, hk⟩ : ∃ r k, processAlloc reuseEnv (aloneTable p) () = some (r, k, ()) ∧
      r = some 1 := ⟨_, _, rfl, rfl⟩
  refine ⟨k, ?_, ?_, ?_⟩
  · show ((processAlloc reuseEnv (aloneTable p) ()).map _).map _ = _
    rw [hr]
    rfl
  · rcases processAlloc_pids hr with ⟨hf, -⟩ | ⟨slot, hf, hgives, -⟩
    · cases hf
    · cases hf
      exact hgives
  · rcases processAlloc_cases hr with ⟨rfl, -⟩ | ⟨slot, rfl, -, he⟩
    · cases hk
    · cases hk
      exact he

theorem pids_unique_first : ∃ x', Run (pidStep reuseEnv) (fun x o => o.Sound x)
    (pidStart reuseEnv true ()) [.alloc] x' ∧ PidsUnique x' := by
  obtain ⟨k, halloc, -⟩ := alloc_alone 1 [0]
  have hrun : Run (pidStep reuseEnv) (fun x o => o.Sound x) (pidStart reuseEnv true ()) [.alloc]
      ⟨k, (), [0] ++ [1]⟩ := .cons (fun _ => Nat.one_ne_zero) halloc (.nil _)
  exact ⟨_, hrun, pids_unique true () hrun⟩

theorem free_alone {p : Nat} {k : ProcTable} (hg : GivesPid (aloneTable p) k 1)
    (he : EditsSlot (aloneTable p) k 1 .ready) (hp : p ≠ 0) (g : List Nat) :
    pidStep reuseEnv ⟨k, (), g⟩ (.call (.free 1)) = some ⟨aloneTable (w32 (p + 1)), (), g⟩ := by
  have hpid : (k.process 1).pid ≠ 0 := by rw [hg.pid]; exact hp
  have hfree : ∀ s a, freeStack reuseEnv s a = some s := fun s a => by
    unfold freeStack
    split <;> rfl
  have hspace : ∀ s a, freeSpace reuseEnv s a = some s := fun s a => by
    unfold freeSpace
    split <;> rfl
  have hback : k.modify 1 (fun _ => Pcb.zeroed) = aloneTable (w32 (p + 1)) := by
    obtain ⟨process, nextPid, current, enabled⟩ := k
    have hproc : ∀ i, (ProcTable.modify ⟨process, nextPid, current, enabled⟩ 1
        fun _ => Pcb.zeroed).process i = (aloneTable p).process i := fun i => by
      by_cases hi : i = 1
      · subst hi
        rw [ProcTable.modify_same]
        rfl
      · rw [ProcTable.modify_ne _ _ hi]
        exact hg.others i hi
    have hnext : nextPid = w32 (p + 1) := hg.nextPid
    have hcurrent : current = (aloneTable p).current := he.current
    have henabled : enabled = (aloneTable p).schedulerEnabled := he.enabled
    subst hnext hcurrent henabled
    exact congrArg (fun f => (⟨f, _, _, _⟩ : ProcTable)) (funext hproc)
  show (processFree reuseEnv k () (some 1)).map _ = _
  simp only [processFree, if_neg hpid, hfree, hspace, Option.bind_eq_bind, Option.bind_some, hback]
  rfl

theorem wrap_run (n : Nat) (hn : n < 2 ^ 32) : ∃ os g,
    Run (pidStep reuseEnv) (fun _ _ => True) (pidStart reuseEnv true ()) os
      ⟨aloneTable (w32 (n + 1)), (), g⟩ := by
  induction n with
  | zero => exact ⟨[], [0], .nil _⟩
  | succ n ih =>
    obtain ⟨os, g, hrun⟩ := ih (by omega)
    rw [w32_of_lt (by omega)] at hrun
    obtain ⟨k, halloc, hg, he⟩ := alloc_alone (n + 1) g
    have hfree := free_alone hg he (Nat.succ_ne_zero n) (g ++ [n + 1])
    exact ⟨_, _, (hrun.snoc trivial halloc).snoc trivial hfree⟩

/-- A PID that is given twice: after 2^32 - 1 threads have come and gone, the
next one is the second with PID 0. -/
theorem pid_reused : ∃ os x', Run (pidStep reuseEnv) (fun _ _ => True)
    (pidStart reuseEnv true ()) os x' ∧
      (x'.table.process 0).state ≠ .unused ∧ (x'.table.process 1).state ≠ .unused ∧
      (x'.table.process 0).pid = (x'.table.process 1).pid ∧ ¬ PidsUnique x' := by
  obtain ⟨os, g, hrun⟩ := wrap_run (2 ^ 32 - 1) (by decide)
  have hzero : w32 (2 ^ 32 - 1 + 1) = 0 := by decide
  rw [hzero] at hrun
  obtain ⟨k, halloc, hg, he⟩ := alloc_alone 0 g
  have h0 : k.process 0 = (aloneTable 0).process 0 := hg.others 0 (by decide)
  have hused : (k.process 0).state ≠ .unused := by rw [h0]; nofun
  have hready : (k.process 1).state ≠ .unused := by rw [he.state]; nofun
  have hsame : (k.process 0).pid = (k.process 1).pid := by rw [h0, hg.pid]; rfl
  refine ⟨_, _, hrun.snoc trivial halloc, hused, hready, hsame, fun h => ?_⟩
  exact absurd (h.distinct 0 1 hused hready hsame) (by decide)

end TupleOS.Process
