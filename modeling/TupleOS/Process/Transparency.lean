import TupleOS.Process.Preempt

/-!
# A preempted thread resumes where it was interrupted

Every step of the machine keeps the invariant of the stacks (`SysOk.step`), and
follows what becomes of a thread that the timer interrupted: it is suspended, stays
so while others run, and has its context back in the first state in which it is
current again (`preemption_transparent`).
-/

namespace TupleOS.Process

open TupleOS.Base TupleOS.Interrupt

variable {Y : Symbols} {C : CCode} {s s' : Sys} {c i : Slot} {r : Cpu}

/-! ## The two ways into a switch -/

theorem isrEnter_keeps (hap : StacksApart Y s.procs) (hc : (s.procs.process c).Runnable)
    (hlo : (stackOf Y s.procs c).lo + 64 ≤ s.cpu.sp) (hhi : s.cpu.sp ≤ (stackOf Y s.procs c).hi) :
    KeepsStacks Y s.procs c s.cpu.mem (isrEnter Y s.cpu).mem := by
  intro i hi hrun x hx
  obtain ⟨fp, esp, -, hp⟩ := isrEnter_pushed Y s.cpu (by omega)
  have hsp := hp.sp
  simp only [List.length_cons, interruptFrame, List.length_nil] at hsp
  have := (hap c hc).apart i hi hrun
  obtain ⟨hx1, hx2⟩ := hx
  refine hp.frame x ?_
  unfold InWin
  omega

theorem KeepsStacks.trans {k : ProcTable} {mem mem' mem'' : Bytes}
    (h : KeepsStacks Y k c mem mem') (h' : KeepsStacks Y k c mem' mem'') :
    KeepsStacks Y k c mem mem'' :=
  fun i hi hrun => (h i hi hrun).trans (h' i hi hrun)

theorem SysOk.preempts {sw : Switch} {m : Cpu} (h : SysOk Y C s) (hc : Runs s.procs c)
    (hlo : (stackOf Y s.procs c).lo + 64 ≤ s.cpu.sp) (hhi : s.cpu.sp ≤ (stackOf Y s.procs c).hi)
    (hp : pickNext s.procs = some sw)
    (hk : KeepsStacks Y s.procs c (isrEnter Y s.cpu).mem m.mem)
    (hseg : m.seg = (isrEnter Y s.cpu).seg) :
    sw.old = c ∧ SwitchFrom Y C s.procs sw m ∧ KeepsStacks Y s.procs c s.cpu.mem m.mem := by
  obtain ⟨rfl, hn⟩ := hc.pick_some hp
  have hkeep := (isrEnter_keeps h.apart (.inr hc.runs) hlo hhi).trans hk
  refine ⟨rfl, ⟨hc.toHolds, h.kernel, hn.1, h.apart _ (.inr hc.runs), h.apart, fun x => ?_,
    fun i hi => ?_⟩, hkeep⟩
  · rw [hseg, isrEnter_seg]
  · have hne : i ≠ sw.old := by
      rintro rfl
      exact hc.notReady hi
    exact (h.waiting i hi).frame ⟨rfl, rfl⟩ (hkeep i hne (.inl hi))

theorem exitCurrent_sameStack (hc : s.procs.current = some c) (i : Slot) :
    SameStack s.procs (exitCurrent s.procs) i := by
  rw [exitCurrent_eq hc, ProcTable.setState]
  by_cases hi : i = c
  · subst hi
    rw [SameStack, ProcTable.modify_same]
    exact ⟨rfl, rfl⟩
  · rw [SameStack, ProcTable.modify_ne _ _ hi]
    exact ⟨rfl, rfl⟩

theorem exitCurrent_runnable (hc : s.procs.current = some c) {i : Slot}
    (h : ((exitCurrent s.procs).process i).Runnable) : (s.procs.process i).Runnable := by
  rw [exitCurrent_eq hc, ProcTable.setState] at h
  by_cases hi : i = c
  · subst hi
    rw [ProcTable.modify_same] at h
    rcases h with h | h <;> cases h
  · rwa [ProcTable.modify_ne _ _ hi] at h

theorem SysOk.exits {sw : Switch} {m : Cpu} (h : SysOk Y C s) (hc : Runs s.procs c)
    (hp : pickNext (exitCurrent s.procs) = some sw)
    (hk : KeepsStacks Y s.procs c s.cpu.mem m.mem) (hseg : m.seg = s.cpu.seg) :
    sw.old = c ∧ SwitchFrom Y C (exitCurrent s.procs) sw m := by
  obtain ⟨rfl, hn⟩ := hc.exit.pick_some hp
  have hstack : ∀ i, stackOf Y (exitCurrent s.procs) i = stackOf Y s.procs i :=
    fun i => stackOf_congr (exitCurrent_sameStack hc.current i).1
  have hclear : ∀ i, (s.procs.process i).Runnable →
      Clear Y (exitCurrent s.procs) (stackOf Y (exitCurrent s.procs) i) i := by
    intro i hi
    have hcl := h.apart i hi
    rw [hstack]
    refine ⟨hcl.below, hcl.table, fun j hj hrj => ?_⟩
    rw [hstack]
    exact hcl.apart j hj (exitCurrent_runnable hc.current hrj)
  refine ⟨rfl, hc.exit, ?_, hn.1, hclear _ (.inr hc.runs),
    fun i hi => hclear i (exitCurrent_runnable hc.current hi), fun x => ?_, fun i hi => ?_⟩
  · rw [exitCurrent_eq hc.current, ProcTable.setState, KernelSlot]
    by_cases h0 : (0 : Slot) = sw.old
    · rw [h0, ProcTable.modify_same, ← h0]
      exact ⟨h.kernel.1, fun hst => by cases hst⟩
    · rw [ProcTable.modify_ne _ _ h0]
      exact h.kernel
  · rw [hseg]; exact h.segs x
  · have hi' := (hc.ready_exit i).mp hi
    have hne : i ≠ sw.old := by
      rintro rfl
      exact hc.notReady hi'
    exact (h.waiting i hi').frame (exitCurrent_sameStack hc.current i) (hk i hne (.inl hi'))

/-! ## Filling and emptying slots -/

/-- A slot that does not run is filled with a new thread or emptied. -/
structure SlotEdit (Y : Symbols) (s : Sys) (k : ProcTable) (mem : Bytes) (slot : Slot)
    (st : ProcessState) : Prop where
  edits : EditsSlot s.procs k slot st
  idle : ¬ (s.procs.process slot).Runnable
  kernel : slot ≠ 0
  memory : ∀ i, (s.procs.process i).Runnable →
    AgreeOn s.cpu.mem mem (stackOf Y s.procs i).lo (stackOf Y s.procs i).hi
  result : st = .unused ∨
    st = .ready ∧ Fresh Y k mem slot ∧ Clear Y s.procs (stackOf Y k slot) slot

section Edit

variable {k : ProcTable} {mem : Bytes} {slot : Slot} {st : ProcessState}

theorem SlotEdit.process (h : SlotEdit Y s k mem slot st) (hi : (s.procs.process i).Runnable) :
    i ≠ slot ∧ k.process i = s.procs.process i := by
  have hne : i ≠ slot := by
    rintro rfl
    exact h.idle hi
  exact ⟨hne, h.edits.others i hne⟩

theorem SlotEdit.sameStack (h : SlotEdit Y s k mem slot st) (hi : (s.procs.process i).Runnable) :
    SameStack s.procs k i := by
  rw [SameStack, (h.process hi).2]
  exact ⟨rfl, rfl⟩

/-- The stacks stay apart. -/
theorem SlotEdit.apart (h : SlotEdit Y s k mem slot st) (hap : StacksApart Y s.procs) :
    StacksApart Y k := by
  -- a runnable process of the new table was runnable, or is the new thread
  have hcases : ∀ i, (k.process i).Runnable → (i ≠ slot ∧ (s.procs.process i).Runnable) ∨
      (i = slot ∧ Clear Y s.procs (stackOf Y k slot) slot) := by
    intro i hi
    by_cases his : i = slot
    · subst his
      refine .inr ⟨rfl, ?_⟩
      rcases h.result with rfl | ⟨rfl, -, hc⟩
      · rcases hi with hi | hi <;> rw [h.edits.state] at hi <;> cases hi
      · exact hc
    · rw [h.edits.others i his] at hi
      exact .inl ⟨his, hi⟩
  have hstack : ∀ i, i ≠ slot → stackOf Y k i = stackOf Y s.procs i :=
    fun i hi => stackOf_congr (by rw [h.edits.others i hi])
  intro i hi
  rcases hcases i hi with ⟨his, hi'⟩ | ⟨rfl, hcl⟩
  · have hcl := hap i hi'
    rw [hstack i his]
    refine ⟨hcl.below, hcl.table, fun j hj hrj => ?_⟩
    rcases hcases j hrj with ⟨hjs, hj'⟩ | ⟨rfl, hcj⟩
    · rw [hstack j hjs]
      exact hcl.apart j hj hj'
    · exact (hcj.apart i his hi').symm
  · refine ⟨hcl.below, hcl.table, fun j hj hrj => ?_⟩
    rcases hcases j hrj with ⟨hjs, hj'⟩ | ⟨rfl, -⟩
    · rw [hstack j hjs]
      exact hcl.apart j hjs hj'
    · exact absurd rfl hj

theorem SlotEdit.ok (h : SlotEdit Y s k mem slot st) (hs : SysOk Y C s) :
    SysOk Y C ⟨{ s.cpu with mem := mem }, k⟩ := by
  obtain ⟨c, hc⟩ := hs.runs
  refine ⟨⟨c, hc.edit h.edits (fun hr => h.idle (.inr hr)) ?_⟩, ?_, h.apart hs.apart, hs.segs,
    fun i hi => ?_⟩
  · rcases h.result with rfl | ⟨rfl, -⟩ <;> nofun
  · show KernelSlot k
    rw [KernelSlot, h.edits.others 0 h.kernel.symm]
    exact hs.kernel
  · by_cases his : i = slot
    · subst his
      rcases h.result with rfl | ⟨rfl, hf, -⟩
      · cases h.edits.state.symm.trans hi
      · exact .inl hf
    · rw [IsReady, h.edits.others i his] at hi
      exact (hs.waiting i hi).frame (h.sameStack (.inl hi)) (h.memory i (.inl hi))

theorem SlotEdit.suspended (h : SlotEdit Y s k mem slot st) (hi : IsReady s.procs i)
    (hs : Suspended Y C s.procs s.cpu.mem i r) :
    IsReady k i ∧ Suspended Y C k mem i r := by
  refine ⟨?_, hs.frame (h.sameStack (.inl hi)) (h.memory i (.inl hi))⟩
  rw [IsReady, (h.process (.inl hi)).2]
  exact hi

end Edit

/-- `kthread_create` fills a slot, or changes no process. -/
theorem SysOk.create {stack entry : Nat} {name : List (BitVec 8)} {res : Option Slot}
    {k : ProcTable} {mem : Bytes} (h : SysOk Y C s) (ha : HeapAnswer Y s.procs stack)
    (he : entry < 2 ^ 32)
    (hk : kthreadCreate (threadEnv Y stack) s.procs s.cpu.mem entry name = some (res, k, mem)) :
    (k = s.procs ∧ mem = s.cpu.mem) ∨ ∃ slot st, SlotEdit Y s k mem slot st := by
  have hzero : ∀ slot, (s.procs.process slot).state = .unused → slot ≠ 0 := by
    rintro slot hu rfl
    exact h.kernel.2 hu
  have hidle : ∀ slot, (s.procs.process slot).state = .unused →
      ¬ (s.procs.process slot).Runnable := by
    rintro slot hu (hr | hr) <;> rw [hu] at hr <;> cases hr
  have hlt : stack + kernelStackSize < 2 ^ 32 := by
    rcases ha with rfl | ha
    · unfold kernelStackSize; omega
    · exact (ha 0).below
  obtain ⟨hnone, hsome⟩ := kthreadCreate_thread hk hlt he
  rcases kthreadCreate_cases hk with ⟨hr, rfl | ⟨slot, hu, hed⟩⟩ | ⟨slot, hr, hu, hed, -⟩
  · exact .inl ⟨rfl, hnone hr⟩
  · refine .inr ⟨slot, .unused, hed, hidle slot hu, hzero slot hu, fun i _ => ?_, .inl rfl⟩
    rw [hnone hr]
    exact .refl _ _ _
  · right
    obtain ⟨h0, hks, hesp, hret, hout⟩ := hsome slot hr
    have hclear := fun i => (ha.resolve_left h0) i
    have hstack : stackOf Y k slot = ⟨stack, stack + kernelStackSize⟩ := by
      simp [stackOf, hzero slot hu, hks]
    refine ⟨slot, .ready, hed, hidle slot hu, hzero slot hu, fun i hi x hx => hout x fun hx' => ?_,
      .inr ⟨rfl, ⟨?_, ?_, ?_⟩, by rw [hstack]; exact hclear slot⟩⟩
    · have hne : i ≠ slot := by
        rintro rfl
        exact hidle _ hu hi
      have := (hclear slot).apart i hne hi
      simp only at this
      unfold InWin at hx hx'
      omega
    · rw [hstack, hesp]
      simp only [kernelStackSize]
      omega
    · rw [hstack, hesp]
      simp only [kernelStackSize]
      omega
    · rw [hesp]; exact hret

theorem SysOk.free {stack : Nat} {slot : Slot} {k : ProcTable} {mem : Bytes} (h : SysOk Y C s)
    (hz : (s.procs.process slot).state = .zombie)
    (hk : processFree (threadEnv Y stack) s.procs s.cpu.mem (some slot) = some (k, mem)) :
    (k = s.procs ∧ mem = s.cpu.mem) ∨ ∃ slot st, SlotEdit Y s k mem slot st := by
  have hmem : mem = s.cpu.mem := by
    simp only [processFree, threadEnv, freeStack, freeSpace, ite_self, Option.bind_eq_bind,
      Option.bind_some] at hk
    split at hk <;>
    · simp only [Option.some.injEq, Prod.mk.injEq] at hk
      exact hk.2.symm
  subst hmem
  rcases processFree_cases hk with ⟨-, rfl⟩ | hed
  · exact .inl ⟨rfl, rfl⟩
  · by_cases h0 : slot = 0
    · subst h0
      simp only [processFree, h.kernel.1, ↓reduceIte, Option.some.injEq, Prod.mk.injEq] at hk
      exact .inl ⟨hk.1.symm, rfl⟩
    · refine .inr ⟨slot, .unused, hed, ?_, h0, fun i _ => .refl _ _ _, .inl rfl⟩
      rintro (hr | hr) <;> rw [hz] at hr <;> cases hr

/-! ## Steps -/

theorem Switches.leaves {sw : Switch} {m : Cpu} (h : Switches Y C s.procs sw m s')
    (hf : SwitchFrom Y C s.procs sw m) (hrun : (s.procs.process sw.old).state = .running)
    (hto : C.toSwitch (stackOf Y s.procs sw.old).hi (isrEnter Y r) m)
    (hlo : (stackOf Y s.procs sw.old).lo + 64 ≤ r.sp)
    (hhi : r.sp ≤ (stackOf Y s.procs sw.old).hi) :
    IsReady s'.procs sw.old ∧ Suspended Y C s'.procs s'.cpu.mem sw.old r := by
  have hne : sw.old ≠ sw.next := by
    intro he
    exact hf.holds.notReady (he ▸ hf.next)
  have hready : IsReady s'.procs sw.old := by
    rw [IsReady, h.procs, savedEsp_process]
    simp [switchState, hne, hrun]
  have hsus := suspended_of_call h.calls hf.clear hto hlo hhi
  rw [← h.procs] at hsus
  exact ⟨hready, hsus.frame ⟨rfl, rfl⟩ (h.keeps _ hne (.inl hready))⟩

/-- **One step keeps the invariant.** -/
theorem SysOk.step {op : SysOp} (h : SysOk Y C s) (hs : SysStep Y C s op s') : SysOk Y C s' := by
  obtain ⟨c₀, hc₀⟩ := h.runs
  cases hs with
  | code hc hk hseg =>
    refine ⟨h.runs, h.kernel, h.apart, fun x => ?_, fun i hi => ?_⟩
    · exact (congrFun hseg x).trans (h.segs x)
    · refine (h.waiting i hi).frame ⟨rfl, rfl⟩ (hk i ?_ (.inl hi))
      rintro rfl
      rw [hc₀.current, Option.some.injEq] at hc
      exact hc₀.notReady (hc ▸ hi)
  | create ha he hk =>
    rcases h.create ha he hk with ⟨rfl, rfl⟩ | ⟨slot, st, hed⟩
    · exact h
    · exact hed.ok h
  | free hz hk =>
    rcases h.free hz hk with ⟨rfl, rfl⟩ | ⟨slot, st, hed⟩
    · exact h
    · exact hed.ok h
  | @tick c m hc hon hlo hhi hp hh hk =>
    obtain rfl : c = c₀ := Option.some.inj (hc.symm.trans hc₀.current)
    have hctx := context_of_returned (C.handle_returned hh) (by omega) hhi h.segs
    have hkeep := (isrEnter_keeps h.apart (.inr hc₀.runs) hlo hhi).trans hk
    refine ⟨h.runs, h.kernel, h.apart, fun x => ?_, fun i hi => ?_⟩
    · exact (congrFun hctx.seg x).trans (h.segs x)
    · refine (h.waiting i hi).frame ⟨rfl, rfl⟩ (hkeep i ?_ (.inl hi))
      rintro rfl
      exact hc₀.notReady hi
  | @preempt c m sw _ hc hon hlo hhi hp hto hk hseg hsw =>
    obtain rfl : c = c₀ := Option.some.inj (hc.symm.trans hc₀.current)
    obtain ⟨rfl, hf, -⟩ := h.preempts hc₀ hlo hhi hp hk hseg
    exact hsw.ok hf fun _ => .inr ⟨s.cpu, (hsw.leaves hf hc₀.runs hto hlo hhi).2, h.segs⟩
  | @exit c m sw _ hc hp hx hk hseg hsw =>
    obtain rfl : c = c₀ := Option.some.inj (hc.symm.trans hc₀.current)
    obtain ⟨rfl, hf⟩ := h.exits hc₀ hp hk hseg
    -- a thread that ended is not ready again
    refine hsw.ok hf fun hready => ?_
    have hz : ((exitCurrent s.procs).process sw.old).state = .zombie := by
      rw [exitCurrent_eq hc₀.current, ProcTable.setState, ProcTable.modify_same]
    have hne : sw.old ≠ sw.next := by
      intro he
      exact hf.holds.notReady (he ▸ hf.next)
    rw [IsReady, hsw.procs, savedEsp_process] at hready
    simp [switchState, hne, hz] at hready

theorem SysOk.ticked (h : SysOk Y C s) (hc : s.procs.current = some c)
    (hs : SysStep Y C s .tick s') :
    (s'.procs.current = some c ∧ SameContext s.cpu s'.cpu) ∨
    (s'.procs.current ≠ some c ∧ IsReady s'.procs c ∧
      Suspended Y C s'.procs s'.cpu.mem c s.cpu) := by
  obtain ⟨c₀, hc₀⟩ := h.runs
  obtain rfl : c = c₀ := Option.some.inj (hc.symm.trans hc₀.current)
  cases hs with
  | @tick c' m hc' hon hlo hhi hp hh hk =>
    obtain rfl : c' = c := Option.some.inj (hc'.symm.trans hc)
    exact .inl ⟨hc, context_of_returned (C.handle_returned hh) (by omega) hhi h.segs⟩
  | @preempt c' m sw _ hc' hon hlo hhi hp hto hk hseg hsw =>
    obtain rfl : c' = c := Option.some.inj (hc'.symm.trans hc)
    obtain ⟨rfl, hf, -⟩ := h.preempts hc₀ hlo hhi hp hk hseg
    refine .inr ⟨?_, hsw.leaves hf hc₀.runs hto hlo hhi⟩
    rw [hsw.procs]
    intro he
    have : sw.next = sw.old := Option.some.inj he
    exact hf.holds.notReady (this ▸ hf.next)

/-- **One step of another thread** leaves a suspended thread alone, or resumes it. -/
theorem SysOk.follow {op : SysOp} (h : SysOk Y C s) (hi : s.procs.current ≠ some i)
    (hr : IsReady s.procs i) (hsus : Suspended Y C s.procs s.cpu.mem i r)
    (hseg : ∀ x, r.seg x = 0x10) (hs : SysStep Y C s op s') :
    (s'.procs.current = some i ∧ SameContext r s'.cpu) ∨
    (s'.procs.current ≠ some i ∧ IsReady s'.procs i ∧
      Suspended Y C s'.procs s'.cpu.mem i r) := by
  obtain ⟨c₀, hc₀⟩ := h.runs
  have hic : i ≠ c₀ := by
    rintro rfl
    exact hi hc₀.current
  -- the two steps that switch
  have hswitch : ∀ {k sw m}, Switches Y C k sw m s' → SwitchFrom Y C k sw m → IsReady k i →
      Suspended Y C k m.mem i r → (s'.procs.current = some i ∧ SameContext r s'.cpu) ∨
      (s'.procs.current ≠ some i ∧ IsReady s'.procs i ∧
        Suspended Y C s'.procs s'.cpu.mem i r) := by
    intro k sw m hsw hf hri hsi
    have hcur : s'.procs.current = some sw.next := by rw [hsw.procs]; rfl
    by_cases hin : i = sw.next
    · subst hin
      exact .inl ⟨hcur, hsw.resumed hf hsi hseg⟩
    · refine .inr ⟨?_, hsw.kept hf hri hin hsi⟩
      rw [hcur]
      exact fun he => hin (Option.some.inj he).symm
  cases hs with
  | @code c m hc hk hseg' =>
    obtain rfl : c = c₀ := Option.some.inj (hc.symm.trans hc₀.current)
    exact .inr ⟨hi, hr, hsus.frame ⟨rfl, rfl⟩ (hk i hic (.inl hr))⟩
  | create ha he hk =>
    rcases h.create ha he hk with ⟨rfl, rfl⟩ | ⟨slot, st, hed⟩
    · exact .inr ⟨hi, hr, hsus⟩
    · exact .inr ⟨by rw [hed.edits.current]; exact hi, hed.suspended hr hsus⟩
  | free hz hk =>
    rcases h.free hz hk with ⟨rfl, rfl⟩ | ⟨slot, st, hed⟩
    · exact .inr ⟨hi, hr, hsus⟩
    · exact .inr ⟨by rw [hed.edits.current]; exact hi, hed.suspended hr hsus⟩
  | @tick c m hc hon hlo hhi hp hh hk =>
    obtain rfl : c = c₀ := Option.some.inj (hc.symm.trans hc₀.current)
    have hkeep := (isrEnter_keeps h.apart (.inr hc₀.runs) hlo hhi).trans hk
    exact .inr ⟨hi, hr, hsus.frame ⟨rfl, rfl⟩ (hkeep i hic (.inl hr))⟩
  | @preempt c m sw _ hc hon hlo hhi hp hto hk hseg' hsw =>
    obtain rfl : c = c₀ := Option.some.inj (hc.symm.trans hc₀.current)
    obtain ⟨rfl, hf, hkeep⟩ := h.preempts hc₀ hlo hhi hp hk hseg'
    exact hswitch hsw hf hr (hsus.frame ⟨rfl, rfl⟩ (hkeep i hic (.inl hr)))
  | @exit c m sw _ hc hp hx hk hseg' hsw =>
    obtain rfl : c = c₀ := Option.some.inj (hc.symm.trans hc₀.current)
    obtain ⟨rfl, hf⟩ := h.exits hc₀ hp hk hseg'
    exact hswitch hsw hf ((hc₀.ready_exit i).mpr hr)
      (hsus.frame (exitCurrent_sameStack hc i) (hk i hic (.inl hr)))

/-! ## Runs -/

/-- The steps from one state to another, each with the state it was taken in. -/
inductive SysPath (Y : Symbols) (C : CCode) : Sys → List (Sys × SysOp) → Sys → Prop where
  | nil (s : Sys) : SysPath Y C s [] s
  | cons {s s₁ s' : Sys} {op : SysOp} {l : List (Sys × SysOp)} : SysStep Y C s op s₁ →
      SysPath Y C s₁ l s' → SysPath Y C s ((s, op) :: l) s'

theorem SysOk.path {l : List (Sys × SysOp)} (h : SysOk Y C s) (hp : SysPath Y C s l s') :
    SysOk Y C s' := by
  induction hp with
  | nil => exact h
  | cons hs _ ih => exact ih (h.step hs)

theorem SysOk.await {l : List (Sys × SysOp)} (hp : SysPath Y C s l s') (h : SysOk Y C s)
    (hcur : s.procs.current ≠ some i) (hr : IsReady s.procs i)
    (hsus : Suspended Y C s.procs s.cpu.mem i r) (hseg : ∀ x, r.seg x = 0x10)
    (hout : ∀ t ∈ l, t.1.procs.current ≠ some i) (hback : s'.procs.current = some i) :
    SameContext r s'.cpu := by
  induction hp with
  | nil => exact absurd hback hcur
  | @cons s s₁ s' op l hs hp ih =>
    rcases h.follow hcur hr hsus hseg hs with ⟨hc, hctx⟩ | ⟨hc, hr', hsus'⟩
    · -- resumed: no further step was taken
      cases hp with
      | nil => exact hctx
      | cons => exact absurd hc (hout _ (List.mem_cons_of_mem _ List.mem_cons_self))
    · exact ih (h.step hs) hc hr' hsus' (fun t ht => hout t (List.mem_cons_of_mem _ ht)) hback

/-- The machine after `process_init` and `scheduler_init`; the segments are those
of `gdt_flush`. -/
structure Booted (Y : Symbols) (s : Sys) : Prop where
  procs : s.procs = bootTable (threadEnv Y 0)
  segs : ∀ x, s.cpu.seg x = 0x10

theorem Booted.ok (h : Booted Y s) : SysOk Y C s := by
  have hproc : ∀ i, i ≠ 0 → s.procs.process i = Pcb.zeroed := by
    intro i hi
    rw [h.procs]
    simp [bootTable, schedulerInit, processInit, hi]
  have hzero : ∀ i, (s.procs.process i).Runnable → i = 0 := by
    intro i hi
    by_contra h0
    rw [hproc i h0] at hi
    rcases hi with hi | hi <;> cases hi
  have hruns : Runs s.procs 0 := by rw [h.procs]; exact bootTable_runs _
  refine ⟨⟨0, hruns⟩, ?_, fun i hi => ?_, h.segs, fun i hi => ?_⟩
  · rw [h.procs]
    exact ⟨rfl, fun hst => by cases hst⟩
  · obtain rfl := hzero i hi
    have htab := Y.bootStack_apart
    refine ⟨Y.bootStackTop_lt, fun j => ?_, fun j hj hrj => absurd (hzero j hrj) hj⟩
    have hj : j.val < maxProcesses := j.isLt
    simp only [stackOf, ↓reduceIte, Symbols.kernelEspAddr]
    unfold maxProcesses at *
    omega
  · obtain rfl := hzero i (.inl hi)
    exact absurd hi hruns.notReady

/-- **Preemption is transparent.** The timer interrupts thread `c` anywhere in a run
of the machine. Whatever threads run, are created, exit and are freed meanwhile: in
the first state in which `c` is current again, all its registers, flags and segments
are as they were at the interruption. -/
theorem preemption_transparent {s₀ s₁ s₂ : Sys} {l₀ l : List (Sys × SysOp)} (hb : Booted Y s₀)
    (hrun : SysPath Y C s₀ l₀ s) (hc : s.procs.current = some c) (htick : SysStep Y C s .tick s₁)
    (hpath : SysPath Y C s₁ l s₂) (hout : ∀ t ∈ l, t.1.procs.current ≠ some c)
    (hback : s₂.procs.current = some c) : SameContext s.cpu s₂.cpu := by
  have hok : SysOk Y C s := (hb.ok (C := C)).path hrun
  rcases hok.ticked hc htick with ⟨hcur, hctx⟩ | ⟨hcur, hr, hsus⟩
  · cases hpath with
    | nil => exact hctx
    | cons => exact absurd hcur (hout _ List.mem_cons_self)
  · exact SysOk.await hpath (hok.step htick) hcur hr hsus hok.segs hout hback

/-! ## A machine that runs -/

theorem ret_returned (hi : Nat) (m : Cpu) : Returned 4 hi m (m.exec .ret) := by
  refine ⟨rfl, ?_, fun r hr => ?_, .refl _ _ _⟩
  · simp [Cpu.exec, Cpu.drop]
  · have hne : r ≠ .esp := by rintro rfl; simp [calleeSaved] at hr
    simp [Cpu.exec, Cpu.drop, hne]

theorem plainSwitch_returned (Y : Symbols) {hi : Nat} {m m₂ : Cpu} {a b : Word} (h12 : 12 ≤ m.sp)
    (hhi : m.sp + 4 ≤ hi) (hr : Returned 8 hi (((m.push b).push a).push Y.scheduleReturn) m₂) :
    Returned 4 hi m ((m₂.drop 8).exec .ret) := by
  have hp := plainCall_pushed Y m a b h12
  have hesp : m₂.reg .esp + 8 = m.reg .esp := by
    rw [hr.esp]
    simp only [Cpu.push_esp]
    grind
  have hag : AgreeOn m.mem m₂.mem m.sp hi := by
    have hs := hp.sp
    simp only [List.length_cons, List.length_nil] at hs
    refine AgreeOn.trans (fun x hx => hp.frame x ?_) (hr.frame.mono (by omega) (Nat.le_refl _))
    have := hx.1
    unfold InWin
    omega
  refine ⟨?_, ?_, fun r hx => ?_, hag.mono (by omega) (Nat.le_refl _)⟩
  · have h0 : ∀ w : Word, w + 0 = w := fun w => by simp
    simp only [Cpu.exec, Cpu.drop, Cpu.top, Cpu.set_same, Cpu.set_load, hesp, h0]
    exact congrArg (BitVec.ofNat 32) (load32_congr (hag.mono (Nat.le_refl _) hhi))
  · simp only [Cpu.exec, Cpu.drop, Cpu.set_same, hesp]
  · have hne : r ≠ .esp := by rintro rfl; simp [calleeSaved] at hx
    have := hr.saved r hx
    simpa [Cpu.exec, Cpu.drop, hne] using this

/-- The shortest C code: it pushes the arguments of `context_switch` and calls it. -/
def plainCode (Y : Symbols) : CCode where
  handle _ m m' := m' = m.exec .ret
  toSwitch hi m m' := 12 ≤ m.sp ∧ m.sp + 4 ≤ hi ∧
    ∃ a b, m' = ((m.push b).push a).push Y.scheduleReturn
  fromSwitch _ m m' := m' = (m.drop 8).exec .ret
  exitToSwitch _ _ _ := False
  handle_returned := by
    rintro hi m m' rfl
    exact ret_returned hi m
  switch_returned := by
    rintro hi m m₁ m₂ m₃ ⟨h12, hhi, a, b, rfl⟩ hr rfl
    exact plainSwitch_returned Y h12 hhi hr

theorem plainCode_resumes {k : ProcTable} {m : Cpu}
    (hw : Waiting Y (plainCode Y) k (m.run contextSwitch).mem i)
    (hn : (m.top 8).toNat = (k.process i).kernelEsp) (hlt : (stackOf Y k i).hi < 2 ^ 32) :
    ∃ m', Resumes Y (plainCode Y) (stackOf Y k i).hi (m.run contextSwitch) m' ∧
      m'.mem = (m.run contextSwitch).mem := by
  rcases hw with hw | ⟨r, ⟨m₁, hw⟩, -⟩
  · exact ⟨_, .starts (hw.eip hn hlt), rfl⟩
  · obtain ⟨heip, hback⟩ := hw.returned hn hlt
    refine ⟨isrLeave (((m.run contextSwitch).drop 8).exec .ret), .returns heip rfl ?_,
      isrLeave_mem _⟩
    have hroom := hw.room
    have hin := hw.inside
    obtain ⟨fp, esp, -, hp⟩ := isrEnter_pushed Y r (by omega)
    have hsp := hp.sp
    rw [((plainCode Y).switch_returned hw.enter hback rfl).eip]
    refine Top.get ⟨hp.words, ?_⟩ 0 rfl
    omega

/-- With this code, a tick that finds a ready process always switches to it. -/
theorem plainCode_preempts {sw : Switch} (hok : SysOk Y (plainCode Y) s) (hc : Runs s.procs c)
    (hlo : (stackOf Y s.procs c).lo + 92 ≤ s.cpu.sp) (hhi : s.cpu.sp ≤ (stackOf Y s.procs c).hi)
    (hon : s.cpu.InterruptsOn) (hp : pickNext s.procs = some sw)
    (haddr : Y.kernelEspAddr sw.old < 2 ^ 32) :
    ∃ s' esp, SysStep Y (plainCode Y) s .tick s' ∧ s'.procs = savedEsp s.procs sw esp := by
  obtain ⟨fp, esp, -, hpush⟩ := isrEnter_pushed Y s.cpu (by omega)
  have hsp := hpush.sp
  simp only [List.length_cons, interruptFrame, List.length_nil] at hsp
  have hcl := hok.apart c (.inr hc.runs)
  have hnr := (hc.pick_some hp).2.1
  have hncl := hok.apart sw.next (.inl hnr)
  have hespn : (s.procs.process sw.next).kernelEsp < 2 ^ 32 := by
    have := hncl.below
    rcases hok.waiting _ hnr with hw | ⟨r, ⟨m₁, hw⟩, -⟩
    · have := hw.hi; omega
    · have := hw.hi; have := hw.esp; omega
  obtain ⟨hcalls, hcall⟩ := plainCall_calls (k := s.procs) (w := sw) (m := isrEnter Y s.cpu)
    (by rw [(hc.pick_some hp).1]; omega) (by rw [(hc.pick_some hp).1]; omega)
    (by rw [(hc.pick_some hp).1]; exact hcl.below) haddr hespn
  have hmsp := hcall.sp
  simp only [List.length_cons, List.length_nil] at hmsp
  have hk : KeepsStacks Y s.procs c (isrEnter Y s.cpu).mem
      (plainCall Y s.procs sw (isrEnter Y s.cpu)).mem := by
    intro i hi hrun x hx
    have := hcl.apart i hi hrun
    refine hcall.frame x ?_
    unfold InWin at *
    omega
  obtain ⟨rfl, hf, -⟩ := hok.preempts hc (by omega) hhi hp hk rfl
  have hag := contextSwitch_keeps hcalls hcl hok.apart sw.next (hf.ne hnr) (.inl hnr)
  obtain ⟨m', hres, hmem⟩ := plainCode_resumes ((hf.waiting _ hnr).frame ⟨rfl, rfl⟩ hag)
    hcalls.new hncl.below
  refine ⟨⟨m', savedEsp s.procs sw _⟩, _, .preempt hc.current hon (by omega) hhi hp
    ⟨by omega, by omega, _, _, rfl⟩ hk rfl ⟨hcalls, rfl, hres, fun i _ _ => ?_⟩, rfl⟩
  rw [hmem]
  exact .refl _ _ _

/-- PID 0 creates a thread and is interrupted; the thread runs and is interrupted in
turn; PID 0 goes on as before. -/
theorem preemption_transparent_sample : ∃ s s₁ s₂ l, Booted sampleSymbols
      ⟨sampleCpu 0xC011F000 (fun _ => 0), bootTable (threadEnv sampleSymbols 0)⟩ ∧
    s.procs.current = some 0 ∧ s₁.procs.current = some 1 ∧ s₂.procs.current = some 0 ∧
    SysStep sampleSymbols (plainCode sampleSymbols) s .tick s₁ ∧
    SysPath sampleSymbols (plainCode sampleSymbols) s₁ l s₂ ∧ SameContext s.cpu s₂.cpu := by
  have hb : Booted sampleSymbols
      ⟨sampleCpu 0xC011F000 (fun _ => 0), bootTable (threadEnv sampleSymbols 0)⟩ :=
    ⟨rfl, fun _ => rfl⟩
  have hans : HeapAnswer sampleSymbols (bootTable (threadEnv sampleSymbols 0)) 0xC0401000 := by
    refine .inr fun i => ⟨?_, fun j => ?_, fun j _ hrj => .inr ?_⟩
    · simp only [kernelStackSize]; omega
    · have hj : j.val < maxProcesses := j.isLt
      simp only [Symbols.kernelEspAddr, sampleSymbols]
      unfold maxProcesses at hj
      omega
    · by_cases h0 : j = 0
      · subst h0
        simp only [stackOf, ↓reduceIte, sampleSymbols]
        omega
      · simp [bootTable, schedulerInit, processInit, h0, Pcb.zeroed, Pcb.Runnable] at hrj
  obtain ⟨k, mem, hk, hcur, hstack, hpick, hpick'⟩ :
      ∃ k mem, kthreadCreate (threadEnv sampleSymbols 0xC0401000)
        (bootTable (threadEnv sampleSymbols 0)) (fun _ => 0) 0xC0106000 [] =
          some (some 1, k, mem) ∧ k.current = some 0 ∧ (k.process 1).kernelStack = 0xC0401000 ∧
        pickNext k = some ⟨0, 1⟩ ∧ ∀ esp, pickNext (savedEsp k ⟨0, 1⟩ esp) = some ⟨1, 0⟩ :=
    ⟨_, _, rfl, rfl, rfl, rfl, fun _ => rfl⟩
  have haddr : ∀ i : Slot, sampleSymbols.kernelEspAddr i < 2 ^ 32 := by
    intro i
    have hi : i.val < maxProcesses := i.isLt
    simp only [Symbols.kernelEspAddr, sampleSymbols]
    unfold maxProcesses at hi
    omega
  -- the thread is created, and the timer interrupts PID 0
  have hentry : 0xC0106000 < 2 ^ 32 := by omega
  have hcreate : SysStep sampleSymbols (plainCode sampleSymbols)
      ⟨sampleCpu 0xC011F000 (fun _ => 0), bootTable (threadEnv sampleSymbols 0)⟩ .create
      ⟨sampleCpu 0xC011F000 mem, k⟩ := .create hans hentry hk
  have hrun := SysPath.cons hcreate (.nil _)
  have hok : SysOk sampleSymbols (plainCode sampleSymbols) ⟨sampleCpu 0xC011F000 mem, k⟩ :=
    hb.ok.path hrun
  have hruns : Runs k 0 := by
    obtain ⟨c, hc⟩ := hok.runs
    obtain rfl : c = 0 := Option.some.inj (hc.current.symm.trans hcur)
    exact hc
  obtain ⟨s₁, e₁, htick, hs₁⟩ := plainCode_preempts hok hruns
    (by simp only [stackOf, ↓reduceIte, sampleSymbols, sampleCpu, Cpu.sp]; decide)
    (by simp only [stackOf, ↓reduceIte, sampleSymbols, sampleCpu, Cpu.sp]; decide)
    (sampleCpu_on _ _) hpick (haddr _)
  -- the thread runs on its own stack, and is interrupted
  have hok₁ := hok.step htick
  have hcur₁ : s₁.procs.current = some 1 := by rw [hs₁]; rfl
  have hcode : SysStep sampleSymbols (plainCode sampleSymbols) s₁ .code
      ⟨sampleCpu 0xC0402F00 s₁.cpu.mem, s₁.procs⟩ :=
    .code hcur₁ (fun _ _ _ => .refl _ _ _) (funext fun x => (hok₁.segs x).symm)
  have hok₂ := hok₁.step hcode
  have hruns₂ : Runs s₁.procs 1 := by
    obtain ⟨c, hc⟩ := hok₂.runs
    obtain rfl : c = 1 := Option.some.inj (hc.current.symm.trans hcur₁)
    exact hc
  have hst : stackOf sampleSymbols s₁.procs 1 = ⟨0xC0401000, 0xC0401000 + kernelStackSize⟩ := by
    rw [hs₁, stackOf_savedEsp]
    simp only [stackOf, hstack]
    rfl
  obtain ⟨s₂, e₂, htick₂, hs₂⟩ := plainCode_preempts hok₂ hruns₂
    (by simp only [hst, sampleCpu, Cpu.sp]; decide)
    (by simp only [hst, sampleCpu, Cpu.sp]; decide) (sampleCpu_on _ _)
    (by rw [hs₁]; exact hpick' e₁) (haddr _)
  have hpath := SysPath.cons hcode (.cons htick₂ (.nil s₂))
  have hcur₂ : s₂.procs.current = some 0 := by rw [hs₂]; rfl
  refine ⟨_, s₁, s₂, _, hb, hcur, hcur₁, hcur₂, htick, hpath,
    preemption_transparent hb hrun hcur htick hpath ?_ hcur₂⟩
  simp only [List.mem_cons, List.not_mem_nil, or_false]
  rintro t (rfl | rfl)
  · rw [hcur₁]; decide
  · rw [hcur₁]; decide

end TupleOS.Process
