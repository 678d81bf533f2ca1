import TupleOS.Process.Steps
import TupleOS.Process.Switch

/-!
# Thread creation, statement by statement

`kthread_create` runs with interrupts enabled, so its statements matter one by one
(`Call.step`). Run without a break they do what the function does as a whole
(`finishes_createOn`): on the slot that the scan found, `createOn`. Its result is a
thread that `context_switch` can start (`createOn_builds`).
-/

namespace TupleOS.Process

open TupleOS.Base

/-! ## The function after its scan -/

section Whole

variable {σ : Type} (E : ProcEnv σ)

/-- `kthread_create` once `process_alloc` has found its slot. -/
def createOn (k : ProcTable) (s : σ) (slot : Slot) (entry : Nat) (name : List (BitVec 8)) :
    Option (Option Slot × ProcTable × σ) := do
  let (stack, s) ← E.kmallocAligned s kernelStackSize
  let k := (reserve k slot).modify slot fun p => { p with kernelStack := stack }
  if stack = 0 then some (none, k.setState slot .unused, s)
  else
    let k := k.modify slot fun p => { p with kernelEsp := w32 (p.kernelStack + kernelStackSize) }
    let k := k.modify slot fun p => { p with name := copyName name processNameLen }
    let k := k.modify slot fun p => { p with pageDirectory := E.pagingGetDirectory }
    let k := k.modify slot fun p => { p with addressSpace := E.vmmGetKernelSpace }
    let (sp, s) ← pushWords E s (w32 ((k.process slot).kernelStack + kernelStackSize))
      (frameWords E.kthreadTrampoline entry)
    some (some slot, k.modify slot fun p => { p with kernelEsp := sp }, s)

theorem kthreadCreate_eq (k : ProcTable) (s : σ) (entry : Nat) (name : List (BitVec 8)) :
    kthreadCreate E k s entry name =
      (findUnused k).elim (some (none, k, s)) fun slot => createOn E k s slot entry name := by
  unfold kthreadCreate processAlloc createOn
  cases findUnused k with
  | none => rfl
  | some slot =>
    simp only [Option.elim_some, Option.bind_eq_bind, Option.bind_assoc]
    congr 1
    funext r
    by_cases h : r.1 = 0
    · simp [h]
    · simp [h, Function.comp_def]

end Whole

/-! ## The frame of a new thread -/

/-- The six words on a new stack, from `kernel_esp` upwards. -/
def newFrame (trampoline entry : Nat) : List Word :=
  (frameWords trampoline entry).reverse.map (BitVec.ofNat 32)

/-- The stores of `E` write the memory that `get` shows and `put` replaces. -/
structure WordStore {σ : Type} (E : ProcEnv σ) (get : σ → Bytes) (put : σ → Bytes → σ) : Prop where
  store : ∀ s a v, E.store s a v = some (put s (store32 (get s) a v))
  get_put : ∀ s m, get (put s m) = m
  put_put : ∀ s m m', put (put s m) m' = put s m'
  put_get : ∀ s, put s (get s) = s

section Frame

variable {σ : Type} {E : ProcEnv σ} {get : σ → Bytes} {put : σ → Bytes → σ}

/-- The pushes put their words on the stack, first one highest. -/
theorem pushWords_words (W : WordStore E get put) : ∀ (ws : List Nat) (s : σ) (sp : Nat),
    4 * ws.length ≤ sp → sp < 2 ^ 32 → (∀ w ∈ ws, w < 2 ^ 32) →
    ∃ mem, pushWords E s sp ws = some (sp - 4 * ws.length, put s mem) ∧
      Words mem (sp - 4 * ws.length) (ws.reverse.map (BitVec.ofNat 32)) ∧
      ∀ x, ¬ InWin (sp - 4 * ws.length) sp x → mem x = get s x
  | [], s, sp, _, _, _ => ⟨get s, by rw [W.put_get]; rfl, trivial, fun _ _ => rfl⟩
  | w :: ws, s, sp, hlen, hsp, hw => by
    rw [List.length_cons] at hlen
    have hsub : sub32 sp 4 = sp - 4 := sub32_of_le (by omega) hsp
    obtain ⟨mem, he, hwords, hout⟩ := pushWords_words W ws
      (put s (store32 (get s) (sp - 4) w)) (sp - 4) (by omega) (by omega)
      fun v hv => hw v (List.mem_cons_of_mem _ hv)
    have hle : sp - 4 - 4 * ws.length = sp - 4 * (w :: ws).length := by
      rw [List.length_cons]; omega
    rw [hle] at he hwords hout
    rw [W.put_put] at he
    rw [W.get_put] at hout
    refine ⟨mem, ?_, ?_, fun x hx => ?_⟩
    · simp only [pushWords, hsub, W.store]
      exact he
    · rw [List.reverse_cons, List.map_append]
      refine hwords.append ⟨?_, trivial⟩
      have hat : sp - 4 * (w :: ws).length +
          4 * (ws.reverse.map (BitVec.ofNat 32)).length = sp - 4 := by
        rw [List.length_map, List.length_reverse, List.length_cons]; omega
      rw [hat, load32_congr (m := store32 (get s) (sp - 4) w),
        load32_store32 _ _ (hw w List.mem_cons_self), BitVec.toNat_ofNat,
        Nat.mod_eq_of_lt (hw w List.mem_cons_self)]
      intro x hx
      refine hout x ?_
      have := hx.1
      unfold InWin
      omega
    · unfold InWin at hx
      rw [List.length_cons] at hx
      rw [hout x (by unfold InWin; rw [List.length_cons]; omega), store32_out (by omega)]

variable (k : ProcTable) (slot : Slot) {s s₁ : σ} {stack entry : Nat} (name : List (BitVec 8))

theorem createOn_fails (entry : Nat) (hm : E.kmallocAligned s kernelStackSize = some (0, s₁)) :
    ∃ k', createOn E k s slot entry name = some (none, k', s₁) ∧ EditsSlot k k' slot .unused := by
  have hr := (reserve_edits k slot).modify (fun p => { p with kernelStack := 0 })
    (reserve_edits k slot).state
  refine ⟨_, ?_, hr.modify (fun p => { p with state := .unused }) rfl⟩
  simp only [createOn, hm, Option.bind_eq_bind, Option.bind_some, ↓reduceIte]
  rfl

/-- **A new thread is ready to be switched to**, and nothing outside its stack was
written. -/
theorem createOn_builds (W : WordStore E get put)
    (hm : E.kmallocAligned s kernelStackSize = some (stack, s₁)) (h0 : stack ≠ 0)
    (hlt : stack + kernelStackSize < 2 ^ 32) (ht : E.kthreadTrampoline < 2 ^ 32)
    (he : entry < 2 ^ 32) :
    ∃ k' mem, createOn E k s slot entry name = some (some slot, k', put s₁ mem) ∧
      EditsSlot k k' slot .ready ∧ (k'.process slot).kernelStack = stack ∧
      (k'.process slot).kernelEsp = stack + kernelStackSize - 24 ∧
      Words mem (stack + kernelStackSize - 24) (newFrame E.kthreadTrampoline entry) ∧
      ∀ x, ¬ InWin stack (stack + kernelStackSize) x → mem x = get s₁ x := by
  have hwords : ∀ w ∈ frameWords E.kthreadTrampoline entry, w < 2 ^ 32 := by
    simp only [frameWords, List.mem_cons, List.not_mem_nil, or_false]
    rintro w (rfl | rfl | rfl | rfl | rfl | rfl) <;> omega
  obtain ⟨mem, hp, hw, hout⟩ := pushWords_words W (frameWords E.kthreadTrampoline entry)
    s₁ (stack + kernelStackSize)
    (by simp only [frameWords, List.length_cons, List.length_nil, kernelStackSize]
        omega)
    hlt hwords
  have hr := (reserve_edits k slot).modify (fun p => { p with kernelStack := stack })
    (reserve_edits k slot).state
  have h1 := hr.modify (fun p => { p with kernelEsp := w32 (p.kernelStack + kernelStackSize) })
    hr.state
  have h2 := h1.modify (fun p => { p with name := copyName name processNameLen }) h1.state
  have h3 := h2.modify (fun p => { p with pageDirectory := E.pagingGetDirectory }) h2.state
  have h4 := h3.modify (fun p => { p with addressSpace := E.vmmGetKernelSpace }) h3.state
  refine ⟨_, mem, ?_, h4.modify (fun p => { p with kernelEsp := stack + kernelStackSize - 24 })
    h4.state, ?_, ?_, hw, fun x hx => hout x fun hx' => hx ?_⟩
  · simp only [createOn, hm, h0, ProcTable.modify_same, w32_of_lt hlt, hp, Option.bind_eq_bind,
      Option.bind_some, ↓reduceIte]
    rfl
  · simp
  · simp
  · unfold InWin at hx' ⊢
    simp only [frameWords, List.length_cons, List.length_nil] at hx'
    unfold kernelStackSize at *
    omega

end Frame

/-! ## Statements -/

inductive Stmt where
  /-- The scan at index `i`. -/
  | scan (i : Nat)
  /-- `zero_memory(proc, ...)`. -/
  | zero
  /-- `proc->pid = next_pid++`. -/
  | pid
  /-- `proc->state = PROCESS_READY`. -/
  | ready
  /-- `proc->parent_pid = ...`. -/
  | parent
  /-- `proc->kernel_stack = kmalloc_aligned(...)`. -/
  | stack
  /-- `if (!proc->kernel_stack)`. -/
  | check
  /-- `proc->state = PROCESS_UNUSED`, and `NULL` is returned. -/
  | fail
  /-- `proc->kernel_esp = proc->kernel_stack + KERNEL_STACK_SIZE`. -/
  | top
  /-- `copy_name(proc->name, ...)`. -/
  | name
  /-- `proc->page_directory = ...`. -/
  | directory
  /-- `proc->address_space = ...`. -/
  | space
  /-- `sp = proc->kernel_stack + KERNEL_STACK_SIZE`. -/
  | sp
  /-- `*(--sp) = w`. -/
  | push (w : Nat)
  /-- `proc->kernel_esp = sp`. -/
  | esp
  deriving DecidableEq, Repr

/-- A call in progress: its arguments, its locals and what is left of it. -/
structure Call where
  entry : Nat
  name : List (BitVec 8)
  proc : Slot
  sp : Nat
  rest : List Stmt

def allocStmts : List Stmt := [.zero, .pid, .ready, .parent, .stack, .check, .top]

def createStmts (trampoline entry : Nat) : List Stmt :=
  [.name, .directory, .space, .sp] ++ (frameWords trampoline entry).map .push ++ [.esp]

section Statements

variable {σ : Type} (E : ProcEnv σ)

def allocCall : Call := ⟨0, [], 0, 0, .scan 0 :: allocStmts⟩

def createCall (entry : Nat) (name : List (BitVec 8)) : Call :=
  ⟨entry, name, 0, 0, .scan 0 :: (allocStmts ++ createStmts E.kthreadTrampoline entry)⟩

/-- One statement of a call; `none` when the call has returned. -/
def Call.step (k : ProcTable) (s : σ) (c : Call) : Option (ProcTable × σ × Call) :=
  match c with
  | ⟨_, _, _, _, []⟩ => none
  | ⟨entry, name, proc, sp, st :: rest⟩ =>
    let c : Call := ⟨entry, name, proc, sp, rest⟩
    match st with
    | .scan i =>
      if h : i < maxProcesses then
        if (k.process ⟨i, h⟩).state = .unused then some (k, s, { c with proc := ⟨i, h⟩ })
        else some (k, s, { c with rest := .scan (i + 1) :: rest })
      else some (k, s, { c with rest := [] })
    | .zero => some (k.modify proc fun _ => Pcb.zeroed, s, c)
    | .pid => some ({ k.modify proc fun p => { p with pid := k.nextPid } with
        nextPid := w32 (k.nextPid + 1) }, s, c)
    | .ready => some (k.setState proc .ready, s, c)
    | .parent => some (k.modify proc fun p => { p with
        parentPid := k.current.elim 0 fun q => (k.process q).pid }, s, c)
    | .stack => do
      let (stack, s) ← E.kmallocAligned s kernelStackSize
      some (k.modify proc fun p => { p with kernelStack := stack }, s, c)
    | .check =>
      if (k.process proc).kernelStack = 0 then some (k, s, { c with rest := [.fail] })
      else some (k, s, c)
    | .fail => some (k.setState proc .unused, s, c)
    | .top => some (k.modify proc fun p => { p with
        kernelEsp := w32 (p.kernelStack + kernelStackSize) }, s, c)
    | .name => some (k.modify proc fun p => { p with name := copyName name processNameLen }, s, c)
    | .directory => some (k.modify proc fun p => { p with
        pageDirectory := E.pagingGetDirectory }, s, c)
    | .space => some (k.modify proc fun p => { p with addressSpace := E.vmmGetKernelSpace }, s, c)
    | .sp => some (k, s, { c with sp := w32 ((k.process proc).kernelStack + kernelStackSize) })
    | .push w => do
      let s ← E.store s (sub32 sp 4) w
      some (k, s, { c with sp := sub32 sp 4 })
    | .esp => some (k.modify proc fun p => { p with kernelEsp := sp }, s, c)

/-- The call runs to its end without a break. -/
inductive Finishes : ProcTable × σ × Call → ProcTable × σ → Prop where
  | done {k s c} : c.rest = [] → Finishes (k, s, c) (k, s)
  | step {k s c x r} : Call.step E k s c = some x → Finishes x r → Finishes (k, s, c) r

variable {E} {k k' : ProcTable} {s s' : σ} {c : Call}

theorem Call.step_done (h : c.rest = []) : Call.step E k s c = none := by
  obtain ⟨_, _, _, _, rest⟩ := c
  cases h
  rfl

theorem Finishes.next {x : ProcTable × σ × Call} {r : ProcTable × σ}
    (h : Finishes E (k, s, c) r) (hs : Call.step E k s c = some x) : Finishes E x r := by
  cases h with
  | done hd =>
    rw [Call.step_done hd] at hs
    cases hs
  | step hs' h =>
    rw [hs, Option.some.injEq] at hs'
    exact hs' ▸ h

theorem finishes_pushes {entry : Nat} {name : List (BitVec 8)} {slot : Slot} :
    ∀ {ws : List Nat} {s s' : σ} {sp sp' : Nat}, pushWords E s sp ws = some (sp', s') →
    Finishes E (k, s, ⟨entry, name, slot, sp, ws.map .push ++ [.esp]⟩)
      (k.modify slot fun p => { p with kernelEsp := sp' }, s')
  | [], s, s', sp, sp', h => by
    simp only [pushWords, Option.some.injEq, Prod.mk.injEq] at h
    obtain ⟨rfl, rfl⟩ := h
    exact .step rfl (.done rfl)
  | w :: ws, s, s', sp, sp', h => by
    obtain ⟨s₁, hst, h⟩ := Option.bind_eq_some_iff.mp h
    refine .step (x := (k, s₁, ⟨entry, name, slot, sub32 sp 4, ws.map .push ++ [.esp]⟩)) ?_
      (finishes_pushes h)
    simp [Call.step, hst]

/-- **The statements of `kthread_create`, run without a break, are the function.** -/
theorem finishes_createOn {entry : Nat} (sp : Nat) {name : List (BitVec 8)} {slot : Slot}
    {r : Option Slot} (h : createOn E k s slot entry name = some (r, k', s')) :
    Finishes E (k, s, ⟨entry, name, slot, sp,
      allocStmts ++ createStmts E.kthreadTrampoline entry⟩) (k', s') := by
  obtain ⟨⟨stack, s₁⟩, hm, h⟩ := Option.bind_eq_some_iff.mp h
  refine .step rfl (.step rfl (.step rfl (.step rfl (.step (x :=
    ((reserve k slot).modify slot fun p => { p with kernelStack := stack }, s₁,
      ⟨entry, name, slot, sp, [.check, .top] ++ createStmts E.kthreadTrampoline entry⟩)) ?_ ?_))))
  · show Option.bind (E.kmallocAligned s kernelStackSize) _ = _
    rw [hm]
    rfl
  · simp only at h
    generalize hk : ((reserve k slot).modify slot
      fun p => { p with kernelStack := stack }) = k₁ at h
    have hks : (k₁.process slot).kernelStack = stack := by rw [← hk]; simp
    by_cases h0 : stack = 0
    · simp only [h0, ↓reduceIte, Option.some.injEq, Prod.mk.injEq] at h
      obtain ⟨-, rfl, rfl⟩ := h
      refine .step (x := (k₁, s₁, ⟨entry, name, slot, sp, [.fail]⟩)) ?_ (.step rfl (.done rfl))
      simp [Call.step, hks, h0]
    · simp only [h0, ↓reduceIte] at h
      obtain ⟨⟨sp', s₂⟩, hp, h⟩ := Option.bind_eq_some_iff.mp h
      simp only [Option.some.injEq, Prod.mk.injEq] at h
      obtain ⟨-, rfl, rfl⟩ := h
      refine .step (x := (k₁, s₁, ⟨entry, name, slot, sp,
        .top :: createStmts E.kthreadTrampoline entry⟩)) ?_
        (.step rfl (.step rfl (.step rfl (.step rfl (.step rfl ?_)))))
      · simp [Call.step, hks, h0]
      · exact finishes_pushes hp

end Statements

end TupleOS.Process
