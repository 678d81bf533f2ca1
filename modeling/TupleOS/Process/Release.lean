import TupleOS.Process.Threads

/-!
# Giving a process's stack back

`process_alloc` keeps the page-aligned pointer of its stack, and `process_free`
hands that pointer to `kfree`. `process_free_stack` says when the heap gets the
block back: exactly when its payload was page aligned already.
-/

namespace TupleOS.Process

open TupleOS.Base TupleOS.Memory TupleOS.Heap

/-- `process_free` of the slot returns, and gives the block with payload `p` back. -/
def FreesStack (Y : Symbols) (L : Layout) (k : ProcTable) (h : KHeap) (slot : Slot) (p : Nat)
    (other : Block → Prop) : Prop :=
  ∃ k' h', processFree (kernelEnv Y L ⟨[], []⟩) k h (some slot) = some (k', h') ∧
    GivesBack h h' p other

/-- The heap calls of others, from one state of the heap to another. -/
abbrev OthersRun (L : Layout) (spare : Nat → Prop) : HeapState → List HeapCall → HeapState → Prop :=
  Run (heapStep L) fun s c => c.Allowed L s ∧ c.TablesOffHeap ∧ ∀ p, c = .kfree p → ¬ spare p

section

variable {Y : Symbols} {L : Layout} {s s₁ s₂ : HeapState} {k k₁ : ProcTable} {slot : Slot}
  {ans : Answers} {h₁ : KHeap} {p n : Nat} {cs : List HeapCall}

theorem processAlloc_stack {h : KHeap}
    (ha : processAlloc (kernelEnv Y L ans) k h = some (some slot, k₁, h₁)) :
    ∃ q a', kmalloc (heapEnv L) h ans (kernelStackSize + pageSize) = some (q, h₁, a') ∧ q ≠ 0 ∧
      (k₁.process slot).kernelStack = roundUp pageSize q ∧ (k₁.process slot).pid = k.nextPid := by
  unfold processAlloc at ha
  cases hu : findUnused k with
  | none =>
    rw [hu] at ha
    simp at ha
  | some i =>
    rw [hu] at ha
    obtain ⟨⟨stack, h'⟩, hm, ha⟩ := Option.bind_eq_some_iff.mp ha
    obtain ⟨⟨ptr, h₂, a'⟩, hal, he⟩ := Option.map_eq_some_iff.mp hm
    cases he
    obtain ⟨⟨q, h₃, a₃⟩, hk, hal⟩ := Option.bind_eq_some_iff.mp hal
    have hw : w32 (kernelStackSize + pageSize) = kernelStackSize + pageSize := by decide
    rw [hw] at hk
    simp only at ha hal
    split at ha
    · cases ha
    · rename_i hs
      cases ha
      by_cases hq : q = 0
      · rw [if_pos hq] at hal
        cases hal
        exact absurd rfl hs
      · rw [if_neg hq] at hal
        cases hal
        exact ⟨q, _, hk, hq, by simp, by simp [reserve, ProcTable.setState]⟩

theorem processAlloc_succeeds {σ : Type} {E : ProcEnv σ} {e e' : σ} {stack : Nat}
    (hf : findUnused k = some slot) (hm : E.kmallocAligned e kernelStackSize = some (stack, e'))
    (h0 : stack ≠ 0) : ∃ k₁, processAlloc E k e = some (some slot, k₁, e') ∧
      (k₁.process slot).kernelStack = stack ∧ (k₁.process slot).pid = k.nextPid ∧
      (k₁.process slot).addressSpace = 0 := by
  unfold processAlloc
  rw [hf]
  simp only [hm, h0, ↓reduceIte, Option.bind_eq_bind, Option.bind_some, Option.some.injEq,
    Prod.mk.injEq, true_and, and_true, exists_eq_left']
  simp [reserve, ProcTable.setState, Pcb.zeroed]

theorem heapStep_keeps {c : HeapCall} {l : Alloc} (hl : l ∈ s.live)
    (hc : ∀ p, c = .kfree p → l.ptr ≠ p) (hs : heapStep L s c = some s₁) : l ∈ s₁.live := by
  have hadd : ∀ q n, l ∈ addLive s.live q n := by
    intro q n
    unfold addLive
    split
    · exact hl
    · exact List.mem_cons_of_mem _ hl
  cases c with
  | kmalloc n a =>
    obtain ⟨r, -, rfl⟩ := Option.map_eq_some_iff.mp hs
    exact hadd _ _
  | kcalloc num size a =>
    obtain ⟨r, -, rfl⟩ := Option.map_eq_some_iff.mp hs
    exact hadd _ _
  | kfree q =>
    obtain ⟨r, -, rfl⟩ := Option.map_eq_some_iff.mp hs
    exact mem_dropPtr.mpr ⟨hl, hc q rfl⟩
  | write x b =>
    cases hs
    exact hl

theorem heapInv_others {spare : Nat → Prop} (h : HeapInv L s) (hrun : OthersRun L spare s cs s₁) :
    HeapInv L s₁ ∧ ∀ l ∈ s.live, spare l.ptr → l ∈ s₁.live := by
  refine hrun.invariant (fun t => HeapInv L t ∧ ∀ l ∈ s.live, spare l.ptr → l ∈ t.live)
    (fun {t c t'} hi hc hs => ?_) ⟨h, fun _ hl _ => hl⟩
  obtain ⟨t'', ht'', hinv, -⟩ := hi.1.step hc.1 hc.2.1
  obtain rfl : t'' = t' := Option.some.inj (ht''.symm.trans hs)
  refine ⟨hinv, fun l hl hp => heapStep_keeps (hi.2 l hl hp) (fun q hq he => hc.2.2 q hq ?_) hs⟩
  rw [← he]
  exact hp

/-- On the stack that `process_alloc` got, `process_free` is `kfree`, unless the PID is 0. -/
theorem freesStack_iff {h : KHeap} (other : Block → Prop) (h0 : (k.process slot).kernelStack ≠ 0)
    (hsp : (k.process slot).addressSpace = 0 ∨ (k.process slot).addressSpace = Y.kernelSpace)
    (hpid : (k.process slot).pid ≠ 0) : FreesStack Y L k h slot p other ↔
      ∃ h', kfree h (k.process slot).kernelStack = some h' ∧ GivesBack h h' p other := by
  have hspace : ∀ h,
      freeSpace (kernelEnv Y L ⟨[], []⟩) h (k.process slot).addressSpace = some h := by
    intro h
    unfold freeSpace
    rcases hsp with hsp | hsp
    · rw [if_pos hsp]
    · split
      · rfl
      · simp [kernelEnv, hsp]
  have hfree : processFree (kernelEnv Y L ⟨[], []⟩) k h (some slot) =
      (kfree h (k.process slot).kernelStack).map
        fun h' => (k.modify slot fun _ => Pcb.zeroed, h') := by
    simp only [processFree, hpid, ↓reduceIte, freeStack, h0]
    show Option.bind (kfree h _) _ = _
    cases kfree h (k.process slot).kernelStack with
    | none => rfl
    | some h' =>
      simp only [Option.bind_eq_bind, Option.bind_some, hspace, Option.map_some]
  unfold FreesStack
  rw [hfree]
  constructor
  · rintro ⟨k', h', he, g⟩
    obtain ⟨h₁, hk, he⟩ := Option.map_eq_some_iff.mp he
    cases he
    exact ⟨h', hk, g⟩
  · rintro ⟨h', hk, g⟩
    exact ⟨_, h', by rw [hk]; rfl, g⟩

/-- **When a process's stack goes back to the heap.** After any heap calls, a process is
allocated; after any further calls that leave its block alone, it is freed. The block
becomes free, the counter drops by its size and every other block is as before, if
and only if its payload was page aligned, its PID is not 0 and no free block stood
before it to absorb it. Without the last condition, this holds for all allocated
blocks. -/
theorem process_free_stack {m₀ : Bytes} {a a' : Answers} {h : KHeap} (hf : a.FromPmm L)
    (ho : a.TablesOffHeap) (hboot : bootHeap L m₀ a = some (true, h, a'))
    (hrun : OthersRun L (fun _ => False) ⟨h, []⟩ cs s) (hans : ans.FromPmm L)
    (hoff : ans.TablesOffHeap)
    (halloc : processAlloc (kernelEnv Y L ans) k s.heap = some (some slot, k₁, h₁))
    (hp : heapStep L s (.kmalloc (kernelStackSize + pageSize) ans) =
      some ⟨h₁, ⟨p, kernelStackSize + pageSize⟩ :: s.live⟩)
    {cs₂ : List HeapCall} (hrun₂ : OthersRun L (· = p)
      ⟨h₁, ⟨p, kernelStackSize + pageSize⟩ :: s.live⟩ cs₂ s₂)
    {k₂ : ProcTable} (hstack : (k₂.process slot).kernelStack = (k₁.process slot).kernelStack)
    (hpid : (k₂.process slot).pid = (k₁.process slot).pid)
    (hsp : (k₂.process slot).addressSpace = 0 ∨ (k₂.process slot).addressSpace = Y.kernelSpace)
    {bs : List Block} (hbs : readBlocks s₂.heap.mem walkFuel s₂.heap.firstBlock = some bs) :
    (FreesStack Y L k₂ s₂.heap slot p (fun _ => True) ↔
      p % pageSize = 0 ∧ k.nextPid ≠ 0 ∧ NoFreeBefore bs p) ∧
    (FreesStack Y L k₂ s₂.heap slot p (fun c => c.free = false) ↔
      p % pageSize = 0 ∧ k.nextPid ≠ 0) := by
  have hinv := (heapInv_others (bootHeap_inv hf ho hboot) hrun).1
  -- the block that backs the stack is the one `kmalloc` handed out
  obtain ⟨q, a₁, hk, hq, hks, hpk⟩ := processAlloc_stack halloc
  obtain rfl : q = p := by
    rw [heapStep, hk, Option.map_some, Option.some.injEq, HeapState.mk.injEq, addLive,
      if_neg hq] at hp
    cases hp.2
    rfl
  obtain ⟨s', hs', hinv₁, -⟩ := hinv.step (c := .kmalloc (kernelStackSize + pageSize) ans)
    ⟨by decide, by decide, hans⟩ hoff
  obtain rfl := Option.some.inj (hp.symm.trans hs')
  obtain ⟨⟨⟨bs', H⟩, -⟩, hkeep⟩ := heapInv_others hinv₁ hrun₂
  obtain ⟨b, hb, hbf, hbp, hfin, hreq⟩ := H.payload (hkeep _ List.mem_cons_self rfl)
  obtain rfl : bs' = bs := Option.some.inj (H.read.1.symm.trans hbs)
  simp only at hbp hfin hreq
  subst hbp
  obtain ⟨hlo, hhi⟩ := H.addr_pos hb
  have hend := H.end_le
  have hmax : heapMaxAddr = 0xC1400000 := rfl
  have hst : heapStartAddr = 0xC0400000 := rfl
  have hpa : b.payload = b.addr + headerSize := rfl
  have hru : b.payload ≤ roundUp pageSize b.payload ∧
      roundUp pageSize b.payload < b.payload + pageSize := by
    rw [roundUp_of_lt (by unfold pageSize; omega)]
    unfold pageSize
    omega
  by_cases hz : k.nextPid = 0
  · -- `process_free` refuses the process
    have hno : ∀ other, ¬ FreesStack Y L k₂ s₂.heap slot b.payload other := by
      rintro other ⟨k', h', he, g⟩
      rw [processFree, if_pos (hpid.trans (hpk.trans hz))] at he
      cases he
      have hu := g.used
      obtain ⟨nx, hh⟩ := H.seg.hdr hb
      rw [show b.payload - headerSize = b.addr from Nat.add_sub_cancel ..,
        show blockSize s₂.heap.mem b.addr = b.size from hh.size] at hu
      have hbfin : b.fin = b.payload + b.size := rfl
      have hps : 0 < pageSize := by decide
      omega
    exact ⟨⟨fun h => absurd h (hno _), fun h => absurd hz h.2.1⟩,
      ⟨fun h => absurd h (hno _), fun h => absurd hz h.2⟩⟩
  · have hks₂ : (k₂.process slot).kernelStack = roundUp pageSize b.payload := hstack.trans hks
    have hiff := fun other => freesStack_iff (L := L) (h := s₂.heap) (p := b.payload) other
      (by rw [hks₂]; omega) hsp (by rw [hpid, hpk]; exact hz)
    obtain ⟨h1, h2⟩ := H.kfree_aligned_iff hb hbf (n := kernelStackSize) (by omega) (by decide)
    rw [hiff, hiff, hks₂, h1, h2]
    exact ⟨⟨fun h => ⟨h.1, hz, h.2⟩, fun h => ⟨h.1, h.2.2⟩⟩, ⟨fun h => ⟨h, hz⟩, fun h => h.1⟩⟩

end

/-! ## Two processes -/

/-- **The first process after boot** gets the payload at `0xC040000C` and the stack at
`0xC0401000`. Freeing it does not free the block. -/
theorem first_stack_leaks : ∃ h a' k₁ h₁,
    bootHeap sampleLayout (fun _ => 0) sampleBoot = some (true, h, a') ∧
    processAlloc (kernelEnv sampleSymbols sampleLayout ⟨[], []⟩)
      (bootTable (kernelEnv sampleSymbols sampleLayout ⟨[], []⟩)) h = some (some 1, k₁, h₁) ∧
    heapStep sampleLayout ⟨h, []⟩ (.kmalloc (kernelStackSize + pageSize) ⟨[], []⟩) =
      some ⟨h₁, [⟨0xC040000C, kernelStackSize + pageSize⟩]⟩ ∧
    (k₁.process 1).kernelStack = 0xC0401000 ∧
    ¬ FreesStack sampleSymbols sampleLayout k₁ h₁ 1 0xC040000C fun c => c.free = false := by
  obtain ⟨hf, ho, -⟩ := sampleBoot_ok
  obtain ⟨h, a', hb⟩ := sampleBoot_succeeds fun _ => 0
  obtain ⟨h₁, hk, hm, H₁⟩ := kmallocAligned_boot (bootHeap_ok hf ho hb).1 sampleLayout ⟨[], []⟩
  have hm' : (kernelEnv sampleSymbols sampleLayout ⟨[], []⟩).kmallocAligned h kernelStackSize =
      some (0xC0401000, h₁) := by
    simp only [kernelEnv, kernelStackSize, hm, Option.map_some]
  have hfind : findUnused (bootTable (kernelEnv sampleSymbols sampleLayout ⟨[], []⟩)) =
    some 1 := rfl
  obtain ⟨k₁, ha, hks, hpid, hsp⟩ := processAlloc_succeeds hfind hm' (by omega)
  refine ⟨h, a', k₁, h₁, hb, ha, ?_, hks, ?_⟩
  · have : kernelStackSize + pageSize = 12288 := rfl
    rw [heapStep, this, hk]
    rfl
  · rw [freesStack_iff _ (by rw [hks]; omega) (.inl hsp) (by rw [hpid]; decide), hks]
    obtain ⟨rest, hc, -⟩ := carve_eq bootBlock 12288
    have H₂ : HeapOk h₁ [⟨0xC040000C, 12288⟩] ([] ++ taken bootBlock 12288 :: rest) := by
      rw [List.nil_append, ← hc]
      exact H₁
    exact H₂.kfree_misaligned rfl (n := 8192) (by decide) (by decide) (by decide)

/-- The theorem at a process whose payload is page aligned: a request of 4072 bytes
before it moves it to `0xC0401000`, and its stack goes back. -/
theorem process_free_stack_aligned : ∃ k h, FreesStack sampleSymbols sampleLayout k h 1 0xC0401000
    fun _ => True := by
  obtain ⟨hf, ho, -⟩ := sampleBoot_ok
  obtain ⟨h, a', hb⟩ := sampleBoot_succeeds fun _ => 0
  have H₀ : HeapOk h [] ([] ++ bootBlock :: []) := (bootHeap_ok hf ho hb).1
  obtain ⟨h₁, hk₁, H₁⟩ := kmalloc_serves (n := 4072) (heapEnv sampleLayout) ⟨[], []⟩ H₀ (by decide)
    (by decide) rfl
  have H₁' : HeapOk h₁ [⟨0xC040000C, 4072⟩] ([⟨heapStartAddr, 4072, false⟩] ++
      (⟨0xC0400FF4, 1044480, true⟩ : Block) :: []) := H₁
  obtain ⟨h₂, hk₂, H₂⟩ := kmalloc_serves (n := 12288) (heapEnv sampleLayout) ⟨[], []⟩ H₁'
    (by decide) (by decide) rfl
  have hsum : kernelStackSize + pageSize = 12288 := rfl
  have hm : (kernelEnv sampleSymbols sampleLayout ⟨[], []⟩).kmallocAligned h₁ kernelStackSize =
      some (0xC0401000, h₂) := by
    have hw : w32 (kernelStackSize + pageSize) = 12288 := by decide
    simp only [kernelEnv, kmallocAligned, hw, hk₂, Option.bind_eq_bind, Option.bind_some]
    rfl
  have hfind : findUnused (bootTable (kernelEnv sampleSymbols sampleLayout ⟨[], []⟩)) =
    some 1 := rfl
  obtain ⟨k₁, ha, -, -, hsp⟩ := processAlloc_succeeds hfind hm (by omega)
  have hrun : OthersRun sampleLayout (fun _ => False) ⟨h, []⟩ [.kmalloc 4072 ⟨[], []⟩]
      ⟨h₁, [⟨0xC040000C, 4072⟩]⟩ :=
    .cons ⟨⟨by decide, by decide, noAnswers_fromPmm _⟩, noAnswers_tablesOffHeap, fun _ _ => id⟩
      (by rw [heapStep, hk₁]; rfl) (.nil _)
  have hp : heapStep sampleLayout ⟨h₁, [⟨0xC040000C, 4072⟩]⟩
      (.kmalloc (kernelStackSize + pageSize) ⟨[], []⟩) =
        some ⟨h₂, ⟨0xC0401000, kernelStackSize + pageSize⟩ :: [⟨0xC040000C, 4072⟩]⟩ := by
    rw [heapStep, hsum, hk₂]
    rfl
  have hans := noAnswers_fromPmm sampleLayout
  refine ⟨k₁, h₂, (process_free_stack hf ho hb hrun hans noAnswers_tablesOffHeap ha hp (.nil _) rfl
    rfl (.inl hsp) H₂.read.1).1.mpr ⟨by decide, by decide, ?_⟩⟩
  unfold NoFreeBefore
  decide

end TupleOS.Process
