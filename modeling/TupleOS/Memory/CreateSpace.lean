import TupleOS.Memory.FailedAlloc
import TupleOS.Memory.RegionOrder

/-!
# Spaces that know the kernel's regions (`kernel/vmm.c`)

`vmm_create_address_space` takes memory from the heap, a frame for the directory and a
slot of the pool for each region. A block that it took is given back whole when there is
no frame (`HeapOk.take_kfree`), but a page that the heap grew by is not, and a copy that
finds no slot is left out without a word. In every state that clients reach, the call
leaves everything as before or makes a space with a copy of the kernel's list, when the
frames suffice for all its steps or for none of them, and the slots for the whole list
(`create_mirrors_kernel`).
-/

namespace TupleOS.Heap

open TupleOS.Base TupleOS.Memory

section TakeFree

variable {h : KHeap} {live : List Alloc} {pre post : List Block} {b x y : Block} {size n : Nat}

theorem coalesce_of_coalesced : ∀ {bs : List Block}, Coalesced bs → coalesce bs = bs
  | [], _ => by rw [coalesce]
  | [b], _ => by rw [coalesce]
  | b :: c :: bs, h => by
    obtain ⟨hbc, hrest⟩ := List.isChain_cons_cons.mp h
    rw [coalesce, if_neg (by rcases hbc with hf | hf <;> simp [hf]), coalesce_of_coalesced hrest]

theorem coalesce_split (hx : x.free = true) (hy : y.free = true)
    (hb : b = ⟨x.addr, x.size + headerSize + y.size, true⟩) (h : Coalesced (pre ++ b :: post)) :
    coalesce (pre ++ x :: y :: post) = pre ++ b :: post := by
  induction pre with
  | nil =>
    rw [List.nil_append, coalesce, if_pos (by rw [hx, hy]; rfl), ← hb]
    exact coalesce_of_coalesced h
  | cons c pre ih =>
    have ih := ih h.tail
    -- the block before does not take part: one of two neighbours is in use
    cases pre with
    | nil =>
      have hcb : c.free = false ∨ b.free = false := (List.isChain_cons_cons.mp h).1
      have hc : c.free = false := hcb.resolve_right (by rw [hb]; exact Bool.noConfusion)
      rw [List.cons_append, List.nil_append, coalesce,
        if_neg (by rw [hc]; exact Bool.false_ne_true)]
      exact congrArg (c :: ·) ih
    | cons d pre =>
      have hcd : c.free = false ∨ d.free = false := (List.isChain_cons_cons.mp h).1
      rw [List.cons_append, List.cons_append, coalesce,
        if_neg (by rcases hcd with hf | hf <;> simp [hf])]
      exact congrArg (c :: ·) ih

/-- **A block that is handed out and given back** leaves the list as it was. -/
theorem HeapOk.take_kfree (H : HeapOk h live (pre ++ b :: post)) (hb : b.free = true)
    (hs : size ≤ b.size) (hs4 : size % 4 = 0) (hn : n ≤ size) :
    ∃ h', Heap.kfree (takeBlock h b.addr size).2 b.payload = some h' ∧
      HeapOk h' live (pre ++ b :: post) := by
  obtain ⟨-, H₁, -⟩ := H.take hb hs hs4 hn
  have hdrop : dropPtr b.payload (⟨b.payload, n⟩ :: live) = live := by
    have hnd := H₁.nodup
    rw [List.map_cons, List.nodup_cons] at hnd
    rw [dropPtr, List.filter_cons_of_neg (by simp)]
    refine List.filter_eq_self.mpr fun l hl => ?_
    simp only [ne_eq, decide_not, Bool.not_eq_eq_eq_not, Bool.not_true, decide_eq_false_iff_not]
    exact fun heq => hnd.1 (List.mem_map.mpr ⟨l, hl, heq⟩)
  have hback : ∀ {rest : List Block}, carve b size = taken b size :: rest →
      coalesce (pre ++ freed (taken b size) :: (rest ++ post)) = pre ++ b :: post := by
    intro rest hrest
    unfold carve taken carvedSize at hrest
    unfold taken carvedSize freed
    by_cases hsplit : size + headerSize + 32 ≤ b.size
    · rw [if_pos hsplit, if_pos hsplit, List.cons.injEq] at hrest
      rw [if_pos hsplit, ← hrest.2]
      refine coalesce_split rfl rfl ?_ H.coalesced
      cases b
      simp only [Block.mk.injEq, true_and] at hb hsplit ⊢
      exact ⟨by omega, hb⟩
    · rw [if_neg hsplit, if_neg hsplit, List.cons.injEq] at hrest
      rw [if_neg hsplit, ← hrest.2, List.nil_append]
      have hsame : (⟨b.addr, b.size, true⟩ : Block) = b := by
        cases b
        simp only [Block.mk.injEq, true_and] at hb ⊢
        exact hb.symm
      rw [hsame]
      exact coalesce_of_coalesced H.coalesced
  obtain ⟨rest, hrest, -⟩ := carve_eq b size
  rw [hrest, List.append_assoc, List.cons_append] at H₁
  obtain ⟨h', hk, H', -⟩ := H₁.kfree rfl
  have hpay : (taken b size).payload = b.payload := rfl
  rw [hpay, hdrop, hback hrest] at H'
  exact ⟨h', hk, H'⟩

end TakeFree

end TupleOS.Heap

namespace TupleOS.Memory

open TupleOS.Base TupleOS.Heap

/-! ## The call -/

/-- The heap, the machine and the pool are as before the call. -/
structure AsBefore (vm vm' : Vm) : Prop where
  blocks : readBlocks vm'.heap.mem walkFuel vm'.heap.firstBlock =
    readBlocks vm.heap.mem walkFuel vm.heap.firstBlock
  fin : vm'.heap.heapEnd = vm.heap.heapEnd
  used : kheapGetUsed vm'.heap = kheapGetUsed vm.heap
  mach : vm'.mach = vm.mach
  pool : vm'.regionPoolUsed = vm.regionPoolUsed

/-- The new space has a copy of every region of the kernel's space, in the same order. -/
def CopiesKernel (vm vm' : Vm) (p : Nat) : Prop :=
  ∃ space, vm'.space (.created p) = some space ∧ space.regions = vm.kernelSpace.regions ∧
    space.regionCount = space.regions.length

/-- `vmm_create_address_space` returns `NULL` and leaves everything as before, or a space
that knows the kernel's regions. -/
def CreateMirrors (L : Layout) (vm : Vm) : Prop :=
  ∃ p vm', vmmCreateAddressSpace L vm = some (p, vm') ∧
    (p = 0 ∧ AsBefore vm vm' ∨ p ≠ 0 ∧ CopiesKernel vm vm' p)

/-- The scan finds `n` frames, and `n` frames are below 4 MB. -/
structure FramesLeft (p : Pmm) (n : Nat) : Prop where
  reach : n ≤ reachable p
  low : n ≤ lowFree p

/-- The call gets all the frames it asks for: one for the directory, one for a page of the
heap if no block fits, and one for the page's table if that is not there. -/
def FramesSuffice (L : Layout) (vm : Vm) : Prop :=
  (HasRoom vm.heap addressSpaceSize ∧ FramesLeft vm.mach.pmm 1) ∨
  (isPresent (vm.mach.phys (pdFrame L) (vm.heap.heapEnd / pageSize / 1024)) = true ∧
    FramesLeft vm.mach.pmm 2) ∨ FramesLeft vm.mach.pmm 3

/-- There is no frame at all, or no block fits and the heap may not grow, or the frames
and the slots of the pool suffice for the whole call. -/
def CreateReady (L : Layout) (vm : Vm) : Prop :=
  NoFrame vm.mach.pmm ∨
  (¬ HasRoom vm.heap addressSpaceSize ∧ vm.heap.heapMax < w32 (vm.heap.heapEnd + pageSize)) ∨
  (FramesSuffice L vm ∧ vm.regionPoolUsed + vm.kernelSpace.regions.length ≤ vmmMaxRegions)

section Create

variable {L : Layout} {vm vm' : Vm} {dirs : List Nat} {M : Machine} {h : KHeap} {live : List Alloc}
  {bs : List Block}

theorem MachInv.mapHeapPages_one (hm : MachInv L dirs M) (bytes : Bytes) {va : Nat}
    (hlo : 0xC0400 ≤ va / pageSize) (hhi : va / pageSize < 0xC1400)
    (hn : (isPresent (M.phys (pdFrame L) (va / pageSize / 1024)) = true ∧ FramesLeft M.pmm 2) ∨
      FramesLeft M.pmm 3) :
    ∃ M', mapHeapPages (vmEnv L) M bytes va 1 = some (true, M', bytes) ∧ MachInv L dirs M' ∧
      FramesLeft M'.pmm 1 := by
  have hreach : 0 < reachable M.pmm := by
    rcases hn with ⟨-, hn⟩ | hn
    · exact Nat.lt_of_lt_of_le (by omega) hn.reach
    · exact Nat.lt_of_lt_of_le (by omega) hn.reach
  obtain ⟨f, p', ha, tk⟩ := hm.tables.alloc_some hreach
  obtain ⟨M₁, hmap, hi, hleft⟩ : ∃ M₁,
      pagingMapPage machMem L (M.withPmm p') va (f * pageSize)
        (pagePresent ||| pageWrite) = some M₁ ∧
      MachInv L dirs M₁ ∧ FramesLeft M₁.pmm 1 := by
    rcases hn with ⟨hp, hr, hl⟩ | ⟨hr, hl⟩
    · obtain ⟨M₁, hmap, hpm, e⟩ := hm.mapHeapPage_present (pagePresent ||| pageWrite) hlo hhi tk hp
      have h1 := tk.reachable
      have h2 := tk.lowFree
      exact ⟨M₁, hmap, e.inv, by rw [hpm]; exact ⟨by omega, by omega⟩⟩
    · obtain ⟨M₁, hmap, e, -⟩ := hm.mapHeapPage (pagePresent ||| pageWrite) hlo hhi tk
        (.inr (by omega))
      have h1 := e.reach
      have h2 := e.low
      exact ⟨M₁, hmap, e.inv, by omega, by omega⟩
  exact ⟨M₁, hm.mapHeapPages_succ bytes 0 ha tk hmap, hi, hleft⟩

theorem find_full (H : HeapOk h live bs) {n : Nat} (hfull : ¬ HasRoom h n) :
    findFreeBlock h.mem (roundUp 8 n) walkFuel h.firstBlock = some 0 := by
  have hfind := H.find (roundUp 8 n)
  cases hb : bs.find? (fits (roundUp 8 n)) with
  | none => rw [hfind, hb]; rfl
  | some b =>
    rw [hb] at hfind
    have hpos := (H.addr_pos (List.mem_of_find?_eq_some hb)).1
    refine absurd (freeBlockFrom_of_find hfind ?_) hfull
    have : b.addr ≠ 0 := by unfold heapStartAddr at hpos; omega
    exact this

theorem find_room (H : HeapOk h live bs) {n : Nat} (hroom : HasRoom h n) :
    ∃ b, bs.find? (fits (roundUp 8 n)) = some b := by
  obtain ⟨a, ha, h0⟩ := findFreeBlock_room hroom
  have hfind := H.find (roundUp 8 n)
  cases hb : bs.find? (fits (roundUp 8 n)) with
  | some b => exact ⟨b, rfl⟩
  | none =>
    rw [hb, ha] at hfind
    exact absurd (Option.some.inj hfind) h0

/-- The struct of a space, from a heap that grows by one page. -/
theorem kmalloc_grown (H : HeapOk h live bs) {M' : Machine}
    (hfull : ¬ HasRoom h addressSpaceSize) (hlim : ¬ h.heapMax < w32 (h.heapEnd + pageSize))
    (hmap : mapHeapPages (vmEnv L) M h.mem h.heapEnd 1 = some (true, M', h.mem)) :
    ∃ p h', Heap.kmalloc (vmEnv L) h M addressSpaceSize = some (p, h', M') ∧ p ≠ 0 := by
  have hn : addressSpaceSize ≠ 0 := by decide
  have hw : NoWrap h addressSpaceSize := H.noWrap (by decide)
  obtain ⟨h7, hsum, hgrow, hle⟩ := hw.expandSize H.end_gt.le
  obtain ⟨hr1, -, hr3⟩ := roundUp8 h7
  have hx : heapExpand (vmEnv L) h M (w32 (roundUp 8 addressSpaceSize + headerSize)) =
      (appendSpace h pageSize).bind fun h => some (true, h, M') := by
    rw [heapExpand_pages, growPages_space, Nat.one_mul, if_neg hlim, hmap]
    rfl
  -- what the growth leaves is known from an environment that always returns
  obtain ⟨ok, h₁, M₁, hx₁, -, -, -, -, hyes⟩ :=
    H.expand (e := M) (vmEnv_calls L).quiet trivial hgrow (by omega) hw id
  rw [← hsum] at hx₁
  obtain ⟨h₂, happ⟩ : ∃ h₂, appendSpace h pageSize = some h₂ := by
    obtain ⟨pre, b, rfl⟩ : ∃ pre b, bs = pre ++ [b] :=
      ⟨_, _, (List.dropLast_append_getLast H.ne_nil).symm⟩
    unfold appendSpace
    rw [H.last]
    exact ⟨_, rfl⟩
  rw [happ, Option.bind_some] at hx
  have hsame := (heapExpand_total hx).symm.trans hx₁
  simp only [Option.some.injEq, Prod.mk.injEq] at hsame
  obtain ⟨rfl, rfl, rfl⟩ := hsame
  obtain ⟨pre, b, rfl, H'⟩ := hyes rfl
  obtain ⟨c, hc⟩ := grow_find pre b _ hle
  obtain ⟨hf', hb0, hp, -⟩ := H'.serve (by omega) hr1 hc
  refine ⟨_, _, kmalloc_expanded hn (find_full H hfull) hx hf' hb0, ?_⟩
  rw [hp]
  unfold Block.payload headerSize
  omega

/-- **No block fits and the heap does not grow**: `NULL`, and nothing has happened. -/
theorem create_refused (H : HeapOk vm.heap live bs) (hfull : ¬ HasRoom vm.heap addressSpaceSize)
    (hstop : vm.heap.heapMax < w32 (vm.heap.heapEnd + pageSize) ∨ NoFrame vm.mach.pmm) :
    vmmCreateAddressSpace L vm = some (0, vm) := by
  have hx : heapExpand (vmEnv L) vm.heap vm.mach (w32 (roundUp 8 addressSpaceSize + headerSize)) =
      some (false, vm.heap, vm.mach) := by
    rw [heapExpand_pages, growPages_space, Nat.one_mul]
    by_cases hlim : vm.heap.heapMax < w32 (vm.heap.heapEnd + pageSize)
    · rw [if_pos hlim]
    · have halloc : (vmEnv L).pmmAllocFrame vm.mach = (0, vm.mach) :=
        (hstop.resolve_left hlim).alloc
      rw [if_neg hlim, mapHeapPages_succ, halloc]
      rfl
  unfold vmmCreateAddressSpace
  rw [kmalloc_refused (by decide) (find_full H hfull) hx]
  rfl

/-- **A block fits but there is no frame**: the block is given back, and `NULL` returned. -/
theorem create_given_back (H : HeapOk vm.heap live bs) (hroom : HasRoom vm.heap addressSpaceSize)
    (hno : NoFrame vm.mach.pmm) :
    ∃ vm', vmmCreateAddressSpace L vm = some (0, vm') ∧ AsBefore vm vm' := by
  obtain ⟨b, hb⟩ := find_room H hroom
  obtain ⟨hf, hb0, hp, -⟩ := H.serve (n := addressSpaceSize) (by decide) (by decide) hb
  obtain ⟨hfit, pre, post, rfl, -⟩ := List.find?_eq_some_iff_append.mp hb
  rw [fits, Bool.and_eq_true, decide_eq_true_eq] at hfit
  obtain ⟨h', hk, H'⟩ := H.take_kfree (n := addressSpaceSize) hfit.1 hfit.2 (by decide) (by decide)
  have hdir : pagingCreateDirectory machMem L vm.mach = some (0, vm.mach) := by
    rw [pagingCreateDirectory_eq, hno.alloc]
    rfl
  have hp0 : b.payload ≠ 0 := by unfold Block.payload headerSize; omega
  refine ⟨{ vm with heap := h' }, ?_, ?_⟩
  · unfold vmmCreateAddressSpace
    rw [kmalloc_found (by decide) hf hb0, hp]
    simp only [Option.bind_eq_bind, Option.bind_some, if_neg hp0, hdir, ↓reduceIte, hk]
  · have hfin := kfree_bounds hk
    exact ⟨H'.read.1.trans H.read.1.symm, hfin.fin, H'.used.trans H.used.symm, rfl, rfl⟩

/-- **With the struct, a frame and the slots**, the new space copies the kernel's list. -/
theorem create_copies {p : Nat} {heap : KHeap} (hm : MachInv L dirs M)
    (hord : Ascending vm.kernelSpace.regions)
    (hk : kmalloc (vmEnv L) vm.heap vm.mach addressSpaceSize = some (p, heap, M)) (hp : p ≠ 0)
    (hleft : FramesLeft M.pmm 1)
    (hpool : vm.regionPoolUsed + vm.kernelSpace.regions.length ≤ vmmMaxRegions) :
    ∃ vm', vmmCreateAddressSpace L vm = some (p, vm') ∧ CopiesKernel vm vm' p := by
  rcases hm.createDirectory_ok hleft.low with ⟨-, h0⟩ | ⟨d, M', hd, h0, -⟩
  · have := hleft.reach
    omega
  · have hcopy := registerAll_copies (d * pageSize) hord hpool
    refine ⟨{ vm with
      heap := heap, mach := M', spaces := (p, ⟨d * pageSize, vm.kernelSpace.regions,
        vm.kernelSpace.regions.length⟩) :: vm.spaces,
      regionPoolUsed := vm.regionPoolUsed + vm.kernelSpace.regions.length }, ?_, _,
      List.lookup_cons_self, rfl, rfl⟩
    unfold vmmCreateAddressSpace
    rw [hk]
    simp only [Option.bind_eq_bind, Option.bind_some, if_neg hp, hd, if_neg h0, hcopy]

/-- **One call** in a state with a good machine, a good heap and the kernel's list in order. -/
theorem CreateReady.mirrors (hready : CreateReady L vm) (hi : VmInv L vm)
    (H : HeapOk vm.heap live bs)
    (hord : Ascending vm.kernelSpace.regions) : CreateMirrors L vm := by
  have hunchanged : vmmCreateAddressSpace L vm = some (0, vm) → CreateMirrors L vm := fun he =>
    ⟨0, vm, he, .inl ⟨rfl, rfl, rfl, rfl, rfl, rfl⟩⟩
  by_cases hroom : HasRoom vm.heap addressSpaceSize
  · rcases hready with hno | ⟨hfull, -⟩ | ⟨hfr, hpool⟩
    · obtain ⟨vm', he, hsame⟩ := create_given_back H hroom hno
      exact ⟨0, vm', he, .inl ⟨rfl, hsame⟩⟩
    · exact absurd hroom hfull
    · obtain ⟨b, hb⟩ := find_room H hroom
      obtain ⟨hf, hb0, hp, -⟩ := H.serve (n := addressSpaceSize) (by decide) (by decide) hb
      have hk : kmalloc (vmEnv L) vm.heap vm.mach addressSpaceSize =
          some (b.payload, (takeBlock vm.heap b.addr (roundUp 8 addressSpaceSize)).2, vm.mach) := by
        rw [kmalloc_found (by decide) hf hb0, hp]
      have hp0 : b.payload ≠ 0 := by unfold Block.payload headerSize; omega
      have hleft : FramesLeft vm.mach.pmm 1 := by
        rcases hfr with ⟨-, hl⟩ | ⟨-, hl⟩ | hl
        · exact hl
        · exact ⟨Nat.le_trans (by omega) hl.reach, Nat.le_trans (by omega) hl.low⟩
        · exact ⟨Nat.le_trans (by omega) hl.reach, Nat.le_trans (by omega) hl.low⟩
      obtain ⟨vm', he, hcopy⟩ := create_copies hi.mach hord hk hp0 hleft hpool
      exact ⟨_, vm', he, .inr ⟨hp0, hcopy⟩⟩
  · by_cases hlim : vm.heap.heapMax < w32 (vm.heap.heapEnd + pageSize)
    · exact hunchanged (create_refused H hroom (.inl hlim))
    · rcases hready with hno | ⟨-, hlim'⟩ | ⟨hfr, hpool⟩
      · exact hunchanged (create_refused H hroom (.inr hno))
      · exact absurd hlim' hlim
      · have hhi : vm.heap.heapEnd / pageSize < 0xC1400 := by
          have h1 := hi.heap.hi
          have h2 := hi.heap.max
          rw [h2, w32_of_lt (by unfold pageSize; omega)] at hlim
          unfold pageSize at *
          omega
        obtain ⟨M', hmap, hm, hleft⟩ := hi.mach.mapHeapPages_one vm.heap.mem hi.heap.lo hhi
          (hfr.resolve_left fun h => hroom h.1)
        obtain ⟨p, h', hk, hp⟩ := kmalloc_grown H hroom hlim hmap
        obtain ⟨vm', he, hcopy⟩ := create_copies hm hord hk hp hleft hpool
        exact ⟨p, vm', he, .inr ⟨hp, hcopy⟩⟩

end Create

/-! ## Runs -/

/-- The memory manager and the pointers that its clients have from `kmalloc`. -/
structure Clients where
  vm : Vm
  held : List Nat

def clientStep (L : Layout) (c : Clients) (op : VmOp) : Option Clients :=
  (vmCall L c.vm op).map fun r => ⟨r.2, match op with
    | .kmalloc _ => if r.1 = 0 then c.held else r.1.toNat :: c.held
    | .kfree p => c.held.filter (· ≠ p)
    | _ => c.held⟩

/-- A call with proper arguments that fits. Ranges to map are not empty, and only what
`kmalloc` gave is freed. -/
structure ClientGuard (L : Layout) (c : Clients) (op : VmOp) : Prop where
  valid : op.Valid c.vm
  fits : op.Fits L c.vm
  ends : op.EndsBelow
  frees : ∀ p, op = .kfree p → p = 0 ∨ p ∈ c.held

/-- Clients hold live allocations of a good heap. -/
def HeapHolds (c : Clients) : Prop :=
  ∃ live bs, HeapOk c.vm.heap live bs ∧ ∀ p ∈ c.held, ∃ l ∈ live, l.ptr = p

structure ClientInv (L : Layout) (c : Clients) : Prop where
  vm : VmInv L c.vm
  heap : HeapHolds c
  list : InOrder c.vm.kernelSpace.regions

section Runs

variable {L : Layout} {vm vm' : Vm} {c c' : Clients} {op : VmOp} {live : List Alloc}
  {bs : List Block} {M M' : Machine} {h h' : KHeap} {n p : Nat}

theorem kmalloc_served (H : HeapOk h live bs) (hw : NoWrap h n)
    (he : kmalloc (vmEnv L) h M n = some (p, h', M')) : Served h h' live bs p n := by
  obtain ⟨p₁, h₁, M₁, he₁, -, hs⟩ := Heap.kmalloc_ok (e := M) (vmEnv_calls L).quiet H trivial
    hw id
  have hsame := (kmalloc_total he).symm.trans he₁
  simp only [Option.some.injEq, Prod.mk.injEq] at hsame
  obtain ⟨rfl, rfl, -⟩ := hsame
  exact hs

theorem kfree_served (H : HeapOk h live bs) {l : Alloc} (hl : l ∈ live)
    (he : kfree h l.ptr = some h') : ∃ bs', HeapOk h' (dropPtr l.ptr live) bs' := by
  obtain ⟨h₁, bs', he₁, H', -⟩ := HeapOk.kfree_live (s := ⟨h, live⟩) H hl
  rw [he, Option.some.injEq] at he₁
  exact ⟨bs', he₁ ▸ H'⟩

theorem create_heap (H : HeapOk vm.heap live bs)
    (he : vmmCreateAddressSpace L vm = some (p, vm')) :
    ∃ live' bs', HeapOk vm'.heap live' bs' ∧ ∀ l ∈ live, l ∈ live' := by
  unfold vmmCreateAddressSpace at he
  obtain ⟨⟨q, h₁, M₁⟩, hk, he⟩ := Option.bind_eq_some_iff.mp he
  have hs := kmalloc_served H (H.noWrap (by decide)) hk
  simp only at he
  split at he
  · rename_i hq
    cases he
    exact ⟨live, bs, hs.refused hq, fun l hl => hl⟩
  · rename_i hq
    obtain ⟨bs₁, H₁, -⟩ := hs.granted hq
    obtain ⟨⟨dir, M₂⟩, -, he⟩ := Option.bind_eq_some_iff.mp he
    simp only at he
    split at he
    · obtain ⟨h₂, hf, he⟩ := Option.bind_eq_some_iff.mp he
      cases he
      obtain ⟨bs₂, H₂⟩ := kfree_served H₁ (l := ⟨q, addressSpaceSize⟩) List.mem_cons_self hf
      refine ⟨_, bs₂, H₂, fun l hl => mem_dropPtr.mpr ⟨List.mem_cons_of_mem _ hl, fun heq => ?_⟩⟩
      have hnd := H₁.nodup
      rw [List.map_cons, List.nodup_cons] at hnd
      exact hnd.1 (List.mem_map.mpr ⟨l, hl, heq⟩)
    · cases he
      exact ⟨_, bs₁, H₁, fun l hl => List.mem_cons_of_mem _ hl⟩

theorem HeapHolds.same (h : HeapHolds ⟨vm, c.held⟩) (hsame : vm'.heap = vm.heap) :
    HeapHolds ⟨vm', c.held⟩ := by
  obtain ⟨live, bs, H, hheld⟩ := h
  refine ⟨live, bs, ?_, hheld⟩
  rw [hsame]
  exact H

/-- One call keeps the heap good and what clients hold live. -/
theorem HeapHolds.step (hh : HeapHolds c) (hg : ClientGuard L c op)
    (he : clientStep L c op = some c') : HeapHolds c' := by
  obtain ⟨vm, held⟩ := c
  obtain ⟨⟨r, vm'⟩, hcall, he⟩ := Option.map_eq_some_iff.mp he
  cases he
  have hsame : vm'.heap = vm.heap → HeapHolds ⟨vm', held⟩ := fun h =>
    HeapHolds.same (c := ⟨vm, held⟩) hh h
  obtain ⟨live, bs, H, hheld⟩ := hh
  cases op with
  | create =>
    obtain ⟨⟨p, vm₁⟩, hc, he⟩ := Option.map_eq_some_iff.mp hcall
    cases he
    obtain ⟨live', bs', H', hsub⟩ := create_heap H hc
    refine ⟨live', bs', H', fun p hp => ?_⟩
    obtain ⟨l, hl, hlp⟩ := hheld p hp
    exact ⟨l, hsub l hl, hlp⟩
  | map s vaddr size flags type =>
    rcases vmmMapRegion_cases hcall with ⟨-, M, rfl⟩ | ⟨space, M, -, -, -, rfl⟩
    · exact hsame rfl
    · exact hsame (by cases s <;> rfl)
  | unmap s vaddr =>
    rcases vmmUnmapRegion_cases hcall with ⟨-, rfl⟩ | ⟨space, region, M, -, -, -, rfl⟩
    · exact hsame rfl
    · exact hsame (by cases s <;> rfl)
  | destroy s =>
    have hs : s = .null ∨ s = .kernel := hg.fits
    rcases hs with rfl | rfl
    · cases hcall
      exact hsame rfl
    · cases hcall
      exact hsame rfl
  | kmalloc n =>
    obtain ⟨⟨p, h', M'⟩, hk, he⟩ := Option.map_eq_some_iff.mp hcall
    cases he
    have hw : NoWrap vm.heap n := hg.fits.noWrap
    have hs := kmalloc_served H hw hk
    by_cases hp : p = 0
    · subst hp
      exact ⟨live, bs, hs.refused rfl, hheld⟩
    · obtain ⟨bs', H', -⟩ := hs.granted hp
      refine ⟨_, bs', H', fun q hq => ?_⟩
      simp only [Int.natCast_eq_zero, hp, ↓reduceIte, Int.toNat_natCast, List.mem_cons] at hq
      rcases hq with rfl | hq
      · exact ⟨_, List.mem_cons_self, rfl⟩
      · obtain ⟨l, hl, hlp⟩ := hheld q hq
        exact ⟨l, List.mem_cons_of_mem _ hl, hlp⟩
  | kfree p =>
    obtain ⟨h', hk, he⟩ := Option.map_eq_some_iff.mp hcall
    cases he
    have hkeep : ∀ q ∈ held.filter (· ≠ p), ∃ l ∈ dropPtr p live, l.ptr = q := fun q hq => by
      obtain ⟨hq, hne⟩ := List.mem_filter.mp hq
      obtain ⟨l, hl, hlp⟩ := hheld q hq
      exact ⟨l, mem_dropPtr.mpr ⟨hl, by rw [hlp]; simpa using hne⟩, hlp⟩
    rcases hg.frees p rfl with rfl | hp
    · have hnull : some vm.heap = some h' := hk
      cases hnull
      refine ⟨live, bs, H, fun q hq => ?_⟩
      obtain ⟨l, hl, hlp⟩ := hkeep q hq
      exact ⟨l, (mem_dropPtr.mp hl).1, hlp⟩
    · obtain ⟨l, hl, rfl⟩ := hheld p hp
      obtain ⟨bs', H'⟩ := kfree_served H hl hk
      exact ⟨_, bs', H', hkeep⟩
  | mapPage v p flags =>
    obtain ⟨M', -, he⟩ := Option.map_eq_some_iff.mp hcall
    cases he
    exact hsame rfl
  | unmapPage v =>
    obtain ⟨M', -, he⟩ := Option.map_eq_some_iff.mp hcall
    cases he
    exact hsame rfl

theorem ClientInv.step (h : ClientInv L c) (hg : ClientGuard L c op)
    (he : clientStep L c op = some c') : ClientInv L c' := by
  refine ⟨?_, h.heap.step hg he, ?_⟩
  · obtain ⟨⟨r, vm'⟩, hcall, he⟩ := Option.map_eq_some_iff.mp he
    cases he
    exact (h.vm.step hg.valid hg.fits hcall).inv
  · obtain ⟨⟨r, vm'⟩, hcall, he⟩ := Option.map_eq_some_iff.mp he
    cases he
    exact h.list.step hg.ends (vmStep_of_call hcall)

theorem bootVm_clientInv {phys : Phys} {bitmap : Bitmap} {bytes : Bytes}
    {mmap : Option (List MmapEntry)} (ht : (pmmInit L bitmap mmap).totalFrames ≤ 32784)
    (hb : bootVm L phys bitmap bytes mmap = some vm) : ClientInv L ⟨vm, []⟩ := by
  obtain ⟨M, e⟩ := bootVm_ok ht hb
  obtain ⟨m, heap, rfl⟩ := bootVm_init hb
  refine ⟨e.inv, ⟨[], [bootBlock], ?_, fun p hp => absurd hp List.not_mem_nil⟩,
    vmmInit_inOrder L m heap⟩
  rw [e.heap]
  exact bootBlock_heapOk bytes

/-- **New spaces know all kernel regions.** In every state that clients reach from boot,
`vmm_create_address_space` returns `NULL` and leaves the heap, the frames and the pool as
they were, or it returns a space with a copy of the kernel's list, when the frames and the
slots suffice for the whole call or it is turned down before it takes any. -/
theorem create_mirrors_kernel {phys : Phys} {bitmap : Bitmap} {bytes : Bytes}
    {mmap : Option (List MmapEntry)} {vm₀ : Vm} {ops : List VmOp}
    (ht : (pmmInit L bitmap mmap).totalFrames ≤ 32784)
    (hb : bootVm L phys bitmap bytes mmap = some vm₀)
    (hrun : Run (clientStep L) (ClientGuard L) ⟨vm₀, []⟩ ops c) (hready : CreateReady L c.vm) :
    CreateMirrors L c.vm := by
  have hi := hrun.invariant (ClientInv L) (fun h hg he => h.step hg he) (bootVm_clientInv ht hb)
  obtain ⟨live, bs, H, -⟩ := hi.heap
  exact hready.mirrors hi.vm H hi.list.ascending

/-- The theorem right after boot. -/
theorem create_mirrors_kernel_first : ∃ vm₀, sampleBootVm = some vm₀ ∧
    CreateMirrors sampleLayout vm₀ := by
  obtain ⟨vm₀, M, hvm, hb, hlow, hreach⟩ := sampleBootVm_ok
  have hlen := kernelRegions_length sampleLayout
  have hready : CreateReady sampleLayout vm₀ := by
    refine .inr (.inr ⟨.inl ⟨?_, by omega, by omega⟩, ?_⟩)
    · rw [hb.heap]
      exact initialHeap_room _
    · rw [hb.pool, hb.regions.length_eq]
      unfold vmmMaxRegions
      omega
  refine ⟨vm₀, hvm, create_mirrors_kernel (c := ⟨vm₀, []⟩) ?_ hvm (.nil _) hready⟩
  rw [samplePmm.1]
  omega

end Runs

/-! ## A full pool -/

def emptyRegion : Region := ⟨0xD0000000, 0, vmmRead ||| vmmWrite, .userData⟩

structure Emptied (vm₀ vm : Vm) (n : Nat) : Prop where
  mach : vm.mach = vm₀.mach
  heap : vm.heap = vm₀.heap
  pool : vm.regionPoolUsed = vm₀.regionPoolUsed + n
  regions : vm.kernelSpace.regions.Perm (List.replicate n emptyRegion ++ vm₀.kernelSpace.regions)

section Full

variable {L : Layout} {vm₀ vm : Vm} {n : Nat}

theorem mapEmpty_step (hno : vm.kernelSpace.regions.any (overlaps 0xD0000000 0) = false)
    (hpool : vm.regionPoolUsed < vmmMaxRegions) :
    vmStep L vm mapEmpty = some { vm with
      kernelSpace := insertRegion vm.kernelSpace emptyRegion
      regionPoolUsed := vm.regionPoolUsed + 1 } := by
  refine vmStep_of_call (r := 0) ?_
  show vmmMapRegion L vm .kernel 0xD0000000 0 _ _ = _
  unfold vmmMapRegion
  simp only [Vm.space, hno, Nat.zero_div, mapPages, Option.bind_eq_bind, Option.bind_some,
    ↓reduceIte, if_neg (Nat.not_le.mpr hpool)]
  rfl

theorem Emptied.run (hno : vm₀.kernelSpace.regions.any (overlaps 0xD0000000 0) = false) :
    ∀ n, vm₀.regionPoolUsed + n ≤ vmmMaxRegions → ∃ vm, Emptied vm₀ vm n ∧
      Run (vmStep L) (fun vm op => op.Valid vm) vm₀ (List.replicate n mapEmpty) vm
  | 0, _ => ⟨vm₀, ⟨rfl, rfl, rfl, .refl _⟩, .nil _⟩
  | n + 1, hn => by
    obtain ⟨vm, e, hrun⟩ := Emptied.run hno n (by omega)
    have hpool := e.pool
    have hany : vm.kernelSpace.regions.any (overlaps 0xD0000000 0) = false := by
      rw [e.regions.any_eq, List.any_append, hno, Bool.or_false, List.any_replicate]
      split <;> rfl
    have hstep := mapEmpty_step (L := L) hany (by omega)
    have hvalid : mapEmpty.Valid vm := ⟨.inr ⟨_, rfl⟩, by decide, by decide, by decide⟩
    have hrun' := hrun.snoc hvalid hstep
    rw [← List.replicate_succ'] at hrun'
    refine ⟨_, ?_, hrun'⟩
    refine ⟨e.mach, e.heap, ?_, insertRegion_perm.trans (e.regions.cons _)⟩
    show vm.regionPoolUsed + 1 = _
    omega

theorem registerAll_full (space : AddressSpace) {used : Nat} (hfull : vmmMaxRegions ≤ used) :
    ∀ rs, registerAll space used rs = (space, used)
  | [] => rfl
  | r :: rs => by
    have hone : registerExistingRegion space used r = (space, used) := by
      unfold registerExistingRegion
      rw [if_pos hfull]
    rw [registerAll, hone]
    exact registerAll_full space hfull rs

end Full

/-- **A space without regions.** When 252 empty ranges have taken the rest of the pool,
`vmm_create_address_space` returns a space that knows none of the kernel's regions. -/
theorem create_leaves_out_regions : ∃ vm₀ vm p vm', sampleBootVm = some vm₀ ∧
    Run (vmStep sampleLayout) (fun vm op => op.Valid vm) vm₀ (List.replicate 252 mapEmpty) vm ∧
    vmmCreateAddressSpace sampleLayout vm = some (p, vm') ∧ p ≠ 0 ∧ ¬ CopiesKernel vm vm' p := by
  obtain ⟨vm₀, M, hvm, hb, hlow, hreach⟩ := sampleBootVm_ok
  have hlen : (kernelRegions sampleLayout).length = 4 := by decide
  have hpool : vm₀.regionPoolUsed = 4 := by rw [hb.pool, hlen]
  have hno : vm₀.kernelSpace.regions.any (overlaps 0xD0000000 0) = false :=
    List.any_eq_false.mpr fun g hg => by
      rw [kernelRegion_apart (hb.regions.mem_iff.mp hg) (by omega) (.inr (by omega))]
      exact Bool.false_ne_true
  obtain ⟨vm, e, hrun⟩ := Emptied.run (L := sampleLayout) hno 252 (by unfold vmmMaxRegions; omega)
  obtain ⟨heap, hk⟩ := initialHeap_kmalloc sampleLayout (fun _ => 0#8) vm.mach
  rw [← hb.heap, ← e.heap] at hk
  rcases hb.inv.mach.createDirectory_ok (by omega) with ⟨-, h0⟩ | ⟨d, M', hd, h0, -⟩
  · omega
  · have hslots : vmmMaxRegions ≤ vm.regionPoolUsed := by
      rw [e.pool, hpool]
      decide
    have hfull := registerAll_full ⟨d * pageSize, [], 0⟩ hslots vm.kernelSpace.regions
    rw [← e.mach] at hd
    refine ⟨vm₀, vm, firstSpace, { vm with
      heap := heap, mach := M', spaces := (firstSpace, ⟨d * pageSize, [], 0⟩) :: vm.spaces },
      hvm, hrun, ?_, by decide, ?_⟩
    · unfold vmmCreateAddressSpace
      rw [hk]
      simp only [Option.bind_eq_bind, Option.bind_some, if_neg h0, hd, hfull]
      rfl
    · rintro ⟨space, hs, hcopy, -⟩
      have hnew : (((firstSpace, ⟨d * pageSize, [], 0⟩) :: vm.spaces).lookup firstSpace) =
          some space := hs
      rw [List.lookup_cons_self, Option.some.injEq] at hnew
      rw [← hnew] at hcopy
      have hcount := e.regions.length_eq
      rw [← hcopy, List.length_append, List.length_replicate, List.length_nil] at hcount
      omega

end TupleOS.Memory
