import TupleOS.Base.Run
import TupleOS.Heap.Flat

/-!
# Heap integrity over whole runs

Clients call `kmalloc`, `kcalloc` and `kfree` and write inside their payloads.
`HeapIntegrity` says what they rely on: the list in memory tiles the heap and the
live payloads are disjoint. It holds along every run whose page-table frames stay
off the heap window (`heap_integrity`). A table frame inside the window breaks
it, as the module on overruns shows.
-/

namespace TupleOS.Heap

open TupleOS.Base TupleOS.Memory

/-! ## The list as memory has it -/

def readBlocks (m : Bytes) : Nat → Nat → Option (List Block)
  | 0, _ => none
  | n + 1, block =>
    if block = 0 then some []
    else (readBlocks m n (blockNext m block)).map
      (⟨block, blockSize m block, blockIsFree m block ≠ 0⟩ :: ·)

/-- Each block starts where the one before it ends, from `a` to `e`. -/
def Tiles (e : Nat) : Nat → List Block → Prop
  | a, [] => a = e
  | a, b :: bs => b.addr = a ∧ Tiles e b.fin bs

theorem Seg.tiles {m : Bytes} {e q : Nat} : ∀ {bs : List Block} {a : Nat},
    Seg m e q a bs → Tiles e a bs
  | [], _, h => h
  | _ :: _, _, ⟨ha, _, ht⟩ => ⟨ha, ht.tiles⟩

theorem Hdr.read {m : Bytes} {b : Block} {nx : Nat} (h : Hdr m b nx) :
    (⟨b.addr, blockSize m b.addr, blockIsFree m b.addr ≠ 0⟩ : Block) = b := by
  rw [h.size, h.isFree]
  obtain ⟨a, s, f⟩ := b
  cases f <;> rfl

theorem readBlocks_seg {m : Bytes} {e : Nat} : ∀ {bs : List Block} {a n : Nat},
    Seg m e 0 a bs → 0 < a → bs.length < n → readBlocks m n (link 0 a bs) = some bs
  | [], _, n + 1, _, _, _ => rfl
  | b :: bs, _, n + 1, ⟨rfl, hh, ht⟩, ha, hn => by
    have hfin : 0 < b.fin := by unfold Block.fin headerSize; omega
    have hn' : bs.length < n := by rw [List.length_cons] at hn; omega
    rw [link_cons, readBlocks, if_neg (by omega), hh.next, readBlocks_seg ht hfin hn',
      Option.map_some, hh.read]

/-! ## Clients -/

/-- The heap and the allocations its clients hold. -/
structure HeapState where
  heap : KHeap
  live : List Alloc

/-- The payload size of a live allocation, from its header. -/
def HeapState.payloadSize (s : HeapState) (l : Alloc) : Nat :=
  blockSize s.heap.mem (l.ptr - headerSize)

/-- What clients do. The frames that `pmm_alloc_frame` answers come with the call. -/
inductive HeapCall where
  | kmalloc (n : Nat) (answers : Answers)
  | kcalloc (num size : Nat) (answers : Answers)
  | kfree (p : Nat)
  | write (x : Nat) (b : BitVec 8)

/-- A new pointer joins the live allocations unless it is `NULL`. -/
def addLive (live : List Alloc) (p n : Nat) : List Alloc :=
  if p = 0 then live else ⟨p, n⟩ :: live

def heapStep (L : Layout) (s : HeapState) : HeapCall → Option HeapState
  | .kmalloc n a => (kmalloc (heapEnv L) s.heap a n).map fun r => ⟨r.2.1, addLive s.live r.1 n⟩
  | .kcalloc num size a => (kcalloc (heapEnv L) s.heap a num size).map fun r =>
      ⟨r.2.1, addLive s.live r.1 (num * size)⟩
  | .kfree p => (kfree s.heap p).map fun h => ⟨h, dropPtr p s.live⟩
  | .write x b => some { s with heap := { s.heap with mem := store8 s.heap.mem x b } }

/-- Every answer is one that `pmm_alloc_frame` can give. -/
def Answers.FromPmm (L : Layout) (a : Answers) : Prop := ∀ f ∈ a.pages ++ a.tables, IsFrame L f

/-- No page table is put in the heap window. -/
def Answers.TablesOffHeap (a : Answers) : Prop := ∀ t ∈ a.tables, t ≠ 0 → OffHeap (physToVirt t)

theorem noAnswers_fromPmm (L : Layout) : Answers.FromPmm L ⟨[], []⟩ :=
  fun _ hf => absurd hf List.not_mem_nil

theorem noAnswers_tablesOffHeap : Answers.TablesOffHeap ⟨[], []⟩ :=
  fun _ ht => absurd ht List.not_mem_nil

/-- Requests of 1 byte to 16 MB, `kfree` of live pointers, writes inside payloads. -/
def HeapCall.Allowed (L : Layout) (s : HeapState) : HeapCall → Prop
  | .kmalloc n a => 1 ≤ n ∧ n ≤ maxHeapSize ∧ a.FromPmm L
  | .kcalloc num size a => 1 ≤ num * size ∧ num * size ≤ maxHeapSize ∧ a.FromPmm L
  | .kfree p => ∃ l ∈ s.live, l.ptr = p
  | .write x _ => ∃ l ∈ s.live, InWin l.ptr (l.ptr + s.payloadSize l) x

/-- The call puts no page table in the heap window. -/
def HeapCall.TablesOffHeap : HeapCall → Prop
  | .kmalloc _ a => a.TablesOffHeap
  | .kcalloc _ _ a => a.TablesOffHeap
  | .kfree _ => True
  | .write _ _ => True

/-- The calls of `kheap.c` that must leave the payload of `l` alone. -/
def HeapCall.Spares (l : Alloc) : HeapCall → Prop
  | .kmalloc _ _ => True
  | .kcalloc _ _ _ => True
  | .kfree p => l.ptr ≠ p
  | .write _ _ => False

/-- The call writes no byte of the payload of another live allocation. -/
def KeepsOthers (s s' : HeapState) (c : HeapCall) : Prop :=
  ∀ l ∈ s.live, c.Spares l → AgreeOn s.heap.mem s'.heap.mem l.ptr (l.ptr + s.payloadSize l)

/-- What clients rely on in a state. -/
structure HeapIntegrity (s : HeapState) : Prop where
  tiles : ∃ bs, readBlocks s.heap.mem walkFuel s.heap.firstBlock = some bs ∧
    Tiles s.heap.heapEnd s.heap.heapStart bs
  inside : ∀ l ∈ s.live, s.heap.heapStart ≤ l.ptr ∧ l.ptr + s.payloadSize l ≤ s.heap.heapEnd ∧
    l.req ≤ s.payloadSize l
  disjoint : s.live.Pairwise fun l l' =>
    l.ptr + s.payloadSize l ≤ l'.ptr ∨ l'.ptr + s.payloadSize l' ≤ l.ptr

def bootHeap (L : Layout) (m : Bytes) (a : Answers) : Option (Bool × KHeap × Answers) :=
  (pagingInit flatMem L ⟨m, []⟩).bind fun t => kheapInit (heapEnv L) a t.mem

/-! ## The invariant of a run -/

/-- The list is well formed and the tables in use are off the heap. -/
def HeapInv (L : Layout) (s : HeapState) : Prop :=
  (∃ bs, HeapOk s.heap s.live bs) ∧ TablesOk L s.heap.mem

section Inv

variable {L : Layout} {s s' : HeapState} {bs : List Block}

theorem HeapOk.payload (H : HeapOk s.heap s.live bs) {l : Alloc} (hl : l ∈ s.live) :
    ∃ b ∈ bs, b.free = false ∧ b.payload = l.ptr ∧ l.ptr + s.payloadSize l = b.fin ∧
      l.req ≤ s.payloadSize l := by
  obtain ⟨b, hb, hbf, hbp, hreq⟩ := H.live_block l hl
  obtain ⟨nx, hh⟩ := H.seg.hdr hb
  have hsize : s.payloadSize l = b.size := by
    unfold HeapState.payloadSize
    rw [← hbp, Block.payload, Nat.add_sub_cancel]
    exact hh.size
  exact ⟨b, hb, hbf, hbp, by rw [hsize, ← hbp]; rfl, by rw [hsize]; exact hreq⟩

theorem HeapOk.read {h : KHeap} {live : List Alloc} (H : HeapOk h live bs) :
    readBlocks h.mem walkFuel h.firstBlock = some bs ∧ Tiles h.heapEnd h.heapStart bs := by
  constructor
  · rw [← H.link_first]
    exact readBlocks_seg H.seg (by decide) H.length_lt
  · rw [H.start_eq]
    exact H.seg.tiles

theorem HeapInv.integrity (h : HeapInv L s) : HeapIntegrity s := by
  obtain ⟨⟨bs, H⟩, -⟩ := h
  refine ⟨⟨bs, H.read⟩, ?_, ?_⟩
  · intro l hl
    obtain ⟨b, hb, -, hbp, hfin, hreq⟩ := H.payload hl
    obtain ⟨hlo, hhi⟩ := H.addr_pos hb
    refine ⟨?_, by omega, hreq⟩
    rw [H.start_eq, ← hbp]
    exact Nat.le_trans hlo (Nat.le_add_right _ _)
  · -- distinct pointers have distinct blocks, and blocks are apart
    refine (List.pairwise_map.mp H.nodup).imp_of_mem fun {l l'} hl hl' hne => ?_
    obtain ⟨b, hb, -, hbp, hfin, -⟩ := H.payload hl
    obtain ⟨c, hc, -, hcp, hfin', -⟩ := H.payload hl'
    have hbp' : b.payload = b.addr + headerSize := rfl
    have hcp' : c.payload = c.addr + headerSize := rfl
    rcases H.seg.sep hb hc with rfl | h' | h'
    · exact absurd (hbp.symm.trans hcp) hne
    · left; omega
    · right; omega

theorem HeapOk.keepsOthers (H : HeapOk s.heap s.live bs) {c : HeapCall}
    (hk : KeepsPayloads s.heap.mem s'.heap.mem bs) : KeepsOthers s s' c := by
  intro l hl _
  obtain ⟨b, hb, hbf, hbp, hfin, -⟩ := H.payload hl
  rw [hfin, ← hbp]
  exact hk b hb hbf

theorem tablesQuiet_of {a : Answers} (hf : a.FromPmm L) (ho : a.TablesOffHeap) {m : Bytes}
    (hm : TablesOk L m) : TablesQuiet L a m :=
  ⟨hm, fun t ht h0 => (hf t (List.mem_append_right _ ht)).place h0 (ho t ht h0)⟩

theorem Served.addLive {p n : Nat} {h' : KHeap} (hs : Served s.heap h' s.live bs p n) :
    ∃ bs', HeapOk h' (addLive s.live p n) bs' := by
  unfold Heap.addLive
  by_cases hp : p = 0
  · simp only [hp, ↓reduceIte]; exact ⟨bs, hs.refused hp⟩
  · simp only [hp, ↓reduceIte]
    obtain ⟨bs', H', -⟩ := hs.granted hp
    exact ⟨bs', H'⟩

/-- A live pointer given back: the heap stays good, and nothing outside the heap or in
another live payload is written. -/
theorem HeapOk.kfree_live (H : HeapOk s.heap s.live bs) {l : Alloc} (hl : l ∈ s.live) :
    ∃ h' bs', Heap.kfree s.heap l.ptr = some h' ∧ HeapOk h' (dropPtr l.ptr s.live) bs' ∧
      (∀ x, ¬ InWin heapStartAddr heapMaxAddr x → h'.mem x = s.heap.mem x) ∧
      ∀ l' ∈ s.live, l'.ptr ≠ l.ptr →
        AgreeOn s.heap.mem h'.mem l'.ptr (l'.ptr + s.payloadSize l') := by
  obtain ⟨b, hb, hbf, hbp, -⟩ := H.payload hl
  obtain ⟨pre, post, rfl⟩ := List.append_of_mem hb
  obtain ⟨h', he, H', -, hout'⟩ := H.kfree hbf
  have hout : ∀ x, OffFree (pre ++ freed b :: post) x → h'.mem x = s.heap.mem x :=
    fun x hx => hout' x hx.kfree.1 hx.kfree.2
  rw [hbp] at he H'
  refine ⟨h', _, he, H', fun x hx => hout x fun c hcm _ hw => hx ?_, fun l' hl' hne => ?_⟩
  · -- every header lies in the heap
    have hcm' : ∃ d ∈ pre ++ b :: post, d.addr = c.addr := by
      simp only [List.mem_append, List.mem_cons] at hcm ⊢
      rcases hcm with hcm | rfl | hcm
      · exact ⟨c, .inl hcm, rfl⟩
      · exact ⟨b, .inr (.inl rfl), rfl⟩
      · exact ⟨c, .inr (.inr hcm), rfl⟩
    obtain ⟨d, hd, hda⟩ := hcm'
    obtain ⟨hlo, hhi⟩ := H.addr_pos hd
    have hend := H.end_le
    unfold InWin Block.fin at *
    omega
  · obtain ⟨d, hd, hdf, hdp, hfin, -⟩ := H.payload hl'
    rw [hfin, ← hdp]
    refine fun x hx => hout x fun c hcm hcf hw => ?_
    have hdb : d ≠ b := by
      rintro rfl; exact hne (hdp.symm.trans hbp)
    have hd' := (mem_freed hdf hdb).mpr hd
    have hseg := (setFree_seg H.seg).1
    have hcfin : c.fin = c.addr + headerSize + c.size := rfl
    have hdpay : d.payload = d.addr + headerSize := rfl
    obtain ⟨hx1, hx2⟩ := hx
    obtain ⟨hw1, hw2⟩ := hw
    rcases hseg.sep hd' hcm with rfl | h' | h'
    · rw [hdf] at hcf; cases hcf
    · omega
    · omega

theorem HeapOk.write_live (H : HeapOk s.heap s.live bs) {l : Alloc} (hl : l ∈ s.live) {x : Nat}
    (hx : InWin l.ptr (l.ptr + s.payloadSize l) x) (v : BitVec 8) :
    HeapOk { s.heap with mem := store8 s.heap.mem x v } s.live bs ∧
      ∀ y, ¬ InWin heapStartAddr heapMaxAddr y → store8 s.heap.mem x v y = s.heap.mem y := by
  obtain ⟨b, hb, -, hbp, hfin, -⟩ := H.payload hl
  obtain ⟨hlo, hhi⟩ := H.addr_pos hb
  obtain ⟨hx1, hx2⟩ := hx
  have hend := H.end_le
  have hbp' : b.payload = b.addr + headerSize := rfl
  refine ⟨H.write hb fun y hy => store8_out ?_, fun y hy => store8_out ?_⟩
  · rintro rfl
    exact hy ⟨by omega, by omega⟩
  · rintro rfl
    exact hy ⟨by omega, by omega⟩

/-- **One call**: it returns, keeps the invariant and writes no other payload. -/
theorem HeapInv.step (h : HeapInv L s) {c : HeapCall} (hc : c.Allowed L s) (ho : c.TablesOffHeap) :
    ∃ s', heapStep L s c = some s' ∧ HeapInv L s' ∧ KeepsOthers s s' c := by
  obtain ⟨⟨bs, H⟩, hT⟩ := h
  cases c with
  | kmalloc n a =>
    obtain ⟨-, h2, hf⟩ := hc
    obtain ⟨p, h', a', he, ⟨-, hI⟩, hs⟩ :=
      kmalloc_ok (heapEnv_quiet L) H (tablesQuiet_of hf ho hT) (H.noWrap h2) id
    exact ⟨⟨h', addLive s.live p n⟩, by rw [heapStep, he]; rfl, ⟨hs.addLive, hI.1⟩,
      H.keepsOthers hs.keeps⟩
  | kcalloc num size a =>
    obtain ⟨-, h2, hf⟩ := hc
    obtain ⟨p, h', a', he, ⟨-, hI⟩, hs, -⟩ :=
      kcalloc_ok (heapEnv_quiet L) H (tablesQuiet_of hf ho hT) (H.noWrap h2) id
    exact ⟨⟨h', addLive s.live p (num * size)⟩, by rw [heapStep, he]; rfl, ⟨hs.addLive, hI.1⟩,
      H.keepsOthers hs.keeps⟩
  | kfree p =>
    obtain ⟨l, hl, rfl⟩ := hc
    obtain ⟨h', bs', he, H', hout, hkeep⟩ := H.kfree_live hl
    refine ⟨⟨h', dropPtr l.ptr s.live⟩, by rw [heapStep, he]; rfl,
      ⟨⟨bs', H'⟩, hT.frame (agree_pageDirectory hout)⟩, fun l' hl' hne => hkeep l' hl' hne⟩
  | write x v =>
    obtain ⟨l, hl, hx⟩ := hc
    obtain ⟨H', hout⟩ := H.write_live hl hx v
    exact ⟨_, rfl, ⟨⟨bs, H'⟩, hT.frame (agree_pageDirectory hout)⟩, fun _ _ hs => hs.elim⟩

/-- **A run** of calls that put no page table in the heap window. -/
theorem HeapInv.run {cs : List HeapCall} (h : HeapInv L s)
    (hrun : Run (heapStep L) (fun s c => c.Allowed L s ∧ c.TablesOffHeap) s cs s') :
    HeapInv L s' := by
  refine hrun.invariant (HeapInv L) (fun {s c s'} hs hc he => ?_) h
  obtain ⟨s₁, he₁, hs₁, -⟩ := hs.step hc.1 hc.2
  rw [he, Option.some.injEq] at he₁
  exact he₁ ▸ hs₁

end Inv

theorem bootHeap_ok {L : Layout} {m : Bytes} {a : Answers} {h : KHeap} {a' : Answers}
    (hf : a.FromPmm L) (ho : a.TablesOffHeap) (hb : bootHeap L m a = some (true, h, a')) :
    HeapOk h [] [bootBlock] ∧ TablesOk L h.mem := by
  obtain ⟨t, ht, hk⟩ := Option.bind_eq_some_iff.mp hb
  obtain ⟨hT, -⟩ := pagingInit_tablesOk ht
  obtain ⟨H, hI⟩ := kheapInit_ok (heapEnv_quiet L) (by decide) (tablesQuiet_of hf ho hT) hk
  exact ⟨H, hI.1⟩

theorem bootHeap_inv {L : Layout} {m : Bytes} {a : Answers} {h : KHeap} {a' : Answers}
    (hf : a.FromPmm L) (ho : a.TablesOffHeap) (hb : bootHeap L m a = some (true, h, a')) :
    HeapInv L ⟨h, []⟩ :=
  ⟨⟨_, (bootHeap_ok hf ho hb).1⟩, (bootHeap_ok hf ho hb).2⟩

/-- **Heap integrity.** From a successful boot, through any calls by which no page
table is put in the heap window, the list tiles the heap and the live payloads
are inside it, disjoint and large enough; and each such call returns and writes no
payload of another live allocation. -/
theorem heap_integrity {L : Layout} {m : Bytes} {a a' : Answers} {h : KHeap} {cs : List HeapCall}
    {s : HeapState} (hf : a.FromPmm L) (ho : a.TablesOffHeap)
    (hboot : bootHeap L m a = some (true, h, a'))
    (hrun : Run (heapStep L) (fun s c => c.Allowed L s ∧ c.TablesOffHeap) ⟨h, []⟩ cs s) :
    HeapIntegrity s ∧ ∀ c : HeapCall, c.Allowed L s → c.TablesOffHeap →
      ∃ s', heapStep L s c = some s' ∧ KeepsOthers s s' c := by
  have hinv := (bootHeap_inv hf ho hboot).run hrun
  refine ⟨hinv.integrity, fun c hc hoc => ?_⟩
  obtain ⟨s', he, -, hk⟩ := hinv.step hc hoc
  exact ⟨s', he, hk⟩

/-! ## Boots that succeed -/

theorem kmalloc_serves {σ : Type} (E : PageEnv σ) (e : σ) {h : KHeap} {live : List Alloc}
    {pre post : List Block} {b : Block} {n : Nat}
    (H : HeapOk h live (pre ++ b :: post)) (h1 : 1 ≤ n) (h2 : n ≤ maxHeapSize)
    (hfind : (pre ++ b :: post).find? (fits (roundUp 8 n)) = some b) :
    ∃ h', kmalloc E h e n = some (b.payload, h', e) ∧
      HeapOk h' (⟨b.payload, n⟩ :: live) (pre ++ carve b (roundUp 8 n) ++ post) := by
  obtain ⟨hr1, -, hr3⟩ := roundUp8 (n := n) (by unfold maxHeapSize at h2; omega)
  have hfit := List.find?_some hfind
  rw [fits, Bool.and_eq_true, decide_eq_true_eq] at hfit
  obtain ⟨hf, h0, -⟩ := H.serve (by omega) hr1 hfind
  obtain ⟨hp, H', -⟩ := H.take hfit.1 hfit.2 (by omega) hr1
  refine ⟨_, ?_, H'⟩
  rw [← hp]
  exact kmalloc_found (by omega) hf h0

/-- `n` frames in a row from `start`. -/
def frameRun (start n : Nat) : List Nat := (List.range n).map fun i => start + pageSize * i

theorem mem_frameRun {start n f : Nat} :
    f ∈ frameRun start n ↔ ∃ i < n, start + pageSize * i = f := by
  simp [frameRun]

theorem isFrame_frameRun {L : Layout} {f : Nat} (start n : Nat)
    (hs : virtToPhys L.kernelEnd ≤ start)
    (hal : start % pageSize = 0) (hlt : start + pageSize * n ≤ 2 ^ 32) (hf : f ∈ frameRun start n) :
    IsFrame L f := by
  obtain ⟨i, hi, rfl⟩ := mem_frameRun.mp hf
  right
  unfold pageSize at *
  omega

theorem frameRun_ne_zero (start n : Nat) (hs : 0 < start) : ∀ f ∈ frameRun start n, f ≠ 0 := by
  intro f hf
  obtain ⟨i, -, rfl⟩ := mem_frameRun.mp hf
  omega

@[simp] theorem length_frameRun (start n : Nat) : (frameRun start n).length = n := by
  simp [frameRun]

section Frames

variable {L : Layout} {a a' : Answers} {m m' : Bytes} {h h' : KHeap} {ok : Bool}

theorem mapHeapPages_cons {f : Nat} {fs ts : List Nat} (hf : f ≠ 0) (m : Bytes) (base n : Nat) :
    mapHeapPages (heapEnv L) ⟨f :: fs, ts⟩ m base (n + 1) =
      (pagingMapPage flatMem L ⟨m, ts⟩ base f (pagePresent ||| pageWrite)).bind fun t =>
        mapHeapPages (heapEnv L) ⟨fs, t.tables⟩ t.mem (base + pageSize) n := by
  rw [mapHeapPages_succ]
  show (if f = 0 then _ else (Option.map _ (pagingMapPage flatMem L ⟨m, ts⟩ base f _)).bind _) = _
  rw [if_neg hf]
  cases pagingMapPage flatMem L ⟨m, ts⟩ base f (pagePresent ||| pageWrite) <;> rfl

theorem mapHeapPages_frames : ∀ (n base : Nat) {a : Answers} {m : Bytes}, n ≤ a.pages.length →
    (∀ f ∈ a.pages, f ≠ 0) → mapHeapPages (heapEnv L) a m base n = some (ok, a', m') → ok = true
  | 0, _, _, _, _, _, he => by cases he; rfl
  | n + 1, base, ⟨f :: fs, ts⟩, m, hn, h0, he => by
    rw [mapHeapPages_cons (h0 f List.mem_cons_self)] at he
    obtain ⟨t, -, he⟩ := Option.bind_eq_some_iff.mp he
    exact mapHeapPages_frames n _ (Nat.le_of_succ_le_succ hn)
      (fun g hg => h0 g (List.mem_cons_of_mem _ hg)) he

theorem bootHeap_succeeds (hf : a.FromPmm L) (ho : a.TablesOffHeap)
    (hn : initialHeapSize / pageSize ≤ a.pages.length) (h0 : ∀ f ∈ a.pages, f ≠ 0) :
    ∃ h a', bootHeap L m a = some (true, h, a') := by
  obtain ⟨m1, ht, hT⟩ : ∃ m1, pagingInit flatMem L ⟨m, []⟩ = some ⟨m1, []⟩ ∧ TablesOk L m1 := by
    obtain ⟨m1, ht, -, -⟩ := pagingInit_flat (L := L) m []
    exact ⟨m1, ht, (pagingInit_tablesOk ht).1⟩
  obtain ⟨ok, a1, m2, -, hmap, -, -⟩ := mapHeapPages_quiet (heapEnv_quiet L)
    (initialHeapSize / pageSize) heapStartAddr (tablesQuiet_of hf ho hT) (Nat.le_refl _)
    (by decide) (by decide)
  obtain rfl := mapHeapPages_frames _ _ hn h0 hmap
  obtain ⟨h, hk⟩ : ∃ h, kheapInit (heapEnv L) a m1 = some (true, h, a1) := by
    unfold kheapInit
    rw [hmap]
    exact ⟨_, rfl⟩
  exact ⟨h, a1, by rw [bootHeap, ht]; exact hk⟩

end Frames

/-- The frames above the image, lowest first. -/
def sampleBoot : Answers := ⟨frameRun 0x120000 256, []⟩

theorem sampleBoot_ok : sampleBoot.FromPmm sampleLayout ∧ sampleBoot.TablesOffHeap ∧
    (∀ f ∈ sampleBoot.pages, f ≠ 0) ∧ sampleBoot.pages.length = 256 := by
  refine ⟨fun f hf => ?_, nofun, frameRun_ne_zero 0x120000 256 (by decide), length_frameRun _ _⟩
  rw [sampleBoot, List.append_nil] at hf
  exact isFrame_frameRun 0x120000 256 (by decide) (by decide) (by decide) hf

theorem sampleBoot_succeeds (m : Bytes) :
    ∃ h a', bootHeap sampleLayout m sampleBoot = some (true, h, a') := by
  obtain ⟨hf, ho, h0, hn⟩ := sampleBoot_ok
  exact bootHeap_succeeds hf ho (Nat.le_of_eq hn.symm) h0

/-- The first of two small blocks after boot, given back. -/
def firstFreed : Block := ⟨heapStartAddr, 8, true⟩

/-- The second one, and what is left after it. -/
def secondTaken : List Block := [⟨0xC0400014, 8, false⟩, ⟨0xC0400028, 0xFFFCC, true⟩]

/-- Two small requests after boot, freed in the order they were made. -/
structure TwoServed {σ : Type} (E : PageEnv σ) (e : σ) (h h₁ h₂ h₃ h₄ : KHeap) : Prop where
  call₁ : kmalloc E h e 8 = some (0xC040000C, h₁, e)
  ok₁ : HeapOk h₁ [⟨0xC040000C, 8⟩] [⟨heapStartAddr, 8, false⟩, ⟨0xC0400014, 0xFFFE0, true⟩]
  call₂ : kmalloc E h₁ e 8 = some (0xC0400020, h₂, e)
  ok₂ : HeapOk h₂ [⟨0xC0400020, 8⟩, ⟨0xC040000C, 8⟩] (⟨heapStartAddr, 8, false⟩ :: secondTaken)
  call₃ : kfree h₂ 0xC040000C = some h₃
  ok₃ : HeapOk h₃ [⟨0xC0400020, 8⟩] (firstFreed :: secondTaken)
  call₄ : kfree h₃ 0xC0400020 = some h₄
  ok₄ : HeapOk h₄ [] [bootBlock]

theorem two_served {σ : Type} (E : PageEnv σ) (e : σ) {h : KHeap} (H : HeapOk h [] [bootBlock]) :
    ∃ h₁ h₂ h₃ h₄, TwoServed E e h h₁ h₂ h₃ h₄ := by
  have H₀ : HeapOk h [] ([] ++ bootBlock :: []) := H
  obtain ⟨h₁, hk₁, H₁⟩ := kmalloc_serves (n := 8) E e H₀ (by decide) (by decide) rfl
  have H₁' : HeapOk h₁ [⟨0xC040000C, 8⟩]
      ([⟨heapStartAddr, 8, false⟩] ++ ⟨0xC0400014, 0xFFFE0, true⟩ :: []) := H₁
  obtain ⟨h₂, hk₂, H₂⟩ := kmalloc_serves (n := 8) E e H₁' (by decide) (by decide) rfl
  have H₂' : HeapOk h₂ [⟨0xC0400020, 8⟩, ⟨0xC040000C, 8⟩]
      ([] ++ ⟨heapStartAddr, 8, false⟩ :: secondTaken) := H₂
  obtain ⟨h₃, hk₃, H₃, -⟩ := H₂'.kfree rfl
  have H₃' : HeapOk h₃ [⟨0xC0400020, 8⟩] ([firstFreed] ++
      ⟨0xC0400014, 8, false⟩ :: [⟨0xC0400028, 0xFFFCC, true⟩]) := by
    simpa [coalesce, freed, dropPtr, Block.payload, heapStartAddr, headerSize, firstFreed,
      secondTaken] using H₃
  obtain ⟨h₄, hk₄, H₄, -⟩ := H₃'.kfree rfl
  have H₄' : HeapOk h₄ [] [bootBlock] := by
    simpa [coalesce, freed, dropPtr, Block.payload, heapStartAddr, headerSize, bootBlock,
      initialHeapSize, firstFreed] using H₄
  exact ⟨h₁, h₂, h₃, h₄, hk₁, H₁', hk₂, H₂', hk₃, H₃', hk₄, H₄'⟩

theorem TwoServed.run {L : Layout} {h h₁ h₂ h₃ h₄ : KHeap}
    (t : TwoServed (heapEnv L) ⟨[], []⟩ h h₁ h₂ h₃ h₄) :
    Run (heapStep L) (fun s c => c.Allowed L s ∧ c.TablesOffHeap) ⟨h, []⟩
      [.kmalloc 8 ⟨[], []⟩, .kmalloc 8 ⟨[], []⟩] ⟨h₂, [⟨0xC0400020, 8⟩, ⟨0xC040000C, 8⟩]⟩ := by
  have hs₁ : heapStep L ⟨h, []⟩ (.kmalloc 8 ⟨[], []⟩) = some ⟨h₁, [⟨0xC040000C, 8⟩]⟩ := by
    rw [heapStep, t.call₁]; rfl
  have hs₂ : heapStep L ⟨h₁, [⟨0xC040000C, 8⟩]⟩ (.kmalloc 8 ⟨[], []⟩) =
      some ⟨h₂, [⟨0xC0400020, 8⟩, ⟨0xC040000C, 8⟩]⟩ := by rw [heapStep, t.call₂]; rfl
  have hc : ∀ s, (HeapCall.kmalloc 8 ⟨[], []⟩).Allowed L s :=
    fun _ => ⟨by decide, by decide, noAnswers_fromPmm _⟩
  exact .cons ⟨hc _, noAnswers_tablesOffHeap⟩ hs₁ <|
    .cons ⟨hc _, noAnswers_tablesOffHeap⟩ hs₂ (.nil _)

/-- The theorem at a boot on blank memory: two requests are served, and giving the first
pointer back leaves the payload of the second as it was. -/
theorem heap_integrity_sample : ∃ h a' s s',
    bootHeap sampleLayout (fun _ => 0) sampleBoot = some (true, h, a') ∧
    Run (heapStep sampleLayout) (fun s c => c.Allowed sampleLayout s ∧ c.TablesOffHeap) ⟨h, []⟩
      [.kmalloc 8 ⟨[], []⟩, .kmalloc 8 ⟨[], []⟩] s ∧
    s.live = [⟨0xC0400020, 8⟩, ⟨0xC040000C, 8⟩] ∧ HeapIntegrity s ∧
    heapStep sampleLayout s (.kfree 0xC040000C) = some s' ∧
    KeepsOthers s s' (.kfree 0xC040000C) := by
  obtain ⟨hf, ho, -⟩ := sampleBoot_ok
  obtain ⟨h, a', hb⟩ := sampleBoot_succeeds fun _ => 0
  obtain ⟨h₁, h₂, h₃, h₄, t⟩ :=
    two_served (heapEnv sampleLayout) ⟨[], []⟩ (bootHeap_ok hf ho hb).1
  obtain ⟨hint, hnext⟩ := heap_integrity hf ho hb t.run
  obtain ⟨s', hs', hkeep⟩ := hnext (.kfree 0xC040000C) ⟨⟨0xC040000C, 8⟩, by simp, rfl⟩ trivial
  exact ⟨h, a', _, s', hb, t.run, rfl, hint, hs', hkeep⟩

end TupleOS.Heap
