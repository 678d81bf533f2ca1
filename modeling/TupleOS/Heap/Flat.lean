import TupleOS.Heap.Ops

/-!
# The heap over flat kernel memory

Kernel memory as the C code sees it: every kernel virtual address is a byte of
its own. Frames come from outside: `Answers` lists what `pmm_alloc_frame` answers
to the heap (`pages`) and to `paging_map_page` (`tables`), `NULL` once a list is
used up. A new page table is cleared and edited at `PHYS_TO_VIRT(frame)`, so a
table frame whose direct-map page lies in the heap window would overwrite heap
memory. `heapEnv_quiet`: it is the only way that mapping writes the heap.
-/

namespace TupleOS.Heap

open TupleOS.Base TupleOS.Memory

/-- What `pmm_alloc_frame` answers during one call, by call site. -/
structure Answers where
  pages : List Nat
  tables : List Nat

/-- The next answer, `0` (`NULL`) when there is none left. -/
def popFrame : List Nat → Nat × List Nat
  | [] => (0, [])
  | f :: fs => (f, fs)

/-- Flat kernel memory and the frames `paging_map_page` gets. -/
structure Flat where
  mem : Bytes
  tables : List Nat

def flatMem : TableMem Flat where
  load t a := some (load32 t.mem a)
  store t a v := some { t with mem := store32 t.mem a v }
  pmmAllocFrame t := ((popFrame t.tables).1, { t with tables := (popFrame t.tables).2 })

/-- The environment of `kheap.c` over flat memory. -/
def heapEnv (L : Layout) : PageEnv Answers where
  pmmAllocFrame a := ((popFrame a.pages).1, { a with pages := (popFrame a.pages).2 })
  pagingMapPage a m v p flags :=
    (pagingMapPage flatMem L ⟨m, a.tables⟩ v p flags).map fun t =>
      ({ a with tables := t.tables }, t.mem)

/-! ## Table accesses -/

section Words

/-- `n` words from `base` set to `v`. -/
def fillMem (m : Bytes) (base v : Nat) : Nat → Bytes
  | 0 => m
  | n + 1 => store32 (fillMem m base v n) (base + 4 * n) v

theorem fillWords_flat (m : Bytes) (ts : List Nat) (base v : Nat) :
    ∀ n, fillWords flatMem ⟨m, ts⟩ base v n = some ⟨fillMem m base v n, ts⟩
  | 0 => rfl
  | n + 1 => by rw [fillWords, fillWords_flat m ts base v n]; rfl

theorem fillMem_out {m : Bytes} {base v n x : Nat} (h : x < base ∨ base + 4 * n ≤ x) :
    fillMem m base v n x = m x := by
  induction n with
  | zero => rfl
  | succ n ih => rw [fillMem, store32_out (by omega), ih (by omega)]

theorem fillMem_agree (m : Bytes) {base v n lo hi : Nat} (h : hi ≤ base ∨ base + 4 * n ≤ lo) :
    AgreeOn m (fillMem m base v n) lo hi := by
  intro x hx
  obtain ⟨h1, h2⟩ := hx
  exact fillMem_out (by omega)

theorem load32_fillMem {m : Bytes} {base v n i : Nat} (hv : v < 2 ^ 32) (hi : i < n) :
    load32 (fillMem m base v n) (base + 4 * i) = v := by
  induction n with
  | zero => omega
  | succ n ih =>
    rw [fillMem]
    by_cases hin : i = n
    · subst hin; exact load32_store32 _ _ hv
    · rw [load32_store32_miss _ (by omega), ih (by omega)]

theorem fillMem_zero {m : Bytes} {base n x : Nat} (h : InWin base (base + 4 * n) x) :
    fillMem m base 0 n x = 0 := by
  induction n with
  | zero => obtain ⟨h1, h2⟩ := h; omega
  | succ n ih =>
    obtain ⟨h1, h2⟩ := h
    rw [fillMem]
    by_cases hx : x < base + 4 * n
    · rw [store32_out (by omega), ih ⟨h1, hx⟩]
    · unfold store32
      rw [if_pos ⟨by omega, by omega⟩, Nat.zero_div]; rfl

end Words

section Map

variable {L : Layout} {m : Bytes} {ts : List Nat} {v p flags : Nat}

/-- The address of the directory entry for `v`. -/
def pdeAddr (L : Layout) (v : Nat) : Nat := L.pageDirectory + 4 * (v / 2 ^ 22)

/-- The page at which the code edits the table of directory entry `pde`. -/
def tablePage (pde : Nat) : Nat := physToVirt (entryAddr pde)

/-- The address of the table entry for `v`, under directory entry `pde`. -/
def pteAddr (pde v : Nat) : Nat := tablePage pde + 4 * (v / 2 ^ 12 % 2 ^ 10)

def newPte (p flags : Nat) : Nat :=
  mkEntry (roundDown pageSize p) (flags % pageSize ||| pagePresent)

theorem mapPage_present (h : isPresent (load32 m (pdeAddr L v)) = true) :
    pagingMapPage flatMem L ⟨m, ts⟩ v p flags =
      some ⟨store32 m (pteAddr (load32 m (pdeAddr L v)) v) (newPte p flags), ts⟩ := by
  unfold pdeAddr at h
  simp only [pagingMapPage, flatMem, Option.bind_eq_bind, Option.bind_some, h, ↓reduceIte]
  rfl

/-- The directory entry for a new table. -/
def newPde (t flags : Nat) : Nat :=
  mkEntry t (pagePresent ||| pageWrite ||| (flags &&& pageUser))

theorem mapPage_noTable (h : isPresent (load32 m (pdeAddr L v)) = false)
    (ht : (popFrame ts).1 = 0) :
    pagingMapPage flatMem L ⟨m, ts⟩ v p flags = some ⟨m, (popFrame ts).2⟩ := by
  refine pagingMapPage_noTable rfl h ?_
  rw [newPageTable_eq]
  exact if_pos ht

/-- Memory once frame `t` is the table for `v`: cleared at its direct-map page
and entered in the directory. -/
def newTableMem (L : Layout) (m : Bytes) (v t flags : Nat) : Bytes :=
  store32 (fillMem m (physToVirt t) 0 pageEntries) (pdeAddr L v) (newPde t flags)

theorem mapPage_newTable (h : isPresent (load32 m (pdeAddr L v)) = false)
    (ht : (popFrame ts).1 ≠ 0)
    (hp : isPresent (load32 (newTableMem L m v (popFrame ts).1 flags) (pdeAddr L v)) = true) :
    pagingMapPage flatMem L ⟨m, ts⟩ v p flags =
      pagingMapPage flatMem L ⟨newTableMem L m v (popFrame ts).1 flags, (popFrame ts).2⟩ v p flags
    := by
  refine pagingMapPage_newTable rfl h ?_ rfl hp
  rw [newPageTable_eq]
  show (if (popFrame ts).1 = 0 then _ else
    (fillWords flatMem ⟨m, (popFrame ts).2⟩ (physToVirt (popFrame ts).1) 0 pageEntries).bind _) = _
  rw [if_neg ht, fillWords_flat]
  rfl

end Map

/-! ## Tables off the heap -/

/-- The page at `a` is off the heap window. -/
def OffHeap (a : Nat) : Prop := a + pageSize ≤ heapStartAddr ∨ heapMaxAddr ≤ a

instance (a : Nat) : Decidable (OffHeap a) := inferInstanceAs (Decidable (_ ∨ _))

/-- The page at `a` is off the heap window and off `page_directory`. -/
def TablePlace (L : Layout) (a : Nat) : Prop :=
  OffHeap a ∧ (a + pageSize ≤ L.pageDirectory ∨ L.pageDirectory + pageSize ≤ a)

/-- An answer of `pmm_alloc_frame`: `NULL`, or a frame above the kernel image. -/
def IsFrame (L : Layout) (f : Nat) : Prop :=
  f = 0 ∨ f % pageSize = 0 ∧ virtToPhys L.kernelEnd ≤ f ∧ f + pageSize ≤ 2 ^ 32

/-- The present directory entries of the heap window name tables off the heap. -/
def TablesOk (L : Layout) (m : Bytes) : Prop :=
  ∀ s, 769 ≤ s → s ≤ 772 → isPresent (load32 m (L.pageDirectory + 4 * s)) = true →
    TablePlace L (tablePage (load32 m (L.pageDirectory + 4 * s)))

/-- What the heap asks of its environment: the tables there are and the table
frames to come are off the heap. -/
def TablesQuiet (L : Layout) (a : Answers) (m : Bytes) : Prop :=
  TablesOk L m ∧ ∀ t ∈ a.tables, t ≠ 0 → t % pageSize = 0 ∧ t < 2 ^ 32 ∧ TablePlace L (physToVirt t)

section Quiet

variable {L : Layout} {m m' : Bytes}

theorem IsFrame.place {t : Nat} (h : IsFrame L t) (h0 : t ≠ 0) (hoff : OffHeap (physToVirt t)) :
    t % pageSize = 0 ∧ t < 2 ^ 32 ∧ TablePlace L (physToVirt t) := by
  obtain ⟨hal, hge, hlt⟩ := h.resolve_left h0
  have hd := L.pageDirectory_le
  have hg := L.pageDirectory_ge
  have he := L.kernelEnd_le
  refine ⟨hal, by unfold pageSize at hlt; omega, hoff, ?_⟩
  rw [virtToPhys, sub32_of_le (by unfold kernelVirtualBase pageSize at *; omega) (by omega)] at hge
  unfold physToVirt w32 kernelVirtualBase pageSize at *
  omega

theorem TablesOk.frame (h : TablesOk L m)
    (hag : AgreeOn m m' L.pageDirectory (L.pageDirectory + pageSize)) : TablesOk L m' := by
  intro s h1 h2
  rw [load32_congr (hag.mono (by omega) (by unfold pageSize; omega))]
  exact h s h1 h2

theorem pdIndex_heap {v : Nat} (h1 : heapStartAddr ≤ v) (h2 : v + pageSize ≤ heapMaxAddr) :
    769 ≤ v / 2 ^ 22 ∧ v / 2 ^ 22 ≤ 772 := by
  unfold heapMaxAddr heapStartAddr maxHeapSize pageSize at *; omega

theorem table_store {a : Nat} (h : TablePlace L a) (i w : Nat) :
    AgreeOn m (store32 m (a + 4 * (i % 2 ^ 10)) w) heapStartAddr heapMaxAddr ∧
    AgreeOn m (store32 m (a + 4 * (i % 2 ^ 10)) w) L.pageDirectory
      (L.pageDirectory + pageSize) := by
  unfold TablePlace OffHeap pageSize at h
  refine ⟨store32_agree m ?_, store32_agree m ?_⟩
  · omega
  · unfold pageSize; omega

theorem newPde_heap {t : Nat} (hal : t % pageSize = 0) (hlt : t < 2 ^ 32) :
    newPde t (pagePresent ||| pageWrite) < 2 ^ 32 ∧
    isPresent (newPde t (pagePresent ||| pageWrite)) = true ∧
    tablePage (newPde t (pagePresent ||| pageWrite)) = physToVirt t := by
  have hpde : newPde t (pagePresent ||| pageWrite) = t + 3 := rfl
  have haddr : entryAddr (t + 3) = t := by unfold entryAddr roundDown pageSize at *; omega
  rw [hpde]
  refine ⟨by unfold pageSize at hal; omega, ?_, by rw [tablePage, haddr]⟩
  unfold isPresent pageSize at *
  rw [beq_iff_eq]; omega

theorem newTableMem_ok {v t : Nat} (h : TablesOk L m) (h1 : heapStartAddr ≤ v)
    (h2 : v + pageSize ≤ heapMaxAddr) (hal : t % pageSize = 0) (hlt : t < 2 ^ 32)
    (hpl : TablePlace L (physToVirt t)) :
    TablesOk L (newTableMem L m v t (pagePresent ||| pageWrite)) ∧
    isPresent (load32 (newTableMem L m v t (pagePresent ||| pageWrite)) (pdeAddr L v)) = true ∧
    AgreeOn m (newTableMem L m v t (pagePresent ||| pageWrite)) heapStartAddr heapMaxAddr := by
  obtain ⟨hs1, hs2⟩ := pdIndex_heap h1 h2
  obtain ⟨hb, hpr, htp⟩ := newPde_heap hal hlt
  have hd := L.pageDirectory_le
  have he := L.kernelEnd_le
  obtain ⟨hoff, hpd⟩ := hpl
  unfold OffHeap pageSize at *
  have hfill : AgreeOn m (fillMem m (physToVirt t) 0 pageEntries) L.pageDirectory
      (L.pageDirectory + 4096) := fillMem_agree m (by unfold pageEntries; omega)
  have hload : load32 (newTableMem L m v t (pagePresent ||| pageWrite)) (pdeAddr L v) =
      newPde t (pagePresent ||| pageWrite) := load32_store32 _ _ hb
  refine ⟨fun s hs hs' => ?_, by rw [hload]; exact hpr, ?_⟩
  · by_cases hsv : s = v / 2 ^ 22
    · subst hsv
      show isPresent (load32 _ (pdeAddr L v)) = true →
        TablePlace L (tablePage (load32 _ (pdeAddr L v)))
      rw [hload, htp]
      exact fun _ => ⟨hoff, by unfold pageSize; exact hpd⟩
    · unfold newTableMem pdeAddr
      rw [load32_store32_miss _ (by omega), load32_congr (hfill.mono (by omega) (by omega))]
      exact h s hs hs'
  · refine (fillMem_agree m (by unfold pageEntries; omega)).trans (store32_agree _ ?_)
    unfold pdeAddr heapStartAddr
    omega

theorem mem_popFrame {fs : List Nat} {f : Nat} (h : f ∈ (popFrame fs).2) : f ∈ fs := by
  cases fs with
  | nil => exact h
  | cons => exact List.mem_cons_of_mem _ h

theorem popFrame_mem {fs : List Nat} (h : (popFrame fs).1 ≠ 0) : (popFrame fs).1 ∈ fs := by
  cases fs with
  | nil => exact absurd rfl h
  | cons => exact List.mem_cons_self

theorem TablesOk.pte_store (h : TablesOk L m) {v : Nat} (h1 : heapStartAddr ≤ v)
    (h2 : v + pageSize ≤ heapMaxAddr) (hpr : isPresent (load32 m (pdeAddr L v)) = true) (w : Nat) :
    AgreeOn m (store32 m (pteAddr (load32 m (pdeAddr L v)) v) w) heapStartAddr heapMaxAddr ∧
    AgreeOn m (store32 m (pteAddr (load32 m (pdeAddr L v)) v) w)
      L.pageDirectory (L.pageDirectory + pageSize) := by
  obtain ⟨hs1, hs2⟩ := pdIndex_heap h1 h2
  exact table_store (h _ hs1 hs2 hpr) (v / 2 ^ 12) w

theorem agree_pageDirectory (hout : ∀ x, ¬ InWin heapStartAddr heapMaxAddr x → m' x = m x) :
    AgreeOn m m' L.pageDirectory (L.pageDirectory + pageSize) := by
  have hd := L.pageDirectory_le
  have he := L.kernelEnd_le
  refine fun x hx => hout x fun hw => ?_
  unfold InWin heapStartAddr at *
  omega

/-- **Mapping heap pages leaves the heap alone** while table frames are off it. -/
theorem heapEnv_quiet (L : Layout) :
    QuietEnv (heapEnv L) heapMaxAddr fun _ => TablesQuiet L where
  refuse := fun h _ => h
  map := by
    intro v a m hI _ h1 h2 _
    show ∃ e' m', (pagingMapPage flatMem L ⟨m, a.tables⟩ v (popFrame a.pages).1 _).map _ =
      some (e', m') ∧ _
    generalize (popFrame a.pages).1 = p
    by_cases hpr : isPresent (load32 m (pdeAddr L v)) = true
    · rw [mapPage_present hpr]
      obtain ⟨hag, hpd⟩ := hI.1.pte_store h1 h2 hpr (newPte p (pagePresent ||| pageWrite))
      exact ⟨_, _, rfl, ⟨hI.1.frame hpd, hI.2⟩, hag⟩
    · have hpr' := Bool.eq_false_iff.mpr hpr
      by_cases ht : (popFrame a.tables).1 = 0
      · rw [mapPage_noTable hpr' ht]
        exact ⟨_, _, rfl, ⟨hI.1, fun t hm => hI.2 t (mem_popFrame hm)⟩, .refl _ _ _⟩
      · obtain ⟨hal, hlt, hpl⟩ := hI.2 _ (popFrame_mem ht) ht
        obtain ⟨hok1, hpr1, hag1⟩ := newTableMem_ok hI.1 h1 h2 hal hlt hpl
        rw [mapPage_newTable hpr' ht hpr1, mapPage_present hpr1]
        obtain ⟨hag, hpd⟩ := hok1.pte_store h1 h2 hpr1 (newPte p (pagePresent ||| pageWrite))
        exact ⟨_, _, rfl, ⟨hok1.frame hpd, fun t hm => hI.2 t (mem_popFrame hm)⟩, hag1.trans hag⟩
  frame := fun hI hout => ⟨hI.1.frame (agree_pageDirectory hout), hI.2⟩

end Quiet

/-! ## Boot -/

section Boot

variable {L : Layout} {m : Bytes} {ts : List Nat}

theorem fillTable_flat (m : Bytes) (ts : List Nat) (t : Nat) : ∀ n, ∃ m',
    fillTable flatMem L ⟨m, ts⟩ t n = some ⟨m', ts⟩ ∧
    ∀ x, ¬ InWin (L.pageTables + pageSize * t) (L.pageTables + pageSize * t + 4 * n) x → m' x = m x
  | 0 => ⟨m, rfl, fun _ _ => rfl⟩
  | n + 1 => by
    obtain ⟨m', he, hout⟩ := fillTable_flat m ts t n
    refine ⟨_, by rw [fillTable, he]; rfl, fun x hx => ?_⟩
    unfold InWin at *
    exact (store32_out (by omega)).trans (hout x (by omega))

/-- The entry `paging_init` makes for static table `t`. -/
def staticPde (L : Layout) (t : Nat) : Nat :=
  mkEntry (virtToPhys (L.pageTables + pageSize * t)) (pagePresent ||| pageWrite)

theorem tablePage_staticPde {t : Nat} (ht : t < 4) :
    staticPde L t = L.pageTables + pageSize * t - 0xC0000000 + 3 ∧
      tablePage (staticPde L t) = L.pageTables + pageSize * t := by
  have h1 := L.pageTables_ge
  have h2 := L.pageTables_le
  have h3 := L.kernelEnd_le
  have h5 := L.pageTables_aligned
  unfold pageSize at *
  have hphys : virtToPhys (L.pageTables + 4096 * t) = L.pageTables + 4096 * t - 0xC0000000 := by
    unfold virtToPhys kernelVirtualBase; exact sub32_of_le (by omega) (by omega)
  have hpde : staticPde L t = L.pageTables + 4096 * t - 0xC0000000 + 3 := by
    unfold staticPde pageSize; rw [hphys]; rfl
  refine ⟨hpde, ?_⟩
  rw [hpde]
  unfold tablePage entryAddr roundDown physToVirt w32 pageSize kernelVirtualBase
  omega

theorem staticPde_place {t : Nat} (ht : t < 4) :
    staticPde L t < 2 ^ 32 ∧ TablePlace L (tablePage (staticPde L t)) := by
  have h1 := L.pageTables_ge
  have h2 := L.pageTables_le
  have h3 := L.kernelEnd_le
  have h4 := L.arrays_disjoint
  obtain ⟨hpde, hpage⟩ := tablePage_staticPde (L := L) ht
  rw [hpage, hpde]
  unfold TablePlace OffHeap heapStartAddr pageSize at *
  omega

/-- The table loop, by induction on the tables done: their entries are in, the
others and the memory below the kernel image are as before. -/
theorem fillTables_flat (m : Bytes) (ts : List Nat) : ∀ k, k ≤ 4 → ∃ m',
    fillTables flatMem L ⟨m, ts⟩ k = some ⟨m', ts⟩ ∧
    (∀ j < k, load32 m' (L.pageDirectory + 4 * (768 + j)) = staticPde L j) ∧
    (∀ i < 1024, i < 768 ∨ 768 + k ≤ i →
      load32 m' (L.pageDirectory + 4 * i) = load32 m (L.pageDirectory + 4 * i)) ∧
    ∀ x < 0xC0100000, m' x = m x
  | 0, _ => ⟨m, rfl, nofun, fun _ _ _ => rfl, fun _ _ => rfl⟩
  | k + 1, hk => by
    obtain ⟨m1, he1, hin1, hout1, hlow1⟩ := fillTables_flat m ts k (by omega)
    obtain ⟨m2, he2, hout2⟩ := fillTable_flat (L := L) m1 ts k pageEntries
    have hdis := L.arrays_disjoint
    have hkeep : ∀ i < 1024,
        load32 m2 (L.pageDirectory + 4 * i) = load32 m1 (L.pageDirectory + 4 * i) := by
      intro i hi
      refine load32_congr fun x hx => hout2 x fun hw => ?_
      unfold InWin pageSize pageEntries at *
      omega
    refine ⟨_, by rw [fillTables, he1, Option.bind_eq_bind, Option.bind_some, he2]; rfl,
      fun j hj => ?_, fun i hi hor => ?_, fun x hx => ?_⟩
    · by_cases hjk : j = k
      · subst hjk; exact load32_store32 _ _ (staticPde_place (by omega)).1
      · show load32 (store32 m2 _ _) _ = _
        rw [load32_store32_miss _ (by omega), hkeep _ (by omega), hin1 j (by omega)]
    · show load32 (store32 m2 _ _) _ = _
      rw [load32_store32_miss _ (by omega), hkeep i hi, hout1 i hi (by omega)]
    · have hpd := L.pageDirectory_ge
      have hpt := L.pageTables_ge
      refine (store32_out (.inl (by omega))).trans ((hout2 x fun hw => ?_).trans (hlow1 x hx))
      unfold InWin at hw
      omega

/-- **`paging_init`** leaves the heap window with the static tables 1 to 3 and no
table for its last directory entry. -/
theorem pagingInit_flat (m : Bytes) (ts : List Nat) : ∃ m',
    pagingInit flatMem L ⟨m, ts⟩ = some ⟨m', ts⟩ ∧
    (∀ j < 4, load32 m' (L.pageDirectory + 4 * (768 + j)) = staticPde L j) ∧
    load32 m' (L.pageDirectory + 4 * 772) = 2 ∧ ∀ x < 0xC0100000, m' x = m x := by
  obtain ⟨m', he, hin, hout, hlow⟩ := fillTables_flat (L := L)
    (fillMem m L.pageDirectory 2 pageEntries) ts 4 (by omega)
  refine ⟨m', by
    rw [pagingInit, fillWords_flat, Option.bind_eq_bind, Option.bind_some]; exact he, hin, ?_,
    fun x hx => ?_⟩
  · rw [hout 772 (by omega) (by omega)]
    exact load32_fillMem (by omega) (by unfold pageEntries; omega)
  · have hpd := L.pageDirectory_ge
    rw [hlow x hx, fillMem_out (.inl (by omega))]

theorem pagingInit_tablesOk {m' : Bytes} {ts' : List Nat}
    (h : pagingInit flatMem L ⟨m, ts⟩ = some ⟨m', ts'⟩) : TablesOk L m' ∧ ts' = ts := by
  obtain ⟨m1, he, hin, habs, -⟩ := pagingInit_flat (L := L) m ts
  rw [he, Option.some.injEq, Flat.mk.injEq] at h
  obtain ⟨rfl, rfl⟩ := h
  refine ⟨fun s h1 h2 hpr => ?_, rfl⟩
  by_cases hs : s = 772
  · subst hs; rw [habs] at hpr; cases hpr
  · obtain ⟨j, rfl⟩ : ∃ j, s = 768 + j := ⟨s - 768, by omega⟩
    rw [hin j (by omega)]
    exact (staticPde_place (by omega)).2

end Boot

/-- The first block, as `kheap_init` writes it. -/
def bootBlock : Block := ⟨heapStartAddr, initialHeapSize - headerSize, true⟩

theorem bootBlock_seg (m : Bytes) :
    Seg (writeHeader m heapStartAddr (initialHeapSize - headerSize) 1 0)
      (heapStartAddr + initialHeapSize) 0 heapStartAddr [bootBlock] := by
  refine ⟨rfl, ⟨?_, ?_, ?_⟩, rfl⟩
  · exact (load32_store32_miss _ (.inl (by decide))).trans
      ((load32_store32_miss _ (.inl (by decide))).trans (load32_store32 _ _ (by decide)))
  · exact (load32_store32_miss _ (.inl (by decide))).trans (load32_store32 _ _ (by decide))
  · exact load32_store32 _ _ (by decide)

theorem bootBlock_heapOk (m : Bytes) : HeapOk {
    mem := writeHeader m heapStartAddr (initialHeapSize - headerSize) 1 0
    heapStart := heapStartAddr
    heapEnd := heapStartAddr + initialHeapSize
    heapMax := heapStartAddr + maxHeapSize
    firstBlock := heapStartAddr
    totalAllocated := 0 } [] [bootBlock] where
  start_eq := rfl
  first_eq := rfl
  max_eq := rfl
  end_gt := show heapStartAddr < heapStartAddr + initialHeapSize by decide
  end_le := show heapStartAddr + initialHeapSize ≤ heapMaxAddr by decide
  end_aligned := show (heapStartAddr + initialHeapSize) % pageSize = 0 by decide
  seg := bootBlock_seg m
  coalesced := List.isChain_singleton _
  words := List.forall_mem_singleton.mpr (by decide)
  live_block := nofun
  block_live := List.forall_mem_singleton.mpr nofun
  nodup := List.nodup_nil
  used := rfl

/-- **`kheap_init`**, when it succeeds, makes a heap of one free block. -/
theorem kheapInit_ok {σ : Type} {E : PageEnv σ} {top : Nat} {I : Nat → σ → Bytes → Prop}
    (Q : QuietEnv E top I) (ht : heapStartAddr + initialHeapSize ≤ top) {e : σ} {m : Bytes}
    (hI : I heapStartAddr e m) {h : KHeap} {e' : σ} (hi : kheapInit E e m = some (true, h, e')) :
    HeapOk h [] [bootBlock] ∧ I h.heapEnd e' h.mem := by
  obtain ⟨ok, e1, m1, v, hmap, hI1, hv, -⟩ := mapHeapPages_quiet Q (initialHeapSize / pageSize)
    heapStartAddr hI (Nat.le_refl _) ht (by decide)
  unfold kheapInit at hi
  rw [hmap] at hi
  cases ok with
  | false => cases hi
  | true =>
    simp only [Option.bind_eq_bind, Option.bind_some, ↓reduceIte, Option.some.injEq,
      Prod.mk.injEq, true_and] at hi
    obtain ⟨rfl, rfl⟩ := hi
    obtain rfl := hv rfl
    refine ⟨bootBlock_heapOk m1, Q.frame hI1 fun x hx => ?_⟩
    have hlo : x < heapStartAddr ∨ heapStartAddr + 12 ≤ x := by
      unfold InWin heapMaxAddr heapStartAddr maxHeapSize at *; omega
    show store32 (store32 (store32 m1 _ _) _ _) _ _ x = m1 x
    rw [store32_out (by omega), store32_out (by omega), store32_out (by omega)]

end TupleOS.Heap
