import TupleOS.Heap.Integrity

/-!
# A page table inside the heap

The static tables cover the heap up to `0xC1000000`. The first page beyond takes a
new table, and `paging_map_page` clears its frame at `PHYS_TO_VIRT(frame)`. For a
frame between 4 MB and 20 MB that is a heap address, and clearing it overwrites
whatever a client keeps there (`table_clears_live_payload`).
-/

namespace TupleOS.Heap

open TupleOS.Base TupleOS.Memory

section Overrun

variable {L : Layout}

/-- No table frame to come, and no table yet for the last 4 MB of the window. -/
def NoNewTables (L : Layout) (a : Answers) (m : Bytes) : Prop :=
  TablesOk L m ∧ a.tables = [] ∧ load32 m (L.pageDirectory + 4 * 772) = 2

theorem NoNewTables.frame {a : Answers} {m m' : Bytes} (h : NoNewTables L a m)
    (hag : AgreeOn m m' L.pageDirectory (L.pageDirectory + pageSize)) : NoNewTables L a m' := by
  refine ⟨h.1.frame hag, h.2.1, ?_⟩
  rw [load32_congr (hag.mono (by omega) (by unfold pageSize; omega))]
  exact h.2.2

theorem heapEnv_noNewTables (L : Layout) :
    QuietEnv (heapEnv L) heapMaxAddr fun _ => NoNewTables L where
  refuse := fun h _ => h
  map := by
    rintro v ⟨ps, ts⟩ m hI - h1 h2 -
    obtain rfl : ts = [] := hI.2.1
    show ∃ e' m', (pagingMapPage flatMem L ⟨m, []⟩ v (popFrame ps).1 _).map _ = some (e', m') ∧ _
    generalize (popFrame ps).1 = p
    by_cases hpr : isPresent (load32 m (pdeAddr L v)) = true
    · rw [mapPage_present hpr]
      obtain ⟨hag, hpd⟩ := hI.1.pte_store h1 h2 hpr (newPte p (pagePresent ||| pageWrite))
      exact ⟨_, _, rfl, hI.frame hpd, hag⟩
    · rw [mapPage_noTable (Bool.eq_false_iff.mpr hpr) rfl]
      exact ⟨_, _, rfl, hI, .refl _ _ _⟩
  frame := fun hI hout => hI.frame (agree_pageDirectory hout)

theorem bootHeap_noNewTables {m : Bytes} {a a' : Answers} {h : KHeap} (ha : a.tables = [])
    (hb : bootHeap L m a = some (true, h, a')) :
    HeapOk h [] [bootBlock] ∧ NoNewTables L a' h.mem := by
  obtain ⟨m1, ht, -, habs, -⟩ := pagingInit_flat (L := L) m []
  rw [bootHeap, ht] at hb
  exact kheapInit_ok (heapEnv_noNewTables L) (by decide) ⟨(pagingInit_tablesOk ht).1, ha, habs⟩ hb

/-- Pages `i` to `i + n` of directory entry `s`, once its table at `P` is there:
only their entries in the table are written. -/
theorem mapHeapPages_onTable {s P : Nat} (hs : s < 1024)
    (hP : P + pageSize ≤ L.pageDirectory ∨ L.pageDirectory + pageSize ≤ P) :
    ∀ (ps ts : List Nat) (n i : Nat) {m : Bytes}, i + n ≤ 1024 → n ≤ ps.length →
      (∀ f ∈ ps, f ≠ 0) → isPresent (load32 m (L.pageDirectory + 4 * s)) = true →
      tablePage (load32 m (L.pageDirectory + 4 * s)) = P →
      ∃ a' m', mapHeapPages (heapEnv L) ⟨ps, ts⟩ m (s * 2 ^ 22 + i * 2 ^ 12) n =
        some (true, a', m') ∧ ∀ x, ¬ InWin (P + 4 * i) (P + 4 * (i + n)) x → m' x = m x := by
  intro ps ts n
  induction n generalizing ps with
  | zero => exact fun i m _ _ _ _ _ => ⟨⟨ps, ts⟩, m, rfl, fun _ _ => rfl⟩
  | succ n ih =>
    intro i m hi hn h0 hpr htp
    obtain ⟨f, fs, rfl⟩ := List.exists_cons_of_length_pos (Nat.lt_of_lt_of_le n.succ_pos hn)
    have hv : (s * 2 ^ 22 + i * 2 ^ 12) / 2 ^ 22 = s := by omega
    have hpt : (s * 2 ^ 22 + i * 2 ^ 12) / 2 ^ 12 % 2 ^ 10 = i := by omega
    have hpde : pdeAddr L (s * 2 ^ 22 + i * 2 ^ 12) = L.pageDirectory + 4 * s := by
      rw [pdeAddr, hv]
    have hpte : pteAddr (load32 m (L.pageDirectory + 4 * s)) (s * 2 ^ 22 + i * 2 ^ 12) =
      P + 4 * i := by
      rw [pteAddr, htp, hpt]
    rw [mapHeapPages_cons (h0 f List.mem_cons_self), mapPage_present (by rw [hpde]; exact hpr),
      hpde, hpte]
    have hmiss : load32 (store32 m (P + 4 * i) (newPte f (pagePresent ||| pageWrite)))
        (L.pageDirectory + 4 * s) = load32 m (L.pageDirectory + 4 * s) :=
      load32_store32_miss m (by unfold pageSize at hP; omega)
    obtain ⟨a', m', he, hout⟩ := ih fs (i + 1)
      (m := store32 m (P + 4 * i) (newPte f (pagePresent ||| pageWrite))) (by omega)
      (Nat.le_of_succ_le_succ hn) (fun g hg => h0 g (List.mem_cons_of_mem _ hg))
      (by rw [hmiss]; exact hpr) (by rw [hmiss]; exact htp)
    have hbase : s * 2 ^ 22 + i * 2 ^ 12 + pageSize = s * 2 ^ 22 + (i + 1) * 2 ^ 12 := by
      unfold pageSize; omega
    refine ⟨a', m', by rw [Option.bind_some, hbase]; exact he, fun x hx => ?_⟩
    unfold InWin at *
    rw [hout x (by omega), store32_out (by omega)]

/-- A first page of directory entry `s`: its table comes from frame `t`, is
cleared at the direct-map page of `t` and gets the entries of the `n` pages. -/
theorem mapHeapPages_newTable {s t : Nat} (hs : s < 1024) (hal : t % pageSize = 0)
    (ht0 : t ≠ 0) (hlt : t < 2 ^ 32)
    (hP : physToVirt t + pageSize ≤ L.pageDirectory ∨ L.pageDirectory + pageSize ≤ physToVirt t)
    {n : Nat} {ps : List Nat} {m : Bytes} (hn : n < 1024) (hlen : n + 1 ≤ ps.length)
    (h0 : ∀ f ∈ ps, f ≠ 0) (habs : isPresent (load32 m (L.pageDirectory + 4 * s)) = false) :
    ∃ a' m', mapHeapPages (heapEnv L) ⟨ps, [t]⟩ m (s * 2 ^ 22) (n + 1) = some (true, a', m') ∧
      (∀ x, InWin (physToVirt t + 4 * (n + 1)) (physToVirt t + pageSize) x → m' x = 0) ∧
      ∀ x, ¬ InWin (physToVirt t) (physToVirt t + pageSize) x →
        ¬ InWin L.pageDirectory (L.pageDirectory + pageSize) x → m' x = m x := by
  obtain ⟨f, fs, rfl⟩ := List.exists_cons_of_length_pos (Nat.lt_of_lt_of_le n.succ_pos hlen)
  have hv : s * 2 ^ 22 / 2 ^ 22 = s := by omega
  have hpde : pdeAddr L (s * 2 ^ 22) = L.pageDirectory + 4 * s := by rw [pdeAddr, hv]
  obtain ⟨hb, hpr, htp⟩ := newPde_heap hal hlt
  -- the directory entry is the new table's, also after the first entry is written
  have hload : load32 (newTableMem L m (s * 2 ^ 22) t (pagePresent ||| pageWrite))
      (L.pageDirectory + 4 * s) = newPde t (pagePresent ||| pageWrite) := by
    rw [← hpde]; exact load32_store32 _ _ hb
  have hmap : pagingMapPage flatMem L ⟨m, [t]⟩ (s * 2 ^ 22) f (pagePresent ||| pageWrite) =
      pagingMapPage flatMem L ⟨newTableMem L m (s * 2 ^ 22) t (pagePresent ||| pageWrite), []⟩
        (s * 2 ^ 22) f (pagePresent ||| pageWrite) :=
    mapPage_newTable (by rw [hpde]; exact habs) ht0 (by rw [hpde]; exact hload ▸ hpr)
  obtain ⟨a', m', he, hout⟩ := mapHeapPages_onTable hs hP (f :: fs) [] (n + 1) 0
    (m := newTableMem L m (s * 2 ^ 22) t (pagePresent ||| pageWrite)) (by omega) hlen h0
    (by rw [hload]; exact hpr) (by rw [hload]; exact htp)
  rw [Nat.zero_mul, Nat.add_zero, mapHeapPages_cons (h0 f List.mem_cons_self)] at he
  refine ⟨a', m', by rw [mapHeapPages_cons (h0 f List.mem_cons_self), hmap]; exact he,
    fun x hx => ?_, fun x hx hx' => ?_⟩
  · unfold InWin pageSize at *
    rw [hout x (by omega)]
    unfold newTableMem
    rw [store32_out (by rw [hpde]; omega), fillMem_zero ⟨by omega, by unfold pageEntries; omega⟩]
  · unfold InWin pageSize at *
    rw [hout x (by omega)]
    unfold newTableMem
    rw [store32_out (by rw [hpde]; omega), fillMem_out (by unfold pageEntries; omega)]

/-- The block of a request that takes the heap to the end of the static tables. -/
def bigBlock : Block := ⟨heapStartAddr, 11530240, false⟩

def restBlock : Block := ⟨bigBlock.fin, 1052648, true⟩

theorem bigBlock_payloadSize {h : KHeap} {live : List Alloc}
    (H : HeapOk h live [bigBlock, restBlock]) (n : Nat) :
    HeapState.payloadSize ⟨h, live⟩ ⟨bigBlock.payload, n⟩ = bigBlock.size := by
  obtain ⟨nx, hh⟩ := H.seg.hdr (b := bigBlock) List.mem_cons_self
  exact hh.size

/-- The request for 11 MB less a page: 2816 pages, up to `0xC1000000`. -/
theorem bigRequest {h : KHeap} {a : Answers} (H : HeapOk h [] [bootBlock])
    (hN : NoNewTables L a h.mem) (hlen : 2816 ≤ a.pages.length) (h0 : ∀ f ∈ a.pages, f ≠ 0) :
    ∃ h' a', kmalloc (heapEnv L) h a 11530240 = some (bigBlock.payload, h', a') ∧
      HeapOk h' [⟨bigBlock.payload, 11530240⟩] [bigBlock, restBlock] ∧ NoNewTables L a' h'.mem := by
  have hr : roundUp 8 11530240 = 11530240 := by decide
  have hw : w32 (11530240 + headerSize) = 11530252 := by decide
  have hn : roundUp pageSize 11530252 = 2816 * pageSize := by decide
  have hf := H.find 11530240
  rw [show [bootBlock].find? (fits 11530240) = none from rfl] at hf
  have hend : bootBlock.fin = h.heapEnd := H.seg.tiles.2
  have hend' : h.heapEnd = 0xC0500000 := hend.symm.trans (by decide)
  have hmx := H.max_eq
  -- the mapping loop of `heap_expand`
  obtain ⟨ok, a1, m1, -, hmap, hN1, -, hag⟩ :=
    mapHeapPages_quiet (heapEnv_noNewTables L) 2816 h.heapEnd
    hN (Nat.le_of_lt H.end_gt) (by rw [hend']; decide) H.end_aligned
  obtain rfl := mapHeapPages_frames _ _ hlen h0 hmap
  have H1 : HeapOk { h with mem := m1 } [] ([] ++ [bootBlock]) := H.frame fun b hb => by
    obtain ⟨h1, h2⟩ := H.addr_pos hb
    have := H.end_le
    exact hag.mono h1 (by unfold Block.fin at h2; omega)
  obtain ⟨h2, happ, H2, -, -, hout⟩ := H1.append (n := 2816 * pageSize) (by decide) (by decide)
    (show h.heapEnd + 2816 * pageSize ≤ heapMaxAddr by rw [hend']; decide)
  have hx : heapExpand (heapEnv L) h a 11530252 = some (true, h2, a1) :=
    heapExpand_mapped hn (by rw [hend', hmx]; decide) hmap happ
  -- the grown block is split
  rw [show grow [] bootBlock (2816 * pageSize) = [⟨heapStartAddr, 12582900, true⟩] from rfl] at H2
  have hf2 := H2.find 11530240
  rw [show [(⟨heapStartAddr, 12582900, true⟩ : Block)].find? (fits 11530240) =
    some ⟨heapStartAddr, 12582900, true⟩ from rfl] at hf2
  have H2' : HeapOk h2 [] ([] ++ ⟨heapStartAddr, 12582900, true⟩ :: []) := H2
  obtain ⟨hp, H3, hout3⟩ := H2'.take (n := 11530240) rfl
    (show 11530240 ≤ 12582900 by decide) (by decide) (by decide)
  refine ⟨_, a1, ?_, H3, ?_⟩
  · rw [kmalloc_expanded (by decide) (by rw [hr]; exact hf) (by rw [hr, hw]; exact hx)
      (by rw [hr]; exact hf2) (by decide), hr]
    exact congrArg (fun p => some (p, _, a1)) hp
  · refine (hN1.frame (agree_pageDirectory hout)).frame (agree_pageDirectory fun x hx => hout3 x ?_)
    unfold InWin heapMaxAddr heapStartAddr maxHeapSize at hx
    unfold InWin Block.fin headerSize heapStartAddr
    simp only
    omega

/-- The next request, one page too large for what is left: 257 pages from
`0xC1000000`, whose table is a frame mapped inside `bigBlock`. -/
theorem nextRequest {h : KHeap} {ps : List Nat} {t : Nat}
    (H : HeapOk h [⟨bigBlock.payload, 11530240⟩] [bigBlock, restBlock])
    (habs : load32 h.mem (L.pageDirectory + 4 * 772) = 2) (hlen : 257 ≤ ps.length)
    (h0 : ∀ f ∈ ps, f ≠ 0) (hal : t % pageSize = 0) (ht1 : 0x401000 ≤ t) (ht2 : t < 0xEFE000) :
    ∃ p h' a', kmalloc (heapEnv L) h ⟨ps, [t]⟩ 1052656 = some (p, h', a') ∧
      ∀ x, InWin (physToVirt t + 4 * 257) (physToVirt t + pageSize) x → h'.mem x = 0 := by
  have hr : roundUp 8 1052656 = 1052656 := by decide
  have hw : w32 (1052656 + headerSize) = 1052668 := by decide
  have hn : roundUp pageSize 1052668 = 257 * pageSize := by decide
  have hf := H.find 1052656
  rw [show [bigBlock, restBlock].find? (fits 1052656) = none from rfl] at hf
  have hend : restBlock.fin = h.heapEnd := H.seg.tiles.2.2
  have hend' : h.heapEnd = 772 * 2 ^ 22 := hend.symm.trans (by decide)
  have hmx := H.max_eq
  have hP : physToVirt t = t + 0xC0000000 := by
    unfold physToVirt kernelVirtualBase; exact w32_of_lt (by omega)
  have hd := L.pageDirectory_le
  have he := L.kernelEnd_le
  obtain ⟨a1, m1, hmap, hzero, hkeep⟩ := mapHeapPages_newTable (L := L) (s := 772) (by omega) hal
    (by omega) (by omega) (.inr (by rw [hP]; omega)) (n := 256) (by omega) hlen h0
    (m := h.mem) (by rw [habs]; rfl)
  rw [← hend'] at hmap
  -- the cleared page lies in the payload of `bigBlock`, so the list is still there
  have H1 : HeapOk { h with mem := m1 } [⟨bigBlock.payload, 11530240⟩]
    ([bigBlock] ++ [restBlock]) := by
    refine H.frame fun b hb x hx => hkeep x ?_ ?_
    · simp only [List.mem_cons, List.not_mem_nil, or_false] at hb
      unfold InWin headerSize pageSize at *
      rcases hb with rfl | rfl <;>
        simp only [restBlock, bigBlock, Block.fin, heapStartAddr, headerSize] at hx <;> omega
    · obtain ⟨hlo, -⟩ := H.addr_pos hb
      unfold InWin heapStartAddr at *
      omega
  obtain ⟨h2, happ, H2, hk2, -, -⟩ := H1.append (n := 257 * pageSize) (by decide) (by decide)
    (show h.heapEnd + 257 * pageSize ≤ heapMaxAddr by rw [hend']; decide)
  have hx : heapExpand (heapEnv L) h ⟨ps, [t]⟩ 1052668 = some (true, h2, a1) :=
    heapExpand_mapped hn (by rw [hend', hmx]; decide) hmap happ
  obtain ⟨c, hc⟩ := grow_find [bigBlock] restBlock 1052656 (m := 257 * pageSize) (by decide)
  obtain ⟨hf2, hc0, hp, -, hk3, -⟩ := H2.serve (n := 1052656) (by decide) (by decide) hc
  refine ⟨_, _, a1, kmalloc_expanded (by decide) (by rw [hr]; exact hf) (by rw [hr, hw]; exact hx)
    (by rw [hr]; exact hf2) hc0, fun x hx => ?_⟩
  have hin : InWin bigBlock.payload bigBlock.fin x := by
    obtain ⟨hx1, hx2⟩ := hx
    unfold InWin Block.payload Block.fin bigBlock heapStartAddr headerSize pageSize at *
    simp only
    omega
  have hb : bigBlock ∈ grow [bigBlock] restBlock (257 * pageSize) := by decide
  rw [hr]
  calc (takeBlock h2 c.addr 1052656).2.mem x = h2.mem x := hk3 bigBlock hb rfl x hin
    _ = m1 x := hk2 bigBlock (by simp) rfl x hin
    _ = 0 := hzero x hx

end Overrun

/-- Frames for the first request, and for the second: the table for
`0xC1000000` is the frame at `0xD21000`, the 3074th handed out. -/
def sampleBig : Answers := ⟨frameRun 0x220000 2816, []⟩
def sampleNext : Answers := ⟨0xD20000 :: frameRun 0xD22000 256, [0xD21000]⟩

theorem sampleBig_ok : sampleBig.FromPmm sampleLayout ∧ (∀ f ∈ sampleBig.pages, f ≠ 0) ∧
    2816 ≤ sampleBig.pages.length := by
  simp only [sampleBig, length_frameRun, Answers.FromPmm, List.append_nil, Nat.le_refl, and_true]
  exact ⟨fun f hf => isFrame_frameRun 0x220000 2816 (by decide) (by decide) (by decide) hf,
    frameRun_ne_zero 0x220000 2816 (by decide)⟩

theorem sampleNext_ok : sampleNext.FromPmm sampleLayout ∧ (∀ f ∈ sampleNext.pages, f ≠ 0) ∧
    257 ≤ sampleNext.pages.length := by
  simp only [sampleNext, Answers.FromPmm, List.forall_mem_append, List.forall_mem_cons,
    List.length_cons, length_frameRun, Nat.reduceAdd, Nat.le_refl, and_true]
  exact ⟨⟨⟨.inr (by decide), fun f hf =>
    isFrame_frameRun 0xD22000 256 (by decide) (by decide) (by decide) hf⟩, .inr (by decide), nofun⟩,
    by decide, frameRun_ne_zero 0xD22000 256 (by decide)⟩

/-- The clients: one takes 11 MB less a page and writes a byte of it. -/
def overrunCalls : List HeapCall := [.kmalloc 11530240 sampleBig, .write 0xC0D21800 1]

/-- **A page table clears a live payload.** From a successful boot a client takes
a block and writes a byte; the next request, by whichever client, finds that byte
zero: `paging_map_page` cleared the new table's frame at a heap address. -/
theorem table_clears_live_payload : ∃ h a' s s',
    bootHeap sampleLayout (fun _ => 0) sampleBoot = some (true, h, a') ∧
    Run (heapStep sampleLayout) (fun s c => c.Allowed sampleLayout s) ⟨h, []⟩ overrunCalls s ∧
    s.live = [⟨0xC040000C, 11530240⟩] ∧
    (HeapCall.kmalloc 1052656 sampleNext).Allowed sampleLayout s ∧
    heapStep sampleLayout s (.kmalloc 1052656 sampleNext) = some s' ∧
    s.heap.mem 0xC0D21800 = 1 ∧ s'.heap.mem 0xC0D21800 = 0 ∧
    ¬ KeepsOthers s s' (.kmalloc 1052656 sampleNext) := by
  obtain ⟨hf, ho, -⟩ := sampleBoot_ok
  obtain ⟨h, a', hb⟩ := sampleBoot_succeeds fun _ => 0
  obtain ⟨H, hN⟩ := bootHeap_noNewTables rfl hb
  obtain ⟨hf1, h01, hn1⟩ := sampleBig_ok
  obtain ⟨hf2, h02, hn2⟩ := sampleNext_ok
  obtain ⟨h1, a1, hk1, H1, hN1⟩ := bigRequest (a := sampleBig) H ⟨hN.1, rfl, hN.2.2⟩ hn1 h01
  -- the write of the client
  have hwin : InWin bigBlock.payload bigBlock.fin 0xC0D21800 := by decide
  have hout : ∀ y, ¬ InWin bigBlock.payload bigBlock.fin y →
      store8 h1.mem 0xC0D21800 1 y = h1.mem y := by
    intro y hy
    refine store8_out ?_
    rintro rfl
    exact hy hwin
  have H2 := H1.write List.mem_cons_self hout
  have hN2 : NoNewTables sampleLayout a1 (store8 h1.mem 0xC0D21800 1) :=
    hN1.frame (agree_pageDirectory fun y hy => store8_out (by rintro rfl; exact hy (by decide)))
  obtain ⟨p, h3, a3, hk3, hzero⟩ := nextRequest (t := 0xD21000) H2 hN2.2.2 hn2 h02
    (by decide) (by decide) (by decide)
  have hone : store8 h1.mem 0xC0D21800 1 0xC0D21800 = 1 := store8_same _ _ _
  have hz : h3.mem 0xC0D21800 = 0 := hzero _ (by decide)
  refine ⟨h, a', ⟨{ h1 with mem := store8 h1.mem 0xC0D21800 1 }, [⟨bigBlock.payload, 11530240⟩]⟩,
    ⟨h3, addLive [⟨bigBlock.payload, 11530240⟩] p 1052656⟩, hb, ?_, rfl, ?_, ?_, hone, hz, ?_⟩
  · have hstep : heapStep sampleLayout ⟨h, []⟩ (.kmalloc 11530240 sampleBig) =
        some ⟨h1, [⟨bigBlock.payload, 11530240⟩]⟩ := by rw [heapStep, hk1]; rfl
    refine .cons ⟨by decide, by decide, hf1⟩ hstep (.cons ?_ rfl (.nil _))
    exact ⟨_, List.mem_cons_self, by rw [bigBlock_payloadSize H1]; exact hwin⟩
  · exact ⟨by decide, by decide, hf2⟩
  · rw [heapStep, show sampleNext = ⟨sampleNext.pages, [0xD21000]⟩ from rfl, hk3]; rfl
  · intro hkeep
    have hsame : h3.mem 0xC0D21800 = store8 h1.mem 0xC0D21800 1 0xC0D21800 :=
      hkeep _ List.mem_cons_self trivial _ (by rw [bigBlock_payloadSize H2]; exact hwin)
    rw [hz, hone] at hsame
    exact absurd hsame (by decide)

end TupleOS.Heap
