import TupleOS.Heap.Accounting
import TupleOS.Heap.Requests

/-!
# Growing is enough

`kmalloc` looks for a block, grows the heap when there is none, and looks once more. What
`heap_expand` adds goes to the last block if that one is free, and becomes a block of its own with a
header if not; either way the second search succeeds. So a request of at most 16 MB gets `NULL` only
when no block fits and the heap would pass its limit or the frames ran out on the way
(`expansion_suffices`).

The pages are mapped before the last block is looked for. A page table in the heap window puts its
entries into headers, and both searches follow them: the smallest request can fail with frames and
room left (`expansion_defeated`).
-/

namespace TupleOS.Heap

open TupleOS.Base TupleOS.Memory

section Growth

variable {σ : Type} {E : PageEnv σ} {I : Nat → σ → Bytes → Prop} {h h' : KHeap} {e e' : σ}
  {live : List Alloc} {bs : List Block} {m m' : Bytes} {size base n : Nat} {ok : Bool}

/-- `pmm_alloc_frame` answers `NULL` for one of the `n` pages. -/
def RunsOut (E : PageEnv σ) (e : σ) (m : Bytes) (base n : Nat) : Prop :=
  ∃ k < n, ∃ e' m', mapHeapPages E e m base k = some (true, e', m') ∧ (E.pmmAllocFrame e').1 = 0

theorem runsOut_succ : RunsOut E e m base (n + 1) ↔ (E.pmmAllocFrame e).1 = 0 ∨
    ∃ r, (E.pmmAllocFrame e).1 ≠ 0 ∧ E.pagingMapPage (E.pmmAllocFrame e).2 m base
      (E.pmmAllocFrame e).1 (pagePresent ||| pageWrite) = some r ∧
      RunsOut E r.1 r.2 (base + pageSize) n := by
  constructor
  · rintro ⟨k, hk, e', m', hmap, h0⟩
    cases k with
    | zero =>
      cases hmap
      exact .inl h0
    | succ k =>
      rw [mapHeapPages_succ] at hmap
      split at hmap
      · cases hmap
      · rename_i hf
        obtain ⟨r, hr, hmap⟩ := Option.bind_eq_some_iff.mp hmap
        exact .inr ⟨r, hf, hr, k, Nat.lt_of_succ_lt_succ hk, e', m', hmap, h0⟩
  · rintro (h0 | ⟨r, hf, hr, k, hk, e', m', hmap, h0⟩)
    · exact ⟨0, Nat.succ_pos n, e, m, rfl, h0⟩
    · refine ⟨k + 1, Nat.succ_lt_succ hk, e', m', ?_, h0⟩
      rw [mapHeapPages_succ, if_neg hf, hr]
      exact hmap

theorem mapHeapPages_false_iff (hmap : mapHeapPages E e m base n = some (ok, e', m')) :
    ok = false ↔ RunsOut E e m base n := by
  induction n generalizing e m base with
  | zero =>
    cases hmap
    exact ⟨nofun, fun ⟨k, hk, _⟩ => absurd hk (Nat.not_lt_zero k)⟩
  | succ n ih =>
    rw [mapHeapPages_succ] at hmap
    rw [runsOut_succ]
    split at hmap
    · rename_i h0
      cases hmap
      exact ⟨fun _ => .inl h0, fun _ => rfl⟩
    · rename_i h0
      obtain ⟨r, hr, hmap⟩ := Option.bind_eq_some_iff.mp hmap
      rw [ih hmap]
      constructor
      · exact fun hrest => .inr ⟨r, h0, hr, hrest⟩
      · rintro (hf | ⟨r', -, hr', hrest⟩)
        · exact absurd hf h0
        · rw [hr, Option.some.injEq] at hr'
          exact hr' ▸ hrest

theorem heapExpand_false_iff (hwrap : h.heapEnd + roundUp pageSize size < 2 ^ 32)
    (he : heapExpand E h e size = some (ok, h', e')) :
    ok = false ↔ h.heapMax < h.heapEnd + roundUp pageSize size ∨
      RunsOut E e h.mem h.heapEnd (roundUp pageSize size / pageSize) := by
  simp only [heapExpand, w32_of_lt hwrap] at he
  split at he
  · rename_i hlim
    cases he
    exact ⟨fun _ => .inl hlim, fun _ => rfl⟩
  · rename_i hlim
    obtain ⟨⟨ok', e₁, m₁⟩, hmap, he⟩ := Option.bind_eq_some_iff.mp he
    rw [or_iff_right hlim, ← mapHeapPages_false_iff hmap]
    cases ok' with
    | false =>
      cases he
      rfl
    | true =>
      obtain ⟨h₁, -, he⟩ := Option.bind_eq_some_iff.mp he
      cases he
      rfl

section Request

variable (Q : QuietEnv E heapMaxAddr I) (H : HeapOk h live bs) (hI : I h.heapEnd e h.mem)
  (hle : size + headerSize ≤ roundUp pageSize (size + headerSize))
  (hwrap : h.heapEnd + roundUp pageSize (size + headerSize) < 2 ^ 32)
include Q H hI hle hwrap

/-- **`heap_expand`** for a request returns, and when it returns 1 the search succeeds. -/
theorem HeapOk.expand_finds : ∃ ok h' e',
    heapExpand E h e (size + headerSize) = some (ok, h', e') ∧
      (ok = true → ∃ block, block ≠ 0 ∧
        findFreeBlock h'.mem size walkFuel h'.firstBlock = some block) := by
  obtain ⟨ok, h', e', hx, -, -, -, -, hyes⟩ := H.expand Q hI rfl (by omega) hwrap id
  refine ⟨ok, h', e', hx, fun hok => ?_⟩
  obtain ⟨pre, b, rfl, H'⟩ := hyes hok
  obtain ⟨c, hc⟩ := grow_find pre b size hle
  refine ⟨c.addr, ?_, by rw [H'.find, hc]; rfl⟩
  have hlo := (H'.addr_pos (List.mem_of_find?_eq_some hc)).1
  unfold heapStartAddr at hlo
  omega

/-- **`kmalloc`** of a multiple of 8 returns, and answers `NULL` exactly when no block fits and the
heap cannot grow. -/
theorem HeapOk.kmalloc_null_iff (h0 : size ≠ 0) (h8 : roundUp 8 size = size) : ∃ p h' e',
    kmalloc E h e size = some (p, h', e') ∧
      (p = 0 ↔ findFreeBlock h.mem size walkFuel h.firstBlock = some 0 ∧
        (h.heapMax < h.heapEnd + roundUp pageSize (size + headerSize) ∨
          RunsOut E e h.mem h.heapEnd (roundUp pageSize (size + headerSize) / pageSize))) := by
  have hmod : size % 8 = 0 := h8 ▸ Nat.mod_eq_zero_of_dvd (roundUp_dvd 8 size)
  have hpay : ∀ b : Block, b.payload ≠ 0 := fun b => Nat.ne_of_gt (Nat.add_pos_right _ (by decide))
  cases hfind : bs.find? (fits size) with
  | some b =>
    obtain ⟨hf, hb0, hp, -⟩ := H.serve (by omega) (Nat.le_refl size) hfind
    refine ⟨_, _, _, kmalloc_found h0 (h8.symm ▸ hf) hb0, ?_⟩
    rw [h8, hp, hf]
    exact ⟨fun hz => absurd hz (hpay b), fun hz => absurd (Option.some.inj hz.1) hb0⟩
  | none =>
    have hf := H.find size
    rw [hfind] at hf
    obtain ⟨ok, h', e', hx, -, -, -, -, hyes⟩ := H.expand Q hI rfl (by omega) hwrap id
    have hiff := heapExpand_false_iff hwrap hx
    have hx' : heapExpand E h e (w32 (roundUp 8 size + headerSize)) = some (ok, h', e') := by
      rw [h8, w32_of_lt (by omega)]
      exact hx
    cases ok with
    | false =>
      refine ⟨0, h', e', kmalloc_refused h0 (h8.symm ▸ hf) hx', ?_⟩
      exact ⟨fun _ => ⟨hf, hiff.mp rfl⟩, fun _ => rfl⟩
    | true =>
      obtain ⟨pre, b, rfl, H'⟩ := hyes rfl
      obtain ⟨c, hc⟩ := grow_find pre b size hle
      obtain ⟨hf', hc0, hp, -⟩ := H'.serve (by omega) (Nat.le_refl size) hc
      refine ⟨_, _, _, kmalloc_expanded h0 (h8.symm ▸ hf) hx' (h8.symm ▸ hf') hc0, ?_⟩
      rw [h8, hp]
      exact ⟨fun hz => absurd hz (hpay c), fun hz => Bool.noConfusion (hiff.mpr hz.2)⟩

end Request

end Growth

theorem HeapOk.request_sums {h : KHeap} {live : List Alloc} {bs : List Block} {size : Nat}
    (H : HeapOk h live bs) (hmax : size ≤ maxHeapSize) (h8 : size % 8 = 0) :
    roundUp 8 size = size ∧ size + headerSize ≤ roundUp pageSize (size + headerSize) ∧
      h.heapEnd + roundUp pageSize (size + headerSize) < 2 ^ 32 := by
  have hend := H.end_le
  unfold heapMaxAddr heapStartAddr maxHeapSize at *
  rw [roundUp_of_lt (by omega), roundUp_of_lt (by unfold headerSize pageSize; omega)]
  unfold headerSize pageSize
  omega

/-- **Growing is enough.** In every state that clients reach from a successful boot through requests
that do not wrap around and put no page table in the heap window, and for every multiple of 8 up to
16 MB: when `heap_expand` for it returns 1 the search succeeds, and `kmalloc` answers `NULL` exactly
when no block fits and the limit would be passed or the frames run out. -/
theorem expansion_suffices {L : Layout} {m : Bytes} {a a' e : Answers} {h : KHeap}
    {rs : List (Request Answers)} {s : HeapState} {size : Nat} (ha : a.Quiet L)
    (hboot : bootHeap L m a = some (true, h, a'))
    (hrun : Run (request (heapEnv L))
      (fun s r => r.Proper s ∧ NoWrap s.heap r.bytes ∧ r.Meets (Answers.Quiet L)) ⟨h, []⟩ rs s)
    (he : e.Quiet L) (hmin : 8 ≤ size) (hmax : size ≤ maxHeapSize) (h8 : size % 8 = 0) :
    (∃ ok h' e', heapExpand (heapEnv L) s.heap e (size + headerSize) = some (ok, h', e') ∧
      (ok = true → ∃ block, block ≠ 0 ∧
        findFreeBlock h'.mem size walkFuel h'.firstBlock = some block)) ∧
    ∃ p h' e', kmalloc (heapEnv L) s.heap e size = some (p, h', e') ∧
      (p = 0 ↔ findFreeBlock s.heap.mem size walkFuel s.heap.firstBlock = some 0 ∧
        (s.heap.heapMax < s.heap.heapEnd + roundUp pageSize (size + headerSize) ∨
          RunsOut (heapEnv L) e s.heap.mem s.heap.heapEnd
            (roundUp pageSize (size + headerSize) / pageSize))) := by
  obtain ⟨⟨bs, H⟩, hT⟩ := (heapEnv_calls L).run (bootHeap_inv ha.1 ha.2 hboot) hrun
  have hI := tablesQuiet_of he.1 he.2 hT
  obtain ⟨hround, hle, hwrap⟩ := H.request_sums hmax h8
  exact ⟨H.expand_finds (heapEnv_quiet L) hI hle hwrap,
    H.kmalloc_null_iff (heapEnv_quiet L) hI hle hwrap (by omega) hround⟩

/-- The theorem after a first request, for one of 2 MB that finds no frame. -/
theorem expansion_suffices_after_first : ∃ h a' s,
    bootHeap sampleLayout (fun _ => 0) sampleBoot = some (true, h, a') ∧
    request (heapEnv sampleLayout) ⟨h, []⟩ firstRequest = some s ∧
    ∃ p h' e', kmalloc (heapEnv sampleLayout) s.heap ⟨[], []⟩ 0x200000 = some (p, h', e') ∧
      (p = 0 ↔ findFreeBlock s.heap.mem 0x200000 walkFuel s.heap.firstBlock = some 0 ∧
        (s.heap.heapMax < s.heap.heapEnd + roundUp pageSize (0x200000 + headerSize) ∨
          RunsOut (heapEnv sampleLayout) ⟨[], []⟩ s.heap.mem s.heap.heapEnd
            (roundUp pageSize (0x200000 + headerSize) / pageSize))) := by
  obtain ⟨hf, ho, -⟩ := sampleBoot_ok
  obtain ⟨h, a', s, hboot, hs, hr, -⟩ := firstRequest_served
  have hquiet : Answers.Quiet sampleLayout ⟨[], []⟩ :=
    ⟨noAnswers_fromPmm _, noAnswers_tablesOffHeap⟩
  exact ⟨h, a', s, hboot, hs, (expansion_suffices ⟨hf, ho⟩ hboot (.cons hr hs (.nil s)) hquiet
    (by decide) (by decide) (by decide)).2⟩

/-! ## A page table entry in a link -/

section Through

variable {m : Bytes} {e q a size n : Nat} {bs : List Block}

theorem findFreeBlock_through (h : Seg m e q a bs) (ha : 0 < a)
    (hbs : ∀ b ∈ bs, fits size b = false) :
    findFreeBlock m size (n + bs.length) (link q a bs) = findFreeBlock m size n q := by
  induction bs generalizing a with
  | nil => rfl
  | cons b bs ih =>
    obtain ⟨rfl, hh, hs⟩ := h
    have hne : b.addr ≠ 0 := Nat.ne_of_gt ha
    have hpos : 0 < b.fin := Nat.add_pos_left (Nat.add_pos_left ha _) _
    have hb : ¬ fits size b = true := Bool.eq_false_iff.mp (hbs b (List.mem_cons_self ..))
    rw [link_cons, List.length_cons, ← Nat.add_assoc, findFreeBlock, if_neg hne,
      if_neg (mt hh.fits_iff.mp hb), hh.next]
    exact ih hs hpos fun c hc => hbs c (List.mem_cons_of_mem b hc)

theorem lastBlock_through (h : Seg m e q a bs) (ha : 0 < a) (hq : q ≠ 0) :
    lastBlock m (n + bs.length) (link q a bs) = lastBlock m n q := by
  induction bs generalizing a with
  | nil => rfl
  | cons b bs ih =>
    obtain ⟨rfl, hh, hs⟩ := h
    have hpos : 0 < b.fin := Nat.add_pos_left (Nat.add_pos_left ha _) _
    have hnext : link q b.fin bs ≠ 0 := by
      cases bs with
      | nil => exact hq
      | cons => exact Nat.ne_of_gt hpos
    rw [link_cons, List.length_cons, ← Nat.add_assoc, lastBlock, hh.next, if_neg hnext]
    exact ih hs hpos

end Through

/-- The heap window has the static tables only and none is to come, and memory below the kernel is
as in `m₀`. -/
structure LowKept (L : Layout) (m₀ : Bytes) (a : Answers) (m : Bytes) : Prop where
  noNew : NoNewTables L a m
  static : ∀ j < 4, load32 m (L.pageDirectory + 4 * (768 + j)) = staticPde L j
  low : ∀ x < kernelVirtualBase, m x = m₀ x

section Low

variable {L : Layout} {m₀ m m' : Bytes} {a a' : Answers}

theorem LowKept.frame (h : LowKept L m₀ a m)
    (hag : AgreeOn m m' L.pageDirectory (L.pageDirectory + pageSize))
    (hlow : ∀ x < kernelVirtualBase, m' x = m x) : LowKept L m₀ a m' where
  noNew := h.noNew.frame hag
  static j hj := by
    rw [load32_congr (hag.mono (by omega) (by unfold pageSize; omega))]
    exact h.static j hj
  low x hx := (hlow x hx).trans (h.low x hx)

theorem LowKept.answers (hI : LowKept L m₀ a m) (ha : a'.tables = []) : LowKept L m₀ a' m :=
  ⟨⟨hI.noNew.1, ha, hI.noNew.2.2⟩, hI.static, hI.low⟩

theorem heapEnv_lowKept (L : Layout) (m₀ : Bytes) :
    QuietEnv (heapEnv L) heapMaxAddr fun _ => LowKept L m₀ where
  refuse h _ := h.answers h.noNew.2.1
  map := by
    rintro v ⟨ps, ts⟩ m hI - h1 h2 -
    obtain rfl : ts = [] := hI.noNew.2.1
    show ∃ e' m', (pagingMapPage flatMem L ⟨m, []⟩ v (popFrame ps).1 _).map _ = some (e', m') ∧ _
    generalize (popFrame ps).1 = p
    obtain ⟨hs1, hs2⟩ := pdIndex_heap h1 h2
    by_cases hpr : isPresent (load32 m (pdeAddr L v)) = true
    · rw [mapPage_present hpr]
      obtain ⟨hag, hpd⟩ := hI.noNew.1.pte_store h1 h2 hpr (newPte p (pagePresent ||| pageWrite))
      refine ⟨_, _, rfl, (hI.frame hpd fun x hx => store32_out (.inl ?_)).answers rfl, hag⟩
      -- the entry is in a static table, since the last 4 MB have none
      have hne : v / 2 ^ 22 ≠ 772 := by
        intro heq
        rw [pdeAddr, heq, hI.noNew.2.2] at hpr
        exact absurd hpr (by decide)
      obtain ⟨j, hj⟩ : ∃ j, v / 2 ^ 22 = 768 + j := ⟨v / 2 ^ 22 - 768, by omega⟩
      have hpage := (tablePage_staticPde (L := L) (t := j) (by omega)).2
      have hge := L.pageTables_ge
      rw [pteAddr, pdeAddr, hj, hI.static j (by omega), hpage]
      unfold kernelVirtualBase at hx
      omega
    · rw [mapPage_noTable (Bool.eq_false_iff.mpr hpr) rfl]
      exact ⟨_, _, rfl, hI.answers rfl, .refl _ _ _⟩
  frame hI hout := by
    refine hI.frame (agree_pageDirectory hout) fun x hx => hout x fun hw => ?_
    unfold InWin heapStartAddr at hw
    unfold kernelVirtualBase at hx
    omega

theorem bootHeap_lowKept {h : KHeap} (ha : a.tables = [])
    (hb : bootHeap L m₀ a = some (true, h, a')) :
    HeapOk h [] [bootBlock] ∧ LowKept L m₀ a' h.mem := by
  obtain ⟨m₁, ht, hstatic, habs, hlow⟩ := pagingInit_flat (L := L) m₀ []
  rw [bootHeap, ht] at hb
  refine kheapInit_ok (heapEnv_lowKept L m₀) (by decide) ?_ hb
  refine ⟨⟨(pagingInit_tablesOk ht).1, ha, habs⟩, hstatic, fun x hx => hlow x ?_⟩
  unfold kernelVirtualBase at hx
  omega

theorem LowKept.kmalloc {h h' : KHeap} {live : List Alloc} {bs : List Block} {p n : Nat}
    (hI : LowKept L m₀ a h.mem) (H : HeapOk h live bs) (hn : n ≤ maxHeapSize)
    (hk : Heap.kmalloc (heapEnv L) h a n = some (p, h', a')) : LowKept L m₀ a' h'.mem := by
  obtain ⟨_, _, _, hk', ⟨_, hI'⟩, -⟩ := kmalloc_ok (heapEnv_lowKept L m₀) H hI (H.noWrap hn) id
  rw [hk, Option.some.injEq] at hk'
  cases hk'
  exact hI'

end Low

/-! ## The smallest request fails -/

/-- The block after `bigBlock`, so long that the link of the next header starts a page. -/
def beforeStray : Block := ⟨bigBlock.fin, 4064, false⟩

/-- The last block, in use; its link is the word at `0xC0F00000`. -/
def strayTaken : Block := ⟨beforeStray.fin, 1048572, false⟩

/-- Twelve bytes below the kernel that read as a free block whose size wraps around when a page is
added. -/
def lowBlock : Block := ⟨0xEFF003, 0xFFFFF000, true⟩

/-- A frame for the page, and one for its table. -/
def strayAnswers : Answers := ⟨[0xEFF000], [0xF00000]⟩

section Stray

variable {L : Layout} {h : KHeap} {live : List Alloc}

/-- The first page at `0xC1000000` gets its table at `0xC0F00000`: the page is cleared, and its
first word is the entry for the frame `0xEFF000`. -/
theorem map_stray {m : Bytes} (habs : load32 m (L.pageDirectory + 4 * 772) = 2) : ∃ a' m',
    mapHeapPages (heapEnv L) strayAnswers m 0xC1000000 1 = some (true, a', m') ∧
      load32 m' 0xC0F00000 = 0xEFF003 ∧
      ∀ x, ¬ InWin 0xC0F00000 0xC0F01000 x →
        ¬ InWin L.pageDirectory (L.pageDirectory + pageSize) x → m' x = m x := by
  have hpde : pdeAddr L 0xC1000000 = L.pageDirectory + 4 * 772 := rfl
  have hP : physToVirt 0xF00000 = 0xC0F00000 := by decide
  obtain ⟨hb, hpr, htp⟩ := newPde_heap (t := 0xF00000) (by decide) (by decide)
  have hload : load32 (newTableMem L m 0xC1000000 0xF00000 (pagePresent ||| pageWrite))
      (pdeAddr L 0xC1000000) = newPde 0xF00000 (pagePresent ||| pageWrite) :=
    load32_store32 _ _ hb
  have hpte : pteAddr (newPde 0xF00000 (pagePresent ||| pageWrite)) 0xC1000000 = 0xC0F00000 := by
    rw [pteAddr, htp, hP]
    rfl
  have hmap : pagingMapPage flatMem L ⟨m, [0xF00000]⟩ 0xC1000000 0xEFF000
      (pagePresent ||| pageWrite) =
      some ⟨store32 (newTableMem L m 0xC1000000 0xF00000 (pagePresent ||| pageWrite)) 0xC0F00000
        (newPte 0xEFF000 (pagePresent ||| pageWrite)), []⟩ := by
    rw [mapPage_newTable (by rw [hpde, habs]; rfl) (by decide) (by exact hload ▸ hpr)]
    show pagingMapPage flatMem L ⟨newTableMem L m 0xC1000000 0xF00000 _, []⟩ _ _ _ = _
    rw [mapPage_present (by rw [hload]; exact hpr), hload, hpte]
  refine ⟨_, _, by rw [strayAnswers, mapHeapPages_cons (by decide), hmap]; rfl,
    load32_store32 _ _ (by decide), fun x hx hd => ?_⟩
  have hpage := L.pageDirectory_le
  unfold InWin pageSize at *
  show store32 (newTableMem L m 0xC1000000 0xF00000 _) 0xC0F00000 _ x = m x
  rw [store32_out (by omega), newTableMem, store32_out (by rw [hpde]; omega),
    fillMem_out (by rw [hP]; unfold pageEntries; omega)]

theorem stray_seg {m₁ m₂ : Bytes} (H : HeapOk h live [bigBlock, beforeStray, strayTaken])
    (hword : load32 m₁ 0xC0F00000 = lowBlock.addr)
    (hsame : ∀ x, 0xC0400000 ≤ x → x < 0xC0F00000 → m₁ x = h.mem x)
    (hm₂ : ∀ x, 0xC0400000 ≤ x → m₂ x = m₁ x) :
    Seg m₂ 0xC1000000 lowBlock.addr heapStartAddr [bigBlock, beforeStray, strayTaken] := by
  obtain ⟨-, hbig, -, hbefore, -, hlast, -⟩ := H.seg
  have hag : ∀ lo hi, 0xC0400000 ≤ lo → hi ≤ 0xC0F00000 → AgreeOn h.mem m₂ lo hi := by
    intro lo hi hlo hhi x hx
    unfold InWin at hx
    rw [hm₂ x (by omega), hsame x (by omega) (by omega)]
  refine ⟨rfl, hbig.frame (hag _ _ (by decide) (by decide)), rfl,
    hbefore.frame (hag _ _ (by decide) (by decide)), rfl, ⟨?_, ?_, ?_⟩,
    show strayTaken.fin = 0xC1000000 by decide⟩
  · exact (load32_congr (hag _ _ (by decide) (by decide))).trans hlast.size
  · exact (load32_congr (hag _ _ (by decide) (by decide))).trans hlast.isFree
  · have hnext : strayTaken.addr + 8 = 0xC0F00000 := by decide
    refine (load32_congr fun x hx => hm₂ x ?_).trans hword
    unfold InWin at hx
    omega

/-- **The request for 8 bytes**: both walks of `kmalloc` leave the heap at the last link. -/
theorem strayRequest (H : HeapOk h live [bigBlock, beforeStray, strayTaken])
    (habs : load32 h.mem (L.pageDirectory + 4 * 772) = 2) (hlow : Hdr h.mem lowBlock 0) :
    ∃ h' a', heapExpand (heapEnv L) h strayAnswers (8 + headerSize) = some (true, h', a') ∧
      findFreeBlock h'.mem 8 walkFuel h'.firstBlock = some 0 := by
  have hend : strayTaken.fin = h.heapEnd := H.seg.tiles.2.2.2
  have hend' : h.heapEnd = 0xC1000000 := hend.symm.trans (by decide)
  have hpd := L.pageDirectory_ge
  have hpe := L.pageDirectory_le
  have hke := L.kernelEnd_le
  obtain ⟨a', m₁, hmap, hword, hkeep⟩ := map_stray (L := L) habs
  have hsame : ∀ x, x < 0xC0100000 ∨ 0xC0400000 ≤ x ∧ x < 0xC0F00000 → m₁ x = h.mem x := by
    intro x hx
    refine hkeep x ?_ ?_ <;> unfold InWin pageSize at * <;> omega
  have hseg : ∀ m₂ : Bytes, (∀ x, 0xC0400000 ≤ x → m₂ x = m₁ x) →
      Seg m₂ 0xC1000000 lowBlock.addr heapStartAddr [bigBlock, beforeStray, strayTaken] :=
    fun m₂ hm₂ => stray_seg H hword (fun x h1 h2 => hsame x (.inr ⟨h1, h2⟩)) hm₂
  have hlow₁ : Hdr m₁ lowBlock 0 := by
    refine hlow.frame fun x hx => hsame x (.inl ?_)
    have hfin : lowBlock.addr + headerSize = 0xEFF00F := rfl
    unfold InWin at hx
    omega
  have hfuel : walkFuel = 2 ^ 32 - 3 + [bigBlock, beforeStray, strayTaken].length := by decide
  have hlast : lastBlock m₁ walkFuel h.firstBlock = some lowBlock.addr := by
    have hone : Seg m₁ lowBlock.fin 0 lowBlock.addr ([] ++ [lowBlock]) := ⟨rfl, hlow₁, rfl⟩
    rw [H.first_eq, hfuel]
    exact (lastBlock_through (hseg m₁ fun _ _ => rfl) (by decide) (by decide)).trans
      (lastBlock_seg hone (by decide) (by decide))
  -- the size of the block there wraps around
  have hgrown : appendSpace { h with mem := m₁ } pageSize = some { h with
      mem := setSize m₁ lowBlock.addr 0, heapEnd := 0xC1001000 } := by
    simp only [appendSpace, hlast, Option.bind_eq_bind, Option.bind_some, hlow₁.isFree, hlow₁.size,
      hend']
    rfl
  refine ⟨_, a', heapExpand_mapped (n := pageSize) (by decide) ?_ ?_ hgrown, ?_⟩
  · rw [hend', H.max_eq]
    decide
  · rw [hend']
    exact hmap
  · have hstore : ∀ x, 0xC0400000 ≤ x → setSize m₁ lowBlock.addr 0 x = m₁ x := by
      intro x hx
      have haddr : lowBlock.addr = 0xEFF003 := rfl
      exact store32_out (.inr (by omega))
    have hzero : Seg (setSize m₁ lowBlock.addr 0) (lowBlock.addr + headerSize) 0 lowBlock.addr
        [⟨lowBlock.addr, 0, true⟩] :=
      ⟨rfl, ⟨load32_store32 _ _ (by decide),
        (load32_store32_miss _ (.inr (by decide))).trans hlow₁.isFree,
        (load32_store32_miss _ (.inr (by decide))).trans hlow₁.next⟩, rfl⟩
    rw [H.first_eq, hfuel]
    exact (findFreeBlock_through (hseg _ hstore) (by decide) (by decide)).trans
      (findFreeBlock_seg hzero (by decide) (by decide))

end Stray

/-- Memory at boot: blank, but for the bytes of `lowBlock`. -/
def strayMem : Bytes := writeHeader (fun _ => 0) 0xEFF003 0xFFFFF000 1 0

theorem strayMem_low : Hdr strayMem lowBlock 0 where
  size := (load32_store32_miss _ (.inl (by decide))).trans
    ((load32_store32_miss _ (.inl (by decide))).trans (load32_store32 _ _ (by decide)))
  isFree := (load32_store32_miss _ (.inl (by decide))).trans (load32_store32 _ _ (by decide))
  next := load32_store32 _ _ (by decide)

/-- The clients take 11 MB less a page, 4064 bytes, and all that is left. -/
def strayRequests : List (Request Answers) :=
  [.kmalloc 11530240 sampleBig, .kmalloc 4064 ⟨[], []⟩, .kmalloc 1048568 ⟨[], []⟩]

/-- **Growing is not enough when a page table lies in the heap.** From a successful boot three
clients take the heap up to `0xC1000000`. For a request of 8 bytes `heap_expand` finds the frame
`0xEFF000` for the page there and `0xF00000` for its table, whose first entry `0xEFF003` is written
over the link of the last header. It returns 1, and the search finds nothing: `kmalloc` answers
`NULL` with 4 MB to the limit. -/
theorem expansion_defeated : ∃ h a' s h' e',
    bootHeap sampleLayout strayMem sampleBoot = some (true, h, a') ∧
    Run (request (heapEnv sampleLayout)) (fun s r => r.Proper s ∧ NoWrap s.heap r.bytes ∧
      r.Meets (Answers.FromPmm sampleLayout)) ⟨h, []⟩ strayRequests s ∧
    strayAnswers.FromPmm sampleLayout ∧
    heapExpand (heapEnv sampleLayout) s.heap strayAnswers (8 + headerSize) = some (true, h', e') ∧
    findFreeBlock h'.mem 8 walkFuel h'.firstBlock = some 0 ∧
    kmalloc (heapEnv sampleLayout) s.heap strayAnswers 8 = some (0, h', e') ∧
    s.heap.heapEnd + 1024 * pageSize = s.heap.heapMax := by
  obtain ⟨hf, ho, -⟩ := sampleBoot_ok
  obtain ⟨h, a', hboot⟩ := sampleBoot_succeeds strayMem
  obtain ⟨H, hI⟩ := bootHeap_lowKept rfl hboot
  obtain ⟨hf₁, h0₁, hn₁⟩ := sampleBig_ok
  have hI₀ : LowKept sampleLayout strayMem sampleBig h.mem := hI.answers rfl
  obtain ⟨h₁, a₁, hk₁, H₁, -⟩ := bigRequest H hI₀.noNew hn₁ h0₁
  have hI₁ : LowKept sampleLayout strayMem ⟨[], []⟩ h₁.mem :=
    (hI₀.kmalloc H (by decide) hk₁).answers rfl
  have H₁' : HeapOk h₁ [⟨bigBlock.payload, 11530240⟩] ([bigBlock] ++ restBlock :: []) := H₁
  obtain ⟨h₂, hk₂, H₂⟩ := kmalloc_serves (n := 4064) (heapEnv sampleLayout) ⟨[], []⟩ H₁'
    (by decide) (by decide) rfl
  have hI₂ := hI₁.kmalloc H₁ (by decide) hk₂
  have H₂' : HeapOk h₂ [⟨restBlock.payload, 4064⟩, ⟨bigBlock.payload, 11530240⟩]
      ([bigBlock, beforeStray] ++ ⟨beforeStray.fin, 1048572, true⟩ :: []) := H₂
  obtain ⟨h₃, hk₃, H₃⟩ := kmalloc_serves (n := 1048568) (heapEnv sampleLayout) ⟨[], []⟩ H₂'
    (by decide) (by decide) rfl
  have hI₃ := hI₂.kmalloc H₂' (by decide) hk₃
  have H₃' : HeapOk h₃ [⟨strayTaken.payload, 1048568⟩, ⟨restBlock.payload, 4064⟩,
      ⟨bigBlock.payload, 11530240⟩] [bigBlock, beforeStray, strayTaken] := H₃
  have hlow : Hdr h₃.mem lowBlock 0 := by
    refine strayMem_low.frame fun x hx => hI₃.low x ?_
    have hfin : lowBlock.addr + headerSize = 0xEFF00F := rfl
    unfold InWin at hx
    unfold kernelVirtualBase
    omega
  obtain ⟨h', e', hx, hfind⟩ := strayRequest H₃' hI₃.noNew.2.2 hlow
  have hnone := H₃'.find 8
  rw [show [bigBlock, beforeStray, strayTaken].find? (fits 8) = none from rfl] at hnone
  refine ⟨h, a', ⟨h₃, [⟨strayTaken.payload, 1048568⟩, ⟨restBlock.payload, 4064⟩,
    ⟨bigBlock.payload, 11530240⟩]⟩, h', e', hboot, ?_, ?_, hx, hfind, ?_, ?_⟩
  · have hany : Answers.FromPmm sampleLayout ⟨[], []⟩ := noAnswers_fromPmm _
    have hw₁ : NoWrap h 11530240 := H.noWrap (by decide)
    have hw₂ : NoWrap h₁ 4064 := H₁.noWrap (by decide)
    have hw₃ : NoWrap h₂ 1048568 := H₂'.noWrap (by decide)
    exact .cons ⟨trivial, hw₁, hf₁⟩ (by rw [request, hk₁]; rfl) <|
      .cons ⟨trivial, hw₂, hany⟩ (by rw [request, hk₂]; rfl) <|
      .cons ⟨trivial, hw₃, hany⟩ (by rw [request, hk₃]; rfl) (.nil _)
  · intro f hf
    simp only [strayAnswers, List.cons_append, List.nil_append, List.mem_cons, List.not_mem_nil,
      or_false] at hf
    rcases hf with rfl | rfl <;> exact .inr (by decide)
  · have hr : roundUp 8 8 = 8 := by decide
    have hw : w32 (8 + headerSize) = 8 + headerSize := by decide
    simp only [kmalloc, hr, hw, hnone, hx, hfind, Option.bind_eq_bind, Option.bind_some,
      Option.elim_none, ne_eq, not_true_eq_false, ↓reduceIte, OfNat.ofNat_ne_zero]
  · have hend : strayTaken.fin = h₃.heapEnd := H₃'.seg.tiles.2.2.2
    rw [H₃'.max_eq, ← hend]
    decide

end TupleOS.Heap
