import TupleOS.Heap.Aligned
import TupleOS.Heap.Overrun

/-!
# Coalescing and accounting

Splitting, growing and freeing each make free blocks, and only `kfree` merges. No two
neighbours of the list are ever both free all the same, and `total_allocated` is the sum
of the allocated sizes, so that a heap with nothing live is one free block
(`heap_accounted`). It takes headers that nobody else writes: a page table in the heap
window wipes out a header, and its block is missing from the sum (`table_wipes_header`).
-/

namespace TupleOS.Heap

open TupleOS.Base TupleOS.Memory

/-- The list in memory has no two free neighbours and its allocated sizes sum up to
`total_allocated`; with nothing live it is one free block. -/
structure Accounted (s : HeapState) (bs : List Block) : Prop where
  list : readBlocks s.heap.mem walkFuel s.heap.firstBlock = some bs
  coalesced : bs.IsChain fun b c => b.free = false ∨ c.free = false
  used : s.heap.totalAllocated = usedBytes bs
  emptied : s.live = [] → kheapGetUsed s.heap = 0 ∧
    bs = [⟨s.heap.heapStart, s.heap.heapEnd - s.heap.heapStart - headerSize, true⟩]

section Accounted

variable {L : Layout} {s : HeapState} {bs : List Block}

theorem coalesced_free (hco : Coalesced bs) (hfree : ∀ b ∈ bs, b.free = true) (hne : bs ≠ []) :
    ∃ b, bs = [b] ∧ b.free = true := by
  match bs, hco, hfree, hne with
  | [b], _, hfree, _ => exact ⟨b, rfl, hfree b (by simp)⟩
  | b :: c :: bs, hco, hfree, _ =>
    rcases (List.isChain_cons_cons.mp hco).1 with h | h
    · rw [hfree b (by simp)] at h; cases h
    · rw [hfree c (by simp)] at h; cases h

theorem HeapOk.accounted (H : HeapOk s.heap s.live bs) : Accounted s bs where
  list := H.read.1
  coalesced := H.coalesced
  used := H.used
  emptied hlive := by
    have hfree : ∀ b ∈ bs, b.free = true := by
      intro b hb
      by_contra hbf
      obtain ⟨l, hl, -⟩ := H.block_live b hb (Bool.eq_false_iff.mpr hbf)
      rw [hlive] at hl
      cases hl
    obtain ⟨b, rfl, hb⟩ := coalesced_free H.coalesced hfree H.ne_nil
    obtain ⟨haddr, -, hfin⟩ := H.seg
    have hfin : b.addr + headerSize + b.size = s.heap.heapEnd := hfin
    refine ⟨?_, ?_⟩
    · rw [kheapGetUsed, H.used]
      simp [hb]
    · obtain ⟨addr, size, free⟩ := b
      rw [H.start_eq]
      simp only at haddr hb hfin
      rw [haddr, hb, show size = s.heap.heapEnd - heapStartAddr - headerSize by omega]

/-- **Coalescing and accounting.** From a successful boot, through any calls by which no
page table is put in the heap window, no two neighbours of the list are both free, the
counter is the sum of the allocated sizes, and with nothing live the heap is one block. -/
theorem heap_accounted {m : Bytes} {a a' : Answers} {h : KHeap} {cs : List HeapCall}
    (hf : a.FromPmm L) (ho : a.TablesOffHeap) (hboot : bootHeap L m a = some (true, h, a'))
    (hrun : Run (heapStep L) (fun s c => c.Allowed L s ∧ c.TablesOffHeap) ⟨h, []⟩ cs s) :
    ∃ bs, Accounted s bs := by
  obtain ⟨⟨bs, H⟩, -⟩ := (bootHeap_inv hf ho hboot).run hrun
  exact ⟨bs, H.accounted⟩

/-- The theorem after both are freed: the heap is one block again. -/
theorem heap_accounted_emptied : ∃ h a' s bs,
    bootHeap sampleLayout (fun _ => 0) sampleBoot = some (true, h, a') ∧
    Run (heapStep sampleLayout) (fun s c => c.Allowed sampleLayout s ∧ c.TablesOffHeap) ⟨h, []⟩
      [.kmalloc 8 ⟨[], []⟩, .kmalloc 8 ⟨[], []⟩, .kfree 0xC040000C, .kfree 0xC0400020] s ∧
    s.live = [] ∧ Accounted s bs := by
  obtain ⟨hf, ho, -⟩ := sampleBoot_ok
  obtain ⟨h, a', hboot⟩ := sampleBoot_succeeds fun _ => 0
  obtain ⟨h₁, h₂, h₃, h₄, t⟩ :=
    two_served (heapEnv sampleLayout) ⟨[], []⟩ (bootHeap_ok hf ho hboot).1
  have hs₃ : heapStep sampleLayout ⟨h₂, [⟨0xC0400020, 8⟩, ⟨0xC040000C, 8⟩]⟩ (.kfree 0xC040000C) =
      some ⟨h₃, [⟨0xC0400020, 8⟩]⟩ := by rw [heapStep, t.call₃]; rfl
  have hs₄ : heapStep sampleLayout ⟨h₃, [⟨0xC0400020, 8⟩]⟩ (.kfree 0xC0400020) =
      some ⟨h₄, []⟩ := by rw [heapStep, t.call₄]; rfl
  have hfree : Run (heapStep sampleLayout) (fun s c => c.Allowed sampleLayout s ∧ c.TablesOffHeap)
      ⟨h₂, [⟨0xC0400020, 8⟩, ⟨0xC040000C, 8⟩]⟩ [.kfree 0xC040000C, .kfree 0xC0400020] ⟨h₄, []⟩ :=
    .cons ⟨⟨⟨0xC040000C, 8⟩, by simp, rfl⟩, trivial⟩ hs₃ <|
      .cons ⟨⟨⟨0xC0400020, 8⟩, by simp, rfl⟩, trivial⟩ hs₄ (.nil _)
  have hrun := t.run.append hfree
  obtain ⟨bs, hbs⟩ := heap_accounted hf ho hboot hrun
  exact ⟨h, a', ⟨h₄, []⟩, bs, hboot, hrun, rfl, hbs⟩

end Accounted

/-! ## A page table over a header -/

section Wiped

variable {L : Layout} {h : KHeap} {live : List Alloc}

/-- What is left after `bigBlock`, handed out whole. -/
def restTaken : Block := ⟨bigBlock.fin, 1052648, false⟩

def restWiped : Block := ⟨bigBlock.fin, 0, false⟩

theorem mapHeapPages_short {f : Nat} {ts : List Nat} {m m' : Bytes} {base : Nat} {a' : Answers}
    (hf : f ≠ 0) (he : mapHeapPages (heapEnv L) ⟨[f], ts⟩ m base 1 = some (true, a', m'))
    (n : Nat) :
    ∃ a'', mapHeapPages (heapEnv L) ⟨[f], ts⟩ m base (n + 2) = some (false, a'', m') := by
  rw [mapHeapPages_cons hf] at he ⊢
  obtain ⟨t, ht, he⟩ := Option.bind_eq_some_iff.mp he
  cases he
  exact ⟨_, by rw [ht]; rfl⟩

/-- The next request finds no room and grows past `0xC1000000`; the table for the page
there comes from the frame at `0xEFF000`, and there is no frame for a second page. -/
theorem wipingRequest {f : Nat} (H : HeapOk h live [bigBlock, restTaken])
    (habs : load32 h.mem (L.pageDirectory + 4 * 772) = 2) (hf : f ≠ 0) :
    ∃ m' a', kmalloc (heapEnv L) h ⟨[f], [0xEFF000]⟩ 8192 = some (0, { h with mem := m' }, a') ∧
      readBlocks m' walkFuel h.firstBlock = some [bigBlock, restWiped] := by
  have hfind := H.find 8192
  rw [show [bigBlock, restTaken].find? (fits 8192) = none from rfl] at hfind
  have hend : restTaken.fin = h.heapEnd := H.seg.tiles.2.2
  have hend' : h.heapEnd = 772 * 2 ^ 22 := hend.symm.trans (by decide)
  have hd := L.pageDirectory_le
  have he := L.kernelEnd_le
  have hP : physToVirt 0xEFF000 = 0xC0EFF000 := by decide
  have hlen : 0 + 1 ≤ [f].length := Nat.le_refl 1
  obtain ⟨a₁, m₁, hmap, hzero, hkeep⟩ := mapHeapPages_newTable (L := L) (s := 772) (t := 0xEFF000)
    (by omega) (by decide) (by decide) (by omega) (.inr (by rw [hP]; omega)) (by omega) hlen
    (by simpa using hf) (m := h.mem) (by rw [habs]; rfl)
  rw [← hend'] at hmap
  obtain ⟨a₂, hshort⟩ := mapHeapPages_short hf hmap 1
  rw [hP] at hzero hkeep
  refine ⟨m₁, a₂, kmalloc_refused (by decide) hfind ?_, ?_⟩
  · rw [show w32 (roundUp 8 8192 + headerSize) = 8204 by decide]
    have hmap3 : mapHeapPages (heapEnv L) ⟨[f], [0xEFF000]⟩ h.mem h.heapEnd
        (3 * pageSize / pageSize) = some (false, a₂, m₁) := hshort
    have hlim : ¬ w32 (h.heapEnd + 3 * pageSize) > h.heapMax := by
      rw [hend', H.max_eq]
      decide
    simp only [heapExpand, show roundUp pageSize 8204 = 3 * pageSize by decide, hlim, hmap3,
      ↓reduceIte, Option.bind_eq_bind, Option.bind_some, Bool.false_eq_true]
  · have hseg : Seg m₁ restWiped.fin 0 heapStartAddr [bigBlock, restWiped] := by
      obtain ⟨-, hbig, -⟩ := H.seg
      have hword : ∀ x, 0xC0EFF004 ≤ x → x + 4 ≤ 0xC0F00000 → load32 m₁ x = 0 :=
        fun x h1 h2 => load32_zeros fun y hy => hzero y (by unfold InWin pageSize at *; omega)
      refine ⟨rfl, hbig.frame fun x hx => hkeep x ?_ ?_, rfl, ⟨?_, ?_, ?_⟩, rfl⟩
      · unfold InWin bigBlock heapStartAddr headerSize pageSize at *
        simp only at hx
        omega
      · unfold InWin bigBlock heapStartAddr headerSize at *
        simp only at hx
        omega
      all_goals exact hword _ (by decide) (by decide)
    rw [H.first_eq]
    exact readBlocks_seg hseg (by decide) (by decide)

theorem restRequest (H : HeapOk h live [bigBlock, restBlock]) {a : Answers}
    (hN : NoNewTables L a h.mem) :
    ∃ h', kmalloc (heapEnv L) h a 1052648 = some (restTaken.payload, h', a) ∧
      HeapOk h' (⟨restTaken.payload, 1052648⟩ :: live) [bigBlock, restTaken] ∧
      NoNewTables L a h'.mem := by
  have H₀ : HeapOk h live ([bigBlock] ++ restBlock :: []) := H
  obtain ⟨h', hk, H'⟩ := kmalloc_serves (n := 1052648) (heapEnv L) a H₀ (by decide) (by decide) rfl
  obtain ⟨p, h'', a', hk', ⟨-, hN'⟩, -⟩ :=
    kmalloc_ok (n := 1052648) (heapEnv_noNewTables L) H hN (H.noWrap (by decide)) id
  rw [hk, Option.some.injEq] at hk'
  cases hk'
  exact ⟨h', hk, H', hN'⟩

end Wiped

/-- The frame for the last request, and the frame for the table of its page. -/
def sampleWipe : Answers := ⟨[0xEFE000], [0xEFF000]⟩

/-- The clients take 11 MB less a page, then all that is left, and ask for 8 KB more. -/
def wipeCalls : List HeapCall :=
  [.kmalloc 11530240 sampleBig, .kmalloc 1052648 ⟨[], []⟩, .kmalloc 8192 sampleWipe]

/-- **A page table wipes out a header**: `paging_map_page` clears the new table's frame at a
heap address where the header of a live block lies. The block then counts for nothing in
the list, and `total_allocated` still has its bytes. -/
theorem table_wipes_header : ∃ h a' s,
    bootHeap sampleLayout (fun _ => 0) sampleBoot = some (true, h, a') ∧
    Run (heapStep sampleLayout) (fun s c => c.Allowed sampleLayout s) ⟨h, []⟩ wipeCalls s ∧
    ¬ ∃ bs, Accounted s bs := by
  obtain ⟨hf, ho, -⟩ := sampleBoot_ok
  obtain ⟨h, a', hb⟩ := sampleBoot_succeeds fun _ => 0
  obtain ⟨H, hN⟩ := bootHeap_noNewTables rfl hb
  obtain ⟨hf₁, h0₁, hn₁⟩ := sampleBig_ok
  obtain ⟨h₁, a₁, hk₁, H₁, hN₁⟩ := bigRequest (a := sampleBig) H ⟨hN.1, rfl, hN.2.2⟩ hn₁ h0₁
  obtain ⟨h₂, hk₂, H₂, hN₂⟩ := restRequest (a := ⟨[], []⟩) H₁ ⟨hN₁.1, rfl, hN₁.2.2⟩
  obtain ⟨m₃, a₃, hk₃, hread⟩ := wipingRequest (f := 0xEFE000) H₂ hN₂.2.2 (by decide)
  refine ⟨h, a', _, hb, .cons ⟨by decide, by decide, hf₁⟩ (by rw [heapStep, hk₁]; rfl) <|
    .cons ⟨by decide, by decide, nofun⟩ (by rw [heapStep, hk₂]; rfl) <|
    .cons ⟨by decide, by decide, ?_⟩ (by rw [heapStep, sampleWipe, hk₃]; rfl) <| .nil _, ?_⟩
  · intro f hf
    simp only [sampleWipe, List.cons_append, List.nil_append, List.mem_cons, List.not_mem_nil,
      or_false] at hf
    rcases hf with rfl | rfl <;> exact .inr (by decide)
  · rintro ⟨bs, hbs⟩
    obtain rfl : [bigBlock, restWiped] = bs := Option.some.inj (hread.symm.trans hbs.list)
    have hsum : h₂.totalAllocated = usedBytes [bigBlock, restWiped] := hbs.used
    rw [H₂.used] at hsum
    exact absurd hsum (by decide)

end TupleOS.Heap
