import TupleOS.Heap.Integrity

/-!
# Page-aligned allocations

`kmalloc_aligned` asks for a page more than it needs and returns the first page
boundary in the payload (`kmallocAligned_ok`). `kfree` looks for the header right
before the pointer it gets, so it frees such a block exactly when the boundary is
the payload itself (`kfree_aligned_iff`).
-/

namespace TupleOS.Heap

open TupleOS.Base TupleOS.Memory

/-- `b` is an allocated block of the list that holds `n` bytes from `p`. -/
structure Backs (bs : List Block) (b : Block) (p n : Nat) : Prop where
  mem : b ∈ bs
  used : b.free = false
  lo : b.payload ≤ p
  hi : p + n ≤ b.fin

section

variable {L : Layout} {h : KHeap} {a : Answers} {live : List Alloc} {bs : List Block} {n : Nat}

/-- A request for `n` bytes at a page boundary: it returns; `NULL` leaves the list as
it was, and any other pointer is the first page boundary of a new block. -/
theorem kmallocAligned_ok (H : HeapOk h live bs) (hT : TablesOk L h.mem) (hf : a.FromPmm L)
    (ho : a.TablesOffHeap) (hn : NoWrap h (n + pageSize)) :
    ∃ p h' a', kmallocAligned (heapEnv L) h a n = some (p, h', a') ∧ TablesOk L h'.mem ∧
      KeepsPayloads h.mem h'.mem bs ∧ (p = 0 → HeapOk h' live bs) ∧
      (p ≠ 0 → ∃ live' bs' b, HeapOk h' live' bs' ∧ KeepsBlocks bs bs' ∧ Backs bs' b p n ∧
        p = roundUp pageSize b.payload ∧ ∀ c ∈ bs, c.free = false → c ≠ b) := by
  have hw : w32 (n + pageSize) = n + pageSize := w32_of_lt (by
    have := (hn.expandSize H.end_gt.le).1
    omega)
  obtain ⟨q, h', a', hk, ⟨-, hI⟩, hs⟩ := kmalloc_ok (heapEnv_quiet L) H
    (tablesQuiet_of hf ho hT) hn id
  by_cases hq : q = 0
  · exact ⟨0, h', a', by simp [kmallocAligned, hw, hk, hq], hI.1, hs.keeps, fun _ => hs.refused hq,
      fun hc => absurd rfl hc⟩
  · obtain ⟨bs', H', hkb⟩ := hs.granted hq
    obtain ⟨b, hb, hbf, hbp, hreq⟩ := H'.live_block ⟨q, n + pageSize⟩ List.mem_cons_self
    obtain ⟨hlo, hhi⟩ := H'.addr_pos hb
    have hend := H'.end_le
    have hbig : heapMaxAddr + 2 * pageSize < 2 ^ 32 := by decide
    have hst : 0 < heapStartAddr := by decide
    have hbfin : b.fin = b.payload + b.size := rfl
    have hbpa : b.payload = b.addr + headerSize := rfl
    simp only at hbp hreq
    have hru : q ≤ roundUp pageSize q ∧ roundUp pageSize q < q + pageSize := by
      rw [roundUp_of_lt (by omega)]
      unfold pageSize
      omega
    refine ⟨roundUp pageSize q, h', a', by simp [kmallocAligned, hw, hk, hq], hI.1, hs.keeps,
      fun hc => ?_, fun _ => ⟨_, bs', b, H', hkb, ⟨hb, hbf, by omega, by omega⟩, by rw [hbp], ?_⟩⟩
    · omega
    · -- the pointer of an older block is that of an older allocation
      rintro c hc hcf rfl
      obtain ⟨l, hl, hlp⟩ := H.block_live c hc hcf
      have hnd := H'.nodup
      rw [List.map_cons, List.nodup_cons] at hnd
      exact hnd.1 (List.mem_map.mpr ⟨l, hl, hlp.symm.trans hbp⟩)

theorem kmallocAligned_boot (H : HeapOk h [] [bootBlock]) (L : Layout) (a : Answers) :
    ∃ h', kmalloc (heapEnv L) h a 12288 = some (0xC040000C, h', a) ∧
      kmallocAligned (heapEnv L) h a 8192 = some (0xC0401000, h', a) ∧
      HeapOk h' [⟨0xC040000C, 12288⟩] (carve bootBlock 12288) := by
  have H₀ : HeapOk h [] ([] ++ bootBlock :: []) := H
  obtain ⟨h', hk, H'⟩ := kmalloc_serves (n := 12288) (heapEnv L) a H₀ (by decide) (by decide) rfl
  have hw : w32 (8192 + pageSize) = 12288 := by decide
  refine ⟨h', hk, ?_, H'⟩
  rw [kmallocAligned, hw, hk]
  rfl

end

/-! ## Giving aligned pointers back -/

/-- From `h` to `h'`, the block with payload `p` was given back: it is free, alone or
merged, in a list that tiles the heap; the counter drops by its size; and the other
blocks, of those that `other` selects, are as they were. -/
structure GivesBack (h h' : KHeap) (p : Nat) (other : Block → Prop) : Prop where
  freed : ∃ bs, readBlocks h'.mem walkFuel h'.firstBlock = some bs ∧
    Tiles h'.heapEnd h'.heapStart bs ∧ ∃ c ∈ bs, c.free = true ∧ c.addr ≤ p - headerSize ∧
      p + blockSize h.mem (p - headerSize) ≤ c.fin
  used : kheapGetUsed h' + blockSize h.mem (p - headerSize) = kheapGetUsed h
  others : ∀ bs, readBlocks h.mem walkFuel h.firstBlock = some bs → ∀ c ∈ bs, c.payload ≠ p →
    other c → AgreeOn h.mem h'.mem c.addr c.fin

/-- No free block ends where the block with payload `p` starts. -/
def NoFreeBefore (bs : List Block) (p : Nat) : Prop :=
  ∀ c ∈ bs, c.free = true → c.fin ≠ p - headerSize

section Lists

variable {m : Bytes} {e q : Nat}

theorem Seg.addr_word : ∀ {bs : List Block} {a : Nat}, Seg m e q a bs → WordSized bs → a % 4 = 0 →
    ∀ b ∈ bs, b.addr % 4 = 0
  | c :: bs, _, ⟨rfl, _, hs⟩, hw, ha, b, hb => by
    have hc := hw c List.mem_cons_self
    rcases List.mem_cons.mp hb with rfl | hb
    · exact ha
    · refine hs.addr_word (fun d hd => hw d (List.mem_cons_of_mem _ hd)) ?_ b hb
      unfold Block.fin headerSize
      omega

/-- Coalescing covers every block by one of its kind. -/
theorem coalesce_covers (bs : List Block) {a : Nat} (ht : Tiles e a bs) : ∀ b ∈ bs,
    ∃ c ∈ coalesce bs, c.free = b.free ∧ c.addr ≤ b.addr ∧ b.fin ≤ c.fin := by
  fun_induction coalesce bs generalizing a with
  | case1 =>
    intro d hd
    cases hd
  | case2 b =>
    intro d hd
    exact ⟨d, hd, rfl, Nat.le_refl _, Nat.le_refl _⟩
  | case3 b c bs hf ih =>
    obtain ⟨hb, hc⟩ := Bool.and_eq_true_iff.mp hf
    obtain ⟨hba, hca, ht⟩ := ht
    have hfin : (⟨b.addr, b.size + headerSize + c.size, true⟩ : Block).fin = c.fin := by
      simp only [Block.fin] at hca ⊢
      omega
    have ih := ih (a := a) ⟨hba, by rw [hfin]; exact ht⟩
    have hbf : b.fin = b.addr + headerSize + b.size := rfl
    have hcf : c.fin = c.addr + headerSize + c.size := rfl
    intro d hd
    obtain ⟨x, hx, hxf, hx1, hx2⟩ := ih _ List.mem_cons_self
    rw [hfin] at hx2
    simp only at hxf hx1
    rcases List.mem_cons.mp hd with rfl | hd
    · exact ⟨x, hx, by rw [hxf, hb], hx1, by omega⟩
    · rcases List.mem_cons.mp hd with rfl | hd
      · exact ⟨x, hx, by rw [hxf, hc], by omega, hx2⟩
      · exact ih d (List.mem_cons_of_mem _ hd)
  | case4 b c bs hf ih =>
    intro d hd
    rcases List.mem_cons.mp hd with rfl | hd
    · exact ⟨d, List.mem_cons_self, rfl, Nat.le_refl _, Nat.le_refl _⟩
    · obtain ⟨x, hx, h⟩ := ih ht.2 d hd
      exact ⟨x, List.mem_cons_of_mem _ hx, h⟩

theorem readBlocks_succ {n block : Nat} {bs : List Block} (h0 : block ≠ 0)
    (h : readBlocks m (n + 1) block = some bs) :
    ∃ cs, readBlocks m n (blockNext m block) = some cs ∧
      bs = ⟨block, blockSize m block, blockIsFree m block ≠ 0⟩ :: cs := by
  rw [readBlocks, if_neg h0] at h
  obtain ⟨cs, hcs, rfl⟩ := Option.map_eq_some_iff.mp h
  exact ⟨cs, hcs, rfl⟩

theorem mergeFreeBlocks_settled : ∀ {n block : Nat} {bs : List Block},
    readBlocks m n block = some bs → Coalesced bs → mergeFreeBlocks n m block = some m
  | 0, _, _, h, _ => by cases h
  | n + 1, block, bs, h, hco => by
    by_cases hend : block = 0 ∨ blockNext m block = 0
    · rw [mergeFreeBlocks, if_pos hend]
    · obtain ⟨h0, hnext⟩ := not_or.mp hend
      obtain ⟨cs, hcs, rfl⟩ := readBlocks_succ h0 h
      have hpair : ¬ (blockIsFree m block ≠ 0 ∧ blockIsFree m (blockNext m block) ≠ 0) := by
        cases n with
        | zero => cases hcs
        | succ n =>
          obtain ⟨ds, -, rfl⟩ := readBlocks_succ hnext hcs
          simpa [or_iff_not_imp_left] using (List.isChain_cons_cons.mp hco).1
      rw [mergeFreeBlocks, if_neg hend]
      simp only [hpair, ↓reduceIte]
      exact mergeFreeBlocks_settled hcs hco.tail

theorem seg_snoc {bs : List Block} {b : Block} {a : Nat} (h : Seg m e q a (bs ++ [b])) :
    Seg m b.addr b.addr a bs ∧ b.fin = e := by
  obtain ⟨h1, -, h2⟩ := seg_split.mp h
  exact ⟨h1, h2⟩

theorem Seg.agree {e' q' : Nat} : ∀ {pre bs : List Block} {a : Nat}, Seg m e q a bs →
    Seg m e' q' a pre → e' < e → ∃ d post, bs = pre ++ d :: post ∧ d.addr = e'
  | [], [], _, h, h', hlt => by
    have h : _ = e := h
    have h' : _ = e' := h'
    omega
  | [], d :: post, _, h, h', _ => ⟨d, post, rfl, h.1.trans h'⟩
  | b :: pre, [], _, h, h', hlt => by
    have h : _ = e := h
    have := (h'.bounds b List.mem_cons_self).2
    have := h'.1
    unfold Block.fin headerSize at *
    omega
  | b :: pre, c :: bs, _, ⟨hc, hh, hs⟩, ⟨hb, hh', hs'⟩, hlt => by
    have hbc : b = c := by
      have h1 := hh.read
      have h2 := hh'.read
      rw [hc] at h1
      rw [hb] at h2
      exact h2.symm.trans h1
    subst hbc
    obtain ⟨d, post, rfl, hd⟩ := hs.agree hs' hlt
    exact ⟨d, post, rfl, hd⟩

end Lists

section Free

variable {h h' : KHeap} {live : List Alloc} {bs pre post : List Block} {b : Block} {x n : Nat}

/-- Freeing one block of a coalesced list makes at most it and the block before it
absorb a neighbour. -/
theorem offMerge_freed (hco : Coalesced (pre ++ b :: post))
    (hb : ¬ InWin b.addr (b.addr + headerSize) x)
    (hpre : ∀ l d, pre = l ++ [d] → d.free = true → ¬ InWin d.addr (d.addr + headerSize) x) :
    OffMerge (pre ++ freed b :: post) x := by
  have hno : ∀ {l l' : List Block} {d d' : Block}, Coalesced (l ++ d :: d' :: l') → d.free = true →
      d'.free = true → False := by
    intro l l' d d' hc hd hd'
    rcases (List.isChain_append_cons_cons.mp hc).2.1 with h | h
    · rw [hd] at h; cases h
    · rw [hd'] at h; cases h
  obtain ⟨hc1, hc2⟩ := List.isChain_split.mp hco
  intro l d d' l' he hd hd'
  rcases List.append_eq_append_iff.mp he with ⟨t, rfl, ht⟩ | ⟨t, rfl, ht⟩
  · -- the pair starts at or after the freed block
    cases t with
    | nil =>
      cases ht
      exact hb
    | cons _ t =>
      cases ht
      exact (hno (l := b :: t) hc2 hd hd').elim
  · cases t with
    | nil =>
      cases ht
      exact hb
    | cons _ t =>
      cases t with
      | nil =>
        cases ht
        exact hpre l d rfl hd
      | cons _ t =>
        cases ht
        rw [List.append_assoc] at hco
        exact (hno hco hd hd').elim

/-- **Freeing a block by its payload** gives it back. -/
theorem HeapOk.kfree_givesBack (H : HeapOk h live (pre ++ b :: post)) (hb : b.free = false)
    {other : Block → Prop} (hother : (∀ c, other c → c.free = false) ∨
      NoFreeBefore (pre ++ b :: post) b.payload) :
    ∃ h', Heap.kfree h b.payload = some h' ∧ GivesBack h h' b.payload other := by
  obtain ⟨h', hk, H', hused, hout⟩ := H.kfree hb
  have hmem : b ∈ pre ++ b :: post := by simp
  have hpay : b.payload - headerSize = b.addr := Nat.add_sub_cancel ..
  have hsize : blockSize h.mem (b.payload - headerSize) = b.size := by
    obtain ⟨nx, hh⟩ := H.seg.hdr hmem
    rw [hpay]
    exact hh.size
  refine ⟨h', hk, ⟨coalesce (pre ++ freed b :: post), H'.read.1, H'.read.2, ?_⟩, ?_, ?_⟩
  · obtain ⟨c, hc, hcf, h1, h2⟩ := coalesce_covers _ (setFree_seg H.seg).1.tiles (freed b) (by simp)
    refine ⟨c, hc, hcf, ?_, ?_⟩
    · rw [hpay]; exact h1
    · rw [hsize]; exact h2
  · rw [hsize]; exact hused
  · intro bs hbs c hc hcp hoc y hy
    rw [H.read.1, Option.some.injEq] at hbs
    subst hbs
    have hcb : c ≠ b := by rintro rfl; exact hcp rfl
    have hcf : c.fin = c.addr + headerSize + c.size := rfl
    have hbf : b.fin = b.addr + headerSize + b.size := rfl
    have hby : ¬ InWin b.addr (b.addr + headerSize) y := by
      intro hw
      unfold InWin at hy hw
      rcases H.seg.sep hc hmem with rfl | h' | h'
      · exact hcb rfl
      · omega
      · omega
    refine hout y hby ?_
    rcases hother with hall | hno
    · -- an allocated block meets no header of a free one
      have hc' : c ∈ pre ++ freed b :: post := (mem_freed (hall c hoc) hcb).mpr hc
      refine OffFree.offMerge fun d hd hdf hw => ?_
      have hdd : d.fin = d.addr + headerSize + d.size := rfl
      unfold InWin at hy hw
      rcases (setFree_seg H.seg).1.sep hc' hd with rfl | h' | h'
      · rw [hall c hoc] at hdf; cases hdf
      · omega
      · omega
    · refine offMerge_freed H.coalesced hby fun l d hl hdf => ?_
      subst hl
      exfalso
      refine hno d (by simp) hdf ?_
      rw [hpay]
      exact (seg_snoc (seg_split.mp H.seg).1).2

/-- A list in which a free block before `b` is still there is not coalesced. -/
theorem GivesBack.noFreeBefore {live' : List Alloc} {bs' : List Block}
    (g : GivesBack h h' b.payload fun _ => True) (H : HeapOk h live (pre ++ b :: post))
    (H' : HeapOk h' live' bs') : NoFreeBefore (pre ++ b :: post) b.payload := by
  have hmem : b ∈ pre ++ b :: post := by simp
  have hpay : b.payload - headerSize = b.addr := Nat.add_sub_cancel ..
  have hbf : b.fin = b.addr + headerSize + b.size := rfl
  intro c hc hcf hfin
  rw [hpay] at hfin
  obtain ⟨hseg, -, -⟩ := seg_split.mp H.seg
  -- the blocks before `b` are read as before
  have hpre : Seg h'.mem b.addr b.addr heapStartAddr pre := by
    refine hseg.frame fun d hd => ?_
    have hdb := (hseg.bounds d hd).2
    have hdf : d.fin = d.addr + headerSize + d.size := rfl
    refine (g.others _ H.read.1 d (by simp [hd]) ?_ trivial).mono (Nat.le_refl _) (by omega)
    unfold Block.payload
    unfold headerSize at hdf
    omega
  obtain ⟨bs₁, hbs₁, -, d, hd, hdf, hd1, hd2⟩ := g.freed
  rw [H'.read.1, Option.some.injEq] at hbs₁
  subst hbs₁
  rw [hpay] at hd1 hd2
  have hbp : b.payload = b.addr + headerSize := rfl
  have hdend := (H'.seg.bounds d hd).2
  obtain ⟨d', post', he, hd'⟩ := H'.seg.agree hpre (by unfold headerSize at hbp; omega)
  -- the block at `b.addr` is the free one that covers `b`
  have hdd : d' = d := by
    have hd'f : d'.fin = d'.addr + headerSize + d'.size := rfl
    unfold headerSize at hd'f hbp
    rcases H'.seg.sep (b := d') (by rw [he]; simp) hd with h1 | h1 | h1
    · exact h1
    · omega
    · omega
  have hcpre : c ∈ pre := by
    have hcf' : c.fin = c.addr + headerSize + c.size := rfl
    unfold headerSize at hcf' hbf
    rcases List.mem_append.mp hc with hc | hc
    · exact hc
    · exfalso
      rcases List.mem_cons.mp hc with rfl | hc
      · omega
      · have := (H.seg.sides.2 c hc).1
        omega
  obtain ⟨l, l', rfl⟩ := List.append_of_mem hcpre
  cases l' with
  | cons e l' =>
    -- nothing fits between `c` and `b`
    have h1 := (hseg.sides.2 e (by simp)).1
    have h2 := (hseg.bounds e (by simp)).2
    have hef : e.fin = e.addr + headerSize + e.size := rfl
    unfold headerSize at hef
    omega
  | nil =>
    have hco := H'.coalesced
    rw [he, List.append_assoc] at hco
    rcases (List.isChain_append_cons_cons.mp hco).2.1 with h1 | h1
    · rw [hcf] at h1; cases h1
    · rw [hdd, hdf] at h1; cases h1

theorem kfree_undetected {p a : Nat} (hp : p ≠ 0) (ha : sub32 p headerSize = a)
    (hz : blockIsFree h.mem a = 0) (he : kfree h p = some h') :
    ∃ m', mergeFreeBlocks walkFuel (setIsFree h.mem a 1) h.firstBlock = some m' ∧
      h' = { h with
        mem := m'
        totalAllocated := sub32 h.totalAllocated (blockSize (setIsFree h.mem a 1) a) } := by
  simp only [kfree, hp, ha, hz, ne_eq, not_true_eq_false, ↓reduceIte, Option.bind_eq_bind] at he
  obtain ⟨m', hm, he⟩ := Option.bind_eq_some_iff.mp he
  cases he
  exact ⟨m', hm, rfl⟩

theorem setIsFree_out {m : Bytes} {a x : Nat} (hx : ¬ InWin (a + 4) (a + 8) x) :
    setIsFree m a 1 x = m x := by
  unfold InWin at hx
  exact store32_out (by omega)

theorem blockSize_setIsFree (m : Bytes) (a : Nat) : blockSize (setIsFree m a 1) a = blockSize m a :=
  load32_store32_miss m (by omega)

theorem HeapOk.givesBack_size {p a : Nat} {other : Block → Prop}
    (H : HeapOk h live (pre ++ b :: post)) (hpos : 0 < b.size) (hp : p ≠ 0)
    (ha : sub32 p headerSize = a) (hk : Heap.kfree h p = some h')
    (g : GivesBack h h' b.payload other) :
    blockSize h.mem a = b.size ∧ h'.firstBlock = h.firstBlock ∧
      mergeFreeBlocks walkFuel (setIsFree h.mem a 1) h.firstBlock = some h'.mem := by
  have hpay : b.payload - headerSize = b.addr := Nat.add_sub_cancel ..
  obtain ⟨-, hh, -⟩ := seg_split.mp H.seg
  have hused := g.used
  rw [hpay, show blockSize h.mem b.addr = b.size from hh.size] at hused
  unfold kheapGetUsed at hused
  by_cases hz : blockIsFree h.mem a = 0
  · obtain ⟨m', hm', rfl⟩ := kfree_undetected hp ha hz hk
    refine ⟨?_, rfl, hm'⟩
    have htot := H.used
    have hub := H.seg.usedBytes_le
    have hend := H.end_le
    have hbig : heapMaxAddr < 2 ^ 32 := by decide
    have hlt : blockSize h.mem a < 2 ^ 32 := load32_lt _ _
    simp only [blockSize_setIsFree] at hused
    unfold sub32 at hused
    omega
  · have hsame : Heap.kfree h p = some h := by
      simp only [Heap.kfree, hp, ha, hz, ne_eq, not_false_eq_true, ↓reduceIte]
    obtain rfl : h = h' := Option.some.inj (hsame.symm.trans hk)
    omega

theorem HeapOk.payload_flag_frees_none {a : Nat} {other : Block → Prop}
    (H : HeapOk h live (pre ++ b :: post)) (hb : b.free = false) (hlo : b.payload ≤ a + 4)
    (hhi : a + 8 ≤ b.fin) (hfirst : h'.firstBlock = h.firstBlock)
    (hm : mergeFreeBlocks walkFuel (setIsFree h.mem a 1) h.firstBlock = some h'.mem) :
    ¬ GivesBack h h' b.payload other := by
  intro g
  have hmem : b ∈ pre ++ b :: post := by simp
  have hpay : b.payload - headerSize = b.addr := Nat.add_sub_cancel ..
  have hbf : b.fin = b.payload + b.size := rfl
  have hbp : b.payload = b.addr + headerSize := rfl
  have hout : ∀ x, ¬ InWin b.payload b.fin x → setIsFree h.mem a 1 x = h.mem x := by
    intro x hx
    refine setIsFree_out fun hw => hx ?_
    unfold InWin at *
    omega
  have H₁ := H.write hmem hout
  have hm₁ : h'.mem = setIsFree h.mem a 1 :=
    Option.some.inj (hm.symm.trans (mergeFreeBlocks_settled H₁.read.1 H₁.coalesced))
  -- `b` is still allocated, where a free block should cover it
  obtain ⟨bs, hbs, -, d, hd, hdf, hd1, hd2⟩ := g.freed
  rw [hfirst, hm₁] at hbs
  obtain rfl : pre ++ b :: post = bs := Option.some.inj (H₁.read.1.symm.trans hbs)
  rw [hpay] at hd1
  unfold headerSize at hbp
  rcases H.seg.sep hmem hd with rfl | h1 | h1
  · rw [hb] at hdf
    cases hdf
  · omega
  · omega

/-- `kfree` of the page boundary inside the payload of a block, when it is not the
payload itself: the word it takes for the header is none. -/
theorem HeapOk.kfree_misaligned (H : HeapOk h live (pre ++ b :: post)) (hb : b.free = false)
    (hn : roundUp pageSize b.payload + n ≤ b.fin) (hn0 : 0 < n)
    (hne : roundUp pageSize b.payload ≠ b.payload) {other : Block → Prop} :
    ¬ ∃ h', Heap.kfree h (roundUp pageSize b.payload) = some h' ∧
      GivesBack h h' b.payload other := by
  rintro ⟨h', hk, g⟩
  have hmem : b ∈ pre ++ b :: post := by simp
  obtain ⟨hlo, hhi⟩ := H.addr_pos hmem
  have hend := H.end_le
  have hmax : heapMaxAddr = 0xC1400000 := rfl
  have hbf : b.fin = b.addr + 12 + b.size := rfl
  have hbp : b.payload = b.addr + 12 := rfl
  have hword := H.seg.addr_word H.words (by decide) b hmem
  -- the boundary is 4 bytes or more into the payload
  have hru : roundUp pageSize b.payload = (b.payload + (pageSize - 1)) / pageSize * pageSize :=
    roundUp_of_lt (by unfold pageSize; omega)
  generalize roundUp pageSize b.payload = stack at hk hn hne hru
  unfold pageSize at hru
  have hsub : sub32 stack headerSize = stack - 12 :=
    sub32_of_le (by unfold headerSize; omega) (by omega)
  obtain ⟨hsize, hfirst, hm⟩ := H.givesBack_size (by omega) (by omega) hsub hk g
  by_cases h4 : stack = b.addr + 16
  · -- the size is read from the flag of `b`
    obtain ⟨-, hh, -⟩ := seg_split.mp H.seg
    have hflag : blockSize h.mem (stack - 12) = 0 := by
      rw [show stack - 12 = b.addr + 4 by omega]
      exact hh.isFree.trans (by rw [hb]; rfl)
    omega
  · exact H.payload_flag_frees_none hb (by omega) (by omega) hfirst hm g

/-- **`kfree` of an aligned pointer** gives its block back exactly when the payload was
aligned to begin with. -/
theorem HeapOk.kfree_aligned_iff (H : HeapOk h live bs) (hmem : b ∈ bs) (hb : b.free = false)
    (hn : roundUp pageSize b.payload + n ≤ b.fin) (hn0 : 0 < n) :
    ((∃ h', Heap.kfree h (roundUp pageSize b.payload) = some h' ∧
        GivesBack h h' b.payload fun _ => True) ↔
      b.payload % pageSize = 0 ∧ NoFreeBefore bs b.payload) ∧
    ((∃ h', Heap.kfree h (roundUp pageSize b.payload) = some h' ∧
        GivesBack h h' b.payload fun c => c.free = false) ↔ b.payload % pageSize = 0) := by
  obtain ⟨pre, post, rfl⟩ := List.append_of_mem hmem
  by_cases hal : roundUp pageSize b.payload = b.payload
  · have h0 : b.payload % pageSize = 0 := by
      rw [← hal]
      exact Nat.mod_eq_zero_of_dvd (roundUp_dvd _ _)
    rw [hal]
    constructor
    · refine ⟨fun ⟨h', hk, g⟩ => ⟨h0, ?_⟩, fun hno => H.kfree_givesBack hb (.inr hno.2)⟩
      obtain ⟨h₁, hk₁, H₁, -⟩ := H.kfree hb
      obtain rfl : h₁ = h' := Option.some.inj (hk₁.symm.trans hk)
      exact g.noFreeBefore H H₁
    · exact ⟨fun _ => h0, fun _ => H.kfree_givesBack hb (.inl fun c hc => hc)⟩
  · have h0 : b.payload % pageSize ≠ 0 := by
      intro h0
      refine hal ?_
      have hend := H.end_le
      have hfin := (H.addr_pos hmem).2
      have hbf : b.fin = b.payload + b.size := rfl
      have hmax : heapMaxAddr = 0xC1400000 := rfl
      rw [roundUp_of_lt (by unfold pageSize; omega)]
      unfold pageSize at *
      omega
    exact ⟨⟨fun hg => absurd hg (H.kfree_misaligned hb hn hn0 hal), fun h => absurd h.1 h0⟩,
      ⟨fun hg => absurd hg (H.kfree_misaligned hb hn hn0 hal), fun h => absurd h h0⟩⟩

end Free

end TupleOS.Heap
