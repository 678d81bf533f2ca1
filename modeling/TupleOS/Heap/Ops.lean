import TupleOS.Heap.Invariant

/-!
# The heap operations keep the invariant

One theorem per entry point, on any heap that satisfies `HeapOk`: the call
returns, the result is a heap that satisfies `HeapOk` for the new set of live
allocations, and no other live payload is written.
-/

namespace TupleOS.Heap

open TupleOS.Base TupleOS.Memory

/-! ## `kmalloc` -/

section Kmalloc

variable {σ : Type} {E : PageEnv σ} {top : Nat} {I : Nat → σ → Bytes → Prop}
  {h h' : KHeap} {e e' : σ} {live : List Alloc} {bs : List Block} {n block : Nat}

theorem kmalloc_found (hn : n ≠ 0)
    (hf : findFreeBlock h.mem (roundUp 8 n) walkFuel h.firstBlock = some block) (hb : block ≠ 0) :
    kmalloc E h e n =
      some ((takeBlock h block (roundUp 8 n)).1, (takeBlock h block (roundUp 8 n)).2, e) := by
  simp only [kmalloc, hn, hf, hb, Option.bind_eq_bind, Option.bind_some, ne_eq, not_false_eq_true,
    ↓reduceIte]

theorem kmalloc_refused (hn : n ≠ 0)
    (hf : findFreeBlock h.mem (roundUp 8 n) walkFuel h.firstBlock = some 0)
    (hx : heapExpand E h e (w32 (roundUp 8 n + headerSize)) = some (false, h', e')) :
    kmalloc E h e n = some (0, h', e') := by
  simp [kmalloc, hn, hf, hx]

theorem kmalloc_expanded (hn : n ≠ 0)
    (hf : findFreeBlock h.mem (roundUp 8 n) walkFuel h.firstBlock = some 0)
    (hx : heapExpand E h e (w32 (roundUp 8 n + headerSize)) = some (true, h', e'))
    (hf' : findFreeBlock h'.mem (roundUp 8 n) walkFuel h'.firstBlock = some block)
    (hb : block ≠ 0) :
    kmalloc E h e n =
      some ((takeBlock h' block (roundUp 8 n)).1, (takeBlock h' block (roundUp 8 n)).2, e') := by
  simp only [kmalloc, hn, hf, hx, hf', hb, Option.bind_eq_bind, Option.bind_some, ne_eq,
    not_true_eq_false, not_false_eq_true, ↓reduceIte]

theorem heapExpand_mapped {m : Bytes} {size : Nat} (hn : roundUp pageSize size = n)
    (hmax : w32 (h.heapEnd + n) ≤ h.heapMax)
    (hmap : mapHeapPages E e h.mem h.heapEnd (n / pageSize) = some (true, e', m))
    (happ : appendSpace { h with mem := m } n = some h') :
    heapExpand E h e size = some (true, h', e') := by
  simp [heapExpand, hn, Nat.not_lt.mpr hmax, hmap, happ]

theorem roundUp8 (hn : n + 7 < 2 ^ 32) : n ≤ roundUp 8 n ∧ roundUp 8 n < n + 8 ∧
    roundUp 8 n % 8 = 0 := by
  rw [roundUp_of_lt (by omega)]
  omega

/-- The allocated blocks of `bs` are still there in `bs'`. -/
def KeepsBlocks (bs bs' : List Block) : Prop := ∀ b ∈ bs, b.free = false → b ∈ bs'

theorem mem_carve_of_mem {pre post : List Block} {b c : Block} {size : Nat} (hb : b.free = true)
    (hc : c ∈ pre ++ b :: post) (hcf : c.free = false) : c ∈ pre ++ carve b size ++ post := by
  simp only [List.mem_append, List.mem_cons] at hc ⊢
  rcases hc with hc | rfl | hc
  · exact .inl (.inl hc)
  · rw [hb] at hcf; cases hcf
  · exact .inr hc

theorem HeapOk.serve (H : HeapOk h live bs) {b : Block} {size : Nat} (hs4 : size % 4 = 0)
    (hn : n ≤ size) (hfind : bs.find? (fits size) = some b) :
    findFreeBlock h.mem size walkFuel h.firstBlock = some b.addr ∧ b.addr ≠ 0 ∧
    (takeBlock h b.addr size).1 = b.payload ∧
    (∃ bs', HeapOk (takeBlock h b.addr size).2 (⟨b.payload, n⟩ :: live) bs' ∧ KeepsBlocks bs bs') ∧
    KeepsPayloads h.mem (takeBlock h b.addr size).2.mem bs ∧
    ∀ x, ¬ InWin heapStartAddr heapMaxAddr x → (takeBlock h b.addr size).2.mem x = h.mem x := by
  have hf := H.find size
  rw [hfind] at hf
  obtain ⟨hfit, pre, post, rfl, -⟩ := List.find?_eq_some_iff_append.mp hfind
  rw [fits, Bool.and_eq_true, decide_eq_true_eq] at hfit
  obtain ⟨h1, H', hout⟩ := H.take hfit.1 hfit.2 hs4 hn
  obtain ⟨hlo, hhi⟩ := H.addr_pos (b := b) (by simp)
  have hend := H.end_le
  refine ⟨hf, ?_, h1, ⟨_, H', fun c hc hcf => mem_carve_of_mem hfit.1 hc hcf⟩,
    H.take_keeps hfit.1 hout, fun x hx => hout x fun hw => hx ?_⟩
  · unfold heapStartAddr at hlo; omega
  · exact ⟨Nat.le_trans hlo hw.1, by have := hw.2; omega⟩

theorem grow_find (pre : List Block) (b : Block) (size : Nat) {m : Nat}
    (hm : size + headerSize ≤ m) : ∃ c, (grow pre b m).find? (fits size) = some c := by
  have : ((grow pre b m).find? (fits size)).isSome := by
    rw [List.find?_isSome]
    unfold grow
    split
    · exact ⟨⟨b.addr, b.size + m, true⟩, by simp, by
        simp only [fits, Bool.true_and, decide_eq_true_eq]; omega⟩
    · exact ⟨⟨b.fin, m - headerSize, true⟩, by simp, by
        simp only [fits, Bool.true_and, decide_eq_true_eq]; omega⟩
  exact Option.isSome_iff_exists.mp this

/-- Where the heap would end if a request for `n` bytes grew it. -/
def growTop (h : KHeap) (n : Nat) : Nat :=
  h.heapEnd + roundUp pageSize (roundUp 8 n + headerSize)

/-- The bytes that a request for `n` bytes adds to the heap when no block fits: the
request, rounded up to 8, with a header, rounded up to pages. -/
def growth (n : Nat) : Nat :=
  ((n + 7) / 8 * 8 + headerSize + (pageSize - 1)) / pageSize * pageSize

/-- The sums on the way from a request to the end of the grown heap stay below `2 ^ 32`. -/
def NoWrap (h : KHeap) (n : Nat) : Prop := h.heapEnd + growth n < 2 ^ 32

instance (h : KHeap) (n : Nat) : Decidable (NoWrap h n) := inferInstanceAs (Decidable (_ < _))

theorem NoWrap.expandSize (hw : NoWrap h n) (hend : heapStartAddr ≤ h.heapEnd) :
    n + 7 < 2 ^ 32 ∧ w32 (roundUp 8 n + headerSize) = roundUp 8 n + headerSize ∧
      roundUp pageSize (roundUp 8 n + headerSize) = growth n ∧
      roundUp 8 n + headerSize ≤ growth n := by
  have hw' : h.heapEnd + growth n < 2 ^ 32 := hw
  have hg : growth n = ((n + 7) / 8 * 8 + headerSize + (pageSize - 1)) / pageSize * pageSize := rfl
  unfold heapStartAddr at hend
  have hsum : (n + 7) / 8 * 8 + headerSize + (pageSize - 1) < growth n + pageSize := by
    rw [hg]
    unfold pageSize
    omega
  unfold headerSize pageSize at hsum
  have hr : roundUp 8 n = (n + 7) / 8 * 8 := roundUp_of_lt (by omega)
  refine ⟨by omega, ?_, ?_, ?_⟩
  · rw [hr, w32_of_lt (by unfold headerSize; omega)]
  · rw [hr, hg, roundUp_of_lt (by unfold headerSize pageSize; omega)]
  · rw [hr, hg]
    unfold pageSize
    omega

theorem HeapOk.noWrap (H : HeapOk h live bs) (hn : n ≤ maxHeapSize) : NoWrap h n := by
  have hend := H.end_le
  unfold heapMaxAddr heapStartAddr maxHeapSize at *
  unfold NoWrap growth headerSize pageSize
  omega

/-- What a request for `n` bytes with the answer `p` did to a good heap: `NULL` leaves
the list as it was, and any other pointer is a new live allocation of `n` bytes. -/
structure Served (h h' : KHeap) (live : List Alloc) (bs : List Block) (p n : Nat) : Prop where
  keeps : KeepsPayloads h.mem h'.mem bs
  fin_le : h.heapEnd ≤ h'.heapEnd
  refused : p = 0 → HeapOk h' live bs
  granted : p ≠ 0 → ∃ bs', HeapOk h' (⟨p, n⟩ :: live) bs' ∧ KeepsBlocks bs bs'

/-- **`kmalloc`** on a good heap returns and serves the request. -/
theorem kmalloc_ok (Q : QuietEnv E top I) (H : HeapOk h live bs) (hI : I h.heapEnd e h.mem)
    (hw : NoWrap h n) (htop : growTop h n ≤ heapMaxAddr → growTop h n ≤ top) :
    ∃ p h' e', kmalloc E h e n = some (p, h', e') ∧ (∃ v, I v e' h'.mem) ∧
      Served h h' live bs p n := by
  obtain ⟨h7, hsum, hgrow, hle⟩ := hw.expandSize H.end_gt.le
  obtain ⟨hr1, hr2, hr3⟩ := roundUp8 h7
  by_cases hn0 : n = 0
  · exact ⟨0, h, e, by simp [kmalloc, hn0], ⟨_, hI⟩, fun _ _ _ => .refl _ _ _, Nat.le_refl _,
      fun _ => H, fun hc => absurd rfl hc⟩
  cases hfind : bs.find? (fits (roundUp 8 n)) with
  | some b =>
    obtain ⟨hf, hb0, hp, ⟨bs', H', hkb⟩, hk, hout⟩ := H.serve (by omega) hr1 hfind
    refine ⟨_, _, _, kmalloc_found hn0 hf hb0, ⟨_, Q.frame hI hout⟩, hk, Nat.le_refl _,
      fun hz => ?_, fun _ => ?_⟩
    · rw [hp] at hz; unfold Block.payload headerSize at hz; omega
    · rw [hp]; exact ⟨bs', H', hkb⟩
  | none =>
    have hf := H.find (roundUp 8 n)
    rw [hfind] at hf
    obtain ⟨ok, h', e', hx, ⟨v, hI'⟩, hk, hge, hno, hyes⟩ := H.expand Q hI hgrow
      (by omega) hw (by unfold growTop at htop; rwa [hgrow] at htop)
    rw [← hsum] at hx
    cases ok with
    | false =>
      exact ⟨0, h', e', kmalloc_refused hn0 hf hx, ⟨v, hI'⟩, hk, hge, fun _ => hno rfl,
        fun hc => absurd rfl hc⟩
    | true =>
      obtain ⟨pre, b, rfl, H'⟩ := hyes rfl
      obtain ⟨c, hc⟩ := grow_find pre b _ hle
      obtain ⟨hf', hb0, hp, ⟨bs', H'', hkb⟩, hk', hout⟩ := H'.serve (by omega) hr1 hc
      refine ⟨_, _, _, kmalloc_expanded hn0 hf hx hf' hb0, ⟨v, Q.frame hI' hout⟩,
        fun d hd hdf => (hk d hd hdf).trans (hk' d ((mem_grow hdf).mpr hd) hdf), hge, fun hz => ?_,
        fun _ => ?_⟩
      · rw [hp] at hz; unfold Block.payload headerSize at hz; omega
      · rw [hp]; exact ⟨bs', H'', fun d hd hdf => hkb d ((mem_grow hdf).mpr hd) hdf⟩

theorem HeapOk.write {m' : Bytes} (H : HeapOk h live bs) {b : Block} (hb : b ∈ bs)
    (hout : ∀ x, ¬ InWin b.payload b.fin x → m' x = h.mem x) :
    HeapOk { h with mem := m' } live bs := by
  refine H.frame fun c hc x hx => hout x fun hw => ?_
  obtain ⟨hx1, hx2⟩ := hx
  obtain ⟨hw1, hw2⟩ := hw
  have hbp : b.payload = b.addr + headerSize := rfl
  have hcf : c.fin = c.addr + headerSize + c.size := rfl
  rcases H.seg.sep hc hb with rfl | h' | h' <;> omega

theorem HeapOk.write_keeps {m' : Bytes} (H : HeapOk h live bs) {b : Block} (hb : b ∈ bs)
    (hout : ∀ x, ¬ InWin b.payload b.fin x → m' x = h.mem x) {c : Block} (hc : c ∈ bs)
    (hne : c ≠ b) : AgreeOn h.mem m' c.payload c.fin := by
  intro x hx
  refine hout x fun hw => ?_
  obtain ⟨hx1, hx2⟩ := hx
  obtain ⟨hw1, hw2⟩ := hw
  have hbp : b.payload = b.addr + headerSize := rfl
  have hcp : c.payload = c.addr + headerSize := rfl
  rcases H.seg.sep hc hb with h' | h' | h'
  · exact hne h'
  · omega
  · omega

/-- **`kcalloc`** with a product that does not wrap is `kmalloc` and zeroes. -/
theorem kcalloc_ok (Q : QuietEnv E top I) (H : HeapOk h live bs) (hI : I h.heapEnd e h.mem)
    {num size : Nat} (hw : NoWrap h (num * size))
    (htop : growTop h (num * size) ≤ heapMaxAddr → growTop h (num * size) ≤ top) :
    ∃ p h' e', kcalloc E h e num size = some (p, h', e') ∧ (∃ v, I v e' h'.mem) ∧
      Served h h' live bs p (num * size) ∧
      (p ≠ 0 → ∀ x, InWin p (p + num * size) x → h'.mem x = 0) := by
  have hprod : w32 (num * size) = num * size := w32_of_lt (by
    have := (hw.expandSize H.end_gt.le).1
    omega)
  obtain ⟨p, h', e', hk, ⟨v, hI'⟩, hs⟩ := kmalloc_ok Q H hI hw htop
  unfold kcalloc
  simp only [hprod, hk, Option.bind_eq_bind, Option.bind_some]
  by_cases hp : p = 0
  · exact ⟨p, h', e', by simp [hp], ⟨v, hI'⟩, hs, fun hc => absurd hp hc⟩
  · obtain ⟨bs', H', hkb⟩ := hs.granted hp
    obtain ⟨b, hb, hbf, hbp, hreq⟩ := H'.live_block ⟨p, num * size⟩ List.mem_cons_self
    simp only at hbp hreq
    have hbfin : b.fin = b.payload + b.size := rfl
    have hout : ∀ x, ¬ InWin b.payload b.fin x →
        zeroBytes h'.mem p (num * size) x = h'.mem x := by
      intro x hx
      unfold InWin at hx
      exact zeroBytes_out (by omega)
    refine ⟨p, { h' with mem := zeroBytes h'.mem p (num * size) }, e', by simp [hp],
      ⟨v, Q.frame hI' fun x hx => hout x fun hw => hx ?_⟩,
      ⟨fun c hc hcf => ?_, hs.fin_le, fun hc => absurd hc hp,
        fun _ => ⟨bs', H'.write hb hout, hkb⟩⟩,
      fun _ x hx => zeroBytes_in hx⟩
    · obtain ⟨hlo, hhi⟩ := H'.addr_pos hb
      have := H'.end_le
      have hbpa : b.payload = b.addr + headerSize := rfl
      exact ⟨by have := hw.1; omega, by have := hw.2; omega⟩
    · -- `c` was live before, so its pointer is not the new one
      refine (hs.keeps c hc hcf).trans (H'.write_keeps hb hout (hkb c hc hcf) ?_)
      rintro rfl
      obtain ⟨l, hl, hlp⟩ := H.block_live c hc hcf
      have hnd := H'.nodup
      rw [List.map_cons, List.nodup_cons] at hnd
      exact hnd.1 (List.mem_map.mpr ⟨l, hl, hlp.symm.trans hbp⟩)

end Kmalloc

/-! ## `kfree` -/

section Kfree

variable {h : KHeap} {live : List Alloc} {bs pre post : List Block} {b : Block}

/-- The live allocations once `p` is given back. -/
def dropPtr (p : Nat) (live : List Alloc) : List Alloc := live.filter fun l => l.ptr ≠ p

theorem mem_dropPtr {p : Nat} {live : List Alloc} {l : Alloc} :
    l ∈ dropPtr p live ↔ l ∈ live ∧ l.ptr ≠ p := by
  simp [dropPtr]

def freed (b : Block) : Block := ⟨b.addr, b.size, true⟩

theorem setFree_seg {m : Bytes} {e q a : Nat} (hs : Seg m e q a (pre ++ b :: post)) :
    Seg (setIsFree m b.addr 1) e q a (pre ++ freed b :: post) ∧
    ∀ x, ¬ InWin b.addr (b.addr + headerSize) x → setIsFree m b.addr 1 x = m x := by
  obtain ⟨-, ⟨h1, h2, h3⟩, -⟩ := seg_split.mp hs
  have hout : ∀ x, ¬ InWin b.addr (b.addr + headerSize) x → setIsFree m b.addr 1 x = m x := by
    intro x hx
    unfold InWin headerSize at hx
    exact store32_out (by omega)
  obtain ⟨fp, ft⟩ := seg_sides_frame (setIsFree m b.addr 1) hs fun x hx => hout x fun hw =>
    hx ⟨hw.1, by have := hw.2; unfold Block.fin; omega⟩
  refine ⟨seg_split.mpr ⟨fp, ⟨?_, ?_, ?_⟩, ft⟩, hout⟩
  · exact (load32_store32_miss m (by simp only [freed]; omega)).trans h1
  · exact load32_store32 m _ (by omega)
  · exact (load32_store32_miss m (by simp only [freed]; omega)).trans h3

theorem mem_freed {c : Block} (hcf : c.free = false) (hne : c ≠ b) :
    c ∈ pre ++ freed b :: post ↔ c ∈ pre ++ b :: post := by
  have hne' : c ≠ freed b := by rintro rfl; cases hcf
  simp [hne, hne']

theorem kfree_eq {m' : Bytes} (ptr : Nat) (hp : ptr ≠ 0)
    (hf : blockIsFree h.mem (sub32 ptr headerSize) = 0)
    (hm : mergeFreeBlocks walkFuel (setIsFree h.mem (sub32 ptr headerSize) 1) h.firstBlock
      = some m') :
    kfree h ptr = some { h with
      mem := m'
      totalAllocated := sub32 h.totalAllocated
        (blockSize (setIsFree h.mem (sub32 ptr headerSize) 1) (sub32 ptr headerSize)) } := by
  simp [kfree, hp, hf, hm]

/-- `kfree` finds the block `b`, sets its flag, merges, and counts its size. -/
theorem HeapOk.kfree_run (H : HeapOk h live (pre ++ b :: post)) (hb : b.free = false) :
    ∃ m', Heap.kfree h b.payload = some { h with
        mem := m', totalAllocated := usedBytes pre + usedBytes post } ∧
      Seg m' h.heapEnd 0 heapStartAddr (coalesce (pre ++ freed b :: post)) ∧
      h.totalAllocated = usedBytes pre + b.size + usedBytes post ∧
      ∀ x, ¬ InWin b.addr (b.addr + headerSize) x → OffMerge (pre ++ freed b :: post) x →
        m' x = h.mem x := by
  have hmem : b ∈ pre ++ b :: post := by simp
  obtain ⟨hlo, hhi⟩ := H.addr_pos hmem
  have hend := H.end_le
  have hbig : heapMaxAddr < 2 ^ 32 := by decide
  have hst : 0 < heapStartAddr := by decide
  have hbf : b.fin = b.addr + headerSize + b.size := rfl
  have hpay : b.payload = b.addr + headerSize := rfl
  have hsub : sub32 b.payload headerSize = b.addr := by
    rw [sub32_of_le (by omega) (by omega)]; omega
  have hisf : blockIsFree h.mem b.addr = 0 := by
    obtain ⟨nx, hh⟩ := H.seg.hdr hmem
    rw [hh.isFree, hb]; rfl
  obtain ⟨hseg, hout⟩ := setFree_seg H.seg
  have hlen := H.length_lt
  obtain ⟨m', hmerge, hseg', hout'⟩ := merge_seg (by omega) hseg hst (n := walkFuel)
    (by simpa using hlen)
  have hfirst : link 0 heapStartAddr (pre ++ freed b :: post) = h.firstBlock := by
    rw [link_append_cons, H.first_eq]
  rw [hfirst] at hmerge
  have hsize : blockSize (setIsFree h.mem b.addr 1) b.addr = b.size := by
    obtain ⟨nx, hh⟩ := hseg.hdr (b := freed b) (by simp)
    exact hh.size
  have hu := H.used
  have hub := H.seg.usedBytes_le
  simp only [usedBytes_append, usedBytes_cons, hb, Bool.false_eq_true, ↓reduceIte] at hu hub
  have htot : sub32 h.totalAllocated b.size = usedBytes pre + usedBytes post := by
    rw [sub32_of_le (by omega) (by omega)]; omega
  have heq := kfree_eq b.payload (by omega) (by rw [hsub]; exact hisf)
    (by rw [hsub]; exact hmerge)
  rw [hsub, hsize, htot] at heq
  exact ⟨m', heq, hseg', by omega, fun x hxb hx => (hout' x hx).trans (hout x hxb)⟩

/-- The list with `b` free and merged is one of a good heap. -/
theorem HeapOk.of_freed {m' : Bytes} (H : HeapOk h live (pre ++ b :: post))
    (hseg' : Seg m' h.heapEnd 0 heapStartAddr (coalesce (pre ++ freed b :: post))) :
    HeapOk { h with mem := m', totalAllocated := usedBytes pre + usedBytes post }
      (dropPtr b.payload live) (coalesce (pre ++ freed b :: post)) := by
  have hmem : b ∈ pre ++ b :: post := by simp
  obtain ⟨hseg, -⟩ := setFree_seg H.seg
  -- the blocks of the other live allocations
  have hother : ∀ l ∈ dropPtr b.payload live, ∀ c ∈ pre ++ b :: post,
      c.payload = l.ptr → c ≠ b := by
    rintro l hl c - hcp rfl
    exact (mem_dropPtr.mp hl).2 hcp.symm
  exact {
    start_eq := H.start_eq
    first_eq := H.first_eq
    max_eq := H.max_eq
    end_gt := H.end_gt
    end_le := H.end_le
    end_aligned := H.end_aligned
    seg := hseg'
    coalesced := coalesced_coalesce _
    words := wordSized_coalesce fun c hc => by
      simp only [List.mem_append, List.mem_cons] at hc
      rcases hc with hc | rfl | hc
      · exact H.words c (by simp [hc])
      · exact H.words b hmem
      · exact H.words c (by simp [hc])
    live_block := by
      intro l hl
      obtain ⟨c, hc, hcf, hp, hr⟩ := H.live_block l (mem_dropPtr.mp hl).1
      exact ⟨c, (mem_coalesce hcf _).mpr ((mem_freed hcf (hother l hl c hc hp)).mpr hc),
        hcf, hp, hr⟩
    block_live := by
      intro c hc hcf
      rw [mem_coalesce hcf] at hc
      have hne : c ≠ b := by
        rintro rfl
        -- a second block at the same address would be the freed one
        have := hseg.addr_inj hc (c := freed c) (by simp) rfl
        rw [this] at hcf; cases hcf
      have hc' := (mem_freed hcf hne).mp hc
      obtain ⟨l, hl, hp⟩ := H.block_live c hc' hcf
      refine ⟨l, mem_dropPtr.mpr ⟨hl, fun heq => hne (H.seg.addr_inj hc' hmem ?_)⟩, hp⟩
      have : c.addr + headerSize = b.addr + headerSize := hp.trans heq
      omega
    nodup := List.Nodup.sublist (List.Sublist.map _ List.filter_sublist) H.nodup
    used := by simp [usedBytes_coalesce, freed] }

/-- **`kfree`** of the block `b` of a good heap: the block is free and merged
with its free neighbours, the counter drops by its size, and the bytes written
are in the headers of `b` and of blocks that absorb their neighbour. -/
theorem HeapOk.kfree (H : HeapOk h live (pre ++ b :: post)) (hb : b.free = false) :
    ∃ h', kfree h b.payload = some h' ∧
      HeapOk h' (dropPtr b.payload live) (coalesce (pre ++ freed b :: post)) ∧
      h'.totalAllocated + b.size = h.totalAllocated ∧
      ∀ x, ¬ InWin b.addr (b.addr + headerSize) x → OffMerge (pre ++ freed b :: post) x →
        h'.mem x = h.mem x := by
  obtain ⟨m', hk, hseg, htot, hout⟩ := H.kfree_run hb
  refine ⟨_, hk, H.of_freed hseg, ?_, hout⟩
  simp only
  omega

theorem OffFree.kfree {x : Nat} (hx : OffFree (pre ++ freed b :: post) x) :
    ¬ InWin b.addr (b.addr + headerSize) x ∧ OffMerge (pre ++ freed b :: post) x :=
  ⟨hx (freed b) (by simp) rfl, hx.offMerge⟩

end Kfree

end TupleOS.Heap
