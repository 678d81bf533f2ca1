import TupleOS.Heap.Chain

/-!
# Edits of the block list

What each list edit of `kheap.c` does to the blocks, and the bytes it writes:

* `carve`: `split_block` and the hand-out of `kmalloc` (`take_seg`);
* `grow`: the end of `heap_expand` (`append_seg`);
* `coalesce`: `merge_free_blocks` (`merge_seg`).

Every edit is stated on memory (`Seg` before and after) with its footprint, so
the operations of the heap are sequences of these.
-/

namespace TupleOS.Heap

open TupleOS.Base

/-! ## Handing out a block -/

/-- The size `kmalloc` leaves a block it hands out for a request of `size`. -/
def carvedSize (b : Block) (size : Nat) : Nat :=
  if size + headerSize + 32 ≤ b.size then size else b.size

/-- The blocks that `split_block` and the hand-out leave in place of `b`. -/
def carve (b : Block) (size : Nat) : List Block :=
  if size + headerSize + 32 ≤ b.size then
    [⟨b.addr, size, false⟩, ⟨b.addr + headerSize + size, b.size - size - headerSize, true⟩]
  else [⟨b.addr, b.size, false⟩]

def taken (b : Block) (size : Nat) : Block := ⟨b.addr, carvedSize b size, false⟩

theorem carve_eq (b : Block) (size : Nat) :
    ∃ rest, carve b size = taken b size :: rest ∧ ∀ c ∈ rest, c.free = true := by
  unfold carve taken carvedSize
  split
  · exact ⟨_, rfl, by simp⟩
  · exact ⟨[], rfl, by simp⟩

/-- The memory after `split_block` and `block->is_free = 0`. -/
def takeMem (m : Bytes) (block size : Nat) : Bytes := setIsFree (splitBlock m block size) block 0

section Take

variable {m : Bytes} {e q a size nx : Nat} {pre post : List Block} {b : Block}

theorem takeMem_split (hh : Hdr m b nx) (hb : b.fin + 44 ≤ 2 ^ 32) (hnx : nx < 2 ^ 32)
    (hs : size + headerSize + 32 ≤ b.size) :
    Hdr (takeMem m b.addr size) ⟨b.addr, size, false⟩ (b.addr + headerSize + size) ∧
    Hdr (takeMem m b.addr size)
      ⟨b.addr + headerSize + size, b.size - size - headerSize, true⟩ nx ∧
    ∀ x, ¬ InWin b.addr b.fin x → takeMem m b.addr size x = m x := by
  obtain ⟨h1, h2, h3⟩ := hh
  unfold Block.fin headerSize at hb
  unfold headerSize at hs
  have e1 : w32 (size + 12 + 32) = size + 12 + 32 := w32_of_lt (by omega)
  have e2 : w32 (b.addr + 12 + size) = b.addr + 12 + size := w32_of_lt (by omega)
  have e3 : sub32 (sub32 b.size size) 12 = b.size - size - 12 := by
    rw [sub32_of_le (a := b.size) (by omega) (by omega), sub32_of_le (by omega) (by omega)]
  unfold blockSize at h1
  unfold blockNext at h3
  have hm : takeMem m b.addr size = setIsFree (setNext (setSize (setNext (setIsFree
      (setSize m (b.addr + 12 + size) (b.size - size - 12)) (b.addr + 12 + size) 1)
      (b.addr + 12 + size) nx) b.addr size) b.addr (b.addr + 12 + size)) b.addr 0 := by
    unfold takeMem splitBlock headerSize blockSize
    rw [h1, e1, if_pos (by omega)]
    simp only [e2, e3]
    -- the old next pointer is read after two stores to the new header
    rw [show blockNext (setIsFree (setSize m (b.addr + 12 + size) (b.size - size - 12))
        (b.addr + 12 + size) 1) b.addr = nx by
      unfold blockNext setIsFree setSize
      rw [load32_store32_miss _ (by omega), load32_store32_miss _ (by omega), h3]]
  rw [hm]
  refine ⟨⟨?_, ?_, ?_⟩, ⟨?_, ?_, ?_⟩, fun x hx => ?_⟩
  iterate 6
    simp (disch := omega) only [blockSize, blockIsFree, blockNext, setSize, setIsFree, setNext,
      headerSize, load32_store32, load32_store32_miss, Bool.toNat_true, Bool.toNat_false]
  unfold InWin Block.fin headerSize at hx
  simp (disch := omega) only [setSize, setIsFree, setNext, store32_out]

theorem takeMem_whole (hh : Hdr m b nx) (hb : b.fin + 44 ≤ 2 ^ 32) (hf : size ≤ b.size)
    (hs : ¬ size + headerSize + 32 ≤ b.size) :
    Hdr (takeMem m b.addr size) ⟨b.addr, b.size, false⟩ nx ∧
    ∀ x, ¬ InWin b.addr b.fin x → takeMem m b.addr size x = m x := by
  obtain ⟨h1, h2, h3⟩ := hh
  unfold Block.fin headerSize at hb
  unfold headerSize at hs
  have e1 : w32 (size + 12 + 32) = size + 12 + 32 := w32_of_lt (by omega)
  unfold blockSize at h1
  unfold blockNext at h3
  have hm : takeMem m b.addr size = setIsFree m b.addr 0 := by
    unfold takeMem splitBlock headerSize blockSize
    rw [h1, e1, if_neg hs]
  rw [hm]
  refine ⟨⟨?_, ?_, ?_⟩, fun x hx => ?_⟩
  · show load32 (store32 m (b.addr + 4) 0) b.addr = b.size
    rw [load32_store32_miss _ (by omega), h1]
  · exact load32_store32 _ _ (by omega)
  · show load32 (store32 m (b.addr + 4) 0) (b.addr + 8) = nx
    rw [load32_store32_miss _ (by omega), h3]
  · unfold InWin Block.fin headerSize at hx
    exact store32_out (by omega)

theorem seg_sides_frame (m' : Bytes) (h : Seg m e q a (pre ++ b :: post))
    (hout : ∀ x, ¬ InWin b.addr b.fin x → m' x = m x) :
    Seg m' b.addr b.addr a pre ∧ Seg m' e q b.fin post := by
  obtain ⟨h1, -, h2⟩ := seg_split.mp h
  refine ⟨h1.frame_win fun x hx => hout x ?_, h2.frame_win fun x hx => hout x ?_⟩
  · intro hc; exact absurd hx.2 (Nat.not_lt.mpr hc.1)
  · intro hc; exact absurd hc.2 (Nat.not_lt.mpr hx.1)

/-- **Handing out a block** replaces it by `carve` and writes only inside it. -/
theorem take_seg (size : Nat) (h : Seg m e q a (pre ++ b :: post)) (he : e + 44 ≤ 2 ^ 32)
    (hq : q < 2 ^ 32) (hf : size ≤ b.size) :
    Seg (takeMem m b.addr size) e q a (pre ++ carve b size ++ post) ∧
    ∀ x, ¬ InWin b.addr b.fin x → takeMem m b.addr size x = m x := by
  obtain ⟨hp, hh, ht⟩ := seg_split.mp h
  have hfin : b.fin ≤ e := ht.le
  have hnx : link q b.fin post < 2 ^ 32 := by
    cases post with
    | nil => exact hq
    | cons => simp only [link_cons]; omega
  unfold carve
  split
  · rename_i hs
    obtain ⟨w1, w2, hout⟩ := takeMem_split hh (by omega) hnx hs
    obtain ⟨fp, ft⟩ := seg_sides_frame _ h hout
    have hend : (⟨b.addr + headerSize + size, b.size - size - headerSize, true⟩ : Block).fin
        = b.fin := by
      unfold Block.fin headerSize; simp only; unfold headerSize at hs; omega
    refine ⟨?_, hout⟩
    rw [List.append_assoc]
    refine seg_split.mpr ⟨fp, w1, rfl, ?_, ?_⟩
    · rw [hend]; exact w2
    · rw [hend]; exact ft
  · rename_i hs
    obtain ⟨w, hout⟩ := takeMem_whole hh (by omega) hf hs
    obtain ⟨fp, ft⟩ := seg_sides_frame _ h hout
    refine ⟨?_, hout⟩
    rw [List.append_assoc]
    exact seg_split.mpr ⟨fp, w, ft⟩

end Take

/-! ## Growing at the end -/

/-- The list after `n` bytes are added behind the last block `b`. -/
def grow (pre : List Block) (b : Block) (n : Nat) : List Block :=
  if b.free then pre ++ [⟨b.addr, b.size + n, true⟩] else pre ++ [b, ⟨b.fin, n - headerSize, true⟩]

/-- The memory at the end of `heap_expand`. -/
def growMem (m : Bytes) (heapEnd block n : Nat) : Bytes :=
  if blockIsFree m block ≠ 0 then setSize m block (w32 (blockSize m block + n))
  else setNext (writeHeader m heapEnd (sub32 n headerSize) 1 0) block heapEnd

/-- A new header at the end of the list, linked to its last block. -/
theorem link_seg {m : Bytes} {e a size : Nat} {pre : List Block} {b : Block}
    (h : Seg m e 0 a (pre ++ [b])) (hs : size < 2 ^ 32) (he : e < 2 ^ 32) :
    Seg (setNext (writeHeader m e size 1 0) b.addr e) (e + headerSize + size) 0 a
      (pre ++ [b, ⟨e, size, true⟩]) ∧
    ∀ x, ¬ InWin b.addr (b.addr + headerSize) x → ¬ InWin e (e + headerSize) x →
      setNext (writeHeader m e size 1 0) b.addr e x = m x := by
  obtain ⟨hp, hh, hfin⟩ := seg_split.mp h
  replace hfin : b.fin = e := hfin
  obtain ⟨h1, h2, -⟩ := hh
  have hb : b.addr + 12 + b.size = e := hfin
  have hout : ∀ x, ¬ InWin b.addr (b.addr + headerSize) x → ¬ InWin e (e + headerSize) x →
      setNext (writeHeader m e size 1 0) b.addr e x = m x := by
    intro x hx hx'
    unfold InWin headerSize at hx hx'
    simp (disch := omega) only [writeHeader, setSize, setIsFree, setNext, store32_out]
  refine ⟨seg_split.mpr ⟨hp.frame_win fun x hx => hout x ?_ ?_, ⟨?_, ?_, ?_⟩,
    hfin.symm, ⟨?_, ?_, ?_⟩, rfl⟩, hout⟩
  · obtain ⟨_, hx⟩ := hx; unfold InWin; omega
  · obtain ⟨_, hx⟩ := hx; unfold InWin; omega
  · unfold blockSize at h1
    simp (disch := omega) only [blockSize, writeHeader, setSize, setIsFree, setNext,
      load32_store32_miss, h1]
  · unfold blockIsFree at h2
    simp (disch := omega) only [blockIsFree, writeHeader, setSize, setIsFree, setNext,
      load32_store32_miss, h2]
  · simp only [link_cons, hfin]
    exact load32_store32 _ _ he
  all_goals
    simp (disch := omega) only [blockSize, blockIsFree, blockNext, writeHeader, setSize,
      setIsFree, setNext, load32_store32, load32_store32_miss, link_nil, Bool.toNat_true]

/-- **Growing** extends a free last block or links a new one, and writes only
the last header and the twelve bytes at the old end. -/
theorem grow_seg {m : Bytes} {e a n : Nat} {pre : List Block} {b : Block}
    (h : Seg m e 0 a (pre ++ [b])) (hn : headerSize ≤ n) (he : e + n < 2 ^ 32) :
    Seg (growMem m e b.addr n) (e + n) 0 a (grow pre b n) ∧
    ∀ x, ¬ InWin b.addr (b.addr + headerSize) x → ¬ InWin e (e + headerSize) x →
      growMem m e b.addr n x = m x := by
  obtain ⟨hp, ⟨h1, h2, h3⟩, hfin⟩ := seg_split.mp h
  replace hfin : b.fin = e := hfin
  have hb : b.addr + 12 + b.size = e := hfin
  unfold grow growMem
  rw [h1, h2]
  cases hfree : b.free with
  | true =>
    simp only [Bool.toNat_true, ne_eq, Nat.one_ne_zero, not_false_eq_true, ↓reduceIte]
    rw [w32_of_lt (by omega)]
    refine ⟨seg_split.mpr ⟨hp.frame_win (store32_agree m (by omega)), ⟨?_, ?_, ?_⟩, ?_⟩,
      fun x hx _ => ?_⟩
    · exact load32_store32 _ _ (by omega)
    · show load32 (store32 m b.addr (b.size + n)) (b.addr + 4) = 1
      rw [load32_store32_miss _ (by omega)]
      rw [hfree] at h2; exact h2
    · show load32 (store32 m b.addr (b.size + n)) (b.addr + 8) = 0
      rw [load32_store32_miss _ (by omega)]; exact h3
    · show b.addr + headerSize + (b.size + n) = e + n
      unfold headerSize; omega
    · unfold InWin headerSize at hx
      exact store32_out (by omega)
  | false =>
    simp only [Bool.toNat_false, ne_eq, not_true_eq_false, ↓reduceIte, Bool.false_eq_true]
    rw [sub32_of_le hn (by omega), hfin]
    obtain ⟨hseg, hout⟩ := link_seg h (show n - headerSize < 2 ^ 32 by omega) (by omega)
    rw [show e + headerSize + (n - headerSize) = e + n by omega] at hseg
    exact ⟨hseg, hout⟩

/-! ## Coalescing -/

/-- Merge each run of adjacent free blocks into its first block. -/
def coalesce : List Block → List Block
  | [] => []
  | [b] => [b]
  | b :: c :: bs =>
    if b.free && c.free then coalesce (⟨b.addr, b.size + headerSize + c.size, true⟩ :: bs)
    else b :: coalesce (c :: bs)
termination_by bs => bs.length

theorem link_coalesce (q a : Nat) (bs : List Block) : link q a (coalesce bs) = link q a bs := by
  fun_induction coalesce bs with
  | case1 => rfl
  | case2 => rfl
  | case3 b c bs hf ih => exact ih
  | case4 => rfl

theorem absorb_seg {m : Bytes} {e q a : Nat} {b c : Block} {bs : List Block}
    (h : Seg m e q a (b :: c :: bs)) (he : e < 2 ^ 32) (hq : q < 2 ^ 32) (hb : b.free = true) :
    Seg (setNext (setSize m b.addr (w32 (blockSize m b.addr + headerSize + blockSize m c.addr)))
      b.addr (blockNext m c.addr)) e q a (⟨b.addr, b.size + headerSize + c.size, true⟩ :: bs) := by
  obtain ⟨ha, ⟨h1, h2, h3⟩, hc, ⟨g1, g2, g3⟩, hs⟩ := h
  have hle := hs.le
  have hfin : b.addr + 12 + b.size = c.addr := hc.symm
  have hcf : c.addr + 12 + c.size = c.fin := rfl
  have hnx : link q c.fin bs < 2 ^ 32 := by
    cases bs with
    | nil => exact hq
    | cons => simp only [link_cons]; omega
  have hend : (⟨b.addr, b.size + headerSize + c.size, true⟩ : Block).fin = c.fin := by
    simp only [Block.fin, headerSize]; omega
  rw [h1, g1, g3, w32_of_lt (by unfold headerSize; omega)]
  rw [hb] at h2
  refine ⟨ha, ⟨?_, ?_, ?_⟩, ?_⟩
  · show load32 (store32 (store32 m b.addr _) (b.addr + 8) _) b.addr = b.size + headerSize + c.size
    rw [load32_store32_miss _ (by omega), load32_store32 _ _ (by unfold headerSize; omega)]
  · show load32 (store32 (store32 m b.addr _) (b.addr + 8) _) (b.addr + 4) = 1
    rw [load32_store32_miss _ (by omega), load32_store32_miss _ (by omega)]
    exact h2
  · rw [hend]
    exact load32_store32 _ _ hnx
  · rw [hend]
    refine hs.frame_win fun x hx => ?_
    obtain ⟨hx, _⟩ := hx
    simp (disch := omega) only [setSize, setNext, store32_out]

/-- `x` is no header byte of a free block. -/
def OffFree (bs : List Block) (x : Nat) : Prop :=
  ∀ b ∈ bs, b.free = true → ¬ InWin b.addr (b.addr + headerSize) x

/-- `x` is no header byte of a free block with a free block after it. -/
def OffMerge (bs : List Block) (x : Nat) : Prop :=
  ∀ pre b c post, bs = pre ++ b :: c :: post → b.free = true → c.free = true →
    ¬ InWin b.addr (b.addr + headerSize) x

theorem OffFree.offMerge {bs : List Block} {x : Nat} (h : OffFree bs x) : OffMerge bs x :=
  fun _ b _ _ he hb _ => h b (by rw [he]; simp) hb

theorem OffMerge.tail {b : Block} {bs : List Block} {x : Nat} (h : OffMerge (b :: bs) x) :
    OffMerge bs x :=
  fun pre c d post he => h (b :: pre) c d post (by rw [he]; rfl)

/-- **`merge_free_blocks`** coalesces the list; it writes the headers of blocks that
absorb their neighbour, and nothing else. The fuel is one step per block. -/
theorem merge_seg {e : Nat} (he : e < 2 ^ 32) :
    ∀ {n : Nat} {m : Bytes} {a : Nat} {bs : List Block}, Seg m e 0 a bs → 0 < a → bs.length < n →
      ∃ m', mergeFreeBlocks n m (link 0 a bs) = some m' ∧ Seg m' e 0 a (coalesce bs) ∧
        ∀ x, OffMerge bs x → m' x = m x
  | 0, _, _, _, _, _, hn => absurd hn (Nat.not_lt_zero _)
  | n + 1, m, a, [], h, _, _ => ⟨m, by simp [mergeFreeBlocks], by simpa [coalesce] using h, by simp⟩
  | n + 1, m, _, [b], ⟨rfl, hh, hs⟩, _, _ =>
    ⟨m, by simp [mergeFreeBlocks, hh.next], by rw [coalesce]; exact ⟨rfl, hh, hs⟩, by simp⟩
  | n + 1, m, _, b :: c :: bs, ⟨rfl, hh, hs⟩, ha, hn => by
    have hpos : 0 < b.fin := by unfold Block.fin; omega
    have hc : c.addr = b.fin := hs.1
    have hnx : blockNext m b.addr = c.addr := by rw [hh.next, hc]; rfl
    simp only [List.length_cons] at hn
    simp only [link_cons, mergeFreeBlocks, hnx, hh.isFree, hs.2.1.isFree,
      show ¬ (b.addr = 0 ∨ c.addr = 0) by omega, ↓reduceIte]
    rw [coalesce]
    by_cases hf : (b.free && c.free) = true
    · -- the merged block is the head of a shorter list
      obtain ⟨hb, hcf⟩ := Bool.and_eq_true_iff.mp hf
      have hcond : b.free.toNat ≠ 0 ∧ c.free.toNat ≠ 0 := by simp [hb, hcf]
      have hnc : blockNext (setSize m b.addr
          (w32 (blockSize m b.addr + headerSize + blockSize m c.addr))) c.addr
          = blockNext m c.addr := by
        refine load32_store32_miss _ ?_
        unfold Block.fin headerSize at hc; omega
      rw [if_pos hcond, if_pos hf, hnc]
      obtain ⟨m', hm', hseg, hout⟩ := merge_seg he (n := n)
        (absorb_seg ⟨rfl, hh, hs⟩ he (by omega) hb) ha (by simp only [List.length_cons]; omega)
      refine ⟨m', hm', hseg, fun x hx => ?_⟩
      have hxb := hx [] b c bs rfl hb hcf
      rw [hout x]
      · unfold InWin headerSize at hxb
        simp (disch := omega) only [setSize, setNext, store32_out]
      · intro pre d d' post he hd hd'
        cases pre with
        | nil =>
          cases he
          exact hxb
        | cons _ pre =>
          cases he
          exact hx (b :: c :: pre) d d' post rfl hd hd'
    · have hcond : ¬ (b.free.toNat ≠ 0 ∧ c.free.toNat ≠ 0) := by
        intro hcond; apply hf
        cases hb : b.free <;> cases hcf : c.free <;> simp_all
      rw [if_neg hcond, if_neg hf]
      have hlink : link 0 b.fin (c :: bs) = c.addr := by rw [hc]; rfl
      obtain ⟨m', hm', hseg, hout⟩ := merge_seg he hs hpos (n := n)
        (by simp only [List.length_cons]; omega)
      rw [hlink] at hm'
      refine ⟨m', hm', ⟨rfl, ?_, hseg⟩, fun x hx => hout x hx.tail⟩
      rw [link_coalesce]
      refine hh.frame fun x hx => hout x fun pre d d' post he _ _ hw => ?_
      have hbd := (hs.bounds d (by rw [he]; simp)).1
      obtain ⟨hw1, _⟩ := hw
      obtain ⟨_, hx2⟩ := hx
      unfold Block.fin headerSize at *
      omega

end TupleOS.Heap
