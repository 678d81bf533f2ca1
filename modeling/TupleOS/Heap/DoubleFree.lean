import TupleOS.Heap.Accounting
import TupleOS.Heap.Requests

/-!
# Double frees

`kfree` tells a double free by the `is_free` word of the header right before the pointer.
That header may have been merged into another block since, and the word belongs to whoever
has the bytes now. A second `kfree` changes nothing exactly when the word is still nonzero,
or when it and the size before it are zero inside a free payload
(`double_free_detected`). Otherwise it writes into a live payload or into the list
(`double_free_missed`).
-/

namespace TupleOS.Heap

open TupleOS.Base TupleOS.Memory

/-! ## What a walk reads -/

section Walk

variable {m m' : Bytes}

theorem readBlocks_flags : ∀ {n block : Nat} {bs : List Block}, readBlocks m n block = some bs →
    (∀ b ∈ bs, blockNext m' b.addr = blockNext m b.addr ∧
      blockIsFree m' b.addr = blockIsFree m b.addr) →
    ∃ bs', readBlocks m' n block = some bs' ∧ bs'.map Block.free = bs.map Block.free
  | 0, _, _, h, _ => by cases h
  | n + 1, block, bs, h, hag => by
    by_cases h0 : block = 0
    · rw [readBlocks, if_pos h0] at h
      cases h
      exact ⟨[], by rw [readBlocks, if_pos h0], rfl⟩
    · obtain ⟨cs, hcs, rfl⟩ := readBlocks_succ h0 h
      obtain ⟨hnext, hfree⟩ := hag _ List.mem_cons_self
      obtain ⟨cs', hcs', hmap⟩ := readBlocks_flags hcs fun b hb => hag b (List.mem_cons_of_mem _ hb)
      simp only at hnext hfree
      refine ⟨⟨block, blockSize m' block, blockIsFree m block ≠ 0⟩ :: cs', ?_, by simp [hmap]⟩
      rw [readBlocks, if_neg h0, hnext, hcs', hfree]
      rfl

theorem coalesced_flags {bs bs' : List Block} (h : bs'.map Block.free = bs.map Block.free)
    (hco : Coalesced bs) : Coalesced bs' := by
  have hco' : (bs.map Block.free).IsChain fun x y => x = false ∨ y = false :=
    (List.isChain_map Block.free).mpr hco
  rw [← h] at hco'
  exact (List.isChain_map Block.free).mp hco'

theorem readBlocks_seg_append {e q k : Nat} {cs : List Block} (hq : readBlocks m k q = some cs) :
    ∀ {bs : List Block} {a : Nat}, Seg m e q a bs → 0 < a →
      readBlocks m (bs.length + k) (link q a bs) = some (bs ++ cs)
  | [], _, _, _ => by simpa using hq
  | b :: bs, _, ⟨rfl, hh, hs⟩, ha => by
    have hfin : 0 < b.fin := by unfold Block.fin; omega
    rw [List.length_cons, Nat.add_right_comm, link_cons, readBlocks,
      if_neg (by omega), hh.next, readBlocks_seg_append hq hs hfin, hh.read]
    rfl

theorem Seg.block_of {e q x : Nat} : ∀ {bs : List Block} {a : Nat}, Seg m e q a bs → a ≤ x → x < e →
    ∃ b ∈ bs, b.addr ≤ x ∧ x < b.fin
  | [], _, h, hlo, hhi => by
    have : _ = e := h
    omega
  | b :: bs, _, ⟨rfl, _, hs⟩, hlo, hhi => by
    by_cases hx : x < b.fin
    · exact ⟨b, List.mem_cons_self, hlo, hx⟩
    · obtain ⟨c, hc, h1, h2⟩ := hs.block_of (Nat.le_of_not_lt hx) hhi
      exact ⟨c, List.mem_cons_of_mem _ hc, h1, h2⟩

end Walk

/-! ## The second `kfree` -/

/-- The block list, every header, every live payload and the counter are as before. -/
structure NoEffect (s : HeapState) (h' : KHeap) : Prop where
  blocks : readBlocks h'.mem walkFuel h'.firstBlock =
    readBlocks s.heap.mem walkFuel s.heap.firstBlock
  headers : ∀ bs, readBlocks s.heap.mem walkFuel s.heap.firstBlock = some bs →
    ∀ b ∈ bs, AgreeOn s.heap.mem h'.mem b.addr b.payload
  payloads : ∀ l ∈ s.live, AgreeOn s.heap.mem h'.mem l.ptr (l.ptr + s.payloadSize l)
  used : h'.totalAllocated = s.heap.totalAllocated

/-- The old header before `p` still says free, or its first two words are zero and the
second one lies in a free payload. -/
def Harmless (h : KHeap) (p : Nat) : Prop :=
  blockIsFree h.mem (p - headerSize) ≠ 0 ∨ blockSize h.mem (p - headerSize) = 0 ∧
    ∃ bs, readBlocks h.mem walkFuel h.firstBlock = some bs ∧ ∃ b ∈ bs, b.free = true ∧
      b.payload + 8 ≤ p ∧ p ≤ b.fin + 4

/-- What is left of a pointer that was handed out: a word inside the heap. -/
structure OldPtr (h : KHeap) (p : Nat) : Prop where
  lo : heapStartAddr + headerSize ≤ p
  hi : p ≤ h.heapEnd
  word : p % 4 = 0

section Second

variable {s : HeapState} {h' : KHeap} {bs : List Block} {b : Block} {p : Nat}

theorem NoEffect.refl (s : HeapState) : NoEffect s s.heap :=
  ⟨rfl, fun _ _ _ _ => .refl _ _ _, fun _ _ => .refl _ _ _, rfl⟩

theorem OldPtr.header (hp : OldPtr s.heap p) (H : HeapOk s.heap s.live bs) :
    p ≠ 0 ∧ sub32 p headerSize = p - headerSize := by
  have h1 := hp.lo
  have h2 := hp.hi
  have hend := H.end_le
  have hbig : heapMaxAddr < 2 ^ 32 := by decide
  exact ⟨by unfold headerSize at h1; omega, sub32_of_le (by omega) (by omega)⟩

/-- The heap after a second `kfree` that sees a zero word and merges nothing. -/
def markedFree (h : KHeap) (p : Nat) : KHeap :=
  { h with
    mem := setIsFree h.mem (p - headerSize) 1
    totalAllocated := sub32 h.totalAllocated (blockSize h.mem (p - headerSize)) }

theorem kfree_settled {cs : List Block} (H : HeapOk s.heap s.live bs) (hp : OldPtr s.heap p)
    (hz : blockIsFree s.heap.mem (p - headerSize) = 0)
    (hcs : readBlocks (setIsFree s.heap.mem (p - headerSize) 1) walkFuel s.heap.firstBlock =
      some cs)
    (hco : Coalesced cs) : kfree s.heap p = some (markedFree s.heap p) := by
  obtain ⟨hp0, hsub⟩ := hp.header H
  have he := kfree_eq p hp0 (by rw [hsub]; exact hz)
    (by rw [hsub]; exact mergeFreeBlocks_settled hcs hco)
  rwa [hsub, blockSize_setIsFree] at he

theorem HeapOk.kfree_payload (H : HeapOk s.heap s.live bs) (hp : OldPtr s.heap p) (hb : b ∈ bs)
    (hlo : b.payload + 8 ≤ p) (hhi : p ≤ b.fin + 4)
    (hz : blockIsFree s.heap.mem (p - headerSize) = 0) :
    Heap.kfree s.heap p = some (markedFree s.heap p) ∧
      HeapOk { s.heap with mem := (markedFree s.heap p).mem } s.live bs ∧
      ∀ x, ¬ InWin b.payload b.fin x → (markedFree s.heap p).mem x = s.heap.mem x := by
  have hout : ∀ x, ¬ InWin b.payload b.fin x → (markedFree s.heap p).mem x = s.heap.mem x := by
    intro x hx
    have h1 := hp.lo
    refine setIsFree_out fun hw => hx ?_
    unfold InWin headerSize at *
    omega
  have H₁ := H.write hb hout
  exact ⟨kfree_settled H hp hz H₁.read.1 H₁.coalesced, H₁, hout⟩

/-- **A harmless second `kfree`** has no effect. -/
theorem HeapOk.kfree_harmless (H : HeapOk s.heap s.live bs) (hp : OldPtr s.heap p)
    (hh : Harmless s.heap p) :
    ∃ h', Heap.kfree s.heap p = some h' ∧ NoEffect s h' ∧ HeapOk h' s.live bs ∧
      ∀ x, ¬ InWin heapStartAddr heapMaxAddr x → h'.mem x = s.heap.mem x := by
  obtain ⟨hp0, hsub⟩ := hp.header H
  by_cases hz : blockIsFree s.heap.mem (p - headerSize) = 0
  · obtain ⟨hsize, cs, hcs, b, hb, hbf, hlo, hhi⟩ := hh.resolve_left (not_not.mpr hz)
    obtain rfl : bs = cs := Option.some.inj (H.read.1.symm.trans hcs)
    obtain ⟨he, H₁, hout⟩ := H.kfree_payload hp hb hlo hhi hz
    have hub := H.seg.usedBytes_le
    have hused := H.used
    have hend := H.end_le
    have hbig : heapMaxAddr < 2 ^ 32 := by decide
    have htot : sub32 s.heap.totalAllocated (blockSize s.heap.mem (p - headerSize)) =
        s.heap.totalAllocated := by
      rw [hsize, sub32_of_le (Nat.zero_le _) (by omega), Nat.sub_zero]
    have hmark : markedFree s.heap p = { s.heap with mem := (markedFree s.heap p).mem } := by
      rw [markedFree, htot]
    have hbp : b.payload = b.addr + headerSize := rfl
    refine ⟨_, he, ⟨H₁.read.1.trans H.read.1.symm, fun cs hcs c hc x hx => ?_,
      fun l hl x hx => ?_, htot⟩, by rw [hmark]; exact H₁, fun x hx => hout x fun hw => hx ?_⟩
    · obtain rfl : bs = cs := Option.some.inj (H.read.1.symm.trans hcs)
      have hcf : c.fin = c.payload + c.size := rfl
      have hcp : c.payload = c.addr + headerSize := rfl
      refine hout x fun hw => ?_
      unfold InWin at hx hw
      rcases H.seg.sep hc hb with rfl | h' | h' <;> omega
    · obtain ⟨d, hd, hdf, hdp, hfin, -⟩ := H.payload hl
      have hdp' : d.payload = d.addr + headerSize := rfl
      refine hout x fun hw => ?_
      unfold InWin at hx hw
      rcases H.seg.sep hd hb with rfl | h' | h'
      · rw [hbf] at hdf; cases hdf
      · omega
      · omega
    · obtain ⟨h1, h2⟩ := H.addr_pos hb
      unfold InWin at hw ⊢
      omega
  · have he : Heap.kfree s.heap p = some s.heap := by
      simp only [Heap.kfree, hp0, hsub, hz, ne_eq, not_false_eq_true, ↓reduceIte]
    exact ⟨s.heap, he, .refl s, H, fun _ _ => rfl⟩

theorem NoEffect.not_marked {x : Nat} (hx : x = p - headerSize + 4)
    (hz : blockIsFree s.heap.mem (p - headerSize) = 0)
    (hag : AgreeOn s.heap.mem (markedFree s.heap p).mem x (x + 4)) : False := by
  subst hx
  have h0 : load32 s.heap.mem (p - headerSize + 4) = 0 := hz
  have h1 : load32 (markedFree s.heap p).mem (p - headerSize + 4) = 1 :=
    load32_store32 _ _ (by decide)
  rw [load32_congr hag, h0] at h1
  cases h1

theorem HeapOk.kfree_on_size (H : HeapOk s.heap s.live bs) (hp : OldPtr s.heap p) (hb : b ∈ bs)
    (hat : p = b.addr + 8) (hz : blockIsFree s.heap.mem (p - headerSize) = 0) :
    Heap.kfree s.heap p = some (markedFree s.heap p) := by
  have hflags : ∀ c ∈ bs, blockNext (setIsFree s.heap.mem (p - headerSize) 1) c.addr =
        blockNext s.heap.mem c.addr ∧
      blockIsFree (setIsFree s.heap.mem (p - headerSize) 1) c.addr =
        blockIsFree s.heap.mem c.addr := by
    intro c hc
    have hbf : b.fin = b.addr + 12 + b.size := rfl
    have hcf : c.fin = c.addr + 12 + c.size := rfl
    have hoff : p - headerSize + 4 + 4 ≤ c.addr + 4 ∨ c.addr + 12 ≤ p - headerSize + 4 := by
      have h1 := hp.lo
      unfold headerSize at *
      rcases H.seg.sep hc hb with rfl | h' | h' <;> omega
    exact ⟨load32_store32_miss _ (by omega), load32_store32_miss _ (by omega)⟩
  obtain ⟨cs, hcs, hmap⟩ := readBlocks_flags H.read.1 hflags
  exact kfree_settled H hp hz hcs (coalesced_flags hmap H.coalesced)

/-- The word is the link of a last block in use: the walk goes on at address 1. -/
theorem HeapOk.kfree_on_link {pre : List Block} (H : HeapOk s.heap s.live (pre ++ [b]))
    (hp : OldPtr s.heap p) (hbf : b.free = false) (hat : p = b.addr + 16)
    (hlow : blockNext s.heap.mem 1 = 0) (hz : blockIsFree s.heap.mem (p - headerSize) = 0) :
    Heap.kfree s.heap p = some (markedFree s.heap p) := by
  obtain ⟨hpre, hh, hfin⟩ := seg_split.mp H.seg
  have hword : p - headerSize + 4 = b.addr + 8 := by unfold headerSize; omega
  have hmem : setIsFree s.heap.mem (p - headerSize) 1 = setNext s.heap.mem b.addr 1 := by
    unfold setIsFree setNext
    rw [hword]
  obtain ⟨hlo, -⟩ := H.addr_pos (b := b) (by simp)
  have hst : heapStartAddr = 0xC0400000 := rfl
  have hseg : Seg (setNext s.heap.mem b.addr 1) s.heap.heapEnd 1 heapStartAddr (pre ++ [b]) := by
    refine seg_split.mpr ⟨hpre.frame_win (store32_agree _ (by omega)), ⟨?_, ?_, ?_⟩, hfin⟩
    · exact (load32_store32_miss _ (by omega)).trans hh.size
    · exact (load32_store32_miss _ (by omega)).trans hh.isFree
    · exact load32_store32 _ _ (by decide)
  have hone : ∀ k, readBlocks (setNext s.heap.mem b.addr 1) (k + 2) 1 =
      some [⟨1, blockSize (setNext s.heap.mem b.addr 1) 1,
        blockIsFree (setNext s.heap.mem b.addr 1) 1 ≠ 0⟩] := by
    intro k
    have hnext : blockNext (setNext s.heap.mem b.addr 1) 1 = 0 :=
      (load32_store32_miss _ (by omega)).trans hlow
    rw [readBlocks, if_neg (by decide), hnext, readBlocks, if_pos rfl]
    rfl
  have hlen : (pre ++ [b]).length + 2 ≤ walkFuel := by
    have hle := H.seg.length_le
    have hend := H.end_le
    unfold headerSize heapMaxAddr heapStartAddr maxHeapSize walkFuel at *
    omega
  have hread := readBlocks_seg_append (hone (walkFuel - ((pre ++ [b]).length + 2))) hseg (by omega)
  rw [link_append_cons, ← H.first_eq, ← hmem, show (pre ++ [b]).length +
    (walkFuel - ((pre ++ [b]).length + 2) + 2) = walkFuel by omega] at hread
  refine kfree_settled H hp hz hread (List.isChain_append.mpr ⟨H.coalesced, .singleton _, ?_⟩)
  intro c hc _ _
  rw [List.getLast?_append_cons, List.getLast?_singleton, Option.mem_some_iff] at hc
  exact .inl (hc ▸ hbf)

/-- The word lies in a payload: setting it shows in a live one, and in a free one the
counter tells. -/
theorem HeapOk.harmless_of_payload (H : HeapOk s.heap s.live bs) (hp : OldPtr s.heap p)
    (hb : b ∈ bs) (hlo : b.payload + 8 ≤ p) (hhi : p ≤ b.fin + 4)
    (hz : blockIsFree s.heap.mem (p - headerSize) = 0) (he : Heap.kfree s.heap p = some h')
    (hne : NoEffect s h') : Harmless s.heap p := by
  have h1 := hp.lo
  have hhs : headerSize = 12 := rfl
  obtain ⟨he', -⟩ := H.kfree_payload hp hb hlo hhi hz
  obtain rfl : markedFree s.heap p = h' := Option.some.inj (he'.symm.trans he)
  cases hfree : b.free with
  | false =>
    obtain ⟨l, hl, hlp⟩ := H.block_live b hb hfree
    obtain ⟨d, hd, -, hdp, hfin, -⟩ := H.payload hl
    have hdb : d.addr = b.addr := by
      have hbp : b.payload = b.addr + 12 := rfl
      have hdp' : d.payload = d.addr + 12 := rfl
      omega
    obtain rfl := H.seg.addr_inj hd hb hdb
    exact (NoEffect.not_marked rfl hz ((hne.payloads l hl).mono (by omega) (by omega))).elim
  | true =>
    refine .inr ⟨?_, bs, H.read.1, b, hb, hfree, hlo, hhi⟩
    exact eq_zero_of_sub32_self (load32_lt _ _) hne.used

/-- The word is the link of `b`, which is `NULL`: setting it shows in the header of an
allocated block, and for a free one the counter loses its flag. -/
theorem HeapOk.link_shows (H : HeapOk s.heap s.live bs) (hp : OldPtr s.heap p) (hb : b ∈ bs)
    (hat : p = b.addr + 16) (hlow : blockNext s.heap.mem 1 = 0)
    (hz : blockIsFree s.heap.mem (p - headerSize) = 0) (he : Heap.kfree s.heap p = some h')
    (hne : NoEffect s h') : False := by
  have hhs : headerSize = 12 := rfl
  have hsub : p - headerSize = b.addr + 4 := by omega
  have hbp : b.payload = b.addr + 12 := rfl
  obtain ⟨pre, post, rfl⟩ := List.append_of_mem hb
  obtain ⟨-, hh, -⟩ := seg_split.mp H.seg
  have hnull : blockNext s.heap.mem b.addr = 0 := by
    rw [hsub] at hz
    exact hz
  obtain rfl : post = [] := by
    cases post with
    | nil => rfl
    | cons c post =>
      have hnext := hh.next
      have hlo := (H.addr_pos hb).1
      have hst : heapStartAddr = 0xC0400000 := rfl
      have hbf : b.fin = b.addr + 12 + b.size := rfl
      rw [hnull, link_cons] at hnext
      omega
  cases hfree : b.free with
  | false =>
    have he' := H.kfree_on_link hp hfree hat hlow hz
    obtain rfl := Option.some.inj (he.symm.trans he')
    have hag := hne.headers _ H.read.1 b hb
    exact NoEffect.not_marked (x := b.addr + 8) (by omega) hz (hag.mono (by omega) (by omega))
  | true =>
    obtain ⟨hp0, hsub'⟩ := hp.header H
    obtain ⟨m', -, rfl⟩ := kfree_undetected hp0 hsub' hz he
    have hone : blockSize s.heap.mem (p - headerSize) = 1 := by
      rw [hsub]
      exact hh.isFree.trans (by rw [hfree]; rfl)
    have hused := hne.used
    simp only [blockSize_setIsFree, hone] at hused
    cases eq_zero_of_sub32_self (by decide) hused

/-- **What a second `kfree` without effect needs.** The word before `p` is in a header, a
live payload or a free one; setting it shows in all but the last, and there the counter
tells. -/
theorem HeapOk.harmless_of_noEffect (H : HeapOk s.heap s.live bs) (hp : OldPtr s.heap p)
    (hst : ∀ l ∈ s.live, l.ptr ≠ p) (hlow : blockNext s.heap.mem 1 = 0)
    (he : Heap.kfree s.heap p = some h') (hne : NoEffect s h') : Harmless s.heap p := by
  by_cases hz : blockIsFree s.heap.mem (p - headerSize) = 0
  · have h1 := hp.lo
    have h2 := hp.hi
    have h3 := hp.word
    have hhs : headerSize = 12 := rfl
    obtain ⟨b, hb, hlo, hhi⟩ := H.seg.block_of (x := p - 8) (by omega) (by omega)
    have hal := H.seg.addr_word H.words (by decide) b hb
    have hsz := H.words b hb
    have hbp : b.payload = b.addr + 12 := rfl
    have hbf : b.fin = b.addr + 12 + b.size := rfl
    by_cases hpay : b.payload ≤ p - 8
    · exact H.harmless_of_payload hp hb (by omega) (by omega) hz he hne
    · obtain hw | hw | hw : p = b.addr + 8 ∨ p = b.addr + 12 ∨ p = b.addr + 16 := by omega
      · -- the size of `b`
        have he' := H.kfree_on_size hp hb hw hz
        obtain rfl := Option.some.inj (he.symm.trans he')
        have hag := hne.headers bs H.read.1 b hb
        exact (NoEffect.not_marked (x := b.addr) (by omega) hz
          (hag.mono (by omega) (by omega))).elim
      · -- its flag: `b` is free, or `p` is live
        obtain ⟨nx, hh⟩ := H.seg.hdr hb
        rw [hw, hhs, Nat.add_sub_cancel, hh.isFree] at hz
        obtain ⟨l, hl, hlp⟩ := H.block_live b hb (by simpa using hz)
        exact absurd (by omega) (hst l hl)
      · exact (H.link_shows hp hb hw hlow hz he hne).elim
  · exact .inl hz

end Second

/-! ## Runs -/

/-- The clients and the pointers they have given back. -/
structure FreeLog where
  state : HeapState
  freed : List Nat

/-- The pointer that a request gives back. -/
def Request.givesBack {σ : Type} : Request σ → List Nat
  | .kmalloc _ _ => []
  | .kmallocAligned _ _ => []
  | .kcalloc _ _ _ => []
  | .kfree p => [p]
  | .write _ _ => []

def loggedRequest {σ : Type} (E : PageEnv σ) (s : FreeLog) (r : Request σ) : Option FreeLog :=
  (request E s.state r).map fun s' => ⟨s', r.givesBack ++ s.freed⟩

/-- `p` was given back and is not the start of a live allocation. -/
def FreeLog.Stale (s : FreeLog) (p : Nat) : Prop :=
  p ∈ s.freed ∧ ∀ l ∈ s.state.live, l.ptr ≠ p

/-- Proper requests, and second `kfree`s that are harmless. -/
def FreeLog.Allows {σ : Type} (s : FreeLog) (r : Request σ) : Prop :=
  r.Proper s.state ∨ ∃ p, r = .kfree p ∧ s.Stale p ∧ Harmless s.state.heap p

def LogGuard (L : Layout) (s : FreeLog) (r : Request Answers) : Prop :=
  s.Allows r ∧ NoWrap s.state.heap r.bytes ∧ r.Meets (Answers.Quiet L)

/-- The heap is good, and every pointer that was given back is an old one. -/
structure LogInv (L : Layout) (s : FreeLog) : Prop where
  good : GoodHeap (TablesOk L) s.state
  old : ∀ p ∈ s.freed, OldPtr s.state.heap p

section Runs

variable {L : Layout} {s s' : FreeLog} {r : Request Answers} {p : Nat}

theorem OldPtr.mono {h h' : KHeap} (hp : OldPtr h p) (hle : h.heapEnd ≤ h'.heapEnd) : OldPtr h' p :=
  ⟨hp.lo, Nat.le_trans hp.hi hle, hp.word⟩

theorem HeapOk.oldPtr {s : HeapState} {bs : List Block} (H : HeapOk s.heap s.live bs) {l : Alloc}
    (hl : l ∈ s.live) : OldPtr s.heap l.ptr := by
  obtain ⟨b, hb, -, hbp, -⟩ := H.payload hl
  obtain ⟨hlo, hhi⟩ := H.addr_pos hb
  have hal := H.seg.addr_word H.words (by decide) b hb
  have hbp' : b.payload = b.addr + 12 := rfl
  have hbf : b.fin = b.addr + 12 + b.size := rfl
  refine ⟨?_, ?_, ?_⟩
  · show heapStartAddr + 12 ≤ _
    omega
  · omega
  · omega

theorem dropPtr_of_stale {live : List Alloc} (h : ∀ l ∈ live, l.ptr ≠ p) :
    dropPtr p live = live := by
  apply List.filter_eq_self.mpr
  intro l hl
  simpa using h l hl

theorem LogInv.step (h : LogInv L s) (hr : LogGuard L s r)
    (he : loggedRequest (heapEnv L) s r = some s') : LogInv L s' := by
  obtain ⟨hall, hw, hm⟩ := hr
  obtain ⟨t, ht, rfl⟩ := Option.map_eq_some_iff.mp he
  rcases hall with hp | ⟨p, rfl, hst, hh⟩
  · obtain ⟨t', ht', hgood, hle⟩ := (heapEnv_calls L).step h.good hp hw hm
    obtain rfl : t = t' := Option.some.inj (ht.symm.trans ht')
    refine ⟨hgood, fun q hq => ?_⟩
    rcases List.mem_append.mp hq with hq | hq
    · cases r with
      | kfree p =>
        obtain ⟨⟨bs, H⟩, -⟩ := h.good
        obtain ⟨l, hl, rfl⟩ := hp
        obtain rfl := List.mem_singleton.mp hq
        exact (H.oldPtr hl).mono hle
      | _ => cases hq
    · exact (h.old q hq).mono hle
  · obtain ⟨⟨bs, H⟩, hT⟩ := h.good
    obtain ⟨h', hk, -, H', hout⟩ := H.kfree_harmless (h.old p hst.1) hh
    rw [request, hk, Option.map_some, dropPtr_of_stale hst.2] at ht
    cases ht
    have hfin : h'.heapEnd = s.state.heap.heapEnd := (kfree_bounds hk).fin
    refine ⟨⟨⟨bs, H'⟩, hT.frame (agree_pageDirectory hout)⟩, fun q hq => ?_⟩
    have hq' : q ∈ s.freed := by
      rcases List.mem_cons.mp hq with rfl | hq
      · exact hst.1
      · exact hq
    exact (h.old q hq').mono (Nat.le_of_eq hfin.symm)

/-- **Double frees.** In every state that clients reach from a successful boot, a second
`kfree` has no effect if it is harmless, and only then as long as the page at address 0
reads as zero. -/
theorem double_free_detected {m : Bytes} {a a' : Answers} {h : KHeap} {rs : List (Request Answers)}
    (ha : a.Quiet L) (hboot : bootHeap L m a = some (true, h, a'))
    (hrun : Run (loggedRequest (heapEnv L)) (LogGuard L) ⟨⟨h, []⟩, []⟩ rs s) (hp : s.Stale p) :
    (Harmless s.state.heap p → ∃ h', kfree s.state.heap p = some h' ∧ NoEffect s.state h') ∧
    (blockNext s.state.heap.mem 1 = 0 →
      (∃ h', kfree s.state.heap p = some h' ∧ NoEffect s.state h') → Harmless s.state.heap p) := by
  have hinv : LogInv L s :=
    hrun.invariant (LogInv L) (fun hs hr he => hs.step hr he) ⟨bootHeap_inv ha.1 ha.2 hboot, nofun⟩
  obtain ⟨⟨bs, H⟩, -⟩ := hinv.good
  have hold := hinv.old p hp.1
  refine ⟨fun hh => ?_, fun hlow hne => ?_⟩
  · obtain ⟨h', he, hne, -⟩ := H.kfree_harmless hold hh
    exact ⟨h', he, hne⟩
  · obtain ⟨h', he, hne⟩ := hne
    exact H.harmless_of_noEffect hold hp.2 hlow he hne

theorem two_logged {h : KHeap} (H : HeapOk h [] [bootBlock]) : ∃ h₃ h₄,
    HeapOk h₃ [⟨0xC0400020, 8⟩] (firstFreed :: secondTaken) ∧ HeapOk h₄ [] [bootBlock] ∧
    Run (loggedRequest (heapEnv L)) (LogGuard L) ⟨⟨h, []⟩, []⟩
      [.kmalloc 8 ⟨[], []⟩, .kmalloc 8 ⟨[], []⟩, .kfree 0xC040000C]
      ⟨⟨h₃, [⟨0xC0400020, 8⟩]⟩, [0xC040000C]⟩ ∧
    LogGuard L ⟨⟨h₃, [⟨0xC0400020, 8⟩]⟩, [0xC040000C]⟩ (.kfree 0xC0400020) ∧
    loggedRequest (heapEnv L) ⟨⟨h₃, [⟨0xC0400020, 8⟩]⟩, [0xC040000C]⟩ (.kfree 0xC0400020) =
      some ⟨⟨h₄, []⟩, [0xC0400020, 0xC040000C]⟩ := by
  obtain ⟨h₁, h₂, h₃, h₄, t⟩ := two_served (heapEnv L) ⟨[], []⟩ H
  have hs₁ : loggedRequest (heapEnv L) ⟨⟨h, []⟩, []⟩ (.kmalloc 8 ⟨[], []⟩) =
      some ⟨⟨h₁, [⟨0xC040000C, 8⟩]⟩, []⟩ := by
    rw [loggedRequest, request, t.call₁]; rfl
  have hs₂ : loggedRequest (heapEnv L) ⟨⟨h₁, [⟨0xC040000C, 8⟩]⟩, []⟩ (.kmalloc 8 ⟨[], []⟩) =
      some ⟨⟨h₂, [⟨0xC0400020, 8⟩, ⟨0xC040000C, 8⟩]⟩, []⟩ := by
    rw [loggedRequest, request, t.call₂]; rfl
  have hs₃ : loggedRequest (heapEnv L) ⟨⟨h₂, [⟨0xC0400020, 8⟩, ⟨0xC040000C, 8⟩]⟩, []⟩
      (.kfree 0xC040000C) = some ⟨⟨h₃, [⟨0xC0400020, 8⟩]⟩, [0xC040000C]⟩ := by
    rw [loggedRequest, request, t.call₃]; rfl
  have hs₄ : loggedRequest (heapEnv L) ⟨⟨h₃, [⟨0xC0400020, 8⟩]⟩, [0xC040000C]⟩
      (.kfree 0xC0400020) = some ⟨⟨h₄, []⟩, [0xC0400020, 0xC040000C]⟩ := by
    rw [loggedRequest, request, t.call₄]; rfl
  have hquiet : Answers.Quiet L ⟨[], []⟩ := ⟨noAnswers_fromPmm L, noAnswers_tablesOffHeap⟩
  have hk : ∀ {t : FreeLog} {bs : List Block}, HeapOk t.state.heap t.state.live bs →
      LogGuard L t (.kmalloc 8 ⟨[], []⟩) :=
    fun H => ⟨.inl trivial, H.noWrap (by decide), hquiet⟩
  refine ⟨h₃, h₄, t.ok₃, t.ok₄, .cons (hk H) hs₁ <| .cons (hk t.ok₁) hs₂ <|
    .cons ⟨.inl ⟨⟨0xC040000C, 8⟩, by simp, rfl⟩, t.ok₂.noWrap (Nat.zero_le _), trivial⟩ hs₃
      (.nil _), ⟨.inl ⟨⟨0xC0400020, 8⟩, by simp, rfl⟩, t.ok₃.noWrap (Nat.zero_le _), trivial⟩, hs₄⟩

/-- The theorem for the first block, whose header still says free. -/
theorem double_free_detected_first : ∃ h a' s,
    bootHeap sampleLayout (fun _ => 0) sampleBoot = some (true, h, a') ∧
    Run (loggedRequest (heapEnv sampleLayout)) (LogGuard sampleLayout) ⟨⟨h, []⟩, []⟩
      [.kmalloc 8 ⟨[], []⟩, .kmalloc 8 ⟨[], []⟩, .kfree 0xC040000C] s ∧ s.Stale 0xC040000C ∧
    ∃ h', kfree s.state.heap 0xC040000C = some h' ∧ NoEffect s.state h' := by
  obtain ⟨hf, ho, -⟩ := sampleBoot_ok
  obtain ⟨h, a', hboot⟩ := sampleBoot_succeeds fun _ => 0
  obtain ⟨h₃, h₄, H₃, -, hrun, -⟩ := two_logged (L := sampleLayout) (bootHeap_ok hf ho hboot).1
  have hst : FreeLog.Stale ⟨⟨h₃, [⟨0xC0400020, 8⟩]⟩, [0xC040000C]⟩ 0xC040000C :=
    ⟨List.mem_singleton_self _, by simp⟩
  obtain ⟨nx, hh⟩ := H₃.seg.hdr (b := firstFreed) List.mem_cons_self
  have hharm : Harmless h₃ 0xC040000C := .inl (hh.isFree.trans_ne (by decide))
  exact ⟨h, a', _, hboot, hrun, hst, (double_free_detected ⟨hf, ho⟩ hboot hrun hst).1 hharm⟩

end Runs

/-! ## A header that became payload -/

section Missed

variable {L : Layout}

theorem zeroing_run {l : Alloc} {bs : List Block} {f : List Nat} :
    ∀ (xs : List Nat) {s : HeapState},
    HeapOk s.heap s.live bs → l ∈ s.live → (∀ x ∈ xs, InWin l.ptr (l.ptr + l.req) x) →
    ∃ s' : HeapState, Run (loggedRequest (heapEnv L)) (LogGuard L) ⟨s, f⟩
        (xs.map fun x => .write x 0) ⟨s', f⟩ ∧
      HeapOk s'.heap s'.live bs ∧ s'.live = s.live ∧ (∀ x ∈ xs, s'.heap.mem x = 0) ∧
      ∀ x, s.heap.mem x = 0 → s'.heap.mem x = 0
  | [], s, H, _, _ => ⟨s, .nil _, H, rfl, nofun, fun _ h => h⟩
  | x :: xs, s, H, hl, hxs => by
    obtain ⟨b, -, -, -, -, hreq⟩ := H.payload hl
    obtain ⟨hx1, hx2⟩ := hxs x List.mem_cons_self
    have hx : InWin l.ptr (l.ptr + s.payloadSize l) x := ⟨hx1, by omega⟩
    have hr : LogGuard L ⟨s, f⟩ (.write x 0) :=
      ⟨.inl ⟨l, hl, hx⟩, H.noWrap (Nat.zero_le _), trivial⟩
    obtain ⟨H₁, -⟩ := H.write_live hl hx 0
    obtain ⟨s', hrun, H', hlive, hall, hkeep⟩ := zeroing_run (f := f) xs
      (s := ⟨{ s.heap with mem := store8 s.heap.mem x 0 }, s.live⟩) H₁ hl
      fun y hy => hxs y (List.mem_cons_of_mem _ hy)
    refine ⟨s', .cons hr rfl hrun, H', hlive, fun y hy => ?_, fun y hy => hkeep y ?_⟩
    · rcases List.mem_cons.mp hy with rfl | hy
      · exact hkeep y (store8_same _ _ _)
      · exact hall y hy
    · by_cases hyx : y = x
      · rw [hyx]
        exact store8_same _ _ _
      · exact (store8_out hyx).trans hy

/-- The old `is_free` word of the second block. -/
def oldFlag : List Nat := [0xC0400018, 0xC0400019, 0xC040001A, 0xC040001B]

/-- **A double free that is missed.** Two blocks are given back and merged, a larger request
gets their bytes and its client clears the old flag of the second: `kfree` of the second
pointer then writes into the new payload. -/
theorem double_free_missed : ∃ h a' s h',
    bootHeap sampleLayout (fun _ => 0) sampleBoot = some (true, h, a') ∧
    Run (loggedRequest (heapEnv sampleLayout)) (LogGuard sampleLayout) ⟨⟨h, []⟩, []⟩
      ([.kmalloc 8 ⟨[], []⟩, .kmalloc 8 ⟨[], []⟩, .kfree 0xC040000C, .kfree 0xC0400020,
        .kmalloc 64 ⟨[], []⟩] ++ oldFlag.map fun x => .write x 0) s ∧
    s.Stale 0xC0400020 ∧ s.state.live = [⟨0xC040000C, 64⟩] ∧
    kfree s.state.heap 0xC0400020 = some h' ∧
    s.state.heap.mem 0xC0400018 = 0 ∧ h'.mem 0xC0400018 = 1 ∧ ¬ NoEffect s.state h' := by
  obtain ⟨hf, ho, -⟩ := sampleBoot_ok
  obtain ⟨h, a', hboot⟩ := sampleBoot_succeeds fun _ => 0
  obtain ⟨h₃, h₄, -, H₄, hrun, hr₄, hs₄⟩ :=
    two_logged (L := sampleLayout) (bootHeap_ok hf ho hboot).1
  have H₄' : HeapOk h₄ [] ([] ++ bootBlock :: []) := H₄
  obtain ⟨h₅, hk₅, H₅⟩ :=
    kmalloc_serves (n := 64) (heapEnv sampleLayout) ⟨[], []⟩ H₄' (by decide) (by decide) rfl
  have hs₅ : loggedRequest (heapEnv sampleLayout) ⟨⟨h₄, []⟩, [0xC0400020, 0xC040000C]⟩
      (.kmalloc 64 ⟨[], []⟩) = some ⟨⟨h₅, [⟨0xC040000C, 64⟩]⟩, [0xC0400020, 0xC040000C]⟩ := by
    rw [loggedRequest, request, hk₅]; rfl
  have hr₅ : LogGuard sampleLayout ⟨⟨h₄, []⟩, [0xC0400020, 0xC040000C]⟩ (.kmalloc 64 ⟨[], []⟩) :=
    ⟨.inl trivial, H₄.noWrap (by decide), noAnswers_fromPmm _, noAnswers_tablesOffHeap⟩
  have H₅' : HeapOk h₅ [⟨0xC040000C, 64⟩]
      [⟨heapStartAddr, 64, false⟩, ⟨0xC040004C, 0xFFFA8, true⟩] := H₅
  obtain ⟨s, hrun₂, H₆, hlive, hzero, -⟩ := zeroing_run (L := sampleLayout)
    (f := [0xC0400020, 0xC040000C]) oldFlag (s := ⟨h₅, [⟨0xC040000C, 64⟩]⟩) H₅'
    List.mem_cons_self (by unfold oldFlag InWin; decide)
  have hl : ⟨0xC040000C, 64⟩ ∈ s.live := by rw [hlive]; exact List.mem_cons_self
  have hold : OldPtr s.heap 0xC0400020 := by
    obtain ⟨-, hhi⟩ := H₆.addr_pos List.mem_cons_self
    exact ⟨by decide, Nat.le_trans (by decide) hhi, by decide⟩
  have hz : blockIsFree s.heap.mem (0xC0400020 - headerSize) = 0 := by
    refine load32_zeros fun y hy => hzero y ?_
    unfold InWin headerSize at hy
    simp only [oldFlag, List.mem_cons, List.not_mem_nil, or_false]
    omega
  obtain ⟨he, -⟩ := H₆.kfree_payload hold List.mem_cons_self (by decide) (by decide) hz
  refine ⟨h, a', ⟨s, _⟩, _, hboot,
    (hrun.append (.cons hr₄ hs₄ (.cons hr₅ hs₅ (.nil _)))).append hrun₂,
    ⟨List.mem_cons_self, by simp [hlive]⟩, hlive, he, hzero _ (by simp [oldFlag]), rfl, ?_⟩
  intro hne
  obtain ⟨b, -, -, -, -, hreq⟩ := H₆.payload hl
  have hag := hne.payloads _ hl
  exact NoEffect.not_marked (x := 0xC0400018) rfl hz
    (hag.mono (by decide) (Nat.le_trans (by decide) (Nat.add_le_add_left hreq _)))

end Missed

end TupleOS.Heap
