import TupleOS.Heap.Blocks

/-!
# The heap invariant

`HeapOk h live bs`: memory holds the list `bs` from `heap_start` to `heap_end`,
its allocated blocks are the live allocations, and the counter agrees. The
operations keep it: `HeapOk.take` (the end of `kmalloc`) and `HeapOk.expand` here,
the entry points in `Heap.Ops`. Growing runs foreign code, which `QuietEnv` asks to
return and to leave the heap window alone.
-/

namespace TupleOS.Heap

open TupleOS.Base TupleOS.Memory

/-- A live allocation: the pointer handed out and the bytes asked for. -/
structure Alloc where
  ptr : Nat
  req : Nat
  deriving DecidableEq, Repr

def heapMaxAddr : Nat := heapStartAddr + maxHeapSize

structure HeapOk (h : KHeap) (live : List Alloc) (bs : List Block) : Prop where
  start_eq : h.heapStart = heapStartAddr
  first_eq : h.firstBlock = heapStartAddr
  max_eq : h.heapMax = heapMaxAddr
  end_gt : heapStartAddr < h.heapEnd
  end_le : h.heapEnd ≤ heapMaxAddr
  end_aligned : h.heapEnd % pageSize = 0
  seg : Seg h.mem h.heapEnd 0 heapStartAddr bs
  coalesced : Coalesced bs
  words : WordSized bs
  live_block : ∀ l ∈ live, ∃ b ∈ bs, b.free = false ∧ b.payload = l.ptr ∧ l.req ≤ b.size
  block_live : ∀ b ∈ bs, b.free = false → ∃ l ∈ live, b.payload = l.ptr
  nodup : (live.map Alloc.ptr).Nodup
  used : h.totalAllocated = usedBytes bs

/-- The payloads of the allocated blocks of `bs` are as before. -/
def KeepsPayloads (m m' : Bytes) (bs : List Block) : Prop :=
  ∀ b ∈ bs, b.free = false → AgreeOn m m' b.payload b.fin

section Facts

variable {h : KHeap} {live : List Alloc} {bs : List Block}

theorem HeapOk.addr_pos (H : HeapOk h live bs) {b : Block} (hb : b ∈ bs) :
    heapStartAddr ≤ b.addr ∧ b.fin ≤ h.heapEnd := H.seg.bounds b hb

theorem HeapOk.ne_nil (H : HeapOk h live bs) : bs ≠ [] := by
  rintro rfl
  have hs : heapStartAddr = h.heapEnd := H.seg
  have := H.end_gt
  omega

theorem HeapOk.length_lt (H : HeapOk h live bs) : bs.length < walkFuel := by
  have := H.seg.length_le
  have := H.end_le
  unfold headerSize at *
  unfold heapMaxAddr heapStartAddr maxHeapSize walkFuel at *
  omega

theorem HeapOk.link_first (H : HeapOk h live bs) : link 0 heapStartAddr bs = h.firstBlock := by
  rw [H.first_eq]
  cases bs with
  | nil => exact absurd rfl H.ne_nil
  | cons => rfl

theorem HeapOk.find (H : HeapOk h live bs) (size : Nat) :
    findFreeBlock h.mem size walkFuel h.firstBlock =
      some ((bs.find? (fits size)).elim 0 Block.addr) := by
  rw [← H.link_first]
  exact findFreeBlock_seg H.seg (by unfold heapStartAddr; omega) H.length_lt

theorem HeapOk.last {pre : List Block} {b : Block} (H : HeapOk h live (pre ++ [b])) :
    lastBlock h.mem walkFuel h.firstBlock = some b.addr := by
  have hlen := H.length_lt
  rw [H.first_eq]
  refine lastBlock_seg H.seg (by unfold heapStartAddr; omega) ?_
  simp only [List.length_append] at hlen
  omega

theorem HeapOk.relist {h' : KHeap} {bs' : List Block} (H : HeapOk h live bs)
    (hs : h'.heapStart = h.heapStart) (hf : h'.firstBlock = h.firstBlock)
    (hm : h'.heapMax = h.heapMax) (hge : h.heapEnd ≤ h'.heapEnd) (hle : h'.heapEnd ≤ heapMaxAddr)
    (hal : h'.heapEnd % pageSize = 0) (hseg : Seg h'.mem h'.heapEnd 0 heapStartAddr bs')
    (hco : Coalesced bs') (hw : WordSized bs')
    (hmem : ∀ b, b.free = false → (b ∈ bs' ↔ b ∈ bs))
    (hused : h'.totalAllocated = usedBytes bs') : HeapOk h' live bs' where
  start_eq := hs.trans H.start_eq
  first_eq := hf.trans H.first_eq
  max_eq := hm.trans H.max_eq
  end_gt := Nat.lt_of_lt_of_le H.end_gt hge
  end_le := hle
  end_aligned := hal
  seg := hseg
  coalesced := hco
  words := hw
  live_block l hl := by
    obtain ⟨b, hb, hbf, hp, hr⟩ := H.live_block l hl
    exact ⟨b, (hmem b hbf).mpr hb, hbf, hp, hr⟩
  block_live b hb hbf := H.block_live b ((hmem b hbf).mp hb) hbf
  nodup := H.nodup
  used := hused

theorem HeapOk.frame {m' : Bytes} (H : HeapOk h live bs)
    (hag : ∀ b ∈ bs, AgreeOn h.mem m' b.addr (b.addr + headerSize)) :
    HeapOk { h with mem := m' } live bs :=
  H.relist rfl rfl rfl (Nat.le_refl _) H.end_le H.end_aligned (H.seg.frame hag) H.coalesced
    H.words (fun _ _ => Iff.rfl) H.used

end Facts

/-! ## Handing out -/

section Take

variable {h : KHeap} {live : List Alloc} {pre post : List Block} {b : Block} {size n : Nat}

theorem mem_carved {c : Block} (hb : b.free = true) (hc : c.free = false) :
    c ∈ pre ++ carve b size ++ post ↔ c = taken b size ∨ c ∈ pre ++ b :: post := by
  have hcb : c ≠ b := by
    rintro rfl
    rw [hb] at hc
    cases hc
  have hcarve : c ∈ carve b size ↔ c = taken b size :=
    ⟨fun hm => mem_carve hm hc, fun he => he ▸ taken_mem_carve b size⟩
  simp only [List.mem_append, List.mem_cons, hcarve, hcb, false_or]
  tauto

/-- **The end of `kmalloc`** turns a free block that fits into a live one. -/
theorem HeapOk.take (H : HeapOk h live (pre ++ b :: post)) (hb : b.free = true)
    (hs : size ≤ b.size) (hs4 : size % 4 = 0) (hn : n ≤ size) :
    (takeBlock h b.addr size).1 = b.payload ∧
    HeapOk (takeBlock h b.addr size).2 (⟨b.payload, n⟩ :: live) (pre ++ carve b size ++ post) ∧
    ∀ x, ¬ InWin b.addr b.fin x → (takeBlock h b.addr size).2.mem x = h.mem x := by
  have hmem : b ∈ pre ++ b :: post := by simp
  obtain ⟨hlo, hhi⟩ := H.addr_pos hmem
  have hend := H.end_le
  have hfin : b.addr + headerSize + b.size = b.fin := rfl
  have hbig : heapMaxAddr + 44 ≤ 2 ^ 32 := by decide
  obtain ⟨hseg, hout⟩ := take_seg size H.seg (by omega) (by omega) hs
  -- the header of the handed-out block gives the size the counter grows by
  have htk : taken b size ∈ pre ++ carve b size ++ post := by
    simp [taken_mem_carve b size]
  have hsize : blockSize (takeMem h.mem b.addr size) b.addr = carvedSize b size := by
    obtain ⟨nx, hh⟩ := hseg.hdr htk
    exact hh.size
  have hu := H.used
  have hub := hseg.usedBytes_le
  simp only [usedBytes_append, usedBytes_cons, hb, ↓reduceIte] at hu
  simp only [usedBytes_append, usedBytes_carve] at hub
  have htot : w32 (h.totalAllocated + carvedSize b size)
      = usedBytes pre + carvedSize b size + usedBytes post := by
    rw [w32_of_lt (by omega)]; omega
  refine ⟨w32_of_lt (by omega), ?_, hout⟩
  exact {
    start_eq := H.start_eq
    first_eq := H.first_eq
    max_eq := H.max_eq
    end_gt := H.end_gt
    end_le := H.end_le
    end_aligned := H.end_aligned
    seg := hseg
    coalesced := coalesced_carve H.coalesced hb
    words := wordSized_carve H.words hs4
    live_block := by
      intro l hl
      rcases List.mem_cons.mp hl with rfl | hl
      · exact ⟨taken b size, htk, rfl, rfl, Nat.le_trans hn (carvedSize_ge hs)⟩
      · obtain ⟨c, hc, hcf, hp, hr⟩ := H.live_block l hl
        exact ⟨c, (mem_carved hb hcf).mpr (.inr hc), hcf, hp, hr⟩
    block_live := by
      intro c hc hcf
      rcases (mem_carved hb hcf).mp hc with rfl | hc
      · exact ⟨_, List.mem_cons_self, rfl⟩
      · obtain ⟨l, hl, hp⟩ := H.block_live c hc hcf
        exact ⟨l, List.mem_cons_of_mem _ hl, hp⟩
    nodup := by
      refine List.nodup_cons.mpr ⟨fun hin => ?_, H.nodup⟩
      obtain ⟨l, hl, hp⟩ := List.mem_map.mp hin
      obtain ⟨c, hc, hcf, hcp, -⟩ := H.live_block l hl
      have hcb : c.addr + headerSize = b.addr + headerSize := hcp.trans hp
      rw [H.seg.addr_inj hc hmem (by omega), hb] at hcf; cases hcf
    used := by
      show w32 (h.totalAllocated + blockSize (takeMem h.mem b.addr size) b.addr) = _
      rw [hsize, htot]
      simp only [usedBytes_append, usedBytes_carve] }

theorem HeapOk.take_keeps (H : HeapOk h live (pre ++ b :: post)) (hb : b.free = true)
    {m' : Bytes} (hout : ∀ x, ¬ InWin b.addr b.fin x → m' x = h.mem x) :
    KeepsPayloads h.mem m' (pre ++ b :: post) := by
  intro c hc hcf x hx
  refine hout x fun hw => ?_
  obtain ⟨hx1, hx2⟩ := hx
  obtain ⟨hw1, hw2⟩ := hw
  have hcp : c.payload = c.addr + headerSize := rfl
  rcases H.seg.sep hc (b := c) (c := b) (by simp) with rfl | h' | h'
  · rw [hb] at hcf; cases hcf
  · omega
  · omega

end Take

/-! ## Growing -/

/-- What growing up to `top` asks of its environment: with the heap pages below
`v` mapped and `I v` in force, mapping the page at `v` returns, leads to the next
page and leaves the heap window alone; and `I` does not look into the window. -/
structure QuietEnv {σ : Type} (E : PageEnv σ) (top : Nat) (I : Nat → σ → Bytes → Prop) : Prop where
  refuse : ∀ {v e m}, I v e m → (E.pmmAllocFrame e).1 = 0 → I v (E.pmmAllocFrame e).2 m
  map : ∀ {v e m}, I v e m → (E.pmmAllocFrame e).1 ≠ 0 → heapStartAddr ≤ v → v + pageSize ≤ top →
    v % pageSize = 0 → ∃ e' m', E.pagingMapPage (E.pmmAllocFrame e).2 m v (E.pmmAllocFrame e).1
        (pagePresent ||| pageWrite) = some (e', m') ∧
      I (v + pageSize) e' m' ∧ AgreeOn m m' heapStartAddr heapMaxAddr
  frame : ∀ {v e m m'}, I v e m → (∀ x, ¬ InWin heapStartAddr heapMaxAddr x → m' x = m x) → I v e m'

section Grow

variable {σ : Type} {E : PageEnv σ} {top : Nat} {I : Nat → σ → Bytes → Prop} {h : KHeap} {e : σ}
  {live : List Alloc} {bs : List Block}

theorem mapHeapPages_succ (e : σ) (m : Bytes) (base n : Nat) :
    mapHeapPages E e m base (n + 1) =
      if (E.pmmAllocFrame e).1 = 0 then some (false, (E.pmmAllocFrame e).2, m)
      else (E.pagingMapPage (E.pmmAllocFrame e).2 m base (E.pmmAllocFrame e).1
        (pagePresent ||| pageWrite)).bind fun r => mapHeapPages E r.1 r.2 (base + pageSize) n := rfl

theorem mapHeapPages_quiet (Q : QuietEnv E top I) :
    ∀ (n base : Nat) {e : σ} {m : Bytes}, I base e m → heapStartAddr ≤ base →
      base + n * pageSize ≤ top → base % pageSize = 0 →
      ∃ ok e' m' v, mapHeapPages E e m base n = some (ok, e', m') ∧ I v e' m' ∧
        (ok = true → v = base + n * pageSize) ∧ AgreeOn m m' heapStartAddr heapMaxAddr
  | 0, base, e, m, hI, _, _, _ => ⟨true, e, m, base, rfl, hI, by omega, .refl _ _ _⟩
  | n + 1, base, e, m, hI, hlo, hhi, hal => by
    rw [mapHeapPages_succ]
    split
    · rename_i h0
      exact ⟨false, _, m, base, rfl, Q.refuse hI h0, nofun, .refl _ _ _⟩
    · rename_i h0
      rw [Nat.succ_mul] at hhi ⊢
      obtain ⟨e1, m1, hmap, hI1, hag1⟩ := Q.map hI h0 hlo (by omega) hal
      obtain ⟨ok, e2, m2, v, hrest, hI2, hv, hag2⟩ := mapHeapPages_quiet Q n (base + pageSize) hI1
        (by omega) (by omega) (by unfold pageSize at *; omega)
      exact ⟨ok, e2, m2, v, by rw [hmap]; exact hrest, hI2, fun h => by rw [hv h]; omega,
        hag1.trans hag2⟩

theorem grow_keeps {m : Bytes} {e' n : Nat} {pre : List Block} {b : Block}
    (hseg : Seg m e' 0 heapStartAddr (pre ++ [b])) {m' : Bytes}
    (hout : ∀ x, ¬ InWin b.addr (b.addr + headerSize) x → ¬ InWin e' (e' + n) x → m' x = m x) :
    KeepsPayloads m m' (pre ++ [b]) := by
  intro c hc hcf x hx
  obtain ⟨hx1, hx2⟩ := hx
  have hcp : c.payload = c.addr + headerSize := rfl
  have hcb := hseg.bounds c hc
  refine hout x ?_ ?_
  · rintro ⟨hw1, hw2⟩
    have hbf : b.fin = b.addr + headerSize + b.size := rfl
    rcases hseg.sep hc (b := c) (c := b) (by simp) with rfl | h' | h' <;> omega
  · rintro ⟨hw1, hw2⟩; omega

/-- **`appendSpace`** keeps the invariant over the grown list. -/
theorem HeapOk.append {n : Nat} {pre : List Block} {b : Block}
    (H : HeapOk h live (pre ++ [b])) (hn : headerSize ≤ n) (hpg : n % pageSize = 0)
    (hmax : h.heapEnd + n ≤ heapMaxAddr) :
    ∃ h', appendSpace h n = some h' ∧ HeapOk h' live (grow pre b n) ∧
      KeepsPayloads h.mem h'.mem (pre ++ [b]) ∧ h.heapEnd ≤ h'.heapEnd ∧
      ∀ x, ¬ InWin heapStartAddr heapMaxAddr x → h'.mem x = h.mem x := by
  have hbig : heapMaxAddr < 2 ^ 32 := by decide
  have hal := H.end_aligned
  obtain ⟨hseg, hout⟩ := grow_seg (n := n) H.seg hn (by omega)
  obtain ⟨hlo, hhi⟩ := H.addr_pos (b := b) (by simp)
  have hbf : b.fin = b.addr + headerSize + b.size := rfl
  have hst := H.end_gt
  refine ⟨{ h with mem := growMem h.mem h.heapEnd b.addr n, heapEnd := h.heapEnd + n }, ?_, ?_, ?_,
    Nat.le_add_right _ _, fun x hx => hout x ?_ ?_⟩
  · unfold appendSpace
    rw [H.last]
    simp only [Option.bind_eq_bind, Option.bind_some,
      w32_of_lt (show h.heapEnd + n < 2 ^ 32 by omega)]
    rfl
  · exact H.relist rfl rfl rfl (Nat.le_add_right _ _) hmax
      (by show (h.heapEnd + n) % pageSize = 0; unfold pageSize at *; omega) hseg
      (coalesced_grow H.coalesced) (wordSized_grow H.words (by unfold pageSize at hpg; omega))
      (fun c hc => mem_grow hc) (H.used.trans (usedBytes_grow pre b n).symm)
  · refine grow_keeps (n := headerSize) H.seg hout
  · intro hw; unfold InWin at hx hw; omega
  · intro hw; unfold InWin at hx hw; omega

/-- **`heap_expand`**: refused or out of frames, it leaves the list as it is;
otherwise the list grows by the rounded size. -/
theorem HeapOk.expand (Q : QuietEnv E top I) (H : HeapOk h live bs) (hI : I h.heapEnd e h.mem)
    {minSize n : Nat} (hn : roundUp pageSize minSize = n) (hlo : headerSize ≤ n)
    (hwrap : h.heapEnd + n < 2 ^ 32) (htop : h.heapEnd + n ≤ heapMaxAddr → h.heapEnd + n ≤ top) :
    ∃ ok h' e', heapExpand E h e minSize = some (ok, h', e') ∧ (∃ v, I v e' h'.mem) ∧
      KeepsPayloads h.mem h'.mem bs ∧ h.heapEnd ≤ h'.heapEnd ∧
      (ok = false → HeapOk h' live bs) ∧
      (ok = true → ∃ pre b, bs = pre ++ [b] ∧ HeapOk h' live (grow pre b n)) := by
  have hkeep : ∀ {m' : Bytes}, AgreeOn h.mem m' heapStartAddr heapMaxAddr →
      KeepsPayloads h.mem m' bs := by
    intro m' hag b hb _
    obtain ⟨h1, h2⟩ := H.addr_pos hb
    have := H.end_le
    exact hag.mono (by unfold Block.payload; omega) (by omega)
  have hend := H.end_le
  have hmod : n % pageSize = 0 := Nat.mod_eq_zero_of_dvd (hn ▸ roundUp_dvd _ _)
  have hmx := H.max_eq
  unfold heapExpand
  simp only
  rw [hn, w32_of_lt hwrap]
  split
  · exact ⟨false, h, e, rfl, ⟨_, hI⟩, hkeep (.refl _ _ _), Nat.le_refl _, fun _ => H, nofun⟩
  · rename_i hmax
    have hdiv : n / pageSize * pageSize = n := Nat.div_mul_cancel (Nat.dvd_of_mod_eq_zero hmod)
    obtain ⟨ok, e1, m1, v, hmap, hI1, -, hag⟩ := mapHeapPages_quiet Q (n / pageSize) h.heapEnd
      (e := e) hI (Nat.le_of_lt H.end_gt) (by omega) H.end_aligned
    have H1 : HeapOk { h with mem := m1 } live bs := H.frame fun b hb => by
      obtain ⟨h1, h2⟩ := H.addr_pos hb
      exact hag.mono h1 (by unfold Block.fin at h2; omega)
    cases ok with
    | false =>
      refine ⟨false, { h with mem := m1 }, e1, ?_, ⟨v, hI1⟩, hkeep hag, Nat.le_refl _, fun _ => H1,
        nofun⟩
      simp [hmap]
    | true =>
      -- the last block of the list takes the new space
      obtain ⟨pre, b, rfl⟩ : ∃ pre b, bs = pre ++ [b] :=
        ⟨_, _, (List.dropLast_append_getLast H.ne_nil).symm⟩
      obtain ⟨h2, happ, H2, hk2, hge, hout⟩ := H1.append (n := n) hlo hmod
        (show h.heapEnd + n ≤ heapMaxAddr by omega)
      refine ⟨true, h2, e1, ?_, ⟨v, Q.frame hI1 hout⟩, fun b' hb hbf => ?_, hge, nofun,
        fun _ => ⟨pre, b, rfl, H2⟩⟩
      · simp [hmap, happ]
      · exact (hkeep hag b' hb hbf).trans (hk2 b' hb hbf)

end Grow

end TupleOS.Heap
