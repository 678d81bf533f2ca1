import TupleOS.Heap.Code

/-!
# The block list in memory

`Seg m e q a bs`: from address `a` on, memory holds the headers of the blocks
`bs` back to back, ending at `e`, each linked to the next and the last one to
`q`. The whole list is `Seg` with `q = NULL`. A segment only reads its headers
(`Seg.frame`), splits at any block (`seg_split`), and the walks of `kheap.c`
compute on it what they compute on the list `bs`.
-/

namespace TupleOS.Heap

open TupleOS.Base

/-- A block as the list records it: its header's address, its payload size. -/
structure Block where
  addr : Nat
  size : Nat
  free : Bool
  deriving DecidableEq, Repr

namespace Block

def payload (b : Block) : Nat := b.addr + headerSize

def fin (b : Block) : Nat := b.addr + headerSize + b.size

end Block

/-- The header of `b` is in memory, with next pointer `nx`. -/
structure Hdr (m : Bytes) (b : Block) (nx : Nat) : Prop where
  size : blockSize m b.addr = b.size
  isFree : blockIsFree m b.addr = b.free.toNat
  next : blockNext m b.addr = nx

/-- The pointer to a list that would start at `a`: `q` if it is empty. -/
def link (q a : Nat) : List Block → Nat
  | [] => q
  | _ :: _ => a

/-- The blocks `bs` tile `[a, e)` and are linked in order, the last one to `q`. -/
def Seg (m : Bytes) (e q : Nat) : Nat → List Block → Prop
  | a, [] => a = e
  | a, b :: bs => b.addr = a ∧ Hdr m b (link q b.fin bs) ∧ Seg m e q b.fin bs

@[simp] theorem link_nil (q a : Nat) : link q a [] = q := rfl
@[simp] theorem link_cons (q a : Nat) (b : Block) (bs : List Block) : link q a (b :: bs) = a := rfl

@[simp] theorem link_append_cons (q a : Nat) (l : List Block) (b : Block) (bs : List Block) :
    link q a (l ++ b :: bs) = a := by
  cases l <;> rfl

theorem Hdr.frame {m m' : Bytes} {b : Block} {nx : Nat} (h : Hdr m b nx)
    (hag : AgreeOn m m' b.addr (b.addr + headerSize)) : Hdr m' b nx := by
  unfold headerSize at hag
  exact ⟨(load32_congr (hag.mono (by omega) (by omega))).trans h.size,
    (load32_congr (hag.mono (by omega) (by omega))).trans h.isFree,
    (load32_congr (hag.mono (by omega) (by omega))).trans h.next⟩

theorem Seg.frame {m m' : Bytes} {e q : Nat} :
    ∀ {a : Nat} {bs : List Block}, Seg m e q a bs →
      (∀ b ∈ bs, AgreeOn m m' b.addr (b.addr + headerSize)) → Seg m' e q a bs
  | _, [], h, _ => h
  | _, b :: _, ⟨ha, hh, hs⟩, hag =>
    ⟨ha, hh.frame (hag b List.mem_cons_self),
      hs.frame fun c hc => hag c (List.mem_cons_of_mem _ hc)⟩

theorem Seg.le {m : Bytes} {e q : Nat} :
    ∀ {a : Nat} {bs : List Block}, Seg m e q a bs → a ≤ e
  | _, [], h => Nat.le_of_eq h
  | _, b :: _, ⟨ha, _, hs⟩ => by
    have := hs.le
    unfold Block.fin at this; omega

theorem Seg.bounds {m : Bytes} {e q : Nat} :
    ∀ {a : Nat} {bs : List Block}, Seg m e q a bs → ∀ b ∈ bs, a ≤ b.addr ∧ b.fin ≤ e
  | _, [], _, _, hb => nomatch hb
  | _, c :: _, ⟨ha, _, hs⟩, b, hb => by
    rcases List.mem_cons.mp hb with rfl | hb
    · exact ⟨Nat.le_of_eq ha.symm, hs.le⟩
    · have := hs.bounds b hb
      unfold Block.fin at *
      omega

theorem Seg.frame_win {m m' : Bytes} {e q a : Nat} {bs : List Block} (h : Seg m e q a bs)
    (hag : AgreeOn m m' a e) : Seg m' e q a bs := by
  refine h.frame fun b hb => hag.mono (h.bounds b hb).1 ?_
  have := (h.bounds b hb).2
  unfold Block.fin at this; omega

theorem seg_append {m : Bytes} {e q : Nat} :
    ∀ {a : Nat} {l₁ l₂ : List Block},
      Seg m e q a (l₁ ++ l₂) ↔ ∃ c, Seg m c (link q c l₂) a l₁ ∧ Seg m e q c l₂
  | a, [], l₂ => by
    constructor
    · intro h; exact ⟨a, rfl, h⟩
    · rintro ⟨c, rfl, h⟩; exact h
  | a, b :: l₁, l₂ => by
    -- the seam pointer of the tail is the one of the whole list
    have hlink : ∀ c, Seg m c (link q c l₂) b.fin l₁ →
        link q b.fin (l₁ ++ l₂) = link (link q c l₂) b.fin l₁ := by
      intro c hc
      cases l₁ with
      | nil => have hc : b.fin = c := hc
               rw [hc]; rfl
      | cons => rfl
    constructor
    · rintro ⟨ha, hh, hs⟩
      obtain ⟨c, h1, h2⟩ := seg_append.mp hs
      exact ⟨c, ⟨ha, by rw [← hlink c h1]; exact hh, h1⟩, h2⟩
    · rintro ⟨c, ⟨ha, hh, h1⟩, h2⟩
      rw [← hlink c h1] at hh
      exact ⟨ha, hh, seg_append.mpr ⟨c, h1, h2⟩⟩

theorem seg_split {m : Bytes} {e q a : Nat} {pre post : List Block} {b : Block} :
    Seg m e q a (pre ++ b :: post) ↔
      Seg m b.addr b.addr a pre ∧ Hdr m b (link q b.fin post) ∧ Seg m e q b.fin post := by
  rw [seg_append]
  constructor
  · rintro ⟨c, h1, rfl, h2, h3⟩; exact ⟨h1, h2, h3⟩
  · rintro ⟨h1, h2, h3⟩; exact ⟨b.addr, h1, rfl, h2, h3⟩

theorem Seg.sides {m : Bytes} {e q a : Nat} {pre post : List Block} {b : Block}
    (h : Seg m e q a (pre ++ b :: post)) :
    (∀ c ∈ pre, a ≤ c.addr ∧ c.fin ≤ b.addr) ∧ (∀ c ∈ post, b.fin ≤ c.addr ∧ c.fin ≤ e) := by
  obtain ⟨h1, -, h2⟩ := seg_split.mp h
  exact ⟨fun c hc => h1.bounds c hc, fun c hc => h2.bounds c hc⟩

theorem Seg.sep {m : Bytes} {e q a : Nat} {bs : List Block} (h : Seg m e q a bs) {b c : Block}
    (hb : b ∈ bs) (hc : c ∈ bs) : b = c ∨ b.fin ≤ c.addr ∨ c.fin ≤ b.addr := by
  obtain ⟨pre, post, rfl⟩ := List.append_of_mem hb
  obtain ⟨hpre, hpost⟩ := h.sides
  rcases List.mem_append.mp hc with hc | hc
  · exact .inr (.inr (hpre c hc).2)
  · rcases List.mem_cons.mp hc with rfl | hc
    · exact .inl rfl
    · exact .inr (.inl (hpost c hc).1)

theorem Seg.addr_inj {m : Bytes} {e q a : Nat} {bs : List Block} (h : Seg m e q a bs)
    {b c : Block} (hb : b ∈ bs) (hc : c ∈ bs) (he : b.addr = c.addr) : b = c := by
  rcases h.sep hb hc with h' | h' | h'
  · exact h'
  · unfold Block.fin headerSize at h'; omega
  · unfold Block.fin headerSize at h'; omega

theorem Seg.length_le {m : Bytes} {e q : Nat} :
    ∀ {a : Nat} {bs : List Block}, Seg m e q a bs → headerSize * bs.length + a ≤ e
  | _, [], h => by have h : _ = e := h; simp [h]
  | _, b :: _, ⟨ha, _, hs⟩ => by
    have := hs.length_le
    unfold Block.fin at this
    simp only [List.length_cons, Nat.mul_add]; omega

theorem Seg.hdr {m : Bytes} {e q a : Nat} {bs : List Block} (h : Seg m e q a bs) {b : Block}
    (hb : b ∈ bs) : ∃ nx, Hdr m b nx := by
  obtain ⟨pre, post, rfl⟩ := List.append_of_mem hb
  exact ⟨_, (seg_split.mp h).2.1⟩

/-! ## Walks -/

def fits (size : Nat) (b : Block) : Bool := b.free && decide (size ≤ b.size)

theorem Hdr.fits_iff {m : Bytes} {b : Block} {nx size : Nat} (h : Hdr m b nx) :
    (blockIsFree m b.addr ≠ 0 ∧ size ≤ blockSize m b.addr) ↔ fits size b = true := by
  rw [h.isFree, h.size, fits, Bool.and_eq_true, decide_eq_true_eq]
  cases b.free <;> simp

/-- **`find_free_block`** returns the first block of the list that fits. -/
theorem findFreeBlock_seg {m : Bytes} {e size : Nat} :
    ∀ {n a : Nat} {bs : List Block}, Seg m e 0 a bs → 0 < a → bs.length < n →
      findFreeBlock m size n (link 0 a bs) = some ((bs.find? (fits size)).elim 0 Block.addr)
  | 0, _, _, _, _, hn => absurd hn (Nat.not_lt_zero _)
  | n + 1, a, [], _, _, _ => by simp [findFreeBlock]
  | n + 1, _, b :: bs, ⟨rfl, hh, hs⟩, ha, hn => by
    have hne : b.addr ≠ 0 := by omega
    simp only [link_cons, findFreeBlock, hne, ↓reduceIte, hh.fits_iff]
    by_cases hf : fits size b = true
    · simp [hf]
    · have hn' : bs.length < n := by simp only [List.length_cons] at hn; omega
      have hpos : 0 < b.fin := by unfold Block.fin; omega
      have hf' : fits size b = false := by simpa using hf
      rw [if_neg hf, hh.next, findFreeBlock_seg hs hpos hn']
      simp [hf']

theorem lastBlock_seg {m : Bytes} {e : Nat} :
    ∀ {n a : Nat} {pre : List Block} {b : Block}, Seg m e 0 a (pre ++ [b]) → 0 < a →
      pre.length < n → lastBlock m n a = some b.addr
  | 0, _, _, _, _, _, hn => absurd hn (Nat.not_lt_zero _)
  | n + 1, _, [], b, ⟨rfl, hh, _⟩, _, _ => by
    simp [lastBlock, hh.next]
  | n + 1, _, c :: pre, b, ⟨rfl, hh, hs⟩, ha, hn => by
    have hpos : 0 < c.fin := by unfold Block.fin; omega
    have hn' : pre.length < n := by simp only [List.length_cons] at hn; omega
    have hnx : blockNext m c.addr = c.fin := by
      rw [hh.next]
      cases pre <;> rfl
    simp only [lastBlock, hnx, show c.fin ≠ 0 by omega, ↓reduceIte]
    exact lastBlock_seg hs hpos hn'

end TupleOS.Heap
