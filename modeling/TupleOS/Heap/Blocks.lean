import Mathlib.Data.List.Chain
import TupleOS.Heap.Edit

/-!
# Block lists

The three edits on the list alone: which allocated blocks they keep (`carve`,
`grow` and `coalesce` touch free blocks only, apart from the block handed out),
how many bytes are in use (`usedBytes`), and that no edit leaves two free
neighbours (`Coalesced`).
-/

namespace TupleOS.Heap

open TupleOS.Base

def usedBytes (bs : List Block) : Nat := (bs.map fun b => if b.free then 0 else b.size).sum

@[simp] theorem usedBytes_nil : usedBytes [] = 0 := rfl

@[simp] theorem usedBytes_cons (b : Block) (bs : List Block) :
    usedBytes (b :: bs) = (if b.free then 0 else b.size) + usedBytes bs := rfl

@[simp] theorem usedBytes_append (l₁ l₂ : List Block) :
    usedBytes (l₁ ++ l₂) = usedBytes l₁ + usedBytes l₂ := by
  simp [usedBytes]

theorem Seg.usedBytes_le {m : Bytes} {e q : Nat} :
    ∀ {a : Nat} {bs : List Block}, Seg m e q a bs → usedBytes bs + a ≤ e
  | _, [], h => by have h : _ = e := h; simp [h]
  | _, b :: _, ⟨ha, _, hs⟩ => by
    have := hs.usedBytes_le
    unfold Block.fin at this
    simp only [usedBytes_cons]
    split <;> omega

abbrev Coalesced (bs : List Block) : Prop :=
  bs.IsChain fun b c => b.free = false ∨ c.free = false

def WordSized (bs : List Block) : Prop := ∀ b ∈ bs, b.size % 4 = 0

/-! ## `carve` -/

theorem carvedSize_ge {b : Block} {size : Nat} (h : size ≤ b.size) : size ≤ carvedSize b size := by
  unfold carvedSize; split <;> omega

theorem usedBytes_carve (b : Block) (size : Nat) :
    usedBytes (carve b size) = carvedSize b size := by
  unfold carve carvedSize; split <;> simp

theorem mem_carve {b c : Block} {size : Nat} (hc : c ∈ carve b size) (hf : c.free = false) :
    c = taken b size := by
  obtain ⟨rest, he, hrest⟩ := carve_eq b size
  rw [he] at hc
  rcases List.mem_cons.mp hc with rfl | hc
  · rfl
  · rw [hrest c hc] at hf; cases hf

theorem taken_mem_carve (b : Block) (size : Nat) : taken b size ∈ carve b size := by
  obtain ⟨rest, he, -⟩ := carve_eq b size
  rw [he]; exact List.mem_cons_self

theorem coalesced_carve {pre post : List Block} {b : Block} {size : Nat}
    (h : Coalesced (pre ++ b :: post)) (hb : b.free = true) :
    Coalesced (pre ++ carve b size ++ post) := by
  obtain ⟨h1, h2⟩ := List.isChain_split.mp h
  have hpre : Coalesced (pre ++ [⟨b.addr, carvedSize b size, false⟩]) := by
    refine List.isChain_append.mpr ⟨(List.isChain_append.mp h1).1, .singleton _,
      fun x _ y hy => .inr ?_⟩
    simp only [List.head?_cons, Option.mem_def, Option.some.injEq] at hy
    rw [← hy]
  have hpost : Coalesced post ∧ ∀ c ∈ post.head?, c.free = false := by
    cases post with
    | nil => exact ⟨.nil, by simp⟩
    | cons c post =>
      obtain ⟨h3, h4⟩ := List.isChain_cons_cons.mp h2
      refine ⟨h4, fun d hd => ?_⟩
      simp only [List.head?_cons, Option.mem_def, Option.some.injEq] at hd
      subst hd
      rcases h3 with h | h
      · rw [hb] at h; cases h
      · exact h
  rw [List.append_assoc]
  unfold carve carvedSize at *
  split
  · rename_i hs
    rw [if_pos hs] at hpre
    refine List.isChain_split.mpr ⟨hpre, ?_⟩
    exact List.isChain_cons_cons.mpr ⟨.inl rfl, hpost.1.cons fun c hc => .inr (hpost.2 c hc)⟩
  · rename_i hs
    rw [if_neg hs] at hpre
    exact List.isChain_split.mpr ⟨hpre, hpost.1.cons fun c _ => .inl rfl⟩

theorem wordSized_carve {pre post : List Block} {b : Block} {size : Nat}
    (h : WordSized (pre ++ b :: post)) (hs : size % 4 = 0) :
    WordSized (pre ++ carve b size ++ post) := by
  have hb := h b (by simp)
  intro c hc
  simp only [List.mem_append, or_assoc] at hc
  rcases hc with hc | hc | hc
  · exact h c (by simp [hc])
  · unfold carve headerSize at hc
    split at hc
    · simp only [List.mem_cons, List.not_mem_nil, or_false] at hc
      rcases hc with rfl | rfl
      · exact hs
      · simp only; omega
    · simp only [List.mem_cons, List.not_mem_nil, or_false] at hc
      subst hc; exact hb
  · exact h c (by simp [hc])

/-! ## `grow` -/

theorem usedBytes_grow (pre : List Block) (b : Block) (n : Nat) :
    usedBytes (grow pre b n) = usedBytes (pre ++ [b]) := by
  unfold grow; split <;> simp [*]

theorem mem_grow {pre : List Block} {b c : Block} {n : Nat} (hf : c.free = false) :
    c ∈ grow pre b n ↔ c ∈ pre ++ [b] := by
  unfold grow
  split
  · rename_i hb
    simp only [List.mem_append, List.mem_singleton]
    constructor
    · rintro (h | rfl)
      · exact .inl h
      · cases hf
    · rintro (h | rfl)
      · exact .inl h
      · rw [hb] at hf; cases hf
  · simp only [List.mem_append, List.mem_cons, List.not_mem_nil, or_false]
    constructor
    · rintro (h | rfl | rfl)
      · exact .inl h
      · exact .inr rfl
      · cases hf
    · rintro (h | rfl)
      · exact .inl h
      · exact .inr (.inl rfl)

theorem coalesced_grow {pre : List Block} {b : Block} {n : Nat} (h : Coalesced (pre ++ [b])) :
    Coalesced (grow pre b n) := by
  unfold grow
  split
  · rename_i hb
    obtain ⟨h1, -, h2⟩ := List.isChain_append.mp h
    refine List.isChain_append.mpr ⟨h1, .singleton _, fun x hx y hy => ?_⟩
    simp only [List.head?_cons, Option.mem_def, Option.some.injEq] at hy
    have := h2 x hx b (by simp)
    rw [hb] at this
    rw [← hy]; exact this
  · rename_i hb
    refine List.isChain_append_cons_cons.mpr ⟨h, .inl (by simpa using hb), .singleton _⟩

theorem wordSized_grow {pre : List Block} {b : Block} {n : Nat} (h : WordSized (pre ++ [b]))
    (hn : n % 4 = 0) : WordSized (grow pre b n) := by
  have hb := h b (by simp)
  intro c hc
  unfold grow headerSize at hc
  split at hc
  · simp only [List.mem_append, List.mem_singleton] at hc
    rcases hc with hc | rfl
    · exact h c (by simp [hc])
    · simp only; omega
  · simp only [List.mem_append, List.mem_cons, List.not_mem_nil, or_false] at hc
    rcases hc with hc | rfl | rfl
    · exact h c (by simp [hc])
    · exact hb
    · simp only; omega

/-! ## `coalesce` -/

theorem usedBytes_coalesce (bs : List Block) : usedBytes (coalesce bs) = usedBytes bs := by
  fun_induction coalesce bs with
  | case1 => rfl
  | case2 => rfl
  | case3 b c bs hf ih =>
    obtain ⟨hb, hc⟩ := Bool.and_eq_true_iff.mp hf
    rw [ih]; simp [hb, hc]
  | case4 b c bs hf ih => simp only [usedBytes_cons] at ih ⊢; rw [ih]

theorem mem_coalesce {d : Block} (hd : d.free = false) (bs : List Block) :
    d ∈ coalesce bs ↔ d ∈ bs := by
  fun_induction coalesce bs with
  | case1 => rfl
  | case2 => rfl
  | case3 b c bs hf ih =>
    obtain ⟨hb, hc⟩ := Bool.and_eq_true_iff.mp hf
    rw [ih]
    have hne : ∀ x : Block, x.free = true → d ≠ x := by rintro x hx rfl; rw [hx] at hd; cases hd
    simp [hne _ hb, hne _ hc, hne ⟨b.addr, b.size + headerSize + c.size, true⟩ rfl]
  | case4 b c bs hf ih => rw [List.mem_cons, ih, List.mem_cons (a := d) (b := b)]

theorem coalesce_head (b : Block) (bs : List Block) :
    ∃ c cs, coalesce (b :: bs) = c :: cs ∧ c.free = b.free := by
  generalize hl : b :: bs = l
  fun_induction coalesce l generalizing b bs with
  | case1 => cases hl
  | case2 c => obtain ⟨rfl, rfl⟩ := List.cons.inj hl; exact ⟨b, [], rfl, rfl⟩
  | case3 b' c cs hf ih =>
    obtain ⟨rfl, rfl⟩ := List.cons.inj hl
    obtain ⟨d, ds, he, hd⟩ := ih _ _ rfl
    exact ⟨d, ds, he, hd.trans (Bool.and_eq_true_iff.mp hf).1.symm⟩
  | case4 b' c cs hf ih => obtain ⟨rfl, rfl⟩ := List.cons.inj hl; exact ⟨b, _, rfl, rfl⟩

theorem coalesced_coalesce (bs : List Block) : Coalesced (coalesce bs) := by
  fun_induction coalesce bs with
  | case1 => exact .nil
  | case2 => exact .singleton _
  | case3 b c bs hf ih => exact ih
  | case4 b c bs hf ih =>
    obtain ⟨d, ds, he, hd⟩ := coalesce_head c bs
    rw [he] at ih ⊢
    refine List.isChain_cons_cons.mpr ⟨?_, ih⟩
    rw [hd]
    cases hb : b.free <;> cases hc : c.free <;> simp_all

theorem wordSized_coalesce {bs : List Block} (h : WordSized bs) : WordSized (coalesce bs) := by
  fun_induction coalesce bs with
  | case1 => exact h
  | case2 => exact h
  | case3 b c bs hf ih =>
    refine ih fun d hd => ?_
    rcases List.mem_cons.mp hd with rfl | hd
    · have := h b (by simp); have := h c (by simp)
      simp only [headerSize]; omega
    · exact h d (by simp [hd])
  | case4 b c bs hf ih =>
    intro d hd
    rcases List.mem_cons.mp hd with rfl | hd
    · exact h d (by simp)
    · exact ih (fun x hx => h x (by simp [hx])) d hd

end TupleOS.Heap
