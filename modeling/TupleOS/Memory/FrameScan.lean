import TupleOS.Memory.FrameRun

/-!
# What the frame scan reaches (`kernel/pmm.c`)

`bitmap_first_free` looks at `total_frames / 8` bytes of the bitmap.
`total_frames` counts the released frames, but the scan starts at frame `0`, and
the first megabyte and the image are never released. Frames at or above the limit
are never found. So `pmm_alloc_frame` uses all the memory it counted exactly when
every released frame lies below the limit (`alloc_uses_all_iff`).
-/

namespace TupleOS.Memory

open TupleOS.Base

def pmmCall (p : Pmm) : FrameOp → Pmm
  | .alloc => (pmmAllocFrame p).2
  | .free frameAddr => pmmFreeFrame p frameAddr

/-- The allocator after `n` calls of `pmm_alloc_frame`. -/
def allocs (p : Pmm) : Nat → Pmm
  | 0 => p
  | n + 1 => (pmmAllocFrame (allocs p n)).2

/-- What the call after `n` others returns. -/
def frameAfter (p : Pmm) (n : Nat) : Nat := (pmmAllocFrame (allocs p n)).1

def FrameOp.Frees (f : Nat) : FrameOp → Prop
  | .alloc => False
  | .free frameAddr => frameAddr / pageSize = f

/-- The frames that `bitmap_first_free` looks at, by the count of `pmm_init`. -/
def scanLimit (L : Layout) (entries : List MmapEntry) : Nat :=
  8 * (w32 (∑ f ∈ Finset.Ico (kernelEndFrame L) maxFrames, visits entries f) / 8)

instance (L : Layout) (entries : List MmapEntry) (f : Nat) : Decidable (Releases L entries f) :=
  inferInstanceAs (Decidable (_ ∧ _ ∧ _))

def releasedFrames (L : Layout) (entries : List MmapEntry) : Finset Nat :=
  (Finset.range maxFrames).filter (Releases L entries)

/-- `NULL` means that every released frame is in use. The calls before it free nothing
of frame `0`, which would be handed out as `NULL`. -/
def NullWhenFull (L : Layout) (bitmap : Bitmap) (entries : List MmapEntry) : Prop :=
  ∀ ops : List FrameOp, (∀ o ∈ ops, ¬ o.Frees 0) →
    let p := ops.foldl pmmCall (pmmInit L bitmap (some entries))
    (pmmAllocFrame p).1 = 0 → ∀ f, Releases L entries f → ¬ p.Free f

/-- As many allocations in a row succeed as there are released frames. -/
def CountsExactly (L : Layout) (bitmap : Bitmap) (entries : List MmapEntry) : Prop :=
  ∀ n, frameAfter (pmmInit L bitmap (some entries)) n ≠ 0 ↔ n < (releasedFrames L entries).card

section Calls

variable {p : Pmm} {o : FrameOp} {ops : List FrameOp}

theorem pmmCall_total (p : Pmm) (o : FrameOp) : (pmmCall p o).totalFrames = p.totalFrames := by
  cases o with
  | free a => exact pmmFreeFrame_total p a
  | alloc =>
    rcases pmmAllocFrame_cases p with ⟨heq, -⟩ | ⟨f, heq, -⟩
    · rw [pmmCall, heq]
    · rw [pmmCall, heq]

theorem calls_total (ops : List FrameOp) (p : Pmm) :
    (ops.foldl pmmCall p).totalFrames = p.totalFrames := by
  induction ops generalizing p with
  | nil => rfl
  | cons o ops ih => rw [List.foldl_cons, ih, pmmCall_total]

theorem free_of_pmmCall {f : Nat} (ho : ¬ o.Frees f) (h : (pmmCall p o).Free f) : p.Free f := by
  cases o with
  | free a =>
    rcases (pmmFreeFrame_free p a).mp h with h | ⟨h, -⟩
    · exact h
    · exact absurd h.symm ho
  | alloc =>
    rcases pmmAllocFrame_cases p with ⟨heq, -⟩ | ⟨g, heq, -⟩
    · rwa [pmmCall, heq] at h
    · rw [pmmCall, heq, free_set (p := p) rfl] at h
      exact h.2

theorem free_of_calls {f : Nat} (hops : ∀ o ∈ ops, ¬ o.Frees f)
    (h : (ops.foldl pmmCall p).Free f) : p.Free f := by
  induction ops generalizing p with
  | nil => exact h
  | cons o ops ih =>
    rw [List.foldl_cons] at h
    exact free_of_pmmCall (hops o (by simp)) (ih (fun o' ho' => hops o' (by simp [ho'])) h)

/-! ## Allocations in a row -/

theorem allocs_eq_calls (p : Pmm) (n : Nat) :
    allocs p n = (List.replicate n FrameOp.alloc).foldl pmmCall p := by
  induction n with
  | zero => rfl
  | succ n ih => rw [List.replicate_succ', List.foldl_append, ← ih]; rfl

theorem allocs_total (p : Pmm) (n : Nat) : (allocs p n).totalFrames = p.totalFrames := by
  rw [allocs_eq_calls, calls_total]

theorem not_frees_of_replicate {f n : Nat} {o : FrameOp} (ho : o ∈ List.replicate n FrameOp.alloc) :
    ¬ o.Frees f := by
  rw [List.eq_of_mem_replicate ho]
  exact id

/-- **Each allocation takes one frame below the limit** while there is one, and none above it. -/
theorem allocs_spec (p : Pmm) (n : Nat) :
    (allocs p n).bitmap.clearCount (8 * (p.totalFrames / 8)) =
      p.bitmap.clearCount (8 * (p.totalFrames / 8)) - n ∧
    ∀ g, 8 * (p.totalFrames / 8) ≤ g → ((allocs p n).Free g ↔ p.Free g) := by
  induction n with
  | zero => exact ⟨rfl, fun g _ => Iff.rfl⟩
  | succ n ih =>
    obtain ⟨hcount, habove⟩ := ih
    have htot := allocs_total p n
    rw [allocs]
    rcases pmmAllocFrame_cases (allocs p n) with ⟨heq, hnone⟩ | ⟨f, heq, hfree, hlt, -⟩
    · rw [htot] at hnone
      have hzero : (allocs p n).bitmap.clearCount (8 * (p.totalFrames / 8)) = 0 := by
        by_contra hpos
        obtain ⟨g, hg, hclear⟩ := Bitmap.exists_clear_of_pos (Nat.pos_of_ne_zero hpos)
        exact hnone g hg hclear
      rw [heq]
      exact ⟨by simp only; omega, habove⟩
    · rw [htot] at hlt
      have hset := Bitmap.clearCount_set hfree hlt
      rw [heq]
      refine ⟨by simp only; omega, fun g hg => ?_⟩
      rw [free_set (p := allocs p n) rfl, habove g hg]
      exact and_iff_right (by omega)

theorem frameAfter_null {n : Nat} (hn : 8 * (p.totalFrames / 8) ≤ n) : frameAfter p n = 0 := by
  have hle := Bitmap.clearCount_le (b := p.bitmap) 0 (8 * (p.totalFrames / 8))
    (n := 8 * (p.totalFrames / 8)) fun g hg _ => ⟨Nat.zero_le g, hg⟩
  have hcount := (allocs_spec p n).1
  have htot := allocs_total p n
  rcases pmmAllocFrame_cases (allocs p n) with ⟨heq, -⟩ | ⟨g, -, hfree, hlt, -⟩
  · exact congrArg Prod.fst heq
  · rw [htot] at hlt
    have := Bitmap.clearCount_pos hfree hlt
    omega

theorem pmmAllocFrame_ne_zero (h : ∀ g < 8 * (p.totalFrames / 8), p.Free g → 0 < g ∧ g < 2 ^ 20) :
    (pmmAllocFrame p).1 ≠ 0 ↔ 0 < p.bitmap.clearCount (8 * (p.totalFrames / 8)) := by
  rcases pmmAllocFrame_cases p with ⟨heq, hnone⟩ | ⟨f, heq, hfree, hlt, -⟩
  · rw [heq]
    refine ⟨fun hne => absurd rfl hne, fun hpos => ?_⟩
    obtain ⟨g, hg, hclear⟩ := Bitmap.exists_clear_of_pos hpos
    exact absurd hclear (hnone g hg)
  · obtain ⟨h0, hsmall⟩ := h f hlt hfree
    rw [heq, w32_of_lt (by unfold pageSize; omega)]
    exact iff_of_true (by unfold pageSize; simp only; omega) (Bitmap.clearCount_pos hfree hlt)

end Calls

section Limit

variable {L : Layout} {bitmap : Bitmap} {entries : List MmapEntry}

theorem scanLimit_eq (L : Layout) (bitmap : Bitmap) (entries : List MmapEntry) :
    8 * ((pmmInit L bitmap (some entries)).totalFrames / 8) = scanLimit L entries := by
  rw [(pmmInit_spec L bitmap entries).2.1, scanLimit]

theorem Releases.free {f : Nat} (h : Releases L entries f) :
    (pmmInit L bitmap (some entries)).Free f := by
  rw [pmmInit_some]
  exact ((releaseEntries_spec entries (by unfold fullPmm; simp only; omega)).1 f).mpr (.inr h)

theorem alloc_misses {f : Nat} (bitmap : Bitmap) (hf : Releases L entries f)
    (hlimit : scanLimit L entries ≤ f) :
    let p := pmmInit L bitmap (some entries)
    frameAfter p (scanLimit L entries) = 0 ∧ (allocs p (scanLimit L entries)).Free f := by
  have hlimit' := scanLimit_eq L bitmap entries
  refine ⟨frameAfter_null (Nat.le_of_eq hlimit'), ?_⟩
  exact ((allocs_spec _ _).2 f (hlimit' ▸ hlimit)).mpr hf.free

theorem nullWhenFull_iff (L : Layout) (bitmap : Bitmap) (entries : List MmapEntry) :
    NullWhenFull L bitmap entries ↔ ∀ f, Releases L entries f → f < scanLimit L entries := by
  constructor
  · intro h f hf
    by_contra hlimit
    obtain ⟨hnull, hfree⟩ := alloc_misses bitmap hf (Nat.le_of_not_lt hlimit)
    rw [frameAfter, allocs_eq_calls] at hnull
    rw [allocs_eq_calls] at hfree
    exact h _ (fun o ho => not_frees_of_replicate ho) hnull f hf hfree
  · intro h ops hops p hnull f hf hfree
    have htot : 8 * (p.totalFrames / 8) = scanLimit L entries := by
      rw [← scanLimit_eq L bitmap]
      exact congrArg (fun n => 8 * (n / 8)) (calls_total ops _)
    have hzero : ¬ p.Free 0 := fun h0 => by
      have hboot := free_of_calls hops h0
      have := pmmInit_reserves L bitmap (some entries) 0 (by decide) hboot
      have := (kernelEndFrame_bounds L).1
      omega
    rcases pmmAllocFrame_cases p with ⟨-, hnone⟩ | ⟨g, heq, hg, -, hlow⟩
    · exact hnone f (htot ▸ h f hf) hfree
    · -- the frame found is at most `f`, so its address is `0` only for frame `0`
      have hgf : g ≤ f := Nat.le_of_not_lt fun hlt => hlow f hlt hfree
      have hmax := hf.2.1
      rw [heq] at hnull
      simp only at hnull
      rw [w32_of_lt (by unfold maxFrames at hmax; unfold pageSize; omega)] at hnull
      obtain rfl : g = 0 := by unfold pageSize at hnull; omega
      exact hzero hg

theorem frameAfter_succeeds_iff (bitmap : Bitmap) (hcap : scanLimit L entries ≤ capacity)
    (n : Nat) : frameAfter (pmmInit L bitmap (some entries)) n ≠ 0 ↔
      n < ((Finset.range (scanLimit L entries)).filter (Releases L entries)).card := by
  have htot := allocs_total (pmmInit L bitmap (some entries)) n
  have hfree := (pmmInit_spec L bitmap entries).1
  have hcard : (pmmInit L bitmap (some entries)).bitmap.clearCount (scanLimit L entries) =
      ((Finset.range (scanLimit L entries)).filter (Releases L entries)).card := by
    rw [Bitmap.clearCount_eq_card]
    congr 1
    refine Finset.filter_congr fun g hg => hfree g ?_
    exact Nat.lt_of_lt_of_le (Finset.mem_range.mp hg) hcap
  have hcount := (allocs_spec (pmmInit L bitmap (some entries)) n).1
  rw [frameAfter, pmmAllocFrame_ne_zero, htot, hcount, scanLimit_eq, hcard]
  · omega
  · intro g hg hgfree
    rw [htot, scanLimit_eq] at hg
    rw [allocs_eq_calls] at hgfree
    have hboot := free_of_calls (fun o ho => not_frees_of_replicate ho) hgfree
    have hrel := (hfree g (Nat.lt_of_lt_of_le hg hcap)).mp hboot
    have h1 := hrel.1
    have h2 := hrel.2.1
    have h3 := (kernelEndFrame_bounds L).1
    unfold maxFrames at h2
    omega

theorem released_below_iff :
    ((Finset.range (scanLimit L entries)).filter (Releases L entries)).card =
        (releasedFrames L entries).card ↔
      ∀ f, Releases L entries f → f < scanLimit L entries := by
  have hsub : (Finset.range (scanLimit L entries)).filter (Releases L entries) ⊆
      releasedFrames L entries := fun f hf => by
    obtain ⟨-, hrel⟩ := Finset.mem_filter.mp hf
    exact Finset.mem_filter.mpr ⟨Finset.mem_range.mpr hrel.2.1, hrel⟩
  constructor
  · intro hcard f hf
    have hmem : f ∈ releasedFrames L entries :=
      Finset.mem_filter.mpr ⟨Finset.mem_range.mpr hf.2.1, hf⟩
    rw [← Finset.eq_of_subset_of_card_le hsub hcard.ge] at hmem
    exact Finset.mem_range.mp (Finset.mem_filter.mp hmem).1
  · intro h
    refine congrArg Finset.card (Finset.Subset.antisymm hsub fun f hf => ?_)
    have hrel := (Finset.mem_filter.mp hf).2
    exact Finset.mem_filter.mpr ⟨Finset.mem_range.mpr (h f hrel), hrel⟩

theorem countsExactly_iff (bitmap : Bitmap) (hcap : scanLimit L entries ≤ capacity) :
    CountsExactly L bitmap entries ↔ ∀ f, Releases L entries f → f < scanLimit L entries := by
  rw [← released_below_iff]
  constructor
  · intro h
    have hsame : ∀ n, n < ((Finset.range (scanLimit L entries)).filter (Releases L entries)).card ↔
        n < (releasedFrames L entries).card :=
        fun n => (frameAfter_succeeds_iff bitmap hcap n).symm.trans (h n)
    have h1 := hsame ((Finset.range (scanLimit L entries)).filter (Releases L entries)).card
    have h2 := hsame (releasedFrames L entries).card
    omega
  · intro h n
    rw [frameAfter_succeeds_iff bitmap hcap n, h]

/-- **The allocator uses all the memory it counted** exactly when every released frame
is below the scan limit. With the limit inside the bitmap, the number of allocations in
a row that succeed is exact under the same condition. -/
theorem alloc_uses_all_iff (L : Layout) (bitmap : Bitmap) (entries : List MmapEntry) :
    (NullWhenFull L bitmap entries ↔ ∀ f, Releases L entries f → f < scanLimit L entries) ∧
    (scanLimit L entries ≤ capacity →
      (CountsExactly L bitmap entries ↔ ∀ f, Releases L entries f → f < scanLimit L entries)) :=
  ⟨nullWhenFull_iff L bitmap entries, countsExactly_iff bitmap⟩

end Limit

/-- **The end of memory is never used**: with 14.9 MB from the end of the image to 16 MB,
the scan stops at frame 3808, and the frames from there to 4095 are never handed out. -/
theorem alloc_misses_last :
    let p := pmmInit sampleLayout (fun _ => 0#8) sampleMap
    frameAfter p 3808 = 0 ∧ Releases sampleLayout (sampleMap.getD []) 4095 ∧
      (allocs p 3808).Free 4095 := by
  have hrel : Releases sampleLayout (sampleMap.getD []) 4095 := by decide
  have hlimit : scanLimit sampleLayout (sampleMap.getD []) = 3808 := by
    have h := scanLimit_eq sampleLayout (fun _ => 0#8) (sampleMap.getD [])
    have htot : (pmmInit sampleLayout (fun _ => 0#8)
      (some (sampleMap.getD []))).totalFrames = 3808 :=
      samplePmm.1
    rw [← h, htot]
  obtain ⟨hnull, hfree⟩ := alloc_misses (fun _ => 0#8) hrel (by rw [hlimit]; omega)
  rw [hlimit] at hnull hfree
  exact ⟨hnull, hrel, hfree⟩

end TupleOS.Memory
