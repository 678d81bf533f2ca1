import TupleOS.Memory.FrameScan

/-!
# Accesses to `frame_bitmap` (`kernel/pmm.c`)

The allocator once more, with the indices it uses into `frame_bitmap`. The array has
`MAX_FRAMES / 8` bytes, which leaves the last two of the `MAX_FRAMES` frames without
a bit, and the scan is bounded by a count that may exceed both. Every access is in
bounds exactly when the map releases neither of the two frames, no call frees one of
them, and each scan either ends with the array or finds a frame in it
(`accesses_in_bounds_iff`).
-/

namespace TupleOS.Memory

open TupleOS.Base

/-- The allocator and the indices it has used. -/
structure Probed where
  pmm : Pmm
  indices : List Nat

namespace Probed

def touch (s : Probed) (i : Nat) : Probed := { s with indices := i :: s.indices }

def bitmapSet (s : Probed) (frame : Nat) : Probed :=
  { s.touch (frame / 8) with pmm := { s.pmm with bitmap := s.pmm.bitmap.set frame } }

def bitmapClear (s : Probed) (frame : Nat) : Probed :=
  { s.touch (frame / 8) with pmm := { s.pmm with bitmap := s.pmm.bitmap.clear frame } }

def bitmapTest (s : Probed) (frame : Nat) : Bool × Probed :=
  (s.pmm.bitmap.test frame, s.touch (frame / 8))

/-- The loop of `bitmap_first_free`: `n` bytes from byte `i`. -/
def firstFree (s : Probed) : Nat → Nat → Option Nat × Probed
  | 0, _ => (none, s)
  | n + 1, i =>
    let s := s.touch i
    if s.pmm.bitmap i = 0xFF#8 then s.firstFree n (i + 1)
    else match Bitmap.firstClearBit (s.pmm.bitmap i) 8 0 with
      | some j => (some (i * 8 + j), s)
      | none => s.firstFree n (i + 1)

def pmmAllocFrame (s : Probed) : Nat × Probed :=
  match s.firstFree (s.pmm.totalFrames / 8) 0 with
  | (none, s) => (0, s)
  | (some frame, s) =>
    let s := s.bitmapSet frame
    (w32 (frame * pageSize),
      { s with pmm := { s.pmm with usedFrames := w32 (s.pmm.usedFrames + 1) } })

def pmmFreeFrame (s : Probed) (frameAddr : Nat) : Probed :=
  let frame := frameAddr / pageSize
  if maxFrames ≤ frame then s
  else
    let (used, s) := s.bitmapTest frame
    if used then
      let s := s.bitmapClear frame
      { s with pmm := { s.pmm with usedFrames := sub32 s.pmm.usedFrames 1 } }
    else s

def releaseFrames (L : Layout) (s : Probed) (frame : Nat) : Nat → Probed
  | 0 => s
  | n + 1 =>
    if maxFrames ≤ frame then s
    else
      let addr := w32 (frame * pageSize)
      let s :=
        if addr < 0x100000 ∨ addr < kernelEndPhys L then s
        else
          let s := s.bitmapClear frame
          { s with pmm := { s.pmm with totalFrames := w32 (s.pmm.totalFrames + 1) } }
      releaseFrames L s (frame + 1) n

def releaseEntry (L : Layout) (s : Probed) (entry : MmapEntry) : Probed :=
  if entry.type = memoryAvailable then
    releaseFrames L s entry.startFrame (entry.endFrame - entry.startFrame)
  else s

/-- `pmm_init`; its first loop writes every byte of the array. -/
def pmmInit (L : Layout) (bitmap : Bitmap) (mmap : Option (List MmapEntry)) : Probed :=
  let s : Probed := ⟨fullPmm bitmap, List.range (maxFrames / 8)⟩
  match mmap with
  | none => s
  | some entries => entries.foldl (releaseEntry L) s

def pmmCall (s : Probed) : FrameOp → Probed
  | .alloc => s.pmmAllocFrame.2
  | .free frameAddr => s.pmmFreeFrame frameAddr

/-- Every index used is one of `frame_bitmap`. -/
def InBounds (s : Probed) : Prop := ∀ i ∈ s.indices, i < maxFrames / 8

variable {s : Probed} {L : Layout} {i f n : Nat}

theorem inBounds_touch : (s.touch i).InBounds ↔ i < maxFrames / 8 ∧ s.InBounds :=
  List.forall_mem_cons

theorem inBounds_clear (p : Pmm) :
    InBounds ⟨p, (s.bitmapClear f).indices⟩ ↔ f / 8 < maxFrames / 8 ∧ s.InBounds :=
  List.forall_mem_cons

theorem index_lt : f / 8 < maxFrames / 8 ↔ f < capacity := by
  unfold capacity
  omega

/-! ## The probe only watches -/

theorem firstFree_eq : ∀ (n i : Nat) (s : Probed),
    (s.firstFree n i).1 = s.pmm.bitmap.firstClear n i ∧ (s.firstFree n i).2.pmm = s.pmm
  | 0, _, _ => ⟨rfl, rfl⟩
  | n + 1, i, s => by
    have hnext := firstFree_eq n (i + 1) (s.touch i)
    rw [firstFree, Bitmap.firstClear]
    simp only [show (s.touch i).pmm = s.pmm from rfl] at hnext ⊢
    by_cases hb : s.pmm.bitmap i = 0xFF#8
    · rw [if_pos hb, if_pos hb]
      exact hnext
    · rw [if_neg hb, if_neg hb]
      cases hbit : Bitmap.firstClearBit (s.pmm.bitmap i) 8 0 with
      | none => exact hnext
      | some j => exact ⟨rfl, rfl⟩

/-- **The indices of a scan**: up to the byte of the frame it finds, or to its end. -/
theorem firstFree_inBounds : ∀ (n i : Nat) (s : Probed),
    (s.firstFree n i).2.InBounds ↔ s.InBounds ∧
      ∀ k < n, (∀ g, 8 * i ≤ g → g < 8 * (i + k) → s.pmm.bitmap.test g = true) →
        i + k < maxFrames / 8
  | 0, i, s => by simp [firstFree]
  | n + 1, i, s => by
    -- a full byte: the scan goes on behind it
    have hskip : (∀ j < 8, (s.pmm.bitmap i).getLsbD j = true) →
        (((s.touch i).firstFree n (i + 1)).2.InBounds ↔ s.InBounds ∧
          ∀ k < n + 1, (∀ g, 8 * i ≤ g → g < 8 * (i + k) → s.pmm.bitmap.test g = true) →
            i + k < maxFrames / 8) := by
      intro hfull
      have hbyte : ∀ g, 8 * i ≤ g → g < 8 * (i + 1) → s.pmm.bitmap.test g = true := by
        intro g h1 h2
        unfold Bitmap.test
        rw [show g / 8 = i by omega]
        exact hfull _ (by omega)
      rw [firstFree_inBounds n (i + 1) (s.touch i), inBounds_touch]
      constructor
      · rintro ⟨⟨hi, hs⟩, hrest⟩
        refine ⟨hs, fun k hk hset => ?_⟩
        cases k with
        | zero => exact hi
        | succ k =>
          have := hrest k (by omega) fun g h1 h2 => hset g (by omega) (by omega)
          omega
      · rintro ⟨hs, hrest⟩
        refine ⟨⟨hrest 0 (by omega) fun g h1 h2 => by omega, hs⟩, fun k hk hset => ?_⟩
        have := hrest (k + 1) (by omega) fun g h1 h2 => by
          by_cases hg : g < 8 * (i + 1)
          · exact hbyte g h1 hg
          · exact hset g (by omega) (by omega)
        omega
    rw [firstFree]
    simp only [show (s.touch i).pmm = s.pmm from rfl]
    by_cases hb : s.pmm.bitmap i = 0xFF#8
    · rw [if_pos hb]
      exact hskip fun j hj => by rw [hb]; exact Bitmap.getLsbD_full hj
    · rw [if_neg hb]
      cases hbit : Bitmap.firstClearBit (s.pmm.bitmap i) 8 0 with
      | none => exact hskip fun j hj => Bitmap.firstClearBit_none hbit j (by omega) (by omega)
      | some j =>
        obtain ⟨-, hj, hclear, -⟩ := Bitmap.firstClearBit_some hbit
        refine inBounds_touch.trans ⟨fun ⟨hi, hs⟩ => ⟨hs, fun k hk hset => ?_⟩,
          fun ⟨hs, hrest⟩ => ⟨hrest 0 (by omega) fun g h1 h2 => by omega, hs⟩⟩
        cases k with
        | zero => exact hi
        | succ k =>
          have hset' := hset (8 * i + j) (by omega) (by omega)
          unfold Bitmap.test at hset'
          rw [show (8 * i + j) / 8 = i by omega, show (8 * i + j) % 8 = j by omega, hclear] at hset'
          cases hset'

theorem pmmAllocFrame_pmm (s : Probed) :
    s.pmmAllocFrame.2.pmm = (Memory.pmmAllocFrame s.pmm).2 := by
  unfold pmmAllocFrame Memory.pmmAllocFrame bitmapFirstFree
  obtain ⟨h1, h2⟩ := firstFree_eq (s.pmm.totalFrames / 8) 0 s
  rw [← h1]
  generalize s.firstFree (s.pmm.totalFrames / 8) 0 = r at h1 h2
  obtain ⟨frame, s'⟩ := r
  cases frame with
  | none => exact h2
  | some frame =>
    simp only at h2
    rw [← h2]
    rfl

theorem pmmFreeFrame_pmm (s : Probed) (a : Nat) :
    (s.pmmFreeFrame a).pmm = Memory.pmmFreeFrame s.pmm a := by
  unfold pmmFreeFrame Memory.pmmFreeFrame bitmapTest
  simp only
  by_cases hmax : maxFrames ≤ a / pageSize
  · rw [if_pos hmax, if_pos hmax]
  · rw [if_neg hmax, if_neg hmax]
    by_cases ht : s.pmm.bitmap.test (a / pageSize) = true
    · rw [if_pos ht, if_pos ht]
      rfl
    · rw [if_neg ht, if_neg ht]
      rfl

theorem pmmCall_pmm (s : Probed) (o : FrameOp) : (s.pmmCall o).pmm = Memory.pmmCall s.pmm o := by
  cases o with
  | alloc => exact s.pmmAllocFrame_pmm
  | free a => exact s.pmmFreeFrame_pmm a

theorem releaseFrames_pmm (L : Layout) : ∀ (n frame : Nat) (s : Probed),
    (releaseFrames L s frame n).pmm = Memory.releaseFrames L s.pmm frame n
  | 0, _, _ => rfl
  | n + 1, frame, s => by
    rw [releaseFrames, Memory.releaseFrames]
    by_cases hmax : maxFrames ≤ frame
    · rw [if_pos hmax, if_pos hmax]
    · rw [if_neg hmax, if_neg hmax]
      simp only [releaseFrames_pmm L n (frame + 1)]
      split <;> rfl

theorem releaseEntry_pmm (L : Layout) (s : Probed) (e : MmapEntry) :
    (releaseEntry L s e).pmm = Memory.releaseEntry L s.pmm e := by
  unfold releaseEntry Memory.releaseEntry
  split
  · exact releaseFrames_pmm L _ _ s
  · rfl

theorem releaseEntries_pmm (L : Layout) (entries : List MmapEntry) (s : Probed) :
    (entries.foldl (releaseEntry L) s).pmm = entries.foldl (Memory.releaseEntry L) s.pmm := by
  induction entries generalizing s with
  | nil => rfl
  | cons e entries ih => rw [List.foldl_cons, List.foldl_cons, ih, releaseEntry_pmm]

theorem pmmInit_pmm (L : Layout) (bitmap : Bitmap) (mmap : Option (List MmapEntry)) :
    (pmmInit L bitmap mmap).pmm = Memory.pmmInit L bitmap mmap := by
  cases mmap with
  | none => rfl
  | some entries => exact releaseEntries_pmm L entries _

/-! ## Calls -/

theorem scanInBounds_iff (p : Pmm) :
    (∀ k < p.totalFrames / 8, (∀ g < 8 * k, p.bitmap.test g = true) → k < maxFrames / 8) ↔
      ScanInBounds p := by
  constructor
  · intro h
    by_cases hn : p.totalFrames / 8 ≤ maxFrames / 8
    · exact .inl hn
    · by_contra hno
      have hset : ∀ g < 8 * (maxFrames / 8), p.bitmap.test g = true := fun g hg => by
        by_contra hclear
        exact hno (.inr ⟨g, hg, Bool.eq_false_iff.mpr hclear⟩)
      exact Nat.lt_irrefl _ (h (maxFrames / 8) (by omega) hset)
  · rintro (hn | ⟨f, hf, hfree⟩) k hk hset
    · omega
    · by_contra hge
      have : p.bitmap.test f = true := hset f (by unfold capacity at hf; omega)
      rw [Pmm.Free, this] at hfree
      cases hfree

theorem pmmAllocFrame_inBounds (s : Probed) :
    s.pmmAllocFrame.2.InBounds ↔ s.InBounds ∧ ScanInBounds s.pmm := by
  have hscan := firstFree_inBounds (s.pmm.totalFrames / 8) 0 s
  simp only [Nat.mul_zero, Nat.zero_le, true_implies, Nat.zero_add, scanInBounds_iff] at hscan
  rw [← hscan]
  have hres := (firstFree_eq (s.pmm.totalFrames / 8) 0 s).1
  unfold pmmAllocFrame
  generalize s.firstFree (s.pmm.totalFrames / 8) 0 = r at hscan hres
  obtain ⟨frame, s'⟩ := r
  cases frame with
  | none => exact Iff.rfl
  | some frame =>
    -- the byte of the frame found is one that the scan read
    obtain ⟨-, hlt, -, hlow⟩ := Bitmap.firstClear_some hres.symm
    refine inBounds_touch.trans (and_iff_right_of_imp fun hs => ?_)
    exact (scanInBounds_iff s.pmm).mpr (hscan.mp hs).2 (frame / 8) (by omega)
      fun g hg => hlow g (by omega) (by omega)

theorem pmmFreeFrame_inBounds (s : Probed) (a : Nat) :
    (s.pmmFreeFrame a).InBounds ↔
      s.InBounds ∧ (a / pageSize < capacity ∨ maxFrames ≤ a / pageSize) := by
  unfold pmmFreeFrame bitmapTest
  simp only
  by_cases hmax : maxFrames ≤ a / pageSize
  · rw [if_pos hmax]
    exact (and_iff_left (.inr hmax)).symm
  · rw [if_neg hmax, or_iff_left hmax, ← index_lt]
    by_cases ht : s.pmm.bitmap.test (a / pageSize) = true
    · rw [if_pos ht, inBounds_clear, inBounds_touch]
      exact ⟨fun h => ⟨h.2.2, h.1⟩, fun h => ⟨h.2, h.2, h.1⟩⟩
    · rw [if_neg ht, inBounds_touch, and_comm]

/-- The frame loop clears the bits of the frames it releases. -/
theorem releaseFrames_inBounds (L : Layout) : ∀ (n frame : Nat) (s : Probed),
    (releaseFrames L s frame n).InBounds ↔ s.InBounds ∧
      ∀ f, frame ≤ f → f < frame + n → f < maxFrames → kernelEndFrame L ≤ f → f < capacity
  | 0, frame, s => by
    rw [releaseFrames]
    exact (and_iff_left fun f h1 h2 => by omega).symm
  | n + 1, frame, s => by
    rw [releaseFrames]
    by_cases hmax : maxFrames ≤ frame
    · rw [if_pos hmax]
      exact (and_iff_left fun f h1 h2 h3 => by omega).symm
    · rw [if_neg hmax]
      simp only [releaseFrames_inBounds L n (frame + 1), skips_frame L (Nat.lt_of_not_le hmax)]
      by_cases hskip : frame < kernelEndFrame L
      · rw [if_pos hskip]
        refine and_congr_right fun _ => forall_congr' fun f => ?_
        constructor
        · exact fun h h1 h2 h3 h4 => h (by omega) (by omega) h3 h4
        · exact fun h h1 h2 h3 h4 => h (by omega) (by omega) h3 h4
      · rw [if_neg hskip]
        rw [inBounds_clear, index_lt]
        constructor
        · rintro ⟨⟨hf, hs⟩, hrest⟩
          refine ⟨hs, fun f h1 h2 h3 h4 => ?_⟩
          by_cases hff : f = frame
          · exact hff ▸ hf
          · exact hrest f (by omega) (by omega) h3 h4
        · rintro ⟨hs, hrest⟩
          exact ⟨⟨hrest frame (by omega) (by omega) (by omega) (by omega), hs⟩,
            fun f h1 h2 h3 h4 => hrest f (by omega) (by omega) h3 h4⟩

theorem releaseEntry_inBounds (L : Layout) (s : Probed) (e : MmapEntry) :
    (releaseEntry L s e).InBounds ↔ s.InBounds ∧ ∀ f, Releases L [e] f → f < capacity := by
  simp only [Releases, MmapEntry.Visits, List.mem_singleton, exists_eq_left]
  unfold releaseEntry
  by_cases hav : e.type = memoryAvailable
  · rw [if_pos hav, releaseFrames_inBounds]
    refine and_congr_right fun _ => forall_congr' fun f => ?_
    constructor
    · rintro h ⟨h1, h2, -, h3, h4⟩
      exact h h3 (by omega) h2 h1
    · intro h h1 h2 h3 h4
      exact h ⟨h4, h3, hav, h1, by omega⟩
  · rw [if_neg hav]
    exact (and_iff_left fun f h => absurd h.2.2.1 hav).symm

theorem releaseEntries_inBounds (L : Layout) (entries : List MmapEntry) (s : Probed) :
    (entries.foldl (releaseEntry L) s).InBounds ↔
      s.InBounds ∧ ∀ f, Releases L entries f → f < capacity := by
  induction entries generalizing s with
  | nil =>
    refine (and_iff_left fun f h => ?_).symm
    obtain ⟨-, -, e, he, -⟩ := h
    cases he
  | cons e entries ih =>
    have hcons : ∀ f, Releases L (e :: entries) f ↔ Releases L [e] f ∨ Releases L entries f :=
      fun f => by
        simp only [Releases, List.mem_cons, List.not_mem_nil, or_false, exists_eq_left,
          exists_eq_or_imp, and_or_left]
    rw [List.foldl_cons, ih, releaseEntry_inBounds, and_assoc]
    simp only [hcons, or_imp, forall_and]

theorem pmmInit_inBounds (L : Layout) (bitmap : Bitmap) (mmap : Option (List MmapEntry)) :
    (pmmInit L bitmap mmap).InBounds ↔ ∀ f, Releases L (mmap.getD []) f → f < capacity := by
  have hfill : Probed.InBounds ⟨fullPmm bitmap, List.range (maxFrames / 8)⟩ := by
    simp only [InBounds, List.mem_range]
    exact fun i hi => hi
  have h := releaseEntries_inBounds L (mmap.getD []) ⟨fullPmm bitmap, List.range (maxFrames / 8)⟩
  rw [and_iff_right hfill] at h
  cases mmap with
  | none => exact h
  | some entries => exact h

end Probed

/-- The call uses indices of `frame_bitmap` only. -/
def FrameOp.InBounds (p : Pmm) : FrameOp → Prop
  | .alloc => ScanInBounds p
  | .free frameAddr => frameAddr / pageSize < capacity ∨ maxFrames ≤ frameAddr / pageSize

/-- So does each call of the sequence, in the state it is made in. -/
def CallsInBounds (p : Pmm) : List FrameOp → Prop
  | [] => True
  | o :: ops => o.InBounds p ∧ CallsInBounds (pmmCall p o) ops

theorem Probed.pmmCall_inBounds (s : Probed) (o : FrameOp) :
    (s.pmmCall o).InBounds ↔ s.InBounds ∧ o.InBounds s.pmm := by
  cases o with
  | alloc => exact s.pmmAllocFrame_inBounds
  | free a => exact s.pmmFreeFrame_inBounds a

theorem Probed.calls_inBounds (ops : List FrameOp) (s : Probed) :
    (ops.foldl Probed.pmmCall s).InBounds ↔ s.InBounds ∧ CallsInBounds s.pmm ops := by
  induction ops generalizing s with
  | nil => exact (and_iff_left trivial).symm
  | cons o ops ih =>
    rw [List.foldl_cons, ih, s.pmmCall_inBounds, s.pmmCall_pmm, CallsInBounds, and_assoc]

/-- **Every access to `frame_bitmap` is in bounds**, from boot through any calls, exactly
when the map releases no frame without a bit and each call is in bounds in its state. -/
theorem accesses_in_bounds_iff (L : Layout) (bitmap : Bitmap) (mmap : Option (List MmapEntry))
    (ops : List FrameOp) :
    (ops.foldl Probed.pmmCall (Probed.pmmInit L bitmap mmap)).InBounds ↔
      (∀ f, Releases L (mmap.getD []) f → f < capacity) ∧
        CallsInBounds (pmmInit L bitmap mmap) ops := by
  rw [Probed.calls_inBounds, Probed.pmmInit_inBounds, Probed.pmmInit_pmm]

/-- **Freeing frame 32784 writes past the array**: its bit would be in byte 4098 of 4098. -/
theorem free_past_bitmap :
    ¬ (Probed.pmmCall (Probed.pmmInit sampleLayout (fun _ => 0) sampleMap)
      (.free 0x8010000)).InBounds := by
  rw [Probed.pmmCall_inBounds]
  rintro ⟨-, h⟩
  unfold FrameOp.InBounds capacity maxFrames pageSize at h
  omega

end TupleOS.Memory
