import Mathlib.Algebra.BigOperators.Intervals
import TupleOS.Base.Bitmap
import TupleOS.Memory.Paging

/-!
# The physical frame allocator (`kernel/pmm.c`)

One bit per 4 KB frame, set when the frame is in use. `pmm_init` marks every
frame used and then releases what the memory map calls available, except the
first megabyte and the kernel image. `pmm_alloc_frame` hands out the lowest free
frame among the first `total_frames / 8` bytes of the bitmap.
-/

namespace TupleOS.Memory

open TupleOS.Base

def maxFrames : Nat := 32786

/-- The frames that `frame_bitmap` has a bit for. -/
def capacity : Nat := 8 * (maxFrames / 8)

/-- The statics of `pmm.c`. Bytes past the end of `frame_bitmap` are whatever the
linker put there. -/
structure Pmm where
  bitmap : Bitmap
  totalFrames : Nat
  usedFrames : Nat

def Pmm.Free (p : Pmm) (f : Nat) : Prop := p.bitmap.test f = false

instance (p : Pmm) (f : Nat) : Decidable (p.Free f) := inferInstanceAs (Decidable (_ = _))

/-- `bitmap_first_free`; `none` is `-1`. -/
def bitmapFirstFree (p : Pmm) : Option Nat := p.bitmap.firstClear (p.totalFrames / 8) 0

/-- `pmm_alloc_frame`; `0` is `NULL`. -/
def pmmAllocFrame (p : Pmm) : Nat × Pmm :=
  match bitmapFirstFree p with
  | none => (0, p)
  | some frame => (w32 (frame * pageSize),
      { p with bitmap := p.bitmap.set frame, usedFrames := w32 (p.usedFrames + 1) })

def pmmFreeFrame (p : Pmm) (frameAddr : Nat) : Pmm :=
  let frame := frameAddr / pageSize
  if maxFrames ≤ frame then p
  else if p.bitmap.test frame then
    { p with bitmap := p.bitmap.clear frame, usedFrames := sub32 p.usedFrames 1 }
  else p

/-! ## Boot -/

/-- What `pmm_init` reads of a memory-map entry. -/
structure MmapEntry where
  baseAddr : BitVec 64
  length : BitVec 64
  type : BitVec 32

def memoryAvailable : BitVec 32 := 1#32

/-- `kernel_end` of `pmm_init`: the physical end of the image, rounded up. -/
def kernelEndPhys (L : Layout) : Nat := roundUp pageSize (virtToPhys L.kernelEnd)

/-- The frame loop of `pmm_init`: `n` frames from `frame`. -/
def releaseFrames (L : Layout) (p : Pmm) (frame : Nat) : Nat → Pmm
  | 0 => p
  | n + 1 =>
    if maxFrames ≤ frame then p
    else
      let addr := w32 (frame * pageSize)
      let p :=
        if addr < 0x100000 ∨ addr < kernelEndPhys L then p
        else { p with bitmap := p.bitmap.clear frame, totalFrames := w32 (p.totalFrames + 1) }
      releaseFrames L p (frame + 1) n

/-- One entry of the memory map. Base and length are cut to 32 bits. -/
def releaseEntry (L : Layout) (p : Pmm) (entry : MmapEntry) : Pmm :=
  if entry.type = memoryAvailable then
    let base := w32 entry.baseAddr.toNat
    let length := w32 entry.length.toNat
    let startFrame := w32 (base + (pageSize - 1)) / pageSize
    let endFrame := w32 (base + length) / pageSize
    releaseFrames L p startFrame (endFrame - startFrame)
  else p

/-- `pmm_init` on the entries its walk visits; `none` when the boot loader
passed no memory map. `bitmap` is the memory before the call. -/
def pmmInit (L : Layout) (bitmap : Bitmap) (mmap : Option (List MmapEntry)) : Pmm :=
  let p : Pmm := {
    bitmap := fun i => if i < maxFrames / 8 then 0xFF#8 else bitmap i
    totalFrames := 0
    usedFrames := 0 }
  match mmap with
  | none => p
  | some entries => entries.foldl (releaseEntry L) p

/-! ## Specifications -/

section Spec

variable {L : Layout} {p : Pmm} {f g : Nat}

/-- **`pmm_alloc_frame`**: nothing, or the lowest free frame. -/
theorem pmmAllocFrame_cases (p : Pmm) :
    (pmmAllocFrame p = (0, p) ∧ ∀ g < 8 * (p.totalFrames / 8), ¬ p.Free g) ∨
    ∃ f, pmmAllocFrame p = (w32 (f * pageSize),
        { p with bitmap := p.bitmap.set f, usedFrames := w32 (p.usedFrames + 1) }) ∧
      p.Free f ∧ f < 8 * (p.totalFrames / 8) ∧ ∀ g < f, ¬ p.Free g := by
  unfold pmmAllocFrame
  cases hf : bitmapFirstFree p with
  | none =>
    refine .inl ⟨rfl, fun g hg hfree => ?_⟩
    rw [Pmm.Free, Bitmap.firstClear_none hf g (by omega) (by omega)] at hfree
    cases hfree
  | some f =>
    obtain ⟨-, h2, h3, h4⟩ := Bitmap.firstClear_some hf
    refine .inr ⟨f, rfl, h3, by omega, fun g hg hfree => ?_⟩
    rw [Pmm.Free, h4 g (by omega) hg] at hfree
    cases hfree

theorem free_set {p' : Pmm} (h : p'.bitmap = p.bitmap.set f) : p'.Free g ↔ g ≠ f ∧ p.Free g := by
  unfold Pmm.Free
  rw [h, Bitmap.test_set]
  simp

theorem free_clear {p' : Pmm} (h : p'.bitmap = p.bitmap.clear f) :
    p'.Free g ↔ g = f ∨ p.Free g := by
  unfold Pmm.Free
  rw [h, Bitmap.test_clear]
  by_cases hg : g = f <;> simp [hg]

/-- **`pmm_free_frame`** frees the frame of the address, if it is tracked. -/
theorem pmmFreeFrame_free (p : Pmm) (a : Nat) :
    (pmmFreeFrame p a).Free g ↔ p.Free g ∨ (g = a / pageSize ∧ g < maxFrames) := by
  unfold pmmFreeFrame
  simp only
  by_cases hmax : maxFrames ≤ a / pageSize
  · rw [if_pos hmax]
    refine ⟨.inl, fun h => h.elim id fun ⟨h1, h2⟩ => absurd hmax (by omega)⟩
  · rw [if_neg hmax]
    by_cases ht : p.bitmap.test (a / pageSize) = true
    · rw [if_pos ht, free_clear rfl]
      refine ⟨fun h => h.elim (fun h => .inr ⟨h, by omega⟩) .inl,
        fun h => h.elim .inr fun h => .inl h.1⟩
    · rw [if_neg ht]
      refine ⟨.inl, fun h => h.elim id fun ⟨h1, _⟩ => ?_⟩
      rw [h1]; exact Bool.eq_false_iff.mpr ht

theorem pmmFreeFrame_total (p : Pmm) (a : Nat) :
    (pmmFreeFrame p a).totalFrames = p.totalFrames := by
  unfold pmmFreeFrame
  simp only
  split
  · rfl
  · split <;> rfl

/-! ## What `pmm_init` releases -/

/-- Frames that `pmm_init` keeps reserved are below the end of the image. -/
def kernelEndFrame (L : Layout) : Nat := kernelEndPhys L / pageSize

theorem kernelEndFrame_bounds (L : Layout) :
    256 < kernelEndFrame L ∧ kernelEndFrame L ≤ 1024 ∧
    kernelEndPhys L = kernelEndFrame L * pageSize ∧
    L.kernelEnd - 0xC0000000 ≤ kernelEndFrame L * pageSize := by
  have h1 := L.pageDirectory_ge
  have h2 := L.pageDirectory_le
  have h3 := L.kernelEnd_le
  have hphys : virtToPhys L.kernelEnd = L.kernelEnd - 0xC0000000 := by
    unfold virtToPhys kernelVirtualBase
    exact sub32_of_le (by unfold pageSize at *; omega) (by omega)
  unfold kernelEndFrame kernelEndPhys
  rw [hphys, roundUp_of_lt (by unfold pageSize; omega)]
  unfold pageSize at *
  omega

/-- The first frame of an entry that the frame loop visits. -/
def MmapEntry.startFrame (e : MmapEntry) : Nat :=
  w32 (w32 e.baseAddr.toNat + (pageSize - 1)) / pageSize

/-- The frame at which the frame loop stops. -/
def MmapEntry.endFrame (e : MmapEntry) : Nat :=
  w32 (w32 e.baseAddr.toNat + w32 e.length.toNat) / pageSize

/-- The frame loop runs over frame `f` for this entry. -/
def MmapEntry.Visits (e : MmapEntry) (f : Nat) : Prop :=
  e.type = memoryAvailable ∧ e.startFrame ≤ f ∧ f < e.endFrame

instance (e : MmapEntry) (f : Nat) : Decidable (e.Visits f) := inferInstanceAs (Decidable (_ ∧ _))

/-- Frame `f` is released for one of the entries. -/
def Releases (L : Layout) (entries : List MmapEntry) (f : Nat) : Prop :=
  kernelEndFrame L ≤ f ∧ f < maxFrames ∧ ∃ e ∈ entries, e.Visits f

/-- How often the frame loop runs over frame `f`. -/
def visits (entries : List MmapEntry) (f : Nat) : Nat := entries.countP fun e => e.Visits f

theorem visits_pos {entries : List MmapEntry} :
    0 < visits entries f ↔ ∃ e ∈ entries, e.Visits f := by
  simp [visits, List.countP_pos_iff]

theorem skips_frame (L : Layout) (h : f < maxFrames) :
    w32 (f * pageSize) < 0x100000 ∨ w32 (f * pageSize) < kernelEndPhys L ↔
      f < kernelEndFrame L := by
  obtain ⟨h1, -, h2, -⟩ := kernelEndFrame_bounds L
  rw [w32_of_lt (by unfold maxFrames pageSize at *; omega), h2]
  unfold pageSize
  omega

theorem clip_drop {a n hi lo : Nat} (h : a < lo) :
    min (a + 1 + n) hi - max (a + 1) lo = min (a + (n + 1)) hi - max a lo := by omega

theorem clip_take {a n hi lo : Nat} (h : lo ≤ a) (hhi : a < hi) :
    1 + (min (a + 1 + n) hi - max (a + 1) lo) = min (a + (n + 1)) hi - max a lo := by omega

/-- **The frame loop of `pmm_init`** releases the frames above the image, up to
`MAX_FRAMES`, and counts each of them. -/
theorem releaseFrames_spec (n frame : Nat) (ht : p.totalFrames < 2 ^ 32) :
    (∀ g, (releaseFrames L p frame n).Free g ↔
      p.Free g ∨ (frame ≤ g ∧ g < frame + n ∧ g < maxFrames ∧ kernelEndFrame L ≤ g)) ∧
    (releaseFrames L p frame n).totalFrames =
      w32 (p.totalFrames + (min (frame + n) maxFrames - max frame (kernelEndFrame L))) ∧
    (releaseFrames L p frame n).usedFrames = p.usedFrames := by
  induction n generalizing p frame with
  | zero =>
    refine ⟨fun g => ⟨.inl, fun h => h.elim id fun h => by omega⟩, ?_, rfl⟩
    rw [show min (frame + 0) maxFrames - max frame (kernelEndFrame L) = 0 by omega, Nat.add_zero,
      w32_of_lt ht]
    rfl
  | succ n ih =>
    rw [releaseFrames]
    by_cases hmax : maxFrames ≤ frame
    · rw [if_pos hmax]
      refine ⟨fun g => ⟨.inl, fun h => h.elim id fun h => by omega⟩, ?_, rfl⟩
      rw [show min (frame + (n + 1)) maxFrames - max frame (kernelEndFrame L) = 0 by omega,
        Nat.add_zero, w32_of_lt ht]
    · rw [if_neg hmax]
      simp only [skips_frame L (Nat.lt_of_not_le hmax)]
      by_cases hkeep : frame < kernelEndFrame L
      · rw [if_pos hkeep]
        obtain ⟨hfree, htot, hused⟩ := ih (frame + 1) ht
        refine ⟨fun g => (hfree g).trans (or_congr_right ?_), ?_, hused⟩
        · constructor <;> intro h <;> omega
        · rw [htot, clip_drop hkeep]
      · rw [if_neg hkeep]
        obtain ⟨hfree, htot, hused⟩ := ih (p := ⟨p.bitmap.clear frame, w32 (p.totalFrames + 1),
          p.usedFrames⟩) (frame + 1) (w32_lt _)
        refine ⟨fun g => ?_, ?_, hused⟩
        · rw [hfree, free_clear (p := p) rfl]
          constructor
          · rintro ((rfl | hg) | hg)
            · exact .inr (by omega)
            · exact .inl hg
            · exact .inr (by omega)
          · rintro (hg | hg)
            · exact .inl (.inr hg)
            · by_cases hgf : g = frame
              · exact .inl (.inl hgf)
              · exact .inr (by omega)
        · rw [htot, w32_add_w32, Nat.add_assoc, clip_take (by omega) (by omega)]

theorem sum_visits_one (e : MmapEntry) (lo hi : Nat) (h : e.type = memoryAvailable) :
    ∑ f ∈ Finset.Ico lo hi, visits [e] f = min e.endFrame hi - max e.startFrame lo := by
  have hone : ∀ f, visits [e] f = if f ∈ Finset.Ico e.startFrame e.endFrame then 1 else 0 := by
    intro f
    simp [visits, MmapEntry.Visits, h]
  simp only [hone, Finset.sum_ite_mem, Finset.Ico_inter_Ico, ← Finset.card_eq_sum_ones,
    Nat.card_Ico]
  rw [max_comm, min_comm]

theorem visits_cons (e : MmapEntry) (entries : List MmapEntry) :
    visits (e :: entries) f = visits [e] f + visits entries f := by
  rw [visits, ← List.singleton_append, List.countP_append]
  rfl

/-- **One entry of the map.** -/
theorem releaseEntry_spec (e : MmapEntry) (ht : p.totalFrames < 2 ^ 32) :
    (∀ g, (releaseEntry L p e).Free g ↔ p.Free g ∨ Releases L [e] g) ∧
    (releaseEntry L p e).totalFrames =
      w32 (p.totalFrames + ∑ f ∈ Finset.Ico (kernelEndFrame L) maxFrames, visits [e] f) ∧
    (releaseEntry L p e).usedFrames = p.usedFrames := by
  by_cases hav : e.type = memoryAvailable
  · have heq : releaseEntry L p e = releaseFrames L p e.startFrame (e.endFrame - e.startFrame) := by
      unfold releaseEntry
      simp only [if_pos hav]
      rfl
    obtain ⟨hfree, htot, hused⟩ :=
      releaseFrames_spec (L := L) (e.endFrame - e.startFrame) e.startFrame ht
    rw [heq]
    refine ⟨fun g => (hfree g).trans (or_congr_right ?_), ?_, hused⟩
    · simp only [Releases, MmapEntry.Visits, List.mem_singleton, exists_eq_left, hav, true_and]
      constructor <;> intro h <;> omega
    · rw [htot, sum_visits_one e _ _ hav]
      congr 2
      omega
  · have hnone : ∀ f, visits [e] f = 0 := fun f => by simp [visits, MmapEntry.Visits, hav]
    unfold releaseEntry
    rw [if_neg hav]
    refine ⟨fun g => ⟨.inl, fun h => h.elim id fun h => ?_⟩, ?_, rfl⟩
    · obtain ⟨-, -, e', he', hv, -⟩ := h
      exact absurd (List.mem_singleton.mp he' ▸ hv) hav
    · simp only [hnone, Finset.sum_const_zero, Nat.add_zero]
      exact (w32_of_lt ht).symm

/-- The allocator before the first entry: every tracked frame in use. -/
def fullPmm (bitmap : Bitmap) : Pmm :=
  ⟨fun i => if i < maxFrames / 8 then 0xFF#8 else bitmap i, 0, 0⟩

theorem pmmInit_some (L : Layout) (bitmap : Bitmap) (entries : List MmapEntry) :
    pmmInit L bitmap (some entries) = entries.foldl (releaseEntry L) (fullPmm bitmap) := rfl

theorem fullPmm_used (bitmap : Bitmap) {g : Nat} (hg : g < capacity) :
    ¬ (fullPmm bitmap).Free g := by
  intro hfree
  unfold capacity at hg
  simp only [Pmm.Free, fullPmm, Bitmap.test, show g / 8 < maxFrames / 8 by omega, ↓reduceIte,
    Bitmap.getLsbD_full (show g % 8 < 8 by omega)] at hfree
  cases hfree

theorem releaseEntries_spec (entries : List MmapEntry) (ht : p.totalFrames < 2 ^ 32) :
    (∀ g, (entries.foldl (releaseEntry L) p).Free g ↔ p.Free g ∨ Releases L entries g) ∧
    (entries.foldl (releaseEntry L) p).totalFrames =
      w32 (p.totalFrames + ∑ f ∈ Finset.Ico (kernelEndFrame L) maxFrames, visits entries f) ∧
    (entries.foldl (releaseEntry L) p).usedFrames = p.usedFrames := by
  induction entries generalizing p with
  | nil =>
    refine ⟨fun g => ⟨.inl, fun h => h.elim id fun ⟨_, _, e, he, _⟩ => nomatch he⟩, ?_, rfl⟩
    simp [visits, w32_of_lt ht]
  | cons e entries ih =>
    obtain ⟨hfree, htot, hused⟩ := releaseEntry_spec (L := L) e ht
    obtain ⟨hfree', htot', hused'⟩ := ih (p := releaseEntry L p e) (by rw [htot]; exact w32_lt _)
    refine ⟨fun g => ?_, ?_, hused'.trans hused⟩
    · rw [List.foldl_cons, hfree', hfree, or_assoc]
      refine or_congr_right ?_
      simp only [Releases, List.mem_cons, List.not_mem_nil, or_false, exists_eq_left,
        exists_eq_or_imp, and_or_left]
    · rw [List.foldl_cons, htot', htot, w32_add_w32, Nat.add_assoc, ← Finset.sum_add_distrib]
      simp only [visits_cons e entries]

/-- **`pmm_init`** frees the frames that its map releases, and no other tracked frame. -/
theorem pmmInit_spec (L : Layout) (bitmap : Bitmap) (entries : List MmapEntry) :
    (∀ g < capacity, (pmmInit L bitmap (some entries)).Free g ↔ Releases L entries g) ∧
    (pmmInit L bitmap (some entries)).totalFrames =
      w32 (∑ f ∈ Finset.Ico (kernelEndFrame L) maxFrames, visits entries f) ∧
    (pmmInit L bitmap (some entries)).usedFrames = 0 := by
  obtain ⟨hfree, htot, hused⟩ := releaseEntries_spec (L := L) (p := fullPmm bitmap) entries
    (by unfold fullPmm; simp only; omega)
  rw [pmmInit_some]
  refine ⟨fun g hg => ?_, ?_, hused⟩
  · rw [hfree, or_iff_right (fullPmm_used bitmap hg)]
  · rw [htot]
    unfold fullPmm
    rw [Nat.zero_add]

/-- Only frames above the image are free. -/
def Pmm.Reserves (L : Layout) (p : Pmm) : Prop :=
  ∀ f, f < maxFrames → p.Free f → kernelEndFrame L ≤ f

theorem pmmInit_reserves (L : Layout) (bitmap : Bitmap) (mmap : Option (List MmapEntry)) :
    (pmmInit L bitmap mmap).Reserves L := by
  intro f hf hfree
  by_cases hin : f < capacity
  · cases mmap with
    | none => exact absurd hfree (fullPmm_used bitmap hin)
    | some entries => exact (((pmmInit_spec L bitmap entries).1 f hin).mp hfree).1
  · have := (kernelEndFrame_bounds L).2.1
    unfold capacity maxFrames at hin
    omega

theorem releaseEntry_range (entry : MmapEntry) (lo hi : Nat) (ht : entry.type = memoryAvailable)
    (hlo : w32 (w32 entry.baseAddr.toNat + (pageSize - 1)) / pageSize = lo)
    (hhi : w32 (w32 entry.baseAddr.toNat + w32 entry.length.toNat) / pageSize = hi)
    (hK : kernelEndFrame L ≤ lo) (hmax : hi ≤ maxFrames)
    (hp : p.totalFrames + (hi - lo) < 2 ^ 32) :
    (∀ g, (releaseEntry L p entry).Free g ↔ p.Free g ∨ (lo ≤ g ∧ g < hi)) ∧
      (releaseEntry L p entry).totalFrames = p.totalFrames + (hi - lo) := by
  have hlo' : entry.startFrame = lo := hlo
  have hhi' : entry.endFrame = hi := hhi
  obtain ⟨hfree, htot, -⟩ := releaseEntry_spec (L := L) (p := p) entry (by omega)
  refine ⟨fun g => (hfree g).trans (or_congr_right ?_), ?_⟩
  · simp only [Releases, MmapEntry.Visits, List.mem_singleton, exists_eq_left, ht, hlo', hhi',
      true_and]
    constructor <;> intro h <;> omega
  · rw [htot, sum_visits_one entry _ _ ht, hlo', hhi', Nat.min_eq_left hmax, Nat.max_eq_left hK,
      w32_of_lt hp]

end Spec

/-- One available range, from the end of a 128 KB image to 16 MB. -/
def sampleMap : Option (List MmapEntry) := some [⟨0x120000#64, 0xEE0000#64, memoryAvailable⟩]

theorem samplePmm : (pmmInit sampleLayout (fun _ => 0#8) sampleMap).totalFrames = 3808 ∧
    ∀ g, 288 ≤ g → g < 4096 → (pmmInit sampleLayout (fun _ => 0#8) sampleMap).Free g := by
  obtain ⟨hfree, htot⟩ := releaseEntry_range (L := sampleLayout) (p := fullPmm fun _ => 0#8)
    ⟨0x120000#64, 0xEE0000#64, memoryAvailable⟩ 288 4096 rfl (by decide)
    (by decide) (by decide) (by decide) (by decide)
  rw [sampleMap, pmmInit_some, List.foldl_cons, List.foldl_nil]
  exact ⟨htot, fun g h1 h2 => (hfree g).mpr (.inr ⟨h1, h2⟩)⟩

end TupleOS.Memory
