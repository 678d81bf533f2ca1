import TupleOS.Memory.Pmm

/-!
# How `pmm_init` reads the memory map

A map entry is a range with a 64-bit base and length. `pmm_init` cuts both to 32
bits before it computes the frames of the range, and counts a frame each time it
clears its bit. The map is read as it is meant (`MapRead`) exactly when the cut
changes no frame that the bitmap tracks and no visit is counted in excess
(`MapExact`). Entries below 4 GB that end inside the bitmap and do not overlap
are such a map (`MapExact.of_disjoint`).
-/

namespace TupleOS.Memory

open TupleOS.Base

/-- The 4 KB of frame `f` lie inside the entry, with its base and length in full. -/
def MmapEntry.Covers (e : MmapEntry) (f : Nat) : Prop :=
  e.type = memoryAvailable ∧ e.baseAddr.toNat ≤ f * pageSize ∧
    f * pageSize + pageSize ≤ e.baseAddr.toNat + e.length.toNat

instance (e : MmapEntry) (f : Nat) : Decidable (e.Covers f) := inferInstanceAs (Decidable (_ ∧ _))

/-- The allocator holds what the map says. -/
structure MapRead (L : Layout) (entries : List MmapEntry) (p : Pmm) : Prop where
  free : ∀ f < capacity, p.Free f ↔
    (∃ e ∈ entries, e.Covers f) ∧ 0x100000 ≤ f * pageSize ∧ kernelEndPhys L ≤ f * pageSize
  total : p.totalFrames = p.bitmap.clearCount capacity

/-- The visits to frame `f` that are counted in excess: all but the first, and
every one when the bitmap has no bit for `f`. -/
def excess (entries : List MmapEntry) (f : Nat) : Nat :=
  if f < capacity then visits entries f - 1 else visits entries f

/-- The maps that `pmm_init` reads as they are meant. -/
structure MapExact (L : Layout) (entries : List MmapEntry) : Prop where
  /-- Cut to 32 bits, the entries neither lose nor gain a frame above the image. -/
  lossless : ∀ f, kernelEndFrame L ≤ f → f < capacity →
    ((∃ e ∈ entries, e.Visits f) ↔ ∃ e ∈ entries, e.Covers f)
  /-- Nothing is counted in excess, up to a multiple of the counter's range. -/
  once : 2 ^ 32 ∣ ∑ f ∈ Finset.Ico (kernelEndFrame L) maxFrames, excess entries f

section Read

variable {L : Layout} {entries : List MmapEntry} {e : MmapEntry} {f : Nat}

theorem above_image_iff (L : Layout) (f : Nat) :
    0x100000 ≤ f * pageSize ∧ kernelEndPhys L ≤ f * pageSize ↔ kernelEndFrame L ≤ f := by
  obtain ⟨h1, -, h2, -⟩ := kernelEndFrame_bounds L
  rw [h2]
  unfold pageSize
  omega

theorem capacity_le : capacity ≤ maxFrames := Nat.mul_div_le _ _

theorem clearCount_pmmInit (L : Layout) (bitmap : Bitmap) (entries : List MmapEntry) :
    (pmmInit L bitmap (some entries)).bitmap.clearCount capacity =
      ((Finset.Ico (kernelEndFrame L) maxFrames).filter
        fun f => f < capacity ∧ 0 < visits entries f).card := by
  rw [Bitmap.clearCount_eq_card]
  refine congrArg Finset.card (Finset.ext fun f => ?_)
  simp only [Finset.mem_filter, Finset.mem_range, Finset.mem_Ico]
  constructor
  · rintro ⟨hf, hfree⟩
    obtain ⟨h1, h2, h3⟩ := ((pmmInit_spec L bitmap entries).1 f hf).mp hfree
    exact ⟨⟨h1, h2⟩, hf, visits_pos.mpr h3⟩
  · rintro ⟨⟨h1, h2⟩, hf, hv⟩
    exact ⟨hf, ((pmmInit_spec L bitmap entries).1 f hf).mpr ⟨h1, h2, visits_pos.mp hv⟩⟩

theorem sum_visits (entries : List MmapEntry) (s : Finset Nat) :
    ∑ f ∈ s, visits entries f = (∑ f ∈ s, excess entries f) +
      (s.filter fun f => f < capacity ∧ 0 < visits entries f).card := by
  rw [Finset.card_filter, ← Finset.sum_add_distrib]
  refine Finset.sum_congr rfl fun f _ => ?_
  unfold excess
  by_cases hf : f < capacity
  · by_cases hv : 0 < visits entries f
    · simp only [hf, hv, and_self, ↓reduceIte]
      omega
    · simp only [hf, hv, and_false, ↓reduceIte]
      omega
  · simp only [hf, false_and, ↓reduceIte]
    omega

/-- **`pmm_init` reads the map as it is meant exactly when the map is exact.** -/
theorem map_read_iff (L : Layout) (bitmap : Bitmap) (entries : List MmapEntry) :
    MapRead L entries (pmmInit L bitmap (some entries)) ↔ MapExact L entries := by
  obtain ⟨hfree, htot, -⟩ := pmmInit_spec L bitmap entries
  have hcount := clearCount_pmmInit L bitmap entries
  have hsum := sum_visits entries (Finset.Ico (kernelEndFrame L) maxFrames)
  rw [← hcount] at hsum
  have hlt : (pmmInit L bitmap (some entries)).bitmap.clearCount capacity < 2 ^ 32 := by
    have := Bitmap.clearCount_le (b := (pmmInit L bitmap (some entries)).bitmap) 0 capacity
      (n := capacity) fun g hg _ => ⟨Nat.zero_le g, hg⟩
    have : capacity = 32784 := rfl
    omega
  have hfits : (pmmInit L bitmap (some entries)).totalFrames =
      (pmmInit L bitmap (some entries)).bitmap.clearCount capacity ↔
      2 ^ 32 ∣ ∑ f ∈ Finset.Ico (kernelEndFrame L) maxFrames, excess entries f := by
    rw [htot, hsum]
    generalize (pmmInit L bitmap (some entries)).bitmap.clearCount capacity = n at hlt ⊢
    unfold w32
    omega
  constructor
  · rintro ⟨hread, htotal⟩
    refine ⟨fun f hK hf => ?_, hfits.mp htotal⟩
    have hmax : f < maxFrames := Nat.lt_of_lt_of_le hf capacity_le
    have := (hfree f hf).symm.trans (hread f hf)
    rw [above_image_iff] at this
    constructor
    · exact fun h => (this.mp ⟨hK, hmax, h⟩).1
    · exact fun h => (this.mpr ⟨h, hK⟩).2.2
  · rintro ⟨hloss, honce⟩
    refine ⟨fun f hf => ?_, hfits.mpr honce⟩
    have hmax : f < maxFrames := Nat.lt_of_lt_of_le hf capacity_le
    rw [hfree f hf, above_image_iff]
    constructor
    · exact fun ⟨hK, _, h⟩ => ⟨(hloss f hK hf).mp h, hK⟩
    · exact fun ⟨h, hK⟩ => ⟨hK, hmax, (hloss f hK hf).mpr h⟩

theorem visits_iff_covers (hbase : e.baseAddr.toNat + (pageSize - 1) < 2 ^ 32)
    (hend : e.baseAddr.toNat + e.length.toNat < 2 ^ 32) : e.Visits f ↔ e.Covers f := by
  unfold MmapEntry.Visits MmapEntry.Covers MmapEntry.startFrame MmapEntry.endFrame
  rw [w32_of_lt (n := e.baseAddr.toNat) (by omega), w32_of_lt (n := e.length.toNat) (by omega),
    w32_of_lt hbase, w32_of_lt hend]
  unfold pageSize
  refine and_congr_right fun _ => ?_
  constructor <;> intro h <;> omega

/-- **An ordinary map is exact**: its available entries lie below 4 GB, none reaches
past the bitmap, and no frame is in two of them. -/
theorem MapExact.of_disjoint (L : Layout)
    (hlow : ∀ e ∈ entries, e.type = memoryAvailable →
      e.baseAddr.toNat + (pageSize - 1) < 2 ^ 32 ∧ e.baseAddr.toNat + e.length.toNat < 2 ^ 32 ∧
      e.endFrame ≤ capacity)
    (hone : ∀ f, visits entries f ≤ 1) : MapExact L entries := by
  refine ⟨fun f _ _ => exists_congr fun e => and_congr_right fun he => ?_, ?_⟩
  · by_cases hav : e.type = memoryAvailable
    · exact visits_iff_covers (hlow e he hav).1 (hlow e he hav).2.1
    · exact ⟨fun h => absurd h.1 hav, fun h => absurd h.1 hav⟩
  · rw [Finset.sum_eq_zero fun f _ => ?_]
    · exact Nat.dvd_zero _
    · unfold excess
      split
      · have := hone f
        omega
      · rename_i hf
        apply Nat.eq_zero_of_not_pos
        intro hpos
        obtain ⟨e, he, hav, -, hlt⟩ := visits_pos.mp hpos
        exact hf (Nat.lt_of_lt_of_le hlt (hlow e he hav).2.2)

end Read

def highEntry : MmapEntry := ⟨0x100400000#64, 0x1000#64, memoryAvailable⟩

/-- The low half of an address above 4 GB is read as frame 1024, which no entry covers. -/
theorem map_above_4gb :
    (pmmInit sampleLayout (fun _ => 0#8) (some [highEntry])).Free 1024 ∧ ¬ highEntry.Covers 1024 ∧
    ¬ MapRead sampleLayout [highEntry]
      (pmmInit sampleLayout (fun _ => 0#8) (some [highEntry])) := by
  have hfree : (pmmInit sampleLayout (fun _ => 0#8) (some [highEntry])).Free 1024 := by
    refine ((pmmInit_spec _ _ _).1 1024 (by decide)).mpr ⟨?_, by decide, highEntry, ?_, by decide⟩
    · exact (kernelEndFrame_bounds _).2.1
    · exact List.mem_singleton.mpr rfl
  have hnot : ¬ highEntry.Covers 1024 := by decide
  refine ⟨hfree, hnot, fun h => ?_⟩
  obtain ⟨⟨e, he, hc⟩, -⟩ := (h.free 1024 (by decide)).mp hfree
  rw [List.mem_singleton.mp he] at hc
  exact hnot hc

end TupleOS.Memory
