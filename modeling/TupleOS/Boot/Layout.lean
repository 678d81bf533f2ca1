import TupleOS.Boot.ProtectedMode
import Mathlib.Tactic.Ring

/-!
# Stage 2 keeps its buffers apart

The buffers of stage 2 have no bounds: the FAT, the memory map and the kernel's
file grow towards each other and towards the stacks. `Fits` says how much the
BIOS and the disk may return. A run of `stage2` is clean exactly for what fits
(`stage2_clean_iff`).
-/

namespace TupleOS.Boot

open TupleOS.Base TupleOS.Memory

/-! ## What fits -/

/-- What the buffers of stage 2 have room for. -/
structure Fits (x : BootInput) : Prop where
  entries : usableReplies x.replies ≤ 297
  fat : x.fatSize ≤ 40
  image : 16 * kernelSeg + x.file.size ≤ pmLow x.file.bytes
  segments : elfValid x.file.bytes → ∀ p ∈ phdrs x.file.bytes, p.type = 1 →
    Disjoint p.target (loadingWin x.entries x.file.size)

/-! ## Stage 2 -/

theorem entries_le {x : BootInput} (h : usableReplies x.replies ≤ 297) : x.entries ≤ 297 := by
  unfold BootInput.entries
  split
  · split <;> omega
  · exact h

theorem usable_le {x : BootInput} (h : x.entries ≤ 297) : usableReplies x.replies ≤ 297 := by
  unfold BootInput.entries at h
  split at h
  · rename_i hnone
    simp only [Bool.and_eq_true, decide_eq_true_eq] at hnone
    omega
  · exact h

theorem BootInput.paragraphs_lt (x : BootInput) :
    kernelSeg + 32 * x.spc * (x.rest.length + 1) < 0xC000 := by
  have hcount := x.clusters
  rw [List.length_cons] at hcount
  have hlimit := x.file.limit
  have hle := x.spc_le
  have hdiv : 512 * x.spc * (x.rest.length + 1) ≤ x.file.size + 512 * x.spc - 1 := by
    rw [hcount]
    exact Nat.mul_div_le _ _
  have hparas : 32 * x.spc * (x.rest.length + 1) * 16 = 512 * x.spc * (x.rest.length + 1) := by ring
  unfold kernelSeg
  omega

theorem load_clusters (x : BootInput) {fuel : Nat} (hfuel : x.rest.length + 1 ≤ fuel)
    {W T : Region → Set Nat} (h : RealMode W T 0x7BDE)
    (himage : Set.Ico (16 * kernelSeg) 0xC0000 ⊆ W .image) :
    ∃ us, loadCluster x.fat x.spc (stackTop - 2) fuel x.first kernelSeg = some us ∧
      Within W T us := by
  have hparas := x.paragraphs_lt
  refine h.loadCluster himage (by decide) (by decide) x.chain x.first x.rest kernelSeg fuel rfl ?_
    (le_refl _) ?_
  · rw [List.length_cons]
    exact hfuel
  · rw [List.length_cons]
    omega

/-- A run of stage 2 around the clusters that it loads. -/
def bootRun (x : BootInput) (us : Uses) : Uses :=
  startUp x.a20 ++ call stackTop (fun sp => (detectMemory x.replies x.e801 sp).1) ++
    (x.findKernel ++ loaded x.file.size us ++ printString stackTop) ++
    pmEntry x.file.bytes x.entries

theorem stage2_run (x : BootInput) {fuel : Nat} (hfuel : x.rest.length + 1 ≤ fuel) :
    ∃ us, stage2 x fuel = some (bootRun x us) ∧ (∀ r, r ≠ .stack → Stays r us) ∧
      ∀ {W T}, RealMode W T 0x7BDE → Set.Ico (16 * kernelSeg) 0xC0000 ⊆ W .image →
        Within W T us := by
  obtain ⟨us, hus, -⟩ := load_clusters x hfuel (territory_mode 0x7BDE ∅ ∅ Set.univ ∅ ∅ ∅ ∅ ∅)
    (Set.subset_univ _)
  refine ⟨us, ?_, fun r hr => stays_loadCluster hr hus, fun h himage => ?_⟩
  · unfold stage2 fat16LoadFile bootRun
    rw [hus, count_eq]
    rfl
  · obtain ⟨vs, hvs, hw⟩ := load_clusters x hfuel h himage
    rw [hus] at hvs
    exact Option.some.inj hvs ▸ hw

theorem bootRun_clean {x : BootInput} {us : Uses} (hus : ∀ r, r ≠ .stack → Stays r us) :
    Clean (fun _ => ∅) (bootRun x us) ↔
      ((Clean (fun _ => ∅) (startUp x.a20) ∧
        Clean (layout ∅ ∅ ∅) (call stackTop fun sp => (detectMemory x.replies x.e801 sp).1)) ∧
        Clean (layout (mapWin x.entries) ∅ ∅)
          (x.findKernel ++ loaded x.file.size us ++ printString stackTop)) ∧
      Clean (layout (mapWin x.entries) ∅ (imageWin x.file.size))
        (pmEntry x.file.bytes x.entries) := by
  have hdetect : after (fun _ => ∅) (startUp x.a20 ++
      call stackTop (fun sp => (detectMemory x.replies x.e801 sp).1)) =
      layout (mapWin x.entries) ∅ ∅ := by
    rw [after_append, after_startUp, after_detect]
    exact congrArg (fun n => layout (mapWin n) ∅ ∅) (count_eq x)
  have hload : after (fun _ => ∅) (startUp x.a20 ++
      call stackTop (fun sp => (detectMemory x.replies x.e801 sp).1) ++
      (x.findKernel ++ loaded x.file.size us ++ printString stackTop)) =
      layout (mapWin x.entries) ∅ (imageWin x.file.size) := by
    rw [after_append, hdetect, after_load x (mapWin x.entries) hus]
  unfold bootRun
  rw [clean_append, clean_append, clean_append, hload, hdetect, after_startUp]

theorem fits_of_bootRun {x : BootInput} {us : Uses} (hus : ∀ r, r ≠ .stack → Stays r us)
    (h : Clean (fun _ => ∅) (bootRun x us)) : Fits x := by
  obtain ⟨⟨-, hreal⟩, hpm⟩ := (bootRun_clean hus).mp h
  obtain ⟨hn, hfat⟩ := room_of_clean (clean_append.mp (clean_append.mp hreal).1).1
  obtain ⟨himage, hsegs⟩ := (pmEntry_clean_iff hn).mp hpm
  exact ⟨usable_le hn, hfat, himage, hsegs⟩

/-- **Stage 2 reaches its end, and is clean exactly when everything fits.** -/
theorem stage2_clean_iff (x : BootInput) (fuel : Nat) (hfuel : x.rest.length + 1 ≤ fuel) :
    ∃ us, stage2 x fuel = some us ∧ (Clean (fun _ => ∅) us ↔ Fits x) := by
  obtain ⟨us, hrun, hstays, hwithin⟩ := stage2_run x hfuel
  refine ⟨_, hrun, fits_of_bootRun hstays, ?_⟩
  rintro ⟨hn, hfat, himage, hsegs⟩
  exact (bootRun_clean hstays).mpr ⟨⟨⟨clean_startUp x.a20, clean_detect hn x.e801⟩,
    clean_load (mapWin_subset (entries_le hn)) hfat hwithin⟩,
    (pmEntry_clean_iff (entries_le hn)).mpr ⟨himage, hsegs⟩⟩

/-! ## Two disks -/

/-- An executable with one segment, loaded at 1 MB. -/
def sampleElf : Bytes :=
  [(0, 0x464C457F), (4, 0x0101), (16, 0x00030002), (28, 52), (40, 0x00200000), (44, 1), (52, 1),
    (64, 0x100000), (68, 0x1000), (72, 0x2000)].foldl (fun m (a, v) => store32 m a v) fun _ => 0

/-- A file of `n` clusters of 64 KB, from cluster 2 on, on a disk with `fatSize`
sectors per FAT. -/
def sampleBoot (fatSize size : Nat) (hpos : 1 ≤ fatSize) (hle : fatSize ≤ 256)
    (hsize : 84 ≤ size) (hlimit : size ≤ 589824) (rest : List Nat)
    (hchain : Follows (fun c => if c ≤ rest.length + 1 then c + 1 else 0xFFFF) (2 :: rest))
    (hcount : (2 :: rest).length = (size + 512 * 128 - 1) / (512 * 128)) : BootInput where
  a20 := ⟨false, true, true⟩
  replies := [⟨false, true, 24, false, 0x9fc00⟩, ⟨false, true, 24, true, 0x100000⟩]
  e801 := false
  spc := 128
  spc_pos := by decide
  spc_le := by decide
  fatSize := fatSize
  fatSize_pos := hpos
  fatSize_le := hle
  fat c := if c ≤ rest.length + 1 then c + 1 else 0xFFFF
  scanned := 1
  scanned_pos := by decide
  file := {
    bytes := sampleElf
    size := size
    limit := hlimit
    table := fun _ i hi => by
      have hnum : elfPhnum sampleElf = 1 := by decide
      have hoff : elfPhoff sampleElf = 52 := by decide
      rw [hnum] at hi
      obtain rfl : i = 0 := by omega
      rw [hoff]
      omega }
  first := 2
  rest := rest
  chain := hchain
  clusters := hcount

def smallBoot : BootInput :=
  sampleBoot 32 65536 (by decide) (by decide) (by decide) (by decide) []
    (.last (by decide)) (by decide)

/-- The disk of `smallBoot` with a larger FAT. -/
def tallBoot : BootInput :=
  sampleBoot 64 65536 (by decide) (by decide) (by decide) (by decide) []
    (.last (by decide)) (by decide)

/-- A kernel as large as the build allows. -/
def bigBoot : BootInput :=
  sampleBoot 32 589824 (by decide) (by decide) (by decide) (by decide) [3, 4, 5, 6, 7, 8, 9, 10]
    (.next (by decide) (.next (by decide) (.next (by decide) (.next (by decide) (.next (by decide)
      (.next (by decide) (.next (by decide) (.next (by decide) (.last (by decide))))))))))
    (by decide)

theorem smallBoot_fits : Fits smallBoot where
  entries := by decide
  fat := by decide
  image := by decide
  segments := fun _ p hp _ => by
    have hsegment : phdrs sampleElf = [⟨1, 0x100000, 0x1000, 0x2000⟩] := by decide
    have hp' : p ∈ phdrs sampleElf := hp
    rw [hsegment, List.mem_singleton] at hp'
    subst hp'
    refine Set.disjoint_left.mpr ?_
    rintro a ⟨k, hk, rfl⟩
    have hk' : k < 0x2000 := hk
    show w32 (0x100000 + k) ∉ _
    rw [w32_of_lt (by omega)]
    rintro (((h | h) | h) | h)
    · exact absurd h.2 (by omega)
    · exact absurd h.2 (by show ¬ _ < 0x6004 + 24 * 2; omega)
    · exact absurd h.2 (by show ¬ _ < 16 * 0x1000 + 65536; omega)
    · exact absurd h.2 (by show ¬ _ < 0x90000; omega)

theorem stage2_clean_iff_small :
    ∃ us, stage2 smallBoot 1 = some us ∧ (Clean (fun _ => ∅) us ↔ Fits smallBoot) ∧
      Fits smallBoot := by
  obtain ⟨us, hrun, hiff⟩ := stage2_clean_iff smallBoot 1 (by decide)
  exact ⟨us, hrun, hiff, smallBoot_fits⟩

/-- A FAT of 64 sectors is read over the memory map, and a kernel of 576 KB lies
under the protected-mode stack. -/
theorem stage2_clobbers :
    (∃ us, stage2 tallBoot 1 = some us ∧ ¬ Clean (fun _ => ∅) us) ∧
      ∃ us, stage2 bigBoot 9 = some us ∧ ¬ Clean (fun _ => ∅) us := by
  constructor
  · obtain ⟨us, hrun, hstays, -⟩ := stage2_run tallBoot (le_refl 1)
    exact ⟨_, hrun, fun h => absurd (fits_of_bootRun hstays h).fat (by decide)⟩
  · obtain ⟨us, hrun, hstays, -⟩ := stage2_run bigBoot (le_refl 9)
    exact ⟨_, hrun, fun h => absurd (fits_of_bootRun hstays h).image (by decide)⟩

end TupleOS.Boot
