import TupleOS.Base.Orbit
import TupleOS.Boot.Multiboot

/-!
# How long `pmm_init` walks (`kernel/pmm.c`)

The loops of `pmm_init`, one iteration at a time. The frame loop is bounded by
`MAX_FRAMES`. The walk adds each entry's own `size` to a 32-bit cursor, so it ends
exactly when the sizes never carry the cursor back to an entry it has already
visited (`pmmInit_finishes_iff`). When it ends, it has done what `pmmInit` says
(`initStep_refines`). The map is read as it was when `pmm_init` was called.
-/

namespace TupleOS.Boot

open TupleOS.Base TupleOS.Memory StateTransition

inductive InitPoint where
  /-- Before the memory map is looked at. -/
  | start
  /-- At the condition of the `while`. -/
  | walk (mmap : Nat)
  /-- At the condition of the `for` for the entry at `mmap`. -/
  | frames (mmap frame endFrame : Nat)

def nextEntry (m : Bytes) (mmap : Nat) : Nat := w32 (w32 (mmap + load32 m mmap) + 4)

def mmapEnd (m : Bytes) (mbi : Nat) : Nat := w32 (load32 m (mbi + 48) + load32 m (mbi + 44))

def releaseFrame (L : Layout) (p : Pmm) (frame : Nat) : Pmm :=
  let addr := w32 (frame * pageSize)
  if addr < 0x100000 ∨ addr < kernelEndPhys L then p
  else { p with bitmap := p.bitmap.clear frame, totalFrames := w32 (p.totalFrames + 1) }

/-- One iteration of `pmm_init(mbi)`; `none` when it returns. -/
def initStep (L : Layout) (m : Bytes) (mbi : Nat) : InitPoint × Pmm → Option (InitPoint × Pmm)
  | (.start, p) =>
    if load32 m (mbi + 0) &&& multibootFlagMmap = 0 then none
    else some (.walk (load32 m (mbi + 48)), p)
  | (.walk mmap, p) =>
    if mmap < mmapEnd m mbi then
      let entry := readEntry m mmap
      if entry.type = memoryAvailable then
        some (.frames mmap entry.startFrame entry.endFrame, p)
      else some (.walk (nextEntry m mmap), p)
    else none
  | (.frames mmap frame endFrame, p) =>
    if frame < endFrame ∧ frame < maxFrames then
      some (.frames mmap (frame + 1) endFrame, releaseFrame L p frame)
    else some (.walk (nextEntry m mmap), p)

section Walk

variable {L : Layout} {m : Bytes} {mbi mmap : Nat} {p : Pmm}

/-! ## One entry -/

/-- **The frame loop** comes to the next entry. -/
theorem frames_reaches (n : Nat) : ∀ (frame : Nat) (p : Pmm),
    Reaches (initStep L m mbi) (.frames mmap frame (frame + n), p)
      (.walk (nextEntry m mmap), releaseFrames L p frame n) := by
  induction n with
  | zero =>
    intro frame p
    refine .single ?_
    rw [Option.mem_def, initStep, if_neg (by omega)]
    rfl
  | succ n ih =>
    intro frame p
    by_cases hmax : maxFrames ≤ frame
    · refine .single ?_
      rw [Option.mem_def, initStep, if_neg (by omega), releaseFrames, if_pos hmax]
    · have hstep : initStep L m mbi (.frames mmap frame (frame + (n + 1)), p) =
          some (.frames mmap (frame + 1) (frame + 1 + n), releaseFrame L p frame) := by
        rw [initStep, if_pos (by omega), Nat.add_right_comm, Nat.add_assoc]
      rw [releaseFrames, if_neg hmax]
      exact .head hstep (ih (frame + 1) _)

theorem walk_reaches (h : mmap < mmapEnd m mbi) :
    Reaches (initStep L m mbi) (.walk mmap, p)
      (.walk (nextEntry m mmap), releaseEntry L p (readEntry m mmap)) := by
  by_cases hav : (readEntry m mmap).type = memoryAvailable
  · have hstep : initStep L m mbi (.walk mmap, p) =
        some (.frames mmap (readEntry m mmap).startFrame (readEntry m mmap).endFrame, p) := by
      rw [initStep, if_pos h]
      exact if_pos hav
    have hentry : releaseEntry L p (readEntry m mmap) = releaseFrames L p
        (readEntry m mmap).startFrame
          ((readEntry m mmap).endFrame - (readEntry m mmap).startFrame) := by
      unfold releaseEntry
      rw [if_pos hav]
      rfl
    rw [hentry]
    refine .head hstep ?_
    by_cases hle : (readEntry m mmap).startFrame ≤ (readEntry m mmap).endFrame
    · obtain ⟨n, hn⟩ := Nat.exists_eq_add_of_le hle
      rw [hn, Nat.add_sub_cancel_left]
      exact frames_reaches n _ p
    · refine .single ?_
      rw [Option.mem_def, initStep, if_neg (by omega), Nat.sub_eq_zero_of_le (by omega)]
      rfl
  · refine .single ?_
    unfold releaseEntry
    rw [Option.mem_def, initStep, if_pos h]
    simp only [if_neg hav]

/-! ## The whole walk -/

/-- The entries that the first `n` iterations visit. -/
def visited (m : Bytes) : Nat → Nat → List MmapEntry
  | 0, _ => []
  | n + 1, mmap => readEntry m mmap :: visited m n (nextEntry m mmap)

theorem visited_reaches (n : Nat) : ∀ (mmap : Nat) (p : Pmm),
    (∀ k < n, (nextEntry m)^[k] mmap < mmapEnd m mbi) →
    Reaches (initStep L m mbi) (.walk mmap, p)
      (.walk ((nextEntry m)^[n] mmap), (visited m n mmap).foldl (releaseEntry L) p) := by
  induction n with
  | zero => exact fun mmap p _ => .refl
  | succ n ih =>
    intro mmap p h
    refine .trans (walk_reaches (h 0 (by omega))) (ih _ _ fun k hk => ?_)
    rw [← Function.iterate_succ_apply]
    exact h (k + 1) (by omega)

theorem mmapWalk_visited (n : Nat) : ∀ mmap,
    (∀ k < n, (nextEntry m)^[k] mmap < mmapEnd m mbi) →
    ¬ (nextEntry m)^[n] mmap < mmapEnd m mbi →
    mmapWalk m (mmapEnd m mbi) n mmap = some (visited m n mmap) := by
  induction n with
  | zero =>
    intro mmap _ hend
    rw [mmapWalk]
    exact if_neg hend
  | succ n ih =>
    intro mmap h hend
    have hrest := ih (nextEntry m mmap) (fun k hk => by
      rw [← Function.iterate_succ_apply]
      exact h (k + 1) (by omega)) hend
    have hhead : mmap < mmapEnd m mbi := h 0 (by omega)
    rw [mmapWalk, if_pos hhead]
    exact congrArg (Option.map (readEntry m mmap :: ·)) hrest

/-- The entry that the machine is at, if it is at one. -/
def InitPoint.At (mmap : Nat) : InitPoint → Prop
  | .start => True
  | .walk a => a = mmap
  | .frames a _ _ => a = mmap

/-- While the cursor stays below `mmap_end`, `pmm_init` does not return. -/
theorem initStep_goes_on (hflag : load32 m (mbi + 0) &&& multibootFlagMmap ≠ 0)
    (h : ∀ k, (nextEntry m)^[k] (load32 m (mbi + 48)) < mmapEnd m mbi) :
    ¬ (eval (initStep L m mbi) (.start, p)).Dom := by
  -- the machine is always at an entry that the walk comes to
  refine not_dom_of_invariant
    (fun s => ∃ k, s.1.At ((nextEntry m)^[k] (load32 m (mbi + 48)))) ?_ ?_ ⟨0, trivial⟩
  · rintro ⟨point, q⟩ s' ⟨k, hk⟩ he
    have hnext : ∀ mmap, mmap = (nextEntry m)^[k] (load32 m (mbi + 48)) →
        nextEntry m mmap = (nextEntry m)^[k + 1] (load32 m (mbi + 48)) := fun mmap h => by
      rw [h, Function.iterate_succ_apply']
    cases point with
    | start =>
      rw [initStep, if_neg hflag] at he
      cases he
      exact ⟨0, rfl⟩
    | walk mmap =>
      have hk : mmap = _ := hk
      rw [initStep, if_pos (hk ▸ h k)] at he
      simp only at he
      split at he <;> cases he
      · exact ⟨k, hk⟩
      · exact ⟨k + 1, hnext mmap hk⟩
    | frames mmap frame endFrame =>
      rw [initStep] at he
      split at he <;> cases he
      · exact ⟨k, hk⟩
      · exact ⟨k + 1, hnext mmap hk⟩
  · rintro ⟨point, q⟩ ⟨k, hk⟩ he
    cases point with
    | start =>
      rw [initStep, if_neg hflag] at he
      cases he
    | walk mmap =>
      have hk : mmap = _ := hk
      rw [initStep, if_pos (hk ▸ h k)] at he
      simp only at he
      split at he <;> cases he
    | frames mmap frame endFrame =>
      rw [initStep] at he
      split at he <;> cases he

theorem initStep_ends (p : Pmm) (hflag : load32 m (mbi + 0) &&& multibootFlagMmap ≠ 0) {n : Nat}
    (h : ∀ k < n, (nextEntry m)^[k] (load32 m (mbi + 48)) < mmapEnd m mbi)
    (hend : ¬ (nextEntry m)^[n] (load32 m (mbi + 48)) < mmapEnd m mbi) :
    (.walk ((nextEntry m)^[n] (load32 m (mbi + 48))),
      (visited m n (load32 m (mbi + 48))).foldl (releaseEntry L) p) ∈
      eval (initStep L m mbi) (.start, p) := by
  refine mem_eval.mpr ⟨.head ?_ (visited_reaches n _ _ h), if_neg hend⟩
  rw [Option.mem_def, initStep, if_neg hflag]

/-- **What `pmm_init` leaves when it returns** is `pmmInit` on the entries of its walk. -/
theorem initStep_refines (L : Layout) (m : Bytes) (mbi : Nat) (bitmap : Bitmap)
    {s : InitPoint × Pmm} (hs : s ∈ eval (initStep L m mbi) (.start, fullPmm bitmap)) :
    ∃ fuel entries, pmmEntries m mbi fuel = some entries ∧ s.2 = pmmInit L bitmap entries := by
  by_cases hflag : load32 m (mbi + 0) &&& multibootFlagMmap = 0
  · have hstop : ((.start, fullPmm bitmap) : InitPoint × Pmm) ∈
        eval (initStep L m mbi) (.start, fullPmm bitmap) := mem_eval.mpr ⟨.refl, if_pos hflag⟩
    refine ⟨0, none, if_pos hflag, ?_⟩
    rw [Part.mem_unique hs hstop]
    rfl
  · by_cases hall : ∃ n, ¬ (nextEntry m)^[n] (load32 m (mbi + 48)) < mmapEnd m mbi
    · have hfirst : ∀ k < Nat.find hall, (nextEntry m)^[k] (load32 m (mbi + 48)) < mmapEnd m mbi :=
        fun k hk => not_not.mp (Nat.find_min hall hk)
      have hend := Nat.find_spec hall
      generalize Nat.find hall = n at hfirst hend
      refine ⟨n, some (visited m n (load32 m (mbi + 48))), ?_, ?_⟩
      · unfold pmmEntries
        rw [if_neg hflag]
        exact congrArg (Option.map some) (mmapWalk_visited n _ hfirst hend)
      · rw [Part.mem_unique hs (initStep_ends _ hflag hfirst hend)]
        rfl
    · have hgo := initStep_goes_on (L := L) (p := fullPmm bitmap) hflag
        fun k => not_not.mp fun h => hall ⟨k, h⟩
      exact absurd (Part.dom_iff_mem.mpr ⟨s, hs⟩) hgo

/-! ## When it ends -/

/-- How far the cursor moves at the `k`-th entry. -/
def stride (m : Bytes) (mmap k : Nat) : Nat := load32 m ((nextEntry m)^[k] mmap) + 4

theorem nextEntry_iterate (m : Bytes) (mmap i : Nat) (hm : mmap < 2 ^ 32) (n : Nat) :
    (nextEntry m)^[i + n] mmap =
      w32 ((nextEntry m)^[i] mmap + ∑ k ∈ Finset.Ico i (i + n), stride m mmap k) := by
  induction n with
  | zero =>
    have hlt : (nextEntry m)^[i] mmap < 2 ^ 32 := by
      cases i with
      | zero => exact hm
      | succ i => rw [Function.iterate_succ_apply']; exact w32_lt _
    rw [Nat.add_zero, Finset.Ico_self, Finset.sum_empty, Nat.add_zero, w32_of_lt hlt]
  | succ n ih =>
    rw [← Nat.add_assoc, Function.iterate_succ_apply', Finset.sum_Ico_succ_top (by omega),
      nextEntry, w32_add_w32, stride]
    generalize load32 m ((nextEntry m)^[i + n] mmap) = size
    rw [ih, Nat.add_assoc, w32_add_w32, Nat.add_assoc]

theorem nextEntry_returns (m : Bytes) {mmap i j : Nat} (hm : mmap < 2 ^ 32) (hij : i < j) :
    (nextEntry m)^[i] mmap = (nextEntry m)^[j] mmap ↔
      2 ^ 32 ∣ ∑ k ∈ Finset.Ico i j, stride m mmap k := by
  obtain ⟨n, rfl⟩ := Nat.exists_eq_add_of_le (Nat.le_of_lt hij)
  have hlt : (nextEntry m)^[i] mmap < 2 ^ 32 := by
    have h := nextEntry_iterate m mmap i hm 0
    rw [Nat.add_zero] at h
    exact h ▸ w32_lt _
  rw [nextEntry_iterate m mmap i hm n]
  unfold w32
  omega

theorem walk_ends_iff (m : Bytes) (mbi : Nat) :
    (∃ n, ¬ (nextEntry m)^[n] (load32 m (mbi + 48)) < mmapEnd m mbi) ↔
      ∀ i j, i < j → (∀ k < j, (nextEntry m)^[k] (load32 m (mbi + 48)) < mmapEnd m mbi) →
        ¬ 2 ^ 32 ∣ ∑ k ∈ Finset.Ico i j, stride m (load32 m (mbi + 48)) k := by
  have hwalk := exists_not_iterate_iff (f := nextEntry m) (x := load32 m (mbi + 48))
    (P := (· < mmapEnd m mbi)) (Set.finite_Iio _)
  refine hwalk.trans (forall_congr' fun i => forall_congr' fun j => forall_congr' fun hij =>
    imp_congr_right fun _ => ?_)
  exact not_congr (nextEntry_returns m (load32_lt m _) hij)

/-- **`pmm_init` returns** exactly when there is no map, or no stretch of entries that its
walk visits moves the cursor by a multiple of 4 GB. -/
theorem pmmInit_finishes_iff (L : Layout) (m : Bytes) (mbi : Nat) (bitmap : Bitmap) :
    (eval (initStep L m mbi) (.start, fullPmm bitmap)).Dom ↔
      (load32 m (mbi + 0) &&& multibootFlagMmap ≠ 0 →
        ∀ i j, i < j → (∀ k < j, (nextEntry m)^[k] (load32 m (mbi + 48)) < mmapEnd m mbi) →
          ¬ 2 ^ 32 ∣ ∑ k ∈ Finset.Ico i j, stride m (load32 m (mbi + 48)) k) := by
  rw [← walk_ends_iff]
  by_cases hflag : load32 m (mbi + 0) &&& multibootFlagMmap = 0
  · have hstop : ((.start, fullPmm bitmap) : InitPoint × Pmm) ∈
        eval (initStep L m mbi) (.start, fullPmm bitmap) := mem_eval.mpr ⟨.refl, if_pos hflag⟩
    exact ⟨fun _ h => absurd hflag h, fun _ => Part.dom_iff_mem.mpr ⟨_, hstop⟩⟩
  · constructor
    · intro hdom _
      by_contra hall
      exact initStep_goes_on hflag (fun k => not_not.mp fun h => hall ⟨k, h⟩) hdom
    · intro h
      have hend := h hflag
      exact Part.dom_iff_mem.mpr ⟨_, initStep_ends (fullPmm bitmap) hflag
        (fun k hk => not_not.mp (Nat.find_min hend hk)) (Nat.find_spec hend)⟩

end Walk

/-- A map of one entry, which gives its size as `-4`. -/
def stuckMap : Bytes :=
  [(mbootInfo, 0x40), (mbootInfo + 44, 24), (mbootInfo + 48, mbootMmap),
    (mbootMmap, 0xFFFFFFFC)].foldl (fun m (a, v) => store32 m a v) fun _ => 0

/-- **`pmm_init` hangs** on this map: the cursor stays. -/
theorem pmmInit_hangs :
    ¬ (eval (initStep sampleLayout stuckMap mbootInfo) (.start, fullPmm fun _ => 0)).Dom := by
  refine initStep_goes_on (by decide) fun k => ?_
  rw [Function.iterate_fixed (by decide)]
  decide

end TupleOS.Boot
