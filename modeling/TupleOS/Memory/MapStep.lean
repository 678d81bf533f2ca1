import TupleOS.Memory.FlatMap
import TupleOS.Memory.FrameScan

/-!
# One page at a time

What the allocator hands out call after call (`frameAfter`), and what mapping,
zeroing and unmapping one page do on a machine whose tables are frames of their
own, all reached at their `PHYS_TO_VIRT` addresses (`Tabled`). Unlike `MachInv`
this says nothing of where the tables lie, so it also holds once a table has been
made above 4 MB.
-/

namespace TupleOS.Memory

open TupleOS.Base

/-! ## The allocator, call after call -/

/-- The scan stays in `frame_bitmap`, and frame `0` is in use. -/
structure Pmm.Sound (p : Pmm) : Prop where
  total : p.totalFrames ≤ 32784
  zero : ¬ p.Free 0

section Allocs

variable {p p' : Pmm} {f g k n : Nat}

theorem Pmm.Sound.cases (h : p.Sound) : pmmAllocFrame p = (0, p) ∨
    ∃ f p', pmmAllocFrame p = (f * pageSize, p') ∧ TookFrame p p' f ∧ f ≠ 0 := by
  have htot := h.total
  rcases pmmAllocFrame_cases p with ⟨h0, -⟩ | ⟨f, hf, hfree, hlt, hlow⟩
  · exact .inl h0
  · refine .inr ⟨f, ⟨p.bitmap.set f, p.totalFrames, w32 (p.usedFrames + 1)⟩, ?_,
      ⟨hfree, by omega, hlt, rfl, rfl, hlow⟩, fun h0 => h.zero (h0 ▸ hfree)⟩
    rw [hf, w32_of_lt (by unfold pageSize; omega)]

theorem TookFrame.sound (t : TookFrame p p' f) (h : p.Sound) : p'.Sound :=
  ⟨by rw [t.total]; exact h.total, fun hz => h.zero ((free_set t.bitmap).mp hz).2⟩

theorem allocs_sound (h : p.Sound) (n : Nat) : (allocs p n).Sound := by
  induction n with
  | zero => exact h
  | succ n ih =>
    unfold allocs
    rcases ih.cases with he | ⟨f, p', he, t, -⟩
    · rw [he]; exact ih
    · rw [he]; exact t.sound ih

theorem frameAfter_cases (h : p.Sound) (n : Nat) :
    (frameAfter p n = 0 ∧ allocs p (n + 1) = allocs p n) ∨
    (frameAfter p n ≠ 0 ∧ frameAfter p n = frameOf (frameAfter p n) * pageSize ∧
      TookFrame (allocs p n) (allocs p (n + 1)) (frameOf (frameAfter p n))) := by
  have hsucc : allocs p (n + 1) = (pmmAllocFrame (allocs p n)).2 := rfl
  rw [hsucc]
  unfold frameAfter
  rcases (allocs_sound h n).cases with he | ⟨f, p', he, t, hf⟩
  · rw [he]
    exact .inl ⟨rfl, rfl⟩
  · have hframe : frameOf (f * pageSize) = f := by unfold frameOf pageSize; omega
    rw [he, hframe]
    refine .inr ⟨?_, rfl, t⟩
    unfold pageSize
    omega

theorem frameAfter_zero (h : p.Sound) (h0 : frameAfter p n = 0) {m : Nat} (hm : n ≤ m) :
    frameAfter p m = 0 := by
  induction m, hm using Nat.le_induction with
  | base => exact h0
  | succ m _ ih =>
    rcases frameAfter_cases h m with ⟨-, he⟩ | ⟨hne, -⟩
    · rw [frameAfter, he]; exact ih
    · exact absurd ih hne

theorem frameAfter_ne_zero (h : p.Sound) (hn : frameAfter p n ≠ 0) (hk : k ≤ n) :
    frameAfter p k ≠ 0 := fun h0 => hn (frameAfter_zero h h0 hk)

/-- **What is free after `n` calls**: what was, but for the frames they took. -/
theorem allocs_free (h : p.Sound) (g n : Nat) : (allocs p n).Free g ↔
    p.Free g ∧ ∀ k < n, frameAfter p k ≠ 0 → g ≠ frameOf (frameAfter p k) := by
  induction n with
  | zero => exact ⟨fun hg => ⟨hg, nofun⟩, fun hg => hg.1⟩
  | succ n ih =>
    rcases frameAfter_cases h n with ⟨h0, he⟩ | ⟨hne, -, t⟩
    · rw [he, ih]
      refine and_congr_right fun _ => ⟨fun hk k hlt hk0 => ?_, fun hk k hlt => hk k (by omega)⟩
      exact hk k (Nat.lt_of_le_of_ne (Nat.le_of_lt_succ hlt) fun heq => hk0 (heq ▸ h0)) hk0
    · rw [free_set t.bitmap, ih]
      refine ⟨fun ⟨hgn, hg, hk⟩ => ⟨hg, fun k hlt hk0 => ?_⟩, fun ⟨hg, hk⟩ =>
        ⟨hk n (Nat.lt_succ_self n) hne, hg, fun k hlt => hk k (Nat.lt_succ_of_lt hlt)⟩⟩
      rcases Nat.lt_succ_iff_lt_or_eq.mp hlt with hlt | rfl
      · exact hk k hlt hk0
      · exact hgn

theorem frameAfter_free (h : p.Sound) (hn : frameAfter p n ≠ 0) (hk : k ≤ n) :
    (allocs p k).Free (frameOf (frameAfter p n)) ∧ frameOf (frameAfter p n) < 32784 ∧
      frameOf (frameAfter p n) ≠ 0 := by
  rcases frameAfter_cases h n with ⟨h0, -⟩ | ⟨-, -, t⟩
  · exact absurd h0 hn
  · have hfree := (allocs_free h _ n).mp t.free
    exact ⟨(allocs_free h _ k).mpr ⟨hfree.1, fun j hj => hfree.2 j (by omega)⟩, t.lt,
      fun h0 => h.zero (h0 ▸ hfree.1)⟩

theorem frameAfter_ne (h : p.Sound) (hn : frameAfter p n ≠ 0) (hk : k < n) :
    frameOf (frameAfter p n) ≠ frameOf (frameAfter p k) := by
  have hfree := (allocs_free h _ _).mp (frameAfter_free h hn (Nat.le_refl n)).1
  exact hfree.2 k hk (frameAfter_ne_zero h hn (Nat.le_of_lt hk))

end Allocs

/-! ## Tables in their places -/

/-- The page at which `PHYS_TO_VIRT` has frame `f`. -/
def windowPage (f : Nat) : Nat := physToVirt (f * pageSize) / pageSize

/-- `page_directory` is active, its tables are frames of their own, in use, and
all are reached. -/
structure Tabled (L : Layout) (M : Machine) : Prop where
  tree : TreeOk L M.phys
  active : frameOf M.cr3 = pdFrame L
  reach : ∀ f, TableFrame L M.phys f → M.Reaches f
  fresh : ∀ f < 32784, M.pmm.Free f → ¬ TableFrame L M.phys f
  sound : M.pmm.Sound

/-- No table is reached through page `v`. -/
def OffTables (L : Layout) (m : Phys) (v : Nat) : Prop := ∀ f, TableFrame L m f → windowPage f ≠ v

section Tabled

variable {L : Layout} {M : Machine} {va pa flags f : Nat}

theorem windowPage_lt (f : Nat) : windowPage f < 2 ^ 20 := va_page_lt (physToVirt_page f).1

theorem reaches_iff (hc : frameOf M.cr3 = pdFrame L) :
    M.Reaches f ↔ kmap L M.phys (windowPage f) = some f := by
  unfold Machine.Reaches Machine.frameAt kmap windowPage
  rw [hc]

theorem Machine.Reaches.of_walk {M' : Machine} (h : M.Reaches f) (hc : frameOf M.cr3 = pdFrame L)
    (hcr3 : M'.cr3 = M.cr3)
    (hw : walk M'.phys (pdFrame L) (windowPage f) = walk M.phys (pdFrame L) (windowPage f)) :
    M'.Reaches f := by
  rw [reaches_iff (by rw [hcr3]; exact hc)]
  rw [reaches_iff hc] at h
  unfold kmap at h ⊢
  rw [hw]
  exact h

theorem Tabled.withPmm (h : Tabled L M) {p : Pmm} (hp : p.Sound)
    (hfree : ∀ f < 32784, p.Free f → ¬ TableFrame L M.phys f) : Tabled L (M.withPmm p) :=
  ⟨h.tree, h.active, h.reach, hfree, hp⟩

theorem Tabled.directory (h : Tabled L M) : M.Reaches (pdFrame L) := h.reach _ (.inl rfl)

theorem Tabled.table {v : Nat} (h : Tabled L M) (hv : v < 2 ^ 20)
    (hp : isPresent (pdeAt L M.phys v) = true) : M.Reaches (frameOf (pdeAt L M.phys v)) :=
  h.reach _ (.inr ⟨_, page_slot hv, hp, rfl⟩)

theorem Tabled.load_pd (h : Tabled L M) {s : Nat} (hs : s < 1024) :
    machMem.load M (L.pageDirectory + 4 * s) = some (M.phys (pdFrame L) s) := by
  have := pdFrame_lt L
  rw [← physMem_load_pd M hs, pageDirectory_eq]
  exact h.directory.load (by omega) hs

theorem TreeOk.of_dir {m m' : Phys} (h : TreeOk L m) (hdir : m' (pdFrame L) = m (pdFrame L)) :
    TreeOk L m' := by
  refine ⟨⟨?_, ?_⟩, ?_⟩
  · rw [hdir]; exact h.tree.off
  · rw [hdir]; exact h.tree.inj
  · rw [hdir]; exact h.low

theorem Tabled.frame (h : Tabled L M) {m : Phys}
    (hag : ∀ g, TableFrame L M.phys g → m g = M.phys g) :
    Tabled L (M.withPhys m) ∧ ∀ g, TableFrame L m g ↔ TableFrame L M.phys g := by
  have hdir : m (pdFrame L) = M.phys (pdFrame L) := hag _ (.inl rfl)
  have htab : ∀ g, TableFrame L m g ↔ TableFrame L M.phys g := fun g => by
    unfold TableFrame
    rw [hdir]
  have hwalk : ∀ u < 2 ^ 20, walk m (pdFrame L) u = walk M.phys (pdFrame L) u := fun u hu =>
    walk_frame hag hu
  refine ⟨⟨h.tree.of_dir hdir, h.active, fun f hf => ?_, fun f hlt hf ht => ?_, h.sound⟩, htab⟩
  · exact (h.reach f ((htab f).mp hf)).of_walk h.active rfl (hwalk _ (windowPage_lt f))
  · exact h.fresh f hlt hf ((htab f).mp ht)

/-! ## Mapping -/

/-- What mapping page `v` did, under a table that was there or a new one. -/
structure Entered (L : Layout) (M M' : Machine) (v pte : Nat) : Prop where
  tabled : Tabled L M'
  cr3 : M'.cr3 = M.cr3
  pmm : M'.pmm = if isPresent (pdeAt L M.phys v) then M.pmm else (pmmAllocFrame M.pmm).2
  here : ∃ pde, walk M'.phys (pdFrame L) v = some (pde, pte)
  others : ∀ u < 2 ^ 20, u ≠ v → walk M'.phys (pdFrame L) u = walk M.phys (pdFrame L) u
  slots : ∀ s, s ≠ v / 1024 ∨ isPresent (M.phys (pdFrame L) s) = true →
    M'.phys (pdFrame L) s = M.phys (pdFrame L) s
  tables : ∀ g, TableFrame L M'.phys g → TableFrame L M.phys g ∨
    (isPresent (pdeAt L M.phys v) = false ∧ g = frameOf (pmmAllocFrame M.pmm).1)
  keeps : ∀ g, ¬ TableFrame L M.phys g → ¬ M.pmm.Free g → M'.phys g = M.phys g

/-- There is a frame for a new table over page `v`, and it is reached. -/
def CanMakeTable (M : Machine) (v : Nat) : Prop :=
  (pmmAllocFrame M.pmm).1 ≠ 0 ∧ M.Reaches (frameOf (pmmAllocFrame M.pmm).1) ∧
    windowPage (frameOf (pmmAllocFrame M.pmm).1) ≠ v

theorem Tabled.fresh_table (h : Tabled L M) (h0 : (pmmAllocFrame M.pmm).1 ≠ 0) :
    M.pmm.Free (frameOf (pmmAllocFrame M.pmm).1) ∧
      ¬ TableFrame L M.phys (frameOf (pmmAllocFrame M.pmm).1) := by
  obtain ⟨hfree, hlt, -⟩ := frameAfter_free h.sound (n := 0) h0 (Nat.le_refl 0)
  exact ⟨hfree, h.fresh _ hlt hfree⟩

theorem Tabled.reach_of_others {M' : Machine} {v : Nat} (h : Tabled L M) (hcr3 : M'.cr3 = M.cr3)
    (hothers : ∀ u < 2 ^ 20, u ≠ v → walk M'.phys (pdFrame L) u = walk M.phys (pdFrame L) u)
    (hf : M.Reaches f) (hv : windowPage f ≠ v) : M'.Reaches f :=
  hf.of_walk h.active hcr3 (hothers _ (windowPage_lt f) hv)

theorem Tabled.mapPage_words {M' : Machine} (h : Tabled L M) (hva : va < 2 ^ 32)
    (hnew : isPresent (pdeAt L M.phys (va / pageSize)) = false → (pmmAllocFrame M.pmm).1 ≠ 0)
    (he : pagingMapPage physMem L M va pa flags = some M') :
    M'.cr3 = M.cr3 ∧
    M'.pmm = (if isPresent (pdeAt L M.phys (va / pageSize)) then M.pmm
      else (pmmAllocFrame M.pmm).2) ∧
    (∀ s, s ≠ va / pageSize / 1024 ∨ isPresent (M.phys (pdFrame L) s) = true →
      M'.phys (pdFrame L) s = M.phys (pdFrame L) s) ∧
    ∀ g, ¬ TableFrame L M.phys g → ¬ M.pmm.Free g → M'.phys g = M.phys g := by
  have hs := page_slot (va_page_lt hva)
  rcases mapPage_phys h.tree pa flags hva with ⟨hp, he'⟩ | ⟨hp, h0, -⟩ | ⟨hp, h0, he'⟩
  · obtain rfl := Option.some.inj (he.symm.trans he')
    refine ⟨rfl, by rw [if_pos hp]; rfl, fun s _ => ?_, fun g hg _ => ?_⟩
    · exact congrFun (h.tree.tree.store_dir hs hp) s
    · exact Phys.store_frame fun heq => hg (.inr ⟨_, hs, hp, heq.symm⟩)
  · exact absurd h0 (hnew hp)
  · obtain rfl := Option.some.inj (he.symm.trans he')
    obtain ⟨hfree, hnt⟩ := h.fresh_table h0
    refine ⟨rfl, by rw [if_neg (by rw [hp]; exact Bool.false_ne_true)]; rfl, fun s hs' => ?_,
      fun g hg hused => ?_⟩
    · have hne : s ≠ va / pageSize / 1024 := by
        rcases hs' with hs' | hs'
        · exact hs'
        · rintro rfl
          exact Bool.false_ne_true (hp.symm.trans hs')
      refine (congrFun (Phys.store_frame fun heq => hnt (.inl heq.symm)) s).trans ?_
      exact enterTable_pd (fun heq => hnt (.inl heq)) hne
    · have hgt : g ≠ frameOf (pmmAllocFrame M.pmm).1 := fun heq => hused (heq ▸ hfree)
      exact (Phys.store_frame hgt).trans (enterTable_frame (fun heq => hg (.inl heq)) hgt)

/-- **`paging_map_page`** off the pages of the tables. -/
theorem Tabled.mapPage (h : Tabled L M) (flags : Nat) (hva : va < 2 ^ 32) (hpa : pa < 2 ^ 32)
    (hoff : OffTables L M.phys (va / pageSize))
    (hnew : isPresent (pdeAt L M.phys (va / pageSize)) = false →
      CanMakeTable M (va / pageSize)) :
    ∃ M', pagingMapPage machMem L M va pa flags = some M' ∧
      Entered L M M' (va / pageSize) (pteFor pa flags) := by
  have hv := va_page_lt hva
  have hok : (PageOp.map va pa flags).Ok L M :=
    ⟨hva, hpa, fun _ h0 => (h.fresh_table h0).2⟩
  have hr : (PageOp.map va pa flags).Reached L M :=
    ⟨h.active, h.directory, h.table hv, fun hp _ => (hnew hp).2.1⟩
  have heff : (PageOp.map va pa flags).Effective L M := by
    by_cases hp : isPresent (pdeAt L M.phys (va / pageSize)) = true
    · exact .inl hp
    · exact .inr (hnew (Bool.eq_false_iff.mpr hp)).1
  obtain ⟨M', he, hmaps⟩ := mapPage_effect h.tree hok heff
  obtain ⟨hcr3, hpmm, hslots, hkeeps⟩ := h.mapPage_words hva (fun hp => (hnew hp).1) he
  -- a table of the new tree is one of the old tree, or the new one
  have htables : ∀ g, TableFrame L M'.phys g → TableFrame L M.phys g ∨
      (isPresent (pdeAt L M.phys (va / pageSize)) = false ∧
        g = frameOf (pmmAllocFrame M.pmm).1) := by
    rintro g (rfl | ⟨s, hs, hp, rfl⟩)
    · exact .inl (.inl rfl)
    · rcases hmaps.slots s with hslot | hslot
      · rw [hslot] at hp ⊢
        exact .inl (.inr ⟨s, hs, hp, rfl⟩)
      · rw [hslot]
        by_cases hpv : isPresent (pdeAt L M.phys (va / pageSize)) = true
        · rw [if_pos hpv]
          exact .inl (.inr ⟨_, page_slot hv, hpv, rfl⟩)
        · rw [if_neg hpv]
          refine .inr ⟨Bool.eq_false_iff.mpr hpv, ?_⟩
          have hframe := (pdeFor_spec (frameOf (pmmAllocFrame M.pmm).1) flags).1
          rwa [← (pmmAllocFrame_frame M.pmm).1] at hframe
  have htabled : Tabled L M' := by
    refine ⟨hmaps.tree, by rw [hcr3]; exact h.active, fun f hf => ?_, fun f hlt hf ht => ?_, ?_⟩
    · rcases htables f hf with hf | ⟨hp, rfl⟩
      · exact h.reach_of_others hcr3 hmaps.others (h.reach f hf) (hoff f hf)
      · exact h.reach_of_others hcr3 hmaps.others (hnew hp).2.1 (hnew hp).2.2
    · rw [hpmm] at hf
      rcases htables f ht with ht | ⟨hp, rfl⟩
      · refine h.fresh f hlt ?_ ht
        split at hf
        · exact hf
        · exact ((allocs_free h.sound f 1).mp hf).1
      · rw [if_neg (by rw [hp]; exact Bool.false_ne_true)] at hf
        exact ((allocs_free h.sound _ 1).mp hf).2 0 Nat.one_pos (hnew hp).1 rfl
    · rw [hpmm]
      split
      · exact h.sound
      · exact allocs_sound h.sound 1
  exact ⟨M', (PageOp.run_reached h.tree hok hr).trans he, htabled, hcr3, hpmm, ⟨_, hmaps.here⟩,
    hmaps.others, hslots, htables, hkeeps⟩

theorem Tabled.mapPage_noTable (h : Tabled L M) (pa flags : Nat) (hva : va < 2 ^ 32)
    (hp : isPresent (pdeAt L M.phys (va / pageSize)) = false) (h0 : (pmmAllocFrame M.pmm).1 = 0) :
    pagingMapPage machMem L M va pa flags = some M := by
  have hload : machMem.load M (L.pageDirectory + 4 * (va / 2 ^ 22)) =
      some (pdeAt L M.phys (va / pageSize)) := by
    rw [va_slot]; exact h.load_pd (page_slot (va_page_lt hva))
  refine pagingMapPage_noTable hload hp ?_
  rw [newPageTable_eq, if_pos (show (machMem.pmmAllocFrame M).1 = 0 from h0)]
  rcases h.sound.cases with he | ⟨f, p', he, -, hf⟩
  · show some (false, M.withPmm (pmmAllocFrame M.pmm).2) = _
    rw [he]
    rfl
  · rw [he] at h0
    unfold pageSize at h0
    simp only at h0
    omega

theorem Tabled.mapPage_fault (h : Tabled L M) (pa flags : Nat) (hva : va < 2 ^ 32)
    (hp : isPresent (pdeAt L M.phys (va / pageSize)) = false) (h0 : (pmmAllocFrame M.pmm).1 ≠ 0)
    (hw : walk M.phys (pdFrame L) (windowPage (frameOf (pmmAllocFrame M.pmm).1)) = none) :
    pagingMapPage machMem L M va pa flags = none := by
  have hload := h.load_pd (page_slot (va_page_lt hva))
  unfold windowPage at hw
  rw [← (pmmAllocFrame_frame M.pmm).1, ← h.active] at hw
  have halloc : machMem.pmmAllocFrame M =
    ((pmmAllocFrame M.pmm).1, M.withPmm (pmmAllocFrame M.pmm).2) := rfl
  have hfill : fillWords machMem (M.withPmm (pmmAllocFrame M.pmm).2)
      (physToVirt (pmmAllocFrame M.pmm).1) 0 (1023 + 1) = none :=
    fillWords_fault (m := M.withPmm (pmmAllocFrame M.pmm).2) hw 0 1023
  have hnew : newPageTable machMem L M (va / pageSize / 1024) flags = none := by
    rw [newPageTable_eq, halloc, if_neg h0, show pageEntries = 1023 + 1 from rfl, hfill]
    rfl
  unfold pdeAt at hp
  unfold pagingMapPage
  simp only [va_slot, hload, Option.bind_eq_bind, Option.bind_some, hp, Bool.false_eq_true,
    ↓reduceIte, hnew, Option.bind_none]

/-! ## Zeroing -/

/-- **Zeroing** a page of a frame that is no table. -/
theorem Tabled.zeroPage {e e' : Nat} (h : Tabled L M) (hal : va % pageSize = 0) (hva : va < 2 ^ 32)
    (hw : walk M.phys (pdFrame L) (va / pageSize) = some (e, e'))
    (hnt : ¬ TableFrame L M.phys (frameOf e')) :
    fillWords machMem M va 0 pageEntries =
      some (M.withPhys (M.phys.fill (frameOf e') 0 pageEntries)) := by
  obtain ⟨hpde, hp, -, -⟩ := walk_some.mp hw
  refine fillWords_mapped hal (by rw [h.active]; exact hw) ?_ ?_ 0 pageEntries (Nat.le_refl _)
  · rw [h.active]
    exact fun heq => hnt (.inl heq)
  · exact fun heq => hnt (.inr ⟨_, page_slot (va_page_lt hva), by rw [hpde]; exact hp,
      by rw [hpde]; exact heq.symm⟩)

/-- What mapping page `v` and zeroing it did. -/
structure PageAdded (L : Layout) (M M' : Machine) (v pte : Nat) : Prop where
  tabled : Tabled L M'
  cr3 : M'.cr3 = M.cr3
  pmm : M'.pmm = if isPresent (pdeAt L M.phys v) then M.pmm else (pmmAllocFrame M.pmm).2
  here : ∃ pde, walk M'.phys (pdFrame L) v = some (pde, pte)
  others : ∀ u < 2 ^ 20, u ≠ v → walk M'.phys (pdFrame L) u = walk M.phys (pdFrame L) u
  slots : ∀ s, s ≠ v / 1024 ∨ isPresent (M.phys (pdFrame L) s) = true →
    M'.phys (pdFrame L) s = M.phys (pdFrame L) s
  tables : ∀ g, TableFrame L M'.phys g → TableFrame L M.phys g ∨
    (isPresent (pdeAt L M.phys v) = false ∧ g = frameOf (pmmAllocFrame M.pmm).1)
  zero : ∀ w < pageEntries, M'.phys (frameOf pte) w = 0
  keeps : ∀ g ≠ frameOf pte, ¬ TableFrame L M.phys g → ¬ M.pmm.Free g → M'.phys g = M.phys g

/-- **One page of the mapping loop**, once its frame is taken. -/
theorem Tabled.addPage (h : Tabled L M) (flags : Nat) (hva : va < 2 ^ 32) (hal : va % pageSize = 0)
    (hpa : pa < 2 ^ 32) (hnt : ¬ TableFrame L M.phys (frameOf pa))
    (hused : ¬ M.pmm.Free (frameOf pa))
    (hoff : OffTables L M.phys (va / pageSize))
    (hnew : isPresent (pdeAt L M.phys (va / pageSize)) = false → CanMakeTable M (va / pageSize)) :
    ∃ M₁ M₂, pagingMapPage machMem L M va pa flags = some M₁ ∧
      fillWords machMem M₁ va 0 pageEntries = some M₂ ∧
      PageAdded L M M₂ (va / pageSize) (pteFor pa flags) := by
  obtain ⟨M₁, he, e⟩ := h.mapPage flags hva hpa hoff hnew
  obtain ⟨pde, hw⟩ := e.here
  have hframe := (pteFor_spec pa flags).1
  have hnt₁ : ¬ TableFrame L M₁.phys (frameOf (pteFor pa flags)) := by
    rw [hframe]
    intro ht
    rcases e.tables _ ht with ht | ⟨hp, heq⟩
    · exact hnt ht
    · exact hused (heq ▸ (h.fresh_table (hnew hp).1).1)
  -- the page's own frame is no table, so zeroing it leaves every walk
  have hag : ∀ g, TableFrame L M₁.phys g →
      M₁.phys.fill (frameOf (pteFor pa flags)) 0 pageEntries g = M₁.phys g := fun g hg =>
    Phys.fill_frame fun heq => hnt₁ (heq ▸ hg)
  obtain ⟨htabled, htab⟩ := e.tabled.frame hag
  refine ⟨M₁, _, he, e.tabled.zeroPage hal hva hw hnt₁, htabled, e.cr3, e.pmm, ⟨pde, ?_⟩,
    fun u hu huv => ?_, fun s hs => ?_, fun g hg => e.tables g ((htab g).mp hg),
    fun w hw => Phys.fill_in hw, fun g hg hgt hgf => ?_⟩
  · exact (walk_frame hag (va_page_lt hva)).trans hw
  · exact (walk_frame hag hu).trans (e.others u hu huv)
  · exact (congrFun (hag _ (.inl rfl)) s).trans (e.slots s hs)
  · exact (Phys.fill_frame hg).trans (e.keeps g hgt hgf)

/-! ## Unmapping -/

structure Removed (L : Layout) (M M' : Machine) (v : Nat) : Prop where
  tabled : Tabled L M'
  cr3 : M'.cr3 = M.cr3
  pmm : M'.pmm = M.pmm
  dir : M'.phys (pdFrame L) = M.phys (pdFrame L)
  here : walk M'.phys (pdFrame L) v = none
  others : ∀ u < 2 ^ 20, u ≠ v → walk M'.phys (pdFrame L) u = walk M.phys (pdFrame L) u
  keeps : ∀ g, ¬ TableFrame L M.phys g → M'.phys g = M.phys g

theorem TableFrame.of_dir {m m' : Phys} (hdir : m' (pdFrame L) = m (pdFrame L)) :
    TableFrame L m' f ↔ TableFrame L m f := by
  unfold TableFrame
  rw [hdir]

/-- **`paging_unmap_page`** off the pages of the tables. -/
theorem Tabled.unmapPage (h : Tabled L M) (hva : va < 2 ^ 32)
    (hoff : OffTables L M.phys (va / pageSize)) :
    ∃ M', pagingUnmapPage machMem L M va = some M' ∧ Removed L M M' (va / pageSize) := by
  have hv := va_page_lt hva
  have hs := page_slot hv
  obtain ⟨M', he, htree, hdir, here, others⟩ := unmapPage_effect h.tree hva
  -- one word of the table of the page, if there is one
  have hwords : pagingUnmapPage machMem L M va = pagingUnmapPage physMem L M va ∧
      M'.cr3 = M.cr3 ∧ M'.pmm = M.pmm ∧ ∀ g, ¬ TableFrame L M.phys g → M'.phys g = M.phys g := by
    unfold pagingUnmapPage at he ⊢
    simp only [va_slot, va_index, physMem_load_pd M hs, h.load_pd hs, Option.bind_eq_bind,
      Option.bind_some] at he ⊢
    by_cases hp : isPresent (M.phys (pdFrame L) (va / pageSize / 1024)) = true
    · have hlow := h.tree.low _ hs hp
      have htab : M.Reaches (frameOf (M.phys (pdFrame L) (va / pageSize / 1024))) := h.table hv hp
      rw [if_pos hp, entryAddr_eq] at he ⊢
      refine ⟨by rw [if_pos hp, htab.store hlow (by omega)], ?_⟩
      rw [physMem_store M hlow (by omega)] at he
      obtain rfl := Option.some.inj he
      exact ⟨rfl, rfl, fun g hg => Phys.store_frame fun heq => hg (.inr ⟨_, hs, hp, heq.symm⟩)⟩
    · rw [if_neg hp] at he ⊢
      obtain rfl := Option.some.inj he
      exact ⟨by rw [if_neg hp], rfl, rfl, fun _ _ => rfl⟩
  obtain ⟨heq, hcr3, hpmm, hkeeps⟩ := hwords
  refine ⟨M', heq.trans he, ⟨htree, by rw [hcr3]; exact h.active, fun f hf => ?_,
    fun f hlt hf ht => ?_, by rw [hpmm]; exact h.sound⟩, hcr3, hpmm, hdir, here, others, hkeeps⟩
  · have hf' := (TableFrame.of_dir hdir).mp hf
    exact h.reach_of_others hcr3 others (h.reach f hf') (hoff f hf')
  · rw [hpmm] at hf
    exact h.fresh f hlt hf ((TableFrame.of_dir hdir).mp ht)

/-- **`paging_get_physical`** is the walk. -/
theorem Tabled.getPhysical (h : Tabled L M) (hva : va < 2 ^ 32) :
    pagingGetPhysical machMem L M va = some (physOf L M.phys va) := by
  have hv := va_page_lt hva
  have hs := page_slot hv
  rw [← getPhysical_phys h.tree hva]
  unfold pagingGetPhysical
  simp only [va_slot, va_index, physMem_load_pd M hs, h.load_pd hs, Option.bind_eq_bind,
    Option.bind_some]
  by_cases hp : isPresent (M.phys (pdFrame L) (va / pageSize / 1024)) = true
  · have htab : M.Reaches (frameOf (M.phys (pdFrame L) (va / pageSize / 1024))) := h.table hv hp
    rw [if_pos hp, if_pos hp, entryAddr_eq, htab.load (h.tree.low _ hs hp) (by omega)]
  · rw [if_neg hp, if_neg hp]

end Tabled

section Low

variable {L : Layout} {dirs : List Nat} {M : Machine} {f : Nat}

theorem MachInv.reaches_low (h : MachInv L dirs M) (h1 : 256 ≤ f) (h2 : f < 1024) :
    M.Reaches f := by
  have := h.direct.frameAt h1 h2 (i := 0) (by omega)
  unfold Machine.Reaches
  rw [physToVirt_low h2]
  exact this

theorem windowPage_low (hf : f < 1024) : windowPage f = 0xC0000 + f := by
  unfold windowPage
  rw [physToVirt_low hf]
  unfold pageSize
  omega

theorem MachInv.table_low (h : MachInv L dirs M) (hf : TableFrame L M.phys f) :
    256 ≤ f ∧ f < 1024 := by
  rcases hf with rfl | ⟨s, hs, hp, rfl⟩
  · exact ⟨(staticFrames L).pd_ge, pdFrame_lt L⟩
  · have := h.tables.slot_frame hs hp
    exact ⟨this.1, this.2.1⟩

theorem MachInv.tabled (h : MachInv L dirs M) : Tabled L M := by
  have hk := kernelEndFrame_bounds L
  refine ⟨⟨h.tables.tree, fun s hs hp => ?_⟩, h.cr3, fun f hf => ?_, fun f hlt hf ht => ?_,
    h.tables.total, fun h0 => ?_⟩
  · have := (h.tables.slot_frame hs hp).2.1
    omega
  · obtain ⟨h1, h2⟩ := h.table_low hf
    exact h.reaches_low h1 h2
  · obtain ⟨hge, -, hnt, -⟩ := h.tables.free_fresh hf (by unfold maxFrames; omega)
    exact h.tables.not_tableFrame hge hnt ht
  · have := h.tables.reserves 0 (by unfold maxFrames; omega) h0
    omega

theorem MachInv.off_of_family {v : Nat} (h : MachInv L dirs M) (hv : Family v) :
    OffTables L M.phys v := by
  rintro f hf rfl
  obtain ⟨h1, h2⟩ := h.table_low hf
  have hout := hv.2
  rw [windowPage_low h2] at hout
  omega

end Low

end TupleOS.Memory
