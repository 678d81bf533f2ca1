import TupleOS.Memory.Machine

/-!
# The page tables and the frames they own

`TableInv L m p dirs` is what the memory managers keep while nothing goes wrong:
the static tables are in place, the direct window is intact, every other table
and every created directory (`dirs`) is a frame of its own below 4 MB, and the
pages that the VMM may map (`Family`) map frames of their own. The lemmas below
are its updates, one for each thing the code does to memory or to the allocator.
-/

namespace TupleOS.Memory

open TupleOS.Base

/-! ## Where the static tables are -/

def pdFrame (L : Layout) : Nat := imageFrame L.pageDirectory

def ptFrame (L : Layout) (j : Nat) : Nat := imageFrame L.pageTables + j

theorem imageFrame_eq {a : Nat} (h1 : 0xC0100000 ≤ a) (h2 : a < 2 ^ 32) (hal : a % pageSize = 0) :
    a = 0xC0000000 + imageFrame a * pageSize ∧ 256 ≤ imageFrame a := by
  unfold imageFrame frameOf virtToPhys kernelVirtualBase
  rw [sub32_of_le (by omega) h2]
  unfold pageSize at *
  omega

/-- What the layout says about the frames of the static tables. -/
structure StaticFrames (L : Layout) : Prop where
  pd_ge : 256 ≤ pdFrame L
  pd_lt : pdFrame L < kernelEndFrame L
  pt_ge : 256 ≤ ptFrame L 0
  pt_lt : ptFrame L 3 < kernelEndFrame L
  pt_ne : ∀ j < 4, ptFrame L j ≠ pdFrame L
  pd_addr : L.pageDirectory = 0xC0000000 + pdFrame L * pageSize
  pt_addr : ∀ j, L.pageTables + pageSize * j = 0xC0000000 + ptFrame L j * pageSize
  end_le : kernelEndFrame L ≤ 1024

theorem staticFrames (L : Layout) : StaticFrames L := by
  have h1 := L.pageDirectory_ge
  have h2 := L.pageDirectory_le
  have h3 := L.pageTables_ge
  have h4 := L.pageTables_le
  have h5 := L.kernelEnd_le
  have h6 := L.arrays_disjoint
  have hlt : L.kernelEnd < 2 ^ 32 := by omega
  obtain ⟨hpd, hpd'⟩ := imageFrame_eq h1 (by omega) L.pageDirectory_aligned
  obtain ⟨hpt, hpt'⟩ := imageFrame_eq h3 (by omega) L.pageTables_aligned
  obtain ⟨-, hk1, -, hk2⟩ := kernelEndFrame_bounds L
  rw [← pdFrame] at hpd hpd'
  have hj : ∀ j, imageFrame L.pageTables + j = ptFrame L j := fun j => by rw [ptFrame]
  have hpt0 := hj 0
  rw [Nat.add_zero] at hpt0
  refine ⟨hpd', ?_, ?_, ?_, fun j hj' => ?_, hpd, fun j => ?_, hk1⟩
  · unfold pageSize at *; omega
  · omega
  · have := hj 3; unfold pageSize at *; omega
  · have := hj j; unfold pageSize at *; omega
  · have := hj j; unfold pageSize at *; omega

theorem pagingGetDirectory_eq (L : Layout) : frameOf (pagingGetDirectory L) = pdFrame L := rfl

/-- Entries of `page_directory` other than those of the static tables. -/
def DynSlot (s : Nat) : Prop := s < 1024 ∧ (s < 768 ∨ 772 ≤ s)

/-- The frame holds a table that `paging_map_page` made. -/
def IsTable (L : Layout) (m : Phys) (f : Nat) : Prop :=
  ∃ s, DynSlot s ∧ isPresent (m (pdFrame L) s) = true ∧ frameOf (m (pdFrame L) s) = f

/-- Pages that no kernel region covers, so that the VMM may map them. -/
def Family (v : Nat) : Prop := v < 2 ^ 20 ∧ (v ≤ 0xC0000 ∨ 0xC1400 ≤ v)

/-- The frame that `page_directory` maps at page `v`. -/
def kmap (L : Layout) (m : Phys) (v : Nat) : Option Nat :=
  (walk m (pdFrame L) v).map fun e => frameOf e.2

/-- In use, above the image and below 4 MB. -/
def Taken (L : Layout) (p : Pmm) (f : Nat) : Prop :=
  kernelEndFrame L ≤ f ∧ f < 1024 ∧ ¬ p.Free f

/-- In use, above the image and no table. -/
structure Owned (L : Layout) (m : Phys) (p : Pmm) (dirs : List Nat) (f : Nat) : Prop where
  ge : kernelEndFrame L ≤ f
  lt : f < maxFrames
  used : ¬ p.Free f
  not_dir : f ∉ dirs
  not_table : ¬ IsTable L m f

theorem Owned.of_tables {L : Layout} {m m' : Phys} {p : Pmm} {dirs : List Nat} {f : Nat}
    (h : Owned L m p dirs f) (htab : IsTable L m' f → IsTable L m f) : Owned L m' p dirs f :=
  { h with not_table := fun hf => h.not_table (htab hf) }

structure TableInv (L : Layout) (m : Phys) (p : Pmm) (dirs : List Nat) : Prop where
  static : ∀ j < 4, m (pdFrame L) (768 + j) = ptFrame L j * pageSize + 3
  window : ∀ i, 256 ≤ i → i < 1024 → m (ptFrame L 0) i = i * pageSize + 3
  table : ∀ f, IsTable L m f → Taken L p f
  table_inj : ∀ s s', DynSlot s → DynSlot s' → isPresent (m (pdFrame L) s) = true →
    isPresent (m (pdFrame L) s') = true →
    frameOf (m (pdFrame L) s) = frameOf (m (pdFrame L) s') → s = s'
  dir : ∀ d ∈ dirs, Taken L p d ∧ ¬ IsTable L m d
  nodup : dirs.Nodup
  reserves : p.Reserves L
  total : p.totalFrames ≤ 32784
  data : ∀ v f, Family v → kmap L m v = some f →
    f = 0 ∨ (maxFrames ≤ f ∧ f < 2 ^ 20) ∨ Owned L m p dirs f
  data_inj : ∀ v v' f, Family v → Family v' → kmap L m v = some f → kmap L m v' = some f →
    f ≠ 0 → f < maxFrames → v = v'

section Facts

variable {L : Layout} {m m' : Phys} {p p' : Pmm} {dirs : List Nat} {s i f v w : Nat}

theorem slot_static_or_dyn (hs : s < 1024) : (∃ j < 4, s = 768 + j) ∨ DynSlot s := by
  by_cases h : 768 ≤ s ∧ s < 772
  · exact .inl ⟨s - 768, by omega, by omega⟩
  · exact .inr ⟨hs, by omega⟩

theorem TableInv.dyn_of_absent (h : TableInv L m p dirs) (hs : s < 1024)
    (habs : isPresent (m (pdFrame L) s) = false) : DynSlot s := by
  rcases slot_static_or_dyn hs with ⟨j, hj, rfl⟩ | hd
  · rw [h.static j hj, entry_present] at habs
    cases habs
  · exact hd

theorem TableInv.slot_frame (h : TableInv L m p dirs) (hs : s < 1024)
    (hp : isPresent (m (pdFrame L) s) = true) :
    256 ≤ frameOf (m (pdFrame L) s) ∧ frameOf (m (pdFrame L) s) < 1024 ∧
    frameOf (m (pdFrame L) s) ≠ pdFrame L ∧ frameOf (m (pdFrame L) s) ∉ dirs := by
  have hL := staticFrames L
  have hl := hL.end_le; have ha := hL.pt_ge; have hb := hL.pt_lt; have hc := hL.pd_lt
  have hk := (kernelEndFrame_bounds L).1
  rcases slot_static_or_dyn hs with ⟨j, hj, rfl⟩ | hd
  · rw [h.static j hj, entry_frame]
    have hne := hL.pt_ne j hj
    unfold ptFrame at *
    refine ⟨by omega, by omega, by omega, fun hmem => ?_⟩
    have := (h.dir _ hmem).1.1
    omega
  · have ht : IsTable L m (frameOf (m (pdFrame L) s)) := ⟨s, hd, hp, rfl⟩
    obtain ⟨h1, h2, -⟩ := h.table _ ht
    exact ⟨by omega, h2, by omega, fun hmem => (h.dir _ hmem).2 ht⟩

theorem TableInv.slot_inj (h : TableInv L m p dirs) {s' : Nat} (hs : s < 1024) (hs' : s' < 1024)
    (hp : isPresent (m (pdFrame L) s) = true) (hp' : isPresent (m (pdFrame L) s') = true)
    (heq : frameOf (m (pdFrame L) s) = frameOf (m (pdFrame L) s')) : s = s' := by
  have hL := staticFrames L
  have hb := hL.pt_lt
  have hdyn : ∀ {s}, DynSlot s → isPresent (m (pdFrame L) s) = true →
      kernelEndFrame L ≤ frameOf (m (pdFrame L) s) := fun hd hp => (h.table _ ⟨_, hd, hp, rfl⟩).1
  rcases slot_static_or_dyn hs with ⟨j, hj, rfl⟩ | hd <;>
    rcases slot_static_or_dyn hs' with ⟨j', hj', rfl⟩ | hd'
  · rw [h.static j hj, h.static j' hj', entry_frame, entry_frame] at heq
    unfold ptFrame at heq; omega
  · have := hdyn hd' hp'
    rw [h.static j hj, entry_frame] at heq
    unfold ptFrame at *; omega
  · have := hdyn hd hp
    rw [h.static j' hj', entry_frame] at heq
    unfold ptFrame at *; omega
  · exact h.table_inj s s' hd hd' hp hp' heq

theorem TableInv.tree (h : TableInv L m p dirs) : Tree m (pdFrame L) where
  off _ hs hp := (h.slot_frame hs hp).2.2.1
  inj _ hs _ hs' := h.slot_inj hs hs'

theorem TableInv.direct {M : Machine} (h : TableInv L M.phys p dirs)
    (hc : frameOf M.cr3 = pdFrame L) : Direct M := by
  have h0 := h.static 0 (by omega)
  rw [Nat.add_zero] at h0
  refine ⟨?_, fun i h1 h2 => ?_⟩
  · rw [hc, h0]; exact entry_present _
  · rw [hc, h0, entry_frame]; exact h.window i h1 h2

theorem TableInv.offWalk {M : Machine} (h : TableInv L M.phys p dirs)
    (hc : frameOf M.cr3 = pdFrame L) (hf : kernelEndFrame L ≤ f) : M.OffWalk f := by
  have hL := staticFrames L
  have ha := hL.pd_lt; have hb := hL.pt_lt
  have h0 := h.static 0 (by omega)
  rw [Nat.add_zero] at h0
  unfold Machine.OffWalk
  rw [hc, h0, entry_frame]
  unfold ptFrame at *
  omega

end Facts

/-! ## Updates -/

section Updates

variable {L : Layout} {m m' : Phys} {p p' : Pmm} {dirs : List Nat} {s i f v w : Nat}

/-- Frames that the tables of `page_directory` are made of. -/
def TableFrame (L : Layout) (m : Phys) (f : Nat) : Prop :=
  f = pdFrame L ∨ ∃ s < 1024, isPresent (m (pdFrame L) s) = true ∧ frameOf (m (pdFrame L) s) = f

theorem offTree_iff : OffTree m (pdFrame L) f ↔ ¬ TableFrame L m f := by
  unfold OffTree TableFrame
  rw [not_or]
  refine and_congr_right fun _ => ?_
  constructor
  · exact fun h ⟨s, hs, hp, hf⟩ => h s hs hp hf
  · exact fun h s hs hp hf => h ⟨s, hs, hp, hf⟩

theorem walk_frame (hag : ∀ g, TableFrame L m g → m' g = m g) (hv : v < 2 ^ 20) :
    walk m' (pdFrame L) v = walk m (pdFrame L) v :=
  walk_congr (by rw [hag _ (.inl rfl)]) fun hp => by
    rw [hag _ (.inr ⟨_, page_slot hv, hp, rfl⟩)]

theorem TableInv.not_tableFrame (h : TableInv L m p dirs) (hge : kernelEndFrame L ≤ f)
    (hnt : ¬ IsTable L m f) : ¬ TableFrame L m f := by
  have hL := staticFrames L
  have hpd := hL.pd_lt; have hpt := hL.pt_lt
  rintro (rfl | ⟨s, hs, hp, hf⟩)
  · omega
  · rcases slot_static_or_dyn hs with ⟨j, hj, rfl⟩ | hdyn
    · rw [h.static j hj, entry_frame] at hf
      unfold ptFrame at *
      omega
    · exact hnt ⟨s, hdyn, hp, hf⟩

theorem TableInv.frame (h : TableInv L m p dirs) (hag : ∀ g, TableFrame L m g → m' g = m g) :
    TableInv L m' p dirs := by
  have hpd : m' (pdFrame L) = m (pdFrame L) := hag _ (.inl rfl)
  have htab : ∀ f, IsTable L m' f ↔ IsTable L m f := fun f => by unfold IsTable; rw [hpd]
  have hk : ∀ v, Family v → kmap L m' v = kmap L m v := fun v hv => by
    unfold kmap; rw [walk_frame hag hv.1]
  have h0 : m' (ptFrame L 0) = m (ptFrame L 0) := by
    refine hag _ (.inr ⟨768, by omega, ?_, ?_⟩)
    · rw [show 768 = 768 + 0 from rfl, h.static 0 (by omega)]; exact entry_present _
    · rw [show 768 = 768 + 0 from rfl, h.static 0 (by omega)]; exact entry_frame _
  exact {
    static := by rw [hpd]; exact h.static
    window := by rw [h0]; exact h.window
    table := fun f hf => h.table f ((htab f).mp hf)
    table_inj := by rw [hpd]; exact h.table_inj
    dir := fun d hd => ⟨(h.dir d hd).1, fun hf => (h.dir d hd).2 ((htab d).mp hf)⟩
    nodup := h.nodup
    reserves := h.reserves
    total := h.total
    data := fun v f hv hm => by
      rw [hk v hv] at hm
      exact (h.data v f hv hm).imp id (Or.imp id fun ho => ho.of_tables (htab f).mp)
    data_inj := fun v v' f hv hv' hm hm' => by
      rw [hk v hv] at hm
      rw [hk v' hv'] at hm'
      exact h.data_inj v v' f hv hv' hm hm' }

/-- **One table entry**: the walk of its page changes and no other. -/
theorem TableInv.walk_store (h : TableInv L m p dirs) (hv : v < 2 ^ 20)
    (hp : isPresent (m (pdFrame L) (v / 1024)) = true) (w : Nat) {u : Nat} (hu : u < 2 ^ 20) :
    walk (m.store (frameOf (m (pdFrame L) (v / 1024))) (v % 1024) w) (pdFrame L) u =
      if u = v then if isPresent w then some (m (pdFrame L) (v / 1024), w) else none
      else walk m (pdFrame L) u :=
  h.tree.walk_store hv hp w hu

/-- What a new entry at a page of the family may name. -/
def FreshFor (L : Layout) (m : Phys) (p : Pmm) (dirs : List Nat) (v f : Nat) : Prop :=
  f = 0 ∨ (maxFrames ≤ f ∧ f < 2 ^ 20) ∨
    (Owned L m p dirs f ∧ ∀ u, Family u → u ≠ v → kmap L m u ≠ some f)

/-- **One table entry** seen from the family: its page changes and no other. -/
theorem TableInv.kmap_store (h : TableInv L m p dirs) (hv : v < 2 ^ 20)
    (hp : isPresent (m (pdFrame L) (v / 1024)) = true) (w : Nat) {u : Nat} (hu : Family u) :
    kmap L (m.store (frameOf (m (pdFrame L) (v / 1024))) (v % 1024) w) u =
      if u = v then if isPresent w then some (frameOf w) else none else kmap L m u := by
  unfold kmap
  rw [h.walk_store hv hp w hu.1]
  split
  · split <;> rfl
  · rfl

theorem TableInv.window_store (h : TableInv L m p dirs) (hv : v < 2 ^ 20)
    (hwin : v < 0xC0100 ∨ 0xC0400 ≤ v) (hp : isPresent (m (pdFrame L) (v / 1024)) = true) (w : Nat)
    (h1 : 256 ≤ i) (h2 : i < 1024) :
    m.store (frameOf (m (pdFrame L) (v / 1024))) (v % 1024) w (ptFrame L 0) i =
      m (ptFrame L 0) i := by
  by_cases hf : ptFrame L 0 = frameOf (m (pdFrame L) (v / 1024))
  · -- the entry is in the first static table
    have h0 : m (pdFrame L) 768 = ptFrame L 0 * pageSize + 3 := h.static 0 (by omega)
    have hslot := h.slot_inj (s := 768) (by omega) (page_slot hv)
      (by rw [h0]; exact entry_present _) hp (by rw [h0, entry_frame]; exact hf)
    exact Phys.store_index (by omega)
  · rw [Phys.store_frame hf]

theorem TableInv.store_pte (h : TableInv L m p dirs) (hv : v < 2 ^ 20)
    (hwin : v < 0xC0100 ∨ 0xC0400 ≤ v) (hp : isPresent (m (pdFrame L) (v / 1024)) = true)
    (hnew : Family v → isPresent w = true → FreshFor L m p dirs v (frameOf w)) :
    TableInv L (m.store (frameOf (m (pdFrame L) (v / 1024))) (v % 1024) w) p dirs := by
  obtain ⟨-, -, hne, -⟩ := h.slot_frame (page_slot hv) hp
  have hpd : m.store (frameOf (m (pdFrame L) (v / 1024))) (v % 1024) w (pdFrame L) =
      m (pdFrame L) := Phys.store_frame hne.symm
  have htab : ∀ f, IsTable L (m.store (frameOf (m (pdFrame L) (v / 1024))) (v % 1024) w) f ↔
      IsTable L m f := fun f => by unfold IsTable; rw [hpd]
  -- the new entry is present and fresh, or nothing is mapped at `v`
  have hhere : ∀ {f}, Family v →
      kmap L (m.store (frameOf (m (pdFrame L) (v / 1024))) (v % 1024) w) v = some f →
      FreshFor L m p dirs v f := by
    intro f hf hm
    rw [h.kmap_store hv hp w hf, if_pos rfl] at hm
    split at hm
    · rename_i hw
      cases hm
      exact hnew hf hw
    · cases hm
  exact {
    static := by rw [hpd]; exact h.static
    window := fun i h1 h2 => (h.window_store hv hwin hp w h1 h2).trans (h.window i h1 h2)
    table := fun f hf => h.table f ((htab f).mp hf)
    table_inj := by rw [hpd]; exact h.table_inj
    dir := fun d hd => ⟨(h.dir d hd).1, fun hf => (h.dir d hd).2 ((htab d).mp hf)⟩
    nodup := h.nodup
    reserves := h.reserves
    total := h.total
    data := fun u f hu hm => by
      have hown : Owned L m p dirs f →
          Owned L (m.store (frameOf (m (pdFrame L) (v / 1024))) (v % 1024) w) p dirs f :=
        fun ho => ho.of_tables (htab f).mp
      by_cases huv : u = v
      · subst huv
        exact (hhere hu hm).imp id (Or.imp id fun ho => hown ho.1)
      · rw [h.kmap_store hv hp w hu, if_neg huv] at hm
        exact (h.data u f hu hm).imp id (Or.imp id hown)
    data_inj := fun u u' f hu hu' hm hm' h0 hmax => by
      have hfresh : ∀ {b}, Family v → Family b → b ≠ v →
          kmap L (m.store (frameOf (m (pdFrame L) (v / 1024))) (v % 1024) w) v = some f →
          kmap L m b = some f → False := by
        intro b ha hb hbv hma hmb
        rcases hhere ha hma with h' | h' | h'
        · exact h0 h'
        · omega
        · exact h'.2 b hb hbv hmb
      by_cases huv : u = v <;> by_cases huv' : u' = v
      · rw [huv, huv']
      · subst huv
        rw [h.kmap_store hv hp w hu', if_neg huv'] at hm'
        exact (hfresh hu hu' huv' hm hm').elim
      · subst huv'
        rw [h.kmap_store hv hp w hu, if_neg huv] at hm
        exact (hfresh hu' hu huv hm' hm).elim
      · rw [h.kmap_store hv hp w hu, if_neg huv] at hm
        rw [h.kmap_store hv hp w hu', if_neg huv'] at hm'
        exact h.data_inj u u' f hu hu' hm hm' h0 hmax }

theorem TableInv.free_fresh (h : TableInv L m p dirs) (hf : p.Free f) (hmax : f < maxFrames) :
    kernelEndFrame L ≤ f ∧ f ∉ dirs ∧ ¬ IsTable L m f ∧ ∀ u, Family u → kmap L m u ≠ some f := by
  have hge := h.reserves f hmax hf
  have hk := (kernelEndFrame_bounds L).1
  refine ⟨hge, fun hd => (h.dir f hd).1.2.2 hf, fun ht => (h.table f ht).2.2 hf, fun u hu hm => ?_⟩
  rcases h.data u f hu hm with h0 | h0 | h0
  · omega
  · omega
  · exact h0.used hf

theorem TableInv.alloc (h : TableInv L m p dirs) (hb : p'.bitmap = p.bitmap.set f)
    (ht : p'.totalFrames = p.totalFrames) : TableInv L m p' dirs := by
  have hmono : ∀ {g}, ¬ p.Free g → ¬ p'.Free g := fun hg hg' => hg ((free_set hb).mp hg').2
  exact {
    static := h.static
    window := h.window
    table := fun g hg => ⟨(h.table g hg).1, (h.table g hg).2.1, hmono (h.table g hg).2.2⟩
    table_inj := h.table_inj
    dir := fun d hd => ⟨⟨(h.dir d hd).1.1, (h.dir d hd).1.2.1, hmono (h.dir d hd).1.2.2⟩,
      (h.dir d hd).2⟩
    nodup := h.nodup
    reserves := fun g hg hfree => h.reserves g hg ((free_set hb).mp hfree).2
    total := by rw [ht]; exact h.total
    data := fun v g hv hm => (h.data v g hv hm).imp id (Or.imp id fun ho =>
      ⟨ho.ge, ho.lt, hmono ho.used, ho.not_dir, ho.not_table⟩)
    data_inj := h.data_inj }

/-- Giving back a frame that nothing maps and that is no table. -/
theorem TableInv.release (h : TableInv L m p dirs) {a : Nat} (hf : frameOf a < maxFrames →
      kernelEndFrame L ≤ frameOf a ∧ frameOf a ∉ dirs ∧ ¬ IsTable L m (frameOf a) ∧
        ∀ u, Family u → kmap L m u ≠ some (frameOf a)) :
    TableInv L m (pmmFreeFrame p a) dirs := by
  have hfree : ∀ {g}, (pmmFreeFrame p a).Free g →
      p.Free g ∨ (g = frameOf a ∧ frameOf a < maxFrames) := by
    intro g hg
    rcases (pmmFreeFrame_free p a).mp hg with hg | ⟨rfl, hlt⟩
    · exact .inl hg
    · exact .inr ⟨rfl, hlt⟩
  have hkeep : ∀ {g}, ¬ p.Free g → (frameOf a < maxFrames → g ≠ frameOf a) →
      ¬ (pmmFreeFrame p a).Free g := by
    intro g hg hne hg'
    rcases hfree hg' with h' | ⟨rfl, hlt⟩
    · exact hg h'
    · exact hne hlt rfl
  exact {
    static := h.static
    window := h.window
    table := fun g hg => ⟨(h.table g hg).1, (h.table g hg).2.1,
      hkeep (h.table g hg).2.2 fun hlt heq => (hf hlt).2.2.1 (heq ▸ hg)⟩
    table_inj := h.table_inj
    dir := fun d hd => ⟨⟨(h.dir d hd).1.1, (h.dir d hd).1.2.1,
      hkeep (h.dir d hd).1.2.2 fun hlt heq => (hf hlt).2.1 (heq ▸ hd)⟩, (h.dir d hd).2⟩
    nodup := h.nodup
    reserves := fun g hg hg' => by
      rcases hfree hg' with h' | ⟨rfl, hlt⟩
      · exact h.reserves g hg h'
      · exact (hf hlt).1
    total := by rw [pmmFreeFrame_total]; exact h.total
    data := fun v g hv hm => (h.data v g hv hm).imp id (Or.imp id fun ho =>
      ⟨ho.ge, ho.lt, hkeep ho.used fun hlt heq => (hf hlt).2.2.2 v hv (heq ▸ hm), ho.not_dir,
        ho.not_table⟩)
    data_inj := h.data_inj }

/-- Memory once frame `t` is the table of slot `s`. -/
def enterTable (L : Layout) (m : Phys) (t s e : Nat) : Phys :=
  (m.fill t 0 1024).store (pdFrame L) s e

section Enter

variable {t e : Nat}

theorem enterTable_pd (ht : t ≠ pdFrame L) {u : Nat} (hu : u ≠ s) :
    enterTable L m t s e (pdFrame L) u = m (pdFrame L) u := enter_dir ht hu

theorem enterTable_self : enterTable L m t s e (pdFrame L) s = e := enter_self

theorem enterTable_frame {g : Nat} (h1 : g ≠ pdFrame L) (h2 : g ≠ t) :
    enterTable L m t s e g = m g := enter_frame h1 h2

theorem TableInv.walk_enter (h : TableInv L m p dirs) (hge : kernelEndFrame L ≤ t)
    (hnt : ¬ IsTable L m t) (he : frameOf e = t)
    (habs : isPresent (m (pdFrame L) s) = false) {u : Nat} (hu : u < 2 ^ 20) :
    walk (enterTable L m t s e) (pdFrame L) u = walk m (pdFrame L) u :=
  h.tree.walk_enter (offTree_iff.mpr (h.not_tableFrame hge hnt)) he habs hu

/-- **A new table** in a fresh frame below 4 MB. -/
theorem TableInv.enter (h : TableInv L m p dirs) (hs : DynSlot s)
    (habs : isPresent (m (pdFrame L) s) = false) (htk : Taken L p t) (hnd : t ∉ dirs)
    (hnt : ¬ IsTable L m t) (hnm : ∀ u, Family u → kmap L m u ≠ some t) (he : frameOf e = t) :
    TableInv L (enterTable L m t s e) p dirs := by
  have hL := staticFrames L
  have hpd := hL.pd_lt; have hpt := hL.pt_lt
  have hge := htk.1
  have hne : t ≠ pdFrame L := by omega
  have htab : ∀ f, IsTable L (enterTable L m t s e) f → f = t ∨ IsTable L m f := by
    rintro f ⟨u, hu, hp, hf⟩
    by_cases hus : u = s
    · subst hus
      rw [enterTable_self] at hf
      exact .inl (hf.symm.trans he)
    · rw [enterTable_pd hne hus] at hp hf
      exact .inr ⟨u, hu, hp, hf⟩
  have hk : ∀ u, Family u → kmap L (enterTable L m t s e) u = kmap L m u := fun u hu => by
    unfold kmap; rw [h.walk_enter hge hnt he habs hu.1]
  exact {
    static := fun j hj => by
      rw [enterTable_pd hne (by have := hs.2; omega)]; exact h.static j hj
    window := fun i h1 h2 => by
      rw [enterTable_frame (hL.pt_ne 0 (by omega)) (by unfold ptFrame at *; omega)]
      exact h.window i h1 h2
    table := fun f hf => by
      rcases htab f hf with rfl | hf
      · exact htk
      · exact h.table f hf
    table_inj := fun u u' hu hu' hp hp' heq => by
      have hself : ∀ {x}, DynSlot x → x ≠ s → isPresent (m (pdFrame L) x) = true →
          frameOf (m (pdFrame L) x) ≠ t := fun hx _ hp hf => hnt ⟨_, hx, hp, hf⟩
      by_cases hus : u = s <;> by_cases hus' : u' = s
      · rw [hus, hus']
      · subst hus
        rw [enterTable_self, he, enterTable_pd hne hus'] at heq
        rw [enterTable_pd hne hus'] at hp'
        exact (hself hu' hus' hp' heq.symm).elim
      · subst hus'
        rw [enterTable_self, he, enterTable_pd hne hus] at heq
        rw [enterTable_pd hne hus] at hp
        exact (hself hu hus hp heq).elim
      · rw [enterTable_pd hne hus] at hp heq
        rw [enterTable_pd hne hus'] at hp' heq
        exact h.table_inj u u' hu hu' hp hp' heq
    dir := fun d hd => ⟨(h.dir d hd).1, fun hf => by
      rcases htab d hf with rfl | hf
      · exact hnd hd
      · exact (h.dir d hd).2 hf⟩
    nodup := h.nodup
    reserves := h.reserves
    total := h.total
    data := fun v f hv hm => by
      rw [hk v hv] at hm
      exact (h.data v f hv hm).imp id (Or.imp id fun ho => ho.of_tables fun hf =>
        (htab f hf).resolve_left fun heq => hnm v hv (heq ▸ hm))
    data_inj := fun v v' f hv hv' hm hm' => by
      rw [hk v hv] at hm
      rw [hk v' hv'] at hm'
      exact h.data_inj v v' f hv hv' hm hm' }

end Enter

theorem TableInv.addDir (h : TableInv L m p dirs) {d : Nat} (htk : Taken L p d) (hnd : d ∉ dirs)
    (hnt : ¬ IsTable L m d) (hnm : ∀ u, Family u → kmap L m u ≠ some d) :
    TableInv L m p (d :: dirs) where
  static := h.static
  window := h.window
  table := h.table
  table_inj := h.table_inj
  dir := List.forall_mem_cons.mpr ⟨⟨htk, hnt⟩, h.dir⟩
  nodup := List.nodup_cons.mpr ⟨hnd, h.nodup⟩
  reserves := h.reserves
  total := h.total
  data := fun v f hv hm => (h.data v f hv hm).imp id (Or.imp id fun ho =>
    ⟨ho.ge, ho.lt, ho.used, List.not_mem_cons_of_ne_of_not_mem (fun heq => hnm v hv (heq ▸ hm))
      ho.not_dir, ho.not_table⟩)
  data_inj := h.data_inj

end Updates

end TupleOS.Memory
