import TupleOS.Memory.Tables

/-!
# The paging primitives on the machine

With `page_directory` active and the invariant in force, the paging code reaches
the tables it means to reach: `mapPage_ok`, `unmapPage_ok`, `getPhysical_eq` and
`createDirectory_ok` say what each primitive returns and what it does to the
walks. The only thing asked of the allocator is that a new table or directory
comes from below 4 MB, which it does while a frame below 4 MB is free.
-/

namespace TupleOS.Memory

open TupleOS.Base

/-- The tables are sound and `page_directory` is active. -/
structure MachInv (L : Layout) (dirs : List Nat) (M : Machine) : Prop where
  tables : TableInv L M.phys M.pmm dirs
  cr3 : frameOf M.cr3 = pdFrame L

/-! ## The allocator -/

def lowFree (p : Pmm) : Nat := p.bitmap.clearCount 1024

/-- Free frames the allocator's scan can find. -/
def reachable (p : Pmm) : Nat := p.bitmap.clearCount (8 * (p.totalFrames / 8))

/-- Free frames below 4 MB among those. -/
def nearFree (p : Pmm) : Nat := p.bitmap.clearCount (min 1024 (8 * (p.totalFrames / 8)))

/-- `p'` is `p` with the lowest free frame `f` taken. -/
structure TookFrame (p p' : Pmm) (f : Nat) : Prop where
  free : p.Free f
  lt : f < 32784
  scanned : f < 8 * (p.totalFrames / 8)
  bitmap : p'.bitmap = p.bitmap.set f
  total : p'.totalFrames = p.totalFrames
  lowest : ∀ g < f, ¬ p.Free g

section Alloc

variable {L : Layout} {m : Phys} {p p' : Pmm} {dirs : List Nat} {f : Nat}

theorem TableInv.pmmAllocFrame_cases (h : TableInv L m p dirs) :
    (pmmAllocFrame p = (0, p) ∧ reachable p = 0) ∨
    ∃ f p', pmmAllocFrame p = (f * pageSize, p') ∧ TookFrame p p' f := by
  have htot := h.total
  rcases Memory.pmmAllocFrame_cases p with ⟨h0, hnone⟩ | ⟨f, hf, hfree, hlt, hlow⟩
  · refine .inl ⟨h0, Nat.eq_zero_of_not_pos fun hpos => ?_⟩
    obtain ⟨g, hg, hfree⟩ := Bitmap.exists_clear_of_pos hpos
    exact hnone g hg hfree
  · refine .inr ⟨f, ⟨p.bitmap.set f, p.totalFrames, w32 (p.usedFrames + 1)⟩, ?_, hfree, by omega,
      hlt, rfl, rfl, hlow⟩
    rw [hf, w32_of_lt (by unfold pageSize; omega)]

theorem TookFrame.inv (t : TookFrame p p' f) (h : TableInv L m p dirs) : TableInv L m p' dirs :=
  h.alloc t.bitmap t.total

theorem TookFrame.used (t : TookFrame p p' f) : ¬ p'.Free f := fun hf =>
  ((free_set t.bitmap).mp hf).1 rfl

theorem TookFrame.low (t : TookFrame p p' f) (h : 0 < lowFree p) : f < 1024 := by
  obtain ⟨g, hg, hfree⟩ := Bitmap.exists_clear_of_pos h
  by_contra hf
  exact t.lowest g (by omega) hfree

theorem TookFrame.clearCount (t : TookFrame p p' f) (n : Nat) :
    p.bitmap.clearCount n ≤ p'.bitmap.clearCount n + 1 := by
  rw [t.bitmap]
  by_cases hf : f < n
  · exact Nat.le_of_eq (Bitmap.clearCount_set t.free hf).symm
  · rw [Bitmap.clearCount_set_above (by omega)]; omega

theorem TookFrame.lowFree (t : TookFrame p p' f) : lowFree p ≤ lowFree p' + 1 := t.clearCount 1024

theorem TookFrame.reachable (t : TookFrame p p' f) : reachable p ≤ reachable p' + 1 := by
  unfold Memory.reachable
  rw [t.total]
  exact t.clearCount _

theorem TookFrame.reachable_eq (t : TookFrame p p' f) :
    Memory.reachable p' + 1 = Memory.reachable p := by
  unfold Memory.reachable
  rw [t.total, t.bitmap]
  exact Bitmap.clearCount_set t.free t.scanned

theorem TookFrame.nearFree (t : TookFrame p p' f) : nearFree p ≤ nearFree p' + 1 := by
  unfold Memory.nearFree
  rw [t.total]
  exact t.clearCount _

theorem nearFree_pos (h : 0 < nearFree p) : 0 < lowFree p ∧ 0 < reachable p := by
  obtain ⟨g, hg, hfree⟩ := Bitmap.exists_clear_of_pos h
  exact ⟨Bitmap.clearCount_pos hfree (by omega), Bitmap.clearCount_pos hfree (by omega)⟩

theorem TableInv.alloc_some (h : TableInv L m p dirs) (hr : 0 < Memory.reachable p) :
    ∃ f p', pmmAllocFrame p = (f * pageSize, p') ∧ TookFrame p p' f := by
  rcases h.pmmAllocFrame_cases with ⟨-, hnone⟩ | hsome
  · omega
  · exact hsome

theorem TookFrame.owned (t : TookFrame p p' f) (h : TableInv L m p dirs) :
    Owned L m p' dirs f ∧ ∀ u, Family u → kmap L m u ≠ some f := by
  have hmax : f < maxFrames := by have := t.lt; unfold maxFrames; omega
  obtain ⟨h1, h2, h3, h4⟩ := h.free_fresh t.free hmax
  exact ⟨⟨h1, hmax, t.used, h2, h3⟩, h4⟩

theorem TookFrame.taken (t : TookFrame p p' f) (h : TableInv L m p dirs)
    (hl : 0 < Memory.lowFree p) : Taken L p' f :=
  ⟨(t.owned h).1.ge, t.low hl, t.used⟩

theorem TookFrame.ne_zero (t : TookFrame p p' f) (h : TableInv L m p dirs) : f * pageSize ≠ 0 := by
  have h1 := (t.owned h).1.ge
  have h2 := (kernelEndFrame_bounds L).1
  unfold pageSize
  omega

end Alloc

/-! ## Entries -/

section Entries

variable {pa flags : Nat}

def pteFor (pa flags : Nat) : Nat :=
  mkEntry (roundDown pageSize pa) (flags % pageSize ||| pagePresent)

/-- The directory entry it writes for a new table. -/
def pdeFor (t flags : Nat) : Nat :=
  mkEntry t (pagePresent ||| pageWrite ||| (flags &&& pageUser))

theorem entry_bits {f b : Nat} (hb : b < pageSize) : frameOf (f * pageSize + b) = f := by
  unfold frameOf pageSize at *; omega

theorem isPresent_add {f b : Nat} (hb : b % 2 = 1) : isPresent (f * pageSize + b) = true := by
  unfold isPresent pageSize
  rw [beq_iff_eq]; omega

theorem pteFor_spec (pa flags : Nat) :
    frameOf (pteFor pa flags) = frameOf pa ∧ isPresent (pteFor pa flags) = true := by
  have hlt : flags % pageSize ||| pagePresent < pageSize :=
    Nat.or_lt_two_pow (n := 12) (Nat.mod_lt _ (by decide)) (by decide)
  have hodd : (flags % pageSize ||| pagePresent) % 2 = 1 := by
    rw [Nat.or_mod_two_eq_one]; exact .inr rfl
  have heq : pteFor pa flags = frameOf pa * pageSize + (flags % pageSize ||| pagePresent) := by
    unfold pteFor mkEntry roundDown frameOf pageSize
    omega
  rw [heq]
  exact ⟨entry_bits hlt, isPresent_add hodd⟩

theorem kmap_pteFor {L : Layout} {m : Phys} {u pde f : Nat}
    (hw : walk m (pdFrame L) u = some (pde, pteFor (f * pageSize) flags)) :
    kmap L m u = some f := by
  unfold kmap
  rw [hw, Option.map_some, (pteFor_spec _ _).1]
  exact congrArg some (Nat.mul_div_cancel f (by decide))

theorem pdeFor_spec (f flags : Nat) :
    frameOf (pdeFor (f * pageSize) flags) = f ∧ isPresent (pdeFor (f * pageSize) flags) = true := by
  have hb : flags &&& pageUser ≤ 4 := Nat.and_le_right
  have hlt : pagePresent ||| pageWrite ||| (flags &&& pageUser) < pageSize :=
    Nat.or_lt_two_pow (n := 12) (by decide) (Nat.lt_of_le_of_lt hb (by decide))
  have hodd : (pagePresent ||| pageWrite ||| (flags &&& pageUser)) % 2 = 1 := by
    rw [Nat.or_mod_two_eq_one, Nat.or_mod_two_eq_one]; exact .inl (.inl rfl)
  exact ⟨entry_bits hlt, isPresent_add hodd⟩

theorem entryAddr_eq (e : Nat) : entryAddr e = frameOf e * pageSize := by
  unfold entryAddr roundDown frameOf pageSize; omega

theorem physToVirt_low {f : Nat} (hf : f < 1024) :
    physToVirt (f * pageSize) = 0xC0000000 + f * pageSize := by
  unfold physToVirt kernelVirtualBase
  rw [w32_of_lt (by unfold pageSize; omega)]
  omega

end Entries

/-! ## Reaching the tables -/

section Reach

variable {L : Layout} {dirs : List Nat} {M : Machine} {s i va : Nat}

theorem MachInv.direct (h : MachInv L dirs M) : Direct M := h.tables.direct h.cr3

theorem MachInv.load_pd (h : MachInv L dirs M) (hs : s < 1024) :
    machMem.load M (L.pageDirectory + 4 * s) = some (M.phys (pdFrame L) s) := by
  have hL := staticFrames L
  have h1 := hL.pd_lt; have h2 := hL.end_le
  rw [hL.pd_addr]
  exact h.direct.load hL.pd_ge (by omega) hs

theorem MachInv.table_addr (h : MachInv L dirs M) (hs : s < 1024)
    (hp : isPresent (M.phys (pdFrame L) s) = true) :
    physToVirt (entryAddr (M.phys (pdFrame L) s)) =
      0xC0000000 + frameOf (M.phys (pdFrame L) s) * pageSize := by
  rw [entryAddr_eq]
  exact physToVirt_low (h.tables.slot_frame hs hp).2.1

theorem MachInv.load_table (h : MachInv L dirs M) (hs : s < 1024) (hi : i < 1024)
    (hp : isPresent (M.phys (pdFrame L) s) = true) :
    machMem.load M (physToVirt (entryAddr (M.phys (pdFrame L) s)) + 4 * i) =
      some (M.phys (frameOf (M.phys (pdFrame L) s)) i) := by
  obtain ⟨h1, h2, -⟩ := h.tables.slot_frame hs hp
  rw [h.table_addr hs hp]
  exact h.direct.load h1 h2 hi

theorem MachInv.store_table (h : MachInv L dirs M) (hs : s < 1024) (hi : i < 1024)
    (hp : isPresent (M.phys (pdFrame L) s) = true) (w : Nat) :
    machMem.store M (physToVirt (entryAddr (M.phys (pdFrame L) s)) + 4 * i) w =
      some (M.withPhys (M.phys.store (frameOf (M.phys (pdFrame L) s)) i w)) := by
  obtain ⟨h1, h2, -⟩ := h.tables.slot_frame hs hp
  rw [h.table_addr hs hp]
  exact h.direct.store h1 h2 hi w

theorem va_slot (va : Nat) : va / 2 ^ 22 = va / pageSize / 1024 := by
  unfold pageSize; omega

theorem va_index (va : Nat) : va / 2 ^ 12 % 2 ^ 10 = va / pageSize % 1024 := by
  unfold pageSize; omega

theorem va_page_lt (hva : va < 2 ^ 32) : va / pageSize < 2 ^ 20 := by
  unfold pageSize; omega

/-! ## `paging_map_page` -/

variable {pa flags : Nat}

theorem MachInv.mapPage_present (h : MachInv L dirs M) (hva : va < 2 ^ 32)
    (hp : isPresent (M.phys (pdFrame L) (va / pageSize / 1024)) = true) :
    pagingMapPage machMem L M va pa flags =
      some (M.withPhys (M.phys.store (frameOf (M.phys (pdFrame L) (va / pageSize / 1024)))
        (va / pageSize % 1024) (pteFor pa flags))) := by
  have hs := page_slot (va_page_lt hva)
  unfold pagingMapPage
  simp only [va_slot, va_index, h.load_pd hs, Option.bind_eq_bind, Option.bind_some, hp, ↓reduceIte]
  exact h.store_table hs (by omega) hp _

theorem MachInv.took {f : Nat} {p' : Pmm} (h : MachInv L dirs M) (t : TookFrame M.pmm p' f) :
    MachInv L dirs (M.withPmm p') := ⟨t.inv h.tables, h.cr3⟩

theorem machMem_alloc {a : Nat} {p' : Pmm} (ha : pmmAllocFrame M.pmm = (a, p')) :
    machMem.pmmAllocFrame M = (a, M.withPmm p') := by
  show ((pmmAllocFrame M.pmm).1, M.withPmm (pmmAllocFrame M.pmm).2) = _
  rw [ha]

theorem MachInv.newPageTable {t : Nat} {p' : Pmm} (h : MachInv L dirs M) (hs : s < 1024)
    (ha : pmmAllocFrame M.pmm = (t * pageSize, p')) (tk : TookFrame M.pmm p' t)
    (hl : 0 < lowFree M.pmm) :
    Memory.newPageTable machMem L M s flags =
      some (true, (M.withPmm p').withPhys
        (enterTable L M.phys t s (pdeFor (t * pageSize) flags))) := by
  have hL := staticFrames L
  have h1 := hL.pd_lt; have h2 := hL.end_le; have h3 := hL.pd_ge
  have htk := tk.taken h.tables hl
  have h0 := tk.ne_zero h.tables
  have hk := (kernelEndFrame_bounds L).1
  have hoff : (M.withPmm p').OffWalk t := (h.took tk).tables.offWalk h.cr3 htk.1
  have hfill := fillWords_direct (h.took tk).direct (by have := htk.1; omega) htk.2.1 hoff 0
    (Nat.le_refl pageEntries)
  have hd : Direct ((M.withPmm p').withPhys (M.phys.fill t 0 pageEntries)) :=
    (h.took tk).direct.frame_off hoff fun g hg => Phys.fill_frame hg
  rw [newPageTable_eq, machMem_alloc ha]
  simp only [h0, ↓reduceIte, physToVirt_low htk.2.1, hfill, Option.bind_some]
  rw [hL.pd_addr]
  show (machMem.store ((M.withPmm p').withPhys (M.phys.fill t 0 pageEntries)) _ (pdeFor
    (t * pageSize) flags)).bind _ = _
  rw [hd.store h3 (by omega) hs]
  rfl

/-- The frames that mapping page `v` takes for a table. -/
def missing (L : Layout) (M : Machine) (v : Nat) : Nat :=
  if isPresent (M.phys (pdFrame L) (v / 1024)) then 0 else 1

theorem missing_absent {v : Nat} (h : isPresent (M.phys (pdFrame L) (v / 1024)) = false) :
    missing L M v = 1 := by
  rw [missing, h]
  rfl

theorem missing_le_one (v : Nat) : missing L M v ≤ 1 := by
  unfold missing
  split
  · exact Nat.zero_le 1
  · exact Nat.le_refl 1

/-- What mapping page `v` did: the walk of `v` ends in `pte`, or there was no
frame for its table and nothing happened. -/
structure MapEffect (L : Layout) (dirs : List Nat) (M M' : Machine) (v pte : Nat) : Prop where
  inv : MachInv L dirs M'
  here : (∃ pde, walk M'.phys (pdFrame L) v = some (pde, pte)) ∨
    (M' = M ∧ isPresent (M.phys (pdFrame L) (v / 1024)) = false ∧ reachable M.pmm = 0)
  others : ∀ u < 2 ^ 20, u ≠ v → walk M'.phys (pdFrame L) u = walk M.phys (pdFrame L) u
  slots : ∀ s < 1024, s ≠ v / 1024 ∨ isPresent (M.phys (pdFrame L) s) = true →
    M'.phys (pdFrame L) s = M.phys (pdFrame L) s
  keeps : ∀ d ∈ dirs, M'.phys d = M.phys d
  used : ∀ g, M'.pmm.Free g → M.pmm.Free g
  low : lowFree M.pmm ≤ lowFree M'.pmm + missing L M v
  reach : reachable M.pmm ≤ reachable M'.pmm + 1

theorem MapEffect.walk_here {v pte : Nat} (e : MapEffect L dirs M M' v pte)
    (hp : isPresent (M.phys (pdFrame L) (v / 1024)) = true) :
    ∃ pde, walk M'.phys (pdFrame L) v = some (pde, pte) :=
  e.here.resolve_right fun hc => Bool.false_ne_true (hc.2.1.symm.trans hp)

theorem MachInv.store_pte_effect (h : MachInv L dirs M) {v w : Nat} (hv : v < 2 ^ 20)
    (hwin : v < 0xC0100 ∨ 0xC0400 ≤ v) (hp : isPresent (M.phys (pdFrame L) (v / 1024)) = true)
    (hw : isPresent w = true) (hnew : Family v → FreshFor L M.phys M.pmm dirs v (frameOf w)) :
    MapEffect L dirs M
      (M.withPhys (M.phys.store (frameOf (M.phys (pdFrame L) (v / 1024))) (v % 1024) w)) v w := by
  obtain ⟨-, -, hne, hnd⟩ := h.tables.slot_frame (page_slot hv) hp
  refine ⟨⟨h.tables.store_pte hv hwin hp fun hf _ => hnew hf, h.cr3⟩,
    .inl ⟨M.phys (pdFrame L) (v / 1024), ?_⟩, fun u hu huv => ?_, fun s _ _ => ?_, fun d hd => ?_,
    fun g hg => hg, Nat.le_add_right _ _, Nat.le_succ _⟩
  · rw [Machine.withPhys, h.tables.walk_store hv hp w hv, if_pos rfl, if_pos hw]
  · rw [Machine.withPhys, h.tables.walk_store hv hp w hu, if_neg huv]
  · exact congrFun (Phys.store_frame hne.symm) s
  · exact Phys.store_frame fun heq => hnd (heq ▸ hd)

theorem MachInv.mapPage_noFrame (h : MachInv L dirs M) (pa flags : Nat) (hva : va < 2 ^ 32)
    (hp : isPresent (M.phys (pdFrame L) (va / pageSize / 1024)) = false)
    (ha : pmmAllocFrame M.pmm = (0, M.pmm)) : pagingMapPage machMem L M va pa flags = some M := by
  refine pagingMapPage_noTable (by rw [va_slot]; exact h.load_pd (page_slot (va_page_lt hva))) hp ?_
  rw [newPageTable_eq, machMem_alloc ha]
  rfl

theorem FreshFor.enter {m : Phys} {p p' : Pmm} {s t e v f : Nat} (hf : FreshFor L m p dirs v f)
    (h : TableInv L m p dirs) (tk : TookFrame p p' t) (he : frameOf e = t)
    (habs : isPresent (m (pdFrame L) s) = false) :
    FreshFor L (enterTable L m t s e) p' dirs v f := by
  obtain ⟨hto, -⟩ := tk.owned h
  have hpd := (staticFrames L).pd_lt
  have hge := hto.ge
  have hne : t ≠ pdFrame L := by omega
  rcases hf with h0 | h0 | ⟨ho, hm⟩
  · exact .inl h0
  · exact .inr (.inl h0)
  · refine .inr (.inr ⟨⟨ho.ge, ho.lt, fun hfree => ho.used ((free_set tk.bitmap).mp hfree).2,
      ho.not_dir, ?_⟩, fun u hu huv => ?_⟩)
    · rintro ⟨x, hx, hxp, hxf⟩
      by_cases hxs : x = s
      · subst hxs
        rw [enterTable_self, he] at hxf
        exact ho.used (hxf ▸ tk.free)
      · rw [enterTable_pd hne hxs] at hxp hxf
        exact ho.not_table ⟨x, hx, hxp, hxf⟩
    · unfold kmap
      rw [h.walk_enter hge hto.not_table he habs hu.1]
      exact hm u hu huv

/-- **`paging_map_page`** that has to make the table first. -/
theorem MachInv.mapPage_newTable {t : Nat} {p' : Pmm} (h : MachInv L dirs M) (pa flags : Nat)
    (hva : va < 2 ^ 32) (hwin : va / pageSize < 0xC0100 ∨ 0xC0400 ≤ va / pageSize)
    (habs : isPresent (M.phys (pdFrame L) (va / pageSize / 1024)) = false)
    (ha : pmmAllocFrame M.pmm = (t * pageSize, p')) (tk : TookFrame M.pmm p' t)
    (hl : 0 < lowFree M.pmm)
    (hnew : Family (va / pageSize) →
      FreshFor L M.phys M.pmm dirs (va / pageSize) (frameOf pa)) :
    ∃ M', pagingMapPage machMem L M va pa flags = some M' ∧
      MapEffect L dirs M M' (va / pageSize) (pteFor pa flags) := by
  obtain ⟨hfr, hpr⟩ := pteFor_spec pa flags
  have hv := va_page_lt hva
  have hs := page_slot hv
  have hload := h.load_pd hs
  obtain ⟨hto, htm⟩ := tk.owned h.tables
  obtain ⟨hpf, hpp⟩ := pdeFor_spec t flags
  have hpd := (staticFrames L).pd_lt
  have htge := hto.ge
  have hne : t ≠ pdFrame L := by omega
  have h1 : MachInv L dirs ((M.withPmm p').withPhys (enterTable L M.phys t
      (va / pageSize / 1024) (pdeFor (t * pageSize) flags))) :=
    ⟨(tk.inv h.tables).enter (h.tables.dyn_of_absent hs habs) habs (tk.taken h.tables hl)
      hto.not_dir hto.not_table htm hpf, h.cr3⟩
  have hp1 : isPresent (enterTable L M.phys t (va / pageSize / 1024)
      (pdeFor (t * pageSize) flags) (pdFrame L) (va / pageSize / 1024)) = true := by
    rw [enterTable_self]
    exact hpp
  have heff := h1.store_pte_effect hv hwin hp1 hpr fun hf => by
    rw [hfr]
    exact (hnew hf).enter h.tables tk hpf habs
  refine ⟨_, ?_, heff.inv, .inl (heff.walk_here hp1), fun u hu huv => ?_, fun x hx hor => ?_,
    fun d hd => ?_, fun g hg => ((free_set tk.bitmap).mp hg).2, ?_, tk.reachable⟩
  · rw [pagingMapPage_newTable (by rw [va_slot]; exact hload) habs
      (by rw [va_slot]; exact h.newPageTable hs ha tk hl)
      (by rw [va_slot]; exact h1.load_pd hs) hp1]
    exact h1.mapPage_present hva hp1
  · rw [heff.others u hu huv]
    exact h.tables.walk_enter htge hto.not_table hpf habs hu
  · have hxs : x ≠ va / pageSize / 1024 := by
      rintro rfl
      rcases hor with hor | hor
      · exact hor rfl
      · rw [habs] at hor
        cases hor
    rw [heff.slots x hx (.inl hxs)]
    exact enterTable_pd hne hxs
  · rw [heff.keeps d hd]
    refine enterTable_frame ?_ fun heq => hto.not_dir (heq ▸ hd)
    have := (h.tables.dir d hd).1.1
    omega
  · rw [missing_absent habs]
    exact tk.lowFree

/-- **`paging_map_page`** of a page outside the direct window. -/
theorem MachInv.mapPage_ok (h : MachInv L dirs M) (pa flags : Nat) (hva : va < 2 ^ 32)
    (hwin : va / pageSize < 0xC0100 ∨ 0xC0400 ≤ va / pageSize)
    (hlow : isPresent (M.phys (pdFrame L) (va / pageSize / 1024)) = true ∨ 0 < lowFree M.pmm)
    (hnew : Family (va / pageSize) →
      FreshFor L M.phys M.pmm dirs (va / pageSize) (frameOf pa)) :
    ∃ M', pagingMapPage machMem L M va pa flags = some M' ∧
      MapEffect L dirs M M' (va / pageSize) (pteFor pa flags) := by
  obtain ⟨hfr, hpr⟩ := pteFor_spec pa flags
  by_cases hp : isPresent (M.phys (pdFrame L) (va / pageSize / 1024)) = true
  · exact ⟨_, h.mapPage_present hva hp,
      h.store_pte_effect (va_page_lt hva) hwin hp hpr fun hf => by rw [hfr]; exact hnew hf⟩
  · have hp' := Bool.eq_false_iff.mpr hp
    rcases h.tables.pmmAllocFrame_cases with ⟨ha, hnone⟩ | ⟨t, p', ha, tk⟩
    · -- no frame for the table
      exact ⟨M, h.mapPage_noFrame pa flags hva hp' ha, h, .inr ⟨rfl, hp', hnone⟩, fun _ _ _ => rfl,
        fun _ _ _ => rfl, fun _ _ => rfl, fun _ hg => hg, Nat.le_add_right _ _, Nat.le_succ _⟩
    · exact h.mapPage_newTable pa flags hva hwin hp' ha tk (hlow.resolve_left hp) hnew

/-! ## `paging_unmap_page` and `paging_get_physical` -/

structure UnmapEffect (L : Layout) (dirs : List Nat) (M M' : Machine) (v : Nat) : Prop where
  inv : MachInv L dirs M'
  here : walk M'.phys (pdFrame L) v = none
  others : ∀ u < 2 ^ 20, u ≠ v → walk M'.phys (pdFrame L) u = walk M.phys (pdFrame L) u
  slots : M'.phys (pdFrame L) = M.phys (pdFrame L)
  keeps : ∀ d ∈ dirs, M'.phys d = M.phys d
  pmm : M'.pmm = M.pmm

/-- **`paging_unmap_page`** of a page outside the direct window. -/
theorem MachInv.unmapPage_ok (h : MachInv L dirs M) (hva : va < 2 ^ 32)
    (hwin : va / pageSize < 0xC0100 ∨ 0xC0400 ≤ va / pageSize) :
    ∃ M', pagingUnmapPage machMem L M va = some M' ∧ UnmapEffect L dirs M M' (va / pageSize) := by
  have hv := va_page_lt hva
  have hs := page_slot hv
  unfold pagingUnmapPage
  simp only [va_slot, va_index, h.load_pd hs, Option.bind_eq_bind, Option.bind_some]
  by_cases hp : isPresent (M.phys (pdFrame L) (va / pageSize / 1024)) = true
  · obtain ⟨-, -, hne, hnd⟩ := h.tables.slot_frame hs hp
    rw [if_pos hp, h.store_table hs (by omega) hp]
    refine ⟨_, rfl, ⟨h.tables.store_pte hv hwin hp nofun, h.cr3⟩, ?_, fun u hu huv => ?_, ?_,
      fun d hd => ?_, rfl⟩
    · exact (h.tables.walk_store hv hp 0 hv).trans (if_pos rfl)
    · exact (h.tables.walk_store hv hp 0 hu).trans (if_neg huv)
    · exact Phys.store_frame hne.symm
    · exact Phys.store_frame fun heq => hnd (heq ▸ hd)
  · rw [if_neg hp]
    exact ⟨M, rfl, h, walk_absent (Bool.eq_false_iff.mpr hp), fun _ _ _ => rfl, rfl,
      fun _ _ => rfl, rfl⟩

/-- The physical address behind `va` through `page_directory`, `0` for none. -/
def physOf (L : Layout) (m : Phys) (va : Nat) : Nat :=
  match kmap L m (va / pageSize) with
  | some f => w32 (f * pageSize + va % pageSize)
  | none => 0

/-- **`paging_get_physical`** is the walk. -/
theorem MachInv.getPhysical_eq (h : MachInv L dirs M) (hva : va < 2 ^ 32) :
    pagingGetPhysical machMem L M va = some (physOf L M.phys va) := by
  have hs := page_slot (va_page_lt hva)
  unfold pagingGetPhysical physOf kmap walk
  simp only [va_slot, va_index, h.load_pd hs, Option.bind_eq_bind, Option.bind_some]
  by_cases hp : isPresent (M.phys (pdFrame L) (va / pageSize / 1024)) = true
  · rw [if_pos hp, if_pos hp, h.load_table hs (by omega) hp, Option.bind_some]
    split
    · rw [entryAddr_eq]; rfl
    · rfl
  · rw [if_neg hp, if_neg hp]; rfl

theorem physOf_page {m : Phys} {f : Nat} (hal : va % pageSize = 0)
    (hk : kmap L m (va / pageSize) = some f) (hf : f < 2 ^ 20) :
    physOf L m va = f * pageSize := by
  have hlt : f * pageSize < 2 ^ 32 := by unfold pageSize; omega
  unfold physOf
  rw [hk, hal]
  simp only [Nat.add_zero, w32_of_lt hlt]

theorem physOf_none {m : Phys} (hk : kmap L m (va / pageSize) = none) : physOf L m va = 0 := by
  unfold physOf; rw [hk]

/-! ## `paging_create_directory` -/

/-- The copy loop, by induction on the entries copied, wherever the new directory
is reached. -/
theorem MachInv.copyKernelHalf_ok {d e e' : Nat} (h : MachInv L dirs M) (hal : va % pageSize = 0)
    (hw : walk M.phys (pdFrame L) (va / pageSize) = some (e, e')) (hd : frameOf e' = d)
    (hva : va < 2 ^ 32) (hnt : ¬ TableFrame L M.phys d) : ∀ n, n ≤ 256 →
      ∃ M', copyKernelHalf machMem L M va n = some M' ∧
        MachInv L dirs M' ∧ M'.pmm = M.pmm ∧ (∀ g ≠ d, M'.phys g = M.phys g) ∧
        (∀ s < n, M'.phys d (768 + s) = M.phys (pdFrame L) (768 + s)) ∧
        ∀ s, s < 768 ∨ 768 + n ≤ s → M'.phys d s = M.phys d s
  | 0, _ => ⟨M, rfl, h, rfl, fun _ _ => rfl, nofun, fun _ _ => rfl⟩
  | n + 1, hn => by
    obtain ⟨M1, he, hi, hpm, hout, hin, hrest⟩ :=
      MachInv.copyKernelHalf_ok h hal hw hd hva hnt n (by omega)
    have htab : ∀ g, TableFrame L M.phys g → M1.phys g = M.phys g := fun g hg =>
      hout g fun heq => hnt (heq ▸ hg)
    have hpd : M1.phys (pdFrame L) = M.phys (pdFrame L) := htab _ (.inl rfl)
    have hw1 : walk M1.phys (frameOf M1.cr3) (va / pageSize) = some (e, e') := by
      rw [hi.cr3, walk_frame htab (va_page_lt hva)]
      exact hw
    rw [copyKernelHalf, he]
    simp only [Option.bind_eq_bind, Option.bind_some, hi.load_pd (show 768 + n < 1024 by omega)]
    have hstore := store_mapped hal hw1 (show 768 + n < 1024 by omega)
      (M1.phys (pdFrame L) (768 + n))
    rw [hd] at hstore
    refine ⟨_, hstore, ⟨hi.tables.frame fun g hg => ?_, hi.cr3⟩, hpm, fun g hg => ?_,
      fun s hs => ?_, fun s hs => ?_⟩
    · refine Phys.store_frame fun heq => hnt ?_
      have : TableFrame L M.phys g := by unfold TableFrame at hg ⊢; rwa [hpd] at hg
      exact heq ▸ this
    · exact (Phys.store_frame hg).trans (hout g hg)
    · by_cases hsn : s = n
      · subst hsn
        exact (Phys.store_same _ _ _ _).trans (by rw [hpd])
      · exact (Phys.store_index (by omega)).trans (hin s (by omega))
    · exact (Phys.store_index (by omega)).trans (hrest s (by omega))

theorem physToVirt_page (f : Nat) :
    physToVirt (f * pageSize) < 2 ^ 32 ∧ physToVirt (f * pageSize) % pageSize = 0 := by
  unfold physToVirt kernelVirtualBase w32 pageSize
  omega

/-- A directory in frame `f` is written to whatever frame `d` is mapped at
`PHYS_TO_VIRT(f)`. -/
theorem MachInv.createDirectory_at {f d e e' : Nat} {p' : Pmm} (h : MachInv L dirs M)
    (ha : pmmAllocFrame M.pmm = (f * pageSize, p')) (tk : TookFrame M.pmm p' f)
    (hw : walk M.phys (pdFrame L) (physToVirt (f * pageSize) / pageSize) = some (e, e'))
    (hd : frameOf e' = d) (hnt : ¬ TableFrame L M.phys d) :
    ∃ M', pagingCreateDirectory machMem L M = some (f * pageSize, M') ∧ MachInv L dirs M' ∧
      M'.pmm = p' ∧ (∀ g ≠ d, M'.phys g = M.phys g) ∧ (∀ s < 768, M'.phys d s = 2) ∧
      ∀ s, 768 ≤ s → s < 1024 → M'.phys d s = M.phys (pdFrame L) s := by
  obtain ⟨hva, hal⟩ := physToVirt_page f
  have hi := h.took tk
  have htab : ∀ g, TableFrame L M.phys g → M.phys.fill d 2 pageEntries g = M.phys g := fun g hg =>
    Phys.fill_frame fun heq => hnt (heq ▸ hg)
  obtain ⟨hpde, hp, -, -⟩ := walk_some.mp hw
  have hfill := fillWords_mapped (m := M.withPmm p') hal (by rw [hi.cr3]; exact hw)
    (by rw [hd, hi.cr3]; exact fun heq => hnt (.inl heq))
    (by rw [hd]; exact fun heq => hnt (.inr ⟨_, page_slot (va_page_lt hva), by rw [hpde]; exact hp,
      by rw [hpde]; exact heq.symm⟩)) 2 pageEntries (Nat.le_refl _)
  rw [hd] at hfill
  have hi1 : MachInv L dirs ((M.withPmm p').withPhys (M.phys.fill d 2 pageEntries)) :=
    ⟨hi.tables.frame htab, hi.cr3⟩
  have hpd : M.phys.fill d 2 pageEntries (pdFrame L) = M.phys (pdFrame L) := htab _ (.inl rfl)
  have hnt1 : ¬ TableFrame L (M.phys.fill d 2 pageEntries) d := by
    unfold TableFrame at hnt ⊢
    rwa [hpd]
  obtain ⟨M2, he2, hi2, hpm, hout, hin, hrest⟩ := hi1.copyKernelHalf_ok hal
    ((walk_frame htab (va_page_lt hva)).trans hw) hd hva hnt1 256 (Nat.le_refl _)
  refine ⟨M2, ?_, hi2, hpm, fun g hg => (hout g hg).trans (Phys.fill_frame hg), fun s hs => ?_,
    fun s hs hs' => ?_⟩
  · rw [pagingCreateDirectory_eq, machMem_alloc ha]
    simp only [tk.ne_zero h.tables, ↓reduceIte]
    rw [hfill, Option.bind_some]
    have he2' : copyKernelHalf machMem L ((M.withPmm p').withPhys ((M.withPmm p').phys.fill d 2
      pageEntries)) (physToVirt (f * pageSize)) 256 = some M2 := he2
    rw [he2', Option.bind_some]
  · rw [hrest s (.inl hs)]
    exact Phys.fill_in (by unfold pageEntries; omega)
  · obtain ⟨k, rfl⟩ : ∃ k, s = 768 + k := ⟨s - 768, by omega⟩
    rw [hin k (by omega)]
    exact congrFun hpd _

/-- **`paging_create_directory`**: no frame, or a directory of its own whose user
half is empty and whose kernel half is that of `page_directory`. -/
theorem MachInv.createDirectory_ok (h : MachInv L dirs M) (hl : 0 < lowFree M.pmm) :
    (pagingCreateDirectory machMem L M = some (0, M) ∧ reachable M.pmm = 0) ∨
    ∃ d M', pagingCreateDirectory machMem L M = some (d * pageSize, M') ∧ d * pageSize ≠ 0 ∧
      d ∉ dirs ∧ MachInv L (d :: dirs) M' ∧ TookFrame M.pmm M'.pmm d ∧
      (∀ g ≠ d, M'.phys g = M.phys g) ∧ (∀ s < 768, M'.phys d s = 2) ∧
      ∀ s, 768 ≤ s → s < 1024 → M'.phys d s = M.phys (pdFrame L) s := by
  rcases h.tables.pmmAllocFrame_cases with ⟨ha, hnone⟩ | ⟨d, p', ha, tk⟩
  · refine .inl ⟨?_, hnone⟩
    rw [pagingCreateDirectory_eq, machMem_alloc ha]
    rfl
  · right
    have hlt := (staticFrames L).pd_lt
    have hk := (kernelEndFrame_bounds L).1
    obtain ⟨ho, hm⟩ := tk.owned h.tables
    have htk := tk.taken h.tables hl
    have hge := ho.ge
    have hnt := h.tables.not_tableFrame hge ho.not_table
    -- the frame is in the direct window
    have hw := h.direct.walk (f := d) (by omega) htk.2.1
    rw [h.cr3, ← show physToVirt (d * pageSize) / pageSize = 0xC0000 + d by
      rw [physToVirt_low htk.2.1]; unfold pageSize; omega] at hw
    obtain ⟨M2, he, hi2, hpm, hsame, huser, hkern⟩ :=
      h.createDirectory_at ha tk hw (entry_frame d) hnt
    have hne : d ≠ pdFrame L := by omega
    refine ⟨d, M2, he, tk.ne_zero h.tables, ho.not_dir, ⟨?_, hi2.cr3⟩, by rw [hpm]; exact tk, hsame,
      huser, hkern⟩
    have hmt : ∀ f, IsTable L M2.phys f ↔ IsTable L M.phys f := fun f => by
      unfold IsTable; rw [hsame _ hne.symm]
    refine hi2.tables.addDir (by rw [hpm]; exact htk) ho.not_dir
      (fun hf => ho.not_table ((hmt d).mp hf)) fun u hu => ?_
    unfold kmap
    rw [walk_frame (fun g hg => hsame g fun heq => hnt (heq ▸ hg)) hu.1]
    exact hm u hu

end Reach

end TupleOS.Memory
