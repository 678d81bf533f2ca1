import TupleOS.Base.Run
import TupleOS.Memory.Tlb

/-!
# Runs with a translation cache

The paging code beside a cache, call by call and then over whole runs. A created
directory may be active: its present entries are those of `page_directory`
(`SpaceInv`), so an entry that is written shows at its own page only, in every
directory, and that page is the one that is invalidated. The frame that becomes a
table or a directory is off the active tables while it is filled.
-/

namespace TupleOS.Memory

open TupleOS.Base

/-! ## `paging_init` -/

section Init

variable (policy : CachePolicy) {L : Layout} {M : Machine} {f s t : Nat}

theorem bootStart_absent (L : Layout) (phys : Phys) (p : Pmm) (hs : s < 1024) (h0 : s ≠ 0)
    (h768 : s ≠ 768) : (bootStart L phys p).phys (imageFrame L.bootPageDirectory) s = 2 := by
  unfold bootStart
  simp only
  rw [Phys.store_index h768, Phys.store_index h0]
  exact Phys.fill_in hs

theorem bootStart_offTree (L : Layout) (phys : Phys) (p : Pmm)
    (hd : f ≠ imageFrame L.bootPageDirectory) (ht : f ≠ imageFrame L.bootPageTable) :
    OffTree (bootStart L phys p).phys (frameOf (bootStart L phys p).cr3) f := by
  obtain ⟨-, hcr3, htab⟩ := bootStart_direct L phys p
  rw [hcr3]
  refine ⟨hd, fun s hs hp heq => ?_⟩
  by_cases h768 : s = 768
  · subst h768
    exact ht (heq.symm.trans htab)
  · by_cases h0 : s = 0
    · subst h0
      have hentry : (bootStart L phys p).phys (imageFrame L.bootPageDirectory) 0 =
          imageFrame L.bootPageTable * pageSize + 3 := by
        unfold bootStart
        simp only
        rw [Phys.store_index (by omega), Phys.store_same]
      rw [hentry, entry_frame] at heq
      exact ht heq.symm
    · rw [bootStart_absent L phys p hs h0 h768] at hp
      cases hp

theorem fillTable_follows (h : Direct M) (ht : t < 4)
    (ho : OffTree M.phys (frameOf M.cr3) (ptFrame L t)) : ∀ n, n ≤ 1024 →
    ∃ m, fillTable machMem L M t n = some (M.withPhys m) ∧ SameTree M.phys m (frameOf M.cr3) ∧
      Follows (Cached.fillTable policy L t n) M Beyond () (M.withPhys m) Beyond
  | 0, _ => ⟨M.phys, rfl, .refl _ _, .pure ()⟩
  | n + 1, hn => by
    obtain ⟨m, he, hs, hf⟩ := fillTable_follows h ht ho n (by omega)
    have hL := staticFrames L
    have h1 : 256 ≤ ptFrame L t := by have := hL.pt_ge; unfold ptFrame at *; omega
    have h2 : ptFrame L t < 1024 := by
      have := hL.pt_lt; have := hL.end_le
      unfold ptFrame at *; omega
    have hstore := (h.same hs).store h1 h2 (i := n) (by omega)
    have hfollow := (h.same hs).store_follows policy h1 h2 (i := n) (by omega)
      (hs.offTree_iff.mpr ho)
    rw [← hL.pt_addr] at hstore hfollow
    refine ⟨_, ?_, hs.trans (hs.offTree_iff.mpr ho).store, hf.bind (hfollow _)⟩
    rw [fillTable, he, Option.bind_eq_bind, Option.bind_some]
    exact hstore _

theorem fillTables_follows (h : Direct M) (hpd : OffTree M.phys (frameOf M.cr3) (pdFrame L))
    (hpt : ∀ j < 4, OffTree M.phys (frameOf M.cr3) (ptFrame L j)) : ∀ t, t ≤ 4 →
    ∃ m, fillTables machMem L M t = some (M.withPhys m) ∧ SameTree M.phys m (frameOf M.cr3) ∧
      Follows (Cached.fillTables policy L t) M Beyond () (M.withPhys m) Beyond
  | 0, _ => ⟨M.phys, rfl, .refl _ _, .pure ()⟩
  | t + 1, ht => by
    obtain ⟨m, he, hs, hf⟩ := fillTables_follows h hpd hpt t (by omega)
    obtain ⟨m', he', hs', hf'⟩ := fillTable_follows policy (h.same hs) (by omega)
      (hs.offTree_iff.mpr (hpt t (by omega))) 1024 (Nat.le_refl _)
    have hL := staticFrames L
    have h2 : pdFrame L < 1024 := by have := hL.pd_lt; have := hL.end_le; omega
    have hs'' : SameTree M.phys m' (frameOf M.cr3) := hs.trans hs'
    have hstore := (h.same hs'').store hL.pd_ge h2 (i := 768 + t) (by omega)
    have hfollow := (h.same hs'').store_follows policy hL.pd_ge h2 (i := 768 + t) (by omega)
      (hs''.offTree_iff.mpr hpd)
    rw [← hL.pd_addr] at hstore hfollow
    refine ⟨_, ?_, hs''.trans (hs''.offTree_iff.mpr hpd).store, hf.bind (hf'.bind (hfollow _))⟩
    rw [fillTables, he, Option.bind_eq_bind, Option.bind_some]
    have he'' : fillTable machMem L (M.withPhys m) t pageEntries = some (M.withPhys m') := he'
    rw [he'', Option.bind_some]
    exact hstore _

/-- **`paging_init`** with a cache. -/
theorem pagingInit_follows (policy : CachePolicy) (L : Layout) (phys : Phys) (p : Pmm) :
    ∃ M, pagingInitLoad L (bootStart L phys p) = some M ∧
      Follows (Cached.pagingInit policy L) (bootStart L phys p) Beyond () M Beyond := by
  obtain ⟨hd, -, -⟩ := bootStart_direct L phys p
  have hB := bootFrames L
  have hL := staticFrames L
  have h2 : pdFrame L < 1024 := by have := hL.pd_lt; have := hL.end_le; omega
  have hpd := bootStart_offTree L phys p hB.pd.1 hB.pd.2
  have hpt : ∀ j < 4, OffTree (bootStart L phys p).phys (frameOf (bootStart L phys p).cr3)
      (ptFrame L j) := fun j hj => bootStart_offTree L phys p (hB.pt j hj).1 (hB.pt j hj).2
  generalize bootStart L phys p = M at *
  have hs : SameTree M.phys (M.phys.fill (pdFrame L) 2 pageEntries) (frameOf M.cr3) :=
    hpd.same fun _ hg => Phys.fill_frame hg
  have hfill := fillWords_direct hd hL.pd_ge h2 (hd.offWalk hpd) 2 (Nat.le_refl pageEntries)
  have hfill' := hd.fill_follows policy hL.pd_ge h2 hpd 2 pageEntries (Nat.le_refl _)
  rw [← hL.pd_addr] at hfill hfill'
  obtain ⟨m, he, -, hf⟩ := fillTables_follows policy (hd.same hs) (hs.offTree_iff.mpr hpd)
    (fun j hj => hs.offTree_iff.mpr (hpt j hj)) 4 (Nat.le_refl _)
  refine ⟨{ M with phys := m, cr3 := pagingGetDirectory L }, ?_,
    hfill'.bind (hf.bind (loadDirectory_follows _))⟩
  unfold pagingInitLoad pagingInit
  rw [hfill, Option.bind_eq_bind, Option.bind_some, he]
  rfl

end Init

/-! ## Directories and their copies -/

/-- Tables in place, with `page_directory` or a copy of it active. -/
structure SpaceInv (L : Layout) (dirs : List Nat) (M : Machine) : Prop where
  tables : TableInv L M.phys M.pmm dirs
  active : frameOf M.cr3 = pdFrame L ∨ frameOf M.cr3 ∈ dirs
  copies : ∀ d ∈ dirs, ∀ s < 1024, isPresent (M.phys d s) = true →
    M.phys d s = M.phys (pdFrame L) s
  window : ∀ d ∈ dirs, M.phys d 768 = M.phys (pdFrame L) 768

section Space

variable {L : Layout} {dirs : List Nat} {M : Machine} {f g i s t u v w va pa flags : Nat}

theorem MachInv.space (h : MachInv L [] M) : SpaceInv L [] M :=
  ⟨h.tables, .inl h.cr3, nofun, nofun⟩

namespace SpaceInv

theorem entry (h : SpaceInv L dirs M) (hs : s < 1024)
    (hp : isPresent (M.phys (frameOf M.cr3) s) = true) :
    M.phys (frameOf M.cr3) s = M.phys (pdFrame L) s := by
  rcases h.active with hc | hc
  · rw [hc]
  · exact h.copies _ hc s hs hp

theorem direct (h : SpaceInv L dirs M) : Direct M := by
  have h0 : M.phys (pdFrame L) 768 = ptFrame L 0 * pageSize + 3 := h.tables.static 0 (by omega)
  have hw : M.phys (frameOf M.cr3) 768 = ptFrame L 0 * pageSize + 3 := by
    rcases h.active with hc | hc
    · rw [hc, h0]
    · rw [h.window _ hc, h0]
  refine ⟨by rw [hw]; exact entry_present _, fun i h1 h2 => ?_⟩
  rw [hw, entry_frame]
  exact h.tables.window i h1 h2

theorem offTree (h : SpaceInv L dirs M) (ht : ¬ TableFrame L M.phys f) (hd : f ∉ dirs) :
    OffTree M.phys (frameOf M.cr3) f := by
  refine ⟨fun heq => ?_, fun s hs hp heq => ?_⟩
  · subst heq
    rcases h.active with hc | hc
    · exact ht (.inl hc)
    · exact hd hc
  · have he := h.entry hs hp
    rw [he] at hp heq
    exact ht (.inr ⟨s, hs, hp, heq⟩)

theorem pd_offTree (h : SpaceInv L dirs M) (hc : frameOf M.cr3 ≠ pdFrame L) :
    OffTree M.phys (frameOf M.cr3) (pdFrame L) := by
  refine ⟨hc.symm, fun s hs hp => ?_⟩
  have he := h.entry hs hp
  rw [he] at hp ⊢
  exact (h.tables.slot_frame hs hp).2.2.1

/-- **One table entry**: in the active directory too its page changes and no other. -/
theorem walk_store (h : SpaceInv L dirs M) (hv : v < 2 ^ 20)
    (hp : isPresent (M.phys (pdFrame L) (v / 1024)) = true) (w : Nat) (hu : u < 2 ^ 20)
    (huv : u ≠ v) :
    walk (M.phys.store (frameOf (M.phys (pdFrame L) (v / 1024))) (v % 1024) w) (frameOf M.cr3) u =
      walk M.phys (frameOf M.cr3) u := by
  obtain ⟨-, -, hne, hnd⟩ := h.tables.slot_frame (page_slot hv) hp
  have hoff : frameOf M.cr3 ≠ frameOf (M.phys (pdFrame L) (v / 1024)) := by
    rcases h.active with hc | hc
    · rw [hc]; exact hne.symm
    · exact fun heq => hnd (heq ▸ hc)
  refine walk_congr (by rw [Phys.store_frame hoff]) fun hp' => ?_
  have he := h.entry (page_slot hu) hp'
  rw [he] at hp' ⊢
  by_cases hf : frameOf (M.phys (pdFrame L) (u / 1024)) = frameOf (M.phys (pdFrame L) (v / 1024))
  · have hslot := h.tables.slot_inj (page_slot hu) (page_slot hv) hp' hp hf
    exact Phys.store_index fun hidx => huv (by rw [← page_split u, ← page_split v, hslot, hidx])
  · rw [Phys.store_frame hf]

theorem update {m : Phys} {p : Pmm} (h : SpaceInv L dirs M) (ht : TableInv L m p dirs)
    (hdirs : ∀ d ∈ dirs, m d = M.phys d)
    (hpd : ∀ s < 1024, isPresent (M.phys (pdFrame L) s) = true →
      m (pdFrame L) s = M.phys (pdFrame L) s) :
    SpaceInv L dirs ⟨m, M.cr3, p⟩ := by
  refine ⟨ht, h.active, fun d hd s hs hp => ?_, fun d hd => ?_⟩
  · show m d s = m (pdFrame L) s
    have hp' : isPresent (M.phys d s) = true := by rw [← hdirs d hd]; exact hp
    have he := h.copies d hd s hs hp'
    rw [hdirs d hd, he, hpd s hs (by rw [← he]; exact hp')]
  · show m d 768 = m (pdFrame L) 768
    have h0 : isPresent (M.phys (pdFrame L) 768) = true := by
      rw [show M.phys (pdFrame L) 768 = _ from h.tables.static 0 (by omega)]
      exact entry_present _
    rw [hdirs d hd, h.window d hd, hpd 768 (by omega) h0]

theorem withPmm {p : Pmm} (h : SpaceInv L dirs M) (ht : TableInv L M.phys p dirs) :
    SpaceInv L dirs (M.withPmm p) :=
  h.update ht (fun _ _ => rfl) fun _ _ _ => rfl

/-! ## Reaching the tables -/

theorem load_pd (h : SpaceInv L dirs M) (hs : s < 1024) :
    machMem.load M (L.pageDirectory + 4 * s) = some (M.phys (pdFrame L) s) := by
  have hL := staticFrames L
  have h1 := hL.pd_lt; have h2 := hL.end_le
  rw [hL.pd_addr]
  exact h.direct.load hL.pd_ge (by omega) hs

theorem load_pd_follows (h : SpaceInv L dirs M) (policy : CachePolicy) (hs : s < 1024) :
    Follows (Cached.load policy (L.pageDirectory + 4 * s)) M Beyond (M.phys (pdFrame L) s) M
      Beyond := by
  have hL := staticFrames L
  have h1 := hL.pd_lt; have h2 := hL.end_le
  rw [hL.pd_addr]
  exact h.direct.load_follows policy hL.pd_ge (by omega) hs

theorem table_addr (h : SpaceInv L dirs M) (hs : s < 1024)
    (hp : isPresent (M.phys (pdFrame L) s) = true) :
    physToVirt (entryAddr (M.phys (pdFrame L) s)) =
      0xC0000000 + frameOf (M.phys (pdFrame L) s) * pageSize := by
  rw [entryAddr_eq]
  exact physToVirt_low (h.tables.slot_frame hs hp).2.1

theorem edit_follows (h : SpaceInv L dirs M) (policy : CachePolicy) (hva : va < 2 ^ 32)
    (hp : isPresent (M.phys (pdFrame L) (va / pageSize / 1024)) = true) (w : Nat) :
    machMem.store M (physToVirt (entryAddr (M.phys (pdFrame L) (va / pageSize / 1024))) +
        4 * (va / pageSize % 1024)) w =
      some (M.withPhys (M.phys.store (frameOf (M.phys (pdFrame L) (va / pageSize / 1024)))
        (va / pageSize % 1024) w)) ∧
    Follows (do
        Cached.store policy (physToVirt (entryAddr (M.phys (pdFrame L) (va / pageSize / 1024))) +
          4 * (va / pageSize % 1024)) w
        Cached.pagingFlushTlb policy va) M Beyond ()
      (M.withPhys (M.phys.store (frameOf (M.phys (pdFrame L) (va / pageSize / 1024)))
        (va / pageSize % 1024) w)) Beyond := by
  have hv := va_page_lt hva
  obtain ⟨h1, h2, -, -⟩ := h.tables.slot_frame (page_slot hv) hp
  have hidx : va / pageSize % 1024 < 1024 := Nat.mod_lt _ (by omega)
  have hstore := h.direct.store h1 h2 hidx w
  rw [h.table_addr (page_slot hv) hp]
  -- in between, the translation of the page may be stale
  have hstale := store_follows policy (window_near h2 hidx) hstore
    (fun p (hb : Beyond p) => (.inl hb : Beyond p ∨ p = va / pageSize)) fun p hb =>
      h.walk_store hv hp w (Nat.lt_of_not_le (not_or.mp hb).1) (not_or.mp hb).2
  exact ⟨hstore, hstale.bind (flush_follows policy va)⟩

/-! ## `paging_map_page` -/

theorem store_pte (h : SpaceInv L dirs M) (hv : v < 2 ^ 20)
    (hwin : v < 0xC0100 ∨ 0xC0400 ≤ v) (hp : isPresent (M.phys (pdFrame L) (v / 1024)) = true)
    (hnew : Family v → isPresent w = true → FreshFor L M.phys M.pmm dirs v (frameOf w)) :
    SpaceInv L dirs
      (M.withPhys (M.phys.store (frameOf (M.phys (pdFrame L) (v / 1024))) (v % 1024) w)) := by
  obtain ⟨-, -, hne, hnd⟩ := h.tables.slot_frame (page_slot hv) hp
  exact h.update (h.tables.store_pte hv hwin hp hnew)
    (fun d hd => Phys.store_frame fun heq => hnd (heq ▸ hd))
    fun s _ _ => congrFun (Phys.store_frame hne.symm) s

theorem map_present (h : SpaceInv L dirs M) (policy : CachePolicy) (pa flags : Nat)
    (hva : va < 2 ^ 32) (hwin : va / pageSize < 0xC0100 ∨ 0xC0400 ≤ va / pageSize)
    (hp : isPresent (M.phys (pdFrame L) (va / pageSize / 1024)) = true)
    (hnew : Family (va / pageSize) →
      FreshFor L M.phys M.pmm dirs (va / pageSize) (frameOf pa)) :
    ∃ M', pagingMapPage machMem L M va pa flags = some M' ∧ SpaceInv L dirs M' ∧
      Follows (Cached.mapInTable policy L va pa flags) M Beyond () M' Beyond := by
  have hv := va_page_lt hva
  have hs := page_slot hv
  obtain ⟨hstore, hedit⟩ := h.edit_follows policy hva hp (pteFor pa flags)
  have hnext := h.store_pte (w := pteFor pa flags) hv hwin hp fun hf _ => by
    rw [(pteFor_spec pa flags).1]
    exact hnew hf
  refine ⟨_, ?_, hnext, ?_⟩
  · unfold pagingMapPage
    simp only [va_slot, va_index, h.load_pd hs, Option.bind_eq_bind, Option.bind_some, hp,
      ↓reduceIte]
    exact hstore
  · unfold Cached.mapInTable
    simp only [va_slot, va_index]
    exact (h.load_pd_follows policy hs).bind hedit

/-- A new table, cleared before it is entered. -/
theorem newTable_follows {p : Pmm} (h : SpaceInv L dirs M) (policy : CachePolicy)
    (flags : Nat) (hs : s < 1024) (habs : isPresent (M.phys (pdFrame L) s) = false)
    (ha : pmmAllocFrame M.pmm = (t * pageSize, p)) (tk : TookFrame M.pmm p t)
    (hl : 0 < lowFree M.pmm) :
    ∃ M', newPageTable machMem L M s flags = some (true, M') ∧ SpaceInv L dirs M' ∧
      M'.phys = enterTable L M.phys t s (pdeFor (t * pageSize) flags) ∧ M'.pmm = p ∧
      Follows (Cached.newPageTable policy L s flags) M Beyond true M' Beyond := by
  have hL := staticFrames L
  have hpd := hL.pd_lt; have hend := hL.end_le
  have hk := (kernelEndFrame_bounds L).1
  obtain ⟨hto, htm⟩ := tk.owned h.tables
  have htk := tk.taken h.tables hl
  have htge := hto.ge
  have hne : t ≠ pdFrame L := by omega
  have h0 := tk.ne_zero h.tables
  obtain ⟨hpf, hpp⟩ := pdeFor_spec t flags
  have hnt := h.tables.not_tableFrame htge hto.not_table
  have h1 := h.withPmm (tk.inv h.tables)
  have hoff : OffTree (M.withPmm p).phys (frameOf (M.withPmm p).cr3) t :=
    h1.offTree hnt hto.not_dir
  have hsame : SameTree (M.withPmm p).phys ((M.withPmm p).phys.fill t 0 pageEntries)
      (frameOf (M.withPmm p).cr3) := hoff.same fun _ hg => Phys.fill_frame hg
  -- the new entry changes no walk: its table is cleared
  have hwalk : ∀ u, ¬ Beyond u →
      walk (enterTable L M.phys t s (pdeFor (t * pageSize) flags)) (frameOf M.cr3) u =
        walk (M.phys.fill t 0 pageEntries) (frameOf M.cr3) u := by
    intro u hu
    have hu := Nat.lt_of_not_le hu
    by_cases hc : frameOf M.cr3 = pdFrame L
    · rw [hc, h.tables.walk_enter htge hto.not_table hpf habs hu, ← hc]
      exact (hsame.walk_eq hu).symm
    · exact (hsame.offTree_iff.mpr (h1.pd_offTree hc)).store.walk_eq hu
  have hstore := (h1.direct.same hsame).store hL.pd_ge (by omega) hs (pdeFor (t * pageSize) flags)
  have hdone : SpaceInv L dirs ((M.withPmm p).withPhys
      (enterTable L M.phys t s (pdeFor (t * pageSize) flags))) := by
    refine h1.update ((tk.inv h.tables).enter (h.tables.dyn_of_absent hs habs) habs htk
      hto.not_dir hto.not_table htm hpf) (fun d hd => ?_) fun x _ hx => ?_
    · have hdge := (h.tables.dir d hd).1.1
      exact enterTable_frame (by omega) fun heq => hto.not_dir (heq ▸ hd)
    · refine enterTable_pd hne ?_
      rintro rfl
      exact Bool.false_ne_true (habs.symm.trans hx)
  have hfill := fillWords_direct h1.direct (by omega) htk.2.1 (h1.direct.offWalk hoff) 0
    (Nat.le_refl pageEntries)
  refine ⟨_, ?_, hdone, rfl, rfl, ?_⟩
  · rw [newPageTable_eq, machMem_alloc ha]
    simp only [h0, ↓reduceIte, physToVirt_low htk.2.1, hfill, Option.bind_some]
    rw [hL.pd_addr]
    exact congrArg (fun o => o.bind fun t' => some (true, t')) hstore
  · unfold Cached.newPageTable
    refine (alloc_follows ha).bind ?_
    simp only [h0, ↓reduceIte, physToVirt_low htk.2.1]
    refine (h1.direct.fill_follows policy (by omega) htk.2.1 hoff 0 pageEntries
      (Nat.le_refl _)).bind (Follows.bind (a := ()) ?_ (.pure true))
    rw [hL.pd_addr]
    exact store_follows policy (window_near (by omega) hs) hstore (fun _ hb => hb) hwalk

/-- **`paging_map_page`** with a cache. -/
theorem map_follows (h : SpaceInv L dirs M) (policy : CachePolicy) (pa flags : Nat)
    (hva : va < 2 ^ 32) (hwin : va / pageSize < 0xC0100 ∨ 0xC0400 ≤ va / pageSize)
    (hlow : isPresent (M.phys (pdFrame L) (va / pageSize / 1024)) = true ∨ 0 < lowFree M.pmm)
    (hnew : Family (va / pageSize) →
      FreshFor L M.phys M.pmm dirs (va / pageSize) (frameOf pa)) :
    ∃ M', pagingMapPage machMem L M va pa flags = some M' ∧ SpaceInv L dirs M' ∧
      Follows (Cached.pagingMapPage policy L va pa flags) M Beyond () M' Beyond := by
  have hs := page_slot (va_page_lt hva)
  have hload := h.load_pd_follows policy hs
  rw [← va_slot] at hload
  unfold Cached.pagingMapPage
  by_cases hp : isPresent (M.phys (pdFrame L) (va / pageSize / 1024)) = true
  · obtain ⟨M', he, hi, hf⟩ := h.map_present policy pa flags hva hwin hp hnew
    refine ⟨M', he, hi, hload.bind ?_⟩
    rw [va_slot, if_pos hp]
    exact (Follows.pure true).bind hf
  · have habs := Bool.eq_false_iff.mpr hp
    rcases h.tables.pmmAllocFrame_cases with ⟨ha, -⟩ | ⟨t, p, ha, tk⟩
    · -- no frame for the table
      have hnone : newPageTable machMem L M (va / 2 ^ 22) flags = some (false, M) := by
        rw [newPageTable_eq, machMem_alloc ha]
        rfl
      refine ⟨M, pagingMapPage_noTable (by rw [va_slot]; exact h.load_pd hs) habs hnone, h,
        hload.bind ?_⟩
      rw [va_slot, if_neg hp]
      refine Follows.bind (a := false) ?_ (.pure ())
      unfold Cached.newPageTable
      exact (alloc_follows ha).bind (.pure false)
    · obtain ⟨M₁, he₁, hi₁, hphys, hpm, hf₁⟩ := h.newTable_follows policy flags hs habs ha tk
        (hlow.resolve_left hp)
      obtain ⟨hpf, hpp⟩ := pdeFor_spec t flags
      have hp₁ : isPresent (M₁.phys (pdFrame L) (va / pageSize / 1024)) = true := by
        rw [hphys, enterTable_self]
        exact hpp
      obtain ⟨M', he, hi, hf⟩ := hi₁.map_present policy pa flags hva hwin hp₁ fun hfam => by
        rw [hphys, hpm]
        exact (hnew hfam).enter h.tables tk hpf habs
      refine ⟨M', ?_, hi, hload.bind ?_⟩
      · rw [pagingMapPage_newTable (by rw [va_slot]; exact h.load_pd hs) habs
          (by rw [va_slot]; exact he₁) (by rw [va_slot]; exact hi₁.load_pd hs) hp₁]
        exact he
      · rw [va_slot, if_neg hp]
        exact hf₁.bind hf

/-! ## The other calls -/

/-- **`paging_unmap_page`** with a cache. -/
theorem unmap_follows (h : SpaceInv L dirs M) (policy : CachePolicy) (hva : va < 2 ^ 32)
    (hwin : va / pageSize < 0xC0100 ∨ 0xC0400 ≤ va / pageSize) :
    ∃ M', pagingUnmapPage machMem L M va = some M' ∧ SpaceInv L dirs M' ∧
      Follows (Cached.pagingUnmapPage policy L va) M Beyond () M' Beyond := by
  have hv := va_page_lt hva
  have hs := page_slot hv
  have hload := h.load_pd_follows policy hs
  unfold pagingUnmapPage Cached.pagingUnmapPage
  simp only [va_slot, va_index, h.load_pd hs, Option.bind_eq_bind, Option.bind_some]
  by_cases hp : isPresent (M.phys (pdFrame L) (va / pageSize / 1024)) = true
  · obtain ⟨hstore, hedit⟩ := h.edit_follows policy hva hp 0
    rw [if_pos hp]
    refine ⟨_, hstore, h.store_pte hv hwin hp nofun, hload.bind ?_⟩
    rw [if_pos hp]
    exact hload.bind hedit
  · rw [if_neg hp]
    refine ⟨M, rfl, h, hload.bind ?_⟩
    rw [if_neg hp]
    exact .pure ()

/-- **`paging_get_physical`** with a cache. -/
theorem physical_follows (h : SpaceInv L dirs M) (policy : CachePolicy) (hva : va < 2 ^ 32) :
    ∃ a, pagingGetPhysical machMem L M va = some a ∧
      Follows (Cached.pagingGetPhysical policy L va) M Beyond a M Beyond := by
  have hs := page_slot (va_page_lt hva)
  have hload := h.load_pd_follows policy hs
  unfold pagingGetPhysical Cached.pagingGetPhysical
  simp only [va_slot, va_index, h.load_pd hs, Option.bind_eq_bind, Option.bind_some]
  by_cases hp : isPresent (M.phys (pdFrame L) (va / pageSize / 1024)) = true
  · obtain ⟨h1, h2, -, -⟩ := h.tables.slot_frame hs hp
    have hidx : va / pageSize % 1024 < 1024 := Nat.mod_lt _ (by omega)
    have hpte := h.direct.load_follows policy h1 h2 hidx
    rw [← h.table_addr hs hp] at hpte
    have hpte' := h.direct.load h1 h2 hidx
    rw [← h.table_addr hs hp] at hpte'
    rw [if_pos hp, hpte', Option.bind_some]
    by_cases hq : isPresent (M.phys (frameOf (M.phys (pdFrame L) (va / pageSize / 1024)))
        (va / pageSize % 1024)) = true
    · rw [if_pos hq]
      refine ⟨_, rfl, hload.bind ?_⟩
      rw [if_pos hp]
      refine hload.bind (hpte.bind ?_)
      rw [if_pos hq]
      exact hpte.bind (.pure _)
    · rw [if_neg hq]
      refine ⟨_, rfl, hload.bind ?_⟩
      rw [if_pos hp]
      refine hload.bind (hpte.bind ?_)
      rw [if_neg hq]
      exact .pure 0
  · rw [if_neg hp]
    refine ⟨_, rfl, hload.bind ?_⟩
    rw [if_neg hp]
    exact .pure 0

theorem write {m : Phys} (h : SpaceInv L dirs M) (ht : ¬ TableFrame L M.phys f) (hd : f ∉ dirs)
    (hout : ∀ g ≠ f, m g = M.phys g) : SpaceInv L dirs (M.withPhys m) := by
  have htab : ∀ g, TableFrame L M.phys g → m g = M.phys g := fun g hg =>
    hout g fun heq => ht (heq ▸ hg)
  exact h.update (h.tables.frame htab) (fun d hd' => hout d fun heq => hd (heq ▸ hd'))
    fun s _ _ => congrFun (htab _ (.inl rfl)) s

theorem copy_follows (h : SpaceInv L dirs M) (policy : CachePolicy) (h1 : 256 ≤ f) (h2 : f < 1024)
    (ht : ¬ TableFrame L M.phys f) (hd : f ∉ dirs) : ∀ n, n ≤ 256 →
    ∃ m, copyKernelHalf machMem L M (0xC0000000 + f * pageSize) n = some (M.withPhys m) ∧
      (∀ g ≠ f, m g = M.phys g) ∧ (∀ s < n, m f (768 + s) = M.phys (pdFrame L) (768 + s)) ∧
      (∀ s < 768, m f s = M.phys f s) ∧
      Follows (Cached.copyKernelHalf policy L (0xC0000000 + f * pageSize) n) M Beyond ()
        (M.withPhys m) Beyond
  | 0, _ => ⟨M.phys, rfl, fun _ _ => rfl, nofun, fun _ _ => rfl, .pure ()⟩
  | n + 1, hn => by
    obtain ⟨m, he, hout, hin, hlow, hf⟩ := copy_follows h policy h1 h2 ht hd n (by omega)
    have hi : SpaceInv L dirs (M.withPhys m) := h.write ht hd hout
    have hpd : m (pdFrame L) = M.phys (pdFrame L) := hout _ fun heq => ht (.inl heq.symm)
    have hoff : OffTree m (frameOf M.cr3) f :=
      ((h.offTree ht hd).same hout).offTree_iff.mpr (h.offTree ht hd)
    have hslot : 768 + n < 1024 := by omega
    have hstore := hi.direct.store h1 h2 hslot (m (pdFrame L) (768 + n))
    refine ⟨_, ?_, fun g hg => (Phys.store_frame hg).trans (hout g hg), fun s hs => ?_,
      fun s hs => (Phys.store_index (by omega)).trans (hlow s hs),
      hf.bind ((hi.load_pd_follows policy hslot).bind
        (hi.direct.store_follows policy h1 h2 hslot hoff _))⟩
    · rw [copyKernelHalf, he]
      simp only [Option.bind_eq_bind, Option.bind_some, hi.load_pd hslot]
      exact hstore
    · show m.store f (768 + n) (m (pdFrame L) (768 + n)) f (768 + s) = _
      by_cases hsn : s = n
      · rw [hsn, Phys.store_same, hpd]
      · rw [Phys.store_index (by omega)]
        exact hin s (by omega)

theorem addCopy (h : SpaceInv L dirs M) (htk : Taken L M.pmm f) (hd : f ∉ dirs)
    (ht : ¬ IsTable L M.phys f) (hm : ∀ u, Family u → kmap L M.phys u ≠ some f)
    (hlow : ∀ s < 768, M.phys f s = 2)
    (hhigh : ∀ s < 256, M.phys f (768 + s) = M.phys (pdFrame L) (768 + s)) :
    SpaceInv L (f :: dirs) M := by
  refine ⟨h.tables.addDir htk hd ht hm, h.active.imp id (List.mem_cons_of_mem f),
    List.forall_mem_cons.mpr ⟨fun s hs hp => ?_, h.copies⟩,
    List.forall_mem_cons.mpr ⟨hhigh 0 (by omega), h.window⟩⟩
  by_cases hs768 : s < 768
  · rw [hlow s hs768] at hp
    cases hp
  · obtain ⟨k, rfl⟩ : ∃ k, s = 768 + k := ⟨s - 768, by omega⟩
    exact hhigh k (by omega)

/-- **`paging_create_directory`** with a cache. -/
theorem create_follows (h : SpaceInv L dirs M) (policy : CachePolicy) (hl : 0 < lowFree M.pmm) :
    ∃ a M', pagingCreateDirectory machMem L M = some (a, M') ∧
      SpaceInv L (if a = 0 then dirs else frameOf a :: dirs) M' ∧
      Follows (Cached.pagingCreateDirectory policy L) M Beyond a M' Beyond := by
  rw [pagingCreateDirectory_eq]
  unfold Cached.pagingCreateDirectory
  rcases h.tables.pmmAllocFrame_cases with ⟨ha, -⟩ | ⟨d, p, ha, tk⟩
  · rw [machMem_alloc ha]
    exact ⟨0, M, rfl, h, (alloc_follows ha).bind (.pure 0)⟩
  · have hk := (kernelEndFrame_bounds L).1
    have hpdlt := (staticFrames L).pd_lt
    obtain ⟨ho, hm⟩ := tk.owned h.tables
    have htk := tk.taken h.tables hl
    have hge := ho.ge
    have h0 := tk.ne_zero h.tables
    have hnt : ¬ TableFrame L (M.withPmm p).phys d := h.tables.not_tableFrame hge ho.not_table
    have h1 := h.withPmm (tk.inv h.tables)
    have hoff := h1.offTree hnt ho.not_dir
    have hfill := fillWords_direct h1.direct (by omega) htk.2.1 (h1.direct.offWalk hoff) 2
      (Nat.le_refl pageEntries)
    have hfill' := h1.direct.fill_follows policy (by omega) htk.2.1 hoff 2 pageEntries
      (Nat.le_refl _)
    have hout : ∀ g ≠ d, M.phys.fill d 2 pageEntries g = M.phys g := fun g hg =>
      Phys.fill_frame hg
    have h2 : SpaceInv L dirs ((M.withPmm p).withPhys (M.phys.fill d 2 pageEntries)) :=
      h1.write hnt ho.not_dir hout
    have hpd : M.phys.fill d 2 pageEntries (pdFrame L) = M.phys (pdFrame L) := hout _ (by omega)
    have hnt2 : ¬ TableFrame L (M.phys.fill d 2 pageEntries) d := by
      unfold TableFrame at hnt ⊢
      rwa [hpd]
    obtain ⟨m, he, hout', hin, hlow, hf⟩ := h2.copy_follows policy (by omega) htk.2.1 hnt2
      ho.not_dir 256 (Nat.le_refl _)
    have h3 : SpaceInv L dirs ((M.withPmm p).withPhys m) := h2.write hnt2 ho.not_dir hout'
    have hframe : frameOf (d * pageSize) = d := Nat.mul_div_cancel d (by decide)
    refine ⟨d * pageSize, (M.withPmm p).withPhys m, ?_, ?_, ?_⟩
    · rw [machMem_alloc ha]
      simp only [h0, ↓reduceIte, physToVirt_low htk.2.1, hfill, Option.bind_some]
      exact congrArg (fun o => o.bind fun t' => some (d * pageSize, t')) he
    · rw [if_neg h0, hframe]
      have hsame : ∀ g ≠ d, m g = M.phys g := fun g hg => (hout' g hg).trans (hout g hg)
      refine h3.addCopy htk ho.not_dir (fun hx => ho.not_table ?_) (fun u hu => ?_)
        (fun s hs => (hlow s hs).trans (Phys.fill_in (by unfold pageEntries; omega)))
        fun s hs => ?_
      · unfold IsTable at hx ⊢
        rwa [← hsame (pdFrame L) (by omega)]
      · have hwalk : kmap L m u = kmap L M.phys u := by
          unfold kmap
          rw [walk_frame (fun g hg => hsame g fun heq => hnt (heq ▸ hg)) hu.1]
        exact hwalk ▸ hm u hu
      · exact (hin s hs).trans (congrFun (hout' (pdFrame L) (by omega)).symm _)
    · refine (alloc_follows ha).bind ?_
      simp only [h0, ↓reduceIte, physToVirt_low htk.2.1]
      exact hfill'.bind (hf.bind (.pure _))

end SpaceInv

end Space

/-! ## Runs -/

/-- A paging call, a call of the frame allocator, or an access. -/
inductive SpaceOp where
  | map (virtualAddr physicalAddr flags : Nat)
  | unmap (virtualAddr : Nat)
  | physical (virtualAddr : Nat)
  | create
  | switch (dirPhys : Nat)
  | alloc
  | free (frameAddr : Nat)
  | read (va : Nat)
  | write (va w : Nat)

/-- The machine without a cache, and the directories created on it. -/
structure Spaces where
  mach : Machine
  dirs : List Nat

/-- A write at a virtual address, `none` for a fault. -/
def Spaces.write (s : Spaces) (va w : Nat) : Option Nat × Spaces :=
  match machMem.store s.mach va w with
  | some M => (some 0, { s with mach := M })
  | none => (none, s)

def Core.read (policy : CachePolicy) (c : Core) (va : Nat) : Option Nat × Core :=
  match Cached.load policy va c with
  | some r => (some r.1, r.2)
  | none => (none, c.tick policy)

def Core.write (policy : CachePolicy) (c : Core) (va w : Nat) : Option Nat × Core :=
  match Cached.store policy va w c with
  | some r => (some 0, r.2)
  | none => (none, c.tick policy)

/-- The call without a cache. It returns `0` for a `void` function and `none` for an
access that faults. -/
def spaceCall (L : Layout) (s : Spaces) : SpaceOp → Option (Option Nat × Spaces)
  | .map virtualAddr physicalAddr flags =>
    (pagingMapPage machMem L s.mach virtualAddr physicalAddr flags).map fun M =>
      (some 0, { s with mach := M })
  | .unmap virtualAddr => (pagingUnmapPage machMem L s.mach virtualAddr).map fun M =>
      (some 0, { s with mach := M })
  | .physical virtualAddr => (pagingGetPhysical machMem L s.mach virtualAddr).map fun a =>
      (some a, s)
  | .create => (pagingCreateDirectory machMem L s.mach).map fun r =>
      (some r.1, ⟨r.2, if r.1 = 0 then s.dirs else frameOf r.1 :: s.dirs⟩)
  | .switch dirPhys => some (some 0, { s with mach := { s.mach with cr3 := dirPhys } })
  | .alloc => some (some (pmmAllocFrame s.mach.pmm).1,
      { s with mach := s.mach.withPmm (pmmAllocFrame s.mach.pmm).2 })
  | .free frameAddr => some (some 0,
      { s with mach := s.mach.withPmm (pmmFreeFrame s.mach.pmm frameAddr) })
  | .read va => some (machMem.load s.mach va, s)
  | .write va w => some (s.write va w)

/-- The call with a cache. `paging_switch_directory` is the loading of CR3. -/
def coreCall (policy : CachePolicy) (L : Layout) (c : Core) : SpaceOp → Option (Option Nat × Core)
  | .map virtualAddr physicalAddr flags =>
    (Cached.pagingMapPage policy L virtualAddr physicalAddr flags c).map fun r => (some 0, r.2)
  | .unmap virtualAddr => (Cached.pagingUnmapPage policy L virtualAddr c).map fun r =>
      (some 0, r.2)
  | .physical virtualAddr => (Cached.pagingGetPhysical policy L virtualAddr c).map fun r =>
      (some r.1, r.2)
  | .create => (Cached.pagingCreateDirectory policy L c).map fun r => (some r.1, r.2)
  | .switch dirPhys => (Cached.pagingLoadDirectory dirPhys c).map fun r => (some 0, r.2)
  | .alloc => (Cached.pmmAllocFrame c).map fun r => (some r.1, r.2)
  | .free frameAddr => some (some 0,
      { c with mach := c.mach.withPmm (pmmFreeFrame c.mach.pmm frameAddr) })
  | .read va => some (c.read policy va)
  | .write va w => some (c.write policy va w)

/-- What the callers see to: table pages are left alone and come from below 4 MB, a
page of the VMM gets a frame of its own, and no frame is given back that is mapped. -/
def SpaceOp.Ok (L : Layout) (s : Spaces) : SpaceOp → Prop
  | .map v p _ => v < 2 ^ 32 ∧ OffWindow v ∧
      (isPresent (s.mach.phys (pdFrame L) (v / pageSize / 1024)) = true ∨ 0 < lowFree s.mach.pmm) ∧
      (Family (v / pageSize) →
        FreshFor L s.mach.phys s.mach.pmm s.dirs (v / pageSize) (frameOf p))
  | .unmap v => v < 2 ^ 32 ∧ OffWindow v
  | .physical v => v < 2 ^ 32
  | .create => 0 < lowFree s.mach.pmm
  | .switch d => frameOf d = pdFrame L ∨ frameOf d ∈ s.dirs
  | .alloc => True
  | .free a => frameOf a < maxFrames → kernelEndFrame L ≤ frameOf a ∧ frameOf a ∉ s.dirs ∧
      ¬ IsTable L s.mach.phys (frameOf a) ∧
      ∀ u, Family u → kmap L s.mach.phys u ≠ some (frameOf a)
  | .read va => va < 2 ^ 32
  | .write va _ => va < 2 ^ 32 ∧ ∀ f, s.mach.frameAt va = some f →
      ¬ TableFrame L s.mach.phys f ∧ f ∉ s.dirs

section Runs

variable (policy : CachePolicy) {L : Layout} {s s' : Spaces} {c : Core} {M M' : Machine}
  {S S' : Nat → Prop} {α : Type} {x : CoreM α} {a : α} {va w : Nat}

/-- The cache stands beside the machine, and the tables are in place. -/
structure Beside (L : Layout) (s : Spaces) (c : Core) : Prop where
  inv : SpaceInv L s.dirs s.mach
  stands : Stands c s.mach Beyond

theorem Follows.call {β : Type} (h : Follows x M S a M' S') (hc : Stands c M S) (f : α → β) :
    ∃ c', ((x c).map fun r => (f r.1, r.2)) = some (f a, c') ∧ Stands c' M' S' := by
  obtain ⟨c', he, hc'⟩ := h c hc
  exact ⟨c', by rw [he]; rfl, hc'⟩

theorem Stands.fault (h : Stands c M S) (hS : ¬ S (va / pageSize)) (hf : M.frameAt va = none) :
    Cached.load policy va c = none ∧ Cached.store policy va w c = none := by
  have ht := (h.tick policy).frameAt hS
  rw [hf] at ht
  constructor
  · show ((c.tick policy).frameAt va).map _ = none
    rw [ht]
    rfl
  · show ((c.tick policy).frameAt va).map _ = none
    rw [ht]
    rfl

theorem Beside.alloc (h : Beside L s c) : ∃ c', coreCall policy L c .alloc =
      some (some (pmmAllocFrame s.mach.pmm).1, c') ∧
    Beside L { s with mach := s.mach.withPmm (pmmAllocFrame s.mach.pmm).2 } c' := by
  have ht : TableInv L s.mach.phys (pmmAllocFrame s.mach.pmm).2 s.dirs := by
    rcases h.inv.tables.pmmAllocFrame_cases with ⟨ha, -⟩ | ⟨t, p, ha, tk⟩
    · rw [ha]; exact h.inv.tables
    · rw [ha]; exact tk.inv h.inv.tables
  obtain ⟨c', he, hc'⟩ := (alloc_follows (M := s.mach) rfl).call h.stands some
  exact ⟨c', he, h.inv.withPmm ht, hc'⟩

theorem Beside.read (h : Beside L s c) (hva : va < 2 ^ 32) :
    ∃ c', c.read policy va = (machMem.load s.mach va, c') ∧ Beside L s c' := by
  have hS : ¬ Beyond (va / pageSize) := Nat.not_le.mpr (va_page_lt hva)
  unfold Core.read
  cases hl : machMem.load s.mach va with
  | none =>
    rw [(h.stands.fault policy (w := 0) hS (Option.map_eq_none_iff.mp hl)).1]
    exact ⟨_, rfl, h.inv, h.stands.tick policy⟩
  | some w =>
    obtain ⟨c', he, hc'⟩ := load_follows policy hS hl c h.stands
    rw [he]
    exact ⟨c', rfl, h.inv, hc'⟩

theorem Beside.write (h : Beside L s c) (hok : (SpaceOp.write va w).Ok L s) :
    ∃ c', c.write policy va w = ((s.write va w).1, c') ∧ Beside L (s.write va w).2 c' := by
  obtain ⟨hva, hoff⟩ := hok
  have hS : ¬ Beyond (va / pageSize) := Nat.not_le.mpr (va_page_lt hva)
  unfold Core.write Spaces.write
  cases hl : machMem.store s.mach va w with
  | none =>
    rw [(h.stands.fault policy hS (Option.map_eq_none_iff.mp hl)).2]
    exact ⟨_, rfl, h.inv, h.stands.tick policy⟩
  | some M =>
    obtain ⟨f, hf, rfl⟩ := Option.map_eq_some_iff.mp hl
    obtain ⟨ht, hd⟩ := hoff f hf
    -- the frame is off the active tables
    have hsame : SameTree s.mach.phys (s.mach.phys.store f (va % pageSize / 4) w)
        (frameOf s.mach.cr3) := (h.inv.offTree ht hd).store
    obtain ⟨c', he, hc'⟩ := store_follows policy hS hl (fun _ hb => hb)
      (fun p hp => hsame.walk_eq (Nat.lt_of_not_le hp)) c h.stands
    rw [he]
    exact ⟨c', rfl, h.inv.write ht hd fun g hg => Phys.store_frame hg, hc'⟩

/-- **One call** returns the same with the cache and leaves it beside the machine. -/
theorem Beside.step (h : Beside L s c) {o : SpaceOp} {r : Option Nat} (hok : o.Ok L s)
    (he : spaceCall L s o = some (r, s')) :
    ∃ c', coreCall policy L c o = some (r, c') ∧ Beside L s' c' := by
  cases o with
  | map v p fl =>
    obtain ⟨hv, hwin, hlow, hnew⟩ := hok
    obtain ⟨M', hm, hi, hf⟩ := h.inv.map_follows policy p fl hv hwin hlow hnew
    rw [spaceCall, hm] at he
    cases he
    obtain ⟨c', hc, hc'⟩ := hf.call h.stands fun _ => some 0
    exact ⟨c', hc, hi, hc'⟩
  | unmap v =>
    obtain ⟨M', hm, hi, hf⟩ := h.inv.unmap_follows policy hok.1 hok.2
    rw [spaceCall, hm] at he
    cases he
    obtain ⟨c', hc, hc'⟩ := hf.call h.stands fun _ => some 0
    exact ⟨c', hc, hi, hc'⟩
  | physical v =>
    obtain ⟨a, hm, hf⟩ := h.inv.physical_follows policy hok
    rw [spaceCall, hm] at he
    cases he
    obtain ⟨c', hc, hc'⟩ := hf.call h.stands some
    exact ⟨c', hc, h.inv, hc'⟩
  | create =>
    obtain ⟨a, M', hm, hi, hf⟩ := h.inv.create_follows policy hok
    rw [spaceCall, hm] at he
    cases he
    obtain ⟨c', hc, hc'⟩ := hf.call h.stands some
    exact ⟨c', hc, hi, hc'⟩
  | switch d =>
    cases he
    obtain ⟨c', hc, hc'⟩ := (loadDirectory_follows d).call h.stands fun _ => some 0
    exact ⟨c', hc, ⟨h.inv.tables, hok, h.inv.copies, h.inv.window⟩, hc'⟩
  | alloc =>
    cases he
    exact h.alloc policy
  | free a =>
    cases he
    refine ⟨_, rfl, h.inv.withPmm (h.inv.tables.release hok), ?_, h.stands.fresh⟩
    rw [h.stands.mach]
  | read va =>
    cases he
    obtain ⟨c', hc, hc'⟩ := h.read policy hok
    exact ⟨c', congrArg some hc, hc'⟩
  | write va w =>
    obtain ⟨c', hc, hc'⟩ := h.write policy hok
    rw [Option.some.inj he] at hc hc'
    exact ⟨c', congrArg some hc, hc'⟩

theorem run_beside (L : Layout) {phys : Phys} {p : Pmm} {l : List (SpaceOp × Option Nat)}
    (hr : p.Reserves L) (ht : p.totalFrames ≤ 32784)
    (hboot : pagingInitLoad L (bootStart L phys p) = some M)
    (hrun : Calls (spaceCall L) (SpaceOp.Ok L) ⟨M, []⟩ l s) :
    ∃ c₁ c, Cached.pagingInit policy L ⟨bootStart L phys p, Tlb.empty, 0⟩ = some ((), c₁) ∧
      Calls (coreCall policy L) (fun _ _ => True) c₁ l c ∧ Beside L s c := by
  obtain ⟨M₁, hM₁, htab, hcr3, hpm⟩ := pagingInitLoad_ok L phys p
  obtain ⟨M₂, hM₂, hfollow⟩ := pagingInit_follows policy L phys p
  obtain rfl : M₁ = M := Option.some.inj (hM₁.symm.trans hboot)
  obtain rfl : M₂ = M₁ := Option.some.inj (hM₂.symm.trans hboot)
  obtain ⟨c₁, hc₁, hst⟩ := hfollow ⟨bootStart L phys p, Tlb.empty, 0⟩ ⟨rfl, Tlb.fresh_empty⟩
  have hi : MachInv L [] M₂ := htab.inv hcr3 (by rw [hpm]; exact hr) (by rw [hpm]; exact ht)
  have hstart : Beside L ⟨M₂, []⟩ c₁ := ⟨hi.space, hst⟩
  obtain ⟨c, hcalls, hb⟩ := hrun.simulate (Beside L)
    (fun _ _ _ _ _ h hok he => h.step policy hok he) hstart
  exact ⟨c₁, c, hc₁, hcalls, hb⟩

/-- **The cache is invisible**: from `_start` on, with whatever it keeps or looks up
in advance, every run returns and stores what it does without it, faults included,
and no cached translation is stale. -/
theorem tlb_invisible (L : Layout) {phys : Phys} {p : Pmm}
    {l : List (SpaceOp × Option Nat)} (hr : p.Reserves L) (ht : p.totalFrames ≤ 32784)
    (hboot : pagingInitLoad L (bootStart L phys p) = some M)
    (hrun : Calls (spaceCall L) (SpaceOp.Ok L) ⟨M, []⟩ l s) :
    ∃ c₁ c, Cached.pagingInit policy L ⟨bootStart L phys p, Tlb.empty, 0⟩ = some ((), c₁) ∧
      Calls (coreCall policy L) (fun _ _ => True) c₁ l c ∧ c.mach = s.mach ∧
      ∀ page < 2 ^ 20, ∀ e, c.tlb page = some e → c.walk page = some e := by
  obtain ⟨c₁, c, hc₁, hcalls, hb⟩ := run_beside policy L hr ht hboot hrun
  refine ⟨c₁, c, hc₁, hcalls, hb.stands.mach, fun page hpage e he => ?_⟩
  rw [hb.stands.walk_eq]
  exact hb.stands.fresh page e (Nat.not_le.mpr hpage) he

/-- Where an access through the active directory goes, page by page, is where
`page_directory` has the page. -/
theorem SpaceInv.walk_pd {dirs : List Nat} (h : SpaceInv L dirs M) {page : Nat} {e : Nat × Nat}
    (hpage : page < 2 ^ 20) (he : Base.walk M.phys (frameOf M.cr3) page = some e) :
    Base.walk M.phys (pdFrame L) page = some e := by
  obtain ⟨h1, h2, h3, h4⟩ := walk_some.mp (show _ = some (e.1, e.2) from he)
  have hentry := h.entry (page_slot hpage) (by rw [h1]; exact h2)
  exact walk_some.mpr ⟨hentry ▸ h1, h2, h3, h4⟩

/-- **No access to a free frame**: whatever the cache holds, an access goes where the
tables say, and through a page that the VMM may map never to a frame that the
allocator may hand out. -/
theorem tlb_avoids_free (L : Layout) {phys : Phys} {p : Pmm}
    {l : List (SpaceOp × Option Nat)} (hr : p.Reserves L) (ht : p.totalFrames ≤ 32784)
    (hboot : pagingInitLoad L (bootStart L phys p) = some M)
    (hrun : Calls (spaceCall L) (SpaceOp.Ok L) ⟨M, []⟩ l s) :
    ∃ c₁ c, Cached.pagingInit policy L ⟨bootStart L phys p, Tlb.empty, 0⟩ = some ((), c₁) ∧
      Calls (coreCall policy L) (fun _ _ => True) c₁ l c ∧
      (∀ va < 2 ^ 32, c.frameAt va = s.mach.frameAt va) ∧
      ∀ va f, Family (va / pageSize) → c.frameAt va = some f → 0 < f → f < maxFrames →
        ¬ c.mach.pmm.Free f := by
  obtain ⟨c₁, c, hc₁, hcalls, hb⟩ := run_beside policy L hr ht hboot hrun
  refine ⟨c₁, c, hc₁, hcalls, fun va hva => hb.stands.frameAt (Nat.not_le.mpr (va_page_lt hva)),
    fun va f hfam hf h0 hmax => ?_⟩
  rw [hb.stands.frameAt (Nat.not_le.mpr hfam.1)] at hf
  obtain ⟨e, he, rfl⟩ := Option.map_eq_some_iff.mp hf
  have hk : kmap L s.mach.phys (va / pageSize) = some (frameOf e.2) := by
    unfold kmap
    rw [hb.inv.walk_pd hfam.1 he]
    rfl
  rw [hb.stands.mach]
  rcases hb.inv.tables.data _ _ hfam hk with h | h | h
  · omega
  · omega
  · exact h.used

/-- A frame is taken and mapped at 4 MB, and unmapped again. -/
theorem sampleSpaces : ∃ M f s₂ s₃,
    pagingInitLoad sampleLayout (bootStart sampleLayout (fun _ _ => 0)
      (pmmInit sampleLayout (fun _ => 0#8) sampleMap)) = some M ∧
    Calls (spaceCall sampleLayout) (SpaceOp.Ok sampleLayout) ⟨M, []⟩
      [(.alloc, some (f * pageSize)), (.map 0x400000 (f * pageSize) 3, some 0)] s₂ ∧
    s₂.mach.frameAt 0x400000 = some f ∧ 0 < f ∧ f < 1024 ∧
    Calls (spaceCall sampleLayout) (SpaceOp.Ok sampleLayout) ⟨M, []⟩
      [(.alloc, some (f * pageSize)), (.map 0x400000 (f * pageSize) 3, some 0),
        (.unmap 0x400000, some 0), (.read 0x400000, none)] s₃ := by
  obtain ⟨htot, hfree⟩ := samplePmm
  obtain ⟨M, hinit, ht, hcr3, hpm⟩ := pagingInitLoad_ok sampleLayout (fun _ _ => 0)
    (pmmInit sampleLayout (fun _ => 0#8) sampleMap)
  have hres := pmmInit_reserves sampleLayout (fun _ => 0#8) sampleMap
  rw [← hpm] at htot hfree hres
  have hi : MachInv sampleLayout [] M := ht.inv hcr3 hres (by omega)
  have hlow : 736 ≤ lowFree M.pmm :=
    Bitmap.le_clearCount 288 1024 (fun g h1 h2 => hfree g h1 (by omega)) (by omega)
  have hreach : 3520 ≤ reachable M.pmm := by
    unfold reachable
    rw [htot]
    exact Bitmap.le_clearCount 288 3808 (fun g h1 h2 => hfree g h1 (by omega)) (by omega)
  obtain ⟨f, p, ha, tk⟩ := hi.tables.alloc_some (by omega)
  obtain ⟨ho, hm⟩ := tk.owned hi.tables
  have h1 := tk.lowFree
  have h2 := tk.reachable
  have h3 := tk.low (by omega)
  have h4 := ho.ge
  have hk := (kernelEndFrame_bounds sampleLayout).1
  have hframe : frameOf (f * pageSize) = f := Nat.mul_div_cancel f (by decide)
  have hnew : FreshFor sampleLayout M.phys p [] 0x400 (frameOf (f * pageSize)) := by
    rw [hframe]
    exact .inr (.inr ⟨ho, fun u hu _ => hm u hu⟩)
  have hoff : OffWindow 0x400000 := .inl (by decide)
  have hva : 0x400000 < 2 ^ 32 := by decide
  obtain ⟨M₂, he₂, e₂⟩ := (hi.took tk).mapPage_ok (f * pageSize) 3 hva hoff
    (.inr (show 0 < lowFree p by omega)) fun _ => hnew
  obtain ⟨M₃, he₃, e₃⟩ := e₂.inv.unmapPage_ok hva hoff
  have hwalk : ∃ pde, Base.walk M₂.phys (pdFrame sampleLayout) 0x400 =
      some (pde, pteFor (f * pageSize) 3) :=
    e₂.here.resolve_right fun hc => by
      have : reachable p = 0 := hc.2.2
      omega
  have hat : M₂.frameAt 0x400000 = some f := by
    obtain ⟨pde, hw⟩ := hwalk
    unfold Machine.frameAt
    rw [e₂.inv.cr3, show 0x400000 / pageSize = 0x400 from rfl, hw, Option.map_some,
      (pteFor_spec _ _).1, hframe]
  have hfault : machMem.load M₃ 0x400000 = none := by
    show (M₃.frameAt 0x400000).map _ = none
    unfold Machine.frameAt
    rw [e₃.inv.cr3, e₃.here]
    rfl
  have hfirst : Calls (spaceCall sampleLayout) (SpaceOp.Ok sampleLayout) ⟨M, []⟩
      [(.alloc, some (f * pageSize)), (.map 0x400000 (f * pageSize) 3, some 0)] ⟨M₂, []⟩ := by
    have hok : (SpaceOp.map 0x400000 (f * pageSize) 3).Ok sampleLayout ⟨M.withPmm p, []⟩ :=
      ⟨hva, hoff, .inr (show 0 < lowFree p by omega), fun _ => hnew⟩
    have halloc : spaceCall sampleLayout ⟨M, []⟩ .alloc =
        some (some (f * pageSize), ⟨M.withPmm p, []⟩) := by rw [spaceCall, ha]
    refine .cons trivial halloc (.cons hok ?_ (.nil _))
    rw [spaceCall, he₂]
    rfl
  have hsecond : Calls (spaceCall sampleLayout) (SpaceOp.Ok sampleLayout) ⟨M₂, []⟩
      [(.unmap 0x400000, some 0), (.read 0x400000, none)] ⟨M₃, []⟩ := by
    have hunmap : spaceCall sampleLayout ⟨M₂, []⟩ (.unmap 0x400000) = some (some 0, ⟨M₃, []⟩) := by
      rw [spaceCall, he₃]
      rfl
    refine .cons ⟨hva, hoff⟩ hunmap (.cons hva ?_ (.nil _))
    rw [spaceCall, hfault]
  exact ⟨M, f, _, _, hinit, hfirst, hat, by omega, h3, hfirst.append hsecond⟩

/-- The theorem at a page that is mapped and unmapped: the access after it faults,
with a cache that looks up every page in advance. -/
theorem tlb_invisible_unmapped : ∃ M f s c₁ c,
    pagingInitLoad sampleLayout (bootStart sampleLayout (fun _ _ => 0)
      (pmmInit sampleLayout (fun _ => 0#8) sampleMap)) = some M ∧
    Calls (spaceCall sampleLayout) (SpaceOp.Ok sampleLayout) ⟨M, []⟩
      [(.alloc, some (f * pageSize)), (.map 0x400000 (f * pageSize) 3, some 0),
        (.unmap 0x400000, some 0), (.read 0x400000, none)] s ∧
    Calls (coreCall (fun _ _ => .fill) sampleLayout) (fun _ _ => True) c₁
      [(.alloc, some (f * pageSize)), (.map 0x400000 (f * pageSize) 3, some 0),
        (.unmap 0x400000, some 0), (.read 0x400000, none)] c ∧ c.mach = s.mach := by
  obtain ⟨M, f, -, s, hinit, -, -, -, -, hrun⟩ := sampleSpaces
  obtain ⟨c₁, c, -, hcalls, hmach, -⟩ := tlb_invisible (fun _ _ => .fill) sampleLayout
    (pmmInit_reserves _ _ _) (by rw [samplePmm.1]; decide) hinit hrun
  exact ⟨M, f, s, c₁, c, hinit, hrun, hcalls, hmach⟩

/-- The theorem at a page that is mapped: its frame is not free. -/
theorem tlb_avoids_free_mapped : ∃ M f s c, 0 < f ∧ f < 1024 ∧
    pagingInitLoad sampleLayout (bootStart sampleLayout (fun _ _ => 0)
      (pmmInit sampleLayout (fun _ => 0#8) sampleMap)) = some M ∧
    Calls (spaceCall sampleLayout) (SpaceOp.Ok sampleLayout) ⟨M, []⟩
      [(.alloc, some (f * pageSize)), (.map 0x400000 (f * pageSize) 3, some 0)] s ∧
    s.mach.frameAt 0x400000 = some f ∧
    Core.frameAt c 0x400000 = some f ∧ ¬ c.mach.pmm.Free f := by
  obtain ⟨M, f, s, -, hinit, hrun, hat, h0, hlt, -⟩ := sampleSpaces
  obtain ⟨c₁, c, -, -, hsame, hfree⟩ := tlb_avoids_free (fun _ _ => .fill) sampleLayout
    (pmmInit_reserves _ _ _) (by rw [samplePmm.1]; decide) hinit hrun
  have hmax : f < maxFrames := by unfold maxFrames; omega
  have hat' : c.frameAt 0x400000 = some f := (hsame _ (by omega)).trans hat
  exact ⟨M, f, s, c, h0, hlt, hinit, hrun, hat, hat',
    hfree 0x400000 f ⟨by decide, .inl (by decide)⟩ hat' h0 hmax⟩

end Runs

end TupleOS.Memory
