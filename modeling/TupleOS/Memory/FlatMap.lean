import TupleOS.Base.Run
import TupleOS.Memory.Boot

/-!
# The page tables as a flat map

What `paging_map_page` and `paging_unmap_page` are for is a map from virtual to
physical pages: a page is where the last call that took effect put it, and the
pages of the first window are where `paging_init` put them (`flatPhysical`).

`physMem` is the paging code with every frame at its `PHYS_TO_VIRT` address. On
it the tables refine the flat map in every run (`paging_refines_flat`), as long
as no table is made from a frame that is one already. On the machine a call does
the same whenever the MMU maps the tables it touches there
(`PageOp.run_reached`), so the machine's runs are runs on `physMem`
(`run_reached`).
-/

namespace TupleOS.Memory

open TupleOS.Base

/-- Paging code with every frame at its `PHYS_TO_VIRT` address. -/
def physMem : TableMem Machine where
  load m va := some (m.phys (frameOf (virtToPhys va)) (va % pageSize / 4))
  store m va w := some (m.withPhys (m.phys.store (frameOf (virtToPhys va)) (va % pageSize / 4) w))
  pmmAllocFrame m := ((pmmAllocFrame m.pmm).1, m.withPmm (pmmAllocFrame m.pmm).2)

inductive PageOp where
  | map (virtualAddr physicalAddr flags : Nat)
  | unmap (virtualAddr : Nat)

/-- The page that a call is about. -/
def PageOp.page : PageOp → Nat
  | .map virtualAddr _ _ => virtualAddr / pageSize
  | .unmap virtualAddr => virtualAddr / pageSize

def PageOp.run (I : TableMem Machine) (L : Layout) (M : Machine) : PageOp → Option Machine
  | .map virtualAddr physicalAddr flags => pagingMapPage I L M virtualAddr physicalAddr flags
  | .unmap virtualAddr => pagingUnmapPage I L M virtualAddr

def pdeAt (L : Layout) (m : Phys) (page : Nat) : Nat := m (pdFrame L) (page / 1024)

/-- A mapping takes effect if its table is there or can be made. -/
def PageOp.Effective (L : Layout) (M : Machine) : PageOp → Prop
  | .map virtualAddr _ _ => isPresent (pdeAt L M.phys (virtualAddr / pageSize)) = true ∨
      (pmmAllocFrame M.pmm).1 ≠ 0
  | .unmap _ => True

instance (L : Layout) (M : Machine) : (o : PageOp) → Decidable (o.Effective L M)
  | .map _ _ _ => inferInstanceAs (Decidable (_ ∨ _))
  | .unmap _ => inferInstanceAs (Decidable True)

/-- Arguments are 32-bit words, and a new table is not made from a table. -/
def PageOp.Ok (L : Layout) (M : Machine) : PageOp → Prop
  | .map virtualAddr physicalAddr _ => virtualAddr < 2 ^ 32 ∧ physicalAddr < 2 ^ 32 ∧
      (isPresent (pdeAt L M.phys (virtualAddr / pageSize)) = false → (pmmAllocFrame M.pmm).1 ≠ 0 →
        ¬ TableFrame L M.phys (frameOf (pmmAllocFrame M.pmm).1))
  | .unmap virtualAddr => virtualAddr < 2 ^ 32

/-- The machine and the calls that took effect, the latest first. -/
structure Paged where
  mach : Machine
  log : List PageOp

def pagedStep (I : TableMem Machine) (L : Layout) (s : Paged) (o : PageOp) : Option Paged :=
  (o.run I L s.mach).map fun M => ⟨M, if o.Effective L s.mach then o :: s.log else s.log⟩

theorem pagedStep_log {I : TableMem Machine} {L : Layout} {s s' : Paged} {o : PageOp}
    (h : pagedStep I L s o = some s') :
    s'.log = if o.Effective L s.mach then o :: s.log else s.log := by
  obtain ⟨M, -, rfl⟩ := Option.map_eq_some_iff.mp h
  rfl

/-- Where the flat map has the virtual address `w`; `0` for nowhere. -/
def flatPhysical (log : List PageOp) (w : Nat) : Nat :=
  match log.find? fun o => o.page = w / pageSize with
  | some (.map _ physicalAddr _) => roundDown pageSize physicalAddr + w % pageSize
  | some (.unmap _) => 0
  | none => if 0xC0000000 ≤ w ∧ w < 0xC1000000 then w - 0xC0000000 else 0

/-! ## Tables in place -/

/-- The tables are frames of their own, named by 32-bit entries. -/
structure TreeOk (L : Layout) (m : Phys) : Prop where
  tree : Tree m (pdFrame L)
  low : ∀ s < 1024, isPresent (m (pdFrame L) s) = true → frameOf (m (pdFrame L) s) < 2 ^ 20

section Tables

variable {L : Layout} {M : Machine} {f i n s t va pa flags w : Nat}

theorem physToVirt_word (hf : f < 2 ^ 20) (hi : i < 1024) :
    frameOf (virtToPhys (physToVirt (f * pageSize) + 4 * i)) = f ∧
    (physToVirt (f * pageSize) + 4 * i) % pageSize / 4 = i := by
  unfold physToVirt virtToPhys sub32 frameOf w32 kernelVirtualBase pageSize
  omega

theorem physMem_load (M : Machine) (hf : f < 2 ^ 20) (hi : i < 1024) :
    physMem.load M (physToVirt (f * pageSize) + 4 * i) = some (M.phys f i) := by
  obtain ⟨h1, h2⟩ := physToVirt_word hf hi
  simp only [physMem, h1, h2]

theorem physMem_store (M : Machine) (hf : f < 2 ^ 20) (hi : i < 1024) (w : Nat) :
    physMem.store M (physToVirt (f * pageSize) + 4 * i) w =
      some (M.withPhys (M.phys.store f i w)) := by
  obtain ⟨h1, h2⟩ := physToVirt_word hf hi
  simp only [physMem, h1, h2]

theorem physMem_fill (M : Machine) (hf : f < 2 ^ 20) (w : Nat) : ∀ n ≤ 1024,
    fillWords physMem M (physToVirt (f * pageSize)) w n = some (M.withPhys (M.phys.fill f w n))
  | 0, _ => by rw [Phys.fill_zero]; rfl
  | n + 1, hn => by
    rw [fillWords, physMem_fill M hf w n (by omega), Option.bind_eq_bind, Option.bind_some,
      physMem_store _ hf (by omega)]
    exact congrArg (fun phys => some (M.withPhys phys)) (Phys.fill_succ _ _ _ _)

theorem pdFrame_lt (L : Layout) : pdFrame L < 1024 := by
  have h1 := (staticFrames L).pd_lt
  have h2 := (staticFrames L).end_le
  omega

theorem pageDirectory_eq (L : Layout) : L.pageDirectory = physToVirt (pdFrame L * pageSize) := by
  rw [physToVirt_low (pdFrame_lt L)]
  exact (staticFrames L).pd_addr

theorem physMem_load_pd (M : Machine) (hs : s < 1024) :
    physMem.load M (L.pageDirectory + 4 * s) = some (M.phys (pdFrame L) s) := by
  have := pdFrame_lt L
  rw [pageDirectory_eq]
  exact physMem_load M (by omega) hs

theorem pmmAllocFrame_frame (p : Pmm) :
    (pmmAllocFrame p).1 = frameOf (pmmAllocFrame p).1 * pageSize ∧
      frameOf (pmmAllocFrame p).1 < 2 ^ 20 := by
  have hmod : (pmmAllocFrame p).1 % pageSize = 0 ∧ (pmmAllocFrame p).1 < 2 ^ 32 := by
    rcases pmmAllocFrame_cases p with ⟨h, -⟩ | ⟨f, h, -⟩
    · rw [h]; exact ⟨rfl, by omega⟩
    · rw [h]
      unfold w32 pageSize
      omega
  unfold frameOf
  unfold pageSize at *
  omega

theorem newPageTable_phys (L : Layout) (M : Machine) (hs : s < 1024)
    (h0 : (pmmAllocFrame M.pmm).1 ≠ 0) :
    newPageTable physMem L M s flags = some (true, (M.withPmm (pmmAllocFrame M.pmm).2).withPhys
      (enterTable L M.phys (frameOf (pmmAllocFrame M.pmm).1) s
        (pdeFor (pmmAllocFrame M.pmm).1 flags))) := by
  obtain ⟨heq, hlt⟩ := pmmAllocFrame_frame M.pmm
  have hpd := pdFrame_lt L
  have halloc : physMem.pmmAllocFrame M =
    ((pmmAllocFrame M.pmm).1, M.withPmm (pmmAllocFrame M.pmm).2) := rfl
  have hfill := physMem_fill (M.withPmm (pmmAllocFrame M.pmm).2) hlt 0 pageEntries (Nat.le_refl _)
  rw [← heq] at hfill
  rw [newPageTable_eq, halloc, if_neg h0, hfill, Option.bind_some, pageDirectory_eq,
    physMem_store _ (by omega) hs, Option.bind_some]
  rfl

theorem newPageTable_page (L : Layout) (M : Machine) (flags : Nat) (hva : va < 2 ^ 32)
    (h0 : (pmmAllocFrame M.pmm).1 ≠ 0) : ∃ M',
    newPageTable physMem L M (va / 2 ^ 22) flags = some (true, M') ∧
    M' = (M.withPmm (pmmAllocFrame M.pmm).2).withPhys (enterTable L M.phys
      (frameOf (pmmAllocFrame M.pmm).1) (va / pageSize / 1024)
      (pdeFor (pmmAllocFrame M.pmm).1 flags)) ∧
    pdeAt L M'.phys (va / pageSize) = pdeFor (pmmAllocFrame M.pmm).1 flags ∧
    frameOf (pdeFor (pmmAllocFrame M.pmm).1 flags) = frameOf (pmmAllocFrame M.pmm).1 ∧
    isPresent (pdeFor (pmmAllocFrame M.pmm).1 flags) = true := by
  obtain ⟨hf, hp⟩ := pdeFor_spec (frameOf (pmmAllocFrame M.pmm).1) flags
  rw [← (pmmAllocFrame_frame M.pmm).1] at hf hp
  refine ⟨_, ?_, rfl, enterTable_self, hf, hp⟩
  rw [va_slot]
  exact newPageTable_phys L M (page_slot (va_page_lt hva)) h0

/-- **`paging_map_page` on `physMem`**: no table, or one store into the table of the page. -/
theorem mapPage_phys (h : TreeOk L M.phys) (pa flags : Nat) (hva : va < 2 ^ 32) :
    (isPresent (pdeAt L M.phys (va / pageSize)) = true ∧
      pagingMapPage physMem L M va pa flags = some (M.withPhys (M.phys.store
        (frameOf (pdeAt L M.phys (va / pageSize))) (va / pageSize % 1024) (pteFor pa flags)))) ∨
    (isPresent (pdeAt L M.phys (va / pageSize)) = false ∧ (pmmAllocFrame M.pmm).1 = 0 ∧
      pagingMapPage physMem L M va pa flags = some (M.withPmm (pmmAllocFrame M.pmm).2)) ∨
    (isPresent (pdeAt L M.phys (va / pageSize)) = false ∧ (pmmAllocFrame M.pmm).1 ≠ 0 ∧
      pagingMapPage physMem L M va pa flags =
        some ((M.withPmm (pmmAllocFrame M.pmm).2).withPhys
          ((enterTable L M.phys (frameOf (pmmAllocFrame M.pmm).1) (va / pageSize / 1024)
            (pdeFor (pmmAllocFrame M.pmm).1 flags)).store (frameOf (pmmAllocFrame M.pmm).1)
            (va / pageSize % 1024) (pteFor pa flags)))) := by
  have hs := page_slot (va_page_lt hva)
  -- under a present entry, whatever the rest of memory
  have hstore : ∀ M' : Machine, isPresent (pdeAt L M'.phys (va / pageSize)) = true →
      frameOf (pdeAt L M'.phys (va / pageSize)) < 2 ^ 20 →
      pagingMapPage physMem L M' va pa flags = some (M'.withPhys (M'.phys.store
        (frameOf (pdeAt L M'.phys (va / pageSize))) (va / pageSize % 1024) (pteFor pa flags))) := by
    intro M' hp hlt
    unfold pdeAt at hp hlt ⊢
    unfold pagingMapPage
    simp only [va_slot, va_index, physMem_load_pd M' hs, Option.bind_eq_bind, Option.bind_some, hp,
      ↓reduceIte]
    rw [entryAddr_eq]
    exact physMem_store M' hlt (by omega) _
  by_cases hp : isPresent (pdeAt L M.phys (va / pageSize)) = true
  · exact .inl ⟨hp, hstore M hp (h.low _ hs hp)⟩
  · have hp' := Bool.eq_false_iff.mpr hp
    have hload : physMem.load M (L.pageDirectory + 4 * (va / 2 ^ 22)) =
        some (pdeAt L M.phys (va / pageSize)) := by
      rw [va_slot]; exact physMem_load_pd M hs
    by_cases h0 : (pmmAllocFrame M.pmm).1 = 0
    · refine .inr (.inl ⟨hp', h0, pagingMapPage_noTable hload hp' ?_⟩)
      rw [newPageTable_eq, if_pos (show (physMem.pmmAllocFrame M).1 = 0 from h0)]
      rfl
    · obtain ⟨M', hnew, hM', hpde, hf, hpe⟩ := newPageTable_page L M flags hva h0
      have hlt := (pmmAllocFrame_frame M.pmm).2
      have hload' : physMem.load M' (L.pageDirectory + 4 * (va / 2 ^ 22)) =
          some (pdeFor (pmmAllocFrame M.pmm).1 flags) := by
        rw [va_slot, ← hpde]; exact physMem_load_pd M' hs
      refine .inr (.inr ⟨hp', h0, ?_⟩)
      rw [pagingMapPage_newTable hload hp' hnew hload' hpe,
        hstore M' (by rw [hpde]; exact hpe) (by rw [hpde, hf]; exact hlt), hpde, hf, hM']
      rfl

/-- What a mapping that takes effect leaves. -/
structure MapsPage (L : Layout) (m m' : Phys) (v pde pte : Nat) : Prop where
  tree : TreeOk L m'
  here : walk m' (pdFrame L) v = some (pde, pte)
  others : ∀ u < 2 ^ 20, u ≠ v → walk m' (pdFrame L) u = walk m (pdFrame L) u
  slots : ∀ s, m' (pdFrame L) s = m (pdFrame L) s ∨ m' (pdFrame L) s = pde

theorem TreeOk.store_pte {m : Phys} {v : Nat} (h : TreeOk L m) (hv : v < 2 ^ 20)
    (hp : isPresent (pdeAt L m v) = true) (w : Nat) :
    TreeOk L (m.store (frameOf (pdeAt L m v)) (v % 1024) w) := by
  have hd := h.tree.store_dir (i := v % 1024) (w := w) (page_slot hv) hp
  refine ⟨h.tree.store (page_slot hv) hp, ?_⟩
  unfold pdeAt
  rw [hd]
  exact h.low

theorem TreeOk.maps_present {m : Phys} {v : Nat} (h : TreeOk L m) (hv : v < 2 ^ 20)
    (hp : isPresent (pdeAt L m v) = true) (hw : isPresent w = true) :
    MapsPage L m (m.store (frameOf (pdeAt L m v)) (v % 1024) w) v (pdeAt L m v) w where
  tree := h.store_pte hv hp w
  here := (h.tree.walk_store hv hp w hv).trans (by rw [if_pos rfl, if_pos hw]; rfl)
  others u hu huv := (h.tree.walk_store hv hp w hu).trans (if_neg huv)
  slots s := .inl (congrFun (h.tree.store_dir (page_slot hv) hp) s)

theorem TreeOk.enter {m : Phys} {e : Nat} (h : TreeOk L m) (ht : ¬ TableFrame L m t)
    (hlt : t < 2 ^ 20) (he : frameOf e = t) : TreeOk L (enterTable L m t s e) := by
  have hoff := offTree_iff.mpr ht
  refine ⟨h.tree.enter hoff he, fun u hu hp => ?_⟩
  by_cases hus : u = s
  · rw [hus, enterTable_self, he]; exact hlt
  · rw [enterTable_pd hoff.1 hus] at hp ⊢
    exact h.low u hu hp

/-- **The effect of `paging_map_page`**: the page is mapped as asked, under the
entry that was there or a new one, and no other walk changes. -/
theorem mapPage_effect (h : TreeOk L M.phys) (hok : (PageOp.map va pa flags).Ok L M)
    (heff : (PageOp.map va pa flags).Effective L M) :
    ∃ M', pagingMapPage physMem L M va pa flags = some M' ∧
      MapsPage L M.phys M'.phys (va / pageSize)
        (if isPresent (pdeAt L M.phys (va / pageSize)) then pdeAt L M.phys (va / pageSize)
          else pdeFor (pmmAllocFrame M.pmm).1 flags) (pteFor pa flags) := by
  obtain ⟨hva, -, hfresh⟩ := hok
  have hv := va_page_lt hva
  have hpte := (pteFor_spec pa flags).2
  rcases mapPage_phys h pa flags hva with ⟨hp, he⟩ | ⟨hp, h0, -⟩ | ⟨hp, h0, he⟩
  · refine ⟨_, he, ?_⟩
    rw [if_pos hp]
    exact h.maps_present hv hp hpte
  · rcases heff with heff | heff
    · rw [hp] at heff; cases heff
    · exact absurd h0 heff
  · refine ⟨_, he, ?_⟩
    rw [if_neg (by rw [hp]; exact Bool.false_ne_true)]
    obtain ⟨heq, hlt⟩ := pmmAllocFrame_frame M.pmm
    obtain ⟨hf, hpe⟩ := pdeFor_spec (frameOf (pmmAllocFrame M.pmm).1) flags
    rw [← heq] at hf hpe
    have hnt := hfresh hp h0
    -- first the table is entered, then the page is mapped in it
    have h1 := h.enter (s := va / pageSize / 1024) hnt hlt hf
    have hpde : pdeAt L (enterTable L M.phys (frameOf (pmmAllocFrame M.pmm).1)
        (va / pageSize / 1024) (pdeFor (pmmAllocFrame M.pmm).1 flags)) (va / pageSize) =
        pdeFor (pmmAllocFrame M.pmm).1 flags := enterTable_self
    have h2 := h1.maps_present hv (by rw [hpde]; exact hpe) hpte
    rw [hpde, hf] at h2
    refine ⟨h2.tree, h2.here, fun u hu huv => (h2.others u hu huv).trans
      (h.tree.walk_enter (offTree_iff.mpr hnt) hf hp hu), fun s => ?_⟩
    rcases h2.slots s with hslot | hslot
    · by_cases hs : s = va / pageSize / 1024
      · exact .inr (hslot.trans (by rw [hs]; exact enterTable_self))
      · exact .inl (hslot.trans (enterTable_pd (offTree_iff.mpr hnt).1 hs))
    · exact .inr hslot

theorem mapPage_refused (h : TreeOk L M.phys) (hva : va < 2 ^ 32)
    (heff : ¬ (PageOp.map va pa flags).Effective L M) :
    ∃ p, pagingMapPage physMem L M va pa flags = some (M.withPmm p) := by
  rcases mapPage_phys h pa flags hva with ⟨hp, -⟩ | ⟨-, -, he⟩ | ⟨-, h0, -⟩
  · exact absurd (.inl hp) heff
  · exact ⟨_, he⟩
  · exact absurd (.inr h0) heff

/-- **The effect of `paging_unmap_page`.** -/
theorem unmapPage_effect (h : TreeOk L M.phys) (hva : va < 2 ^ 32) :
    ∃ M', pagingUnmapPage physMem L M va = some M' ∧ TreeOk L M'.phys ∧
      M'.phys (pdFrame L) = M.phys (pdFrame L) ∧
      walk M'.phys (pdFrame L) (va / pageSize) = none ∧
      ∀ u < 2 ^ 20, u ≠ va / pageSize → walk M'.phys (pdFrame L) u = walk M.phys (pdFrame L) u := by
  have hv := va_page_lt hva
  have hs := page_slot hv
  unfold pagingUnmapPage
  simp only [va_slot, va_index, physMem_load_pd M hs, Option.bind_eq_bind, Option.bind_some]
  by_cases hp : isPresent (M.phys (pdFrame L) (va / pageSize / 1024)) = true
  · rw [if_pos hp, entryAddr_eq, physMem_store M (h.low _ hs hp) (by omega)]
    exact ⟨_, rfl, h.store_pte hv hp 0, h.tree.store_dir hs hp,
      (h.tree.walk_store hv hp 0 hv).trans (if_pos rfl),
      fun u hu huv => (h.tree.walk_store hv hp 0 hu).trans (if_neg huv)⟩
  · rw [if_neg hp]
    exact ⟨M, rfl, h, rfl, walk_absent (Bool.eq_false_iff.mpr hp), fun _ _ _ => rfl⟩

theorem getPhysical_phys (h : TreeOk L M.phys) (hva : va < 2 ^ 32) :
    pagingGetPhysical physMem L M va = some (physOf L M.phys va) := by
  have hs := page_slot (va_page_lt hva)
  unfold pagingGetPhysical physOf kmap walk
  simp only [va_slot, va_index, physMem_load_pd M hs, Option.bind_eq_bind, Option.bind_some]
  by_cases hp : isPresent (M.phys (pdFrame L) (va / pageSize / 1024)) = true
  · rw [if_pos hp, if_pos hp, entryAddr_eq, physMem_load M (h.low _ hs hp) (by omega),
      Option.bind_some]
    split
    · rw [entryAddr_eq]; rfl
    · rfl
  · rw [if_neg hp, if_neg hp]; rfl

end Tables

/-! ## The flat map -/

/-- The frame that the flat map has at a page. -/
def flatFrame (log : List PageOp) (page : Nat) : Option Nat :=
  match log.find? fun o => o.page = page with
  | some (.map _ physicalAddr _) => some (frameOf physicalAddr)
  | some (.unmap _) => none
  | none => if 0xC0000 ≤ page ∧ page < 0xC1000 then some (page - 0xC0000) else none

/-- The tables refine the flat map of the log. -/
structure PagedInv (L : Layout) (s : Paged) : Prop where
  tables : TreeOk L s.mach.phys
  flat : ∀ v < 2 ^ 20, kmap L s.mach.phys v = flatFrame s.log v
  low : ∀ v < 2 ^ 20, ∀ f, flatFrame s.log v = some f → f < 2 ^ 20

section Flat

variable {L : Layout} {s s' : Paged} {o : PageOp} {log : List PageOp} {u : Nat}

theorem flatFrame_other (hu : u ≠ o.page) : flatFrame (o :: log) u = flatFrame log u := by
  unfold flatFrame
  rw [List.find?_cons_of_neg (by simpa using hu.symm)]

theorem flatFrame_map (va pa flags : Nat) :
    flatFrame (.map va pa flags :: log) (va / pageSize) = some (frameOf pa) := by
  unfold flatFrame
  rw [List.find?_cons_of_pos (by simp [PageOp.page])]

theorem flatFrame_unmap (va : Nat) : flatFrame (.unmap va :: log) (va / pageSize) = none := by
  unfold flatFrame
  rw [List.find?_cons_of_pos (by simp [PageOp.page])]

theorem flatPhysical_eq (w : Nat) : flatPhysical log w =
    match flatFrame log (w / pageSize) with
    | some f => f * pageSize + w % pageSize
    | none => 0 := by
  unfold flatPhysical flatFrame
  cases log.find? fun o => o.page = w / pageSize with
  | some o =>
    cases o with
    | map va pa flags => rfl
    | unmap va => rfl
  | none =>
    simp only
    by_cases hw : 0xC0000000 ≤ w ∧ w < 0xC1000000
    · rw [if_pos hw, if_pos (by unfold pageSize; omega)]
      simp only
      unfold pageSize
      omega
    · rw [if_neg hw, if_neg (by unfold pageSize; omega)]

theorem PagedInv.cons (h : PagedInv L s) {M : Machine} (hM : TreeOk L M.phys)
    (here : kmap L M.phys o.page = flatFrame (o :: s.log) o.page)
    (hlow : ∀ f, flatFrame (o :: s.log) o.page = some f → f < 2 ^ 20)
    (others : ∀ u < 2 ^ 20, u ≠ o.page →
      walk M.phys (pdFrame L) u = walk s.mach.phys (pdFrame L) u) :
    PagedInv L ⟨M, o :: s.log⟩ := by
  refine ⟨hM, fun v hv => ?_, fun v hv => ?_⟩
  · by_cases hvo : v = o.page
    · rw [hvo]; exact here
    · rw [flatFrame_other hvo, ← h.flat v hv]
      unfold kmap
      rw [others v hv hvo]
  · by_cases hvo : v = o.page
    · rw [hvo]; exact hlow
    · rw [flatFrame_other hvo]; exact h.low v hv

theorem PagedInv.map (h : PagedInv L s) {va pa flags : Nat}
    (hok : (PageOp.map va pa flags).Ok L s.mach) :
    ∃ s', pagedStep physMem L s (.map va pa flags) = some s' ∧ PagedInv L s' := by
  unfold pagedStep PageOp.run
  by_cases heff : (PageOp.map va pa flags).Effective L s.mach
  · obtain ⟨M, he, hmap⟩ := mapPage_effect h.tables hok heff
    simp only [he, Option.map_some, if_pos heff]
    have hpa : frameOf pa < 2 ^ 20 := by
      have := hok.2.1
      unfold frameOf
      omega
    refine ⟨_, rfl, h.cons hmap.tree ?_ (fun f hf => ?_) hmap.others⟩
    · unfold kmap PageOp.page
      rw [hmap.here, Option.map_some, (pteFor_spec pa flags).1]
      exact (flatFrame_map va pa flags).symm
    · rw [show (PageOp.map va pa flags).page = va / pageSize from rfl, flatFrame_map] at hf
      exact Option.some.inj hf ▸ hpa
  · obtain ⟨p, he⟩ := mapPage_refused h.tables hok.1 heff
    simp only [he, Option.map_some, if_neg heff]
    exact ⟨_, rfl, h.tables, h.flat, h.low⟩

theorem PagedInv.unmap (h : PagedInv L s) {va : Nat} (hva : va < 2 ^ 32) :
    ∃ s', pagedStep physMem L s (.unmap va) = some s' ∧ PagedInv L s' := by
  obtain ⟨M, he, htree, -, here, others⟩ := unmapPage_effect h.tables hva
  unfold pagedStep PageOp.run
  simp only [he, Option.map_some, if_pos (show (PageOp.unmap va).Effective L s.mach from trivial)]
  refine ⟨_, rfl, h.cons htree ?_ (fun f hf => ?_) others⟩
  · unfold kmap PageOp.page
    rw [here, flatFrame_unmap]
    rfl
  · rw [show (PageOp.unmap va).page = va / pageSize from rfl, flatFrame_unmap] at hf
    cases hf

theorem PagedInv.step_ok (h : PagedInv L s) (hok : o.Ok L s.mach) :
    ∃ s', pagedStep physMem L s o = some s' ∧ PagedInv L s' := by
  cases o with
  | map va pa flags => exact h.map hok
  | unmap va => exact h.unmap hok

theorem PagedInv.step (h : PagedInv L s) (hok : o.Ok L s.mach)
    (he : pagedStep physMem L s o = some s') : PagedInv L s' := by
  obtain ⟨s₁, he₁, h₁⟩ := h.step_ok hok
  rw [he] at he₁
  exact Option.some.inj he₁ ▸ h₁

/-- `paging_init` leaves the first window, and nothing else. -/
theorem StaticTables.paged {M : Machine} (h : StaticTables L M.phys) : PagedInv L ⟨M, []⟩ := by
  have hL := staticFrames L
  have hpt := hL.pt_lt
  have hend := hL.end_le
  have habs : ∀ {s}, DynSlot s → isPresent (M.phys (pdFrame L) s) = false := fun hs => by
    rw [h.absent _ hs]; rfl
  -- a present entry is that of a static table
  have hslot : ∀ s < 1024, isPresent (M.phys (pdFrame L) s) = true →
      ∃ j < 4, s = 768 + j ∧ frameOf (M.phys (pdFrame L) s) = ptFrame L j := by
    intro s hs hp
    rcases slot_static_or_dyn hs with ⟨j, hj, rfl⟩ | hd
    · exact ⟨j, hj, rfl, by rw [h.slot j hj, entry_frame]⟩
    · rw [habs hd] at hp; cases hp
  refine ⟨⟨⟨fun s hs hp => ?_, fun s hs s' hs' hp hp' heq => ?_⟩, fun s hs hp => ?_⟩,
    fun v hv => ?_, fun v hv f hf => ?_⟩
  · obtain ⟨j, hj, -, hf⟩ := hslot s hs hp
    rw [hf]
    exact hL.pt_ne j hj
  · obtain ⟨j, -, rfl, hf⟩ := hslot s hs hp
    obtain ⟨j', -, rfl, hf'⟩ := hslot s' hs' hp'
    rw [hf, hf'] at heq
    rw [ptFrame_inj heq]
  · obtain ⟨j, hj, -, hf⟩ := hslot s hs hp
    rw [hf]
    unfold ptFrame at *
    omega
  · show (walk M.phys (pdFrame L) v).map _ = if 0xC0000 ≤ v ∧ v < 0xC1000 then _ else _
    rcases slot_static_or_dyn (page_slot hv) with ⟨j, hj, hs⟩ | hd
    · have hw : walk M.phys (pdFrame L) v =
          some (ptFrame L j * pageSize + 3, (j * pageEntries + v % 1024) * pageSize + 3) := by
        refine walk_some.mpr ⟨by rw [hs]; exact h.slot j hj, entry_present _, ?_, entry_present _⟩
        rw [entry_frame]
        exact h.entry j hj _ (by omega)
      rw [hw, Option.map_some, if_pos (by omega), entry_frame]
      rw [show j * pageEntries + v % 1024 = v - 0xC0000 by unfold pageEntries; omega]
    · rw [walk_absent (habs hd), if_neg (by have := hd.2; omega)]
      rfl
  · have hf' : (if 0xC0000 ≤ v ∧ v < 0xC1000 then some (v - 0xC0000) else none) = some f := hf
    split at hf'
    · have heq := Option.some.inj hf'
      omega
    · cases hf'

theorem PagedInv.getPhysical (h : PagedInv L s) {w : Nat} (hw : w < 2 ^ 32) :
    pagingGetPhysical physMem L s.mach w = some (flatPhysical s.log w) := by
  have hv := va_page_lt hw
  rw [getPhysical_phys h.tables hw, flatPhysical_eq, physOf, h.flat _ hv]
  cases hf : flatFrame s.log (w / pageSize) with
  | none => rfl
  | some f =>
    have hlt := h.low _ hv f hf
    exact congrArg some (w32_of_lt (by unfold pageSize; omega))

/-- **Two-level tables refine a flat map**, and no call is stuck. -/
theorem paging_refines_flat {phys : Phys} {p : Pmm} {M : Machine} {os : List PageOp}
    (hinit : pagingInitLoad L (bootStart L phys p) = some M)
    (hrun : Run (pagedStep physMem L) (fun s o => o.Ok L s.mach) ⟨M, []⟩ os s) :
    (∀ w < 2 ^ 32, pagingGetPhysical physMem L s.mach w = some (flatPhysical s.log w)) ∧
    ∀ o : PageOp, o.Ok L s.mach → ∃ s', pagedStep physMem L s o = some s' := by
  obtain ⟨M', he, ht, -⟩ := pagingInitLoad_ok L phys p
  rw [hinit] at he
  cases he
  have hinv : PagedInv L s := hrun.invariant _ PagedInv.step ht.paged
  exact ⟨fun w hw => hinv.getPhysical hw, fun o ho => (hinv.step_ok ho).imp fun _ h => h.1⟩

/-- A page of the first window, moved. -/
theorem paging_refines_flat_moved : ∃ M s,
    pagingInitLoad sampleLayout
      (bootStart sampleLayout (fun _ _ => 0) (fullPmm fun _ => 0#8)) = some M ∧
    Run (pagedStep physMem sampleLayout) (fun s o => o.Ok sampleLayout s.mach) ⟨M, []⟩
      [.map 0xC0800000 0x12345678 3] s ∧
    pagingGetPhysical physMem sampleLayout s.mach 0xC0800123 = some 0x12345123 := by
  obtain ⟨M, hinit, ht, -, -⟩ :=
    pagingInitLoad_ok sampleLayout (fun _ _ => 0) (fullPmm fun _ => 0#8)
  have hp : isPresent (pdeAt sampleLayout M.phys (0xC0800000 / pageSize)) = true := by
    rw [show pdeAt sampleLayout M.phys (0xC0800000 / pageSize) = _ from ht.slot 2 (by omega)]
    exact entry_present _
  have hok : (PageOp.map 0xC0800000 0x12345678 3).Ok sampleLayout M :=
    ⟨by omega, by omega, fun habs => by rw [hp] at habs; cases habs⟩
  obtain ⟨s, he, -⟩ := ht.paged.step_ok hok
  have hrun : Run (pagedStep physMem sampleLayout) (fun s o => o.Ok sampleLayout s.mach) ⟨M, []⟩
      [.map 0xC0800000 0x12345678 3] s := .cons hok he (.nil _)
  have hlog : s.log = [.map 0xC0800000 0x12345678 3] := (pagedStep_log he).trans (if_pos (.inl hp))
  refine ⟨M, s, hinit, hrun, ?_⟩
  rw [(paging_refines_flat hinit hrun).1 _ (by omega), hlog]
  rfl

end Flat

/-! ## The machine -/

/-- The MMU maps frame `f` at its `PHYS_TO_VIRT` address. -/
def Machine.Reaches (M : Machine) (f : Nat) : Prop :=
  M.frameAt (physToVirt (f * pageSize)) = some f

/-- `page_directory` is active, and it, the table of the page and a table to be
made for it are at their `PHYS_TO_VIRT` addresses. -/
structure PageOp.Reached (L : Layout) (M : Machine) (o : PageOp) : Prop where
  active : frameOf M.cr3 = pdFrame L
  directory : M.Reaches (pdFrame L)
  table : isPresent (pdeAt L M.phys o.page) = true → M.Reaches (frameOf (pdeAt L M.phys o.page))
  fresh : isPresent (pdeAt L M.phys o.page) = false → (pmmAllocFrame M.pmm).1 ≠ 0 →
    M.Reaches (frameOf (pmmAllocFrame M.pmm).1)

section Reach

variable {L : Layout} {M : Machine} {o : PageOp} {f i : Nat}

theorem physToVirt_div (f : Nat) (hi : i < 1024) :
    (physToVirt (f * pageSize) + 4 * i) / pageSize = physToVirt (f * pageSize) / pageSize := by
  have := (physToVirt_page f).2
  unfold pageSize at *
  omega

theorem Machine.Reaches.frameAt (h : M.Reaches f) (hi : i < 1024) :
    M.frameAt (physToVirt (f * pageSize) + 4 * i) = some f := by
  unfold Machine.Reaches Machine.frameAt at *
  rw [physToVirt_div f hi]
  exact h

theorem Machine.Reaches.load (h : M.Reaches f) (hf : f < 2 ^ 20) (hi : i < 1024) :
    machMem.load M (physToVirt (f * pageSize) + 4 * i) =
      physMem.load M (physToVirt (f * pageSize) + 4 * i) := by
  rw [physMem_load M hf hi]
  show (M.frameAt _).map _ = _
  rw [h.frameAt hi, Option.map_some, (physToVirt_word hf hi).2]

theorem Machine.Reaches.store (h : M.Reaches f) (hf : f < 2 ^ 20) (hi : i < 1024) (w : Nat) :
    machMem.store M (physToVirt (f * pageSize) + 4 * i) w =
      physMem.store M (physToVirt (f * pageSize) + 4 * i) w := by
  rw [physMem_store M hf hi]
  show (M.frameAt _).map _ = _
  rw [h.frameAt hi, Option.map_some, (physToVirt_word hf hi).2]

theorem Machine.Reaches.congr {M' : Machine} (h : M.Reaches f) (hcr3 : M'.cr3 = M.cr3)
    (hw : ∀ u < 2 ^ 20, walk M'.phys (frameOf M.cr3) u = walk M.phys (frameOf M.cr3) u) :
    M'.Reaches f := by
  unfold Machine.Reaches Machine.frameAt at *
  rw [hcr3, hw _ (va_page_lt (physToVirt_page f).1)]
  exact h

theorem Machine.Reaches.fill (hr : M.Reaches f) (hc : frameOf M.cr3 = pdFrame L)
    (hnt : ¬ TableFrame L M.phys f) (w : Nat) : ∀ n ≤ 1024,
    fillWords machMem M (physToVirt (f * pageSize)) w n =
      some (M.withPhys (M.phys.fill f w n)) := by
  obtain ⟨⟨e, e'⟩, hw, hf⟩ := Option.map_eq_some_iff.mp hr
  obtain ⟨hpde, hp, -, -⟩ := walk_some.mp hw
  obtain ⟨hne, hoff⟩ := offTree_iff.mpr hnt
  rw [hc] at hpde
  simp only at hf
  have := fillWords_mapped (physToVirt_page f).2 hw (by rw [hf, hc]; exact hne)
    (by
      rw [hf, ← hpde]
      exact (hoff _ (page_slot (va_page_lt (physToVirt_page f).1)) (by rw [hpde]; exact hp)).symm) w
  rwa [hf] at this

theorem mapPage_reached {va pa flags : Nat} (hva : va < 2 ^ 32) (hd : M.Reaches (pdFrame L))
    (hp : isPresent (pdeAt L M.phys (va / pageSize)) = true)
    (ht : M.Reaches (frameOf (pdeAt L M.phys (va / pageSize))))
    (hlt : frameOf (pdeAt L M.phys (va / pageSize)) < 2 ^ 20) :
    pagingMapPage machMem L M va pa flags = pagingMapPage physMem L M va pa flags := by
  have hs := page_slot (va_page_lt hva)
  have hpd := pdFrame_lt L
  unfold pdeAt at hp ht hlt
  unfold pagingMapPage
  simp only [va_slot, va_index, pageDirectory_eq, hd.load (Nat.lt_trans hpd (by omega)) hs,
    physMem_load M (Nat.lt_trans hpd (by omega)) hs, Option.bind_eq_bind, Option.bind_some, hp,
    ↓reduceIte, entryAddr_eq]
  exact ht.store hlt (by omega) _

theorem newPageTable_reached {s flags : Nat} (hs : s < 1024)
    (hc : frameOf M.cr3 = pdFrame L) (hd : M.Reaches (pdFrame L))
    (hfresh : (pmmAllocFrame M.pmm).1 ≠ 0 →
      ¬ TableFrame L M.phys (frameOf (pmmAllocFrame M.pmm).1) ∧
      M.Reaches (frameOf (pmmAllocFrame M.pmm).1)) :
    newPageTable machMem L M s flags = newPageTable physMem L M s flags := by
  have hpd := pdFrame_lt L
  have halloc : machMem.pmmAllocFrame M = physMem.pmmAllocFrame M := rfl
  rw [newPageTable_eq, newPageTable_eq, halloc]
  by_cases h0 : (physMem.pmmAllocFrame M).1 = 0
  · rw [if_pos h0, if_pos h0]
  · obtain ⟨hnt, hr⟩ := hfresh h0
    obtain ⟨heq, hlt⟩ := pmmAllocFrame_frame M.pmm
    have halloc' : physMem.pmmAllocFrame M =
      ((pmmAllocFrame M.pmm).1, M.withPmm (pmmAllocFrame M.pmm).2) := rfl
    rw [if_neg h0, if_neg h0, halloc']
    have hr' : (M.withPmm (pmmAllocFrame M.pmm).2).Reaches (frameOf (pmmAllocFrame M.pmm).1) := hr
    have hd' : (M.withPmm (pmmAllocFrame M.pmm).2).Reaches (pdFrame L) := hd
    have hfill := hr'.fill hc hnt 0 pageEntries (Nat.le_refl _)
    have hfill' := physMem_fill (M.withPmm (pmmAllocFrame M.pmm).2) hlt 0 pageEntries
      (Nat.le_refl _)
    rw [← heq] at hfill hfill'
    rw [hfill, hfill', Option.bind_some, Option.bind_some, pageDirectory_eq]
    have hd₂ : ((M.withPmm (pmmAllocFrame M.pmm).2).withPhys (M.phys.fill
        (frameOf (pmmAllocFrame M.pmm).1) 0 pageEntries)).Reaches (pdFrame L) := by
      refine hd'.congr rfl fun u hu => ?_
      rw [show frameOf (M.withPmm (pmmAllocFrame M.pmm).2).cr3 = pdFrame L from hc]
      exact walk_frame (fun g hg => Phys.fill_frame fun heq => hnt (heq ▸ hg)) hu
    exact congrArg (·.bind fun t => some (true, t)) (hd₂.store (by omega) hs _)

/-- **On the machine a call does what it does on `physMem`**, when the tables it
touches are reached. -/
theorem PageOp.run_reached (h : TreeOk L M.phys) (hok : o.Ok L M) (hr : o.Reached L M) :
    o.run machMem L M = o.run physMem L M := by
  have hpd := pdFrame_lt L
  cases o with
  | unmap va =>
    have hs := page_slot (va_page_lt hok)
    unfold PageOp.run pagingUnmapPage
    simp only [va_slot, va_index, pageDirectory_eq,
      hr.directory.load (Nat.lt_trans hpd (by omega)) hs,
      physMem_load M (Nat.lt_trans hpd (by omega)) hs, Option.bind_eq_bind, Option.bind_some]
    by_cases hp : isPresent (M.phys (pdFrame L) (va / pageSize / 1024)) = true
    · rw [if_pos hp, if_pos hp, entryAddr_eq]
      exact (hr.table hp).store (h.low _ hs hp) (by omega) _
    · rw [if_neg hp, if_neg hp]
  | map va pa flags =>
    obtain ⟨hva, -, hfresh⟩ := hok
    have hs := page_slot (va_page_lt hva)
    by_cases hp : isPresent (pdeAt L M.phys (va / pageSize)) = true
    · exact mapPage_reached hva hr.directory hp (hr.table hp) (h.low _ hs hp)
    · have hp' := Bool.eq_false_iff.mpr hp
      have hload : physMem.load M (L.pageDirectory + 4 * (va / 2 ^ 22)) =
          some (pdeAt L M.phys (va / pageSize)) := by
        rw [va_slot]; exact physMem_load_pd M hs
      have hload' : machMem.load M (L.pageDirectory + 4 * (va / 2 ^ 22)) =
          some (pdeAt L M.phys (va / pageSize)) := by
        rw [← hload, va_slot, pageDirectory_eq]
        exact hr.directory.load (by omega) hs
      have hsame : newPageTable machMem L M (va / 2 ^ 22) flags =
          newPageTable physMem L M (va / 2 ^ 22) flags := by
        rw [va_slot]
        exact newPageTable_reached hs hr.active hr.directory
          fun h0 => ⟨hfresh hp' h0, hr.fresh hp' h0⟩
      by_cases h0 : (pmmAllocFrame M.pmm).1 = 0
      · have hnone : newPageTable physMem L M (va / 2 ^ 22) flags =
            some (false, M.withPmm (pmmAllocFrame M.pmm).2) := by
          rw [newPageTable_eq, if_pos (show (physMem.pmmAllocFrame M).1 = 0 from h0)]
          rfl
        exact (pagingMapPage_noTable hload' hp' (hsame.trans hnone)).trans
          (pagingMapPage_noTable hload hp' hnone).symm
      · obtain ⟨M', hnew, hM', hpde, hf, hpe⟩ := newPageTable_page L M flags hva h0
        -- the walks are the same after the table is entered, so what was reached is
        have hreach : ∀ f, M.Reaches f → M'.Reaches f := fun f hf' => by
          refine hf'.congr (by rw [hM']; rfl) fun u hu => ?_
          rw [hr.active, hM']
          exact h.tree.walk_enter (offTree_iff.mpr (hfresh hp' h0)) hf hp' hu
        have hd := hreach _ hr.directory
        have hload₁ : physMem.load M' (L.pageDirectory + 4 * (va / 2 ^ 22)) =
            some (pdeFor (pmmAllocFrame M.pmm).1 flags) := by
          rw [va_slot, ← hpde]; exact physMem_load_pd M' hs
        have hload₁' : machMem.load M' (L.pageDirectory + 4 * (va / 2 ^ 22)) =
            some (pdeFor (pmmAllocFrame M.pmm).1 flags) := by
          rw [← hload₁, va_slot, pageDirectory_eq]
          exact hd.load (by omega) hs
        unfold PageOp.run
        simp only
        rw [pagingMapPage_newTable hload' hp' (hsame.trans hnew) hload₁' hpe,
          pagingMapPage_newTable hload hp' hnew hload₁ hpe]
        refine mapPage_reached hva hd (by rw [hpde]; exact hpe) ?_ ?_
        · rw [hpde, hf]
          exact hreach _ (hr.fresh hp' h0)
        · rw [hpde, hf]
          exact (pmmAllocFrame_frame M.pmm).2

theorem run_reached {s s' : Paged} {os : List PageOp} (h : PagedInv L s)
    (hrun : Run (pagedStep machMem L) (fun s o => o.Ok L s.mach ∧ o.Reached L s.mach) s os s') :
    Run (pagedStep physMem L) (fun s o => o.Ok L s.mach) s os s' := by
  induction hrun with
  | nil => exact .nil _
  | cons ho he _ ih =>
    have he' := he
    unfold pagedStep at he'
    rw [PageOp.run_reached h.tables ho.1 ho.2] at he'
    exact .cons ho.1 he' (ih (h.step ho.1 he'))

end Reach

end TupleOS.Memory
