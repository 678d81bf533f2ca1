import TupleOS.Boot.RealMode

/-!
# Stage 2 in protected mode keeps its buffers apart

`elf_load` copies the segments while the image, the map and stage 2 itself are
still in use, with its stack growing down towards the image. After the copy the
image is dead, and `build_multiboot` converts the map over what it has read of it
(`mbEntryUses_clean`).
-/

namespace TupleOS.Boot

open TupleOS.Base TupleOS.Memory

/-! ## Segments -/

/-- The lowest push in protected mode before the image is copied. -/
def pmLow (file : Bytes) : Nat :=
  if elfValid file then if elfPhnum file = 0 then 0x8FFFC else 0x8FFF4 else 0x8FFF8

/-- What lives while `elf_load` copies, with the loop's two words pushed. -/
def loadingWin (n size : Nat) : Set Nat :=
  codeWin ∪ mapWin n ∪ imageWin size ∪ Set.Ico 0x8FFF4 pmStackTop

/-- The bytes that loading the segment writes. -/
def Phdr.target (p : Phdr) : Set Nat := wrapWin p.paddr (max p.filesz p.memsz)

/-- Territories in protected mode, with the stack down to `low`. -/
def pmTerritory (low : Nat) (map image other : Set Nat) : Region → Set Nat
  | .pmStack => Set.Ico low pmStackTop
  | .code => codeWin
  | .map => map
  | .image => image
  | .other => other
  | _ => ∅

section PmMode

variable {low sp : Nat} {mapW imageW otherW mapT imageT otherT : Set Nat} {body : Nat → Uses}

theorem pm_push (hlow : low + 4 ≤ sp) (htop : sp ≤ pmStackTop)
    (hb : Within (pmTerritory low mapW imageW otherW) (pmTerritory low mapT imageT otherT)
      (body (sp - 4))) :
    Within (pmTerritory low mapW imageW otherW) (pmTerritory low mapT imageT otherT)
      (pmPush sp body) :=
  within_pushed subset_rfl subset_rfl (by omega) htop hb

theorem pm_setVar : Within (pmTerritory low mapW imageW otherW)
    (pmTerritory low mapT imageT otherT) setVar :=
  within_cons.mpr ⟨subset_rfl, within_nil⟩

end PmMode

theorem target_eq (p : Phdr) : p.target =
    wrapWin p.paddr p.filesz ∪ wrapWin (p.paddr + p.filesz) (p.memsz - p.filesz) := by
  ext a
  constructor
  · rintro ⟨k, hk, rfl⟩
    by_cases hf : k < p.filesz
    · exact .inl ⟨k, hf, rfl⟩
    · refine .inr ⟨k - p.filesz, by omega, ?_⟩
      rw [show p.paddr + p.filesz + (k - p.filesz) = p.paddr + k by omega]
  · rintro (⟨k, hk, rfl⟩ | ⟨k, hk, rfl⟩)
    · exact ⟨k, by omega, rfl⟩
    · exact ⟨p.filesz + k, by omega, by rw [Nat.add_assoc]⟩

theorem stays_elfSegments {r : Region} (hr : r ≠ .pmStack) (file : Bytes) (sp : Nat) :
    Stays r (elfSegments file sp) := by
  intro s hs
  obtain ⟨p, -, hp⟩ := List.mem_flatMap.mp hs
  have hseg : Stays r (loadSegment p) := by
    unfold loadSegment
    split
    · exact stays_write.mpr (stays_write.mpr stays_nil)
    · exact stays_nil
  exact (stays_pushed hr).mpr ((stays_pushed hr).mpr hseg) s hp

section Copy

variable {L : Region → Set Nat} {file : Bytes} {sp : Nat}

theorem clean_segment (h : Clean L (elfSegments file sp)) {p : Phdr} (hp : p ∈ phdrs file)
    (hload : p.type = 1) : Disjoint p.target (Set.Ico (sp - 4 - 4) pmStackTop) := by
  obtain ⟨before, rest, hsplit⟩ := List.append_of_mem hp
  unfold elfSegments at h
  rw [hsplit, List.flatMap_append, List.flatMap_cons] at h
  have hinner := clean_pushed.mp (clean_append.mp (clean_append.mp h).2).1
  have hseg := (clean_pushed.mp hinner.2).2
  rw [loadSegment, if_pos hload] at hseg
  rw [target_eq]
  have hapart : ∀ s, .write .other s ∈ ([.write .other (wrapWin p.paddr p.filesz),
      .write .other (wrapWin (p.paddr + p.filesz) (p.memsz - p.filesz))] : Uses) →
      Disjoint s (Set.Ico (sp - 4 - 4) pmStackTop) := fun s hs => by
    have := hseg.disjoint hs (show Region.pmStack ≠ .other by decide)
      (stays_write.mpr (stays_write.mpr stays_nil))
    rwa [Function.update_self] at this
  exact Set.disjoint_union_left.mpr ⟨hapart _ (by simp), hapart _ (by simp)⟩

theorem clean_segment_stays (h : Clean L (elfSegments file sp)) {p : Phdr} (hp : p ∈ phdrs file)
    (hload : p.type = 1) {r : Region} (hr : r ≠ .pmStack) (hother : r ≠ .other) :
    Disjoint p.target (L r) := by
  have hmem : ∀ u ∈ loadSegment p, u ∈ elfSegments file sp := fun u hu =>
    List.mem_flatMap.mpr ⟨p, hp, List.mem_cons_of_mem _ (List.mem_cons_of_mem _
      (List.mem_append_left _ (List.mem_cons_of_mem _ (List.mem_cons_of_mem _
        (List.mem_append_left _ hu)))))⟩
  rw [loadSegment, if_pos hload] at hmem
  rw [target_eq]
  exact Set.disjoint_union_left.mpr
    ⟨h.disjoint (hmem _ (by simp)) hother (stays_elfSegments hr file sp),
      h.disjoint (hmem _ (by simp)) hother (stays_elfSegments hr file sp)⟩

end Copy

theorem image_of_apart {lo hi size : Nat} (h : Disjoint (Set.Ico lo hi) (imageWin size))
    (hlo : 16 * kernelSeg ≤ lo) (hhi : lo < hi) : 16 * kernelSeg + size ≤ lo := by
  by_contra hn
  exact Set.disjoint_left.mp h (Set.mem_Ico.mpr ⟨le_refl lo, hhi⟩) ⟨hlo, by omega⟩

/-- What a clean run of `elf_load` needs. -/
theorem fits_of_clean {L : Region → Set Nat} {file : Bytes} {n size : Nat}
    (hcode : L .code = codeWin) (hmap : L .map = mapWin n) (himage : L .image = imageWin size)
    (h : Clean L (pmPush pmStackTop (elfLoad file))) :
    16 * kernelSeg + size ≤ pmLow file ∧
      (elfValid file → ∀ p ∈ phdrs file, p.type = 1 → Disjoint p.target
        (loadingWin n size)) := by
  obtain ⟨hcall, hbody⟩ := clean_pushed.mp h
  have himage' : ∀ {us : Uses} {lo hi}, Clean (Function.update L .pmStack
      (Set.Ico (pmStackTop - 4) pmStackTop)) us → .write .pmStack (Set.Ico lo hi) ∈ us →
      Stays .image us → Disjoint (Set.Ico lo hi) (imageWin size) := fun hc hw hs => by
    have := hc.disjoint hw (by decide) hs
    rwa [Function.update_of_ne (by decide), himage] at this
  unfold pmLow elfLoad at *
  by_cases hvalid : elfValid file
  · rw [if_pos hvalid] at hbody ⊢
    have hsegs : Clean (Function.update L .pmStack (Set.Ico (pmStackTop - 4) pmStackTop))
        (elfSegments file (pmStackTop - 4)) := (clean_append.mp (clean_append.mp hbody).1).2
    refine ⟨?_, fun _ p hp hload => ?_⟩
    · by_cases hnum : elfPhnum file = 0
      · rw [if_pos hnum]
        have := hcall .image (by decide)
        rw [himage] at this
        exact image_of_apart this (by decide) (by decide)
      · rw [if_neg hnum]
        have hne : phdrs file ≠ [] := fun hnil => by
          have := congrArg List.length hnil
          rw [phdrs, List.length_map, List.length_range] at this
          exact hnum this
        obtain ⟨p, hp⟩ := List.exists_mem_of_ne_nil _ hne
        have hpush : .write .pmStack (Set.Ico 0x8FFF4 0x8FFF8) ∈
            elfSegments file (pmStackTop - 4) :=
          List.mem_flatMap.mpr ⟨p, hp, List.mem_cons_of_mem _ (List.mem_cons_of_mem _
            (List.mem_append_left _ (List.mem_cons_self ..)))⟩
        exact image_of_apart (himage' hsegs hpush (stays_elfSegments (by decide) _ _)) (by decide)
          (by decide)
    · have hstays : ∀ r, r ≠ .pmStack → r ≠ .other → Disjoint p.target (L r) := by
        intro r hr hother
        have := clean_segment_stays hsegs hp hload hr hother
        rwa [Function.update_of_ne hr] at this
      refine Set.disjoint_union_right.mpr ⟨Set.disjoint_union_right.mpr
        ⟨Set.disjoint_union_right.mpr ⟨?_, ?_⟩, ?_⟩, clean_segment hsegs hp hload⟩
      · exact hcode ▸ hstays .code (by decide) (by decide)
      · exact hmap ▸ hstays .map (by decide) (by decide)
      · exact himage ▸ hstays .image (by decide) (by decide)
  · rw [if_neg hvalid] at hbody ⊢
    refine ⟨?_, fun hv => absurd hv hvalid⟩
    exact image_of_apart (himage' hbody (List.mem_cons_self ..) (by
      simp only [pmPrintLine, vga, pmPush]
      exact (stays_pushed (by decide)).mpr (stays_write.mpr stays_setVar))) (by decide) (by decide)

section Run

variable {L : Region → Set Nat} {file : Bytes} {n low size : Nat}

def vgaWin : Set Nat := Set.Ico 0xB8000 0xC0000

def targets (file : Bytes) : Set Nat := {a | ∃ p ∈ phdrs file, p.type = 1 ∧ a ∈ p.target}

theorem within_segments {map image : Set Nat} (hlow : phdrs file ≠ [] → low ≤ 0x8FFF4) :
    Within (pmTerritory low ∅ ∅ (targets file)) (pmTerritory low map image ∅)
      (elfSegments file (pmStackTop - 4)) := by
  intro u hu
  obtain ⟨p, hp, hu⟩ := List.mem_flatMap.mp hu
  have htop : pmStackTop = 0x90000 := rfl
  have hlow' := hlow (List.ne_nil_of_mem hp)
  refine pm_push (by omega) (by omega) (pm_push (by omega) (by omega) ?_) u hu
  unfold loadSegment
  split
  · rename_i hload
    refine within_cons.mpr ⟨fun a ha => ?_, within_cons.mpr ⟨fun a ha => ?_, within_nil⟩⟩
    · exact ⟨p, hp, hload, target_eq p ▸ .inl ha⟩
    · exact ⟨p, hp, hload, target_eq p ▸ .inr ha⟩
  · exact within_nil

theorem pm_apart {map image other : Set Nat} (hcode : Disjoint other codeWin)
    (hmap : Disjoint other map) (himage : Disjoint other image)
    (hstack : Disjoint other (Set.Ico low pmStackTop)) (hlow : 0xBE00 ≤ low)
    (hmap' : map ⊆ Set.Ico mmapEntries 0x7BDC) (himage' : image ⊆ Set.Ico 0xBE00 low) :
    ∀ r r', r' ≠ r →
      Disjoint (pmTerritory low ∅ ∅ other r) (pmTerritory low map image ∅ r') := by
  intro r r' hne
  have hcodeStack : Disjoint codeWin (Set.Ico low pmStackTop) :=
    Set.Ico_disjoint_Ico.mpr (by omega)
  have hstackImage : Disjoint (Set.Ico low pmStackTop) image :=
    (Set.Ico_disjoint_Ico.mpr (by omega)).mono_right himage'
  have hstackMap : Disjoint (Set.Ico low pmStackTop) map :=
    (Set.Ico_disjoint_Ico.mpr (by omega)).mono_right hmap'
  have hcodeMap : Disjoint codeWin map :=
    (Set.Ico_disjoint_Ico.mpr (by decide)).mono_right hmap'
  have hcodeImage : Disjoint codeWin image :=
    (Set.Ico_disjoint_Ico.mpr (by omega)).mono_right himage'
  cases r <;> cases r' <;> first
    | exact absurd rfl hne
    | exact Set.disjoint_empty _
    | exact Set.empty_disjoint _
    | assumption
    | exact hcodeStack.symm

theorem mapWin_subset (hn : n ≤ 297) : mapWin n ⊆ Set.Ico mmapEntries 0x7BDC :=
  Set.Ico_subset_Ico_right (by unfold mmapData; omega)

theorem vga_within {W T : Region → Set Nat} {pos : Nat} {text : String} (hW : vgaWin ⊆ W .other)
    (hpos : 0xB8000 ≤ pos) (hend : pos + 2 * text.length ≤ 0xC0000) : Within W T (vga pos text) :=
  within_cons.mpr ⟨(Set.Ico_subset_Ico hpos hend).trans hW, within_nil⟩

/-- Where the regions may live before the image is copied. -/
def copyT (file : Bytes) (n size : Nat) : Region → Set Nat :=
  pmTerritory (pmLow file) (mapWin n) (imageWin size) ∅

def handT (map : Set Nat) : Region → Set Nat := pmTerritory 0x8FFF4 map ∅ ∅

theorem pmLow_bounds (file : Bytes) : 0x8FFF4 ≤ pmLow file ∧ pmLow file ≤ 0x8FFFC := by
  unfold pmLow
  split
  · split <;> omega
  · omega

theorem copy_apart (hn : n ≤ 297) (hsize : 16 * kernelSeg + size ≤ pmLow file) {other : Set Nat}
    (hother : Disjoint other (loadingWin n size)) :
    ∀ r r', r' ≠ r → Disjoint (pmTerritory (pmLow file) ∅ ∅ other r) (copyT file n size r') := by
  obtain ⟨hcmi, hstack⟩ := Set.disjoint_union_right.mp hother
  obtain ⟨hcm, himage⟩ := Set.disjoint_union_right.mp hcmi
  obtain ⟨hcode, hmap⟩ := Set.disjoint_union_right.mp hcm
  obtain ⟨hlow, hlow'⟩ := pmLow_bounds file
  exact pm_apart hcode hmap himage (hstack.mono_right (Set.Ico_subset_Ico_left hlow)) (by omega)
    (mapWin_subset hn) (Set.Ico_subset_Ico (by decide) hsize)

theorem vga_loading (hn : n ≤ 297) (hsize : 16 * kernelSeg + size ≤ pmLow file) :
    Disjoint vgaWin (loadingWin n size) := by
  obtain ⟨hlow, hlow'⟩ := pmLow_bounds file
  have htop : pmStackTop = 0x90000 := rfl
  have hdata : mmapData = 0x6004 := rfl
  refine Set.disjoint_union_right.mpr ⟨Set.disjoint_union_right.mpr
    ⟨Set.disjoint_union_right.mpr ⟨?_, ?_⟩, ?_⟩, ?_⟩
  all_goals exact Set.Ico_disjoint_Ico.mpr (by omega)

theorem hand_apart {map other : Set Nat} (hmap : map ⊆ Set.Ico mmapEntries 0x7BDC)
    (hother : Disjoint other map) (hcode : Disjoint other codeWin)
    (hstack : Disjoint other (Set.Ico 0x8FFF4 pmStackTop)) :
    ∀ r r', r' ≠ r → Disjoint (pmTerritory 0x8FFF4 ∅ ∅ other r) (handT map r') :=
  pm_apart hcode hother (Set.disjoint_empty _) hstack (by decide) hmap (Set.empty_subset _)

theorem hand_clean {us : Uses} (hn : n ≤ 297) (hL : ∀ r, L r ⊆ handT (mapWin n) r)
    (h : Within (pmTerritory 0x8FFF4 ∅ ∅ vgaWin) (handT (mapWin n)) us) :
    Clean L us ∧ ∀ r, after L us r ⊆ handT (mapWin n) r :=
  ⟨clean_of_within (hand_apart (mapWin_subset hn)
    ((Set.Ico_disjoint_Ico.mpr (by decide)).mono_right (mapWin_subset hn))
    (Set.Ico_disjoint_Ico.mpr (by decide)) (Set.Ico_disjoint_Ico.mpr (by decide))) h hL,
    after_subset h hL⟩

theorem pmPrintLine_within {map : Set Nat} {low sp pos : Nat} {text : String}
    (hlow : low + 4 ≤ sp) (htop : sp ≤ pmStackTop) (hpos : 0xB8000 ≤ pos)
    (hend : pos + 2 * text.length ≤ 0xC0000) {image : Set Nat} :
    Within (pmTerritory low ∅ ∅ vgaWin) (pmTerritory low map image ∅)
      (pmPrintLine pos text sp) :=
  pm_push hlow htop (within_append.mpr ⟨vga_within subset_rfl hpos hend, pm_setVar⟩)

/-- `elf_load` of a file that fits. -/
theorem elfLoad_clean (hn : n ≤ 297) (hsize : 16 * kernelSeg + size ≤ pmLow file)
    (hsegs : elfValid file → ∀ p ∈ phdrs file, p.type = 1 → Disjoint p.target
      (loadingWin n size))
    (hL : ∀ r, L r ⊆ copyT file n size r) :
    Clean L (elfLoad file (pmStackTop - 4)) ∧ (elfValid file →
      ∀ r, after L (elfLoad file (pmStackTop - 4)) r ⊆ handT (mapWin n) r) := by
  unfold elfLoad
  by_cases hvalid : elfValid file
  · rw [if_pos hvalid]
    have htargets : Disjoint (targets file)
        (loadingWin n size) := by
      refine Set.disjoint_left.mpr ?_
      rintro a ⟨p, hp, hload, ha⟩
      exact Set.disjoint_left.mp (hsegs hvalid p hp hload) ha
    have hlow : phdrs file ≠ [] → pmLow file ≤ 0x8FFF4 := fun hne => by
      unfold pmLow
      rw [if_pos hvalid, if_neg]
      intro hzero
      exact hne (by rw [phdrs, hzero]; rfl)
    have hcopy : Within (pmTerritory (pmLow file) ∅ ∅ (targets file)) (copyT file n size)
        (setVar ++ elfSegments file (pmStackTop - 4)) :=
      within_append.mpr ⟨pm_setVar, within_segments hlow⟩
    have hafter := after_subset hcopy hL
    -- The image is gone from here, and the stack has all of its room.
    have hhand : ∀ r, (Use.live .image ∅).next (after L (setVar ++ elfSegments file
        (pmStackTop - 4))) r ⊆ handT (mapWin n) r := by
      intro r
      by_cases hr : r = .image
      · subst hr
        exact subset_rfl
      · rw [show (Use.live .image ∅).next _ r = _ from Function.update_of_ne hr ..]
        refine (hafter r).trans ?_
        cases r with
        | pmStack => exact Set.Ico_subset_Ico_left (pmLow_bounds file).1
        | image => exact absurd rfl hr
        | _ => exact subset_rfl
    have hdone : Within (pmTerritory 0x8FFF4 ∅ ∅ vgaWin) (handT (mapWin n))
        (elfDone (pmStackTop - 4)) :=
      within_append.mpr ⟨within_append.mpr ⟨vga_within subset_rfl (by decide) (by decide),
        pm_push (by decide) (by decide) (vga_within subset_rfl (by decide) (by decide))⟩, pm_setVar⟩
    obtain ⟨hclean, hlast⟩ := hand_clean hn hhand hdone
    refine ⟨clean_append.mpr ⟨clean_of_within (copy_apart hn hsize htargets) hcopy hL, trivial,
      hclean⟩, fun _ => ?_⟩
    rw [after_append]
    exact hlast
  · rw [if_neg hvalid]
    have hlow : pmLow file = 0x8FFF8 := by
      unfold pmLow
      exact if_neg hvalid
    have hline : Within (pmTerritory (pmLow file) ∅ ∅ vgaWin) (copyT file n size)
        (pmPrintLine pmVgaPos "[FAIL] Invalid ELF binary!" (pmStackTop - 4)) :=
      pmPrintLine_within (by rw [hlow]; decide) (by decide) (by decide) (by decide)
    exact ⟨clean_of_within (copy_apart hn hsize (vga_loading hn hsize)) hline hL,
      fun hv => absurd hv hvalid⟩

/-- The entries that are still to be read, from the `i`th. -/
def restWin (n i : Nat) : Set Nat := Set.Ico (mmapData + 24 * i) (mmapData + 24 * n)

/-- **The conversion stays below what it still reads.** -/
theorem mbEntryUses_clean (hn : n ≤ 297) {i : Nat} (hi : i < n)
    (hL : ∀ r, L r ⊆ handT (restWin n i) r) :
    Clean L (mbEntryUses n i) ∧ ∀ r, after L (mbEntryUses n i) r ⊆ handT (restWin n (i + 1)) r := by
  have hdata : mmapData = 0x6004 := rfl
  have hmmap : mbootMmap = 0x5100 := rfl
  have hinfo : mbootInfo = 0x5000 := rfl
  have hentries : mmapEntries = 0x6000 := rfl
  constructor
  · refine clean_of_within (hand_apart (Set.Ico_subset_Ico (by omega) (by omega))
      (Set.Ico_disjoint_Ico.mpr (by omega)) (Set.Ico_disjoint_Ico.mpr (by omega))
      (Set.Ico_disjoint_Ico.mpr (by omega)) :
      ∀ r r', r' ≠ r → Disjoint (pmTerritory 0x8FFF4 ∅ ∅
        (Set.Ico mbootInfo (mbootMmap + 24 * i + 24)) r) (handT (restWin n i) r')) ?_ hL
    exact within_cons.mpr ⟨Set.Ico_subset_Ico (by omega) (by omega), within_cons.mpr
      ⟨Set.Ico_subset_Ico (by omega) (by omega), within_cons.mpr
        ⟨Set.Ico_subset_Ico (by omega) (by omega), within_nil⟩⟩⟩
  · intro r
    by_cases hr : r = .map
    · subst hr
      exact subset_rfl
    · rw [show after L (mbEntryUses n i) r = L r from Function.update_of_ne hr ..]
      refine (hL r).trans ?_
      cases r <;> first | exact absurd rfl hr | exact subset_rfl

theorem mbEntries_clean (hn : n ≤ 297) (hL : ∀ r, L r ⊆ handT (restWin n 0) r) {i : Nat}
    (hi : i ≤ n) : Clean L ((List.range i).flatMap (mbEntryUses n)) ∧
      ∀ r, after L ((List.range i).flatMap (mbEntryUses n)) r ⊆ handT (restWin n i) r := by
  induction i with
  | zero => exact ⟨trivial, hL⟩
  | succ i ih =>
    obtain ⟨hclean, hafter⟩ := ih (by omega)
    obtain ⟨hclean', hafter'⟩ := mbEntryUses_clean hn (by omega) hafter
    rw [List.range_succ, List.flatMap_append, List.flatMap_singleton, after_append]
    exact ⟨clean_append.mpr ⟨hclean, hclean'⟩, hafter'⟩

theorem buildMultiboot_clean (hn : n ≤ 297) (hL : ∀ r, L r ⊆ handT (mapWin n) r) :
    Clean L (buildMultibootUses n pmStackTop) ∧
      ∀ r, after L (buildMultibootUses n pmStackTop) r ⊆ handT (mapWin n) r := by
  have hdata : mmapData = 0x6004 := rfl
  have hinfoWin : ∀ {map}, map ⊆ Set.Ico mmapEntries 0x7BDC → ∀ r r', r' ≠ r →
      Disjoint (pmTerritory 0x8FFF4 ∅ ∅ (Set.Ico mbootInfo (mbootInfo + 88)) r) (handT map r') :=
    fun hmap => hand_apart hmap ((Set.Ico_disjoint_Ico.mpr (by decide)).mono_right hmap)
      (Set.Ico_disjoint_Ico.mpr (by decide)) (Set.Ico_disjoint_Ico.mpr (by decide))
  -- The frame of the call.
  have hpush : ∀ r, Function.update L .pmStack (Set.Ico (pmStackTop - 4) pmStackTop) r ⊆
      handT (mapWin n) r := fun r => by
    by_cases hr : r = .pmStack
    · subst hr
      rw [Function.update_self]
      exact Set.Ico_subset_Ico_left (by decide)
    · rw [Function.update_of_ne hr]
      exact hL r
  generalize hL₁ : Function.update L .pmStack (Set.Ico (pmStackTop - 4) pmStackTop) = L₁ at hpush
  -- The count is read.
  have hread : ∀ r, (Use.live .map (Set.Ico mmapData (mmapData + 24 * n))).next L₁ r ⊆
      handT (restWin n 0) r := fun r => by
    by_cases hr : r = .map
    · subst hr
      exact subset_rfl
    · rw [show (Use.live .map _).next L₁ r = L₁ r from Function.update_of_ne hr ..]
      refine (hpush r).trans ?_
      cases r <;> first | exact absurd rfl hr | exact subset_rfl
  obtain ⟨hentries, hafter⟩ := mbEntries_clean hn hread (le_refl n)
  generalize hL₂ : after ((Use.live .map (Set.Ico mmapData (mmapData + 24 * n))).next L₁)
    ((List.range n).flatMap (mbEntryUses n)) = L₂ at hafter
  -- All entries are read.
  have hend : ∀ r, (Use.live .map ∅).next L₂ r ⊆ handT ∅ r := fun r => by
    by_cases hr : r = .map
    · subst hr
      exact subset_rfl
    · rw [show (Use.live .map ∅).next L₂ r = L₂ r from Function.update_of_ne hr ..]
      refine (hafter r).trans ?_
      cases r <;> first | exact absurd rfl hr | exact subset_rfl
  constructor
  · refine clean_pushed.mpr ⟨fun r' hne => ?_, ?_⟩
    · exact (hinfoWin (mapWin_subset hn) .pmStack r' hne).mono (Set.Ico_subset_Ico_left (by decide))
        (hL r')
    · rw [hL₁]
      refine ⟨fun r' hne => ((hinfoWin (mapWin_subset hn)) .other r' hne).mono_right (hpush r'),
        trivial, clean_append.mpr ⟨hentries, ?_⟩⟩
      show Clean (after ((Use.live .map _).next L₁) _) _
      rw [hL₂]
      exact ⟨trivial, fun r' hne =>
        ((hinfoWin (Set.empty_subset _)) .other r' hne).mono_right (hend r'), trivial⟩
  · intro r
    unfold buildMultibootUses pmPush
    rw [after_pushed]
    by_cases hr : r = .pmStack
    · subst hr
      rw [Function.update_self]
      exact Set.Ico_subset_Ico_left (by decide)
    · rw [Function.update_of_ne hr, hL₁]
      show after ((Use.live .map _).next L₁) (_ ++ _) r ⊆ _
      rw [after_append, hL₂]
      refine (hend r).trans ?_
      cases r <;> first | exact Set.empty_subset _ | exact subset_rfl

theorem handOff_clean (hn : n ≤ 297) (hL : ∀ r, L r ⊆ handT (mapWin n) r) :
    Clean L (handOff n) := by
  have hline : ∀ {pos text}, 0xB8000 ≤ pos → pos + 2 * text.length ≤ 0xC0000 →
      Within (pmTerritory 0x8FFF4 ∅ ∅ vgaWin) (handT (mapWin n))
        (pmPrintLine pos text pmStackTop) :=
    fun hpos hend => pmPrintLine_within (by decide) (by decide) hpos hend
  obtain ⟨hfirst, hafter⟩ := hand_clean hn hL (hline (by decide) (by decide) :
    Within _ _ (pmPrintLine (nextRow pmVgaPos) "Building multiboot info struct..." pmStackTop))
  obtain ⟨hbuild, hafter'⟩ := buildMultiboot_clean hn hafter
  obtain ⟨hlast, -⟩ := hand_clean hn hafter' (hline (by decide) (by decide) :
    Within _ _ (pmPrintLine (nextRow (nextRow pmVgaPos)) "Jumping to kernel entry point..."
      pmStackTop))
  unfold handOff
  refine clean_append.mpr ⟨clean_append.mpr ⟨hfirst, hbuild⟩, ?_⟩
  rw [after_append]
  exact hlast

/-- Protected mode, from the layout that real mode leaves. -/
theorem pmEntry_clean_iff (hn : n ≤ 297) :
    Clean (layout (mapWin n) ∅ (imageWin size)) (pmEntry file n) ↔
      16 * kernelSeg + size ≤ pmLow file ∧
      (elfValid file → ∀ p ∈ phdrs file, p.type = 1 → Disjoint p.target
        (loadingWin n size)) := by
  have hL : (Use.live .stack ∅).next (layout (mapWin n) ∅ (imageWin size)) =
      layout (mapWin n) ∅ (imageWin size) := Function.update_eq_self _ _
  unfold pmEntry
  constructor
  · intro h
    have htail := h.2
    rw [hL] at htail
    exact fits_of_clean rfl rfl rfl (clean_append.mp (clean_append.mp htail).1).2
  · rintro ⟨hsize, hsegs⟩
    have hcopy : ∀ r, layout (mapWin n) ∅ (imageWin size) r ⊆ copyT file n size r := fun r => by
      cases r <;> first | exact subset_rfl | exact Set.empty_subset _
    have hframe : ∀ r, Function.update (layout (mapWin n) ∅ (imageWin size)) .pmStack
        (Set.Ico (pmStackTop - 4) pmStackTop) r ⊆ copyT file n size r := fun r => by
      by_cases hr : r = .pmStack
      · subst hr
        rw [Function.update_self]
        exact Set.Ico_subset_Ico_left (pmLow_bounds file).2
      · rw [Function.update_of_ne hr]
        exact hcopy r
    obtain ⟨hload, hafter⟩ := elfLoad_clean hn hsize hsegs hframe
    have happart := copy_apart hn hsize (vga_loading hn hsize)
    refine ⟨trivial, ?_⟩
    rw [hL]
    refine clean_append.mpr ⟨clean_append.mpr ⟨?_, clean_pushed.mpr ⟨fun r' hne => ?_, hload⟩⟩, ?_⟩
    · exact clean_of_within happart (vga_within subset_rfl (by decide) (by decide)) hcopy
    · exact (happart .pmStack r' hne).mono (Set.Ico_subset_Ico_left (pmLow_bounds file).2)
        (hcopy r')
    · split
      · rename_i hvalid
        refine handOff_clean hn fun r => ?_
        rw [after_append]
        unfold pmPush
        rw [after_pushed]
        by_cases hr : r = .pmStack
        · subst hr
          rw [Function.update_self]
          exact Set.Ico_subset_Ico_left (by decide)
        · rw [Function.update_of_ne hr]
          exact hafter hvalid r
      · trivial

end Run

end TupleOS.Boot
