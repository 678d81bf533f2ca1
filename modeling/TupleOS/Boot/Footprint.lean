import TupleOS.Boot.ElfLoad
import TupleOS.Boot.Layout
import TupleOS.Boot.ReadErrors

/-!
# The uses of stage 2 against its code (`boot/stage2.asm`)

`stage2` lists what each routine writes. Three of the routines are also modelled step by
step, over the bytes of memory: the FAT16 reader, `elf_load` and `build_multiboot`. Here
the lists are compared with them: from the start of each routine to its end, memory
changes only where the list of the routine has a write (`routines_covered`).
-/

namespace TupleOS.Boot

open TupleOS.Base TupleOS.Memory
open StateTransition (Reaches)

/-! ## The multiboot info -/

section Multiboot

variable {m : Bytes} {n sp a : Nat}

theorem mbEntryUses_mem {i : Nat} (hi : i < n) {u : Use Region Nat} (hu : u ∈ mbEntryUses n i) :
    u ∈ buildMultibootUses n sp := by
  refine subset_pushed _ _ _ _ _ (List.mem_cons_of_mem _ (List.mem_cons_of_mem _
    (List.mem_append_left _ ?_)))
  exact List.mem_flatMap.mpr ⟨i, List.mem_range.mpr hi, hu⟩

/-- **`build_multiboot`** over a map of `n` entries. -/
theorem buildMultiboot_covered (hn : load32 m mmapEntries = n) (hfit : mbootMmap + 24 * n < 2 ^ 32)
    (mbootName sp : Nat) : Covers (buildMultibootUses n sp) m (buildMultiboot m mbootName) := by
  intro a ha
  have hinfo : a ∉ Set.Ico mbootInfo (mbootInfo + 88) :=
    notMem_of_writes ha (subset_pushed _ _ _ _ _ List.mem_cons_self)
  have hout : a < mbootMmap ∨ mbootMmap + 24 * n ≤ a := by
    by_contra hin
    have hi : (a - mbootMmap) / 24 < n := by omega
    exact notMem_of_writes ha (mbEntryUses_mem hi List.mem_cons_self)
      (Set.mem_Ico.mpr ⟨by omega, by omega⟩)
  rw [Set.mem_Ico] at hinfo
  have hcount : load32 (zeroWords m mbootInfo 22) mmapEntries = n := by
    rw [load32_congr (zeroWords_agree m (.inr (by unfold mbootInfo mmapEntries; omega)))]
    exact hn
  have hzero : AgreeOn m (zeroWords m mbootInfo 22) a (a + 1) := zeroWords_agree m (by omega)
  have hloop : AgreeOn _ (mbConvert (zeroWords m mbootInfo 22) mmapData mbootMmap 0 n).1
      a (a + 1) := mbConvert_agree n _ _ _ _ hfit (by omega) (by omega)
  unfold buildMultiboot
  simp only [hcount]
  generalize mbConvert (zeroWords m mbootInfo 22) mmapData mbootMmap 0 n = r at hloop
  obtain ⟨m', edx⟩ := r
  have hwin : InWin a (a + 1) a := ⟨by omega, by omega⟩
  rw [store32_out (by omega), store32_out (by omega), store32_out (by omega),
    store32_out (by omega), hloop a hwin, hzero a hwin]

end Multiboot

/-! ## The FAT16 reader -/

section Fat

open Fat16 (Bios State chainAt segAt imageMem)

variable {b : Bios} {s u : State} {x : BootInput} {fat : Nat → Nat} {k n spc : Nat}

theorem subset_readSectors (buffer : Uses) (sp : Nat) : buffer ⊆ readSectors buffer sp :=
  fun _ hu => subset_pushed _ _ _ _ _ (subset_pushed _ _ _ _ _
    (List.mem_append_right _ (subset_pushed _ _ _ _ _ hu)))

theorem read_covered (b : Bios) (sp : Nat) (hspc : u.vars.spc = spc) (hlt : spc < 2 ^ 16)
    (j : Nat) :
    Covers (push sp 2 (readSectors [.write .image
      (Set.Ico (16 * segAt spc j) (16 * segAt spc j + 512 * spc))]))
      (imageMem b u j) (imageMem b u (j + 1)) := by
  refine Covers.of_write (subset_pushed _ _ _ _ _
    (subset_readSectors _ _ List.mem_cons_self)) fun a ha => ?_
  have hw : Fat16.w16 spc = spc := Nat.mod_eq_of_lt hlt
  rw [Fat16.imageMem_succ, hspc, hw, Fat16.fill, if_neg]
  exact fun hin => ha (Set.mem_Ico.mpr hin)

/-- **The loop of uses goes through the rounds of `.load_cluster`**, from round `j` to the
last one, `n`. -/
theorem loadCluster_covered (sp : Nat) (hspc : u.vars.spc = spc) (hlt : spc < 2 ^ 16)
    (hfat : ∀ j ≤ n, fat (chainAt b u j) = chainAt b u (j + 1))
    (hgo : ∀ j < n, chainAt b u (j + 1) < 0xFFF8) (hstop : 0xFFF8 ≤ chainAt b u (n + 1)) :
    ∀ fuel j, j ≤ n → n < j + fuel →
      ∃ us, loadCluster fat spc sp fuel (chainAt b u j) (segAt spc j) = some us ∧
        Covers us (imageMem b u j) (imageMem b u (n + 1)) := by
  intro fuel
  induction fuel with
  | zero => intro j h1 h2; omega
  | succ fuel ih =>
    intro j hj hfuel
    have hread := (read_covered b sp hspc hlt j).append (.refl setVar _)
    have hseg : (segAt spc j + 32 * spc) % 2 ^ 16 = segAt spc (j + 1) :=
      (Nat.add_mod_mod _ _ _).symm
    rcases Nat.lt_or_eq_of_le hj with hmore | rfl
    · obtain ⟨us, hus, hrest⟩ := ih (j + 1) hmore (by omega)
      refine ⟨_, ?_, hread.append hrest⟩
      rw [loadCluster, hfat j hj, if_pos (hgo j hmore), hseg, hus]
      rfl
    · refine ⟨_, ?_, hread⟩
      rw [loadCluster, hfat j hj, if_neg (Nat.not_lt.mpr hstop)]

/-- The BIOS and the disk of the step model give what `x` says: every read succeeds, the
kernel is entry `k` of the root directory, and its clusters are followed in the FAT as
`fat16_init` has cached it. -/
structure Serves (b : Bios) (s : State) (x : BootInput) (k : Nat) : Prop where
  ok : ∀ n, b.ok n = true
  fatSize : (Fat16.knownVars b).fatSize = x.fatSize
  spc : (Fat16.knownVars b).spc = x.spc
  kernel : Fat16.KernelAt b k
  scanned : x.scanned = k / 16 + 1
  first : load16 (Fat16.entryAt b (Fat16.knownVars b).rootStart k) 0x1A = x.first
  fat : ∀ c ∈ x.first :: x.rest, ∀ n,
    Fat16.lookup b n (Fat16.kernelCall b s k).mem (Fat16.entryOffset c) = x.fat c

theorem Serves.search_covered (h : Serves b s x k) :
    Covers (fat16Init x.fatSize stackTop ++ fat16FindFile x.scanned stackTop) s.mem
      (Fat16.kernelCall b s k).mem := by
  intro a ha
  -- the reads of `fat16_init`
  have hmem : ∀ {u : Use Region Nat}, u ∈ readSectors sectorRead (stackTop - 2 - 2) ++ setVar ++
      readSectors [.write .fat (fatWin x.fatSize), .live .fat (fatWin x.fatSize)]
        (stackTop - 2 - 2) →
      u ∈ fat16Init x.fatSize stackTop ++ fat16FindFile x.scanned stackTop := fun hu =>
    List.mem_append_left _ (subset_pushed _ _ _ _ _ (List.mem_append_left _
      (List.mem_append_right _ (subset_pushed _ _ _ _ _ hu))))
  have hsector : a ∉ Set.Ico sectorBuf (sectorBuf + 512) :=
    notMem_of_writes ha (hmem (List.mem_append_left _ (List.mem_append_left _
      (subset_readSectors _ _ List.mem_cons_self))))
  have hcache : a ∉ fatWin x.fatSize :=
    notMem_of_writes ha (hmem (List.mem_append_right _
      (subset_readSectors _ _ List.mem_cons_self)))
  have hw : Fat16.w16 x.fatSize = x.fatSize := Nat.mod_eq_of_lt (by have := x.fatSize_le; omega)
  rw [Set.mem_Ico] at hsector
  unfold fatWin at hcache
  rw [Set.mem_Ico] at hcache
  show Fat16.fill (Fat16.cachedMem b.disk s.mem (Fat16.knownVars b)) sectorBuf 1 _ a = _
  unfold Fat16.cachedMem Fat16.fill
  rw [h.fatSize, hw, if_neg (by unfold InWin; omega), if_neg (by unfold InWin; omega),
    if_neg (by unfold InWin; omega)]

theorem Follows.next_eq {cs : List Nat} (h : Follows fat cs) : ∀ i (hi : i + 1 < cs.length),
    cs[i + 1] = fat cs[i] ∧ cs[i + 1] < 0xFFF8 := by
  induction h with
  | last => intro i hi; simp at hi
  | next h hcs ih =>
    intro i hi
    cases i with
    | zero => exact ⟨rfl, h⟩
    | succ i => exact ih i (by simpa using hi)

theorem Follows.end_le {cs : List Nat} (h : Follows fat cs) (hne : cs ≠ []) :
    0xFFF8 ≤ fat (cs.getLast hne) := by
  induction h with
  | last h => exact h
  | next h hcs ih => exact ih (List.cons_ne_nil _ _)

theorem Serves.high (h : Serves b s x k) (hu : Fat16.SameLoad (Fat16.kernelCall b s k) u) {i : Nat}
    (hi : i ≤ x.rest.length) : kernelSeg ≤ segAt u.vars.spc i := by
  have hparas := x.paragraphs_lt
  have hmul : 32 * x.spc * i ≤ 32 * x.spc * (x.rest.length + 1) :=
    Nat.mul_le_mul_left _ (by omega)
  have hle := x.spc_le
  unfold kernelSeg at *
  rw [hu.spc.trans h.spc, Fat16.segAt_eq (by omega) (by omega)]
  exact Nat.le_add_right _ _

theorem Serves.chain (h : Serves b s x k) (hu : Fat16.SameLoad (Fat16.kernelCall b s k) u) :
    (∀ i (hi : i < (x.first :: x.rest).length), chainAt b u i = (x.first :: x.rest)[i]) ∧
      ∀ i ≤ x.rest.length, x.fat (chainAt b u i) = chainAt b u (i + 1) := by
  have hlookup : ∀ i (hi : i < (x.first :: x.rest).length),
      chainAt b u i = (x.first :: x.rest)[i] → chainAt b u (i + 1) = x.fat (chainAt b u i) :=
    fun i hi heq => by
      rw [Fat16.chainAt_low fun j hj => h.high hu (by rw [List.length_cons] at hi; omega), hu.mem,
        heq]
      exact h.fat _ (List.getElem_mem hi) _
  have hchain : ∀ i (hi : i < (x.first :: x.rest).length),
      chainAt b u i = (x.first :: x.rest)[i] := by
    intro i
    induction i with
    | zero =>
      intro _
      show u.ax = x.first
      rw [hu.ax, ← h.first]
      exact Nat.mod_eq_of_lt (load16_lt _ _)
    | succ i ih =>
      intro hi
      have hprev := ih (Nat.lt_of_succ_lt hi)
      rw [hlookup i _ hprev, hprev]
      exact (x.chain.next_eq i hi).1.symm
  exact ⟨hchain, fun i hi => (hlookup i (by rw [List.length_cons]; omega)
    (hchain i (by rw [List.length_cons]; omega))).symm⟩

/-- **The FAT16 reader**, from step 8 of `stage2_start` to the loaded kernel. -/
theorem fat16_covered (hs : Fat16.Booted s) (h : Serves b s x k) (hfits : x.fatSize ≤ 53)
    {fuel : Nat} (hfuel : x.rest.length + 1 ≤ fuel) :
    ∃ t us, Reaches (Fat16.step b) s t ∧ t.pc = .kernelReady ∧
      fat16LoadFile x.fat x.spc x.file.size x.first fuel stackTop = some us ∧
      Covers (fat16Init x.fatSize stackTop ++ fat16FindFile x.scanned stackTop ++ us)
        s.mem t.mem := by
  have hfit : Fat16.FatFits b := fun h0 => by
    have hsize := h.fatSize
    unfold Fat16.knownVars at hsize
    rw [if_pos h0] at hsize
    unfold Fat16.Bios.count
    rw [if_pos (h.ok 1), hsize]
    exact hfits
  rcases Fat16.search_done hs hfit with ⟨-, -, -, hno⟩ | ⟨u, k', hu, hk', hpc, hst, -, hsame⟩
  · exact absurd h.kernel (hno k)
  obtain rfl := h.kernel.1.unique hk'.1
  have hload := hsame (h.ok 0) (h.ok 1)
  have hspc : u.vars.spc = x.spc := hload.spc.trans h.spc
  obtain ⟨hchain, hfat⟩ := h.chain hload
  -- the chain goes on before the last cluster, and ends there
  have hgo : ∀ i < x.rest.length, chainAt b u (i + 1) < 0xFFF8 := fun i hi => by
    rw [hchain (i + 1) (by rw [List.length_cons]; omega)]
    exact (x.chain.next_eq i (by rw [List.length_cons]; omega)).2
  have hend : 0xFFF8 ≤ chainAt b u (x.rest.length + 1) := by
    rw [← hfat _ (Nat.le_refl _), hchain _ (by rw [List.length_cons]; omega)]
    have hlast := x.chain.end_le (List.cons_ne_nil _ _)
    rwa [List.getLast_eq_getElem] at hlast
  obtain ⟨us, hus, hcovers⟩ := loadCluster_covered (stackTop - 2) hspc
    (by have := x.spc_le; omega) hfat hgo hend fuel 0 (Nat.zero_le _) (by omega)
  obtain ⟨t, ht, htpc, -, -, hloaded⟩ := Fat16.stops_returns hpc hst
    (fun i hi hstop => by
      rcases hstop with hfail | hlast
      · exact Bool.false_ne_true (hfail.symm.trans (h.ok _))
      · exact Nat.not_lt.mpr hlast (hgo i hi))
    (fun i hi => Fat16.lands_of_high (h.high hload hi)) (.inr hend)
  have hfirst : chainAt b u 0 = x.first := hchain 0 (Nat.zero_lt_succ _)
  rw [hfirst, show segAt x.spc 0 = kernelSeg from rfl] at hus
  refine ⟨t, _, hu.trans ht, htpc, by rw [fat16LoadFile, hus]; rfl, ?_⟩
  rw [(hloaded (h.ok _)).mem]
  refine h.search_covered.append ?_
  rw [← hload.mem]
  exact hcovers.mono fun _ hw => List.mem_append_left _ (subset_pushed _ _ _ _ _
    (List.mem_cons_of_mem _ (List.mem_append_left _ (List.mem_append_right _ hw))))

end Fat

-- the disk of `Fat16.kernelBios`, with a file of two clusters
example : ∃ x : BootInput, x.first :: x.rest = [2, 3] ∧
    Serves { Fat16.kernelBios 0 with ok := fun _ => true } Fat16.bootState x 0 := by
  refine ⟨{
    a20 := ⟨false, true, true⟩, replies := [], e801 := true
    spc := 1, spc_pos := by decide, spc_le := by decide
    fatSize := 1, fatSize_pos := by decide, fatSize_le := by decide
    fat := fun c => if c = 2 then 3 else 0xFFFF
    scanned := 1, scanned_pos := by decide
    file := ⟨fun _ => 0, 1024, by decide, by decide⟩
    first := 2, rest := [3]
    chain := .next (by decide) (.last (by decide)), clusters := by decide }, rfl, ?_⟩
  refine ⟨fun _ => rfl, by decide, by decide, ⟨⟨by decide, ⟨by decide, by decide, by decide⟩,
    fun j hj => absurd hj (Nat.not_lt_zero j), fun j hj => absurd hj (Nat.not_lt_zero j),
    fun _ _ => rfl⟩, by decide⟩, rfl, by decide, fun c hc n => ?_⟩
  show Fat16.lookup { Fat16.kernelBios 0 with ok := fun _ => true } 0 _ _ = _
  rcases List.mem_pair.mp hc with rfl | rfl <;> decide

/-! ## The ELF loader -/

/-- A program header, as the uses have it. -/
def phdrOf (h : Elf.Header) : Phdr := ⟨h.type, h.paddr, h.filesz, h.memsz⟩

/-- What loading the segments of `hs` writes, with the two pushes of each round. -/
def segmentUses (hs : List Elf.Header) : Uses :=
  hs.flatMap fun h => pmPush (pmStackTop - 4) fun sp => pmPush sp fun _ => loadSegment (phdrOf h)

section Elf

open Elf (Header headerAt headerPtr headers elfBase LoopAt)

variable {P : Elf.Placement} {m : Bytes} {s : Elf.State} {f : KernelFile} {h : Header}
  {hs : List Header} {W : Set Nat} {a i n : Nat}

theorem target_iff : h.Target a ↔ h.type = 1 ∧ a ∈ (phdrOf h).target := Iff.rfl

/-- **The headers that the loop reads** are those of the uses. -/
theorem phdrs_image (hfit : ∀ i < elfPhnum (Elf.image m), headerPtr m i + 24 < 2 ^ 32) :
    phdrs (Elf.image m) = (headers m).map phdrOf := by
  unfold phdrs headers
  rw [List.map_map]
  refine List.map_congr_left fun i hi => ?_
  have hlt := hfit i (List.mem_range.mp hi)
  unfold headerPtr at hlt
  generalize hoff : elfPhoff (Elf.image m) + i * elfPhentsize (Elf.image m) = off
  have hptr : elfBase + elfPhoff (Elf.image m) + i * elfPhentsize (Elf.image m) =
      elfBase + off := by
    rw [← hoff, Nat.add_assoc]
  have hword : ∀ k, load32 m (elfBase + off + k) = load32 (Elf.image m) (off + k) := fun k => by
    rw [Nat.add_assoc]
    exact load32_add m elfBase _
  have htype : load32 m (elfBase + off) = load32 (Elf.image m) off := hword 0
  show phdrAt (Elf.image m) off = phdrOf (headerAt m _)
  rw [hptr] at hlt ⊢
  simp only [phdrAt, phdrOf, headerAt, w32_of_lt (show elfBase + off + 12 < 2 ^ 32 by omega),
    w32_of_lt (show elfBase + off + 16 < 2 ^ 32 by omega),
    w32_of_lt (show elfBase + off + 20 < 2 ^ 32 by omega), hword, htype]

theorem spares_of_disjoint {lo hi : Nat} (hd : h.type = 1 → Disjoint (phdrOf h).target W)
    (hsub : ∀ a, InWin lo hi a → a ∈ W) : h.Spares lo hi := fun a ht hin =>
  Set.disjoint_left.mp (hd ht.1) ht.2 (hsub a hin)

theorem mem_writes_segmentUses (ha : a ∈ writes (segmentUses hs)) :
    ∃ h ∈ hs, Elf.OnStack a ∨ h.Target a := by
  obtain ⟨r, w, hw, ha⟩ := ha
  obtain ⟨h, hh, hw⟩ := List.mem_flatMap.mp hw
  refine ⟨h, hh, ?_⟩
  simp only [pmPush, pushed, loadSegment, List.mem_cons, List.mem_append, List.not_mem_nil,
    Use.write.injEq, reduceCtorEq, false_or, or_false] at hw
  rcases hw with ⟨-, rfl⟩ | ⟨-, rfl⟩ | hw
  · exact .inl ⟨Nat.le_trans (by decide) ha.1, ha.2⟩
  · exact .inl ⟨ha.1, Nat.lt_of_lt_of_le ha.2 (by decide)⟩
  · split at hw
    · rename_i ht
      refine .inr (target_iff.mpr ⟨ht, ?_⟩)
      rw [target_eq]
      simp only [List.mem_cons, List.not_mem_nil, or_false, Use.write.injEq] at hw
      rcases hw with ⟨-, rfl⟩ | ⟨-, rfl⟩
      · exact .inl ha
      · exact .inr ha
    · exact absurd hw List.not_mem_nil

theorem round_covered (s : Elf.State) (h : Header) :
    Covers (segmentUses [h]) s.mem (Elf.roundMem (Elf.pushedMem s) h) := by
  intro a ha
  unfold segmentUses at ha
  rw [List.flatMap_singleton] at ha
  have hcounter : a ∉ Set.Ico (pmStackTop - 4 - 4) (pmStackTop - 4) :=
    notMem_of_writes ha List.mem_cons_self
  have hpointer : a ∉ Set.Ico (pmStackTop - 4 - 4 - 4) (pmStackTop - 4 - 4) :=
    notMem_of_writes ha (subset_pushed _ _ _ _ _ List.mem_cons_self)
  have hsegment : ∀ r w, .write r w ∈ loadSegment (phdrOf h) → a ∉ w := fun r w hw =>
    notMem_of_writes ha (subset_pushed _ _ _ _ _ (subset_pushed _ _ _ _ _ hw))
  have htarget : ¬ h.Target a := by
    rintro ⟨ht, hin⟩
    have hin' : a ∈ (phdrOf h).target := hin
    rw [loadSegment, if_pos (show (phdrOf h).type = 1 from ht)] at hsegment
    rw [target_eq] at hin'
    rcases hin' with hin' | hin'
    · exact hsegment _ _ List.mem_cons_self hin'
    · exact hsegment _ _ (List.mem_cons_of_mem _ List.mem_cons_self) hin'
  rw [Elf.roundMem_out htarget]
  have hstack : a + 1 ≤ 0x8FFF4 ∨ 0x8FFFC ≤ a := by
    unfold pmStackTop at hcounter hpointer
    rw [Set.mem_Ico] at hcounter hpointer
    omega
  exact Elf.pushedMem_agree s hstack a ⟨Nat.le_refl a, Nat.lt_succ_self a⟩

/-- The loop with what it has written. -/
structure AtPhdr (m : Bytes) (i : Nat) (s : Elf.State) : Prop extends LoopAt m i s where
  covers : Covers (segmentUses ((headers m).take i)) m s.mem

/-- The file in `m` holds its headers and is below the stack, and its segments are loaded
away from it, from stage 2 and from the stack. -/
structure Loadable (P : Elf.Placement) (m : Bytes) (size : Nat) : Prop where
  table : ∀ i < elfPhnum (Elf.image m),
    elfPhoff (Elf.image m) + i * elfPhentsize (Elf.image m) + 24 ≤ size
  below : 0 < elfPhnum (Elf.image m) → elfBase + size ≤ 0x8FFF4
  apart : ∀ h ∈ headers m, h.type = 1 →
    Disjoint (phdrOf h).target (codeWin ∪ imageWin size ∪ Set.Ico 0x8FFF4 pmStackTop)
  vars : 0x7E00 ≤ P.kernelEntry ∧ P.kernelEntry + 16 ≤ 0xBE00
  stride : load16 m P.elfPhentsize = elfPhentsize (Elf.image m)

theorem Loadable.kept {size : Nat} (h₀ : Loadable P m size) (hsub : ∀ h ∈ hs, h ∈ headers m)
    {m' : Bytes} (hc : Covers (segmentUses hs) m m') (ha : a ∈ codeWin ∪ imageWin size) :
    m' a = m a := by
  refine hc a fun hw => ?_
  obtain ⟨h, hh, hst | ht⟩ := mem_writes_segmentUses hw
  · have hn : 0 < elfPhnum (Elf.image m) := by
      rw [← Elf.headers_length]
      exact List.length_pos_of_mem (hsub h hh)
    have hbelow := h₀.below hn
    have hbase : 16 * kernelSeg = elfBase := rfl
    have hlow := hst.1
    rcases ha with ha | ha
    · have := ha.2
      omega
    · have := ha.2
      omega
  · exact Set.disjoint_left.mp (h₀.apart h (hsub h hh) ht.1) ht.2 (.inl ha)

theorem Loadable.ptr_le {size : Nat} (h₀ : Loadable P m size) (hi : i < elfPhnum (Elf.image m)) :
    headerPtr m i + 24 ≤ elfBase + size ∧ elfBase + size ≤ 0x8FFF4 := by
  have htable := h₀.table i hi
  have hbelow := h₀.below (by omega)
  unfold headerPtr
  omega

theorem AtPhdr.round {size : Nat} (h₀ : Loadable P m size) (hi : i < elfPhnum (Elf.image m))
    (h : AtPhdr m i s) : ∃ s', Reaches (Elf.elfStep P) s s' ∧ AtPhdr m (i + 1) s' := by
  obtain ⟨hptr, hbelow⟩ := h₀.ptr_le hi
  obtain ⟨hlo, hhi⟩ := h₀.vars
  have hbase : 16 * kernelSeg = elfBase := rfl
  have hkept : ∀ a ∈ codeWin ∪ imageWin size, s.mem a = m a := fun a ha =>
    h₀.kept (fun h => List.mem_of_mem_take) h.covers ha
  have himage : ∀ a, InWin (headerPtr m i) (headerPtr m i + 24) a → a ∈ imageWin size :=
    fun a ha => by
      obtain ⟨h1, h2⟩ := ha
      unfold headerPtr at h1
      exact ⟨by omega, by omega⟩
  have hvar : ∀ a, InWin P.elfPhentsize (P.elfPhentsize + 2) a → a ∈ codeWin := fun a ha => by
    obtain ⟨h1, h2⟩ := ha
    unfold Elf.Placement.elfPhentsize at h1 h2
    exact ⟨by omega, by omega⟩
  have hnext : headerAt m (headerPtr m i) ∈ headers m := by
    refine List.mem_of_mem_take (i := i + 1) ?_
    rw [Elf.headers_take hi]
    exact List.mem_append_right _ List.mem_cons_self
  have hapart := h₀.apart _ hnext
  obtain ⟨s', hr, hat, hmem⟩ := h.toLoopAt.round hi (by omega)
    (fun a ha => hkept a (.inr (himage a ha)))
    ((load16_congr fun a ha => hkept a (.inl (hvar a ha))).trans h₀.stride)
    ⟨spares_of_disjoint hapart fun a ha => .inl (.inr (himage a ha)),
      spares_of_disjoint hapart fun a ha => .inr ⟨ha.1, Nat.lt_of_lt_of_le ha.2 (by decide)⟩,
      spares_of_disjoint hapart fun a ha => .inl (.inl (hvar a ha))⟩ hhi
  refine ⟨s', hr, hat, ?_⟩
  rw [hmem, Elf.headers_take hi, segmentUses, List.flatMap_append]
  exact h.covers.append (round_covered s _)

theorem vars_covered {m' : Bytes} (hlo : 0x7E00 ≤ P.kernelEntry)
    (hhi : P.kernelEntry + 16 ≤ 0xBE00) (hv : Elf.VarsSet P m m') : Covers setVar m m' :=
  .of_write List.mem_cons_self fun a ha => hv.kept a fun hin => by
    obtain ⟨h1, h2⟩ := hin
    exact ha ⟨by omega, by omega⟩

theorem message_covered {m' : Bytes} (hlo : 0x7E00 ≤ P.kernelEntry)
    (hhi : P.kernelEntry + 16 ≤ 0xBE00)
    (h : ∀ a, ¬ Elf.OnMessage a → ¬ InWin 0x8FFF8 0x8FFFC a →
      ¬ InWin P.pmVgaPos (P.pmVgaPos + 4) a → m' a = m a) :
    Covers (elfDone (pmStackTop - 4)) m m' := by
  intro a ha
  have htext : a ∉ Set.Ico pmVgaPos (pmVgaPos + 42) :=
    notMem_of_writes ha (List.mem_append_left _ (List.mem_append_left _ List.mem_cons_self))
  have hdigits : a ∉ Set.Ico (pmVgaPos + 42) (pmVgaPos + 42 + 16) :=
    notMem_of_writes ha (List.mem_append_left _ (List.mem_append_right _
      (subset_pushed _ _ _ _ _ List.mem_cons_self)))
  have hcall : a ∉ Set.Ico (pmStackTop - 4 - 4) (pmStackTop - 4) :=
    notMem_of_writes ha (List.mem_append_left _ (List.mem_append_right _ List.mem_cons_self))
  have hvar : a ∉ codeWin := notMem_of_writes ha (List.mem_append_right _ List.mem_cons_self)
  refine h a (fun hin => ?_) (fun hin => hcall hin) fun hin => ?_
  · obtain ⟨h1, h2⟩ := hin
    rw [Set.mem_Ico] at htext hdigits
    omega
  · obtain ⟨h1, h2⟩ := hin
    unfold Elf.Placement.pmVgaPos at h1 h2
    exact hvar ⟨by omega, by omega⟩

/-- With its variables set, the loop finds the headers of the file, and can load it. -/
theorem loadable_of_fits (hc : Elf.Called P s) (hv : Elf.VarsSet P s.mem m)
    (hbytes : Elf.image s.mem = f.bytes) (hvalid : elfValid f.bytes = true)
    (himage : 16 * kernelSeg + f.size ≤ pmLow f.bytes)
    (hsegs : ∀ p ∈ phdrs f.bytes, p.type = 1 → Disjoint p.target (loadingWin n f.size)) :
    phdrs f.bytes = (headers m).map phdrOf ∧ Loadable P m f.size := by
  have himg : Elf.image m = f.bytes := (hv.image_eq hc.placed).trans hbytes
  have htable := f.table hvalid
  have hbelow : 0 < elfPhnum f.bytes → elfBase + f.size ≤ 0x8FFF4 := fun hn => by
    unfold pmLow at himage
    rwa [if_pos hvalid, if_neg (Nat.ne_of_gt hn)] at himage
  have hphdrs : phdrs f.bytes = (headers m).map phdrOf := by
    rw [← himg]
    refine phdrs_image fun i hi => ?_
    rw [himg] at hi
    have h1 := htable i hi
    have h2 := hbelow (by omega)
    unfold headerPtr
    rw [himg]
    omega
  refine ⟨hphdrs, himg ▸ htable, himg ▸ hbelow, fun h hh ht => ?_,
    ⟨hc.text.placed.1, hc.placed⟩, ?_⟩
  · have hp : phdrOf h ∈ phdrs f.bytes := hphdrs ▸ List.mem_map_of_mem hh
    refine (hsegs _ hp ht).mono_right ?_
    rintro a ((ha | ha) | ha)
    · exact .inl (.inl (.inl ha))
    · exact .inl (.inr ha)
    · exact .inr ha
  · rw [hv.phentsize, hv.image_eq hc.placed]
    rfl

/-- **`elf_load`** over a file whose segments are loaded away from what stage 2 still needs.
They may be anywhere else, also over each other. -/
theorem elf_load_covered (hc : Elf.Called P s) (hbytes : Elf.image s.mem = f.bytes)
    (hvalid : elfValid f.bytes = true) (himage : 16 * kernelSeg + f.size ≤ pmLow f.bytes)
    (hsegs : ∀ p ∈ phdrs f.bytes, p.type = 1 → Disjoint p.target (loadingWin n f.size)) :
    ∃ s', Reaches (Elf.elfStep P) s s' ∧ s'.pc = .returned ∧
      Covers (elfLoad f.bytes (pmStackTop - 4)) s.mem s'.mem := by
  have hv := Elf.varsMem_set hc.placed s.mem
  obtain ⟨s₀, hstep, hstart, hmem⟩ := hc.starts (hbytes ▸ hvalid)
  generalize Elf.varsMem P s.mem = m' at hv hstart hmem
  obtain ⟨hphdrs, h₀⟩ := loadable_of_fits hc hv hbytes hvalid himage hsegs
  obtain ⟨s₁, hr₁, hat⟩ := reaches_rounds (AtPhdr m') (fun i s hi h => AtPhdr.round h₀ hi h)
    (⟨hstart, fun a _ => congrFun hmem a⟩ : AtPhdr m' 0 s₀)
  have hcovers := hat.covers
  rw [← Elf.headers_length, List.take_length] at hcovers
  have hown : ∀ a, P.kernelEntry + 12 ≤ a → a < 0xBE00 → s₁.mem a = s.mem a := fun a h1 h2 => by
    have hlo := hc.text.placed.1
    rw [h₀.kept (fun _ h => h) hcovers (.inl ⟨by omega, h2⟩), hv.kept a (by unfold InWin; omega)]
  let done : Elf.State := { s₁ with pc := .elfDone }
  obtain ⟨s₂, hr₂, hpc₂, -, hend⟩ := hc.finishes (show done.pc = .elfDone from rfl) hat.esp hown
  refine ⟨s₂, .head hstep (hr₁.trans (.head hat.done hr₂)), hpc₂, ?_⟩
  have hsegments : elfSegments f.bytes (pmStackTop - 4) = segmentUses (headers m') := by
    unfold elfSegments segmentUses
    rw [hphdrs, List.flatMap_map]
  unfold elfLoad
  rw [if_pos hvalid, hsegments]
  exact ((vars_covered hc.text.placed.1 hc.placed hv).append hcovers).append
    ((message_covered hc.text.placed.1 hc.placed hend).mono (List.subset_cons_self _ _))

end Elf

/-- **The uses of stage 2 are those of its code**, for what fits. -/
theorem routines_covered {x : BootInput} (hx : Fits x) :
    (∀ b s k, Fat16.Booted s → Serves b s x k → ∃ t us, Reaches (Fat16.step b) s t ∧
      t.pc = .kernelReady ∧
      fat16LoadFile x.fat x.spc x.file.size x.first (x.rest.length + 1) stackTop = some us ∧
      Covers (fat16Init x.fatSize stackTop ++ fat16FindFile x.scanned stackTop ++ us)
        s.mem t.mem) ∧
    (∀ P s, Elf.Called P s → Elf.image s.mem = x.file.bytes → elfValid x.file.bytes = true →
      ∃ t, Reaches (Elf.elfStep P) s t ∧ t.pc = .returned ∧
        Covers (elfLoad x.file.bytes (pmStackTop - 4)) s.mem t.mem) ∧
    ∀ m mbootName, load32 m mmapEntries = x.entries →
      Covers (buildMultibootUses x.entries pmStackTop) m (buildMultiboot m mbootName) := by
  have hfat := hx.fat
  have hentries := entries_le hx.entries
  refine ⟨fun b s k hs h => fat16_covered hs h (by omega) (Nat.le_refl _),
    fun P s hc hbytes hvalid => elf_load_covered hc hbytes hvalid hx.image (hx.segments hvalid),
    fun m mbootName hn => buildMultiboot_covered hn ?_ mbootName pmStackTop⟩
  unfold mbootMmap
  omega

end TupleOS.Boot
