import TupleOS.Boot.ClusterChain
import TupleOS.Boot.FatInit
import TupleOS.Boot.RootSearch

/-!
# Loading the kernel from a FAT16 volume (`boot/stage2.asm`)

What a volume says on its own terms: the fields of its BPB, where a cluster is (`lbaOf`),
what the FAT says of it (`fatEntry`), and that a list of clusters is a file. Stage 2 has
all of this in 16 bits, and the FAT in the memory between `FAT_BUF` and its own stack. So
after `fat16_init` and `fat16_load_file` the file is at `0x10000` exactly if the FAT has
at most 53 sectors and no cluster is beyond sector 65535 (`kernel_loaded_iff`): the sector
of such a cluster is taken modulo `2^16`.
-/

namespace TupleOS.Fat16

open TupleOS.Base
open TupleOS.Boot (sectorBuf fatBuf kernelSeg)
open StateTransition (Reaches)

/-! ## Volumes -/

section Volume

variable (d : Nat → Bytes)

def spcOf : Nat := (d 0 0x0D).toNat
def reservedOf : Nat := load16 (d 0) 0x0E
def numFatsOf : Nat := (d 0 0x10).toNat
def rootEntriesOf : Nat := load16 (d 0) 0x11
def fatSizeOf : Nat := load16 (d 0) 0x16

/-- The first sector of the data region. -/
def dataStartOf : Nat :=
  reservedOf d + numFatsOf d * fatSizeOf d + (32 * rootEntriesOf d + 511) / 512

def lbaOf (c : Nat) : Nat := dataStartOf d + (c - 2) * spcOf d

def fatEntry (c : Nat) : Nat := load16 (sectors d (reservedOf d)) (2 * c)

/-- A FAT16 volume of so many clusters, in sectors of 512 bytes. -/
structure ValidVolume (clusters : Nat) : Prop where
  bps : load16 (d 0) 0x0B = 512
  spc : spcOf d ∈ [1, 2, 4, 8, 16, 32, 64, 128]
  reserved : 0 < reservedOf d
  fats : 0 < numFatsOf d
  root : rootEntriesOf d % 16 = 0
  size : 4085 ≤ clusters ∧ clusters ≤ 65524
  table : 2 * (clusters + 2) ≤ 512 * fatSizeOf d

/-- The clusters of a file, in their order, that fits between `0x10000` and `0xA0000`. -/
structure FileChain (clusters : Nat) (cs : List Nat) : Prop where
  ne : cs ≠ []
  nodup : cs.Nodup
  data : ∀ c ∈ cs, 2 ≤ c ∧ c < clusters + 2
  links : cs.IsChain fun c c' => fatEntry d c = c'
  last : 0xFFF8 ≤ fatEntry d (cs.getLast ne)
  fits : 0x10000 + 512 * spcOf d * cs.length ≤ 0xA0000

/-- The clusters are in memory, one after the other. -/
def HoldsFile (cs : List Nat) (m : Bytes) : Prop :=
  ∀ i (h : i < cs.length), ∀ j < 512 * spcOf d,
    m (0x10000 + 512 * spcOf d * i + j) = sectors d (lbaOf d cs[i]) j

/-- `fat16_init` and then `fat16_load_file` with the first cluster, when no read fails: both
return, and the file is in memory. Between the two `fat16_find_file` may run. -/
def Loads (cs : List Nat) : Prop :=
  ∀ (b : Bios) (s : State) (back : Label) (stack : List Slot), b.disk = d → (∀ n, b.ok n = true) →
    s.pc = .fat16Init → s.stack = .ret back :: stack →
    ∃ t, Reaches (step b) s t ∧ t.pc = back ∧ t.stack = stack ∧
      ∀ (u : State) (back' : Label) (stack' : List Slot), Kept t u → u.pc = .fat16LoadFile →
        u.stack = .ret back' :: stack' → cs.head? = some u.ax →
        ∃ w, Reaches (step b) u w ∧ w.pc = back' ∧ w.stack = stack' ∧ HoldsFile d cs w.mem

/-- The cluster has the same bytes as the sectors that 16 bits can name. -/
def SameLow (c : Nat) : Prop :=
  ∀ j < 512 * spcOf d, sectors d (lbaOf d c % 2 ^ 16) j = sectors d (lbaOf d c) j

end Volume

/-! ## What stage 2 knows of it -/

section Load

variable {d : Nat → Bytes} {b : Bios} {s u : State} {back : Label} {stack : List Slot}
  {clusters c n i j : Nat} {cs : List Nat}

theorem spcOf_lt (d : Nat → Bytes) : spcOf d < 256 := (d 0 0x0D).isLt

theorem geometry_spc (d : Nat → Bytes) (v : Vars) : (geometry d v).spc = spcOf d := by
  show (d 0 (sectorBuf + 0x0D - sectorBuf)).toNat = _
  rw [Nat.add_sub_cancel_left]
  rfl

theorem load16_boot (d : Nat → Bytes) (k : Nat) :
    load16 (fun a => d 0 (a - sectorBuf)) (sectorBuf + k) = load16 (d 0) k := by
  rw [load16_add]
  simp only [Nat.add_sub_cancel_left]

theorem geometry_fatStart (d : Nat → Bytes) (v : Vars) : (geometry d v).fatStart = reservedOf d :=
  load16_boot d 0x0E

theorem geometry_fatSize (d : Nat → Bytes) (v : Vars) : (geometry d v).fatSize = fatSizeOf d :=
  load16_boot d 0x16

theorem geometry_dataStart (d : Nat → Bytes) (v : Vars) : (geometry d v).dataStart =
    w16 (rootEntriesOf d / 16 + w16 (w16 (numFatsOf d * fatSizeOf d) + reservedOf d)) := by
  have hfats : (d 0 (sectorBuf + 0x10 - sectorBuf)).toNat = numFatsOf d := by
    rw [Nat.add_sub_cancel_left]
    rfl
  unfold geometry parseBpb
  simp only [load16_boot, hfats]
  rfl

/-- `fat16_init` has cached what it needs of the volume. -/
structure Cached (d : Nat → Bytes) (u : State) : Prop where
  spc : u.vars.spc = spcOf d
  dataStart : u.vars.dataStart = w16 (dataStartOf d)
  table : ∀ j < 512 * fatSizeOf d, u.mem (fatBuf + j) = sectors d (reservedOf d) j

theorem init_caches (hv : ValidVolume d clusters) (hfat : fatSizeOf d ≤ 53) (hd : b.disk = d)
    (hok : ∀ n, b.ok n = true) (hpc : s.pc = .fat16Init) (hst : s.stack = .ret back :: stack) :
    ∃ t, Reaches (step b) s t ∧ t.pc = back ∧ t.stack = stack ∧ ∀ u, Kept t u → Cached d u := by
  have hsize : w16 (fatSizeOf d) = fatSizeOf d := Nat.mod_eq_of_lt (load16_lt _ _)
  have hfree : w16 (geometry b.disk s.vars).fatSize ≤ 53 := by
    rw [hd, geometry_fatSize, hsize]
    exact hfat
  obtain ⟨t, ht, hdone, hmem⟩ := init_reads hpc hst (hok _) (hok _) hfree
  rw [hd] at hdone hmem
  refine ⟨t, ht, hdone.pc, hdone.stack, fun u hu => ⟨?_, ?_, fun j hj => ?_⟩⟩
  · rw [hu.vars, hdone.vars]
    exact geometry_spc d s.vars
  · rw [hu.vars, hdone.vars]
    have hroot := hv.root
    show (geometry d s.vars).dataStart = _
    rw [geometry_dataStart]
    unfold dataStartOf w16
    generalize numFatsOf d * fatSizeOf d = fats
    omega
  · have hout : ¬ InWin sectorBuf (sectorBuf + 512) (fatBuf + j) := by
      unfold InWin sectorBuf fatBuf
      omega
    rw [hu.mem _ hout, hmem, cachedMem, geometry_fatSize, geometry_fatStart, hsize, fill,
      if_pos ⟨by omega, by omega⟩, Nat.mul_zero, Nat.zero_add, Nat.add_sub_cancel_left]

/-- **The sector of a cluster**, in 16 bits. -/
theorem Cached.lba (h : Cached d u) (hc : 2 ≤ c) (hlt : c < 2 ^ 16) :
    clusterLba u.vars c = lbaOf d c % 2 ^ 16 := by
  have hsub : sub16 c 2 = c - 2 := by
    unfold sub16 w16
    omega
  unfold clusterLba lbaOf
  rw [hsub, h.spc, h.dataStart]
  unfold w16
  generalize (c - 2) * spcOf d = k
  omega

/-- **The entry of a cluster** is found in the cache. -/
theorem Cached.entry (h : Cached d u) (hv : ValidVolume d clusters) (hfat : fatSizeOf d ≤ 53)
    (hc : c < clusters + 2) : lookup b n u.mem (entryOffset c) = fatEntry d c := by
  have htable := hv.table
  have hoff : entryOffset c = fatBuf + 2 * c := by
    unfold entryOffset w16 fatBuf
    omega
  unfold lookup fatEntry
  rw [hoff, load16_add]
  apply load16_congr
  intro a ha
  obtain ⟨h1, h2⟩ := ha
  have hown : ¬ Own (fatBuf + a) := by
    unfold Own InWin fatBuf
    omega
  exact (if_neg hown).trans (h.table a (by omega))

/-! ## The loop over a file -/

theorem FileChain.lt (h : FileChain d clusters cs) (hv : ValidVolume d clusters)
    (hi : i < cs.length) : 2 ≤ cs[i] ∧ cs[i] < clusters + 2 ∧ cs[i] < 0xFFF8 := by
  have hsize := hv.size
  have hdata := h.data cs[i] (List.getElem_mem hi)
  omega

theorem FileChain.seg (h : FileChain d clusters cs) {k : Nat} (hk : k ≤ cs.length) :
    segAt (spcOf d) k = 0x1000 + 32 * spcOf d * k := by
  have hfits := h.fits
  have hmul : 16 * (32 * spcOf d * k) ≤ 512 * spcOf d * cs.length := by
    rw [← Nat.mul_assoc, ← Nat.mul_assoc]
    exact Nat.mul_le_mul_left _ hk
  exact segAt_eq (spcOf_lt d) (by omega)

theorem Cached.high (h : Cached d u) (hcs : FileChain d clusters cs) {k : Nat}
    (hk : k ≤ cs.length) : kernelSeg ≤ segAt u.vars.spc k := by
  rw [h.spc, hcs.seg hk]
  exact Nat.le_add_right _ _

theorem Cached.chain (h : Cached d u) (hv : ValidVolume d clusters) (hfat : fatSizeOf d ≤ 53)
    (hcs : FileChain d clusters cs) (hax : cs.head? = some u.ax) :
    ∀ i (hi : i < cs.length), chainAt b u i = cs[i] := by
  intro i
  induction i with
  | zero =>
    intro hi
    rw [List.head?_eq_getElem?, List.getElem?_eq_getElem hi, Option.some.injEq] at hax
    exact hax.symm
  | succ i ih =>
    intro hi
    obtain ⟨-, hlt, -⟩ := hcs.lt hv (Nat.lt_of_succ_lt hi)
    rw [chainAt_low fun j hj => h.high hcs (by omega), ih (Nat.lt_of_succ_lt hi),
      h.entry hv hfat hlt]
    exact List.isChain_iff_getElem.mp hcs.links i hi

theorem Cached.chain_end (h : Cached d u) (hv : ValidVolume d clusters) (hfat : fatSizeOf d ≤ 53)
    (hcs : FileChain d clusters cs) (hax : cs.head? = some u.ax) :
    0xFFF8 ≤ chainAt b u cs.length := by
  have hlast : cs.length - 1 < cs.length := Nat.sub_one_lt (List.length_pos_iff.mpr hcs.ne).ne'
  have hlen : cs.length = cs.length - 1 + 1 := by omega
  obtain ⟨-, hlt, -⟩ := hcs.lt hv hlast
  rw [hlen, chainAt_low fun j hj => h.high hcs (by omega), h.chain hv hfat hcs hax _ hlast,
    h.entry hv hfat hlt]
  have := hcs.last
  rwa [List.getLast_eq_getElem] at this

theorem Cached.image (h : Cached d u) (hd : b.disk = d) (hv : ValidVolume d clusters)
    (hfat : fatSizeOf d ≤ 53) (hcs : FileChain d clusters cs) (hax : cs.head? = some u.ax)
    (hi : i < cs.length) (hj : j < 512 * spcOf d) :
    ∀ k ≤ cs.length, i < k → imageMem b u k (0x10000 + 512 * spcOf d * i + j) =
      sectors d (lbaOf d cs[i] % 2 ^ 16) j := by
  intro k
  induction k with
  | zero => exact fun _ hik => absurd hik (Nat.not_lt_zero i)
  | succ k ih =>
    intro hk hik
    have hspc := spcOf_lt d
    have hseg : 16 * segAt u.vars.spc k = 0x10000 + 512 * spcOf d * k := by
      rw [h.spc, hcs.seg (Nat.le_of_succ_le hk), Nat.mul_add, ← Nat.mul_assoc, ← Nat.mul_assoc]
    have hw : w16 u.vars.spc = spcOf d := by
      rw [h.spc]
      exact Nat.mod_eq_of_lt (by omega)
    rw [imageMem_succ, hseg, hw, hd, fill]
    rcases Nat.lt_or_eq_of_le (Nat.le_of_lt_succ hik) with hlt | rfl
    · have hbelow : 512 * spcOf d * (i + 1) ≤ 512 * spcOf d * k := Nat.mul_le_mul_left _ hlt
      rw [Nat.mul_succ] at hbelow
      rw [if_neg (by unfold InWin; omega)]
      exact ih (Nat.le_of_succ_le hk) hlt
    · obtain ⟨h2, -, hlt⟩ := hcs.lt hv hi
      rw [if_pos ⟨by omega, by omega⟩, h.chain hv hfat hcs hax i hi, h.lba h2 (by omega),
        Nat.add_sub_cancel_left]

/-- **What is loaded**: the sectors that 16 bits of a cluster's sector name. -/
theorem Cached.load (h : Cached d u) (hd : b.disk = d) (hok : ∀ n, b.ok n = true)
    (hv : ValidVolume d clusters) (hfat : fatSizeOf d ≤ 53) (hcs : FileChain d clusters cs)
    (hpc : u.pc = .fat16LoadFile) (hst : u.stack = .ret back :: stack)
    (hax : cs.head? = some u.ax) :
    ∃ w, Reaches (step b) u w ∧ w.pc = back ∧ w.stack = stack ∧
      ∀ i (hi : i < cs.length), ∀ j < 512 * spcOf d,
        w.mem (0x10000 + 512 * spcOf d * i + j) = sectors d (lbaOf d cs[i] % 2 ^ 16) j := by
  have hlen : cs.length - 1 + 1 = cs.length := Nat.sub_add_cancel (List.length_pos_iff.mpr hcs.ne)
  have hgo : ∀ i < cs.length - 1, ¬ Stops b u i := fun i hi hstop => by
    rcases hstop with hf | hf
    · exact Bool.false_ne_true (hf.symm.trans (hok _))
    · have hi' : i + 1 < cs.length := by omega
      obtain ⟨-, -, hlt⟩ := hcs.lt hv hi'
      rw [h.chain hv hfat hcs hax (i + 1) hi'] at hf
      omega
  have hlands : ∀ i ≤ cs.length - 1, Lands b u i := fun i hi =>
    lands_of_high (h.high hcs (by omega))
  have hstop : Stops b u (cs.length - 1) := by
    refine .inr ?_
    rw [hlen]
    exact h.chain_end hv hfat hcs hax
  obtain ⟨w, hw, hwpc, hwst, -, hloaded⟩ := stops_returns hpc hst hgo hlands hstop
  refine ⟨w, hw, hwpc, hwst, fun i hi j hj => ?_⟩
  rw [(hloaded (hok _)).mem, hlen]
  exact h.image hd hv hfat hcs hax hi hj _ (Nat.le_refl _) hi

/-- `fat16_init` is called; the caller is where stage 2 stops. -/
def initCall : State where
  pc := .fat16Init
  eax := 0
  ecx := 0
  bx := 0
  dx := 0
  si := 0
  di := 0
  bp := 0
  es := 0
  cf := false
  zf := false
  stack := [.ret .kernelReady]
  mem := fun _ => 0
  vars := ⟨0, 0, 0, 0, 0, 0, 0, 0, 0, 0, 0, 0, 0, 0, 0⟩
  dap := ⟨0, 0, 0, 0⟩
  reads := 0
  screen := []

def loadCallAt (t : State) (c : Nat) : State :=
  { t with pc := .fat16LoadFile, eax := c, es := 0, stack := [.ret .kernelReady] }

theorem step_kernelReady {t : State} (h : t.pc = .kernelReady) : step b t = none := by
  unfold step
  rw [h]

theorem Loads.fatSize (h : Loads d cs) : fatSizeOf d ≤ 53 := by
  by_contra hlt
  obtain ⟨t, ht, hpc, -⟩ := h { quietBios with disk := d } initCall .kernelReady [] rfl
    (fun _ => rfl) rfl rfl
  have hlost : step { quietBios with disk := d } initCall = none := by
    refine fat_lost rfl rfl ?_
    show 53 < w16 (geometry d _).fatSize
    rw [geometry_fatSize]
    exact Nat.lt_of_lt_of_eq (Nat.lt_of_not_le hlt) (Nat.mod_eq_of_lt (load16_lt _ _)).symm
  have heq : initCall = t := stop_unique .refl ht hlost (step_kernelReady hpc)
  rw [← heq] at hpc
  cases hpc

theorem Loads.sameLow (h : Loads d cs) (hv : ValidVolume d clusters)
    (hcs : FileChain d clusters cs) {c : Nat} (hc : c ∈ cs) : SameLow d c := by
  obtain ⟨i, hi, rfl⟩ := List.getElem_of_mem hc
  have hok : ∀ n, ({ quietBios with disk := d } : Bios).ok n = true := fun _ => rfl
  obtain ⟨t, ht, hpc, -, hload⟩ := h { quietBios with disk := d } initCall .kernelReady [] rfl
    hok rfl rfl
  obtain ⟨t', ht', hpc', -, hcached⟩ := init_caches hv h.fatSize rfl hok (s := initCall) rfl rfl
  obtain rfl := stop_unique ht ht' (step_kernelReady hpc) (step_kernelReady hpc')
  have hpos : 0 < cs.length := List.length_pos_iff.mpr hcs.ne
  have hax : cs.head? = some (loadCallAt t cs[0]).ax := by
    have hlow : (loadCallAt t cs[0]).ax = cs[0] :=
      Nat.mod_eq_of_lt (Nat.lt_trans (hcs.lt hv hpos).2.2 (by omega))
    rw [hlow, List.head?_eq_getElem?, List.getElem?_eq_getElem hpos]
  have hkept : Kept t (loadCallAt t cs[0]) := ⟨rfl, rfl, fun _ _ => rfl⟩
  obtain ⟨w, hw, hwpc, -, hfile⟩ := hload _ .kernelReady [] hkept rfl rfl hax
  obtain ⟨w', hw', hwpc', -, hlow⟩ := (hcached _ hkept).load rfl hok hv h.fatSize hcs rfl rfl hax
  obtain rfl := stop_unique hw hw' (step_kernelReady hwpc) (step_kernelReady hwpc')
  exact fun j hj => (hlow i hi j hj).symm.trans (hfile i hi j hj)

end Load

/-- **The kernel is loaded exactly if 16 bits are enough.** For every FAT16 volume and
every file on it that fits: when no read fails, `fat16_init` and `fat16_load_file` return
with the clusters of the file from `0x10000` on if and only if the FAT has at most 53
sectors, and each cluster that begins beyond sector 65535 has the bytes of the sectors
that are left of its number in 16 bits. -/
theorem kernel_loaded_iff (d : Nat → Bytes) (clusters : Nat) (cs : List Nat)
    (hv : ValidVolume d clusters) (hcs : FileChain d clusters cs) :
    Loads d cs ↔ fatSizeOf d ≤ 53 ∧ ∀ c ∈ cs, 2 ^ 16 ≤ lbaOf d c → SameLow d c := by
  constructor
  · exact fun h => ⟨h.fatSize, fun c hc _ => h.sameLow hv hcs hc⟩
  · rintro ⟨hfat, hhigh⟩ b s back stack hd hok hpc hst
    obtain ⟨t, ht, htpc, htst, hcached⟩ := init_caches hv hfat hd hok hpc hst
    refine ⟨t, ht, htpc, htst, fun u back' stack' hkept hupc hust hax => ?_⟩
    obtain ⟨w, hw, hwpc, hwst, hlow⟩ := (hcached u hkept).load hd hok hv hfat hcs hupc hust hax
    refine ⟨w, hw, hwpc, hwst, fun i hi j hj => (hlow i hi j hj).trans ?_⟩
    by_cases hlt : lbaOf d cs[i] < 2 ^ 16
    · rw [Nat.mod_eq_of_lt hlt]
    · exact hhigh cs[i] (List.getElem_mem hi) (Nat.le_of_not_lt hlt) j hj

/-- A volume with clusters of 4 KB and two FATs of `fat` sectors. Cluster 7 follows cluster 5,
every other cluster ends a file, and there are ones in sector 72128 only. -/
def sampleVolume (fat : Nat) : Nat → Bytes := fun lba j =>
  if lba = 0 then
    match j with
    | 0x0C => 2
    | 0x0D => 8
    | 0x0E => 32
    | 0x10 => 2
    | 0x12 => 2
    | 0x16 => BitVec.ofNat 8 fat
    | _ => 0
  else if lba = 32 ∧ j = 10 then 7
  else if lba = 32 ∧ j = 11 then 0
  else if lba < 32 + 2 * fat then 0xFF
  else if lba = 72128 then 1
  else 0

theorem sampleVolume_valid : ValidVolume (sampleVolume 40) 10000 :=
  ⟨by decide, by decide, by decide, by decide, by decide, by decide, by decide⟩

/-- The file in clusters 5 and 7 is loaded. -/
theorem kernel_loaded_low : Loads (sampleVolume 40) [5, 7] := by
  refine (kernel_loaded_iff (sampleVolume 40) 10000 [5, 7] sampleVolume_valid ?_).mpr
    ⟨by decide, fun c hc hhigh => absurd hhigh ?_⟩
  · exact ⟨by decide, by decide, by decide, by decide, by decide, by decide⟩
  · have hlow : ∀ c ∈ [5, 7], lbaOf (sampleVolume 40) c < 2 ^ 16 := by decide
    exact Nat.not_le.mpr (hlow c hc)

/-- **A file beyond sector 65535** is not loaded: cluster 9000 begins at sector 72128, and
stage 2 reads sector 6592. Neither is a file of a volume with a FAT of 160 sectors. -/
theorem kernel_not_loaded :
    ValidVolume (sampleVolume 40) 10000 ∧ FileChain (sampleVolume 40) 10000 [9000] ∧
      ¬ Loads (sampleVolume 40) [9000] ∧
      ValidVolume (sampleVolume 160) 40000 ∧ FileChain (sampleVolume 160) 40000 [2] ∧
      ¬ Loads (sampleVolume 160) [2] := by
  have hfile : FileChain (sampleVolume 40) 10000 [9000] :=
    ⟨by decide, by decide, by decide, by decide, by decide, by decide⟩
  refine ⟨sampleVolume_valid, hfile, fun h => ?_, ?_, ?_, fun h => ?_⟩
  · have hbyte := h.sameLow sampleVolume_valid hfile (List.mem_singleton.mpr rfl) 0 (by decide)
    exact absurd hbyte (by decide)
  · exact ⟨by decide, by decide, by decide, by decide, by decide, by decide, by decide⟩
  · exact ⟨by decide, by decide, by decide, by decide, by decide, by decide⟩
  · exact absurd h.fatSize (by decide)

end TupleOS.Fat16
