import TupleOS.Boot.Fat16

/-!
# Following the clusters (`boot/stage2.asm`)

`fat16_load_file` reads a cluster, moves the load segment on and looks the next cluster up
in the cached FAT, until an entry says that the file ends or a read fails. Nothing bounds
the load segment: it wraps around, and a read may then go over the FAT. So the clusters the
loop comes to and the memory they leave are one recursion (`roundAt`), and the loop is in
just these states (`AtCluster.next`) until it stops or a read goes over the interrupt
vectors, the stack or stage 2. It returns exactly if it stops before that
(`load_returns_iff`).
-/

namespace TupleOS.Fat16

open TupleOS.Base
open TupleOS.Boot (fatBuf kernelSeg)
open StateTransition (Reaches)

/-! ## The chain -/

def segAt (spc : Nat) : Nat → Nat
  | 0 => kernelSeg
  | k + 1 => w16 (segAt spc k + w16 (32 * spc))

/-- The cluster of round `k` and the memory before it, when `fat16_load_file` is called in
state `s`. -/
def roundAt (b : Bios) (s : State) : Nat → Nat × Bytes
  | 0 => (s.ax, s.mem)
  | k + 1 =>
    let c := (roundAt b s k).1
    let m := fill (roundAt b s k).2 (16 * segAt s.vars.spc k) (w16 s.vars.spc)
      (sectors b.disk (clusterLba s.vars c))
    (lookup b (s.reads + k + 1) m (entryOffset c), m)

def chainAt (b : Bios) (s : State) (k : Nat) : Nat := (roundAt b s k).1

def imageMem (b : Bios) (s : State) (k : Nat) : Bytes := (roundAt b s k).2

/-- The loop stops at round `k`: the read fails, or the next entry is no cluster. -/
def Stops (b : Bios) (s : State) (k : Nat) : Prop :=
  b.ok (s.reads + k) = false ∨ 0xFFF8 ≤ chainAt b s (k + 1)

/-- The sectors that the read of round `k` moves are not over the interrupt vectors, the
stack or stage 2. -/
def Lands (b : Bios) (s : State) (k : Nat) : Prop :=
  ¬ Clobbers (16 * segAt s.vars.spc k) (b.count (s.reads + k) (w16 s.vars.spc))

instance (b : Bios) (s : State) (k : Nat) : Decidable (Lands b s k) :=
  inferInstanceAs (Decidable (¬ _))

/-- A routine that was called with `back` on the stack comes back to it. -/
def Returns (b : Bios) (s : State) (back : Label) (stack : List Slot) : Prop :=
  ∃ t, Reaches (step b) s t ∧ t.pc = back ∧ t.stack = stack

/-- The loop of `fat16_load_file`, called in state `s`, before round `k`. -/
structure AtCluster (b : Bios) (s : State) (back : Label) (stack : List Slot) (k : Nat)
    (s' : State) : Prop where
  pc : s'.pc = .loadCluster
  stack : s'.stack = .ret back :: stack
  vars : s'.vars = { s.vars with
    currCluster := chainAt b s k, loadSeg := segAt s.vars.spc k }
  reads : s'.reads = s.reads + k
  mem : s'.mem = imageMem b s k
  goes : ∀ i < k, ¬ Stops b s i
  lands : ∀ i < k, Lands b s i

section Rounds

variable {b : Bios} {s s' : State} {back : Label} {stack : List Slot} {k : Nat}

theorem imageMem_succ (b : Bios) (s : State) (k : Nat) : imageMem b s (k + 1) =
    fill (imageMem b s k) (16 * segAt s.vars.spc k) (w16 s.vars.spc)
      (sectors b.disk (clusterLba s.vars (chainAt b s k))) := rfl

theorem chainAt_succ (b : Bios) (s : State) (k : Nat) : chainAt b s (k + 1) =
    lookup b (s.reads + k + 1) (imageMem b s (k + 1)) (entryOffset (chainAt b s k)) := rfl

/-! ## Before the segment wraps around -/

theorem segAt_eq {spc : Nat} (hspc : spc < 256) (hk : 0x1000 + 32 * spc * k < 2 ^ 16) :
    segAt spc k = 0x1000 + 32 * spc * k := by
  induction k with
  | zero => rfl
  | succ k ih =>
    rw [Nat.mul_succ] at hk ⊢
    rw [segAt, ih (by omega)]
    unfold w16
    omega

theorem imageMem_low (hseg : ∀ i < k, kernelSeg ≤ segAt s.vars.spc i) {a : Nat} (ha : a < 0x10000) :
    imageMem b s k a = s.mem a := by
  induction k with
  | zero => rfl
  | succ k ih =>
    have hk := hseg k (by omega)
    unfold kernelSeg at hk
    rw [imageMem_succ, fill, if_neg (by unfold InWin; omega)]
    exact ih fun i hi => hseg i (by omega)

theorem entryOffset_lt (c : Nat) : entryOffset c + 1 < 0x10000 := by
  unfold entryOffset w16 fatBuf
  omega

theorem lookup_congr {n : Nat} {m m' : Bytes} (h : ∀ a < 0x10000, m' a = m a) (c : Nat) :
    lookup b n m' (entryOffset c) = lookup b n m (entryOffset c) := by
  have hlt := entryOffset_lt c
  unfold lookup
  apply load16_congr
  intro a ha
  obtain ⟨h1, h2⟩ := ha
  simp only [h a (by omega)]

theorem chainAt_low (hseg : ∀ i < k + 1, kernelSeg ≤ segAt s.vars.spc i) :
    chainAt b s (k + 1) = lookup b (s.reads + k + 1) s.mem (entryOffset (chainAt b s k)) := by
  rw [chainAt_succ]
  exact lookup_congr (fun _ ha => imageMem_low hseg ha) _

theorem lands_of_high (h : kernelSeg ≤ segAt s.vars.spc k) : Lands b s k := by
  unfold kernelSeg at h
  unfold Lands Clobbers
  omega

/-! ## One round -/

/-- The state at `call read_sectors` in `.load_cluster`. -/
def loadCall (s : State) : State :=
  { s with
    eax := clusterLba s.vars s.vars.currCluster
    dx := sub16 s.vars.currCluster 2 * s.vars.spc / 2 ^ 16
    ecx := s.ecx / 2 ^ 16 * 2 ^ 16 + w16 s.vars.spc, bx := 0, es := s.vars.loadSeg
    stack := .word s.es :: s.stack }

/-- The state after the `pop es` that follows it. -/
def loadRead (s : State) (n : Nat) (data : Bytes) (cf : Bool) : State :=
  { s with
    eax := clusterLba s.vars s.vars.currCluster
    dx := sub16 s.vars.currCluster 2 * s.vars.spc / 2 ^ 16
    ecx := s.ecx / 2 ^ 16 * 2 ^ 16 + w16 s.vars.spc, bx := 0
    dap := ⟨(loadCall s).cx, 0, s.vars.loadSeg, clusterLba s.vars s.vars.currCluster⟩
    mem := fill s.mem (16 * s.vars.loadSeg + 0) n data, cf := cf, reads := s.reads + 1 }

theorem loadCall_cx (s : State) : (loadCall s).cx = w16 s.vars.spc := w16_low s.ecx s.vars.spc

theorem loadCluster_eq (b : Bios) (s : State) : loadCluster b s =
    (readSectors b (loadCall s)).bind fun t => t.popEs.bind (followChain b) := by
  unfold loadCluster
  simp only [State.push, State.setCx, loadCall, Option.bind_eq_bind]

theorem loadRead_eq (s : State) (n : Nat) (data : Bytes) (cf : Bool) :
    (afterRead (loadCall s) n data cf).popEs = some (loadRead s n data cf) := by
  simp only [afterRead, loadCall, loadRead, State.popEs]

theorem AtCluster.seg (h : AtCluster b s back stack k s') :
    s'.vars.loadSeg = segAt s.vars.spc k := by
  rw [h.vars]

theorem AtCluster.spc (h : AtCluster b s back stack k s') : s'.vars.spc = s.vars.spc := by
  rw [h.vars]

theorem AtCluster.lba (h : AtCluster b s back stack k s') :
    clusterLba s'.vars s'.vars.currCluster = clusterLba s.vars (chainAt b s k) := by
  rw [h.vars]
  rfl

theorem AtCluster.step_eq (h : AtCluster b s back stack k s') : step b s' =
    if Lands b s k then
      followChain b (loadRead s' (b.count (s.reads + k) (w16 s.vars.spc))
        (if b.ok (s.reads + k) then sectors b.disk (clusterLba s.vars (chainAt b s k))
          else b.junk (s.reads + k)) (!b.ok (s.reads + k)))
    else none := by
  have hstep : step b s' = loadCluster b s' := by
    unfold step
    rw [h.pc]
  have hclobbers : Clobbers (16 * (loadCall s').es + (loadCall s').bx)
      (b.count (loadCall s').reads (loadCall s').cx) ↔ ¬ Lands b s k := by
    show Clobbers (16 * s'.vars.loadSeg + 0) (b.count s'.reads (loadCall s').cx) ↔ _
    rw [loadCall_cx, h.seg, h.spc, h.reads, Nat.add_zero]
    exact not_not.symm
  rw [hstep, loadCluster_eq, readSectors_eq]
  by_cases hl : Lands b s k
  · rw [if_pos hl, if_neg fun hc => hclobbers.mp hc hl, Option.bind_some, loadRead_eq,
      Option.bind_some]
    show followChain b (loadRead s' (b.count s'.reads (loadCall s').cx)
      (if b.ok s'.reads then sectors b.disk (clusterLba s'.vars s'.vars.currCluster)
        else b.junk s'.reads) (!b.ok s'.reads)) = _
    rw [loadCall_cx, h.spc, h.lba, h.reads]
  · rw [if_neg hl, if_pos (hclobbers.mpr hl)]
    rfl

/-- **A read that fails**: `.load_fail` returns. -/
theorem AtCluster.fails (h : AtCluster b s back stack k s') (hl : Lands b s k)
    (hfail : b.ok (s.reads + k) = false) :
    ∃ u t, step b s' = some u ∧ step b u = some t ∧ t.pc = back ∧ t.stack = stack ∧
      t.reads = s.reads + k + 1 := by
  have hstep := h.step_eq
  rw [if_pos hl, hfail] at hstep
  refine ⟨_, _, hstep, State.ret_eq h.stack, rfl, rfl, ?_⟩
  show s'.reads + 1 = _
  rw [h.reads]

/-- The state when the file is in memory. -/
structure Loaded (b : Bios) (s : State) (back : Label) (stack : List Slot) (k : Nat) (t : State) :
    Prop where
  pc : t.pc = back
  stack : t.stack = stack
  reads : t.reads = s.reads + k + 1
  cluster : t.vars.currCluster = chainAt b s (k + 1)
  mem : t.mem = imageMem b s (k + 1)

/-- A cluster is read and the next one looked up. -/
theorem AtCluster.looked_up (h : AtCluster b s back stack k s') (hl : Lands b s k)
    (hok : b.ok (s.reads + k) = true) :
    ∃ u, step b s' =
        (if u.vars.currCluster < 0xFFF8 then some { u with pc := .loadCluster }
          else (printString b "FAT16: kernel loaded to 0x10000\r\n" u).ret) ∧
      u.stack = .ret back :: stack ∧ u.mem = imageMem b s (k + 1) ∧ u.reads = s.reads + k + 1 ∧
      u.vars = { s.vars with
        currCluster := chainAt b s (k + 1), loadSeg := segAt s.vars.spc (k + 1) } := by
  have hcount : b.count (s.reads + k) (w16 s.vars.spc) = w16 s.vars.spc := by
    unfold Bios.count
    rw [if_pos hok]
  have hstep := h.step_eq
  rw [if_pos hl, hcount, hok, if_pos rfl] at hstep
  -- the state after the read, and after the lookup
  generalize hr : loadRead s' _ _ _ = r at hstep
  have hrcf : r.cf = false := by rw [← hr]; rfl
  have hrreads : r.reads = s.reads + k + 1 := by
    rw [← hr, ← h.reads]
    rfl
  have hrstack : r.stack = .ret back :: stack := by
    rw [← hr, ← h.stack]
    rfl
  have hrvars : r.vars = { s.vars with
      currCluster := chainAt b s k, loadSeg := segAt s.vars.spc k } := by
    rw [← hr, ← h.vars]
    rfl
  have hrmem : r.mem = imageMem b s (k + 1) := by
    rw [← hr, imageMem_succ, ← h.mem, ← h.seg]
    rfl
  have hnext : lookup b r.reads r.mem (entryOffset r.vars.currCluster) = chainAt b s (k + 1) := by
    rw [hrreads, hrmem, hrvars, chainAt_succ]
  obtain ⟨hustack, humem, hureads, huvars⟩ : (nextCluster b r).stack = r.stack ∧
      (nextCluster b r).mem = r.mem ∧ (nextCluster b r).reads = r.reads ∧
      (nextCluster b r).vars = { r.vars with
        loadSeg := w16 (r.vars.loadSeg + w16 (32 * r.vars.spc))
        currCluster := lookup b r.reads r.mem (entryOffset r.vars.currCluster) } := by
    simp only [nextCluster, State.setAx, and_self]
  refine ⟨nextCluster b r, ?_, hustack.trans hrstack, humem.trans hrmem, hureads.trans hrreads, ?_⟩
  · rw [hstep, followChain, hrcf, if_neg Bool.false_ne_true]
  · rw [huvars, hnext, hrvars]
    rfl

/-- **A read that succeeds**: the next cluster is looked up, and the loop goes on or returns. -/
theorem AtCluster.next (h : AtCluster b s back stack k s') (hl : Lands b s k)
    (hok : b.ok (s.reads + k) = true) :
    ∃ t, step b s' = some t ∧ (chainAt b s (k + 1) < 0xFFF8 ∧ AtCluster b s back stack (k + 1) t ∨
      0xFFF8 ≤ chainAt b s (k + 1) ∧ Loaded b s back stack k t) := by
  have hlands : ∀ i < k + 1, Lands b s i := fun i hi => by
    rcases Nat.lt_or_eq_of_le (Nat.le_of_lt_succ hi) with hlt | rfl
    · exact h.lands i hlt
    · exact hl
  obtain ⟨u, hbody, hstack, hmem, hreads, hvars⟩ := h.looked_up hl hok
  have hcluster : u.vars.currCluster = chainAt b s (k + 1) := by rw [hvars]
  by_cases hmore : chainAt b s (k + 1) < 0xFFF8
  · rw [if_pos (hcluster ▸ hmore)] at hbody
    refine ⟨_, hbody, .inl ⟨hmore, rfl, hstack, hvars, hreads, hmem, fun i hi => ?_, hlands⟩⟩
    rcases Nat.lt_or_eq_of_le (Nat.le_of_lt_succ hi) with hlt | rfl
    · exact h.goes i hlt
    · rintro (hf | hf)
      · exact Bool.false_ne_true (hf.symm.trans hok)
      · omega
  · rw [if_neg (hcluster ▸ hmore)] at hbody
    have hret : (printString b "FAT16: kernel loaded to 0x10000\r\n" u).ret = _ :=
      State.ret_eq hstack
    exact ⟨_, hbody.trans hret, .inr ⟨by omega, rfl, rfl, hreads, hcluster, hmem⟩⟩

/-! ## The whole loop -/

theorem load_start (hpc : s.pc = .fat16LoadFile) (hstack : s.stack = .ret back :: stack) :
    step b s = some (fat16LoadFile s) ∧ AtCluster b s back stack 0 (fat16LoadFile s) := by
  refine ⟨?_, rfl, hstack, rfl, rfl, rfl, fun i hi => absurd hi (Nat.not_lt_zero i),
    fun i hi => absurd hi (Nat.not_lt_zero i)⟩
  unfold step
  rw [hpc]

theorem ok_of_goes (h : ¬ Stops b s k) : b.ok (s.reads + k) = true := by
  by_contra hne
  exact h (.inl (Bool.eq_false_iff.mpr hne))

theorem reaches_cluster (hpc : s.pc = .fat16LoadFile) (hstack : s.stack = .ret back :: stack)
    (hgo : ∀ i < k, ¬ Stops b s i) (hlands : ∀ i < k, Lands b s i) :
    ∃ t, Reaches (step b) s t ∧ AtCluster b s back stack k t := by
  obtain ⟨hstep, hstart⟩ := load_start (b := b) hpc hstack
  have hround : ∀ i u, i < k → AtCluster b s back stack i u →
      ∃ v, Reaches (step b) u v ∧ AtCluster b s back stack (i + 1) v := fun i u hi hu => by
    obtain ⟨v, hv, ⟨-, hat⟩ | ⟨hend, -⟩⟩ := hu.next (hlands i hi) (ok_of_goes (hgo i hi))
    · exact ⟨v, .single hv, hat⟩
    · exact absurd (.inr hend) (hgo i hi)
  obtain ⟨t, ht, hat⟩ := reaches_rounds (AtCluster b s back stack) hround hstart
  exact ⟨t, .head hstep ht, hat⟩

/-- **The loop stops** where the chain does, and returns. -/
theorem stops_returns (hpc : s.pc = .fat16LoadFile) (hstack : s.stack = .ret back :: stack)
    (hgo : ∀ i < k, ¬ Stops b s i) (hlands : ∀ i ≤ k, Lands b s i) (hstop : Stops b s k) :
    ∃ t, Reaches (step b) s t ∧ t.pc = back ∧ t.stack = stack ∧ t.reads = s.reads + k + 1 ∧
      (b.ok (s.reads + k) = true → Loaded b s back stack k t) := by
  obtain ⟨u, hu, hat⟩ := reaches_cluster hpc hstack hgo fun i hi => hlands i (Nat.le_of_lt hi)
  have hk := hlands k (Nat.le_refl k)
  cases hok : b.ok (s.reads + k) with
  | false =>
    obtain ⟨v, t, hv, ht, hpc, hst, hreads⟩ := hat.fails hk hok
    exact ⟨t, (hu.tail hv).tail ht, hpc, hst, hreads, fun h => absurd h Bool.false_ne_true⟩
  | true =>
    obtain ⟨t, ht, ⟨hmore, -⟩ | ⟨-, hl⟩⟩ := hat.next hk hok
    · rcases hstop with hf | hf
      · exact absurd (hf.symm.trans hok) Bool.false_ne_true
      · omega
    · exact ⟨t, hu.tail ht, hl.pc, hl.stack, hl.reads, fun _ => hl⟩

theorem rounds_only (hpc : s.pc = .fat16LoadFile) (hstack : s.stack = .ret back :: stack)
    (hgo : ∀ k, (∀ i ≤ k, Lands b s i) → ¬ Stops b s k) {t : State} (ht : Reaches (step b) s t) :
    t = s ∨ ∃ k, AtCluster b s back stack k t := by
  refine reaches_invariant (fun t => t = s ∨ ∃ k, AtCluster b s back stack k t) ?_ ht (.inl rfl)
  rintro u v (rfl | ⟨k, hu⟩) hv
  · obtain ⟨hstep, hstart⟩ := load_start (b := b) hpc hstack
    rw [hv, Option.some.injEq] at hstep
    exact .inr ⟨0, hstep ▸ hstart⟩
  · by_cases hl : Lands b s k
    · have hgoes : ¬ Stops b s k := hgo k fun i hi => by
        rcases Nat.lt_or_eq_of_le hi with hlt | rfl
        · exact hu.lands i hlt
        · exact hl
      obtain ⟨w, hw, ⟨-, hat⟩ | ⟨hend, -⟩⟩ := hu.next hl (ok_of_goes hgoes)
      · rw [hv, Option.some.injEq] at hw
        exact .inr ⟨k + 1, hw ▸ hat⟩
      · exact absurd (.inr hend) hgoes
    · rw [hu.step_eq, if_neg hl] at hv
      exact absurd hv (Option.some_ne_none v).symm

theorem not_returns (hpc : s.pc = .fat16LoadFile) (hstack : s.stack = .ret back :: stack)
    (hgo : ∀ k, (∀ i ≤ k, Lands b s i) → ¬ Stops b s k) : ¬ Returns b s back stack := by
  rintro ⟨t, ht, -, hst⟩
  rcases rounds_only hpc hstack hgo ht with rfl | ⟨k, hat⟩
  · rw [hst] at hstack
    exact List.cons_ne_self _ _ hstack.symm
  · have := hat.stack
    rw [hst] at this
    exact List.cons_ne_self _ _ this.symm

end Rounds

/-- **The loader comes back exactly if the chain ends.** `fat16_load_file` returns if and
only if the chain that starts at its cluster comes to an entry that is no cluster, or to a
cluster that cannot be read, and no read up to there goes over the interrupt vectors, the
stack or stage 2. -/
theorem load_returns_iff (b : Bios) (s : State) (back : Label) (stack : List Slot)
    (hpc : s.pc = .fat16LoadFile) (hstack : s.stack = .ret back :: stack) :
    Returns b s back stack ↔ ∃ k, (∀ i ≤ k, Lands b s i) ∧ Stops b s k := by
  classical
  constructor
  · intro hret
    by_contra hno
    exact not_returns hpc hstack (fun k hk hs => hno ⟨k, hk, hs⟩) hret
  · rintro ⟨k, hlands, hstop⟩
    have hex : ∃ k, Stops b s k := ⟨k, hstop⟩
    have hle : Nat.find hex ≤ k := Nat.find_min' hex hstop
    obtain ⟨t, ht, htpc, htst, -⟩ := stops_returns hpc hstack (fun i hi => Nat.find_min hex hi)
      (fun i hi => hlands i (Nat.le_trans hi hle)) (Nat.find_spec hex)
    exact ⟨t, ht, htpc, htst⟩

/-- An empty disk; every read succeeds. -/
def quietBios : Bios where
  disk := fun _ _ => 0
  ok := fun _ => true
  moved := fun _ => 0
  junk := fun _ _ => 0
  own := fun _ _ => 0
  shown := fun _ => (0x0E00, 7, 0)

/-- `fat16_load_file` is called with cluster 2. The entries of clusters 2 and 3 are `next`
and `last`. -/
def sampleLoad (spc next last : Nat) : State where
  pc := .fat16LoadFile
  eax := 2
  ecx := 0
  bx := 0
  dx := 0
  si := 0
  di := 0
  bp := 0
  es := 0
  cf := false
  zf := false
  stack := [.ret .kernelReady]
  mem := store16 (store16 (fun _ => 0) 0x1004 next) 0x1006 last
  vars := ⟨512, spc, 1, 2, 16, 1, 0, 0, 1, 3, 1, 4, 0, 0, 0⟩
  dap := ⟨0, 0, 0, 0⟩
  reads := 3
  screen := []

/-- A file of two clusters is loaded. With 128 sectors to a cluster a chain in circles ends
with its 16th read, to segment 0, if that fails. -/
theorem load_returns_iff_sample :
    Returns quietBios (sampleLoad 1 3 0xFFFF) .kernelReady [] ∧
      Returns { quietBios with ok := fun n => n != 18 } (sampleLoad 128 2 0) .kernelReady [] := by
  constructor
  · exact (load_returns_iff quietBios (sampleLoad 1 3 0xFFFF) .kernelReady [] rfl rfl).mpr
      ⟨1, by decide, .inr (by decide)⟩
  · exact (load_returns_iff { quietBios with ok := fun n => n != 18 } (sampleLoad 128 2 0)
      .kernelReady [] rfl rfl).mpr ⟨15, by decide, .inl rfl⟩

theorem sampleLoad_circle {spc k : Nat} (hseg : ∀ i < k, kernelSeg ≤ segAt spc i) :
    chainAt quietBios (sampleLoad spc 2 0) k = 2 := by
  induction k with
  | zero => rfl
  | succ k ih =>
    rw [chainAt_low hseg, ih fun i hi => hseg i (by omega)]
    have hentry : ∀ n, lookup quietBios n (sampleLoad spc 2 0).mem (entryOffset 2) =
        lookup quietBios 0 (sampleLoad 0 2 0).mem (entryOffset 2) := fun _ => rfl
    rw [hentry]
    decide

theorem sampleLoad_goes_on {spc k : Nat} (hseg : ∀ i ≤ k, kernelSeg ≤ segAt spc i) :
    ¬ Stops quietBios (sampleLoad spc 2 0) k := by
  rintro (hfail | hend)
  · exact Bool.false_ne_true hfail.symm
  · rw [sampleLoad_circle fun i hi => hseg i (by omega)] at hend
    omega

/-- **A cluster that follows itself** is not the end: `fat16_load_file` does not return. With
no sectors to a cluster it reads on for ever, and nothing is ever overwritten. With one, the
segment comes round to the interrupt vectors. -/
theorem load_runs_in_circles :
    (¬ Returns quietBios (sampleLoad 0 2 0) .kernelReady [] ∧
      ∀ k, Lands quietBios (sampleLoad 0 2 0) k) ∧
    ¬ Returns quietBios (sampleLoad 1 2 0) .kernelReady [] := by
  have hfixed : ∀ i, segAt 0 i = kernelSeg := fun i => by
    induction i with
    | zero => rfl
    | succ i ih =>
      rw [segAt, ih]
      rfl
  have hseg : ∀ i < 1920, segAt 1 i = 0x1000 + 32 * 1 * i := fun i hi =>
    segAt_eq (by decide) (by omega)
  refine ⟨⟨not_returns rfl rfl fun k _ => ?_, fun k => ?_⟩, not_returns rfl rfl fun k hlands => ?_⟩
  · exact sampleLoad_goes_on fun i _ => (hfixed i).ge
  · exact lands_of_high (hfixed k).ge
  by_cases hk : k < 1920
  · refine sampleLoad_goes_on fun i hi => ?_
    rw [hseg i (by omega)]
    exact Nat.le_add_right _ _
  · have hwrapped : segAt 1 1920 = 0 := by
      rw [segAt, hseg 1919 (by omega)]
      rfl
    have hlost := hlands 1920 (by omega)
    unfold Lands at hlost
    rw [show (sampleLoad 1 2 0).vars.spc = 1 from rfl, hwrapped] at hlost
    exact absurd (by decide) hlost

end TupleOS.Fat16
