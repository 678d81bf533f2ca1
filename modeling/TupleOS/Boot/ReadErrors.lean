import TupleOS.Boot.KernelLoad

/-!
# Disk errors on the way to the kernel (`boot/stage2.asm`)

Steps 8 and 9 of `stage2_start` as a whole, for every pattern of failing reads. A sector
of the root directory that cannot be read ends in the halt loop. But `fat16_init` and
`fat16_load_file` only print a message and return, and their caller does not ask: if the
directory has the kernel, stage 2 goes on to `.kernel_ready` after a BPB, a FAT or a
cluster that could not be read. And nothing keeps a FAT, or a file whose load segment
wraps around, from being read over the stack or stage 2 itself, after which it may go on
anywhere. In all other runs the kernel is complete or stage 2 halts (`read_errors_iff`).
-/

namespace TupleOS.Fat16

open TupleOS.Base
open TupleOS.Boot (sectorBuf fatBuf)
open StateTransition (Reaches)

/-! ## What is asked for -/

/-- The variables `fat16_*` in the image of stage 2. -/
def vars0 : Vars := ⟨0, 0, 0, 0, 0, 0, 0, 0, 0, 0, 0, 0, 0, 0, 0⟩

structure Booted (s : State) : Prop where
  pc : s.pc = .initFs
  stack : s.stack = []
  es : s.es = 0
  vars : s.vars = vars0
  reads : s.reads = 0

/-- Real mode is left only with a kernel that was read to its end, and after a read that
failed stage 2 halts. No read goes over the interrupt vectors, the stack or stage 2: the
run goes on until one of the two. -/
structure CompleteOnly (b : Bios) (s : State) : Prop where
  ready : ∀ t, Reaches (step b) s t → t.pc = .kernelReady →
    (∀ n < t.reads, b.ok n = true) ∧ 0xFFF8 ≤ t.vars.currCluster
  halts : ∀ t n, Reaches (step b) s t → n < t.reads → b.ok n = false →
    ∃ u, Reaches (step b) t u ∧ u.pc = .halt
  goesOn : ∀ t, Reaches (step b) s t → step b t = none → t.pc = .kernelReady ∨ t.pc = .halt

/-! ## When that is so -/

/-- The variables that the search begins with. -/
def knownVars (b : Bios) : Vars := if b.ok 0 then geometry b.disk vars0 else vars0

def firstRead (b : Bios) : Nat := if b.ok 0 then 2 else 1

/-- The sectors it goes through; a count of `0` is 65536. -/
def rootCount (v : Vars) : Nat := if v.rootSectors = 0 then 2 ^ 16 else v.rootSectors

/-- The FAT is not read over the stack. -/
def FatFits (b : Bios) : Prop := b.ok 0 = true → b.count 1 (geometry b.disk vars0).fatSize ≤ 53

/-- Entry `k` is the kernel's, and has a cluster. -/
def KernelAt (b : Bios) (k : Nat) : Prop :=
  Found b (knownVars b).rootStart (firstRead b) (rootCount (knownVars b)) k ∧
    load16 (entryAt b (knownVars b).rootStart k) 0x1A ≠ 0

/-- The state in which `fat16_load_file` is called for entry `k`, as far as the file
depends on it. -/
def kernelCall (b : Bios) (s : State) (k : Nat) : State :=
  { s with
    eax := load16 (entryAt b (knownVars b).rootStart k) 0x1A
    vars := knownVars b
    reads := firstRead b + k / 16 + 1
    mem := fill (cachedMem b.disk s.mem (knownVars b)) sectorBuf 1
      (b.disk ((knownVars b).rootStart + k / 16)) }

/-- Every cluster that the loop comes to is read, and not over the interrupt vectors, the
stack or stage 2. -/
def ClustersRead (b : Bios) (s : State) : Prop :=
  ∀ k, (∀ i < k, ¬ Stops b s i) → Lands b s k ∧ b.ok (s.reads + k) = true

/-- The FAT is not read over the stack. If the kernel is in the directory, then the BPB, the
FAT and its clusters are read. -/
def NoneIgnored (b : Bios) (s : State) : Prop :=
  FatFits b ∧ ∀ k, KernelAt b k →
    b.ok 0 = true ∧ b.ok 1 = true ∧ ClustersRead b (kernelCall b s k)

/-! ## Reads are counted -/

section Reads

variable {b : Bios} {s t : State} {r : Nat} {x : Option State} {f : State → Option State}

def AtLeast (r : Nat) (x : Option State) : Prop := ∀ t, x = some t → r ≤ t.reads

theorem AtLeast.some (h : r ≤ s.reads) : AtLeast r (some s) := fun _ ht =>
  Option.some.inj ht ▸ h

theorem AtLeast.none : AtLeast r none := nofun

theorem AtLeast.bind (hx : AtLeast r x) (hf : ∀ t, r ≤ t.reads → AtLeast r (f t)) :
    AtLeast r (x.bind f) := by
  intro u hu
  obtain ⟨t, ht, hu⟩ := Option.bind_eq_some_iff.mp hu
  exact hf t (hx t ht) u hu

theorem AtLeast.ret (h : r ≤ s.reads) : AtLeast r s.ret := by
  unfold State.ret
  split
  · exact .some h
  · exact .none

theorem AtLeast.setAx_ret (v : Nat) (h : r ≤ s.reads) : AtLeast r (s.setAx v).ret := .ret h

theorem AtLeast.popEs (h : r ≤ s.reads) : AtLeast r s.popEs := by
  unfold State.popEs
  split
  · exact .some h
  · exact .none

theorem AtLeast.popCx (h : r ≤ s.reads) : AtLeast r s.popCx := by
  unfold State.popCx
  split
  · exact .some h
  · exact .none

theorem AtLeast.popAx (h : r ≤ s.reads) : AtLeast r s.popAx := by
  unfold State.popAx
  split
  · exact .some h
  · exact .none

theorem AtLeast.popEax (h : r ≤ s.reads) : AtLeast r s.popEax := by
  unfold State.popEax
  split
  · exact .some h
  · exact .none

theorem AtLeast.popa (h : r ≤ s.reads) : AtLeast r s.popa := by
  unfold State.popa
  split
  · exact .some h
  · exact .none

theorem AtLeast.ite {c : Prop} [Decidable c] {y : Option State} (hx : AtLeast r x)
    (hy : AtLeast r y) : AtLeast r (if c then x else y) := by
  split
  · exact hx
  · exact hy

theorem AtLeast.readSectors (h : r ≤ s.reads) : AtLeast r (readSectors b s) := by
  rw [readSectors_eq]
  exact .ite .none (.some (Nat.le_succ_of_le h))

theorem followChain_reads (h : r ≤ s.reads) : AtLeast r (followChain b s) := by
  have hnext : r ≤ (nextCluster b s).reads := by
    simpa only [nextCluster, State.setAx] using h
  unfold followChain
  generalize nextCluster b s = u at hnext
  exact .ite (.some h) (.ite (.some hnext) (.ret hnext))

theorem fat16Init_reads (h : r ≤ s.reads) : AtLeast r (fat16Init b s) := by
  rw [fat16Init_eq]
  exact .bind (.readSectors h) fun _ ht => .ite (.some ht)
    (.bind (.readSectors ht) fun _ hu => .ite (.some hu)
      (.bind (.popEs hu) fun _ hv => .ret hv))

theorem scanSector_reads (h : r ≤ s.reads) : AtLeast r (scanSector b s) :=
  .bind (.readSectors h) fun _ ht => .bind (.popEs ht) fun _ hu =>
    .bind (.popEax hu) fun _ hv => .ite (.some hv) (.some hv)

theorem checkEntry_reads (h : r ≤ s.reads) : AtLeast r (checkEntry s) :=
  .ite (.some h) (.ite (.some h) (.ite (.some h)
    (.bind (.popa h) fun _ ht => .ite (.some ht) (.some ht))))

theorem skipEntry_reads (h : r ≤ s.reads) : AtLeast r (skipEntry s) :=
  .ite (.some h) (.bind (.popCx h) fun _ ht => .ite (.some ht) (.setAx_ret 0 ht))

theorem findNotFound_reads (h : r ≤ s.reads) : AtLeast r (findNotFound b s) :=
  .bind (.popCx h) fun _ ht => .setAx_ret 0 ht

theorem findFound_reads (h : r ≤ s.reads) : AtLeast r (findFound b s) :=
  .bind (.popCx h) fun _ ht => .bind (.popAx ht) fun _ hu => .ret hu

theorem loadCluster_reads (h : r ≤ s.reads) : AtLeast r (loadCluster b s) :=
  .bind (.readSectors h) fun _ ht => .bind (.popEs ht) fun _ hu => followChain_reads hu

/-- **No step takes a read back.** -/
theorem step_reads (b : Bios) (s : State) : AtLeast s.reads (step b s) := by
  have hr : s.reads ≤ s.reads := Nat.le_refl _
  unfold step
  split
  case h_1 => exact .some hr
  case h_2 => exact .some hr
  case h_3 =>
    unfold foundKernel
    split
    · exact .some hr
    · exact .some hr
  case h_4 => exact .none
  case h_5 => exact .none
  case h_6 => exact fat16Init_reads hr
  case h_7 => exact .bind (.popEs hr) fun _ ht => .ret ht
  case h_8 => exact .some hr
  case h_9 => exact scanSector_reads hr
  case h_10 => exact checkEntry_reads hr
  case h_11 => exact skipEntry_reads hr
  case h_12 => exact findNotFound_reads hr
  case h_13 => exact findFound_reads hr
  case h_14 => exact .some hr
  case h_15 => exact loadCluster_reads hr
  case h_16 => exact .ret hr

theorem reaches_reads (h : Reaches (step b) s t) : s.reads ≤ t.reads :=
  reaches_invariant (fun t => s.reads ≤ t.reads)
    (fun hu hv => Nat.le_trans hu (step_reads b _ _ hv)) h (Nat.le_refl _)

end Reads

/-! ## To the search, and through it -/

section Boot

variable {b : Bios} {s t L : State} {k : Nat}

theorem vars_bounds (b : Bios) :
    (knownVars b).rootSectors = w16 (rootCount (knownVars b)) ∧ 0 < rootCount (knownVars b) ∧
      rootCount (knownVars b) ≤ 2 ^ 16 ∧ (knownVars b).rootStart < 2 ^ 16 := by
  have hsectors : (knownVars b).rootSectors < 2 ^ 16 := by
    unfold knownVars
    split
    · exact Nat.lt_of_le_of_lt (Nat.div_le_self _ 16) (load16_lt _ _)
    · exact Nat.two_pow_pos 16
  have hstart : (knownVars b).rootStart < 2 ^ 16 := by
    unfold knownVars
    split
    · exact Nat.mod_lt _ (Nat.two_pow_pos 16)
    · exact Nat.two_pow_pos 16
  unfold rootCount w16
  split <;> omega

theorem InitDone.of_call {target back back' : Label} {stack : List Slot} {v : Vars} {n : Nat}
    (h : InitDone (s.call target back) back' stack v n t) : InitDone s back' stack v n t :=
  ⟨h.pc, h.stack, h.es, h.vars, h.reads⟩

/-- `fat16_init` returns to `stage2_start`, whatever it could read. -/
theorem init_done (hs : Booted s) (hfit : FatFits b) :
    ∃ t, Reaches (step b) s t ∧ InitDone s .findKernel [] (knownVars b) (firstRead b) t ∧
      (b.ok 0 = true → b.ok 1 = true → t.mem = cachedMem b.disk s.mem (knownVars b)) := by
  have hcall : step b s = some (s.call .fat16Init .findKernel) := by
    unfold step
    rw [hs.pc]
  have hst : (s.call .fat16Init .findKernel).stack = .ret .findKernel :: [] := by
    rw [← hs.stack]
    rfl
  have h0 : (s.call .fat16Init .findKernel).reads = 0 := hs.reads
  have hv : (s.call .fat16Init .findKernel).vars = vars0 := hs.vars
  have hw : w16 (geometry b.disk vars0).fatSize = (geometry b.disk vars0).fatSize :=
    Nat.mod_eq_of_lt (load16_lt _ _)
  unfold knownVars firstRead
  cases hok : b.ok 0 with
  | false =>
    obtain ⟨t, ht, hdone⟩ := bpb_fails (b := b) rfl hst (h0 ▸ hok)
    rw [hv] at hdone
    exact ⟨t, .head hcall ht, hdone.of_call, fun h => absurd h Bool.false_ne_true⟩
  | true =>
    have hcount := hfit hok
    cases hok' : b.ok 1 with
    | false =>
      obtain ⟨t, ht, hdone⟩ := fat_fails (b := b) rfl hst (h0 ▸ hok) (by rw [h0]; exact hok')
        (by rw [h0, hv, hw]; exact hcount)
      rw [hv] at hdone
      exact ⟨t, .head hcall ht, hdone.of_call, fun _ h => absurd h Bool.false_ne_true⟩
    | true =>
      have hle : (geometry b.disk vars0).fatSize ≤ 53 := by
        unfold Bios.count at hcount
        rwa [if_pos hok'] at hcount
      obtain ⟨t, ht, hdone, hmem⟩ := init_reads (b := b) rfl hst (h0 ▸ hok) (by rw [h0]; exact hok')
        (by rw [hv, hw]; exact hle)
      rw [hv] at hdone hmem
      exact ⟨t, .head hcall ht, hdone.of_call, fun _ _ => hmem⟩

/-- What the rounds of the loader depend on is the same: its first cluster, the reads
before it, memory and where the clusters are. -/
structure SameLoad (s t : State) : Prop where
  ax : t.ax = s.ax
  reads : t.reads = s.reads
  mem : t.mem = s.mem
  spc : t.vars.spc = s.vars.spc
  dataStart : t.vars.dataStart = s.vars.dataStart

theorem SameLoad.roundAt (h : SameLoad s t) (k : Nat) : roundAt b t k = roundAt b s k := by
  induction k with
  | zero => rw [Fat16.roundAt, Fat16.roundAt, h.ax, h.mem]
  | succ k ih =>
    unfold Fat16.roundAt clusterLba
    rw [ih, h.reads, h.spc, h.dataStart]

theorem SameLoad.clustersRead (h : SameLoad s t) : ClustersRead b t ↔ ClustersRead b s := by
  unfold ClustersRead Lands Stops chainAt
  simp only [h.roundAt, h.reads, h.spc]

/-- A search that found entry `k` leaves what `kernelCall` says. -/
theorem SameLoad.of_search {k : Nat} {t u : State} (hax : u.ax = (kernelCall b s k).eax)
    (hreads : u.reads = firstRead b + k / 16 + 1) (hkept : Kept t u) (hv : t.vars = knownVars b)
    (hmem : t.mem = cachedMem b.disk s.mem (knownVars b))
    (hsector : ∀ x < 512, u.mem (sectorBuf + x) = b.disk ((knownVars b).rootStart + k / 16) x) :
    SameLoad (kernelCall b s k) u := by
  constructor
  · rw [hax]
    exact (Nat.mod_eq_of_lt (load16_lt _ _)).symm
  · exact hreads
  · funext a
    show u.mem a = fill _ sectorBuf 1 _ a
    unfold fill
    by_cases ha : InWin sectorBuf (sectorBuf + 512) a
    · have hx := hsector (a - sectorBuf) (by have := ha.2; omega)
      rw [Nat.add_sub_cancel' ha.1] at hx
      rw [if_pos ha, hx]
    · rw [if_neg ha, hkept.mem a ha, hmem]
  · rw [hkept.vars, hv]
    rfl
  · rw [hkept.vars, hv]
    rfl

/-- **After the search** stage 2 halts, or calls `fat16_load_file` for the entry of the
kernel. -/
theorem search_done (hs : Booted s) (hfit : FatFits b) :
    (∃ t, Reaches (step b) s t ∧ t.pc = .halt ∧ ∀ k, ¬ KernelAt b k) ∨
    ∃ L k, Reaches (step b) s L ∧ KernelAt b k ∧ L.pc = .fat16LoadFile ∧
      L.stack = [.ret .kernelReady] ∧ L.reads = firstRead b + k / 16 + 1 ∧
      (b.ok 0 = true → b.ok 1 = true → SameLoad (kernelCall b s k) L) := by
  obtain ⟨t, ht, hdone, hmem⟩ := init_done hs hfit
  obtain ⟨hsectors, hpos, hle, hstart⟩ := vars_bounds b
  have hcall : step b t = some (t.call .fat16FindFile .foundKernel) := by
    unfold step
    rw [hdone.pc]
  have hst : (t.call .fat16FindFile .foundKernel).stack = .ret .foundKernel :: [] := by
    rw [← hdone.stack]
    rfl
  have hv : (t.call .fat16FindFile .foundKernel).vars = knownVars b := hdone.vars
  have hr : (t.call .fat16FindFile .foundKernel).reads = firstRead b := by
    show t.reads = _
    rw [hdone.reads, hs.reads, Nat.zero_add]
  obtain ⟨u, hu, hret⟩ := search_result (b := b) rfl hst (hdone.es.trans hs.es)
    (hv ▸ hsectors) hpos hle (hv ▸ hstart)
  have hresult := hret.result
  rw [hv, hr] at hresult
  have hsu : Reaches (step b) s u := ht.trans (.head hcall hu)
  have hfound : step b u = some (foundKernel u) := by
    unfold step
    rw [hret.pc]
  have hhalt : u.ax = 0 → (∀ k, ¬ KernelAt b k) →
      ∃ t, Reaches (step b) s t ∧ t.pc = .halt ∧ ∀ k, ¬ KernelAt b k := fun hax hno => by
    unfold foundKernel at hfound
    rw [if_pos hax] at hfound
    exact ⟨_, hsu.tail hfound, rfl, hno⟩
  rcases hresult with ⟨k, hk, hax, -, hreads, hsector⟩ | ⟨hno, hax⟩
  · by_cases hzero : load16 (entryAt b (knownVars b).rootStart k) 0x1A = 0
    · refine .inl (hhalt (hax.trans hzero) fun k' hk' => ?_)
      obtain rfl := hk.unique hk'.1
      exact hk'.2 hzero
    · unfold foundKernel at hfound
      rw [if_neg (fun h => hzero (hax.symm.trans h))] at hfound
      refine .inr ⟨_, k, hsu.tail hfound, ⟨hk, hzero⟩, rfl, hret.stack ▸ rfl, hreads,
        fun h0 h1 => ?_⟩
      have hload := SameLoad.of_search hax hreads hret.kept hv (hmem h0 h1) hsector
      exact ⟨hload.ax, hload.reads, hload.mem, hload.spc, hload.dataStart⟩
  · exact .inl (hhalt hax fun k hk => hno k hk.1)

/-! ## The load -/

theorem step_halt (h : t.pc = .halt) : step b t = none := by
  unfold step
  rw [h]

theorem load_outcome (hpc : L.pc = .fat16LoadFile) (hst : L.stack = [.ret .kernelReady]) :
    (∃ k w, (∀ i < k, ¬ Stops b L i) ∧ Reaches (step b) L w ∧ w.pc = .kernelReady ∧
      w.reads = L.reads + k + 1 ∧ (b.ok (L.reads + k) = true → 0xFFF8 ≤ w.vars.currCluster)) ∨
    ∀ t, Reaches (step b) L t → t = L ∨ ∃ k, AtCluster b L .kernelReady [] k t := by
  classical
  by_cases hex : ∃ k, (∀ i ≤ k, Lands b L i) ∧ Stops b L k
  · obtain ⟨hlands, hstop⟩ := Nat.find_spec hex
    have hgo : ∀ i < Nat.find hex, ¬ Stops b L i := fun i hi hs =>
      Nat.find_min hex hi ⟨fun j hj => hlands j (by omega), hs⟩
    obtain ⟨w, hw, hwpc, -, hreads, hloaded⟩ := stops_returns hpc hst hgo hlands hstop
    refine .inl ⟨_, w, hgo, hw, hwpc, hreads, fun hok => ?_⟩
    rw [(hloaded hok).cluster]
    exact hstop.resolve_left fun hf => Bool.false_ne_true (hf.symm.trans hok)
  · exact .inr fun t ht => rounds_only hpc hst (fun k hk hs => hex ⟨k, hk, hs⟩) ht

theorem load_never_halts (hpc : L.pc = .fat16LoadFile) (hst : L.stack = [.ret .kernelReady])
    (ht : Reaches (step b) L t) : t.pc ≠ .halt := by
  intro hhalt
  rcases load_outcome (b := b) hpc hst with ⟨k, w, -, hw, hwpc, -⟩ | hloop
  · obtain rfl := stop_unique ht hw (step_halt hhalt) (step_kernelReady hwpc)
    rw [hhalt] at hwpc
    cases hwpc
  · rcases hloop t ht with rfl | ⟨k, hat⟩
    · rw [hhalt] at hpc
      cases hpc
    · have := hat.pc
      rw [hhalt] at this
      cases this

theorem load_reads (hpc : L.pc = .fat16LoadFile) (hst : L.stack = [.ret .kernelReady])
    (hbefore : ∀ n < L.reads, b.ok n = true) (hall : ClustersRead b L)
    (ht : Reaches (step b) L t) :
    ∀ n < t.reads, b.ok n = true := by
  have hgoes : ∀ k, (∀ i < k, ¬ Stops b L i) → ∀ n < L.reads + k, b.ok n = true := by
    intro k hgo n hn
    by_cases hlt : n < L.reads
    · exact hbefore n hlt
    · have := ok_of_goes (hgo (n - L.reads) (by omega))
      rwa [Nat.add_sub_cancel' (Nat.le_of_not_lt hlt)] at this
  intro n hn
  rcases load_outcome (b := b) hpc hst with ⟨k, w, hgo, hw, hwpc, hreads, -⟩ | hloop
  · have hle := reaches_reads (reaches_stop ht hw (step_kernelReady hwpc))
    rcases Nat.lt_or_eq_of_le (show n ≤ L.reads + k by omega) with hlt | rfl
    · exact hgoes k hgo n hlt
    · exact (hall k hgo).2
  · rcases hloop t ht with rfl | ⟨k, hat⟩
    · exact hbefore n hn
    · exact hgoes k hat.goes n (hat.reads ▸ hn)

theorem load_goes_on (hpc : L.pc = .fat16LoadFile) (hst : L.stack = [.ret .kernelReady])
    (hall : ClustersRead b L) (ht : Reaches (step b) L t) (hstop : step b t = none) :
    t.pc = .kernelReady := by
  rcases load_outcome (b := b) hpc hst with ⟨k, w, -, hw, hwpc, -⟩ | hloop
  · rwa [stop_unique ht hw hstop (step_kernelReady hwpc)]
  · exfalso
    rcases hloop t ht with rfl | ⟨k, hat⟩
    · rw [(load_start hpc hst).1] at hstop
      cases hstop
    · obtain ⟨hl, hok⟩ := hall k hat.goes
      obtain ⟨u, hu, -⟩ := hat.next hl hok
      rw [hu] at hstop
      cases hstop

/-! ## All of it -/

theorem CompleteOnly.clustersRead (hc : CompleteOnly b s) (hL : Reaches (step b) s L)
    (hpc : L.pc = .fat16LoadFile) (hst : L.stack = [.ret .kernelReady]) : ClustersRead b L := by
  intro k
  induction k using Nat.strong_induction_on with
  | _ k ih =>
    intro hgo
    have hlands : ∀ i < k, Lands b L i := fun i hi =>
      (ih i hi fun j hj => hgo j (Nat.lt_trans hj hi)).1
    obtain ⟨t, ht, hat⟩ := reaches_cluster hpc hst hgo hlands
    have hl : Lands b L k := by
      by_contra hno
      have hstop := hat.step_eq
      rw [if_neg hno] at hstop
      rcases hc.goesOn t (hL.trans ht) hstop with h | h <;> rw [hat.pc] at h <;> cases h
    refine ⟨hl, ?_⟩
    by_contra hfail
    obtain ⟨w, hw, hwpc, -, hwreads, -⟩ := stops_returns hpc hst hgo
      (fun i hi => (Nat.lt_or_eq_of_le hi).elim (hlands i) fun h => h ▸ hl)
      (.inl (Bool.eq_false_iff.mpr hfail))
    exact hfail ((hc.ready w (hL.trans hw) hwpc).1 (L.reads + k) (by omega))

theorem fat_stops (hs : Booted s) (hfit : ¬ FatFits b) :
    ∃ t, Reaches (step b) s t ∧ step b t = none ∧ t.pc = .fat16Init := by
  obtain ⟨h0, hlost⟩ := Classical.not_imp.mp hfit
  have hcall : step b s = some (s.call .fat16Init .findKernel) := by
    unfold step
    rw [hs.pc]
  have hreads : (s.call .fat16Init .findKernel).reads = 0 := hs.reads
  have hv : (s.call .fat16Init .findKernel).vars = vars0 := hs.vars
  have hw : w16 (geometry b.disk vars0).fatSize = (geometry b.disk vars0).fatSize :=
    Nat.mod_eq_of_lt (load16_lt _ _)
  refine ⟨_, .single hcall, fat_lost rfl (hreads ▸ h0) ?_, rfl⟩
  rw [hreads, hv, hw]
  exact Nat.lt_of_not_le hlost

/-- **What a complete kernel takes.** -/
theorem CompleteOnly.noneIgnored (hs : Booted s) (hc : CompleteOnly b s) : NoneIgnored b s := by
  have hfit : FatFits b := by
    by_contra hno
    obtain ⟨t, ht, hstop, hpc⟩ := fat_stops hs hno
    rcases hc.goesOn t ht hstop with h | h <;> rw [hpc] at h <;> cases h
  refine ⟨hfit, fun k hk => ?_⟩
  rcases search_done hs hfit with ⟨t, -, -, hno⟩ | ⟨L, k', hL, hk', hpc, hst, hreads, hsame⟩
  · exact absurd hk (hno k)
  obtain rfl := hk.1.unique hk'.1
  have hfirst : 1 ≤ firstRead b := by
    unfold firstRead
    split <;> omega
  -- a failure before the load is not followed by a halt
  have hok : ∀ n < 2, b.ok n = true := fun n hn => by
    by_contra hfail
    obtain ⟨u, hu, hhalt⟩ := hc.halts L n hL (by omega) (Bool.eq_false_iff.mpr hfail)
    exact load_never_halts hpc hst hu hhalt
  have h0 := hok 0 (by omega)
  have h1 := hok 1 (by omega)
  exact ⟨h0, h1, (hsame h0 h1).clustersRead.mp (hc.clustersRead hL hpc hst)⟩

theorem complete_of_halt (ht : Reaches (step b) s t) (hhalt : t.pc = .halt) : CompleteOnly b s := by
  refine ⟨fun u hu hpc => ?_, fun u n hu _ _ => ?_, fun u hu hstop => ?_⟩
  · obtain rfl := stop_unique ht hu (step_halt hhalt) (step_kernelReady hpc)
    rw [hhalt] at hpc
    cases hpc
  · exact ⟨t, reaches_stop hu ht (step_halt hhalt), hhalt⟩
  · exact .inr (stop_unique ht hu (step_halt hhalt) hstop ▸ hhalt)

theorem complete_of_load (hL : Reaches (step b) s L) (hpc : L.pc = .fat16LoadFile)
    (hst : L.stack = [.ret .kernelReady]) (hbefore : ∀ n < L.reads, b.ok n = true)
    (hread : ClustersRead b L) : CompleteOnly b s := by
  have hall : ∀ t, Reaches (step b) s t → ∀ n < t.reads, b.ok n = true := fun t ht n hn => by
    rcases StateTransition.reaches_total ht hL with h | h
    · exact hbefore n (Nat.lt_of_lt_of_le hn (reaches_reads h))
    · exact load_reads hpc hst hbefore hread h n hn
  refine ⟨fun t ht hready => ⟨hall t ht, ?_⟩, fun t n ht hn hfail => ?_, fun t ht hstop => ?_⟩
  · have hLt := reaches_stop hL ht (step_kernelReady hready)
    rcases load_outcome (b := b) hpc hst with ⟨k, w, -, hw, hwpc, hreads, hend⟩ | hloop
    · obtain rfl := stop_unique hLt hw (step_kernelReady hready) (step_kernelReady hwpc)
      exact hend (hall _ ht _ (by omega))
    · rcases hloop t hLt with rfl | ⟨k, hat⟩
      · rw [hready] at hpc
        cases hpc
      · have := hat.pc
        rw [hready] at this
        cases this
  · exact absurd (hfail.symm.trans (hall t ht n hn)) Bool.false_ne_true
  · exact .inl (load_goes_on hpc hst hread (reaches_stop hL ht hstop) hstop)

end Boot

/-- **Disk errors.** For every disk, every pattern of reads that succeed and fail, and
every content of memory: stage 2 leaves real mode only with a kernel that was read to its
end, halts after every failure and is not read over, if and only if no error is ignored. -/
theorem read_errors_iff (b : Bios) (s : State) (hs : Booted s) :
    CompleteOnly b s ↔ NoneIgnored b s := by
  refine ⟨fun hc => hc.noneIgnored hs, fun ⟨hfit, hkernel⟩ => ?_⟩
  rcases search_done hs hfit with ⟨t, ht, hhalt, -⟩ | ⟨L, k, hL, hk, hpc, hst, hreads, hsame⟩
  · exact complete_of_halt ht hhalt
  obtain ⟨h0, h1, hread⟩ := hkernel k hk
  have hfirst : firstRead b = 2 := by
    unfold firstRead
    rw [if_pos h0]
  refine complete_of_load hL hpc hst (fun n hn => ?_) ((hsame h0 h1).clustersRead.mpr hread)
  match n with
  | 0 => exact h0
  | 1 => exact h1
  | n + 2 =>
    have hdir := hk.1.reads n (by omega)
    rwa [hfirst, Nat.add_comm] at hdir

/-- A disk with the kernel in its directory and in clusters 2 and 3. Read `bad` fails. -/
def kernelBios (bad : Nat) : Bios where
  disk := fun lba j =>
    if lba = 0 then
      match j with
      | 0x0C => 2
      | 0x0D => 1
      | 0x0E => 1
      | 0x10 => 1
      | 0x11 => 16
      | 0x16 => 1
      | _ => 0
    else if lba = 1 then if j = 4 then 3 else if j = 5 then 0 else 0xFF
    else if lba = 2 then sampleEntry.getD j 0
    else 0
  ok := fun n => n != bad
  moved := fun _ => 0
  junk := fun _ _ => 0
  own := fun _ _ => 0
  shown := fun _ => (0x0E00, 7, 0)

def bootState : State where
  pc := .initFs
  eax := 0
  ecx := 0
  bx := 0
  dx := 0
  si := 0
  di := 0
  bp := 0
  es := 0
  cf := false
  zf := false
  stack := []
  mem := fun _ => 0
  vars := vars0
  dap := ⟨0, 0, 0, 0⟩
  reads := 0
  screen := []

theorem bootState_booted : Booted bootState := ⟨rfl, rfl, rfl, rfl, rfl⟩

theorem kernelBios_kernel {bad : Nat} (h : bad = 1 ∨ bad = 3 ∨ bad = 5) :
    FatFits (kernelBios bad) ∧ KernelAt (kernelBios bad) 0 := by
  have hnone : ∀ P : Nat → Prop, ∀ j < 0, P j := fun P j hj => absurd hj (Nat.not_lt_zero j)
  rcases h with rfl | rfl | rfl
  all_goals
    refine ⟨fun _ => by decide, ⟨by decide, ⟨by decide, by decide, by decide⟩, hnone _, hnone _,
      fun i hi => ?_⟩, by decide⟩
    obtain rfl := Nat.le_zero.mp hi
    rfl

/-- If the directory cannot be read, stage 2 halts. If all reads that are made succeed, it
has the kernel. -/
theorem read_errors_heeded :
    CompleteOnly (kernelBios 2) bootState ∧ CompleteOnly (kernelBios 5) bootState := by
  constructor
  · refine (read_errors_iff (kernelBios 2) bootState bootState_booted).mpr
      ⟨fun _ => by decide, fun k hk => ?_⟩
    exact absurd (hk.1.reads 0 (Nat.zero_le _)) (by decide)
  · obtain ⟨hfit, hk⟩ := kernelBios_kernel (.inr (.inr rfl))
    refine (read_errors_iff (kernelBios 5) bootState bootState_booted).mpr
      ⟨hfit, fun k hk' => ?_⟩
    obtain rfl := hk.1.unique hk'.1
    -- the file has two clusters
    refine ⟨rfl, rfl, fun i hgo => ?_⟩
    match i with
    | 0 => exact ⟨by decide, rfl⟩
    | 1 => exact ⟨by decide, rfl⟩
    | i + 2 => exact absurd (.inr (by decide)) (hgo 1 (by omega))

/-- **A cluster, or the FAT, that cannot be read** does not keep stage 2 from leaving real
mode. -/
theorem read_errors_ignored :
    Booted bootState ∧ ¬ CompleteOnly (kernelBios 3) bootState ∧
      ¬ CompleteOnly (kernelBios 1) bootState := by
  obtain ⟨-, hk⟩ := kernelBios_kernel (.inr (.inl rfl))
  obtain ⟨-, hk'⟩ := kernelBios_kernel (.inl rfl)
  refine ⟨bootState_booted, fun hc => ?_, fun hc => ?_⟩
  · obtain ⟨-, -, hread⟩ := (hc.noneIgnored bootState_booted).2 0 hk
    exact absurd (hread 0 fun i hi => absurd hi (Nat.not_lt_zero i)).2 (by decide)
  · exact absurd ((hc.noneIgnored bootState_booted).2 0 hk').2.1 (by decide)

end TupleOS.Fat16
