import TupleOS.Boot.Fat16

/-!
# Reading the BPB and the FAT (`boot/stage2.asm`)

`fat16_init` has no loop: it ends at the first read that fails, or with the variables of
the volume set and the FAT at `FAT_BUF`. Each way is one lemma. A FAT of more than 53
sectors reaches the stack (`fat_clobbers_iff`).
-/

namespace TupleOS.Fat16

open TupleOS.Base
open TupleOS.Boot (sectorBuf fatBuf)
open StateTransition (Reaches)

/-- The variables that `fat16_init` takes from the boot sector of a disk. -/
def geometry (disk : Nat → Bytes) (v : Vars) : Vars := parseBpb (fun a => disk 0 (a - sectorBuf)) v

theorem parseBpb_congr {m m' : Bytes} {v : Vars} (h : AgreeOn m m' sectorBuf (sectorBuf + 512)) :
    parseBpb m' v = parseBpb m v := by
  unfold parseBpb
  rw [load16_congr (h.mono (by omega) (by omega)), load16_congr (h.mono (by omega) (by omega)),
    load16_congr (h.mono (by omega) (by omega)), load16_congr (h.mono (by omega) (by omega)),
    load16_congr (h.mono (by omega) (by omega)), load16_congr (h.mono (by omega) (by omega)),
    h _ ⟨by omega, by omega⟩, h _ ⟨by omega, by omega⟩]

theorem fat_clobbers_iff (n : Nat) : Clobbers (16 * 0 + fatBuf) n ↔ 53 < n := by
  unfold Clobbers fatBuf
  omega

/-- The state at the first `call read_sectors`. -/
def bpbCall (b : Bios) (s : State) : State :=
  { s with
    eax := 0, ecx := s.ecx / 2 ^ 16 * 2 ^ 16 + w16 1, bx := sectorBuf, es := 0
    si := (b.shown "FAT16: reading BPB...\r\n").2.2, stack := .word s.es :: s.stack
    screen := s.screen ++ ["FAT16: reading BPB...\r\n"] }

/-- The state at the second one, with the variables set to `v`. -/
def fatCall (s : State) (v : Vars) : State :=
  { s with
    eax := v.fatStart, ecx := s.ecx / 2 ^ 16 * 2 ^ 16 + w16 v.fatSize, bx := fatBuf
    si := sectorBuf, dx := v.numFats * v.fatSize / 2 ^ 16, vars := v }

def fatRest (b : Bios) (s : State) : Option State :=
  if s.cf then some { s with pc := .initFail }
  else s.popEs.bind fun s => (printString b "FAT16: filesystem initialized.\r\n" s).ret

theorem bpbCall_cx (b : Bios) (s : State) : (bpbCall b s).cx = 1 := w16_low s.ecx 1

theorem fatCall_cx (s : State) (v : Vars) : (fatCall s v).cx = w16 v.fatSize :=
  w16_low s.ecx v.fatSize

theorem fat16Init_eq (b : Bios) (s : State) : fat16Init b s =
    (readSectors b (bpbCall b s)).bind fun s =>
      if s.cf then some { s with pc := .initFail }
      else (readSectors b (fatCall s (parseBpb s.mem s.vars))).bind (fatRest b) := by
  unfold fat16Init
  simp only [printString, State.setAx, State.push, State.setCx, bpbCall, fatCall,
    Option.bind_eq_bind]
  rfl

/-- `fat16_init` has returned after `n` reads, with the variables `v`. -/
structure InitDone (s : State) (back : Label) (stack : List Slot) (v : Vars) (n : Nat) (t : State) :
    Prop where
  pc : t.pc = back
  stack : t.stack = stack
  es : t.es = s.es
  vars : t.vars = v
  reads : t.reads = s.reads + n

def cachedMem (disk : Nat → Bytes) (m : Bytes) (v : Vars) : Bytes :=
  fill (fill m (16 * 0 + sectorBuf) 1 (sectors disk 0)) (16 * 0 + fatBuf) (w16 v.fatSize)
    (sectors disk v.fatStart)

section Ways

variable {b : Bios} {s u : State} {back : Label} {stack : List Slot} {v : Vars} {n : Nat}

theorem initFail_returns (hpc : u.pc = .initFail) (hst : u.stack = .word s.es :: .ret back :: stack)
    (hv : u.vars = v) (hr : u.reads = s.reads + n) :
    ∃ t, step b u = some t ∧ InitDone s back stack v n t := by
  have hbody : step b u = u.popEs.bind fun s =>
      (printString b "FAT16: failed to read BPB\r\n" s).ret := by
    unfold step
    rw [hpc]
    rfl
  have hret : (printString b "FAT16: failed to read BPB\r\n"
      { u with es := s.es, stack := .ret back :: stack }).ret = _ := State.ret_eq rfl
  rw [State.popEs_eq hst, Option.bind_some, hret] at hbody
  exact ⟨_, hbody, rfl, rfl, rfl, hv, hr⟩

theorem init_step (hpc : s.pc = .fat16Init) : step b s = fat16Init b s := by
  unfold step
  rw [hpc]

/-- **The BPB cannot be read**: the variables stay as they are. -/
theorem bpb_fails (hpc : s.pc = .fat16Init) (hst : s.stack = .ret back :: stack)
    (hfail : b.ok s.reads = false) :
    ∃ t, Reaches (step b) s t ∧ InitDone s back stack s.vars 1 t := by
  have hread : readSectors b (bpbCall b s) = some (afterRead (bpbCall b s)
      (min (b.moved s.reads) (bpbCall b s).cx) (b.junk s.reads) true) := by
    have hfail' : b.ok (bpbCall b s).reads = false := hfail
    apply readSectors_fail hfail'
    show ¬ Clobbers (16 * 0 + sectorBuf) _
    rw [bpbCall_cx]
    unfold Clobbers sectorBuf
    omega
  have hstep := (init_step (b := b) hpc).trans (fat16Init_eq b s)
  rw [hread, Option.bind_some] at hstep
  obtain ⟨u, hu, hupc, hust, huv, hur⟩ : ∃ u, step b s = some u ∧ u.pc = .initFail ∧
      u.stack = .word s.es :: .ret back :: stack ∧ u.vars = s.vars ∧ u.reads = s.reads + 1 :=
    ⟨_, hstep, rfl, hst ▸ rfl, rfl, rfl⟩
  obtain ⟨t, ht, hdone⟩ := initFail_returns (b := b) hupc hust huv hur
  exact ⟨t, .head hu (.single ht), hdone⟩

/-- The second read, when the first has succeeded. -/
theorem bpb_read (hpc : s.pc = .fat16Init) (hok : b.ok s.reads = true) :
    ∃ r, step b s = (readSectors b r).bind (fatRest b) ∧ r.reads = s.reads + 1 ∧
      r.stack = .word s.es :: s.stack ∧ r.vars = geometry b.disk s.vars ∧
      r.eax = (geometry b.disk s.vars).fatStart ∧
      r.cx = w16 (geometry b.disk s.vars).fatSize ∧ r.bx = fatBuf ∧ r.es = 0 ∧
      r.mem = fill s.mem (16 * 0 + sectorBuf) 1 (sectors b.disk 0) := by
  have hread : readSectors b (bpbCall b s) = some (afterRead (bpbCall b s) (bpbCall b s).cx
      (sectors b.disk 0) false) := by
    have hok' : b.ok (bpbCall b s).reads = true := hok
    apply readSectors_ok hok'
    show ¬ Clobbers (16 * 0 + sectorBuf) _
    rw [bpbCall_cx]
    unfold Clobbers sectorBuf
    omega
  have hstep := (init_step (b := b) hpc).trans (fat16Init_eq b s)
  rw [hread, bpbCall_cx, Option.bind_some] at hstep
  have hgeo : parseBpb (fill s.mem (16 * 0 + sectorBuf) 1 (sectors b.disk 0)) s.vars =
      geometry b.disk s.vars := by
    apply parseBpb_congr
    intro a ha
    obtain ⟨h1, h2⟩ := ha
    rw [fill, if_pos ⟨by omega, by omega⟩, Nat.mul_zero, Nat.zero_add, sectors,
      Nat.div_eq_of_lt (by omega), Nat.mod_eq_of_lt (by omega)]
  generalize hr : fatCall (afterRead (bpbCall b s) 1 (sectors b.disk 0) false)
    (parseBpb (afterRead (bpbCall b s) 1 (sectors b.disk 0) false).mem
      (afterRead (bpbCall b s) 1 (sectors b.disk 0) false).vars) = r at hstep
  have hv : parseBpb (afterRead (bpbCall b s) 1 (sectors b.disk 0) false).mem
      (afterRead (bpbCall b s) 1 (sectors b.disk 0) false).vars = geometry b.disk s.vars := hgeo
  rw [hv] at hr
  refine ⟨r, hstep, ?_⟩
  subst hr
  exact ⟨rfl, rfl, rfl, rfl, fatCall_cx _ _, rfl, rfl, rfl⟩

/-- **The FAT is read over the stack**: nothing more is known. -/
theorem fat_lost (hpc : s.pc = .fat16Init) (hok : b.ok s.reads = true)
    (hlost : 53 < b.count (s.reads + 1) (w16 (geometry b.disk s.vars).fatSize)) :
    step b s = none := by
  obtain ⟨r, hstep, hreads, -, -, -, hcx, hbx, hes, -⟩ := bpb_read (b := b) hpc hok
  rw [hstep, readSectors_eq, hreads, hcx, hbx, hes, if_pos ((fat_clobbers_iff _).mpr hlost)]
  rfl

/-- **The FAT cannot be read**: the variables are set, the cache is anything. -/
theorem fat_fails (hpc : s.pc = .fat16Init) (hst : s.stack = .ret back :: stack)
    (hok : b.ok s.reads = true) (hfail : b.ok (s.reads + 1) = false)
    (hfree : b.count (s.reads + 1) (w16 (geometry b.disk s.vars).fatSize) ≤ 53) :
    ∃ t, Reaches (step b) s t ∧ InitDone s back stack (geometry b.disk s.vars) 2 t := by
  obtain ⟨r, hstep, hreads, hrst, hrv, -, hcx, hbx, hes, -⟩ := bpb_read (b := b) hpc hok
  rw [readSectors_eq, hreads, hcx, hbx, hes,
    if_neg (fun h => Nat.not_lt.mpr hfree ((fat_clobbers_iff _).mp h)), hfail, Option.bind_some]
    at hstep
  generalize hu : afterRead r _ _ _ = u at hstep
  have hrest : fatRest b u = some { u with pc := .initFail } := by
    rw [← hu]
    rfl
  obtain ⟨t, ht, hdone⟩ : ∃ t, step b { u with pc := .initFail } = some t ∧
      InitDone s back stack (geometry b.disk s.vars) 2 t := by
    apply initFail_returns rfl
    · rw [← hu, ← hst]
      exact hrst
    · rw [← hu]
      exact hrv
    · rw [← hu]
      show r.reads + 1 = _
      rw [hreads]
  exact ⟨t, .head (hstep.trans hrest) (.single ht), hdone⟩

/-- **Both are read**: the FAT is in memory. -/
theorem init_reads (hpc : s.pc = .fat16Init) (hst : s.stack = .ret back :: stack)
    (hok : b.ok s.reads = true) (hok' : b.ok (s.reads + 1) = true)
    (hfree : w16 (geometry b.disk s.vars).fatSize ≤ 53) :
    ∃ t, Reaches (step b) s t ∧ InitDone s back stack (geometry b.disk s.vars) 2 t ∧
      t.mem = cachedMem b.disk s.mem (geometry b.disk s.vars) := by
  obtain ⟨r, hstep, hreads, hrst, hrv, heax, hcx, hbx, hes, hmem⟩ := bpb_read (b := b) hpc hok
  have hread : readSectors b r = some (afterRead r r.cx (sectors b.disk r.eax) false) := by
    apply readSectors_ok
    · rw [hreads]
      exact hok'
    · rw [hes, hbx, hcx]
      exact fun h => Nat.not_lt.mpr hfree ((fat_clobbers_iff _).mp h)
  rw [hread, Option.bind_some] at hstep
  generalize hu : afterRead r r.cx (sectors b.disk r.eax) false = u at hstep
  have hust : u.stack = .word s.es :: .ret back :: stack := by
    rw [← hu, ← hst]
    exact hrst
  have hrest : fatRest b u = u.popEs.bind fun s =>
      (printString b "FAT16: filesystem initialized.\r\n" s).ret := by
    rw [← hu]
    rfl
  have hret : (printString b "FAT16: filesystem initialized.\r\n"
      { u with es := s.es, stack := .ret back :: stack }).ret = _ := State.ret_eq rfl
  rw [hrest, State.popEs_eq hust, Option.bind_some, hret] at hstep
  refine ⟨_, .single hstep, ⟨rfl, rfl, rfl, ?_, ?_⟩, ?_⟩
  · show u.vars = _
    rw [← hu]
    exact hrv
  · show u.reads = _
    rw [← hu]
    show r.reads + 1 = _
    rw [hreads]
  · show u.mem = _
    rw [← hu]
    show fill r.mem (16 * r.es + r.bx) r.cx (sectors b.disk r.eax) = _
    rw [hmem, hes, hbx, hcx, heax]
    rfl

end Ways

end TupleOS.Fat16
