import TupleOS.Boot.Fat16

/-!
# The search of the root directory (`boot/stage2.asm`)

`fat16_find_file` goes through the sectors of the root directory and the 16 entries of
each, with its counters in registers and on the stack. `AtSector` and `AtEntry` say where
the search stands: everything before is no kernel, no end of the directory and no sector
that fails to read. A round leads to the next entry or out, with the entry that `Found`
describes or with `0` (`search_result`), and the stack is the caller's in every case
(`find_file_correct`).
-/

namespace TupleOS.Fat16

open TupleOS.Base
open TupleOS.Boot (sectorBuf)
open StateTransition (Reaches)

/-! ## What is looked for -/

/-- Entry `k` of the directory that starts at sector `start`. -/
def entryAt (b : Bios) (start k : Nat) : Bytes :=
  fun j => b.disk (start + k / 16) (32 * (k % 16) + j)

/-- A file of the kernel's name, not deleted and not a long name. -/
structure IsKernel (e : Bytes) : Prop where
  name : ∀ i (h : i < fat16KernelName.length), e i = BitVec.ofNat 8 (fat16KernelName[i]).toNat
  present : e 0 ≠ 0xE5
  short : e 0x0B ≠ 0x0F

/-- Entry `k` is the first of the kernel's in the `n` sectors from `start`. It comes before
the end of the directory, and every sector up to it is read, beginning with read `r`. -/
structure Found (b : Bios) (start r n k : Nat) : Prop where
  inside : k < 16 * n
  kernel : IsKernel (entryAt b start k)
  first : ∀ j < k, ¬ IsKernel (entryAt b start j)
  before : ∀ j < k, entryAt b start j 0 ≠ 0
  reads : ∀ i ≤ k / 16, b.ok (r + i) = true

structure Passes (b : Bios) (s : State) (k : Nat) : Prop where
  other : ¬ IsKernel (entryAt b s.vars.rootStart k)
  more : entryAt b s.vars.rootStart k 0 ≠ 0
  read : b.ok (s.reads + k / 16) = true

/-- What the search leaves of the caller's state. -/
structure Kept (s s' : State) : Prop where
  es : s'.es = 0
  vars : s'.vars = { s.vars with fileSize := s'.vars.fileSize }
  mem : ∀ a, ¬ InWin sectorBuf (sectorBuf + 512) a → s'.mem a = s.mem a

/-- The state when `fat16_find_file` has returned: the first entry of the kernel's, or `0`. -/
structure Returned (b : Bios) (s : State) (n : Nat) (back : Label) (stack : List Slot)
    (s' : State) : Prop where
  pc : s'.pc = back
  stack : s'.stack = stack
  kept : Kept s s'
  result : (∃ k, Found b s.vars.rootStart s.reads n k ∧
      s'.ax = load16 (entryAt b s.vars.rootStart k) 0x1A ∧
      s'.vars.fileSize = load32 (entryAt b s.vars.rootStart k) 0x1C ∧
      s'.reads = s.reads + k / 16 + 1 ∧
      ∀ x < 512, s'.mem (sectorBuf + x) = b.disk (s.vars.rootStart + k / 16) x) ∨
    (∀ k, ¬ Found b s.vars.rootStart s.reads n k) ∧ s'.ax = 0

/-- The search has been through `i` sectors. -/
structure AtSector (b : Bios) (s : State) (n : Nat) (back : Label) (stack : List Slot) (i : Nat)
    (s' : State) : Prop where
  pc : s'.pc = .scanSector
  stack : s'.stack = .ret back :: stack
  left : i < n
  eax : s'.eax = s.vars.rootStart + i
  cx : s'.cx = w16 (n - i)
  reads : s'.reads = s.reads + i
  kept : Kept s s'
  passes : ∀ k < 16 * i, Passes b s k

/-- The search is in sector `i`, past `j` of its entries. -/
structure AtEntry (b : Bios) (s : State) (n : Nat) (back : Label) (stack : List Slot) (i j : Nat)
    (pc : Label) (s' : State) : Prop where
  pc : s'.pc = pc
  stack : s'.stack = .word (w16 (n - i)) :: .ret back :: stack
  left : i < n
  inside : j < 16
  eax : s'.eax = s.vars.rootStart + i
  di : s'.di = sectorBuf + 32 * j
  dx : s'.dx = 16 - j
  reads : s'.reads = s.reads + i + 1
  read : b.ok (s.reads + i) = true
  sector : ∀ x < 512, s'.mem (sectorBuf + x) = b.disk (s.vars.rootStart + i) x
  kept : Kept s s'
  passes : ∀ k < 16 * i + j, Passes b s k

section Entries

variable {b : Bios} {s s' : State} {n i j k : Nat} {back pc : Label} {stack : List Slot}

theorem Found.unique {start r k' : Nat} (h : Found b start r n k) (h' : Found b start r n k') :
    k = k' := by
  rcases Nat.lt_trichotomy k k' with hlt | heq | hgt
  · exact absurd h.kernel (h'.first k hlt)
  · exact heq
  · exact absurd h'.kernel (h.first k' hgt)

theorem repeCmpsb_iff (m : Bytes) : ∀ (cs : List Char) (di : Nat), di + cs.length ≤ 2 ^ 16 →
    (repeCmpsb m 0 di cs = true ↔
      ∀ i (h : i < cs.length), m (di + i) = BitVec.ofNat 8 (cs[i]).toNat)
  | [], di, _ => by simp [repeCmpsb]
  | c :: cs, di, hdi => by
    rw [List.length_cons] at hdi
    have hw : w16 di = di := Nat.mod_eq_of_lt (by omega)
    rw [repeCmpsb, Bool.and_eq_true, decide_eq_true_eq, repeCmpsb_iff m cs (di + 1) (by omega), hw,
      Nat.mul_zero, Nat.zero_add]
    constructor
    · rintro ⟨hc, hcs⟩ i hi
      cases i with
      | zero => exact hc
      | succ i =>
        have := hcs i (by rw [List.length_cons] at hi; omega)
        rwa [Nat.add_right_comm, Nat.add_assoc] at this
    · intro h
      refine ⟨h 0 (by simp), fun i hi => ?_⟩
      have := h (i + 1) (by rw [List.length_cons]; omega)
      rwa [Nat.add_right_comm, Nat.add_assoc]

theorem AtEntry.bytes (h : AtEntry b s n back stack i j pc s') {x : Nat} (hx : x < 32) :
    s'.mem (s'.di + x) = entryAt b s.vars.rootStart (16 * i + j) x := by
  have hj := h.inside
  unfold entryAt
  rw [h.di, Nat.add_assoc, h.sector _ (by omega), Nat.mul_add_div (by omega),
    Nat.div_eq_of_lt hj, Nat.mul_add_mod, Nat.mod_eq_of_lt hj, Nat.add_zero]

theorem Kept.of_eq (h : Kept s s') {t : State} (hes : t.es = s'.es) (hvars : t.vars = s'.vars)
    (hmem : t.mem = s'.mem) : Kept s t := by
  constructor
  · rw [hes, h.es]
  · rw [hvars, ← h.vars]
  · rw [hmem]
    exact h.mem

/-! ## Ways out -/

/-- **`.find_not_found`** returns `0`. -/
theorem notFound_returns {w : Nat} (hpc : s'.pc = .findNotFound)
    (hst : s'.stack = .word w :: .ret back :: stack) (hk : Kept s s')
    (hno : ∀ k, ¬ Found b s.vars.rootStart s.reads n k) :
    ∃ t, Reaches (step b) s' t ∧ Returned b s n back stack t := by
  have hbody : step b s' = s'.popCx.bind fun s =>
      (State.setAx 0 (printString b "FAT16: TUPLEOS.BIN not found!\r\n" s)).ret := by
    unfold step
    rw [hpc]
    rfl
  rw [State.popCx_eq hst, Option.bind_some] at hbody
  generalize hu : printString b _ _ = u at hbody
  have hstack : (State.setAx 0 u).stack = .ret back :: stack := by
    rw [← hu]
    rfl
  have hkept : Kept s u := by
    rw [← hu]
    exact hk.of_eq rfl rfl rfl
  rw [State.ret_eq hstack] at hbody
  exact ⟨_, .single hbody, rfl, rfl, hkept.of_eq rfl rfl rfl, .inr ⟨hno, State.ax_setAx 0⟩⟩

/-- Past entries that are not the kernel's, in sectors that were read, an entry of the
kernel is the one to find. -/
theorem AtEntry.found (h : AtEntry b s n back stack i j pc s')
    (hker : IsKernel (entryAt b s.vars.rootStart (16 * i + j))) :
    Found b s.vars.rootStart s.reads n (16 * i + j) := by
  have hj := h.inside
  refine ⟨by have := h.left; omega, hker, fun k hk => (h.passes k hk).other,
    fun k hk => (h.passes k hk).more, fun m hm => ?_⟩
  rcases Nat.lt_or_eq_of_le (show m ≤ i by omega) with hlt | rfl
  · have := (h.passes (16 * m) (by omega)).read
    rwa [Nat.mul_div_cancel_left _ (by omega)] at this
  · exact h.read

theorem AtEntry.fields (h : AtEntry b s n back stack i j pc s') :
    load32 s'.mem (s'.di + 0x1C) = load32 (entryAt b s.vars.rootStart (16 * i + j)) 0x1C ∧
      load16 s'.mem (s'.di + 0x1A) = load16 (entryAt b s.vars.rootStart (16 * i + j)) 0x1A := by
  have hentry : ∀ lo hi, hi ≤ 32 → AgreeOn (entryAt b s.vars.rootStart (16 * i + j))
      (fun x => s'.mem (s'.di + x)) lo hi := fun lo hi hle x hx =>
    h.bytes (Nat.lt_of_lt_of_le hx.2 hle)
  constructor
  · rw [load32_add]
    exact load32_congr (hentry _ _ (by omega))
  · rw [load16_add]
    exact load16_congr (hentry _ _ (by omega))

/-- **`.find_found`** returns the first cluster, and stores the size. -/
theorem found_returns (h : AtEntry b s n back stack i j .findFound s')
    (hker : IsKernel (entryAt b s.vars.rootStart (16 * i + j))) :
    ∃ t, Reaches (step b) s' t ∧ Returned b s n back stack t := by
  have hj := h.inside
  have hfound := h.found hker
  obtain ⟨hsize, hcluster⟩ := h.fields
  -- the cluster is pushed before the message is printed, and popped after it
  generalize hs₁ : State.setAx (load16 s'.mem (s'.di + 0x1A)) { s' with
    ecx := load32 s'.mem (s'.di + 0x1C)
    vars := { s'.vars with fileSize := load32 s'.mem (s'.di + 0x1C) } } = s₁
  have hstack : s₁.stack = .word (w16 (n - i)) :: .ret back :: stack := by
    rw [← hs₁]
    exact h.stack
  have hax : s₁.ax = load16 s'.mem (s'.di + 0x1A) := by
    rw [← hs₁, State.ax_setAx, w16, Nat.mod_eq_of_lt (load16_lt _ _)]
  have hbody : step b s' = s₁.popCx.bind fun s =>
      (printString b "FAT16: file found, loading...\r\n" (s.push s.ax)).popAx.bind State.ret := by
    unfold step
    rw [h.pc, ← hs₁]
    rfl
  rw [State.popCx_eq hstack, Option.bind_some] at hbody
  generalize hu : printString b _ _ = u at hbody
  have hustack : u.stack = .word s₁.ax :: .ret back :: stack := by
    rw [← hu]
    rfl
  have hkept : u.es = s'.es ∧ u.mem = s'.mem ∧ u.reads = s'.reads ∧
      u.vars = { s'.vars with fileSize := load32 s'.mem (s'.di + 0x1C) } := by
    rw [← hu, ← hs₁]
    exact ⟨rfl, rfl, rfl, rfl⟩
  obtain ⟨hues, humem, hureads, huvars⟩ := hkept
  have hback : (State.setAx s₁.ax { u with stack := .ret back :: stack }).ret = _ :=
    State.ret_eq rfl
  rw [State.popAx_eq hustack, Option.bind_some, hback] at hbody
  have hvars : ∀ x, { s'.vars with fileSize := x } = { s.vars with fileSize := x } := fun x => by
    rw [h.kept.vars]
  refine ⟨_, .single hbody, rfl, rfl, ⟨hues.trans h.kept.es, ?_, ?_⟩, .inl ⟨_, hfound, ?_, ?_, ?_⟩⟩
  · show u.vars = { s.vars with fileSize := u.vars.fileSize }
    rw [huvars]
    exact hvars _
  · show ∀ a, _ → u.mem a = s.mem a
    rw [humem]
    exact h.kept.mem
  · show State.ax (State.setAx s₁.ax _) = _
    rw [State.ax_setAx, hax, hcluster, w16, Nat.mod_eq_of_lt (load16_lt _ _)]
  · show u.vars.fileSize = _
    rw [huvars]
    exact hsize
  · show u.reads = _ ∧ ∀ x < 512, u.mem (sectorBuf + x) = _
    rw [hureads, h.reads, humem, Nat.mul_add_div (by omega), Nat.div_eq_of_lt hj]
    exact ⟨rfl, h.sector⟩

/-! ## Rounds -/

theorem AtEntry.goto (h : AtEntry b s n back stack i j pc s') (pc' : Label) :
    AtEntry b s n back stack i j pc' { s' with pc := pc' } :=
  { h with pc := rfl, kept := h.kept.of_eq rfl rfl rfl }

theorem AtEntry.none_beyond (h : AtEntry b s n back stack i j pc s')
    (hend : entryAt b s.vars.rootStart (16 * i + j) 0 = 0x00) (k : Nat) :
    ¬ Found b s.vars.rootStart s.reads n k := by
  intro hf
  rcases Nat.lt_trichotomy k (16 * i + j) with hlt | rfl | hgt
  · exact (h.passes k hlt).other hf.kernel
  · have hname := hf.kernel.name 0 (by decide)
    rw [hend] at hname
    exact absurd hname (by decide)
  · exact hf.before _ hgt hend

theorem AtEntry.compares (h : AtEntry b s n back stack i j pc s') :
    repeCmpsb s'.mem s'.es s'.di fat16KernelName = true ↔
      ∀ k (hk : k < fat16KernelName.length),
        entryAt b s.vars.rootStart (16 * i + j) k = BitVec.ofNat 8 (fat16KernelName[k]).toNat := by
  have hj := h.inside
  have hlen : fat16KernelName.length = 11 := rfl
  have hdi := h.di
  unfold sectorBuf at hdi
  rw [h.kept.es, repeCmpsb_iff _ _ _ (by omega)]
  exact forall₂_congr fun k hk => by rw [h.bytes (by omega)]

/-- **`.check_entry`** goes past the entry, or the search is over. -/
theorem AtEntry.check (h : AtEntry b s n back stack i j .checkEntry s') :
    ∃ t, Reaches (step b) s' t ∧
      ((AtEntry b s n back stack i j .skipEntry t ∧ Passes b s (16 * i + j)) ∨
        Returned b s n back stack t) := by
  have hj := h.inside
  have hbytes : ∀ x < 32, s'.mem (s'.di + x) = _ := fun x hx => h.bytes hx
  have h0 := hbytes 0 (by omega)
  rw [Nat.add_zero] at h0
  have hstep : step b s' = checkEntry s' := by
    unfold step
    rw [h.pc]
  have hread : b.ok (s.reads + (16 * i + j) / 16) = true := by
    rw [Nat.mul_add_div (by omega), Nat.div_eq_of_lt hj]
    exact h.read
  unfold checkEntry at hstep
  rw [h0, hbytes _ (by omega)] at hstep
  by_cases hend : entryAt b s.vars.rootStart (16 * i + j) 0 = 0x00
  · rw [if_pos hend] at hstep
    have hat := h.goto .findNotFound
    obtain ⟨t, hr, ht⟩ := notFound_returns hat.pc hat.stack hat.kept (h.none_beyond hend)
    exact ⟨t, .head hstep hr, .inr ht⟩
  rw [if_neg hend] at hstep
  have hskip : ¬ IsKernel (entryAt b s.vars.rootStart (16 * i + j)) →
      step b s' = some { s' with pc := .skipEntry } → ∃ t, Reaches (step b) s' t ∧
        ((AtEntry b s n back stack i j .skipEntry t ∧ Passes b s (16 * i + j)) ∨
          Returned b s n back stack t) := fun hother he =>
    ⟨_, .single he, .inl ⟨h.goto _, hother, hend, hread⟩⟩
  by_cases hdel : entryAt b s.vars.rootStart (16 * i + j) 0 = 0xE5
  · rw [if_pos hdel] at hstep
    exact hskip (fun hk => hk.present hdel) hstep
  rw [if_neg hdel] at hstep
  by_cases hlong : entryAt b s.vars.rootStart (16 * i + j) 0x0B = 0x0F
  · rw [if_pos hlong] at hstep
    exact hskip (fun hk => hk.short hlong) hstep
  rw [if_neg hlong] at hstep
  -- the flag of the comparison survives `popa`
  generalize hz : repeCmpsb s'.mem s'.es s'.di fat16KernelName = z
  have hpopa : State.popa { s'.pusha with zf := z } = some { s' with zf := z } :=
    popa_pusha s'.mem s'.cf z s'.dap s'.reads
  have hbody : step b s' = (State.popa { s'.pusha with zf := z }).bind fun s =>
      if s.zf then some { s with pc := .findFound } else some { s with pc := .skipEntry } := by
    rw [hstep, ← hz]
    rfl
  rw [hpopa, Option.bind_some] at hbody
  have hat : ∀ pc', AtEntry b s n back stack i j pc' { s' with zf := z, pc := pc' } := fun pc' =>
    { h with pc := rfl, kept := h.kept.of_eq rfl rfl rfl }
  have hname := h.compares
  rw [hz] at hname
  cases z with
  | true =>
    obtain ⟨t, hr, ht⟩ := found_returns (hat .findFound) ⟨hname.mp rfl, hdel, hlong⟩
    exact ⟨t, .head hbody hr, .inr ht⟩
  | false =>
    refine ⟨_, .single hbody, .inl ⟨hat .skipEntry, fun hk => ?_, hend, hread⟩⟩
    exact Bool.false_ne_true (hname.mpr hk.name)

theorem none_found (h : ∀ k < 16 * n, Passes b s k) (k : Nat) :
    ¬ Found b s.vars.rootStart s.reads n k := fun hf =>
  (h k hf.inside).other hf.kernel

/-- After the last entry of a sector, the sector is counted and its number goes up. -/
theorem AtEntry.sector_done (h : AtEntry b s n back stack i 15 .skipEntry s') :
    ∃ u, step b s' =
        (if u.cx ≠ 0 then some { u with pc := .scanSector } else (State.setAx 0 u).ret) ∧
      u.cx = w16 (n - (i + 1)) ∧ u.stack = .ret back :: stack ∧ u.eax = w32 (s'.eax + 1) ∧
      u.reads = s'.reads ∧ Kept s u := by
  have hleft := h.left
  have hdx := h.dx
  have hstep : step b s' = skipEntry s' := by
    unfold step
    rw [h.pc]
  unfold skipEntry at hstep
  have hdec : ¬ sub16 s'.dx 1 ≠ 0 := by
    unfold sub16 w16
    omega
  rw [if_neg hdec] at hstep
  generalize hd : w16 (s'.di + 32) = d at hstep
  generalize ht : State.setCx (w16 (n - i)) { s' with
    di := d, dx := sub16 s'.dx 1, stack := .ret back :: stack } = t
  generalize hu : State.setCx (sub16 t.cx 1) { t with eax := w32 (t.eax + 1) } = u
  refine ⟨u, ?_, ?_, ?_, ?_, ?_, ?_⟩
  · have hpop : State.popCx { s' with di := d, dx := sub16 s'.dx 1 } = some t := by
      rw [← ht]
      exact State.popCx_eq h.stack
    rw [hstep]
    show (State.popCx { s' with di := d, dx := sub16 s'.dx 1 }).bind _ = _
    rw [hpop, Option.bind_some, ← hu]
  · rw [← hu, State.cx_setCx, ← ht, State.cx_setCx]
    unfold sub16 w16
    omega
  · rw [← hu, ← ht]
    rfl
  · rw [← hu, ← ht]
    rfl
  · rw [← hu, ← ht]
    rfl
  · rw [← hu, ← ht]
    exact h.kept.of_eq rfl rfl rfl

/-- **`.skip_entry`** goes on to the next entry, to the next sector, or out. -/
theorem AtEntry.skip (h : AtEntry b s n back stack i j .skipEntry s') (hp : Passes b s (16 * i + j))
    (hn : n ≤ 2 ^ 16) (hroot : s.vars.rootStart < 2 ^ 16) :
    ∃ t, Reaches (step b) s' t ∧ (AtEntry b s n back stack i (j + 1) .checkEntry t ∨
      AtSector b s n back stack (i + 1) t ∨ Returned b s n back stack t) := by
  have hj := h.inside
  have hleft := h.left
  have hpasses : ∀ k < 16 * i + j + 1, Passes b s k := fun k hk => by
    rcases Nat.lt_or_eq_of_le (Nat.le_of_lt_succ hk) with hlt | rfl
    · exact h.passes k hlt
    · exact hp
  by_cases hlast : j = 15
  · subst hlast
    obtain ⟨u, hbody, hcx, hstack, heax, hreads, hkept⟩ := h.sector_done
    by_cases hmore : i + 1 < n
    · have hne : u.cx ≠ 0 := by
        rw [hcx]
        unfold w16
        omega
      rw [if_pos hne] at hbody
      refine ⟨_, .single hbody, .inr (.inl ⟨rfl, hstack, hmore, ?_, hcx, ?_,
        hkept.of_eq rfl rfl rfl, fun k hk => hpasses k (by omega)⟩)⟩
      · show u.eax = _
        rw [heax, h.eax, w32_of_lt (by omega), Nat.add_assoc]
      · show u.reads = _
        rw [hreads]
        exact h.reads
    · have hdone : ¬ u.cx ≠ 0 := by
        rw [hcx]
        unfold w16
        omega
      have hret : (State.setAx 0 u).ret = _ := State.ret_eq hstack
      rw [if_neg hdone, hret] at hbody
      refine ⟨_, .single hbody, .inr (.inr ⟨rfl, rfl, hkept.of_eq rfl rfl rfl, .inr ⟨?_, ?_⟩⟩)⟩
      · exact none_found fun k hk => hpasses k (by omega)
      · exact State.ax_setAx 0
  · have hdx := h.dx
    have hdi := h.di
    have hstep : step b s' = skipEntry s' := by
      unfold step
      rw [h.pc]
    have hdec : sub16 s'.dx 1 = 15 - j := by
      unfold sub16 w16
      omega
    have hnext : w16 (s'.di + 32) = sectorBuf + 32 * (j + 1) := by
      unfold w16 sectorBuf at *
      omega
    unfold skipEntry at hstep
    rw [hdec, hnext, if_pos (show 15 - j ≠ 0 by omega)] at hstep
    exact ⟨_, .single hstep, .inl { h with
      pc := rfl, inside := by omega, di := rfl, dx := by show 15 - j = _; omega
      kept := h.kept.of_eq rfl rfl rfl, passes := hpasses }⟩

/-- The state at `call read_sectors` in `.scan_sector`. -/
def scanCall (s : State) : State :=
  { s with
    ecx := s.ecx / 2 ^ 16 * 2 ^ 16 + w16 1, es := 0, bx := sectorBuf
    stack := .word s.es :: .word s.ax :: .word (s.eax / 2 ^ 16) :: .word s.cx :: s.stack }

/-- The state after the two pops that follow it. -/
def scanRead (s : State) (n : Nat) (data : Bytes) (cf : Bool) : State :=
  { s with
    ecx := s.ecx / 2 ^ 16 * 2 ^ 16 + w16 1, bx := sectorBuf
    dap := ⟨(scanCall s).cx, sectorBuf, 0, s.eax⟩, mem := fill s.mem (16 * 0 + sectorBuf) n data
    cf := cf, reads := s.reads + 1, stack := .word s.cx :: s.stack }

theorem scanCall_cx (s : State) : (scanCall s).cx = 1 := w16_low s.ecx 1

theorem scanSector_eq {m : Nat} {data : Bytes} {cf : Bool}
    (hread : readSectors b (scanCall s) = some (afterRead (scanCall s) m data cf)) :
    scanSector b s = if cf then some { scanRead s m data cf with pc := .findNotFound }
      else some { scanRead s m data cf with di := sectorBuf, dx := 16, pc := .checkEntry } := by
  have heax : s.eax / 2 ^ 16 * 2 ^ 16 + w16 s.eax = s.eax := by
    unfold w16
    omega
  have hcall : State.setCx 1 { ((s.push s.cx).pushEax).push s.es with es := 0, bx := sectorBuf } =
      scanCall s := by
    simp only [State.setCx, State.push, State.pushEax, State.ax, scanCall]
  unfold scanSector
  simp only [hcall, hread, Option.bind_eq_bind, Option.bind_some]
  simp only [afterRead, scanCall, scanRead, State.popEs, State.popEax, State.ax,
    Option.bind_some, heax]

theorem sector_free {m : Nat} (hm : m ≤ 1) : ¬ Clobbers (16 * 0 + sectorBuf) m := by
  unfold Clobbers sectorBuf
  omega

/-- **`.scan_sector`** comes to the first entry of the sector, or the search is over. -/
theorem AtSector.scan (h : AtSector b s n back stack i s') :
    ∃ t, Reaches (step b) s' t ∧
      (AtEntry b s n back stack i 0 .checkEntry t ∨ Returned b s n back stack t) := by
  have hcx := scanCall_cx s'
  have hreads : (scanCall s').reads = s.reads + i := h.reads
  have hstep : step b s' = scanSector b s' := by
    unfold step
    rw [h.pc]
  have hstack : Slot.word s'.cx :: s'.stack = .word (w16 (n - i)) :: .ret back :: stack := by
    rw [h.cx, h.stack]
  have hout : ∀ m, m ≤ 1 → ∀ data a, ¬ InWin sectorBuf (sectorBuf + 512) a →
      fill s'.mem (16 * 0 + sectorBuf) m data a = s.mem a := fun m hm data a ha => by
    unfold fill
    rw [if_neg, h.kept.mem a ha]
    unfold InWin at *
    omega
  cases hok : b.ok (s.reads + i) with
  | false =>
    have hfree := sector_free (Nat.min_le_right (b.moved (s.reads + i)) 1)
    have hread : readSectors b (scanCall s') = some (afterRead (scanCall s')
        (min (b.moved (s.reads + i)) 1) (b.junk (s.reads + i)) true) := by
      rw [← hreads] at hok hfree ⊢
      rw [← hcx] at hfree ⊢
      exact readSectors_fail hok hfree
    rw [scanSector_eq hread] at hstep
    have hno : ∀ k, ¬ Found b s.vars.rootStart s.reads n k := fun k hf => by
      by_cases hk : k < 16 * i
      · exact (h.passes k hk).other hf.kernel
      · have := hf.reads i (by omega)
        rw [hok] at this
        exact Bool.false_ne_true this
    obtain ⟨u, hu, hpc, hst, hkept⟩ : ∃ u, step b s' = some u ∧ u.pc = .findNotFound ∧
        u.stack = .word (w16 (n - i)) :: .ret back :: stack ∧ Kept s u :=
      ⟨_, hstep, rfl, hstack, h.kept.es, h.kept.vars, hout _ (Nat.min_le_right _ _) _⟩
    obtain ⟨t, hr, ht⟩ := notFound_returns hpc hst hkept hno
    exact ⟨t, .head hu hr, .inr ht⟩
  | true =>
    have hread : readSectors b (scanCall s') = some (afterRead (scanCall s') 1
        (sectors b.disk (s.vars.rootStart + i)) false) := by
      have hfree := sector_free (Nat.le_refl 1)
      have heax : (scanCall s').eax = s.vars.rootStart + i := h.eax
      rw [← hreads] at hok
      rw [← heax]
      rw [← hcx] at hfree ⊢
      exact readSectors_ok hok hfree
    rw [scanSector_eq hread] at hstep
    have hread' : s'.reads + 1 = s.reads + i + 1 := by rw [h.reads]
    refine ⟨_, .single hstep, .inl ⟨rfl, hstack, h.left, by omega, h.eax, rfl, rfl, hread', hok,
      ?_, ⟨h.kept.es, h.kept.vars, hout _ (Nat.le_refl 1) _⟩, h.passes⟩⟩
    intro x hx
    show fill s'.mem (16 * 0 + sectorBuf) 1 _ _ = _
    rw [fill, if_pos ⟨by omega, by omega⟩, Nat.mul_zero, Nat.zero_add, Nat.add_sub_cancel_left,
      sectors, Nat.div_eq_of_lt hx, Nat.mod_eq_of_lt hx, Nat.add_zero]

/-! ## The search -/

/-- **One sector**: the search goes on to the next one, or is over. -/
theorem AtSector.round (h : AtSector b s n back stack i s') (hn : n ≤ 2 ^ 16)
    (hroot : s.vars.rootStart < 2 ^ 16) :
    ∃ t, Reaches (step b) s' t ∧
      (AtSector b s n back stack (i + 1) t ∨ Returned b s n back stack t) := by
  obtain ⟨u, hu, hat | hout⟩ := h.scan
  · -- after 16 entries the search is in no entry of this sector
    obtain ⟨t, ht, hin | hout⟩ := reaches_rounds_or
      (fun j t => AtEntry b s n back stack i j .checkEntry t)
      (fun t => AtSector b s n back stack (i + 1) t ∨ Returned b s n back stack t) (n := 16)
      (fun j v _ hv => by
        obtain ⟨v', hr, ⟨hskip, hp⟩ | hret⟩ := hv.check
        · obtain ⟨v'', hr', hnext⟩ := hskip.skip hp hn hroot
          exact ⟨v'', hr.trans hr', hnext⟩
        · exact ⟨v', hr, .inr (.inr hret)⟩) hat 16 (Nat.le_refl 16)
    · exact absurd hin.inside (by omega)
    · exact ⟨t, hu.trans ht, hout⟩
  · exact ⟨u, hu, .inr hout⟩

/-- **The whole search** returns. A count of `0` goes through all 65536 values. -/
theorem search_result (hpc : s.pc = .fat16FindFile) (hstack : s.stack = .ret back :: stack)
    (hes : s.es = 0) (hn : s.vars.rootSectors = w16 n) (hpos : 0 < n) (hle : n ≤ 2 ^ 16)
    (hroot : s.vars.rootStart < 2 ^ 16) :
    ∃ t, Reaches (step b) s t ∧ Returned b s n back stack t := by
  have hstep : step b s = some (fat16FindFile b s) := by
    unfold step
    rw [hpc]
  have hstart : AtSector b s n back stack 0 (fat16FindFile b s) := by
    refine ⟨rfl, hstack, hpos, rfl, ?_, rfl, ⟨hes, rfl, fun _ _ => rfl⟩,
      fun k hk => absurd hk (by omega)⟩
    show State.cx (State.setCx s.vars.rootSectors _) = _
    rw [State.cx_setCx, hn]
    unfold w16
    omega
  obtain ⟨t, ht, hin | hout⟩ := reaches_rounds_or (fun i t => AtSector b s n back stack i t)
    (fun t => Returned b s n back stack t) (n := n) (fun i u _ hu => hu.round hle hroot) hstart n
    (Nat.le_refl n)
  · exact absurd hin.left (Nat.lt_irrefl n)
  · exact ⟨t, .head hstep ht, hout⟩

end Entries

/-- **The root directory search.** For every directory of a positive multiple of 16
entries and every pattern of failing reads, `fat16_find_file` returns to its caller with
the caller's stack. If some entry is the first of the kernel's, before the end of the
directory and with every sector up to it read, `ax` and `fat16_file_size` are its first
cluster and its size; otherwise `ax` is `0`. -/
theorem find_file_correct (b : Bios) (s : State) (back : Label) (stack : List Slot)
    (hpc : s.pc = .fat16FindFile) (hstack : s.stack = .ret back :: stack) (hes : s.es = 0)
    (hentries : 0 < s.vars.rootEntries ∧ s.vars.rootEntries % 16 = 0 ∧ s.vars.rootEntries < 2 ^ 16)
    (hsectors : s.vars.rootSectors = s.vars.rootEntries / 16) (hroot : s.vars.rootStart < 2 ^ 16) :
    ∃ t, Reaches (step b) s t ∧ t.pc = back ∧ t.stack = stack ∧
      (∀ k, Found b s.vars.rootStart s.reads (s.vars.rootEntries / 16) k →
        t.ax = load16 (entryAt b s.vars.rootStart k) 0x1A ∧
          t.vars.fileSize = load32 (entryAt b s.vars.rootStart k) 0x1C) ∧
      ((∀ k, ¬ Found b s.vars.rootStart s.reads (s.vars.rootEntries / 16) k) → t.ax = 0) := by
  obtain ⟨h1, h2, h3⟩ := hentries
  obtain ⟨t, ht, hret⟩ := search_result (b := b) (n := s.vars.rootEntries / 16) hpc hstack hes
    (by rw [hsectors]; unfold w16; omega) (by omega) (by omega) hroot
  refine ⟨t, ht, hret.pc, hret.stack, fun k hk => ?_, fun hno => ?_⟩
  · rcases hret.result with ⟨k', hk', hax, hsize, -⟩ | ⟨hno, -⟩
    · obtain rfl := hk.unique hk'
      exact ⟨hax, hsize⟩
    · exact absurd hk (hno k)
  · rcases hret.result with ⟨k', hk', -⟩ | ⟨-, hax⟩
    · exact absurd hk' (hno k')
    · exact hax

/-- The entry of a kernel of 4 KB in cluster 2. -/
def sampleEntry : List (BitVec 8) :=
  [0x54, 0x55, 0x50, 0x4C, 0x45, 0x4F, 0x53, 0x20, 0x42, 0x49, 0x4E, 0x20, 0, 0, 0, 0,
    0, 0, 0, 0, 0, 0, 0, 0, 0, 0, 2, 0, 0, 0x10, 0, 0]

/-- A disk with that entry in sector 3; every read succeeds. -/
def sampleBios : Bios where
  disk := fun lba j => if lba = 3 then sampleEntry.getD j 0 else 0
  ok := fun _ => true
  moved := fun _ => 0
  junk := fun _ _ => 0
  own := fun _ _ => 0
  shown := fun _ => (0x0E00, 7, 0)

/-- `fat16_find_file` is called, with a root directory of one sector. -/
def sampleSearch : State where
  pc := .fat16FindFile
  eax := 0
  ecx := 0
  bx := 0
  dx := 0
  si := 0
  di := 0
  bp := 0
  es := 0
  cf := false
  zf := false
  stack := [.ret .foundKernel]
  mem := fun _ => 0
  vars := ⟨512, 1, 1, 2, 16, 1, 0, 0, 1, 3, 1, 4, 0, 0, 0⟩
  dap := ⟨0, 0, 0, 0⟩
  reads := 2
  screen := []

/-- The sample kernel is found. -/
theorem find_file_correct_sample : ∃ t, Reaches (step sampleBios) sampleSearch t ∧
    t.pc = .foundKernel ∧ t.stack = [] ∧ t.ax = 2 ∧ t.vars.fileSize = 4096 := by
  obtain ⟨t, ht, hpc, hstack, hfound, -⟩ :=
    find_file_correct sampleBios sampleSearch .foundKernel []
    rfl rfl rfl (by decide) rfl (by decide)
  have hkernel : Found sampleBios 3 2 1 0 :=
    ⟨by decide, ⟨by decide, by decide, by decide⟩, fun j hj => absurd hj (Nat.not_lt_zero j),
      fun j hj => absurd hj (Nat.not_lt_zero j), fun _ _ => rfl⟩
  obtain ⟨hax, hsize⟩ := hfound 0 hkernel
  exact ⟨t, ht, hpc, hstack, hax, hsize⟩

end TupleOS.Fat16
