import TupleOS.Memory.Pmm

/-!
# The machine behind the paging code

Physical memory, CR3 and the frame allocator. The paging code runs on it through
the MMU: a word at a virtual address is the word of the frame that the active
directory maps there, and an access to a page that is not mapped faults. Write
permission plays no part, since the kernel leaves CR0.WP clear.

From `_start` on, the frames of the image and those up to 4 MB are mapped at
`0xC0000000` plus their address (`Direct`). Through it the code reads and writes
table frames as if they were physical (`Direct.load`, `Direct.store`,
`fillWords_direct`).
-/

namespace TupleOS.Memory

open TupleOS.Base

structure Machine where
  phys : Phys
  /-- The physical address of the active directory. -/
  cr3 : Nat
  pmm : Pmm

def Machine.withPhys (m : Machine) (phys : Phys) : Machine := { m with phys := phys }

def Machine.withPmm (m : Machine) (pmm : Pmm) : Machine := { m with pmm := pmm }

/-- The frame that the active directory maps at a virtual address. -/
def Machine.frameAt (m : Machine) (va : Nat) : Option Nat :=
  (walk m.phys (frameOf m.cr3) (va / pageSize)).map fun e => frameOf e.2

def machMem : TableMem Machine where
  load m va := (m.frameAt va).map fun f => m.phys f (va % pageSize / 4)
  store m va w := (m.frameAt va).map fun f =>
    m.withPhys (m.phys.store f (va % pageSize / 4) w)
  pmmAllocFrame m := ((pmmAllocFrame m.pmm).1, m.withPmm (pmmAllocFrame m.pmm).2)

/-! ## Boot -/

/-- The frame of a page of the image. -/
def imageFrame (addr : Nat) : Nat := frameOf (virtToPhys addr)

/-- `.fill_table` of `boot.asm`: entry `i` of the table maps frame `i`. -/
def bootFillTable (phys : Phys) (table : Nat) : Nat → Phys
  | 0 => phys
  | n + 1 => (bootFillTable phys table n).store table n (n * pageSize + 3)

/-- `_start`: the first 4 MB at address `0` and at `0xC0000000`. Paging is off, so
the stores are physical. -/
def bootStart (L : Layout) (phys : Phys) (pmm : Pmm) : Machine :=
  let dir := imageFrame L.bootPageDirectory
  let table := imageFrame L.bootPageTable
  let phys := bootFillTable phys table pageEntries
  let phys := phys.fill dir 2 pageEntries
  let phys := phys.store dir 0 (table * pageSize + 3)
  { phys := phys.store dir 768 (table * pageSize + 3)
    cr3 := dir * pageSize
    pmm := pmm }

def pagingInitLoad (L : Layout) (m : Machine) : Option Machine :=
  (pagingInit machMem L m).map fun m => { m with cr3 := pagingGetDirectory L }

/-! ## The direct window -/

/-- Frames 256 to 1023 (1 MB to 4 MB) are mapped at `0xC0000000` plus their address. -/
structure Direct (m : Machine) : Prop where
  dir : isPresent (m.phys (frameOf m.cr3) 768) = true
  tab : ∀ i, 256 ≤ i → i < 1024 →
    m.phys (frameOf (m.phys (frameOf m.cr3) 768)) i = i * pageSize + 3

section Direct

variable {m m' : Machine} {f i : Nat}

theorem entry_present (f : Nat) : isPresent (f * pageSize + 3) = true := by
  unfold isPresent pageSize
  rw [beq_iff_eq]; omega

theorem entry_frame (f : Nat) : frameOf (f * pageSize + 3) = f := by
  unfold frameOf pageSize; omega

theorem Direct.walk (h : Direct m) (h1 : 256 ≤ f) (h2 : f < 1024) :
    walk m.phys (frameOf m.cr3) (0xC0000 + f) =
      some (m.phys (frameOf m.cr3) 768, f * pageSize + 3) := by
  refine walk_some.mpr ⟨?_, h.dir, ?_, entry_present f⟩
  · rw [show (0xC0000 + f) / 1024 = 768 by omega]
  · rw [show (0xC0000 + f) % 1024 = f by omega]
    exact h.tab f h1 h2

theorem Direct.frameAt (h : Direct m) (h1 : 256 ≤ f) (h2 : f < 1024) (hi : i < 1024) :
    m.frameAt (0xC0000000 + f * pageSize + 4 * i) = some f := by
  unfold Machine.frameAt
  rw [show (0xC0000000 + f * pageSize + 4 * i) / pageSize = 0xC0000 + f by
    unfold pageSize; omega, h.walk h1 h2]
  exact congrArg some (entry_frame f)

theorem word_index (f : Nat) (hi : i < 1024) :
    (0xC0000000 + f * pageSize + 4 * i) % pageSize / 4 = i := by
  unfold pageSize; omega

theorem Direct.load (h : Direct m) (h1 : 256 ≤ f) (h2 : f < 1024) (hi : i < 1024) :
    machMem.load m (0xC0000000 + f * pageSize + 4 * i) = some (m.phys f i) := by
  show (m.frameAt _).map _ = _
  rw [h.frameAt h1 h2 hi, Option.map_some, word_index f hi]

theorem Direct.store (h : Direct m) (h1 : 256 ≤ f) (h2 : f < 1024) (hi : i < 1024) (w : Nat) :
    machMem.store m (0xC0000000 + f * pageSize + 4 * i) w =
      some (m.withPhys (m.phys.store f i w)) := by
  show (m.frameAt _).map _ = _
  rw [h.frameAt h1 h2 hi, Option.map_some, word_index f hi]

theorem Direct.frame (h : Direct m) {phys : Phys} (hd : phys (frameOf m.cr3) 768 =
      m.phys (frameOf m.cr3) 768)
    (ht : ∀ i, 256 ≤ i → i < 1024 → phys (frameOf (m.phys (frameOf m.cr3) 768)) i =
      m.phys (frameOf (m.phys (frameOf m.cr3) 768)) i) :
    Direct (m.withPhys phys) := by
  refine ⟨?_, fun i h1 h2 => ?_⟩
  · show isPresent (phys (frameOf m.cr3) 768) = true
    rw [hd]; exact h.dir
  · show phys (frameOf (phys (frameOf m.cr3) 768)) i = _
    rw [hd, ht i h1 h2, h.tab i h1 h2]

/-- The frame is neither the active directory nor its first kernel table. -/
def Machine.OffWalk (m : Machine) (f : Nat) : Prop :=
  f ≠ frameOf m.cr3 ∧ f ≠ frameOf (m.phys (frameOf m.cr3) 768)

theorem Direct.frame_off (h : Direct m) (ho : m.OffWalk f) {phys : Phys}
    (hout : ∀ g ≠ f, phys g = m.phys g) : Direct (m.withPhys phys) :=
  h.frame (by rw [hout _ ho.1.symm]) fun i _ _ => by rw [hout _ ho.2.symm]

end Direct

/-! ## Filling a page -/

section Fill

variable {m : Machine} {f va e e' : Nat}

theorem store_mapped {i : Nat} (hal : va % pageSize = 0)
    (hw : walk m.phys (frameOf m.cr3) (va / pageSize) = some (e, e')) (hi : i < 1024) (w : Nat) :
    machMem.store m (va + 4 * i) w = some (m.withPhys (m.phys.store (frameOf e') i w)) := by
  have hpage : (va + 4 * i) / pageSize = va / pageSize := by unfold pageSize at *; omega
  have hidx : (va + 4 * i) % pageSize / 4 = i := by unfold pageSize at *; omega
  show (m.frameAt (va + 4 * i)).map _ = _
  unfold Machine.frameAt
  rw [hpage, hw, Option.map_some, Option.map_some, hidx]

theorem fillWords_mapped (hal : va % pageSize = 0)
    (hw : walk m.phys (frameOf m.cr3) (va / pageSize) = some (e, e'))
    (h1 : frameOf e' ≠ frameOf m.cr3)
    (h2 : frameOf e' ≠ frameOf e) (w : Nat) :
    ∀ n, n ≤ 1024 → fillWords machMem m va w n =
      some (m.withPhys (m.phys.fill (frameOf e') w n))
  | 0, _ => by rw [Phys.fill_zero]; rfl
  | n + 1, hn => by
    rw [fillWords, fillWords_mapped hal hw h1 h2 w n (by omega), Option.bind_eq_bind,
      Option.bind_some]
    obtain ⟨hd, -, -, -⟩ := walk_some.mp hw
    -- the walk of the page is the same after `n` stores
    have hwalk : walk (m.phys.fill (frameOf e') w n) (frameOf m.cr3) (va / pageSize) =
        some (e, e') := by
      rw [← hw]
      refine walk_congr (by rw [Phys.fill_frame h1.symm]) fun _ => ?_
      rw [hd, Phys.fill_frame h2.symm]
    rw [store_mapped (m := m.withPhys (m.phys.fill (frameOf e') w n)) hal hwalk (by omega)]
    exact congrArg (fun phys => some (m.withPhys phys)) (Phys.fill_succ _ _ _ _)

theorem fillWords_fault (hw : walk m.phys (frameOf m.cr3) (va / pageSize) = none) (w : Nat) :
    ∀ n, fillWords machMem m va w (n + 1) = none
  | 0 => by
    show (m.frameAt (va + 4 * 0)).map _ = none
    unfold Machine.frameAt
    rw [Nat.mul_zero, Nat.add_zero, hw]
    rfl
  | n + 1 => by
    rw [fillWords, fillWords_fault hw w n]
    rfl

theorem fillWords_direct (h : Direct m) (h1 : 256 ≤ f) (h2 : f < 1024) (ho : m.OffWalk f) (w : Nat)
    {n : Nat} (hn : n ≤ 1024) : fillWords machMem m (0xC0000000 + f * pageSize) w n =
      some (m.withPhys (m.phys.fill f w n)) := by
  have hw := h.walk h1 h2
  rw [← show (0xC0000000 + f * pageSize) / pageSize = 0xC0000 + f by unfold pageSize; omega] at hw
  have := fillWords_mapped (by unfold pageSize; omega) hw (by rw [entry_frame]; exact ho.1)
    (by rw [entry_frame]; exact ho.2) w n hn
  rw [entry_frame] at this
  exact this

end Fill

end TupleOS.Memory
