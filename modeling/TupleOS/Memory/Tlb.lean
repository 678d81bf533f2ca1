import TupleOS.Base.Tlb
import TupleOS.Memory.VmRun

/-!
# The translation cache (`paging_flush_tlb`)

A processor that caches translations, and the paging code on it as `paging.c` has
it: an entry is written, then its page is invalidated; loading CR3 empties the
cache. What the cache keeps, drops and looks up in advance is a parameter
(`CachePolicy`), asked before every access.

The kernel does not notice it (`tlb_invisible`): from `_start` on, every run of
paging calls, accesses and directory switches returns and stores what it does on
the machine without a cache, faults included. Between the write of an entry and
the invalidation of its page one translation is stale; no access goes there.
-/

namespace TupleOS.Memory

open TupleOS.Base

/-- A processor with its cache, and the number of its next access. -/
structure Core where
  mach : Machine
  tlb : Tlb (Nat × Nat)
  clock : Nat

/-- What happens to the cached translation of a page before an access, by its number. -/
abbrev CachePolicy := Nat → Nat → CacheMove

def Core.walk (c : Core) (page : Nat) : Option (Nat × Nat) :=
  Base.walk c.mach.phys (frameOf c.mach.cr3) page

def Core.tick (policy : CachePolicy) (c : Core) : Core :=
  { c with tlb := c.tlb.adjust c.walk (policy c.clock), clock := c.clock + 1 }

/-- The frame that an access at a virtual address goes to. -/
def Core.frameAt (c : Core) (va : Nat) : Option Nat :=
  (c.tlb.translate c.walk (va / pageSize)).map fun e => frameOf e.2

/-- Kernel code on the processor; `none` is a page fault. -/
abbrev CoreM := StateT Core Option

/-! ## Paging with a cache -/

namespace Cached

variable (policy : CachePolicy) (L : Layout)

def load (va : Nat) : CoreM Nat := fun c =>
  let c := c.tick policy
  (c.frameAt va).map fun f => (c.mach.phys f (va % pageSize / 4), c)

def store (va w : Nat) : CoreM Unit := fun c =>
  let c := c.tick policy
  (c.frameAt va).map fun f =>
    ((), { c with mach := c.mach.withPhys (c.mach.phys.store f (va % pageSize / 4) w) })

def pmmAllocFrame : CoreM Nat := fun c =>
  let r := machMem.pmmAllocFrame c.mach
  some (r.1, { c with mach := r.2 })

/-- `paging_flush_tlb`: `invlpg`. -/
def pagingFlushTlb (virtualAddr : Nat) : CoreM Unit := fun c =>
  let c := c.tick policy
  some ((), { c with tlb := c.tlb.invalidate (virtualAddr / pageSize) })

/-- `paging_load_directory`: a load of CR3 empties the cache. -/
def pagingLoadDirectory (dirPhys : Nat) : CoreM Unit := fun c =>
  some ((), { c with mach := { c.mach with cr3 := dirPhys }, tlb := Tlb.empty })

def fillWords (base v : Nat) : Nat → CoreM Unit
  | 0 => pure ()
  | n + 1 => do
    fillWords base v n
    store policy (base + 4 * n) v

def fillTable (t : Nat) : Nat → CoreM Unit
  | 0 => pure ()
  | n + 1 => do
    fillTable t n
    store policy (L.pageTables + pageSize * t + 4 * n)
      (mkEntry ((t * pageEntries + n) * pageSize) (pagePresent ||| pageWrite))

def fillTables : Nat → CoreM Unit
  | 0 => pure ()
  | t + 1 => do
    fillTables t
    fillTable policy L t pageEntries
    store policy (L.pageDirectory + 4 * (768 + t))
      (mkEntry (virtToPhys (L.pageTables + pageSize * t)) (pagePresent ||| pageWrite))

def pagingInit : CoreM Unit := do
  fillWords policy L.pageDirectory 0x00000002 pageEntries
  fillTables policy L 4
  pagingLoadDirectory (virtToPhys L.pageDirectory)

/-- The branch of `paging_map_page` for an absent directory entry. -/
def newPageTable (pdIndex flags : Nat) : CoreM Bool := do
  let newTablePhys ← pmmAllocFrame
  if newTablePhys = 0 then pure false
  else do
    fillWords policy (physToVirt newTablePhys) 0 pageEntries
    store policy (L.pageDirectory + 4 * pdIndex)
      (mkEntry newTablePhys (pagePresent ||| pageWrite ||| (flags &&& pageUser)))
    pure true

/-- The end of `paging_map_page`, once the table is there. -/
def mapInTable (virtualAddr physicalAddr flags : Nat) : CoreM Unit := do
  let pdIndex := virtualAddr / 2 ^ 22
  let ptIndex := virtualAddr / 2 ^ 12 % 2 ^ 10
  let pde ← load policy (L.pageDirectory + 4 * pdIndex)
  store policy (physToVirt (entryAddr pde) + 4 * ptIndex)
    (mkEntry (roundDown pageSize physicalAddr) (flags % pageSize ||| pagePresent))
  pagingFlushTlb policy virtualAddr

def pagingMapPage (virtualAddr physicalAddr flags : Nat) : CoreM Unit := do
  let pdIndex := virtualAddr / 2 ^ 22
  let pde ← load policy (L.pageDirectory + 4 * pdIndex)
  let ok ← if isPresent pde then pure true else newPageTable policy L pdIndex flags
  if ok then mapInTable policy L virtualAddr physicalAddr flags else pure ()

def pagingUnmapPage (virtualAddr : Nat) : CoreM Unit := do
  let pdIndex := virtualAddr / 2 ^ 22
  let ptIndex := virtualAddr / 2 ^ 12 % 2 ^ 10
  let pde ← load policy (L.pageDirectory + 4 * pdIndex)
  if isPresent pde then do
    let pde ← load policy (L.pageDirectory + 4 * pdIndex)
    store policy (physToVirt (entryAddr pde) + 4 * ptIndex) 0
    pagingFlushTlb policy virtualAddr
  else pure ()

def pagingGetPhysical (virtualAddr : Nat) : CoreM Nat := do
  let pdIndex := virtualAddr / 2 ^ 22
  let ptIndex := virtualAddr / 2 ^ 12 % 2 ^ 10
  let pde ← load policy (L.pageDirectory + 4 * pdIndex)
  if isPresent pde then do
    let pde ← load policy (L.pageDirectory + 4 * pdIndex)
    let pte ← load policy (physToVirt (entryAddr pde) + 4 * ptIndex)
    if isPresent pte then do
      let pte ← load policy (physToVirt (entryAddr pde) + 4 * ptIndex)
      pure (w32 (entryAddr pte + virtualAddr % pageSize))
    else pure 0
  else pure 0

def copyKernelHalf (newDir : Nat) : Nat → CoreM Unit
  | 0 => pure ()
  | n + 1 => do
    copyKernelHalf newDir n
    let pde ← load policy (L.pageDirectory + 4 * (768 + n))
    store policy (newDir + 4 * (768 + n)) pde

def pagingCreateDirectory : CoreM Nat := do
  let dirPhys ← pmmAllocFrame
  if dirPhys = 0 then pure 0
  else do
    fillWords policy (physToVirt dirPhys) 0x00000002 pageEntries
    copyKernelHalf policy L (physToVirt dirPhys) 256
    pure dirPhys

end Cached

/-! ## Following the machine without a cache -/

/-- The cache stands beside the machine `M`, with nothing stale off `S`. -/
structure Stands (c : Core) (M : Machine) (S : Nat → Prop) : Prop where
  mach : c.mach = M
  fresh : c.tlb.Fresh (walk M.phys (frameOf M.cr3)) S

/-- Beyond the last page: no address is there. -/
def Beyond (page : Nat) : Prop := 2 ^ 20 ≤ page

/-- Wherever the cache stands beside `M`, `x` returns `a` and leaves it beside `M'`. -/
def Follows {α : Type} (x : CoreM α) (M : Machine) (S : Nat → Prop) (a : α) (M' : Machine)
    (S' : Nat → Prop) : Prop :=
  ∀ c, Stands c M S → ∃ c', x c = some (a, c') ∧ Stands c' M' S'

section Follows

variable {policy : CachePolicy} {M M' M'' : Machine} {S S' S'' : Nat → Prop} {α β : Type}
  {x : CoreM α} {f : α → CoreM β} {a : α} {b : β} {va w g i : Nat} {c : Core}

theorem Follows.pure (a : α) : Follows (Pure.pure a) M S a M S := fun c h => ⟨c, rfl, h⟩

theorem Follows.bind (hx : Follows x M S a M' S') (hf : Follows (f a) M' S' b M'' S'') :
    Follows (x >>= f) M S b M'' S'' := by
  intro c hc
  obtain ⟨c₁, he, hc₁⟩ := hx c hc
  obtain ⟨c₂, he', hc₂⟩ := hf c₁ hc₁
  refine ⟨c₂, ?_, hc₂⟩
  show (x c).bind _ = _
  rw [he]
  exact he'

theorem Stands.walk_eq (h : Stands c M S) : c.walk = walk M.phys (frameOf M.cr3) := by
  unfold Core.walk
  rw [h.mach]

theorem Stands.tick (h : Stands c M S) (policy : CachePolicy) : Stands (c.tick policy) M S :=
  ⟨h.mach, by
    show (c.tlb.adjust c.walk _).Fresh _ S
    rw [h.walk_eq]
    exact h.fresh.adjust _⟩

theorem Stands.frameAt (h : Stands c M S) (hS : ¬ S (va / pageSize)) :
    c.frameAt va = M.frameAt va := by
  unfold Core.frameAt Machine.frameAt
  rw [h.walk_eq, h.fresh.translate hS]

variable (policy)

theorem load_follows (hS : ¬ S (va / pageSize)) (h : machMem.load M va = some w) :
    Follows (Cached.load policy va) M S w M S := by
  intro c hc
  have ht := hc.tick policy
  obtain ⟨f, hf, rfl⟩ := Option.map_eq_some_iff.mp h
  refine ⟨c.tick policy, ?_, ht⟩
  show ((c.tick policy).frameAt va).map _ = _
  rw [ht.frameAt hS, hf, Option.map_some, ht.mach]

theorem store_follows (hS : ¬ S (va / pageSize)) (h : machMem.store M va w = some M')
    (hmono : ∀ p, S p → S' p) (hwalk : ∀ p, ¬ S' p →
      walk M'.phys (frameOf M.cr3) p = walk M.phys (frameOf M.cr3) p) :
    Follows (Cached.store policy va w) M S () M' S' := by
  intro c hc
  have ht := hc.tick policy
  obtain ⟨f, hf, rfl⟩ := Option.map_eq_some_iff.mp h
  refine ⟨{ c.tick policy with mach := M.withPhys (M.phys.store f (va % pageSize / 4) w) }, ?_,
    rfl, ht.fresh.change hmono hwalk⟩
  show ((c.tick policy).frameAt va).map _ = _
  rw [ht.frameAt hS, hf, Option.map_some, ht.mach]

theorem flush_follows (va : Nat) : Follows (Cached.pagingFlushTlb policy va) M
    (fun p => S p ∨ p = va / pageSize) () M S :=
  fun _ hc => ⟨_, rfl, (hc.tick policy).mach, (hc.tick policy).fresh.invalidate⟩

theorem loadDirectory_follows (dirPhys : Nat) :
    Follows (Cached.pagingLoadDirectory dirPhys) M S () { M with cr3 := dirPhys } S' :=
  fun c hc => ⟨_, rfl, by rw [← hc.mach], Tlb.fresh_empty⟩

theorem alloc_follows {p : Pmm} (ha : pmmAllocFrame M.pmm = (i, p)) :
    Follows Cached.pmmAllocFrame M S i (M.withPmm p) S := by
  intro c hc
  refine ⟨{ c with mach := M.withPmm p }, ?_, rfl, hc.fresh⟩
  unfold Cached.pmmAllocFrame
  rw [hc.mach, machMem_alloc ha]

/-! ## The direct window -/

theorem window_page (g : Nat) (hi : i < 1024) :
    (0xC0000000 + g * pageSize + 4 * i) / pageSize = 0xC0000 + g := by
  unfold pageSize; omega

theorem window_near (hg : g < 1024) (hi : i < 1024) :
    ¬ Beyond ((0xC0000000 + g * pageSize + 4 * i) / pageSize) := by
  rw [window_page g hi]
  unfold Beyond
  omega

theorem Direct.load_follows (h : Direct M) (h1 : 256 ≤ g) (h2 : g < 1024) (hi : i < 1024) :
    Follows (Cached.load policy (0xC0000000 + g * pageSize + 4 * i)) M Beyond (M.phys g i) M
      Beyond :=
  Memory.load_follows policy (window_near h2 hi) (h.load h1 h2 hi)

theorem Direct.store_follows (h : Direct M) (h1 : 256 ≤ g) (h2 : g < 1024) (hi : i < 1024)
    (ho : OffTree M.phys (frameOf M.cr3) g) (w : Nat) :
    Follows (Cached.store policy (0xC0000000 + g * pageSize + 4 * i) w) M Beyond ()
      (M.withPhys (M.phys.store g i w)) Beyond :=
  Memory.store_follows policy (window_near h2 hi) (h.store h1 h2 hi w) (fun _ hp => hp) fun _ hp =>
    ho.store.walk_eq (Nat.lt_of_not_le hp)

theorem Direct.same {m : Phys} (h : Direct M) (hs : SameTree M.phys m (frameOf M.cr3)) :
    Direct (M.withPhys m) :=
  h.frame (by rw [hs.entries]) fun i _ _ => by rw [hs.table (by omega) h.dir]

theorem Direct.offWalk (h : Direct M) (ho : OffTree M.phys (frameOf M.cr3) g) : M.OffWalk g :=
  ⟨ho.1, (ho.2 768 (by omega) h.dir).symm⟩

theorem Direct.fill_follows (h : Direct M) (h1 : 256 ≤ g) (h2 : g < 1024)
    (ho : OffTree M.phys (frameOf M.cr3) g) (w : Nat) : ∀ n, n ≤ 1024 →
    Follows (Cached.fillWords policy (0xC0000000 + g * pageSize) w n) M Beyond ()
      (M.withPhys (M.phys.fill g w n)) Beyond
  | 0, _ => by rw [Phys.fill_zero]; exact .pure ()
  | n + 1, hn => by
    have hs : SameTree M.phys (M.phys.fill g w n) (frameOf M.cr3) :=
      ho.same fun _ hg => Phys.fill_frame hg
    rw [← Phys.fill_succ]
    exact (Direct.fill_follows h h1 h2 ho w n (by omega)).bind
      ((h.same hs).store_follows policy h1 h2 (by omega) (hs.offTree_iff.mpr ho) w)

end Follows

end TupleOS.Memory
