import TupleOS.Base.Run
import TupleOS.Heap.Flat
import TupleOS.Memory.Boot

/-!
# The pages behind the heap

`heap_expand` takes one frame per page and has `paging_map_page` enter it. The
heap window is under static tables up to `0xC1000000`; its last 4 MB need a table
of their own, and `paging_map_page` reports only by printing that it got no frame
for it. If there is one below 4 MB when it is needed, or the frames run out
before, every page of the heap stays mapped to a frame of its own
(`heap_always_backed`). With one frame left at `0xC1000000`, the page's frame is
taken, no table is made and the heap grows over the hole
(`heap_grows_over_hole`).
-/

namespace TupleOS.Memory

open TupleOS.Base TupleOS.Heap

/-! ## Growing -/

/-- The pages from `lo` to `hi` have their tables, or a frame below 4 MB is left for
the table when the loop comes to it, or the frames run out before. -/
def TableReady (L : Layout) (M : Machine) (lo hi : Nat) : Prop :=
  ∀ u, lo ≤ u → u < hi → u = lo ∨ u % 1024 = 0 →
    isPresent (M.phys (pdFrame L) (u / 1024)) = true ∨ reachable M.pmm ≤ u - lo ∨
      u - lo + 2 ≤ nearFree M.pmm

/-- What mapping the heap pages `lo` to `hi` did. -/
structure HeapGrowth (L : Layout) (dirs : List Nat) (M M' : Machine) (lo hi : Nat) (ok : Bool) :
    Prop where
  inv : MachInv L dirs M'
  others : ∀ u < 2 ^ 20, u < lo ∨ hi ≤ u → walk M'.phys (pdFrame L) u = walk M.phys (pdFrame L) u
  used : ∀ g, M'.pmm.Free g → M.pmm.Free g
  mapped : ok = true → ∀ u, lo ≤ u → u < hi →
    ∃ f, kmap L M'.phys u = some f ∧ M.pmm.Free f ∧ ¬ M'.pmm.Free f
  distinct : ok = true → ∀ u v f, lo ≤ u → u < hi → lo ≤ v → v < hi →
    kmap L M'.phys u = some f → kmap L M'.phys v = some f → u = v

section Growth

variable {L : Layout} {dirs : List Nat} {M M₁ M' : Machine} {lo hi : Nat} {ok : Bool}

theorem HeapGrowth.refl (h : MachInv L dirs M) (hok : ok = true → hi ≤ lo) :
    HeapGrowth L dirs M M lo hi ok :=
  ⟨h, fun _ _ _ => rfl, fun _ hg => hg, fun hk u h1 h2 => by have := hok hk; omega,
    fun hk u v f h1 h2 => by have := hok hk; omega⟩

/-- One page of the loop: it is mapped to a frame that was free. -/
structure HeapPage (L : Layout) (dirs : List Nat) (M M' : Machine) (v f : Nat) : Prop where
  inv : MachInv L dirs M'
  here : kmap L M'.phys v = some f
  others : ∀ u < 2 ^ 20, u ≠ v → walk M'.phys (pdFrame L) u = walk M.phys (pdFrame L) u
  free : M.pmm.Free f
  used : ∀ g, M'.pmm.Free g → g ≠ f ∧ M.pmm.Free g

theorem kmap_congr {m m' : Phys} {u : Nat} (h : walk m' (pdFrame L) u = walk m (pdFrame L) u) :
    kmap L m' u = kmap L m u := by rw [kmap, kmap, h]

/-- A page and the rest of the loop. The page's frame is taken, so the rest gets
others. -/
theorem HeapPage.growth {f : Nat} (e : HeapPage L dirs M M₁ lo f) (hlt : lo < hi)
    (hhi : hi ≤ 2 ^ 20)
    (g : HeapGrowth L dirs M₁ M' (lo + 1) hi ok) : HeapGrowth L dirs M M' lo hi ok := by
  have hfirst : kmap L M'.phys lo = some f := by
    rw [kmap_congr (g.others lo (by omega) (.inl (by omega)))]
    exact e.here
  have hrest : ok = true → ∀ u, lo + 1 ≤ u → u < hi → kmap L M'.phys u ≠ some f := by
    intro hok u h1 h2 heq
    obtain ⟨f', hf', hfree, -⟩ := g.mapped hok u h1 h2
    rw [heq] at hf'
    cases hf'
    exact (e.used f hfree).1 rfl
  refine ⟨g.inv, fun u hu hor => ?_, fun x hx => (e.used x (g.used x hx)).2, fun hok u h1 h2 => ?_,
    fun hok u v x hu1 hu2 hv1 hv2 hu hv => ?_⟩
  · rw [g.others u hu (by omega), e.others u hu (by omega)]
  · by_cases hul : u = lo
    · subst hul
      exact ⟨f, hfirst, e.free, fun hf => (e.used f (g.used f hf)).1 rfl⟩
    · obtain ⟨x, hx, hfree, hused⟩ := g.mapped hok u (by omega) h2
      exact ⟨x, hx, (e.used x hfree).2, hused⟩
  · by_cases hul : u = lo
    · subst hul
      rw [hfirst] at hu
      cases hu
      by_contra hne
      exact hrest hok v (by omega) hv2 hv
    · by_cases hvl : v = lo
      · subst hvl
        rw [hfirst] at hv
        cases hv
        exact absurd hu (hrest hok u (by omega) hu2)
      · exact g.distinct hok u v x (by omega) hu2 (by omega) hv2 hu hv

theorem TableReady.tail {p' : Pmm} {f : Nat} (h : TableReady L M lo hi) (hhi : hi ≤ 2 ^ 20)
    (tk : TookFrame M.pmm p' f) (hpm : M₁.pmm = p')
    (hp : isPresent (M.phys (pdFrame L) (lo / 1024)) = true)
    (hslots : ∀ s < 1024, isPresent (M.phys (pdFrame L) s) = true →
      M₁.phys (pdFrame L) s = M.phys (pdFrame L) s) : TableReady L M₁ (lo + 1) hi := by
  have hkeep : ∀ u < hi, isPresent (M.phys (pdFrame L) (u / 1024)) = true →
      isPresent (M₁.phys (pdFrame L) (u / 1024)) = true := fun u hu hpu => by
    rw [hslots _ (page_slot (by omega)) hpu]
    exact hpu
  intro u h1 h2 hor
  by_cases hu : u % 1024 = 0
  · have hr := tk.reachable_eq
    have hn := tk.nearFree
    rw [← hpm] at hr hn
    rcases h u (by omega) h2 (.inr hu) with hpu | hle | hle
    · exact .inl (hkeep u h2 hpu)
    · exact .inr (.inl (by omega))
    · exact .inr (.inr (by omega))
  · obtain rfl := hor.resolve_right hu
    refine .inl (hkeep _ h2 ?_)
    rw [show (lo + 1) / 1024 = lo / 1024 by omega]
    exact hp

theorem MachInv.heapPage_newTable {f va : Nat} {p' : Pmm} (h : MachInv L dirs M) (flags : Nat)
    (hlo : 0xC0400 ≤ va / pageSize) (hhi : va / pageSize < 0xC1400) (tk : TookFrame M.pmm p' f)
    (hn : 2 ≤ nearFree M.pmm) :
    ∃ M₁, pagingMapPage machMem L (M.withPmm p') va (f * pageSize) flags = some M₁ ∧
      HeapPage L dirs M M₁ (va / pageSize) f ∧
      isPresent (M₁.phys (pdFrame L) (va / pageSize / 1024)) = true := by
  obtain ⟨hl, hr⟩ := nearFree_pos (p := p') (by have := tk.nearFree; omega)
  obtain ⟨M₁, he, e⟩ := (h.took tk).mapPage_ok (f * pageSize) flags
    (by unfold pageSize at hhi; omega) (.inr hlo) (.inr hl) fun hf => by
      rcases hf.2 with hf | hf <;> omega
  obtain ⟨pde, hw⟩ := e.here.resolve_right fun hc => by
    have : reachable p' = 0 := hc.2.2
    omega
  exact ⟨M₁, he, ⟨e.inv, kmap_pteFor hw, e.others, tk.free, fun g hg =>
    (free_set tk.bitmap).mp (e.used g hg)⟩, walk_present hw⟩

/-- **One page of the heap**, and what is left finds its tables. -/
theorem MachInv.mapHeapPage_ready {f va : Nat} {p' : Pmm} (h : MachInv L dirs M) (n : Nat)
    (hlo : 0xC0400 ≤ va / pageSize) (hhi : va / pageSize + (n + 1) ≤ 0xC1400)
    (tk : TookFrame M.pmm p' f)
    (hr : TableReady L M (va / pageSize) (va / pageSize + (n + 1))) :
    ∃ M₁, pagingMapPage machMem L (M.withPmm p') va (f * pageSize)
        (pagePresent ||| pageWrite) = some M₁ ∧
      HeapPage L dirs M M₁ (va / pageSize) f ∧
      TableReady L M₁ (va / pageSize + 1) (va / pageSize + (n + 1)) := by
  have hpos : 0 < reachable M.pmm := by have := tk.reachable_eq; omega
  by_cases hp : isPresent (M.phys (pdFrame L) (va / pageSize / 1024)) = true
  · obtain ⟨M₁, hmap, hpm, e⟩ :=
      h.mapHeapPage_present (pagePresent ||| pageWrite) hlo (by omega) tk hp
    obtain ⟨pde, hw⟩ := e.walk_here hp
    exact ⟨M₁, hmap, ⟨e.inv, kmap_pteFor hw, e.others, tk.free, fun g hg =>
      (free_set tk.bitmap).mp (e.used g hg)⟩,
      hr.tail (by omega) tk hpm hp fun s hs hps => e.slots s hs (.inr hps)⟩
  · have hn : 2 ≤ nearFree M.pmm := by
      rcases hr _ (Nat.le_refl _) (by omega) (.inl rfl) with hc | hc | hc
      · exact absurd hc hp
      · omega
      · omega
    obtain ⟨M₁, hmap, e, hp₁⟩ :=
      h.heapPage_newTable (pagePresent ||| pageWrite) hlo (by omega) tk hn
    refine ⟨M₁, hmap, e, fun u h1 h2 _ => .inl ?_⟩
    -- only the last table of the window is not static, so the rest is under the new one
    have hslot : va / pageSize / 1024 = 772 := by
      by_contra hne
      apply hp
      rw [show va / pageSize / 1024 = 768 + (va / pageSize / 1024 - 768) by omega,
        h.tables.static _ (by omega)]
      exact entry_present _
    rw [show u / 1024 = va / pageSize / 1024 by omega]
    exact hp₁

/-- **The mapping loop of the heap** maps every page or runs out of frames. -/
theorem MachInv.mapHeapPages_ready (h : MachInv L dirs M) (bytes : Bytes) (n base : Nat)
    (hal : base % pageSize = 0) (hlo : 0xC0400 ≤ base / pageSize)
    (hhi : base / pageSize + n ≤ 0xC1400)
    (hr : TableReady L M (base / pageSize) (base / pageSize + n)) :
    ∃ ok M', mapHeapPages (vmEnv L) M bytes base n = some (ok, M', bytes) ∧
      HeapGrowth L dirs M M' (base / pageSize) (base / pageSize + n) ok := by
  induction n generalizing base M with
  | zero => exact ⟨true, M, rfl, .refl h fun _ => Nat.le_refl _⟩
  | succ n ih =>
    rcases h.tables.pmmAllocFrame_cases with ⟨ha, hnone⟩ | ⟨f, p', ha, tk⟩
    · exact ⟨false, M, mapHeapPages_none bytes base n ha, .refl h fun hok => by cases hok⟩
    obtain ⟨M₁, hmap, e, hr₁⟩ := h.mapHeapPage_ready n hlo hhi tk hr
    have hnext : (base + pageSize) / pageSize = base / pageSize + 1 := by
      unfold pageSize; omega
    have hsum : base / pageSize + 1 + n = base / pageSize + (n + 1) := by omega
    obtain ⟨ok, M', he, g⟩ := ih e.inv (base + pageSize) (by unfold pageSize at *; omega) (by omega)
      (by omega) (by rw [hnext, hsum]; exact hr₁)
    rw [hnext, hsum] at g
    exact ⟨ok, M', (h.mapHeapPages_succ bytes n ha tk hmap).trans he,
      e.growth (by omega) (by omega) g⟩

end Growth

/-! ## `kmalloc` -/

/-- Growing the heap for `size` bytes does not wrap around, and it is turned down at
the limit or finds its tables. -/
def GrowsBacked (L : Layout) (h : KHeap) (M : Machine) (size : Nat) : Prop :=
  h.heapEnd + growPages size * pageSize < 2 ^ 32 ∧
    (h.heapMax < h.heapEnd + growPages size * pageSize ∨
      TableReady L M (h.heapEnd / pageSize) (h.heapEnd / pageSize + growPages size))

/-- The heap went from `h` to `h'` by a growth of the pages behind it. -/
structure Grown (L : Layout) (dirs : List Nat) (h h' : KHeap) (M M' : Machine) (hi : Nat)
    (ok : Bool) : Prop where
  growth : HeapGrowth L dirs M M' (h.heapEnd / pageSize) hi ok
  lo_le : h.heapEnd / pageSize ≤ hi
  hi_le : hi ≤ 0xC1400
  fin : h'.heapEnd = if ok then hi * pageSize else h.heapEnd
  start : h'.heapStart = h.heapStart
  max : h'.heapMax = h.heapMax

section Kmalloc

variable {L : Layout} {dirs : List Nat} {M M' : Machine} {h h' h'' : KHeap} {size hi : Nat}
  {ok : Bool}

theorem Grown.refl (hm : MachInv L dirs M) (hb : HeapBounds h) (hs : SameBounds h h') :
    Grown L dirs h h' M M (h.heapEnd / pageSize) false :=
  ⟨.refl hm nofun, Nat.le_refl _, by have := hb.hi; unfold pageSize; omega, hs.fin,
    hs.start, hs.max⟩

theorem Grown.same (g : Grown L dirs h h' M M' hi ok) (hs : SameBounds h' h'') :
    Grown L dirs h h'' M M' hi ok :=
  ⟨g.growth, g.lo_le, g.hi_le, hs.fin.trans g.fin, hs.start.trans g.start, hs.max.trans g.max⟩

/-- **`heap_expand`** that finds its tables. -/
theorem MachInv.heapExpand_ready (hm : MachInv L dirs M) (hb : HeapBounds h)
    (hg : GrowsBacked L h M size)
    (he : heapExpand (vmEnv L) h M (w32 (roundUp 8 size + headerSize)) = some (ok, h', M')) :
    ∃ hi ok, Grown L dirs h h' M M' hi ok := by
  obtain ⟨hwrap, hor⟩ := hg
  have hmax := hb.max
  have hal := hb.aligned
  rcases heapExpand_cases hwrap he with ⟨-, rfl, hsame⟩ | ⟨hle, ⟨bytes, hmap⟩, hend, hst, hmax'⟩
  · exact ⟨_, _, .refl hm hb hsame⟩
  · have htop : h.heapEnd / pageSize + growPages size ≤ 0xC1400 := by unfold pageSize at *; omega
    obtain ⟨ok₁, M₁, hmap₁, g⟩ := hm.mapHeapPages_ready h.mem (growPages size) h.heapEnd hal hb.lo
      htop (hor.resolve_left (Nat.not_lt.mpr hle))
    cases hmap.symm.trans hmap₁
    refine ⟨_, ok, g, Nat.le_add_right _ _, htop, ?_, hst, hmax'⟩
    rw [hend]
    split
    · unfold pageSize at *
      omega
    · rfl

/-- **`kmalloc`** that needs no growth, or whose growth finds its tables. -/
theorem MachInv.kmalloc_ready {p : Nat} (hm : MachInv L dirs M) (hb : HeapBounds h)
    (hg : size = 0 ∨ HasRoom h size ∨ GrowsBacked L h M size)
    (he : kmalloc (vmEnv L) h M size = some (p, h', M')) :
    ∃ hi ok, Grown L dirs h h' M M' hi ok := by
  rcases kmalloc_cases he with ⟨rfl, hsame⟩ | ⟨hsize, hfull, ok, h₁, hex, hsame⟩
  · exact ⟨_, _, .refl hm hb hsame⟩
  · obtain ⟨hi, ok, g⟩ := hm.heapExpand_ready hb ((hg.resolve_left hsize).resolve_left hfull) hex
    exact ⟨hi, ok, g.same hsame⟩

end Kmalloc

/-! ## Runs of the heap -/

/-- The heap and the machine behind it. -/
structure HeapMach where
  heap : KHeap
  mach : Machine

/-- Calls into `kheap.c`, and frames taken by other code in between. -/
inductive KHeapOp where
  | kmalloc (size : Nat)
  | kcalloc (num size : Nat)
  | kfree (p : Nat)
  | takeFrame

def kheapStep (L : Layout) (w : HeapMach) : KHeapOp → Option HeapMach
  | .kmalloc size => (kmalloc (vmEnv L) w.heap w.mach size).map fun r => ⟨r.2.1, r.2.2⟩
  | .kcalloc num size => (kcalloc (vmEnv L) w.heap w.mach num size).map fun r => ⟨r.2.1, r.2.2⟩
  | .kfree p => (kfree w.heap p).map fun h => { w with heap := h }
  | .takeFrame => some { w with mach := (machMem.pmmAllocFrame w.mach).2 }

/-- The bytes the call asks `kmalloc` for; the product of `kcalloc` wraps. -/
def KHeapOp.request : KHeapOp → Nat
  | .kmalloc size => size
  | .kcalloc num size => w32 (num * size)
  | .kfree _ => 0
  | .takeFrame => 0

/-- A block of the list serves the request, or growing finds its tables. -/
def KHeapOp.Ready (L : Layout) (w : HeapMach) (op : KHeapOp) : Prop :=
  op.request = 0 ∨ HasRoom w.heap op.request ∨ GrowsBacked L w.heap w.mach op.request

/-- Page `u` is one of `heap_start` to `heap_end`. -/
def HeapMach.HasPage (w : HeapMach) (u : Nat) : Prop :=
  w.heap.heapStart / pageSize ≤ u ∧ u < w.heap.heapEnd / pageSize

/-- Every page of the heap is mapped to a used frame of its own; outside the
window of the heap the translations are those of `M₀`. -/
structure HeapBacked (L : Layout) (M₀ : Machine) (w : HeapMach) : Prop where
  mapped : ∀ u, w.HasPage u → ∃ f, kmap L w.mach.phys u = some f ∧ ¬ w.mach.pmm.Free f
  distinct : ∀ u v f, w.HasPage u → w.HasPage v → kmap L w.mach.phys u = some f →
    kmap L w.mach.phys v = some f → u = v
  outside : ∀ u < 2 ^ 20, u < w.heap.heapStart / pageSize ∨ w.heap.heapMax / pageSize ≤ u →
    walk w.mach.phys (pdFrame L) u = walk M₀.phys (pdFrame L) u

structure BackedInv (L : Layout) (M₀ : Machine) (w : HeapMach) : Prop where
  backed : HeapBacked L M₀ w
  mach : MachInv L [] w.mach
  bounds : HeapBounds w.heap
  start : w.heap.heapStart = heapStartAddr

section Runs

variable {L : Layout} {M₀ : Machine} {w w' : HeapMach} {op : KHeapOp}

theorem Grown.bounds {dirs : List Nat} {h h' : KHeap} {M M' : Machine} {hi : Nat} {ok : Bool}
    (g : Grown L dirs h h' M M' hi ok) (hb : HeapBounds h) : HeapBounds h' := by
  have h1 := hb.lo
  have h2 := g.lo_le
  have h3 := g.hi_le
  have hfin := g.fin
  cases ok with
  | false => exact hb.same ⟨g.start, hfin, g.max⟩
  | true =>
    rw [if_pos rfl] at hfin
    refine ⟨?_, ?_, ?_, g.max.trans hb.max⟩ <;> rw [hfin] <;> unfold pageSize at * <;> omega

theorem Grown.pages {h' : KHeap} {M' : Machine} {hi u : Nat} {ok : Bool}
    (g : Grown L [] w.heap h' w.mach M' hi ok) (hu : (HeapMach.mk h' M').HasPage u) :
    w.HasPage u ∨ (ok = true ∧ w.heap.heapEnd / pageSize ≤ u ∧ u < hi) := by
  obtain ⟨h1, h2⟩ := hu
  simp only [g.start, g.fin] at h1 h2
  by_cases hold : u < w.heap.heapEnd / pageSize
  · exact .inl ⟨h1, hold⟩
  · cases ok with
    | false => exact .inl ⟨h1, h2⟩
    | true =>
      simp only [↓reduceIte, Nat.mul_div_cancel _ (show 0 < pageSize by decide)] at h2
      exact .inr ⟨rfl, by omega, h2⟩

/-- A growth of the pages behind the heap keeps it backed. -/
theorem BackedInv.grown (i : BackedInv L M₀ w) {h' : KHeap} {M' : Machine} {hi : Nat} {ok : Bool}
    (g : Grown L [] w.heap h' w.mach M' hi ok) : BackedInv L M₀ ⟨h', M'⟩ := by
  have hlo := i.bounds.lo
  have hhi := i.bounds.hi
  have hmax := i.bounds.max
  have hbase : w.heap.heapStart / pageSize = 0xC0400 := by rw [i.start]; rfl
  have hg := g.hi_le
  have hl := g.lo_le
  -- the old pages are where they were, with frames that are still used
  have hold : ∀ u, w.HasPage u → kmap L M'.phys u = kmap L w.mach.phys u := fun u hu =>
    kmap_congr (g.growth.others u (by have := hu.2; unfold pageSize at *; omega) (.inl hu.2))
  have hused : ∀ u f, w.HasPage u → kmap L M'.phys u = some f → ¬ w.mach.pmm.Free f := by
    intro u f hu hf
    obtain ⟨f', hf', hfree⟩ := i.backed.mapped u hu
    rw [hold u hu, hf'] at hf
    cases hf
    exact hfree
  have hnew : ∀ u f, ok = true → w.heap.heapEnd / pageSize ≤ u → u < hi →
      kmap L M'.phys u = some f → w.mach.pmm.Free f := by
    intro u f hok h1 h2 hf
    obtain ⟨f', hf', hfree, -⟩ := g.growth.mapped hok u h1 h2
    rw [hf] at hf'
    cases hf'
    exact hfree
  refine ⟨⟨fun u hu => ?_, fun u v f hu hv hfu hfv => ?_, fun u hu hor => ?_⟩, g.growth.inv,
    g.bounds i.bounds, g.start.trans i.start⟩
  · rcases g.pages hu with hu | ⟨hok, h1, h2⟩
    · obtain ⟨f, hf, hfree⟩ := i.backed.mapped u hu
      exact ⟨f, (hold u hu).trans hf, fun hc => hfree (g.growth.used f hc)⟩
    · obtain ⟨f, hf, -, hfree⟩ := g.growth.mapped hok u h1 h2
      exact ⟨f, hf, hfree⟩
  · rcases g.pages hu with hu | ⟨hok, hu1, hu2⟩ <;> rcases g.pages hv with hv | ⟨hok', hv1, hv2⟩
    · exact i.backed.distinct u v f hu hv ((hold u hu).symm.trans hfu) ((hold v hv).symm.trans hfv)
    · exact absurd (hnew v f hok' hv1 hv2 hfv) (hused u f hu hfu)
    · exact absurd (hnew u f hok hu1 hu2 hfu) (hused v f hv hfv)
    · exact g.growth.distinct hok u v f hu1 hu2 hv1 hv2 hfu hfv
  · simp only [g.start, g.max] at hor
    rw [hmax] at hor
    rw [g.growth.others u hu (by unfold pageSize at *; omega)]
    exact i.backed.outside u hu (by rw [hmax]; exact hor)

/-- One call keeps the heap backed. -/
theorem BackedInv.step (i : BackedInv L M₀ w) (hr : op.Ready L w)
    (he : kheapStep L w op = some w') : BackedInv L M₀ w' := by
  cases op with
  | kmalloc size =>
    obtain ⟨⟨p, h', M'⟩, hk, he⟩ := Option.map_eq_some_iff.mp he
    cases he
    obtain ⟨hi, ok, g⟩ := i.mach.kmalloc_ready i.bounds hr hk
    exact i.grown g
  | kcalloc num size =>
    obtain ⟨⟨p, h', M'⟩, hk, he⟩ := Option.map_eq_some_iff.mp he
    cases he
    unfold kcalloc at hk
    obtain ⟨⟨q, h₁, M₁⟩, hk, hz⟩ := Option.bind_eq_some_iff.mp hk
    obtain ⟨hi, ok, g⟩ := i.mach.kmalloc_ready i.bounds hr hk
    simp only at hz
    split at hz <;> cases hz <;> exact i.grown (g.same ⟨rfl, rfl, rfl⟩)
  | kfree p =>
    obtain ⟨h', hk, he⟩ := Option.map_eq_some_iff.mp he
    cases he
    exact i.grown (.refl i.mach i.bounds (kfree_bounds hk))
  | takeFrame =>
    cases he
    rcases i.mach.tables.pmmAllocFrame_cases with ⟨ha, -⟩ | ⟨f, p', ha, tk⟩
    · rw [machMem_alloc ha]
      exact i
    · rw [machMem_alloc ha]
      refine ⟨⟨fun u hu => ?_, i.backed.distinct, i.backed.outside⟩, i.mach.took tk,
        i.bounds, i.start⟩
      obtain ⟨g, hg, hfree⟩ := i.backed.mapped u hu
      exact ⟨g, hg, fun hc => hfree ((free_set tk.bitmap).mp hc).2⟩

theorem kheapInit_backed {bytes : Bytes} {h₀ : KHeap} {M₁ : Machine} (hm : MachInv L [] M₀)
    (ht : StaticTables L M₀.phys) (hk : kheapInit (vmEnv L) M₀ bytes = some (true, h₀, M₁)) :
    BackedInv L M₀ ⟨h₀, M₁⟩ := by
  have hready : TableReady L M₀ 0xC0400 (0xC0400 + 256) :=
    fun u h1 h2 _ => .inl (ht.heap_present u h1 h2)
  obtain ⟨ok, M', hmap, g⟩ := hm.mapHeapPages_ready bytes 256 heapStartAddr rfl (Nat.le_refl _)
    (Nat.le_of_ble_eq_true rfl) hready
  unfold kheapInit at hk
  rw [show initialHeapSize / pageSize = 256 by decide, hmap, Option.bind_eq_bind,
    Option.bind_some] at hk
  cases ok with
  | false => cases hk
  | true =>
    cases hk
    have hend : (heapStartAddr + initialHeapSize) / pageSize = heapStartAddr / pageSize + 256 := by
      decide
    have hmax : heapStartAddr / pageSize + 256 ≤
      (heapStartAddr + maxHeapSize) / pageSize := by decide
    refine ⟨⟨fun u hu => ?_, fun u v f hu hv => ?_, fun u hu hor => ?_⟩, g.inv,
      initialHeap_bounds bytes, rfl⟩
    · obtain ⟨f, hf, -, hfree⟩ := g.mapped rfl u hu.1 (hend ▸ hu.2)
      exact ⟨f, hf, hfree⟩
    · exact g.distinct rfl u v f hu.1 (hend ▸ hu.2) hv.1 (hend ▸ hv.2)
    · exact g.others u hu (hor.imp id fun hge => Nat.le_trans hmax hge)

/-- **The heap is backed** in every state of a run from a successful `kheap_init`
whose growths find their tables. -/
theorem heap_always_backed {phys : Phys} {bitmap : Bitmap} {bytes : Bytes}
    {mmap : Option (List MmapEntry)} {h₀ : KHeap} {M₁ : Machine} {ops : List KHeapOp}
    (ht : (pmmInit L bitmap mmap).totalFrames ≤ 32784)
    (hb : pagingInitLoad L (bootStart L phys (pmmInit L bitmap mmap)) = some M₀)
    (hk : kheapInit (vmEnv L) M₀ bytes = some (true, h₀, M₁))
    (hrun : Run (kheapStep L) (fun w op => op.Ready L w) ⟨h₀, M₁⟩ ops w) : HeapBacked L M₀ w := by
  obtain ⟨M, hload, htab, hcr3, hpm⟩ := pagingInitLoad_ok L phys (pmmInit L bitmap mmap)
  obtain rfl : M = M₀ := Option.some.inj (hload.symm.trans hb)
  have hi : MachInv L [] M := htab.inv hcr3 (by rw [hpm]; exact pmmInit_reserves L bitmap mmap)
    (by rw [hpm]; exact ht)
  exact (hrun.invariant (BackedInv L M) (fun i hr he => i.step hr he)
    (kheapInit_backed hi htab hk)).backed

end Runs

/-! ## Growth that uses up the frames -/

section Exhaust

variable {L : Layout} {dirs : List Nat} {M M' : Machine}

theorem MachInv.mapHeapPages_static (h : MachInv L dirs M) (bytes : Bytes) (n base : Nat)
    (hal : base % pageSize = 0) (hlo : 0xC0400 ≤ base / pageSize)
    (hhi : base / pageSize + n ≤ 0xC1400)
    (hp : ∀ u, base / pageSize ≤ u → u < base / pageSize + n →
      isPresent (M.phys (pdFrame L) (u / 1024)) = true) (hn : n ≤ reachable M.pmm) :
    ∃ M', mapHeapPages (vmEnv L) M bytes base n = some (true, M', bytes) ∧ MachInv L dirs M' ∧
      reachable M'.pmm + n = reachable M.pmm ∧
      ∀ s < 1024, M'.phys (pdFrame L) s = M.phys (pdFrame L) s := by
  induction n generalizing base M with
  | zero => exact ⟨M, rfl, h, rfl, fun _ _ => rfl⟩
  | succ n ih =>
    obtain ⟨f, p', ha, tk⟩ := h.tables.alloc_some (by omega)
    have hp₀ := hp _ (Nat.le_refl _) (by omega)
    obtain ⟨M₁, hmap, hpm, e⟩ :=
      h.mapHeapPage_present (pagePresent ||| pageWrite) hlo (by omega) tk hp₀
    have hslots : ∀ s < 1024, M₁.phys (pdFrame L) s = M.phys (pdFrame L) s := fun s hs => by
      apply e.slots s hs
      by_cases heq : s = base / pageSize / 1024
      · exact .inr (heq ▸ hp₀)
      · exact .inl heq
    have hcount := tk.reachable_eq
    rw [← hpm] at hcount
    have hnext : (base + pageSize) / pageSize = base / pageSize + 1 := by unfold pageSize; omega
    obtain ⟨M', he, hi, hr, hs⟩ := ih e.inv (base + pageSize) (by unfold pageSize at *; omega)
      (by omega) (by omega) (fun u h1 h2 => by
        rw [hslots _ (page_slot (by omega))]
        exact hp u (by omega) (by omega)) (by omega)
    exact ⟨M', (h.mapHeapPages_succ bytes n ha tk hmap).trans he, hi, by omega,
      fun s hs' => (hs s hs').trans (hslots s hs')⟩

theorem mapHeapPages_add {σ : Type} {E : PageEnv σ} {e₁ : σ} {m₁ : Bytes} (k : Nat) :
    ∀ (n base : Nat) {e : σ} {m : Bytes}, mapHeapPages E e m base n = some (true, e₁, m₁) →
      mapHeapPages E e m base (n + k) = mapHeapPages E e₁ m₁ (base + n * pageSize) k
  | 0, base, e, m, h => by
    cases h
    rw [Nat.zero_add, Nat.zero_mul, Nat.add_zero]
  | n + 1, base, e, m, h => by
    rw [show n + 1 + k = (n + k) + 1 by omega, mapHeapPages]
    rw [mapHeapPages] at h
    simp only at h ⊢
    split at h
    · cases h
    · rename_i h0
      rw [if_neg h0]
      obtain ⟨⟨e₂, m₂⟩, hm, h⟩ := Option.bind_eq_some_iff.mp h
      rw [hm, Option.bind_eq_bind, Option.bind_some, mapHeapPages_add k n _ h]
      congr 1
      rw [Nat.add_mul]
      omega

theorem MachInv.mapHeapPages_hole (h : MachInv L dirs M) (bytes : Bytes) {va : Nat}
    (hva : va < 2 ^ 32)
    (hp : isPresent (M.phys (pdFrame L) (va / pageSize / 1024)) = false)
    (hr : reachable M.pmm = 1) :
    ∃ p', mapHeapPages (vmEnv L) M bytes va 1 = some (true, M.withPmm p', bytes) := by
  obtain ⟨f, p', ha, tk⟩ := h.tables.alloc_some (by omega)
  have hnone : pmmAllocFrame p' = (0, p') := by
    rcases (h.took tk).tables.pmmAllocFrame_cases with ⟨hn, -⟩ | ⟨f', p'', -, tk'⟩
    · exact hn
    · have h1 := tk.reachable_eq
      have h2 := tk'.reachable_eq
      simp only [Machine.withPmm] at h2
      omega
  exact ⟨p', h.mapHeapPages_succ bytes 0 ha tk
    ((h.took tk).mapPage_noFrame (f * pageSize) _ hva hp hnone)⟩

end Exhaust

/-- One available entry with the frames `lo` to `hi`. The scan of the allocator ends at
the frame whose number is their count, rounded down to a multiple of 8. -/
theorem oneRange_pmm (entry : MmapEntry) (lo hi : Nat) (ht : entry.type = memoryAvailable)
    (hlo : w32 (w32 entry.baseAddr.toNat + (pageSize - 1)) / pageSize = lo)
    (hhi : w32 (w32 entry.baseAddr.toNat + w32 entry.length.toNat) / pageSize = hi)
    (hK : kernelEndFrame sampleLayout ≤ lo) (hcap : hi ≤ 32784) :
    (pmmInit sampleLayout (fun _ => 0#8) (some [entry])).totalFrames = hi - lo ∧
    reachable (pmmInit sampleLayout (fun _ => 0#8) (some [entry])) = 8 * ((hi - lo) / 8) - lo := by
  obtain ⟨hfree, htot⟩ := releaseEntry_range (L := sampleLayout) (p := fullPmm fun _ => 0#8)
    entry lo hi ht hlo hhi hK (show hi ≤ 32786 by omega) (show 0 + (hi - lo) < 2 ^ 32 by omega)
  rw [pmmInit_some, List.foldl_cons, List.foldl_nil]
  generalize releaseEntry sampleLayout (fullPmm fun _ => 0#8) entry = p at hfree htot
  have htot' : p.totalFrames = hi - lo := htot.trans (Nat.zero_add _)
  refine ⟨htot', ?_⟩
  unfold reachable
  rw [htot']
  apply Nat.le_antisymm
  · have hle := Bitmap.clearCount_le (n := 8 * ((hi - lo) / 8)) lo hi fun g hg hclear =>
      ((hfree g).mp hclear).resolve_left
        (fullPmm_used _ (by rw [show capacity = 32784 from rfl]; omega))
    omega
  · exact Bitmap.le_clearCount lo _ (fun g h1 h2 => (hfree g).mpr (.inr ⟨h1, by omega⟩))
      (Nat.le_refl _)

/-- 3368 frames from `0x127000`, of which the allocator finds 3073. -/
def tightMap : Option (List MmapEntry) := some [⟨0x127000#64, 0xD28000#64, memoryAvailable⟩]

theorem tightPmm : (pmmInit sampleLayout (fun _ => 0#8) tightMap).totalFrames = 3368 ∧
    reachable (pmmInit sampleLayout (fun _ => 0#8) tightMap) = 3073 :=
  oneRange_pmm ⟨0x127000#64, 0xD28000#64, memoryAvailable⟩ 295 3663 rfl (by decide) (by decide)
    (by decide) (by decide)

/-- A first request that is too large for the heap as `kheap_init` leaves it, once
its `k` pages are mapped. -/
theorem initialHeap_grows {σ : Type} {E : PageEnv σ} {e e' : σ} (n k : Nat) (bytes : Bytes)
    (h8 : n % 8 = 0) (hlt : bootBlock.size < n) (hk : n + headerSize ≤ k * pageSize)
    (hk' : k * pageSize < n + headerSize + pageSize)
    (hmax : 0xC0500000 + k * pageSize ≤ heapMaxAddr)
    (hmap : mapHeapPages E e (initialHeap bytes).mem 0xC0500000 k =
      some (true, e', (initialHeap bytes).mem)) :
    ∃ p h', kmalloc E (initialHeap bytes) e n = some (p, h', e') ∧
      h'.heapStart = 0xC0400000 ∧ h'.heapEnd = 0xC0500000 + k * pageSize := by
  have hps : 0 < pageSize := by decide
  have htop : heapMaxAddr = 0xC1400000 := rfl
  have hsz : bootBlock.size = 0xFFFF4 := rfl
  have hr : roundUp 8 n = n := by rw [roundUp_of_lt (by omega)]; omega
  have hpages : roundUp pageSize (w32 (n + headerSize)) = k * pageSize := by
    rw [w32_of_lt (by omega), roundUp_of_lt (by unfold pageSize at *; omega)]
    unfold pageSize at *
    omega
  have H : HeapOk (initialHeap bytes) [] ([] ++ [bootBlock]) := bootBlock_heapOk bytes
  have hnofit : ([] ++ [bootBlock] : List Block).find? (fits n) = none := by
    rw [List.nil_append, List.find?_cons_of_neg, List.find?_nil]
    simp only [fits, Bool.and_eq_true, decide_eq_true_eq]
    omega
  have hf := H.find n
  rw [hnofit] at hf
  obtain ⟨h₂, happ, H₂, -, -, -⟩ :=
    H.append (n := k * pageSize) (by omega) (Nat.mul_mod_left _ _) hmax
  have hx : heapExpand E (initialHeap bytes) e (w32 (n + headerSize)) = some (true, h₂, e') := by
    refine heapExpand_mapped hpages ?_ ?_ happ
    · show w32 (0xC0500000 + k * pageSize) ≤ 0xC1400000
      rw [w32_of_lt (by omega)]
      exact hmax
    · rw [Nat.mul_div_cancel _ hps]
      exact hmap
  obtain ⟨c, hc⟩ := grow_find [] bootBlock n (m := k * pageSize) hk
  obtain ⟨hf₂, hc0, -, -, -, -⟩ := H₂.serve (n := n) (by omega) (Nat.le_refl _) hc
  have hend : heapStartAddr + headerSize + (bootBlock.size + k * pageSize) =
    h₂.heapEnd := H₂.seg.2.2
  have hbase : heapStartAddr + headerSize + bootBlock.size = 0xC0500000 := rfl
  refine ⟨_, _, kmalloc_expanded (by omega) (by rw [hr]; exact hf) (by rw [hr]; exact hx)
    (by rw [hr]; exact hf₂) hc0, H₂.start_eq, ?_⟩
  show h₂.heapEnd = _
  omega

theorem sampleHeap_ok {p : Pmm} {n : Nat} (hres : p.Reserves sampleLayout)
    (ht : p.totalFrames ≤ 32784) (hr : reachable p = n + 256) : ∃ M₀ M₁,
    pagingInitLoad sampleLayout (bootStart sampleLayout (fun _ _ => 0) p) = some M₀ ∧
    kheapInit (vmEnv sampleLayout) M₀ (fun _ => 0#8) = some (true, initialHeap fun _ => 0#8, M₁) ∧
    MachInv sampleLayout [] M₁ ∧ reachable M₁.pmm = n ∧
    (∀ u, 0xC0400 ≤ u → u < 0xC1000 →
      isPresent (M₁.phys (pdFrame sampleLayout) (u / 1024)) = true) ∧
    M₁.phys (pdFrame sampleLayout) 772 = 2 := by
  obtain ⟨M₀, hload, htab, hcr3, hpm⟩ := pagingInitLoad_ok sampleLayout (fun _ _ => 0) p
  have hi : MachInv sampleLayout [] M₀ :=
    htab.inv hcr3 (by rw [hpm]; exact hres) (by rw [hpm]; exact ht)
  have hstatic : ∀ u, 0xC0400 ≤ u → u < 0xC1000 →
      isPresent (M₀.phys (pdFrame sampleLayout) (u / 1024)) = true := fun u h1 h2 => by
    rw [show u / 1024 = 768 + (u / 1024 - 768) by omega, hi.tables.static _ (by omega)]
    exact entry_present _
  obtain ⟨M₁, hmap, hi₁, hr₁, hs₁⟩ := hi.mapHeapPages_static (fun _ => 0#8) 256 heapStartAddr rfl
    (by decide) (by decide) (fun u h1 h2 => hstatic u h1
      (by unfold heapStartAddr pageSize at *; omega))
    (by rw [hpm]; omega)
  rw [hpm] at hr₁
  refine ⟨M₀, M₁, hload, ?_, hi₁, by omega, fun u h1 h2 => ?_, ?_⟩
  · unfold kheapInit
    rw [show initialHeapSize / pageSize = 256 by decide, hmap, Option.bind_eq_bind,
      Option.bind_some]
    rfl
  · rw [hs₁ _ (page_slot (by omega))]
    exact hstatic u h1 h2
  · rw [hs₁ _ (by omega)]
    exact htab.absent 772 ⟨by omega, by omega⟩

/-- **The heap grows over a hole**: with 2817 frames left, a request for 11 MB
takes 2816 of them for the pages up to `0xC1000000` and the last for the page
there, and no table is made for that page. -/
theorem heap_grows_over_hole : ∃ M₀ h₀ M₁ w,
    pagingInitLoad sampleLayout (bootStart sampleLayout (fun _ _ => 0)
      (pmmInit sampleLayout (fun _ => 0#8) tightMap)) = some M₀ ∧
    kheapInit (vmEnv sampleLayout) M₀ (fun _ => 0#8) = some (true, h₀, M₁) ∧
    kheapStep sampleLayout ⟨h₀, M₁⟩ (.kmalloc 0xB00000) = some w ∧
    w.HasPage 0xC1000 ∧ kmap sampleLayout w.mach.phys 0xC1000 = none ∧
    ¬ HeapBacked sampleLayout M₀ w := by
  obtain ⟨htot, hreach⟩ := tightPmm
  obtain ⟨M₀, M₁, hload, hinit, hi₁, hr₁, hstatic, habs⟩ := sampleHeap_ok (n := 2817)
    (pmmInit_reserves sampleLayout (fun _ => 0#8) tightMap) (by omega) hreach
  obtain ⟨M₂, hmap₂, hi₂, hr₂, hs₂⟩ := hi₁.mapHeapPages_static (initialHeap fun _ => 0#8).mem 2816
    0xC0500000 rfl (by decide) (by decide) (fun u h1 h2 =>
      hstatic u (by unfold pageSize at *; omega) (by unfold pageSize at *; omega)) (by omega)
  rw [← hs₂ _ (by omega)] at habs
  obtain ⟨p', hmap₃⟩ := hi₂.mapHeapPages_hole (initialHeap fun _ => 0#8).mem
    (show 0xC1000000 < 2 ^ 32 by omega)
    (by rw [show 0xC1000000 / pageSize / 1024 = 772 from rfl, habs]; rfl) (by omega)
  have hmap : mapHeapPages (vmEnv sampleLayout) M₁ (initialHeap fun _ => 0#8).mem 0xC0500000 2817 =
      some (true, M₂.withPmm p', (initialHeap fun _ => 0#8).mem) :=
    (mapHeapPages_add 1 2816 0xC0500000 hmap₂).trans hmap₃
  obtain ⟨p, h', hk, hstart, hend⟩ := initialHeap_grows 0xB00000 2817 (fun _ => 0#8) rfl (by decide)
    (by decide) (by decide) (by decide) hmap
  have hhole : kmap sampleLayout (M₂.withPmm p').phys 0xC1000 = none := by
    unfold kmap
    rw [walk_absent]
    · rfl
    · show isPresent (M₂.phys (pdFrame sampleLayout) 772) = false
      rw [habs]
      rfl
  have hpage : (HeapMach.mk h' (M₂.withPmm p')).HasPage 0xC1000 := by
    refine ⟨?_, ?_⟩
    · simp only [hstart]; decide
    · simp only [hend]; decide
  refine ⟨M₀, _, M₁, ⟨h', M₂.withPmm p'⟩, hload, hinit, ?_, hpage, hhole, fun hback => ?_⟩
  · show (kmalloc _ _ _ _).map _ = _
    rw [hk]
    rfl
  · obtain ⟨f, hf, -⟩ := hback.mapped 0xC1000 hpage
    rw [hhole] at hf
    cases hf

/-- The theorem at a request for 1 MB, for which the heap grows by 257 pages. -/
theorem heap_always_backed_grown : ∃ M₀ h₀ M₁ w,
    pagingInitLoad sampleLayout (bootStart sampleLayout (fun _ _ => 0)
      (pmmInit sampleLayout (fun _ => 0#8) tightMap)) = some M₀ ∧
    kheapInit (vmEnv sampleLayout) M₀ (fun _ => 0#8) = some (true, h₀, M₁) ∧
    kheapStep sampleLayout ⟨h₀, M₁⟩ (.kmalloc 0x100000) = some w ∧
    w.heap.heapEnd = 0xC0601000 ∧ HeapBacked sampleLayout M₀ w := by
  obtain ⟨htot, hreach⟩ := tightPmm
  obtain ⟨M₀, M₁, hload, hinit, hi₁, hr₁, hstatic, -⟩ := sampleHeap_ok (n := 2817)
    (pmmInit_reserves sampleLayout (fun _ => 0#8) tightMap) (by omega) hreach
  obtain ⟨M₂, hmap₂, -, -, -⟩ := hi₁.mapHeapPages_static (initialHeap fun _ => 0#8).mem 257
    0xC0500000 rfl (by decide) (by decide) (fun u h1 h2 =>
      hstatic u (by unfold pageSize at *; omega) (by unfold pageSize at *; omega)) (by omega)
  obtain ⟨p, h', hk, hstart, hend⟩ := initialHeap_grows 0x100000 257 (fun _ => 0#8) rfl (by decide)
    (by decide) (by decide) (by decide) hmap₂
  have hpages : growPages 0x100000 = 257 := by decide
  have hlo : (initialHeap fun _ => 0#8).heapEnd / pageSize = 0xC0500 := by
    rw [show (initialHeap fun _ => 0#8).heapEnd = 0xC0500000 from rfl]
    decide
  have hready : KHeapOp.Ready sampleLayout ⟨initialHeap fun _ => 0#8, M₁⟩ (.kmalloc 0x100000) := by
    refine .inr (.inr ⟨?_, .inr fun u h1 h2 _ => .inl ?_⟩)
    · show 0xC0500000 + growPages 0x100000 * pageSize < 2 ^ 32
      rw [hpages]
      decide
    · simp only [hlo, KHeapOp.request, hpages] at h1 h2
      exact hstatic u (by omega) (by omega)
  have hstep : kheapStep sampleLayout ⟨initialHeap fun _ => 0#8, M₁⟩ (.kmalloc 0x100000) =
      some ⟨h', M₂⟩ := by
    show (kmalloc _ _ _ _).map _ = _
    rw [hk]
    rfl
  exact ⟨M₀, _, M₁, ⟨h', M₂⟩, hload, hinit, hstep, hend,
    heap_always_backed (by omega) hload hinit (.cons hready hstep (.nil _))⟩

end TupleOS.Memory
