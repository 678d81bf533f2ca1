import TupleOS.Memory.VmRun

/-!
# Region lists

What the entry points of `vmm.c` do to the region lists and to the pool, whatever
happens on the machine: one inversion lemma per entry point
(`vmmMapRegion_cases`, `vmmUnmapRegion_cases`, `vmmCreateAddressSpace_cases`,
`vmmDestroyAddressSpace_cases`). From them, the lists stay separated as long as
no range is empty and none reaches 4 GB (`regions_never_overlap`). The overlap
test compares wrapped ends: a range that ends at 4 GB ends at `0` for it and
passes against everything, and an empty range passes at the base of another
(`top_page_twice`).
-/

namespace TupleOS.Memory

open TupleOS.Base TupleOS.Heap

/-! ## What a call does to the lists -/

section Cases

variable {L : Layout} {vm vm' : Vm} {s : SpaceRef} {r : Int} {p : Nat}

/-- The checks of `vmm_map_region` let the range pass. -/
structure MapAccepted (vm : Vm) (s : SpaceRef) (space : AddressSpace)
    (vaddr size : Nat) : Prop where
  live : vm.space s = some space
  base_aligned : vaddr % pageSize = 0
  size_aligned : size % pageSize = 0
  free : space.regions.any (overlaps vaddr size) = false

/-- `vmm_map_region` fails and only the machine has changed, or takes a slot of
the pool and inserts the region. -/
theorem vmmMapRegion_cases {vaddr size flags : Nat} {type : RegionType}
    (he : vmmMapRegion L vm s vaddr size flags type = some (r, vm')) :
    (r = -1 ∧ ∃ M, vm' = { vm with mach := M }) ∨
    ∃ space M, r = 0 ∧ MapAccepted vm s space vaddr size ∧ vm.regionPoolUsed < vmmMaxRegions ∧
      vm' = { vm with mach := M, regionPoolUsed := vm.regionPoolUsed + 1 }.setSpace s
        (insertRegion space ⟨vaddr, size, flags, type⟩) := by
  unfold vmmMapRegion at he
  split at he
  · cases he; exact .inl ⟨rfl, vm.mach, rfl⟩
  rename_i space hs
  split at he
  · cases he; exact .inl ⟨rfl, vm.mach, rfl⟩
  rename_i ha
  split at he
  · cases he; exact .inl ⟨rfl, vm.mach, rfl⟩
  rename_i hsz
  split at he
  · cases he; exact .inl ⟨rfl, vm.mach, rfl⟩
  rename_i hno
  obtain ⟨⟨ok, M⟩, -, he⟩ := Option.bind_eq_some_iff.mp he
  cases ok with
  | false => cases he; exact .inl ⟨rfl, M, rfl⟩
  | true =>
    simp only [↓reduceIte] at he
    split at he
    · obtain ⟨M', -, he⟩ := Option.bind_eq_some_iff.mp he
      cases he
      exact .inl ⟨rfl, M', rfl⟩
    · rename_i hpool
      cases he
      exact .inr ⟨space, M, rfl, ⟨hs, not_not.mp ha, not_not.mp hsz, Bool.eq_false_iff.mpr hno⟩,
        Nat.lt_of_not_le hpool, rfl⟩

theorem vmmUnmapRegion_cases {vaddr : Nat} (he : vmmUnmapRegion L vm s vaddr = some (r, vm')) :
    (r = -1 ∧ vm' = vm) ∨
    ∃ space region M, r = 0 ∧ vm.space s = some space ∧
      space.regions.find? (fun g => g.base = vaddr) = some region ∧
      vm' = { vm with mach := M }.setSpace s (removeRegion space vaddr) := by
  unfold vmmUnmapRegion at he
  split at he
  · cases he; exact .inl ⟨rfl, rfl⟩
  rename_i space hs
  split at he
  · cases he; exact .inl ⟨rfl, rfl⟩
  rename_i region hf
  split at he
  · cases he; exact .inl ⟨rfl, rfl⟩
  · obtain ⟨M, -, he⟩ := Option.bind_eq_some_iff.mp he
    cases he
    exact .inr ⟨space, region, M, rfl, hs, hf, rfl⟩

/-- `vmm_create_address_space` makes no space, or one with the kernel's regions
as far as the pool goes. -/
theorem vmmCreateAddressSpace_cases (he : vmmCreateAddressSpace L vm = some (p, vm')) :
    (p = 0 ∧ ∃ h M, vm' = { vm with heap := h, mach := M }) ∨
    ∃ h M dir, p ≠ 0 ∧ vm' = { vm with
      heap := h, mach := M,
      spaces := (p, (registerAll ⟨dir, [], 0⟩ vm.regionPoolUsed vm.kernelSpace.regions).1) ::
        vm.spaces,
      regionPoolUsed := (registerAll ⟨dir, [], 0⟩ vm.regionPoolUsed
        vm.kernelSpace.regions).2 } := by
  unfold vmmCreateAddressSpace at he
  obtain ⟨⟨q, h, M⟩, -, he⟩ := Option.bind_eq_some_iff.mp he
  simp only at he
  split at he
  · cases he; exact .inl ⟨rfl, h, M, rfl⟩
  rename_i hq
  obtain ⟨⟨dir, M'⟩, -, he⟩ := Option.bind_eq_some_iff.mp he
  simp only at he
  split at he
  · obtain ⟨h', -, he⟩ := Option.bind_eq_some_iff.mp he
    cases he
    exact .inl ⟨rfl, h', M', rfl⟩
  · cases he
    exact .inr ⟨h, M', dir, hq, rfl⟩

theorem vmmDestroyAddressSpace_cases (he : vmmDestroyAddressSpace L vm s = some vm') :
    vm' = vm ∨ ∃ q h M, s = .created q ∧
      vm' = { vm with heap := h, mach := M, spaces := vm.spaces.eraseP fun x => x.1 = q } := by
  cases s with
  | null => cases he; exact .inl rfl
  | kernel => cases he; exact .inl rfl
  | created q =>
    obtain ⟨space, -, he⟩ := Option.bind_eq_some_iff.mp he
    obtain ⟨M, -, he⟩ := Option.bind_eq_some_iff.mp he
    obtain ⟨h, -, he⟩ := Option.bind_eq_some_iff.mp he
    cases he
    exact .inr ⟨q, h, _, rfl, rfl⟩

end Cases

/-! ## Separated lists -/

/-- Address `a` lies in the region, taken as an interval of integers. -/
def Region.Holds (r : Region) (a : Nat) : Prop := r.base ≤ a ∧ a < r.base + r.size

/-- No two regions begin at one address or hold one address, and all end by 4 GB. -/
structure Separated (rs : List Region) : Prop where
  bases : rs.Pairwise fun r g => r.base ≠ g.base
  apart : rs.Pairwise fun r g => ∀ a, ¬ (r.Holds a ∧ g.Holds a)
  within : ∀ r ∈ rs, ∀ a, r.Holds a → a < 2 ^ 32

/-- One region ends before the other begins. -/
def Region.Clear (r g : Region) : Prop := r.base + r.size ≤ g.base ∨ g.base + g.size ≤ r.base

/-- Regions that are not empty, end below 4 GB and lie side by side. -/
structure Laid (rs : List Region) : Prop where
  proper : ∀ r ∈ rs, 0 < r.size ∧ r.base + r.size < 2 ^ 32
  clear : rs.Pairwise Region.Clear

section Laid

variable {L : Layout} {rs gs : List Region} {r : Region} {space : AddressSpace}

theorem Region.Clear.symm {r g : Region} (h : r.Clear g) : g.Clear r := Or.symm h

theorem Laid.separated (h : Laid rs) : Separated rs where
  bases := h.clear.imp_of_mem fun {r g} hr hg hc => by
    have h1 := (h.proper r hr).1
    have h2 := (h.proper g hg).1
    rcases hc with hc | hc <;> omega
  apart := h.clear.imp fun {r g} hc a ⟨h1, h2⟩ => by
    unfold Region.Holds at h1 h2
    rcases hc with hc | hc <;> omega
  within r hr a ha := by
    have := (h.proper r hr).2
    unfold Region.Holds at ha
    omega

theorem Laid.perm (h : Laid rs) (hp : gs.Perm rs) : Laid gs :=
  ⟨fun r hr => h.proper r (hp.mem_iff.mp hr),
    (hp.pairwise_iff fun hc => Region.Clear.symm hc).mpr h.clear⟩

theorem Laid.sublist (h : Laid rs) (hs : gs.Sublist rs) : Laid gs :=
  ⟨fun r hr => h.proper r (hs.mem hr), h.clear.sublist hs⟩

theorem eraseBase_sublist (base : Nat) : ∀ rs : List Region, (eraseBase base rs).Sublist rs
  | [] => .slnil
  | r :: rs => by
    rw [eraseBase]
    split
    · exact List.sublist_cons_self r rs
    · exact (eraseBase_sublist base rs).cons_cons r

/-- **The overlap test** is right about ranges that end below 4 GB. -/
theorem clear_of_overlaps {g : Region} (hr : r.base + r.size < 2 ^ 32)
    (hg : g.base + g.size < 2 ^ 32) (h : overlaps r.base r.size g = false) : r.Clear g := by
  unfold overlaps at h
  rw [w32_of_lt hr, w32_of_lt hg, Bool.and_eq_false_iff, decide_eq_false_iff_not,
    decide_eq_false_iff_not] at h
  unfold Region.Clear
  omega

theorem Laid.insert (h : Laid space.regions) (h0 : 0 < r.size) (hr : r.base + r.size < 2 ^ 32)
    (hno : space.regions.any (overlaps r.base r.size) = false) :
    Laid (insertRegion space r).regions := by
  have hcons : Laid (r :: space.regions) := by
    refine ⟨List.forall_mem_cons.mpr ⟨⟨h0, hr⟩, h.proper⟩, List.pairwise_cons.mpr ⟨?_, h.clear⟩⟩
    intro g hg
    exact clear_of_overlaps hr (h.proper g hg).2
      (Bool.eq_false_iff.mpr (List.any_eq_false.mp hno g hg))
  exact hcons.perm insertRegion_perm

theorem registerAll_sublist : ∀ (rs : List Region) (space : AddressSpace) (used : Nat),
    ∃ gs, gs.Sublist rs ∧ (registerAll space used rs).1.regions.Perm (gs ++ space.regions) ∧
      (registerAll space used rs).2 = used + gs.length
  | [], space, used => ⟨[], .slnil, .refl _, rfl⟩
  | r :: rs, space, used => by
    rw [registerAll]
    by_cases hu : vmmMaxRegions ≤ used
    · have hnone : registerExistingRegion space used r = (space, used) := if_pos hu
      rw [hnone]
      obtain ⟨gs, hs, hp, hn⟩ := registerAll_sublist rs space used
      exact ⟨gs, hs.cons r, hp, hn⟩
    · have hone : registerExistingRegion space used r = (insertRegion space r, used + 1) :=
        if_neg hu
      rw [hone]
      obtain ⟨gs, hs, hp, hn⟩ := registerAll_sublist rs (insertRegion space r) (used + 1)
      refine ⟨r :: gs, hs.cons_cons r, ?_, ?_⟩
      · exact (hp.trans (insertRegion_perm.append_left gs)).trans List.perm_middle
      · rw [hn, List.length_cons]
        omega

theorem Laid.registerAll (h : Laid rs) (dir used : Nat) :
    Laid (Memory.registerAll ⟨dir, [], 0⟩ used rs).1.regions := by
  obtain ⟨gs, hs, hp, -⟩ := registerAll_sublist rs ⟨dir, [], 0⟩ used
  rw [List.append_nil] at hp
  exact (h.sublist hs).perm hp

theorem kernelRegions_stacked (L : Layout) :
    (∀ r ∈ kernelRegions L, 0 < r.size ∧ r.base + r.size < 2 ^ 32) ∧
      (kernelRegions L).Pairwise fun r g => r.base + r.size ≤ g.base := by
  obtain ⟨h1, h2, h3, -⟩ := kernelEnd_page L
  have h4 := L.pageDirectory_ge
  have h5 := L.pageDirectory_le
  have hps : 0 < pageSize := by decide
  unfold kernelRegions
  simp only
  rw [sub32_of_le (by omega) (by omega)]
  generalize roundUp pageSize L.kernelEnd = kend at *
  split
  · rw [sub32_of_le (by omega) (by omega)]
    simp only [List.cons_append, List.nil_append, List.pairwise_cons, List.mem_cons,
      List.not_mem_nil, or_false, forall_eq_or_imp, forall_eq, List.Pairwise.nil, and_true,
      false_implies, implies_true]
    omega
  · simp only [List.cons_append, List.nil_append, List.pairwise_cons, List.mem_cons,
      List.not_mem_nil, or_false, forall_eq_or_imp, forall_eq, List.Pairwise.nil, and_true,
      false_implies, implies_true]
    omega

theorem kernelRegions_laid (L : Layout) : Laid (kernelRegions L) :=
  ⟨(kernelRegions_stacked L).1, (kernelRegions_stacked L).2.imp .inl⟩

end Laid

/-! ## Runs -/

/-- The call is one of those that edit region lists. -/
def VmOp.EditsRegions : VmOp → Prop
  | .create | .map .. | .unmap .. | .destroy _ => True
  | _ => False

/-- A range to map is not empty and ends below 4 GB. -/
def VmOp.EndsBelow : VmOp → Prop
  | .map _ vaddr size _ _ => 0 < size ∧ vaddr + size < 2 ^ 32
  | _ => True

def RegionGuard (vm : Vm) (op : VmOp) : Prop := op.Valid vm ∧ op.EditsRegions ∧ op.EndsBelow

/-- The regions of every space are laid out side by side. -/
structure ListsLaid (vm : Vm) : Prop where
  kernel : Laid vm.kernelSpace.regions
  spaces : ∀ q ∈ vm.spaces, Laid q.2.regions

section Runs

variable {L : Layout} {vm vm' : Vm} {op : VmOp} {s : SpaceRef} {space : AddressSpace}

theorem ListsLaid.regions (h : ListsLaid vm) (hs : vm.space s = some space) :
    Laid space.regions := by
  cases s with
  | null => cases hs
  | kernel => cases hs; exact h.kernel
  | created p =>
    obtain ⟨l₁, l₂, heq, -⟩ :=
      List.lookup_eq_some_iff.mp (show vm.spaces.lookup p = some space from hs)
    exact h.spaces (p, space) (by rw [heq]; exact List.mem_append_right _ List.mem_cons_self)

theorem ListsLaid.setSpace (h : ListsLaid vm) (hs : Laid space.regions) :
    ListsLaid (vm.setSpace s space) := by
  cases s with
  | null => exact h
  | kernel => exact ⟨hs, h.spaces⟩
  | created p =>
    refine ⟨h.kernel, fun q hq => ?_⟩
    rcases mem_setCreated hq with rfl | hq
    · exact hs
    · exact h.spaces q hq

/-- One call keeps the lists laid out. -/
theorem ListsLaid.step (h : ListsLaid vm) (hg : RegionGuard vm op)
    (he : vmStep L vm op = some vm') : ListsLaid vm' := by
  obtain ⟨r, he⟩ := vmStep_some he
  obtain ⟨-, hop, hend⟩ := hg
  cases op with
  | create =>
    obtain ⟨⟨p, vm₁⟩, hc, he⟩ := Option.map_eq_some_iff.mp he
    cases he
    rcases vmmCreateAddressSpace_cases hc with ⟨-, heap, M, rfl⟩ | ⟨heap, M, dir, -, rfl⟩
    · exact ⟨h.kernel, h.spaces⟩
    · exact ⟨h.kernel, List.forall_mem_cons.mpr ⟨h.kernel.registerAll dir _, h.spaces⟩⟩
  | map s vaddr size flags type =>
    rcases vmmMapRegion_cases he with ⟨-, M, rfl⟩ | ⟨space, M, -, hacc, -, rfl⟩
    · exact ⟨h.kernel, h.spaces⟩
    · refine ListsLaid.setSpace ⟨h.kernel, h.spaces⟩ ?_
      exact (h.regions hacc.live).insert (r := ⟨vaddr, size, flags, type⟩) hend.1 hend.2 hacc.free
  | unmap s vaddr =>
    rcases vmmUnmapRegion_cases he with ⟨-, rfl⟩ | ⟨space, region, M, -, hs, -, rfl⟩
    · exact h
    · refine ListsLaid.setSpace ⟨h.kernel, h.spaces⟩ ?_
      exact (h.regions hs).sublist (eraseBase_sublist vaddr _)
  | destroy s =>
    obtain ⟨vm₁, hd, he⟩ := Option.map_eq_some_iff.mp he
    cases he
    rcases vmmDestroyAddressSpace_cases hd with rfl | ⟨q, heap, M, -, rfl⟩
    · exact h
    · exact ⟨h.kernel, fun x hx => h.spaces x (List.mem_of_mem_eraseP hx)⟩
  | kmalloc size => exact hop.elim
  | kfree p => exact hop.elim
  | mapPage v p flags => exact hop.elim
  | unmapPage v => exact hop.elim

/-- **The regions of a space never overlap** in a run from `vmm_init` whose ranges
are not empty and end below 4 GB. -/
theorem regions_never_overlap {m : Machine} {h : KHeap} {ops : List VmOp}
    (hrun : Run (vmStep L) RegionGuard (vmmInit L m h) ops vm) (hs : vm.space s = some space) :
    Separated space.regions := by
  obtain ⟨-, hregs, -⟩ := vmmInit_lists L m h
  have hsp : (vmmInit L m h).spaces = [] := rfl
  have h₀ : ListsLaid (vmmInit L m h) := ⟨(kernelRegions_laid L).perm hregs, by rw [hsp]; nofun⟩
  exact ((hrun.invariant ListsLaid (fun h hg he => h.step hg he) h₀).regions hs).separated

theorem bootVm_init {phys : Phys} {bitmap : Bitmap} {bytes : Bytes}
    {mmap : Option (List MmapEntry)} (hb : bootVm L phys bitmap bytes mmap = some vm) :
    ∃ m h, vm = vmmInit L m h := by
  unfold bootVm at hb
  obtain ⟨M, -, hb⟩ := Option.bind_eq_some_iff.mp hb
  obtain ⟨⟨ok, heap, M'⟩, -, hb⟩ := Option.bind_eq_some_iff.mp hb
  cases ok with
  | false => cases hb
  | true => cases hb; exact ⟨M', heap, rfl⟩

/-- The theorem at a boot and one page mapped for the kernel. -/
theorem regions_never_overlap_first : ∃ vm₀ vm₁, sampleBootVm = some vm₀ ∧
    vmStep sampleLayout vm₀ mapPageAtD0 = some vm₁ ∧ Separated vm₁.kernelSpace.regions := by
  obtain ⟨vm₀, M, hvm, hb, hlow, hreach⟩ := sampleBootVm_ok
  have hpool : vm₀.regionPoolUsed < vmmMaxRegions := by
    have := kernelRegions_length sampleLayout
    rw [hb.pool]
    unfold vmmMaxRegions
    omega
  obtain ⟨vm₁, he⟩ := hb.inv.onePage_succeeds (s := .kernel) 0xD0000000 (vmmRead ||| vmmWrite)
    .kernelData rfl hb.regions rfl (by omega) (.inr (by omega)) (by omega) (by omega) hpool
  have hg : RegionGuard vm₀ mapPageAtD0 := ⟨mapPageAtD0_valid vm₀, trivial, by decide, by decide⟩
  have hstep : vmStep sampleLayout vm₀ mapPageAtD0 = some vm₁ := vmStep_of_call he
  obtain ⟨m, h, rfl⟩ := bootVm_init hvm
  exact ⟨_, vm₁, hvm, hstep, regions_never_overlap (s := .kernel) (.cons hg hstep (.nil vm₁)) rfl⟩

end Runs

/-! ## Ranges that the overlap test lets through -/

section Twice

variable {L : Layout} {vm : Vm}

theorem not_separated_twice {r : Region} {rs gs : List Region} (hp : rs.Perm (r :: r :: gs)) :
    ¬ Separated rs := by
  intro h
  have hb := (hp.pairwise_iff fun hne => Ne.symm hne).mp h.bases
  exact (List.pairwise_cons.mp hb).1 r List.mem_cons_self rfl

/-- A range that does not overlap itself, by the test, is mapped twice. -/
theorem MachInv.maps_twice (h : MachInv L vm.dirs vm.mach) (vaddr size flags : Nat)
    (type : RegionType) (ha : vaddr % pageSize = 0) (hsz : size % pageSize = 0)
    (hno : vm.kernelSpace.regions.any (overlaps vaddr size) = false)
    (hself : overlaps vaddr size ⟨vaddr, size, flags, type⟩ = false)
    (hrange : PageRange vaddr 0 (size / pageSize))
    (hlow : 4 * (size / pageSize) ≤ lowFree vm.mach.pmm)
    (hr : 4 * (size / pageSize) < reachable vm.mach.pmm)
    (hp : vm.regionPoolUsed + 1 < vmmMaxRegions) :
    ∃ vm₁ vm₂, vmStep L vm (.map .kernel vaddr size flags type) = some vm₁ ∧
      vmStep L vm₁ (.map .kernel vaddr size flags type) = some vm₂ ∧
      vm₂.kernelSpace.regions.Perm (⟨vaddr, size, flags, type⟩ :: ⟨vaddr, size, flags, type⟩ ::
        vm.kernelSpace.regions) := by
  obtain ⟨M₁, e₁, he₁⟩ := h.mapRegion_succeeds flags type
    (show vm.space .kernel = _ from rfl) ha hsz hno hrange (.of_twice (by omega)) (by omega)
    (by omega)
  have hlow₁ := e₁.low rfl
  have hr₁ := e₁.reach rfl
  obtain ⟨vm₁, hvm₁⟩ : ∃ v, v = Vm.setSpace
      { vm with mach := M₁, regionPoolUsed := vm.regionPoolUsed + 1 } .kernel
      (insertRegion vm.kernelSpace ⟨vaddr, size, flags, type⟩) := ⟨_, rfl⟩
  rw [← hvm₁] at he₁
  have hm₁ : vm₁.mach = M₁ := by rw [hvm₁]; rfl
  have hp₁ : vm₁.regionPoolUsed = vm.regionPoolUsed + 1 := by rw [hvm₁]; rfl
  have hk₁ : vm₁.kernelSpace.regions.Perm
    (⟨vaddr, size, flags, type⟩ :: vm.kernelSpace.regions) := by
    rw [hvm₁]; exact insertRegion_perm
  have hno₁ : vm₁.kernelSpace.regions.any (overlaps vaddr size) = false := by
    rw [hk₁.any_eq, List.any_cons, hself, hno]
    rfl
  have h₁ : MachInv L vm₁.dirs vm₁.mach := by
    rw [hm₁, show vm₁.dirs = vm.dirs by rw [hvm₁]; rfl]
    exact e₁.inv
  rw [← hm₁] at hlow₁ hr₁
  obtain ⟨M₂, -, he₂⟩ := h₁.mapRegion_succeeds flags type
    (show vm₁.space .kernel = _ from rfl) ha hsz hno₁ hrange (.of_twice (by omega)) (by omega)
    (by omega)
  refine ⟨vm₁, _, vmStep_of_call he₁, vmStep_of_call he₂, ?_⟩
  exact insertRegion_perm.trans (hk₁.cons _)

end Twice

/-- The last page of the address space. -/
def mapTop : VmOp := .map .kernel 0xFFFFF000 4096 (vmmRead ||| vmmWrite) .userData

def mapEmpty : VmOp := .map .kernel 0xD0000000 0 (vmmRead ||| vmmWrite) .userData

/-- **The last page is mapped twice**, and so is an empty range: after either
pair of calls the kernel's space has one region twice. -/
theorem top_page_twice : ∃ vm₀ vm₁ vm₂ vm₃ vm₄, sampleBootVm = some vm₀ ∧
    (mapTop.Valid vm₀ ∧ vmStep sampleLayout vm₀ mapTop = some vm₁ ∧
      mapTop.Valid vm₁ ∧ vmStep sampleLayout vm₁ mapTop = some vm₂ ∧
      ¬ vm₂.kernelSpace.regions.Pairwise (fun r g => ∀ a, ¬ (r.Holds a ∧ g.Holds a))) ∧
    mapEmpty.Valid vm₀ ∧ vmStep sampleLayout vm₀ mapEmpty = some vm₃ ∧
    mapEmpty.Valid vm₃ ∧ vmStep sampleLayout vm₃ mapEmpty = some vm₄ ∧
    ¬ Separated vm₂.kernelSpace.regions ∧ ¬ Separated vm₄.kernelSpace.regions := by
  obtain ⟨vm₀, M, hvm, hb, hlow, hreach⟩ := sampleBootVm_ok
  have hpool : vm₀.regionPoolUsed + 1 < vmmMaxRegions := by
    have := kernelRegions_length sampleLayout
    rw [hb.pool]
    unfold vmmMaxRegions
    omega
  have hvalid : ∀ {vm : Vm} {op : VmOp}, op = mapTop ∨ op = mapEmpty → op.Valid vm := by
    rintro vm op (rfl | rfl)
    · exact ⟨.inr ⟨_, rfl⟩, by decide, by decide, by decide⟩
    · exact ⟨.inr ⟨_, rfl⟩, by decide, by decide, by decide⟩
  -- the wrapped end of the last page is `0`, and no base is below that
  have htop : ∀ g, overlaps 0xFFFFF000 4096 g = false := fun g => by
    rw [overlaps, show w32 (0xFFFFF000 + 4096) = 0 by decide, Bool.and_eq_false_iff]
    exact .inr (decide_eq_false (Nat.not_lt_zero _))
  have hone : 4096 / pageSize = 1 := rfl
  have hpage : 0xFFFFF000 / pageSize = 0xFFFFF := rfl
  have hzero : 0 / pageSize = 0 := rfl
  obtain ⟨vm₁, vm₂, he₁, he₂, hp₂⟩ := hb.inv.mach.maps_twice 0xFFFFF000 4096 (vmmRead ||| vmmWrite)
    .userData rfl rfl (List.any_eq_false.mpr fun g _ => by rw [htop]; exact Bool.false_ne_true)
    (htop _) ⟨rfl, Nat.le_refl _, fun k _ hk => ⟨by omega, .inr (by omega)⟩⟩ (by omega)
    (by omega) hpool
  obtain ⟨vm₃, vm₄, he₃, he₄, hp₄⟩ := hb.inv.mach.maps_twice 0xD0000000 0 (vmmRead ||| vmmWrite)
    .userData rfl rfl (List.any_eq_false.mpr fun g hg => by
      rw [kernelRegion_apart (hb.regions.mem_iff.mp hg) (by omega) (.inr (by omega))]
      exact Bool.false_ne_true) rfl
    ⟨rfl, by decide, fun k _ hk => by omega⟩ (Nat.zero_le _) (by omega) hpool
  refine ⟨vm₀, vm₁, vm₂, vm₃, vm₄, hvm, ⟨hvalid (.inl rfl), he₁, hvalid (.inl rfl), he₂, ?_⟩,
    hvalid (.inr rfl), he₃, hvalid (.inr rfl), he₄, not_separated_twice hp₂,
    not_separated_twice hp₄⟩
  intro hapart
  have hperm := (hp₂.pairwise_iff fun h a hh => h a ⟨hh.2, hh.1⟩).mp hapart
  have hin : Region.Holds ⟨0xFFFFF000, 4096, vmmRead ||| vmmWrite, .userData⟩ 0xFFFFF000 :=
    ⟨Nat.le_refl _, Nat.lt_add_of_pos_right (by decide)⟩
  exact (List.pairwise_cons.mp hperm).1 _ List.mem_cons_self 0xFFFFF000 ⟨hin, hin⟩

end TupleOS.Memory
