import TupleOS.Memory.RegionLists

/-!
# The order of a region list (`kernel/vmm.c`)

`insert_region` keeps a list with distinct bases ascending (`Ascending.insert`), and
puts a region with the highest base at its end. So registering the regions of an
ascending list one by one copies it, as long as the pool has slots for them
(`registerAll_copies`).
-/

namespace TupleOS.Memory

open TupleOS.Base TupleOS.Heap

/-- Each region begins above the one before. -/
abbrev Ascending (rs : List Region) : Prop := rs.Pairwise fun r g => r.base < g.base

section Insert

variable {space : AddressSpace} {rs acc : List Region} {r first : Region}

theorem insertAfter_ascending : ∀ {rs : List Region} {first : Region},
    Ascending (first :: rs) → first.base < r.base → (∀ g ∈ rs, g.base ≠ r.base) →
      Ascending (insertAfter r (first :: rs))
  | [], first, _, hlt, _ => by
    refine List.pairwise_cons.mpr ⟨fun g hg => ?_, List.pairwise_singleton ..⟩
    rwa [List.mem_singleton.mp hg]
  | next :: rest, first, h, hlt, hne => by
    obtain ⟨hfirst, hrest⟩ := List.pairwise_cons.mp h
    rw [insertAfter]
    by_cases hnext : next.base < r.base
    · rw [if_pos hnext]
      have hih := insertAfter_ascending hrest hnext fun g hg => hne g (List.mem_cons_of_mem _ hg)
      refine List.pairwise_cons.mpr ⟨fun g hg => ?_, hih⟩
      rcases List.mem_cons.mp ((insertAfter_perm (List.cons_ne_nil _ _)).mem_iff.mp hg)
        with rfl | hg
      · exact hlt
      · exact hfirst g hg
    · rw [if_neg hnext]
      have hbelow : r.base < next.base := by
        have := hne next List.mem_cons_self
        omega
      refine List.pairwise_cons.mpr ⟨List.forall_mem_cons.mpr ⟨hlt, hfirst⟩,
        List.pairwise_cons.mpr ⟨List.forall_mem_cons.mpr ⟨hbelow, fun g hg => ?_⟩, hrest⟩⟩
      exact Nat.lt_trans hbelow ((List.pairwise_cons.mp hrest).1 g hg)

/-- **`insert_region`** keeps a list with distinct bases ascending. -/
theorem Ascending.insert (h : Ascending space.regions)
    (hne : ∀ g ∈ space.regions, g.base ≠ r.base) : Ascending (insertRegion space r).regions := by
  unfold insertRegion
  cases hrs : space.regions with
  | nil => exact List.pairwise_singleton ..
  | cons first rest =>
    rw [hrs] at h hne
    simp only
    by_cases hlt : r.base < first.base
    · rw [if_pos hlt]
      refine List.pairwise_cons.mpr ⟨List.forall_mem_cons.mpr ⟨hlt, fun g hg => ?_⟩, h⟩
      exact Nat.lt_trans hlt ((List.pairwise_cons.mp h).1 g hg)
    · rw [if_neg hlt]
      have := hne first List.mem_cons_self
      exact insertAfter_ascending h (by omega) fun g hg => hne g (List.mem_cons_of_mem _ hg)

theorem insertAfter_last : ∀ {rs : List Region}, rs ≠ [] → (∀ g ∈ rs, g.base < r.base) →
    insertAfter r rs = rs ++ [r]
  | [], h, _ => absurd rfl h
  | [first], _, _ => rfl
  | first :: next :: rest, _, h => by
    rw [insertAfter, if_pos (h next (by simp)), insertAfter_last (List.cons_ne_nil _ _)
      fun g hg => h g (List.mem_cons_of_mem _ hg)]
    rfl

theorem insertRegion_last (h : ∀ g ∈ space.regions, g.base < r.base) :
    insertRegion space r = { space with
      regions := space.regions ++ [r], regionCount := w32 (space.regionCount + 1) } := by
  unfold insertRegion
  cases hrs : space.regions with
  | nil => rfl
  | cons first rest =>
    rw [hrs] at h
    have hfirst := h first List.mem_cons_self
    simp only
    rw [if_neg (by omega), insertAfter_last (List.cons_ne_nil _ _) h]

/-- **Registering the regions of an ascending list** behind others copies it. -/
theorem registerAll_append (dir : Nat) : ∀ (rs acc : List Region) (count used : Nat),
    Ascending (acc ++ rs) → used + rs.length ≤ vmmMaxRegions → count + rs.length < 2 ^ 32 →
      registerAll ⟨dir, acc, count⟩ used rs =
        (⟨dir, acc ++ rs, count + rs.length⟩, used + rs.length)
  | [], acc, count, used, _, _, _ => by simp [registerAll]
  | r :: rs, acc, count, used, h, hpool, hcount => by
    rw [List.length_cons] at hpool hcount
    have hlast : ∀ g ∈ acc, g.base < r.base := fun g hg =>
      (List.pairwise_append.mp h).2.2 g hg r List.mem_cons_self
    have hone : registerExistingRegion ⟨dir, acc, count⟩ used r =
        (⟨dir, acc ++ [r], count + 1⟩, used + 1) := by
      rw [registerExistingRegion, if_neg (by omega), insertRegion_last hlast]
      simp only
      rw [w32_of_lt (by omega)]
    rw [registerAll, hone]
    simp only
    rw [registerAll_append dir rs (acc ++ [r]) (count + 1) (used + 1) (by simpa using h) (by omega)
      (by omega), List.append_assoc, List.length_cons]
    simp only [List.cons_append, List.nil_append, Prod.mk.injEq, AddressSpace.mk.injEq, true_and]
    omega

theorem registerAll_copies (dir : Nat) {used : Nat} (h : Ascending rs)
    (hpool : used + rs.length ≤ vmmMaxRegions) :
    registerAll ⟨dir, [], 0⟩ used rs = (⟨dir, rs, rs.length⟩, used + rs.length) := by
  have := registerAll_append dir rs [] 0 used h hpool (by unfold vmmMaxRegions at hpool; omega)
  rwa [List.nil_append, Nat.zero_add] at this

end Insert

/-! ## The kernel's list -/

/-- Regions side by side, in the order of their bases. -/
structure InOrder (rs : List Region) : Prop where
  laid : Laid rs
  ascending : Ascending rs

section Kernel

variable {L : Layout} {vm vm' : Vm} {op : VmOp} {space : AddressSpace} {r : Region}

theorem kernelRegions_inOrder (L : Layout) : InOrder (kernelRegions L) := by
  obtain ⟨hproper, hstacked⟩ := kernelRegions_stacked L
  refine ⟨kernelRegions_laid L, hstacked.imp_of_mem fun {r g} hr _ hle => ?_⟩
  have hsize := (hproper r hr).1
  omega

theorem InOrder.insert (h : InOrder space.regions) (h0 : 0 < r.size) (hr : r.base + r.size < 2 ^ 32)
    (hno : space.regions.any (overlaps r.base r.size) = false) :
    InOrder (insertRegion space r).regions := by
  refine ⟨h.laid.insert h0 hr hno, h.ascending.insert fun g hg heq => ?_⟩
  have hclear := clear_of_overlaps hr (h.laid.proper g hg).2
    (Bool.eq_false_iff.mpr (List.any_eq_false.mp hno g hg))
  have hsize := (h.laid.proper g hg).1
  rcases hclear with hc | hc <;> omega

theorem InOrder.sublist {rs gs : List Region} (h : InOrder rs) (hs : gs.Sublist rs) : InOrder gs :=
  ⟨h.laid.sublist hs, h.ascending.sublist hs⟩

/-- One call keeps the kernel's list in order. -/
theorem InOrder.step (h : InOrder vm.kernelSpace.regions) (hend : op.EndsBelow)
    (he : vmStep L vm op = some vm') : InOrder vm'.kernelSpace.regions := by
  obtain ⟨r, he⟩ := vmStep_some he
  cases op with
  | create =>
    obtain ⟨⟨p, vm₁⟩, hc, he⟩ := Option.map_eq_some_iff.mp he
    cases he
    rcases vmmCreateAddressSpace_cases hc with ⟨-, heap, M, rfl⟩ | ⟨heap, M, dir, -, rfl⟩
    · exact h
    · exact h
  | map s vaddr size flags type =>
    rcases vmmMapRegion_cases he with ⟨-, M, rfl⟩ | ⟨space, M, -, hacc, -, rfl⟩
    · exact h
    · cases s with
      | null => exact h
      | created p => exact h
      | kernel =>
        obtain rfl : vm.kernelSpace = space := Option.some.inj hacc.live
        exact h.insert (r := ⟨vaddr, size, flags, type⟩) hend.1 hend.2 hacc.free
  | unmap s vaddr =>
    rcases vmmUnmapRegion_cases he with ⟨-, rfl⟩ | ⟨space, region, M, -, hs, -, rfl⟩
    · exact h
    · cases s with
      | null => exact h
      | created p => exact h
      | kernel =>
        obtain rfl : vm.kernelSpace = space := Option.some.inj hs
        exact h.sublist (eraseBase_sublist vaddr _)
  | destroy s =>
    obtain ⟨vm₁, hd, he⟩ := Option.map_eq_some_iff.mp he
    cases he
    rcases vmmDestroyAddressSpace_cases hd with rfl | ⟨q, heap, M, -, rfl⟩
    · exact h
    · exact h
  | kmalloc size =>
    obtain ⟨r, -, he⟩ := Option.map_eq_some_iff.mp he
    cases he
    exact h
  | kfree p =>
    obtain ⟨r, -, he⟩ := Option.map_eq_some_iff.mp he
    cases he
    exact h
  | mapPage v p flags =>
    obtain ⟨r, -, he⟩ := Option.map_eq_some_iff.mp he
    cases he
    exact h
  | unmapPage v =>
    obtain ⟨r, -, he⟩ := Option.map_eq_some_iff.mp he
    cases he
    exact h

theorem vmmInit_inOrder (L : Layout) (M : Machine) (heap : KHeap) :
    InOrder (vmmInit L M heap).kernelSpace.regions := by
  have h := kernelRegions_inOrder L
  have hlen := kernelRegions_length L
  unfold vmmInit
  rw [registerAll_copies _ h.ascending (by unfold vmmMaxRegions; omega)]
  exact h

end Kernel

end TupleOS.Memory
