import TupleOS.Memory.MapLoop
import TupleOS.Memory.RegionLists

/-!
# What `vmm_map_region` leaves

A call that returns `-1` has given back the frames of its pages, but not those of
the tables it made, and it leaves its pages unmapped whatever they were before. So
it leaves no trace exactly when every page it reached was unmapped under a table
that was there (`failed_map_no_trace`). A call goes through, up to a result, if
there is a frame in the direct window for each table it has to make; where there
is a frame for a page and none for its table, `paging_map_page` only prints a
message and zeroing the page faults (`map_completes_iff`).
-/

namespace TupleOS.Memory

open TupleOS.Base TupleOS.Heap

/-! ## Accepted calls -/

section Accepted

variable {L : Layout} {vm vm' : Vm} {s : SpaceRef} {space : AddressSpace}
  {vaddr size flags : Nat} {type : RegionType}

theorem accepted_of_not_refused (h : ¬ MapRefused vm s vaddr size) :
    ∃ space, MapAccepted vm s space vaddr size := by
  unfold MapRefused at h
  simp only [not_forall, not_or, not_not, Bool.not_eq_true, ne_eq] at h
  obtain ⟨space, hs, ha, hsz, hno⟩ := h
  exact ⟨space, hs, ha, hsz, hno⟩

theorem MapAccepted.not_refused (h : MapAccepted vm s space vaddr size) :
    ¬ MapRefused vm s vaddr size := fun href => by
  rcases href space h.live with h1 | h1 | h1
  · exact h1 h.base_aligned
  · exact h1 h.size_aligned
  · exact Bool.false_ne_true (h.free.symm.trans h1)

theorem vmmMapRegion_accepted (L : Layout) (flags : Nat) (type : RegionType)
    (h : MapAccepted vm s space vaddr size) :
    vmmMapRegion L vm s vaddr size flags type =
      (mapPages L vm.mach vaddr (vmmFlagsToPageFlags flags) 0 (size / pageSize)).bind fun r =>
        if r.1 then
          if vmmMaxRegions ≤ vm.regionPoolUsed then
            (undoPages L r.2 vaddr 0 (size / pageSize)).bind fun m =>
              some (-1, { vm with mach := m })
          else some (0, { vm with mach := r.2, regionPoolUsed := vm.regionPoolUsed + 1 }.setSpace s
            (insertRegion space ⟨vaddr, size, flags, type⟩))
        else some (-1, { vm with mach := r.2 }) := by
  unfold vmmMapRegion
  rw [h.live]
  simp only [h.base_aligned, h.size_aligned, h.free, ne_eq, not_true_eq_false, ↓reduceIte,
    Bool.false_eq_true]
  rfl

theorem pages_le (hsize : size < 2 ^ 32) : size / pageSize ≤ 2 ^ 20 := by
  unfold pageSize
  omega

variable {n : Nat}

/-- **What an accepted call does**, when the tables it needs can be made: it maps every
page, or it rolls back the pages it has mapped. -/
theorem map_accepted_cases (flags : Nat) (type : RegionType) (h : Tabled L vm.mach)
    (hacc : MapAccepted vm s space vaddr size)
    (hn : n ≤ 2 ^ 20) (hoff : ∀ k < n, OffTables L vm.mach.phys (pageNo vaddr k))
    (hlt : ∀ k < size / pageSize, pageFrame L vm.mach vaddr k ≠ 0 → k < n)
    (hserved : ∀ k < size / pageSize, pageFrame L vm.mach vaddr k ≠ 0 →
      TableServed L vm.mach vaddr n k) :
    (∃ M₁, PagesIn L vm.mach vaddr (vmmFlagsToPageFlags flags) n (size / pageSize) M₁ ∧
      vmmMapRegion L vm s vaddr size flags type =
        some (0, { vm with mach := M₁, regionPoolUsed := vm.regionPoolUsed + 1 }.setSpace s
          (insertRegion space ⟨vaddr, size, flags, type⟩))) ∨
    ∃ j M₁ M', j ≤ size / pageSize ∧ (j < size / pageSize → pageFrame L vm.mach vaddr j = 0) ∧
      PagesIn L vm.mach vaddr (vmmFlagsToPageFlags flags) n j M₁ ∧
      Undone L vm.mach M₁ vaddr j M' ∧
      vmmMapRegion L vm s vaddr size flags type = some (-1, { vm with mach := M' }) := by
  have hal := hacc.base_aligned
  -- the pages of the loop are served, so they are among the first `n`
  have hle : ∀ {j M₁}, PagesIn L vm.mach vaddr (vmmFlagsToPageFlags flags) n j M₁ →
      j ≤ size / pageSize → j ≤ n := by
    intro j M₁ h₁ hj
    cases j with
    | zero => exact Nat.zero_le n
    | succ j => exact hlt j (by omega) (h₁.served j (Nat.lt_succ_self j))
  rw [vmmMapRegion_accepted _ _ _ hacc]
  rcases (PagesIn.start (vmmFlagsToPageFlags flags) h hoff).mapPages h hal hn
      (c := size / pageSize) (by rwa [Nat.zero_add]) (by rwa [Nat.zero_add]) with
    ⟨M₁, he, h₁⟩ | ⟨j, M₁, hj, h₁, h0, he⟩
  · rw [Nat.zero_add] at h₁
    rw [he, Option.bind_some, if_pos rfl]
    by_cases hpool : vmmMaxRegions ≤ vm.regionPoolUsed
    · obtain ⟨M', hu, u⟩ := h₁.undo h hal hn (hle h₁ (Nat.le_refl _))
      refine .inr ⟨_, M₁, M', Nat.le_refl _, fun hlt => absurd hlt (Nat.lt_irrefl _), h₁, u, ?_⟩
      rw [if_pos hpool, hu]
      rfl
    · rw [if_neg hpool]
      exact .inl ⟨M₁, h₁, rfl⟩
  · rw [Nat.zero_add] at hj
    obtain ⟨M', hu, u⟩ := h₁.undo h hal hn (hle h₁ (Nat.le_of_lt hj))
    refine .inr ⟨j, M₁, M', Nat.le_of_lt hj, fun _ => h0, h₁, u, ?_⟩
    rw [he, hu]
    rfl

end Accepted

/-! ## Calls that fail -/

/-- The regions and their count, every translation and the free frames are as before. -/
structure NoTrace (vm vm' : Vm) : Prop where
  kernel : vm'.kernelSpace = vm.kernelSpace
  spaces : vm'.spaces = vm.spaces
  translations : ∀ s a, vm.space s = some a → ∀ u < 2 ^ 20, a.translate vm' u = a.translate vm u
  frames : ∀ g, vm'.mach.pmm.Free g ↔ vm.mach.pmm.Free g

/-- Each of the first `n` pages that there is a frame for is unmapped, under a table
that is there. -/
def Untouched (L : Layout) (M : Machine) (vaddr n : Nat) : Prop :=
  ∀ k < n, frameAfter M.pmm k ≠ 0 → isPresent (pdeAt L M.phys (pageNo vaddr k)) = true ∧
    walk M.phys (pdFrame L) (pageNo vaddr k) = none

section Failed

variable {L : Layout} {vm vm' : Vm} {M₁ M' : Machine} {s : SpaceRef} {space : AddressSpace}
  {vaddr size flags pf n j k : Nat} {type : RegionType}

theorem VmInv.created_walk {d u : Nat} (h : VmInv L vm) (hd : d ∈ vm.dirs) (hu : u < 2 ^ 20)
    (hdir : M'.phys d = vm.mach.phys d)
    (hslots : ∀ s, isPresent (vm.mach.phys (pdFrame L) s) = true →
      M'.phys (pdFrame L) s = vm.mach.phys (pdFrame L) s)
    (hw : walk M'.phys (pdFrame L) u = walk vm.mach.phys (pdFrame L) u) :
    walk M'.phys d u = walk vm.mach.phys d u := by
  by_cases hp : isPresent (vm.mach.phys d (u / 1024)) = true
  · have hs : 768 ≤ u / 1024 := by
      by_contra hlt
      rw [(h.dirOk d hd).user _ (by omega)] at hp
      cases hp
    have heq : vm.mach.phys d (u / 1024) = vm.mach.phys (pdFrame L) (u / 1024) :=
      ((h.dirOk d hd).kernel _ hs (page_slot hu)).resolve_right (by simp [hp])
    have hkeep := hslots _ (heq ▸ hp)
    calc walk M'.phys d u
        = walk M'.phys (pdFrame L) u := walk_congr (by rw [hdir, hkeep]; exact heq) fun _ => rfl
      _ = walk vm.mach.phys (pdFrame L) u := hw
      _ = walk vm.mach.phys d u := walk_congr heq.symm fun _ => rfl
  · have hp' := Bool.eq_false_iff.mpr hp
    rw [walk_absent hp', walk_absent (by rw [hdir]; exact hp')]

/-- After a rollback only the pages that were mapped, and the tables made for them, can
tell. -/
theorem VmInv.rolled_back (h : VmInv L vm) (h₁ : PagesIn L vm.mach vaddr pf n j M₁)
    (u : Undone L vm.mach M₁ vaddr j M')
    (hnone : ∀ k < j, walk vm.mach.phys (pdFrame L) (pageNo vaddr k) = none)
    (hold : ∀ k < j, ¬ NewTable L vm.mach.phys vaddr k) : NoTrace vm { vm with mach := M' } := by
  have hwalk : ∀ v < 2 ^ 20, walk M'.phys (pdFrame L) v = walk vm.mach.phys (pdFrame L) v := by
    intro v hv
    by_cases hk : ∃ k < j, v = pageNo vaddr k
    · obtain ⟨k, hk, rfl⟩ := hk
      rw [u.gone k hk, hnone k hk]
    · simp only [not_exists, not_and] at hk
      exact (u.others v hv hk).trans (h₁.others v hv hk)
  refine ⟨rfl, rfl, fun s a hs v hv => ?_, fun g => ?_⟩
  · cases s with
    | null => cases hs
    | kernel =>
      obtain rfl := Option.some.inj hs
      unfold AddressSpace.translate
      rw [h.kernelDir, pagingGetDirectory_eq]
      exact hwalk v hv
    | created p =>
      have hd := mem_dirs hs
      obtain ⟨⟨hge, -, hused⟩, hnt⟩ := h.mach.tables.dir _ hd
      have hoff := h.mach.tables.not_tableFrame hge hnt
      refine h.created_walk hd hv ?_ (fun s hp => ?_) (hwalk v hv)
      · exact (u.keeps _ fun ht => (h₁.tables _ ht).elim hoff hused).trans (h₁.keeps _ hoff hused)
      · exact (congrFun u.dir s).trans (h₁.slots s hp)
  · have hsound := h.mach.tabled.sound
    show M'.pmm.Free g ↔ _
    rw [u.free, h₁.pmm, newTables_none hold, Nat.add_zero, allocs_free hsound]
    -- without new tables the frames handed out are those of the pages
    have hframe : ∀ k < j, pageFrame L vm.mach vaddr k = frameAfter vm.mach.pmm k := fun k hk => by
      unfold pageFrame
      rw [newTables_none fun i hi => hold i (by omega), Nat.add_zero]
    constructor
    · rintro (hg | ⟨k, hk, rfl⟩)
      · exact hg.1
      · exact (pageFrame_spec hsound (h₁.served k hk)).2.2.2
    · intro hg
      by_cases hk : ∃ k < j, g = frameOf (pageFrame L vm.mach vaddr k)
      · exact .inr hk
      · simp only [not_exists, not_and] at hk
        exact .inl ⟨hg, fun k hkj _ => hframe k hkj ▸ hk k hkj⟩

theorem exists_served {p : Pmm} (h : p.Sound) (n : Nat) :
    ∃ m ≤ n, (∀ k < m, frameAfter p k ≠ 0) ∧ (m < n → frameAfter p m = 0) := by
  induction n with
  | zero => exact ⟨0, Nat.le_refl 0, nofun, nofun⟩
  | succ n ih =>
    obtain ⟨m, hm, h1, h2⟩ := ih
    by_cases h0 : frameAfter p n = 0
    · refine ⟨m, by omega, h1, fun hlt => ?_⟩
      rcases Nat.lt_or_eq_of_le hm with hlt' | rfl
      · exact h2 hlt'
      · exact h0
    · exact ⟨n + 1, Nat.le_refl _, fun k hk => frameAfter_ne_zero h h0 (by omega),
        fun hlt => absurd hlt (Nat.lt_irrefl _)⟩

theorem Tabled.off_of_unmapped {M : Machine} {v : Nat} (h : Tabled L M)
    (hv : walk M.phys (pdFrame L) v = none) : OffTables L M.phys v := by
  rintro f hf rfl
  have hreach := (reaches_iff h.active).mp (h.reach f hf)
  unfold kmap at hreach
  rw [hv] at hreach
  cases hreach

/-- **Pages that were free to map** can be given back. -/
theorem VmInv.failed_untouched (h : VmInv L vm) (hsize : size < 2 ^ 32)
    (hacc : MapAccepted vm s space vaddr size)
    (hun : Untouched L vm.mach vaddr (size / pageSize))
    (he : vmmMapRegion L vm s vaddr size flags type = some (-1, vm')) : NoTrace vm vm' := by
  have ht := h.mach.tabled
  obtain ⟨m, hm, hfirst, hend⟩ := exists_served ht.sound (size / pageSize)
  have hold : ∀ k < m, ¬ NewTable L vm.mach.phys vaddr k := fun k hk hnew =>
    Bool.false_ne_true (hnew.1.symm.trans (hun k (by omega) (hfirst k hk)).1)
  have hnone : ∀ k < m, walk vm.mach.phys (pdFrame L) (pageNo vaddr k) = none := fun k hk =>
    (hun k (by omega) (hfirst k hk)).2
  have hlt : ∀ k < size / pageSize, pageFrame L vm.mach vaddr k ≠ 0 → k < m := by
    intro k hk hne
    by_contra hge
    exact hne (frameAfter_zero ht.sound (hend (by omega)) (by omega))
  rcases map_accepted_cases flags type ht hacc
      (Nat.le_trans hm (pages_le hsize)) (fun k hk => ht.off_of_unmapped (hnone k hk)) hlt
      (fun k hk hne hnew => absurd hnew (hold k (hlt k hk hne))) with
    ⟨M₁, -, he'⟩ | ⟨j, M₁, M', hj, -, h₁, u, he'⟩
  · rw [he] at he'
    cases he'
  · rw [he] at he'
    obtain rfl := (Prod.mk.inj (Option.some.inj he')).2
    have hjm : ∀ k < j, k < m := fun k hk => hlt k (by omega) (h₁.served k hk)
    exact h.rolled_back h₁ u (fun k hk => hnone k (hjm k hk)) fun k hk => hold k (hjm k hk)

theorem PagesIn.table_lost {M₀ : Machine} (h₀ : M₀.pmm.Sound) (h₁ : PagesIn L M₀ vaddr pf n j M₁)
    (u : Undone L M₀ M₁ vaddr j M') (hk : k < j) (hnew : NewTable L M₀.phys vaddr k)
    (hne : newTableFrame L M₀ vaddr k ≠ 0) :
    M₀.pmm.Free (frameOf (newTableFrame L M₀ vaddr k)) ∧
      ¬ M'.pmm.Free (frameOf (newTableFrame L M₀ vaddr k)) := by
  have hcalls : k + newTables L M₀.phys vaddr k + 1 < j + newTables L M₀.phys vaddr j := by
    have := newTables_mono L M₀.phys vaddr (show k + 1 ≤ j from hk)
    rw [newTables_succ hnew] at this
    omega
  refine ⟨(frameAfter_free h₀ hne (Nat.zero_le _)).1, fun hfree => ?_⟩
  rcases (u.free _).mp hfree with hfree | ⟨i, hi, heq⟩
  · rw [h₁.pmm] at hfree
    exact ((allocs_free h₀ _ _).mp hfree).2 _ hcalls hne rfl
  · -- the frame of a page is handed out before it or after it
    rcases Nat.lt_or_ge k i with hlt | hge
    · have := newTables_mono L M₀.phys vaddr (show k + 1 ≤ i from hlt)
      rw [newTables_succ hnew] at this
      exact frameAfter_ne h₀ (h₁.served i hi) (by omega) heq.symm
    · have := newTables_mono L M₀.phys vaddr hge
      exact frameAfter_ne h₀ hne (by omega) heq

theorem present_of_old {m : Phys} (hold : ∀ k < j, ¬ NewTable L m vaddr k) (hk : k < j) :
    isPresent (pdeAt L m (pageNo vaddr k)) = true := by
  induction k using Nat.strong_induction_on with
  | _ k ih =>
    by_contra hp
    refine hold k hk ⟨Bool.eq_false_iff.mpr hp, fun i hi heq => hp ?_⟩
    have hi' := ih i hi (by omega)
    unfold pdeAt at hi' ⊢
    rwa [heq] at hi'

theorem pageNo_eq (hal : vaddr % pageSize = 0) (hle : vaddr + size ≤ 2 ^ 32)
    (hk : k < size / pageSize) : pageNo vaddr k = vaddr / pageSize + k := by
  unfold pageNo pageAddr w32 pageSize at *
  omega

/-- **A failed call that leaves no trace** found its pages free to map. -/
theorem VmInv.untouched_of_noTrace (h : VmInv L vm) (hacc : MapAccepted vm s space vaddr size)
    (hle : vaddr + size < 2 ^ 32) (hna : NotAliased L vm.mach vaddr (size / pageSize))
    (he : vmmMapRegion L vm s vaddr size flags type = some (-1, vm')) (hnt : NoTrace vm vm') :
    Untouched L vm.mach vaddr (size / pageSize) := by
  have ht := h.mach.tabled
  have hn : size / pageSize ≤ 2 ^ 20 := pages_le (by omega)
  have hoff : ∀ k < size / pageSize, OffTables L vm.mach.phys (pageNo vaddr k) := by
    intro k hk
    rw [pageNo_eq hacc.base_aligned (Nat.le_of_lt hle) hk]
    have hok : RegionOk ⟨vaddr, size, flags, type⟩ :=
      (h.space_ok hacc.live).region_ok hacc.base_aligned hacc.size_aligned hle hacc.free
    exact h.mach.off_of_family (hok.range.family k (Nat.zero_le k) (by simpa using hk))
  have hserved : ∀ k < size / pageSize, pageFrame L vm.mach vaddr k ≠ 0 →
      TableServed L vm.mach vaddr (size / pageSize) k := by
    intro k hk hne
    refine (PagesIn.start (vmmFlagsToPageFlags flags) ht hoff).served_of_some ht
      hacc.base_aligned hn hna (c := size / pageSize) (by omega) (fun hnone => ?_) (Nat.zero_le k)
      (by omega) hne
    rw [vmmMapRegion_accepted _ _ _ hacc, hnone] at he
    cases he
  rcases map_accepted_cases flags type ht hacc hn hoff (fun _ hk _ => hk)
      hserved with ⟨M₁, -, he'⟩ | ⟨j, M₁, M', hj, hend, h₁, u, he'⟩
  · rw [he] at he'
    cases he'
  rw [he] at he'
  obtain rfl := (Prod.mk.inj (Option.some.inj he')).2
  have hold : ∀ k < j, ¬ NewTable L vm.mach.phys vaddr k := fun k hk hnew => by
    have hne := (hserved k (by omega) (h₁.served k hk) hnew).1
    obtain ⟨hfree, hlost⟩ := h₁.table_lost ht.sound u hk hnew hne
    exact hlost ((hnt.frames _).mpr hfree)
  intro k hk hne
  have hkj : k < j := by
    by_contra hge
    have hz := hend (by omega)
    unfold pageFrame at hz
    rw [newTables_none hold, Nat.add_zero] at hz
    exact hne (frameAfter_zero ht.sound hz (Nat.le_of_not_lt hge))
  refine ⟨present_of_old hold hkj, ?_⟩
  have hsame := hnt.translations .kernel vm.kernelSpace rfl (pageNo vaddr k) (pageNo_lt vaddr k)
  unfold AddressSpace.translate at hsame
  rw [h.kernelDir, pagingGetDirectory_eq] at hsame
  exact hsame.symm.trans (u.gone k hkj)

end Failed

def FitGuard (L : Layout) (vm : Vm) (op : VmOp) : Prop := op.Valid vm ∧ op.Fits L vm

theorem VmInv.run {L : Layout} {vm₀ vm : Vm} {ops : List VmOp} (h : VmInv L vm₀)
    (hrun : Run (vmStep L) (FitGuard L) vm₀ ops vm) : VmInv L vm := by
  refine hrun.invariant (VmInv L) (fun h hg he => ?_) h
  obtain ⟨_, he⟩ := vmStep_some he
  exact (h.step hg.1 hg.2 he).inv

/-! ## A call without a region slot -/

section Slots

variable {L : Layout} {vm : Vm}

/-- Map an empty range for the kernel at `0xD0000000`. -/
def mapNothingAtD0 : VmOp := .map .kernel 0xD0000000 0 vmmRead .kernelData

def ClearAtD0 (vm : Vm) : Prop :=
  ∀ g ∈ vm.kernelSpace.regions, ∀ size, 0xD0000000 + size < 2 ^ 32 →
    overlaps 0xD0000000 size g = false

theorem ClearAtD0.accepted (h : ClearAtD0 vm) {size : Nat} (hsize : size % pageSize = 0)
    (hlt : 0xD0000000 + size < 2 ^ 32) : MapAccepted vm .kernel vm.kernelSpace 0xD0000000 size := by
  refine ⟨rfl, rfl, hsize, List.any_eq_false.mpr fun g hg => ?_⟩
  rw [h g hg size hlt]
  exact Bool.false_ne_true

theorem mapNothing_step (L : Layout) (h : ClearAtD0 vm) (hp : vm.regionPoolUsed < vmmMaxRegions) :
    ∃ vm', vmStep L vm mapNothingAtD0 = some vm' ∧ ClearAtD0 vm' ∧ vm'.mach = vm.mach ∧
      vm'.regionPoolUsed = vm.regionPoolUsed + 1 := by
  have hacc : MapAccepted vm .kernel vm.kernelSpace 0xD0000000 0 := h.accepted rfl (by decide)
  have hcall := vmmMapRegion_accepted L vmmRead .kernelData hacc
  rw [show 0 / pageSize = 0 from rfl, mapPages, Option.bind_some, if_pos rfl,
    if_neg (Nat.not_le_of_lt hp)] at hcall
  have hstep : vmStep L vm mapNothingAtD0 = some _ := vmStep_of_call hcall
  refine ⟨_, hstep, fun g hg size hlt => ?_, rfl, rfl⟩
  rcases mem_insertRegion.mp hg with rfl | hg
  · rfl
  · exact h g hg size hlt

theorem mapNothing_run (L : Layout) (n : Nat) (h : ClearAtD0 vm)
    (hp : vm.regionPoolUsed + n ≤ vmmMaxRegions) :
    ∃ vm', Run (vmStep L) (FitGuard L) vm (List.replicate n mapNothingAtD0) vm' ∧ ClearAtD0 vm' ∧
      vm'.mach = vm.mach ∧ vm'.regionPoolUsed = vm.regionPoolUsed + n := by
  induction n generalizing vm with
  | zero => exact ⟨vm, .nil vm, h, rfl, rfl⟩
  | succ n ih =>
    obtain ⟨vm₁, hstep, h₁, hmach, hpool⟩ := mapNothing_step L h (by omega)
    obtain ⟨vm', hrun, h', hmach', hpool'⟩ := ih h₁ (by omega)
    have hfit : FitGuard L vm mapNothingAtD0 :=
      ⟨⟨.inr ⟨_, rfl⟩, by decide, by decide, by decide⟩,
        .inr ⟨by decide, .of_twice (Nat.zero_le _)⟩⟩
    exact ⟨vm', .cons hfit hstep hrun, h', hmach'.trans hmach, by omega⟩

theorem MachInv.first_page {dirs : List Nat} {M : Machine} (h : MachInv L dirs M) (vaddr : Nat)
    (hlow : 1 < lowFree M.pmm) (hreach : 1 < reachable M.pmm) (hv : Family (pageNo vaddr 0)) :
    pageFrame L M vaddr 0 ≠ 0 ∧ newTableFrame L M vaddr 0 ≠ 0 ∧ TableServed L M vaddr 1 0 := by
  obtain ⟨f, p, he, t⟩ := h.tables.alloc_some (by omega)
  have ht := t.inv h.tables
  obtain ⟨f', p', he', t'⟩ := ht.alloc_some (by have := t.reachable; omega)
  have hpage : pageFrame L M vaddr 0 = f * pageSize := by
    show (pmmAllocFrame M.pmm).1 = _
    rw [he]
  have htable : newTableFrame L M vaddr 0 = f' * pageSize := by
    show (pmmAllocFrame (pmmAllocFrame M.pmm).2).1 = _
    rw [he, he']
  have hframe : frameOf (f' * pageSize) = f' := by unfold frameOf pageSize; omega
  have hlt : f' < 1024 := t'.low (by have := t.lowFree; omega)
  have hge := ht.reserves f' (by unfold maxFrames; omega) t'.free
  have hk := kernelEndFrame_bounds L
  unfold TableServed
  rw [hpage, htable, hframe]
  refine ⟨t.ne_zero h.tables, t'.ne_zero ht, fun _ => ⟨t'.ne_zero ht, ?_, fun j hj => ?_⟩⟩
  · exact h.reaches_low (by omega) hlt
  · rw [Nat.lt_one_iff.mp hj, windowPage_low hlt]
    have := hv.2
    omega

theorem BootEffect.slot_absent {p : Pmm} {bytes : Bytes} {M : Machine}
    (h : BootEffect L p bytes M vm) {s : Nat} (hs : DynSlot s) :
    isPresent (vm.mach.phys (pdFrame L) s) = false := by
  rw [h.grow.slots s hs.1 (.inl fun u h1 h2 => by have := hs.2; omega), h.tables.absent s hs]
  rfl

theorem BootEffect.newTable_D0 {p : Pmm} {bytes : Bytes} {M : Machine}
    (h : BootEffect L p bytes M vm) : NewTable L vm.mach.phys 0xD0000000 0 :=
  ⟨h.slot_absent (s := 832) ⟨by omega, by omega⟩, nofun⟩

theorem BootEffect.clearAtD0 {p : Pmm} {bytes : Bytes} {M : Machine}
    (h : BootEffect L p bytes M vm) : ClearAtD0 vm := fun _ hg _ hlt =>
  kernelRegion_apart (h.regions.mem_iff.mp hg) hlt (.inr (by omega))

theorem family_D0 : Family (pageNo 0xD0000000 0) := ⟨by decide, .inr (by decide)⟩

theorem TableInv.served {m : Phys} {p : Pmm} {dirs : List Nat} (h : TableInv L m p dirs) {k : Nat}
    (hk : k < reachable p) : frameAfter p k ≠ 0 := by
  have hallocs : ∀ j ≤ k, TableInv L m (allocs p j) dirs ∧ reachable (allocs p j) + j =
      reachable p := fun j => by
    induction j with
    | zero => exact fun _ => ⟨h, rfl⟩
    | succ j ih =>
      intro hj
      obtain ⟨hinv, hcount⟩ := ih (by omega)
      obtain ⟨f, p', he, t⟩ := hinv.alloc_some (by omega)
      have hnext : allocs p (j + 1) = p' := by
        show (pmmAllocFrame (allocs p j)).2 = p'
        rw [he]
      have := t.reachable_eq
      rw [hnext]
      exact ⟨t.inv hinv, by omega⟩
  obtain ⟨hinv, hcount⟩ := hallocs k (Nat.le_refl k)
  obtain ⟨f, p', he, t⟩ := hinv.alloc_some (by omega)
  unfold frameAfter
  rw [he]
  exact t.ne_zero hinv

/-- After one page is mapped under a new table, the other pages of that table are unmapped. -/
theorem MapRangeEffect.beside {dirs : List Nat} {M M' : Machine} {pf v u : Nat}
    (e : MapRangeEffect L dirs pf v 0 1 M M' true)
    (habs : isPresent (M.phys (pdFrame L) (v / 1024)) = false) (hu : u < 2 ^ 20) (hne : u ≠ v)
    (hslot : u / 1024 = v / 1024) :
    isPresent (M'.phys (pdFrame L) (u / 1024)) = true ∧ walk M'.phys (pdFrame L) u = none := by
  obtain ⟨pde, f, hw, -⟩ := e.mapped rfl 0 (Nat.le_refl 0) Nat.one_pos
  have hwalk : walk M'.phys (pdFrame L) u = walk M.phys (pdFrame L) u :=
    e.others u hu (by omega)
  rw [hwalk, hslot]
  refine ⟨walk_present hw, walk_absent ?_⟩
  rw [hslot]
  exact habs

/-- The two pages after a region of one page are as free as before. -/
theorem ClearAtD0.free_beside (h : ClearAtD0 vm) (flags : Nat) (type : RegionType) :
    (insertRegion vm.kernelSpace ⟨0xD0000000, 4096, flags, type⟩).regions.any
      (overlaps 0xD0001000 8192) = false := by
  refine List.any_eq_false.mpr fun g hg => ?_
  rcases mem_insertRegion.mp hg with rfl | hg
  · show ¬ overlaps 0xD0001000 8192 ⟨0xD0000000, 4096, 0, .kernelData⟩ = true
    decide
  · have hno := h g hg 0x3000 (by decide)
    simp only [overlaps, Bool.and_eq_false_iff, decide_eq_false_iff_not] at hno
    simp only [overlaps, Bool.and_eq_true, decide_eq_true_eq]
    rintro ⟨h1, h2⟩
    exact hno.elim (fun h => h (Nat.lt_trans (by decide) h1)) fun h => h h2

/-- After boot the pool is used up but for one slot with empty ranges, and the last slot for
a page at `0xD0000000`. The next two pages are then unmapped under its table. -/
theorem fullPool_ok : ∃ vm₀ ops vm, sampleBootVm = some vm₀ ∧
    Run (vmStep sampleLayout) (FitGuard sampleLayout) vm₀ ops vm ∧ VmInv sampleLayout vm ∧
    MapAccepted vm .kernel vm.kernelSpace 0xD0001000 8192 ∧ vm.regionPoolUsed = vmmMaxRegions ∧
    (∀ k < 2, isPresent (pdeAt sampleLayout vm.mach.phys (pageNo 0xD0001000 k)) = true ∧
      walk vm.mach.phys (pdFrame sampleLayout) (pageNo 0xD0001000 k) = none) ∧
    ∀ k < 2, pageFrame sampleLayout vm.mach 0xD0001000 k ≠ 0 := by
  obtain ⟨vm₀, M, hvm, hb, hlow, hreach⟩ := sampleBootVm_ok
  have hlen := kernelRegions_length sampleLayout
  obtain ⟨vm₁, hrun, hclear, hmach, hpool⟩ := mapNothing_run sampleLayout
    (vmmMaxRegions - vm₀.regionPoolUsed - 1) hb.clearAtD0
    (by rw [hb.pool]; unfold vmmMaxRegions; omega)
  have hleft : vm₁.regionPoolUsed + 1 = vmmMaxRegions := by
    rw [hpool, hb.pool]
    unfold vmmMaxRegions
    omega
  have h₁ := hb.inv.run hrun
  have hacc₁ : MapAccepted vm₁ .kernel vm₁.kernelSpace 0xD0000000 4096 :=
    hclear.accepted rfl (by decide)
  have hfit : MapFits sampleLayout vm₁ 0xD0000000 4096 :=
    onePage_fits (by decide) (by rw [hmach]; omega)
  have hreg : RegionOk ⟨0xD0000000, 4096, vmmRead ||| vmmWrite, .kernelData⟩ :=
    (h₁.space_ok hacc₁.live).region_ok rfl rfl (by decide) hacc₁.free
  obtain ⟨M₂, e, he⟩ := h₁.mach.mapRegion_succeeds (vmmRead ||| vmmWrite) .kernelData hacc₁.live
    rfl rfl hacc₁.free hreg.range hfit.2 (by rw [hmach]; show 2 * 1 < _; omega) (by omega)
  have hrun₂ : Run (vmStep sampleLayout) (FitGuard sampleLayout) vm₀ _ _ :=
    hrun.append (.cons ⟨mapPageAtD0_valid vm₁, .inr hfit⟩ (vmStep_of_call he) (.nil _))
  have h₂ := hb.inv.run hrun₂
  have hnext : ∀ k < 2, pageNo 0xD0001000 k ≠ 0xD0000000 / pageSize ∧
      pageNo 0xD0001000 k / 1024 = 0xD0000000 / pageSize / 1024 := by decide
  have hun : ∀ k < 2, isPresent (pdeAt sampleLayout M₂.phys (pageNo 0xD0001000 k)) = true ∧
      walk M₂.phys (pdFrame sampleLayout) (pageNo 0xD0001000 k) = none := fun k hk => by
    obtain ⟨hne, hslot⟩ := hnext k hk
    refine MapRangeEffect.beside e ?_ (pageNo_lt _ k) hne hslot
    rw [hmach]
    exact hb.slot_absent ⟨by decide, by decide⟩
  refine ⟨vm₀, _, _, hvm, hrun₂, h₂, ⟨rfl, rfl, rfl, hclear.free_beside _ _⟩, hleft, hun,
    fun k hk => ?_⟩
  have hreach₂ := e.reach rfl
  rw [hmach, show 4096 / pageSize = 1 from rfl] at hreach₂
  show frameAfter M₂.pmm (k + newTables sampleLayout M₂.phys 0xD0001000 k) ≠ 0
  rw [newTables_none fun i hi hnew =>
    Bool.false_ne_true (hnew.1.symm.trans (hun i (by omega)).1), Nat.add_zero]
  exact h₂.mach.tables.served (show k < reachable M₂.pmm by omega)

/-- **A failed call leaves no trace** when its checks turn it down, or when the pages it
has frames for are unmapped under tables that are there. Below 4 GB, and where
`PHYS_TO_VIRT` of a new table is no other frame, it leaves none only then. -/
theorem failed_map_no_trace {L : Layout} {phys : Phys} {bitmap : Bitmap} {bytes : Bytes}
    {mmap : Option (List MmapEntry)} {vm₀ vm vm' : Vm} {ops : List VmOp} {s : SpaceRef}
    {vaddr size flags : Nat} {type : RegionType}
    (ht : (pmmInit L bitmap mmap).totalFrames ≤ 32784)
    (hb : bootVm L phys bitmap bytes mmap = some vm₀)
    (hrun : Run (vmStep L) (FitGuard L) vm₀ ops vm)
    (hv : (VmOp.map s vaddr size flags type).Valid vm)
    (he : vmmMapRegion L vm s vaddr size flags type = some (-1, vm')) :
    (MapRefused vm s vaddr size ∨ Untouched L vm.mach vaddr (size / pageSize) → NoTrace vm vm') ∧
    (vaddr + size < 2 ^ 32 → NotAliased L vm.mach vaddr (size / pageSize) → NoTrace vm vm' →
      MapRefused vm s vaddr size ∨ Untouched L vm.mach vaddr (size / pageSize)) := by
  obtain ⟨_, hb⟩ := bootVm_ok ht hb
  have h := hb.inv.run hrun
  obtain ⟨-, -, hsize, -⟩ := hv
  by_cases href : MapRefused vm s vaddr size
  · rw [vmmMapRegion_refused href] at he
    cases he
    exact ⟨fun _ => ⟨rfl, rfl, fun _ _ _ _ _ => rfl, fun _ => Iff.rfl⟩, fun _ _ _ => .inl href⟩
  · obtain ⟨space, hacc⟩ := accepted_of_not_refused href
    refine ⟨fun hc => ?_, fun hle hna hnt => .inr (h.untouched_of_noTrace hacc hle hna he hnt)⟩
    exact h.failed_untouched hsize hacc (hc.resolve_left href) he

/-- Pages under the table of a page that was mapped before: they are mapped, and given back
for want of a slot. -/
theorem failed_map_no_trace_rolled_back : ∃ vm₀ ops vm vm', sampleBootVm = some vm₀ ∧
    Run (vmStep sampleLayout) (FitGuard sampleLayout) vm₀ ops vm ∧
    ¬ MapRefused vm .kernel 0xD0001000 8192 ∧
    (∀ k < 2, pageFrame sampleLayout vm.mach 0xD0001000 k ≠ 0) ∧
    vmmMapRegion sampleLayout vm .kernel 0xD0001000 8192 (vmmRead ||| vmmWrite) .kernelData =
      some (-1, vm') ∧ NoTrace vm vm' := by
  obtain ⟨vm₀, ops, vm, hvm, hrun, h, hacc, hpool, hun, hframes⟩ := fullPool_ok
  have hold : ∀ k < 2, ¬ NewTable sampleLayout vm.mach.phys 0xD0001000 k := fun k hk hnew =>
    Bool.false_ne_true (hnew.1.symm.trans (hun k hk).1)
  rcases map_accepted_cases (vmmRead ||| vmmWrite) .kernelData h.mach.tabled hacc (n := 2)
      (by decide) (fun k hk => h.mach.tabled.off_of_unmapped (hun k hk).2) (fun _ hk _ => hk)
      (fun k hk _ hnew => absurd hnew (hold k hk)) with
    ⟨M₁, -, he⟩ | ⟨j, M₁, M', -, -, -, -, he⟩
  · rcases vmmMapRegion_cases he with ⟨hr, -⟩ | ⟨space, M, -, -, hlt, -⟩
    · cases hr
    · omega
  · have htot : (pmmInit sampleLayout (fun _ => 0#8) sampleMap).totalFrames ≤ 32784 := by
      rw [samplePmm.1]
      omega
    exact ⟨vm₀, ops, vm, _, hvm, hrun, fun href => hacc.not_refused href, hframes, he,
      (failed_map_no_trace htot hvm hrun ⟨.inr ⟨_, rfl⟩, by decide, by decide, by decide⟩ he).1
        (.inr fun k hk _ => hun k hk)⟩

/-- **Without a slot left** a page is mapped and given back, but its table is not. -/
theorem failed_map_leaks_table : ∃ vm₀ ops vm vm', sampleBootVm = some vm₀ ∧
    Run (vmStep sampleLayout) (FitGuard sampleLayout) vm₀ ops vm ∧ mapPageAtD0.Valid vm ∧
    vmCall sampleLayout vm mapPageAtD0 = some (-1, vm') ∧ ¬ NoTrace vm vm' := by
  obtain ⟨vm₀, M, hvm, hb, hlow, hreach⟩ := sampleBootVm_ok
  have hlen := kernelRegions_length sampleLayout
  obtain ⟨vm, hrun, hclear, hmach, hpool⟩ := mapNothing_run sampleLayout
    (vmmMaxRegions - vm₀.regionPoolUsed) hb.clearAtD0 (by rw [hb.pool]; unfold vmmMaxRegions; omega)
  have hfull : vm.regionPoolUsed = vmmMaxRegions := by
    rw [hpool, hb.pool]
    unfold vmmMaxRegions
    omega
  have h := hb.inv.run hrun
  have hnew : NewTable sampleLayout vm.mach.phys 0xD0000000 0 := hmach ▸ hb.newTable_D0
  obtain ⟨hpage, htable, hserved⟩ := h.mach.first_page 0xD0000000
    (by rw [hmach]; omega) (by rw [hmach]; omega) family_D0
  have hacc : MapAccepted vm .kernel vm.kernelSpace 0xD0000000 4096 :=
    hclear.accepted rfl (by decide)
  rcases map_accepted_cases (vmmRead ||| vmmWrite) .kernelData h.mach.tabled hacc
      (n := 1) (by decide)
      (fun k hk => Nat.lt_one_iff.mp hk ▸ h.mach.off_of_family family_D0) (fun _ hk _ => hk)
      (fun k hk _ => Nat.lt_one_iff.mp hk ▸ hserved) with
    ⟨M₁, -, he⟩ | ⟨j, M₁, M', hj, hend, h₁, u, he⟩
  · rcases vmmMapRegion_cases he with ⟨hr, -⟩ | ⟨space, M, -, -, hlt, -⟩
    · cases hr
    · omega
  · have hj0 : 0 < j := by
      by_contra h0
      obtain rfl : j = 0 := by omega
      exact hpage (hend (by decide))
    obtain ⟨hfree, hlost⟩ := h₁.table_lost h.mach.tabled.sound u hj0 hnew htable
    exact ⟨vm₀, _, vm, _, hvm, hrun, mapPageAtD0_valid vm, he,
      fun hnt => hlost ((hnt.frames _).mpr hfree)⟩

end Slots

/-! ## Calls that go through -/

/-- Every page of the range has a frame of its own that was free, with the flags asked
for and reading zero, and no other page has moved. -/
structure RangeMapped (L : Layout) (vm vm' : Vm) (vaddr size flags : Nat) : Prop where
  mapped : ∀ u, InRange vaddr size u → ∃ pde f, walk vm'.mach.phys (pdFrame L) u =
      some (pde, pteFor (f * pageSize) (vmmFlagsToPageFlags flags)) ∧
    vm.mach.pmm.Free f ∧ ∀ w < pageEntries, vm'.mach.phys f w = 0
  own : ∀ u v, InRange vaddr size u → InRange vaddr size v →
    kmap L vm'.mach.phys u = kmap L vm'.mach.phys v → u = v
  others : ∀ u < 2 ^ 20, ¬ InRange vaddr size u →
    walk vm'.mach.phys (pdFrame L) u = walk vm.mach.phys (pdFrame L) u

/-- The call does not fault, and maps the range if it returns `0`. -/
def MapCompletes (L : Layout) (vm : Vm) (vaddr size flags : Nat) (type : RegionType) : Prop :=
  ∃ r vm', vmmMapRegion L vm .kernel vaddr size flags type = some (r, vm') ∧
    (r = 0 → RangeMapped L vm vm' vaddr size flags)

/-- No region holds an address of the range. -/
def FreeOfRegions (rs : List Region) (vaddr size : Nat) : Prop :=
  ∀ g ∈ rs, ∀ a, vaddr ≤ a → a < vaddr + size → ¬ g.Holds a

/-- For every page that gets a frame, a table that it needs and that is missing can be
made: there is one more frame, and the kernel reaches it at its `PHYS_TO_VIRT` address. -/
def TablesServed (L : Layout) (M : Machine) (vaddr n : Nat) : Prop :=
  ∀ k < n, pageFrame L M vaddr k ≠ 0 → TableServed L M vaddr n k

section Completes

variable {L : Layout} {vm vm' : Vm} {M₁ : Machine} {vaddr size flags : Nat} {type : RegionType}

theorem VmInv.off_of_free (h : VmInv L vm) (hal : vaddr % pageSize = 0)
    (hle : vaddr + size ≤ 2 ^ 32) (hfree : FreeOfRegions vm.kernelSpace.regions vaddr size)
    {k : Nat} (hk : k < size / pageSize) : OffTables L vm.mach.phys (pageNo vaddr k) := by
  refine h.mach.off_of_family ⟨pageNo_lt vaddr k, ?_⟩
  rw [pageNo_eq hal hle hk]
  by_contra hin
  have hpage : vaddr ≤ (vaddr / pageSize + k) * pageSize ∧
      (vaddr / pageSize + k) * pageSize < vaddr + size := by unfold pageSize at *; omega
  obtain ⟨g, hg, h1, h2⟩ := kernelRegions_cover L (a := (vaddr / pageSize + k) * pageSize)
    (by unfold pageSize at *; omega) (by unfold pageSize at *; omega)
  have hend : w32 (g.base + g.size) ≤ g.base + g.size := Nat.mod_le ..
  exact hfree g (h.kernel.kernel g hg) _ hpage.1 hpage.2 ⟨h1, by omega⟩

theorem inRange_iff (hal : vaddr % pageSize = 0) (hle : vaddr + size ≤ 2 ^ 32) {u : Nat} :
    InRange vaddr size u ↔ ∃ k < size / pageSize, u = pageNo vaddr k := by
  constructor
  · rintro ⟨h1, h2⟩
    refine ⟨u - vaddr / pageSize, by omega, ?_⟩
    rw [pageNo_eq hal hle (by omega)]
    omega
  · rintro ⟨k, hk, rfl⟩
    rw [pageNo_eq hal hle hk]
    exact ⟨by omega, by omega⟩

theorem PagesIn.rangeMapped {n : Nat} (h₀ : vm.mach.pmm.Sound) (hal : vaddr % pageSize = 0)
    (hle : vaddr + size ≤ 2 ^ 32) (hm : vm'.mach = M₁)
    (h₁ : PagesIn L vm.mach vaddr (vmmFlagsToPageFlags flags) n (size / pageSize) M₁) :
    RangeMapped L vm vm' vaddr size flags := by
  subst hm
  have hkmap : ∀ k < size / pageSize, kmap L vm'.mach.phys (pageNo vaddr k) =
      some (frameOf (pageFrame L vm.mach vaddr k)) := fun k hk => by
    obtain ⟨pde, hw⟩ := h₁.mapped k hk
    unfold kmap
    rw [hw, Option.map_some, (pteFor_spec _ _).1]
  refine ⟨fun u hu => ?_, fun u v hu hv heq => ?_, fun u hu hout => ?_⟩
  · obtain ⟨k, hk, rfl⟩ := (inRange_iff hal hle).mp hu
    obtain ⟨pde, hw⟩ := h₁.mapped k hk
    obtain ⟨heq, -, -, hfree⟩ := pageFrame_spec h₀ (h₁.served k hk)
    exact ⟨pde, _, by rw [← heq]; exact hw, hfree, h₁.zero k hk⟩
  · obtain ⟨i, hi, rfl⟩ := (inRange_iff hal hle).mp hu
    obtain ⟨j, hj, rfl⟩ := (inRange_iff hal hle).mp hv
    rw [hkmap i hi, hkmap j hj] at heq
    have hframe := Option.some.inj heq
    rcases Nat.lt_trichotomy i j with hlt | rfl | hlt
    · exact absurd hframe (pageFrame_ne h₀ (h₁.served j hj) (pageCalls_lt hlt))
    · rfl
    · exact absurd hframe.symm (pageFrame_ne h₀ (h₁.served i hi) (pageCalls_lt hlt))
  · refine h₁.others u hu fun k hk heq => hout ?_
    exact (inRange_iff hal hle).mpr ⟨k, hk, heq⟩

/-- **`vmm_map_region` goes through** when its checks turn the call down or every table
can be made. Where `PHYS_TO_VIRT` of a new table is no other frame, it goes through
only then. -/
theorem map_completes_iff (h : VmInv L vm) (hal : vaddr % pageSize = 0)
    (hle : vaddr + size ≤ 2 ^ 32) (hsize : size < 2 ^ 32)
    (hfree : FreeOfRegions vm.kernelSpace.regions vaddr size) :
    (MapRefused vm .kernel vaddr size ∨ TablesServed L vm.mach vaddr (size / pageSize) →
      MapCompletes L vm vaddr size flags type) ∧
    (NotAliased L vm.mach vaddr (size / pageSize) → MapCompletes L vm vaddr size flags type →
      MapRefused vm .kernel vaddr size ∨ TablesServed L vm.mach vaddr (size / pageSize)) := by
  have ht := h.mach.tabled
  have hn := pages_le hsize
  have hoff : ∀ k < size / pageSize, OffTables L vm.mach.phys (pageNo vaddr k) := fun k hk =>
    h.off_of_free hal hle hfree hk
  by_cases href : MapRefused vm .kernel vaddr size
  · exact ⟨fun _ => ⟨-1, vm, vmmMapRegion_refused href, nofun⟩, fun _ _ => .inl href⟩
  obtain ⟨space, hacc⟩ := accepted_of_not_refused href
  refine ⟨fun hc => ?_, fun hna ⟨_, _, he, _⟩ => .inr fun k hk hne => ?_⟩
  · rcases map_accepted_cases flags type ht hacc hn hoff (fun _ hk _ => hk)
      (hc.resolve_left href) with ⟨M₁, h₁, he⟩ | ⟨j, M₁, M', -, -, -, -, he⟩
    · exact ⟨0, _, he, fun _ => h₁.rangeMapped ht.sound hal hle rfl⟩
    · exact ⟨-1, _, he, nofun⟩
  · refine (PagesIn.start (vmmFlagsToPageFlags flags) ht hoff).served_of_some ht hal hn hna
      (c := size / pageSize) (by omega) (fun hnone => ?_) (Nat.zero_le k) (by omega) hne
    rw [vmmMapRegion_accepted _ _ _ hacc, hnone] at he
    cases he

end Completes

/-! ## The last frame -/

section Last

variable {L : Layout} {vm : Vm}

theorem BootEffect.freeAtD0 {p : Pmm} {bytes : Bytes} {M : Machine}
    (h : BootEffect L p bytes M vm) (size : Nat) :
    FreeOfRegions vm.kernelSpace.regions 0xD0000000 size := by
  intro g hg a hle _ hholds
  have hend := (kernelRegion_bounds (h.regions.mem_iff.mp hg)).2
  have hlt := hholds.2
  omega

/-- After boot one page is mapped at `0xD0000000`. -/
theorem map_completes_after_boot : ∃ vm, sampleBootVm = some vm ∧
    MapCompletes sampleLayout vm 0xD0000000 4096 (vmmRead ||| vmmWrite) .kernelData := by
  obtain ⟨vm, M, hvm, hb, hlow, hreach⟩ := sampleBootVm_ok
  obtain ⟨-, -, hserved⟩ := hb.inv.mach.first_page 0xD0000000 (by omega) (by omega)
    family_D0
  exact ⟨vm, hvm, (map_completes_iff hb.inv (by decide) (by decide) (by decide)
    (hb.freeAtD0 4096)).1 (.inr fun k hk _ => Nat.lt_one_iff.mp hk ▸ hserved)⟩

/-- The state after `n` frames are taken by others. -/
def Vm.afterAllocs (vm : Vm) (n : Nat) : Vm :=
  { vm with mach := vm.mach.withPmm (allocs vm.mach.pmm n) }

theorem MachInv.allocs {dirs : List Nat} {M : Machine} (h : MachInv L dirs M) (n : Nat) :
    MachInv L dirs (M.withPmm (allocs M.pmm n)) := by
  induction n with
  | zero => exact h
  | succ n ih =>
    rcases frameAfter_cases h.tabled.sound n with ⟨-, he⟩ | ⟨-, -, t⟩
    · rw [he]; exact ih
    · exact ih.took t

theorem VmInv.afterAllocs (h : VmInv L vm) (n : Nat) : VmInv L (vm.afterAllocs n) :=
  ⟨h.mach.allocs n, h.heap, h.kernelDir, h.kernel, h.spaces, h.dirOk⟩

theorem allocs_reachable {p : Pmm} (h : p.Sound) {n : Nat} (hn : ∀ k < n, frameAfter p k ≠ 0) :
    reachable (allocs p n) + n = reachable p := by
  induction n with
  | zero => rfl
  | succ n ih =>
    rcases frameAfter_cases h n with ⟨h0, -⟩ | ⟨-, -, t⟩
    · exact absurd h0 (hn n (Nat.lt_succ_self n))
    · have := ih fun k hk => hn k (Nat.lt_succ_of_lt hk)
      have := t.reachable_eq
      omega

theorem exists_last {p : Pmm} (h : p.Sound) (h0 : frameAfter p 0 ≠ 0) :
    ∃ n, frameAfter p n ≠ 0 ∧ frameAfter p (n + 1) = 0 := by
  obtain ⟨m, hm, hfirst, hend⟩ := exists_served h (reachable p + 1)
  have hcount := allocs_reachable h hfirst
  have hz := hend (by omega)
  cases m with
  | zero => exact absurd hz h0
  | succ m => exact ⟨m, hfirst m (Nat.lt_succ_self m), hz⟩

/-- **With one frame left**, and no table for the page it is taken for, the kernel
faults. -/
theorem map_faults_without_table : ∃ vm₀ n, sampleBootVm = some vm₀ ∧
    frameAfter vm₀.mach.pmm n ≠ 0 ∧ frameAfter vm₀.mach.pmm (n + 1) = 0 ∧
    VmInv sampleLayout (vm₀.afterAllocs n) ∧
    FreeOfRegions (vm₀.afterAllocs n).kernelSpace.regions 0xD0000000 4096 ∧
    ¬ MapCompletes sampleLayout (vm₀.afterAllocs n) 0xD0000000 4096 (vmmRead ||| vmmWrite)
      .kernelData := by
  obtain ⟨vm₀, M, hvm, hb, hlow, hreach⟩ := sampleBootVm_ok
  obtain ⟨hpage, -, -⟩ := hb.inv.mach.first_page 0xD0000000 (by omega) (by omega)
    family_D0
  obtain ⟨n, hlast, hnone⟩ := exists_last hb.inv.mach.tabled.sound hpage
  have h := hb.inv.afterAllocs n
  refine ⟨vm₀, n, hvm, hlast, hnone, h, hb.freeAtD0 4096, ?_⟩
  rintro ⟨r, vm', he, -⟩
  have hclear : ClearAtD0 (vm₀.afterAllocs n) := hb.clearAtD0
  have hacc : MapAccepted (vm₀.afterAllocs n) .kernel vm₀.kernelSpace 0xD0000000 4096 :=
    hclear.accepted rfl (by decide)
  have hoff : ∀ k < 1, OffTables sampleLayout (vm₀.afterAllocs n).mach.phys (pageNo 0xD0000000 k) :=
    fun k hk => Nat.lt_one_iff.mp hk ▸ h.mach.off_of_family family_D0
  have hstart := PagesIn.start (vmmFlagsToPageFlags (vmmRead ||| vmmWrite)) h.mach.tabled hoff
  rw [vmmMapRegion_accepted _ _ _ hacc, show 4096 / pageSize = 0 + 1 from rfl,
    hstart.faults hlast hb.newTable_D0 (.inl hnone)] at he
  cases he

end Last

end TupleOS.Memory
