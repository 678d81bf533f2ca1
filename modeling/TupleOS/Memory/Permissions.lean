import TupleOS.Memory.FlatMap

/-!
# Page permissions

The MMU grants an access to a page if both entries of its walk do. The table
entry that `paging_map_page` writes has the caller's flags; the directory entry
has those of the call that made the table, with `PAGE_WRITE` added. So a page
gets the permissions asked for exactly when it does not ask for `PAGE_USER` under
a directory entry without it (`permissions_iff`).
-/

namespace TupleOS.Memory

open TupleOS.Base

def hasUser (bits : Nat) : Bool := bits.testBit 2

def hasWrite (bits : Nat) : Bool := bits.testBit 1

/-- The effective permissions of a page, user and write. -/
def perms (L : Layout) (m : Phys) (page : Nat) : Option (Bool × Bool) :=
  (walk m (pdFrame L) page).map fun (pde, pte) =>
    (hasUser pde && hasUser pte, hasWrite pde && hasWrite pte)

/-- The page has the permissions asked for, and the other mapped pages have theirs. -/
structure Granted (L : Layout) (m m' : Phys) (page flags : Nat) : Prop where
  here : perms L m' page = some (hasUser flags, hasWrite flags)
  others : ∀ u < 2 ^ 20, u ≠ page → perms L m u ≠ none → perms L m' u = perms L m u

/-- Not a user page under a directory entry that keeps users out. -/
def UserAllowed (L : Layout) (m : Phys) (page flags : Nat) : Prop :=
  hasUser flags = true → isPresent (pdeAt L m page) = true → hasUser (pdeAt L m page) = true

def WritableSlots (L : Layout) (m : Phys) : Prop :=
  ∀ s < 1024, isPresent (m (pdFrame L) s) = true → hasWrite (m (pdFrame L) s) = true

section Bits

theorem testBit_entry {i : Nat} (f b : Nat) (hi : i < 12) (hb : b < pageSize) :
    (f * pageSize + b).testBit i = b.testBit i := by
  unfold pageSize at *
  rw [show f * 4096 + b = 2 ^ 12 * f + b by omega, Nat.testBit_two_pow_mul_add f hb, if_pos hi]

theorem testBit_pteFor {i : Nat} (pa flags : Nat) (h0 : 0 < i) (hi : i < 12) :
    (pteFor pa flags).testBit i = flags.testBit i := by
  have hlt : flags % pageSize ||| pagePresent < pageSize :=
    Nat.or_lt_two_pow (n := 12) (Nat.mod_lt _ (by decide)) (by decide)
  unfold pteFor mkEntry roundDown
  rw [testBit_entry _ _ hi hlt, Nat.testBit_or, show pageSize = 2 ^ 12 from rfl,
    Nat.testBit_mod_two_pow, show pagePresent.testBit i = false from ?_, Bool.or_false,
    decide_eq_true hi, Bool.true_and]
  unfold pagePresent
  rw [show (1 : Nat) = 2 ^ 0 from rfl, Nat.testBit_two_pow]
  exact decide_eq_false (by omega)

theorem pdeFor_perms (f flags : Nat) :
    hasUser (pdeFor (f * pageSize) flags) = hasUser flags ∧
    hasWrite (pdeFor (f * pageSize) flags) = true := by
  have hb : flags &&& pageUser ≤ 4 := Nat.and_le_right
  have hlt : pagePresent ||| pageWrite ||| (flags &&& pageUser) < pageSize :=
    Nat.or_lt_two_pow (n := 12) (by decide) (Nat.lt_of_le_of_lt hb (by decide))
  unfold pdeFor mkEntry hasUser hasWrite
  rw [testBit_entry f _ (by omega) hlt, testBit_entry f _ (by omega) hlt]
  constructor
  · rw [Nat.testBit_or, Nat.testBit_and]
    simp only [show (pagePresent ||| pageWrite).testBit 2 = false from rfl,
      show pageUser.testBit 2 = true from rfl, Bool.false_or, Bool.and_true]
  · rw [Nat.testBit_or]
    simp only [show (pagePresent ||| pageWrite).testBit 1 = true from rfl, Bool.true_or]

end Bits

section Permissions

variable {L : Layout} {M M' : Machine} {m m' : Phys} {s s' : Paged} {va pa flags v e e' : Nat}

theorem MapsPage.perms (h : MapsPage L m m' v e (pteFor pa flags)) (hw : hasWrite e = true) :
    perms L m' v = some (hasUser e && hasUser flags, hasWrite flags) ∧
    ∀ u < 2 ^ 20, u ≠ v → Memory.perms L m' u = Memory.perms L m u := by
  refine ⟨?_, fun u hu huv => ?_⟩
  · unfold Memory.perms
    rw [h.here, Option.map_some]
    simp only [hw, Bool.true_and]
    unfold hasUser hasWrite
    rw [testBit_pteFor pa flags (by omega) (by omega), testBit_pteFor pa flags (by omega)
      (by omega)]
  · unfold Memory.perms
    rw [h.others u hu huv]

theorem MapsPage.writable (h : MapsPage L m m' v e e') (hW : WritableSlots L m)
    (hw : hasWrite e = true) : WritableSlots L m' := by
  intro s hs hp
  rcases h.slots s with hslot | hslot
  · rw [hslot] at hp ⊢
    exact hW s hs hp
  · rw [hslot]
    exact hw

theorem mapPage_pde (flags : Nat) (hW : WritableSlots L M.phys) (hva : va < 2 ^ 32) :
    hasWrite (if isPresent (pdeAt L M.phys (va / pageSize)) then pdeAt L M.phys (va / pageSize)
      else pdeFor (pmmAllocFrame M.pmm).1 flags) = true ∧
    (hasUser (if isPresent (pdeAt L M.phys (va / pageSize)) then pdeAt L M.phys (va / pageSize)
      else pdeFor (pmmAllocFrame M.pmm).1 flags) = true ∨ hasUser flags = false ↔
      UserAllowed L M.phys (va / pageSize) flags) := by
  unfold UserAllowed
  by_cases hp : isPresent (pdeAt L M.phys (va / pageSize)) = true
  · rw [if_pos hp]
    refine ⟨hW _ (page_slot (va_page_lt hva)) hp, ?_⟩
    simp only [hp, forall_const]
    cases hasUser flags <;> simp
  · rw [if_neg hp]
    have hb := pdeFor_perms (frameOf (pmmAllocFrame M.pmm).1) flags
    rw [← (pmmAllocFrame_frame M.pmm).1] at hb
    refine ⟨hb.2, ?_⟩
    rw [hb.1]
    simp only [hp, Bool.false_eq_true, IsEmpty.forall_iff, implies_true, iff_true]
    cases hasUser flags <;> simp

theorem WritableSlots.step {o : PageOp} (hW : WritableSlots L s.mach.phys) (h : PagedInv L s)
    (hok : o.Ok L s.mach) (he : pagedStep physMem L s o = some s') :
    WritableSlots L s'.mach.phys := by
  obtain ⟨M, hrun, rfl⟩ := Option.map_eq_some_iff.mp he
  cases o with
  | unmap va =>
    obtain ⟨M', hrun', -, hpd, -⟩ := unmapPage_effect h.tables hok
    cases hrun'.symm.trans hrun
    intro s hs hp
    rw [hpd] at hp ⊢
    exact hW s hs hp
  | map va pa flags =>
    by_cases heff : (PageOp.map va pa flags).Effective L s.mach
    · obtain ⟨M', hrun', hmap⟩ := mapPage_effect h.tables hok heff
      cases hrun'.symm.trans hrun
      exact hmap.writable hW (mapPage_pde flags hW hok.1).1
    · obtain ⟨p, hrun'⟩ := mapPage_refused h.tables hok.1 heff
      cases hrun'.symm.trans hrun
      exact hW

theorem StaticTables.writable (h : StaticTables L m) : WritableSlots L m := by
  intro s hs hp
  rcases slot_static_or_dyn hs with ⟨j, hj, rfl⟩ | hd
  · rw [h.slot j hj]
    exact testBit_entry _ _ (by omega) (by decide)
  · rw [h.absent s hd] at hp
    cases hp

/-- While the system's invariant holds, a mapping finds its tables and a fresh
frame for a new one. -/
theorem MachInv.pageOp_ok {dirs : List Nat} (h : MachInv L dirs M) (va pa flags : Nat)
    (hva : va < 2 ^ 32) (hpa : pa < 2 ^ 32)
    (hlow : isPresent (pdeAt L M.phys (va / pageSize)) = true ∨ 0 < lowFree M.pmm) :
    (PageOp.map va pa flags).Ok L M ∧ (PageOp.map va pa flags).Reached L M := by
  have hs := page_slot (va_page_lt hva)
  have hreach : ∀ f, 256 ≤ f → f < 1024 → M.Reaches f := fun f h1 h2 => by
    have := h.direct.frameAt h1 h2 (show 0 < 1024 by omega)
    rw [Nat.mul_zero, Nat.add_zero, ← physToVirt_low h2] at this
    exact this
  have hnew : isPresent (pdeAt L M.phys (va / pageSize)) = false → (pmmAllocFrame M.pmm).1 ≠ 0 →
      ¬ TableFrame L M.phys (frameOf (pmmAllocFrame M.pmm).1) ∧
        M.Reaches (frameOf (pmmAllocFrame M.pmm).1) := by
    intro hp h0
    rcases h.tables.pmmAllocFrame_cases with ⟨ha, -⟩ | ⟨t, p', ha, tk⟩
    · rw [ha] at h0
      exact absurd rfl h0
    · have hto := (tk.owned h.tables).1
      have hk := (kernelEndFrame_bounds L).1
      have hge := hto.ge
      have ht : frameOf (t * pageSize) = t := Nat.mul_div_cancel t (by decide)
      rw [ha, ht]
      refine ⟨h.tables.not_tableFrame hge hto.not_table, hreach t (by omega) (tk.low ?_)⟩
      exact hlow.resolve_left (by rw [hp]; exact Bool.false_ne_true)
  refine ⟨⟨hva, hpa, fun hp h0 => (hnew hp h0).1⟩, h.cr3, ?_, fun hp => ?_,
    fun hp h0 => (hnew hp h0).2⟩
  · exact hreach _ (staticFrames L).pd_ge (pdFrame_lt L)
  · obtain ⟨h1, h2, -⟩ := h.tables.slot_frame hs hp
    exact hreach _ h1 h2

/-- **A page gets the permissions asked for** exactly when it is not a user page
under a directory entry that keeps users out; the other pages keep theirs. -/
theorem permissions_iff {phys : Phys} {p : Pmm} {M₀ : Machine} {os : List PageOp}
    (hinit : pagingInitLoad L (bootStart L phys p) = some M₀)
    (hrun : Run (pagedStep machMem L) (fun s o => o.Ok L s.mach ∧ o.Reached L s.mach) ⟨M₀, []⟩ os s)
    (hok : (PageOp.map va pa flags).Ok L s.mach) (hr : (PageOp.map va pa flags).Reached L s.mach)
    (heff : (PageOp.map va pa flags).Effective L s.mach)
    (he : pagingMapPage machMem L s.mach va pa flags = some M') :
    Granted L s.mach.phys M'.phys (va / pageSize) flags ↔
      UserAllowed L s.mach.phys (va / pageSize) flags := by
  obtain ⟨M, hM, ht, -⟩ := pagingInitLoad_ok L phys p
  cases hM.symm.trans hinit
  obtain ⟨hinv, hW⟩ : PagedInv L s ∧ WritableSlots L s.mach.phys :=
    (run_reached ht.paged hrun).invariant (fun s => PagedInv L s ∧ WritableSlots L s.mach.phys)
      (fun h hok he => ⟨h.1.step hok he, h.2.step h.1 hok he⟩) ⟨ht.paged, ht.writable⟩
  obtain ⟨M₁, he₁, hmap⟩ := mapPage_effect hinv.tables hok heff
  have hsame : pagingMapPage machMem L s.mach va pa flags =
      pagingMapPage physMem L s.mach va pa flags := PageOp.run_reached hinv.tables hok hr
  cases (he.symm.trans hsame).trans he₁
  obtain ⟨hw, huser⟩ := mapPage_pde flags hW hok.1
  obtain ⟨here, others⟩ := hmap.perms hw
  rw [← huser]
  constructor
  · intro h
    have := here.symm.trans h.here
    simp only [Option.some.injEq, Prod.mk.injEq, and_true, Bool.and_eq_right_iff_imp] at this
    cases hu : hasUser flags with
    | true => exact .inl (this hu)
    | false => exact .inr rfl
  · intro h
    refine ⟨here.trans ?_, fun u hu huv _ => others u hu huv⟩
    rcases h with h | h
    · rw [h, Bool.true_and]
    · rw [h, Bool.and_false]

theorem samplePaging : ∃ M,
    pagingInitLoad sampleLayout (bootStart sampleLayout (fun _ _ => 0)
      (pmmInit sampleLayout (fun _ => 0#8) sampleMap)) = some M ∧
    StaticTables sampleLayout M.phys ∧ MachInv sampleLayout [] M ∧ 0 < lowFree M.pmm ∧
    (pmmAllocFrame M.pmm).1 ≠ 0 := by
  obtain ⟨htot, hfree⟩ := samplePmm
  obtain ⟨M, hinit, ht, hcr3, hpm⟩ := pagingInitLoad_ok sampleLayout (fun _ _ => 0)
    (pmmInit sampleLayout (fun _ => 0#8) sampleMap)
  have hres := pmmInit_reserves sampleLayout (fun _ => 0#8) sampleMap
  rw [← hpm] at htot hfree hres
  have hi : MachInv sampleLayout [] M := ht.inv hcr3 hres (by omega)
  have h288 := hfree 288 (by omega) (by omega)
  refine ⟨M, hinit, ht, hi, Bitmap.clearCount_pos h288 (by omega), ?_⟩
  obtain ⟨f, p', ha, tk⟩ := hi.tables.alloc_some
    (Bitmap.clearCount_pos h288 (by rw [htot]; omega))
  rw [ha]
  exact tk.ne_zero hi.tables

theorem samplePaging_map {M : Machine} (ht : StaticTables sampleLayout M.phys)
    (hi : MachInv sampleLayout [] M) (hlow : 0 < lowFree M.pmm) (h0 : (pmmAllocFrame M.pmm).1 ≠ 0)
    (flags : Nat) :
    (PageOp.map 0x400000 0xFD000000 flags).Ok sampleLayout M ∧
    (PageOp.map 0x400000 0xFD000000 flags).Reached sampleLayout M ∧
    isPresent (pdeAt sampleLayout M.phys 0x400) = false ∧
    ∃ M', pagingMapPage machMem sampleLayout M 0x400000 0xFD000000 flags = some M' ∧
      MapsPage sampleLayout M.phys M'.phys 0x400 (pdeFor (pmmAllocFrame M.pmm).1 flags)
        (pteFor 0xFD000000 flags) := by
  have habs : isPresent (pdeAt sampleLayout M.phys (0x400000 / pageSize)) = false := by
    rw [show pdeAt sampleLayout M.phys (0x400000 / pageSize) = 2 from
      ht.absent 1 ⟨by omega, by omega⟩]
    rfl
  obtain ⟨hok, hr⟩ := hi.pageOp_ok 0x400000 0xFD000000 flags (by omega) (by omega) (.inr hlow)
  obtain ⟨M', he, hmap⟩ := mapPage_effect ht.paged.tables hok (.inr h0)
  rw [if_neg (by rw [habs]; exact Bool.false_ne_true)] at hmap
  exact ⟨hok, hr, habs, M', (PageOp.run_reached ht.paged.tables hok hr).trans he, hmap⟩

/-- A user page in a table of its own. -/
theorem permissions_iff_user : ∃ M M',
    pagingMapPage machMem sampleLayout M 0x400000 0xFD000000 6 = some M' ∧
    Granted sampleLayout M.phys M'.phys (0x400000 / pageSize) 6 := by
  obtain ⟨M, hinit, ht, hi, hlow, h0⟩ := samplePaging
  obtain ⟨hok, hr, habs, M', he, -⟩ := samplePaging_map ht hi hlow h0 6
  refine ⟨M, M', he, (permissions_iff hinit (.nil _) hok hr (.inr h0) he).mpr fun _ hp => ?_⟩
  exact absurd (hp.symm.trans habs) Bool.noConfusion

/-- **A user page in a table made by a kernel page** is not a user page. -/
theorem user_page_denied : ∃ M₀ M₁ M₂,
    pagingInitLoad sampleLayout (bootStart sampleLayout (fun _ _ => 0)
      (pmmInit sampleLayout (fun _ => 0#8) sampleMap)) = some M₀ ∧
    pagingMapPage machMem sampleLayout M₀ 0x400000 0xFD000000 pageWrite = some M₁ ∧
    pagingMapPage machMem sampleLayout M₁ 0x401000 0xFD001000 (pageUser ||| pageWrite) = some M₂ ∧
    perms sampleLayout M₂.phys 0x401 = some (false, true) ∧
    ¬ Granted sampleLayout M₁.phys M₂.phys 0x401 (pageUser ||| pageWrite) := by
  obtain ⟨M₀, hinit, ht, hi, hlow, h0⟩ := samplePaging
  obtain ⟨-, -, -, M₁, he₁, hmap₁⟩ := samplePaging_map ht hi hlow h0 pageWrite
  -- the invariant of the system still holds
  obtain ⟨M₁', he₁', heff⟩ := hi.mapPage_ok 0xFD000000 pageWrite (show 0x400000 < 2 ^ 32 by omega)
    (.inl (by decide)) (.inr hlow) fun _ => .inr (.inl ⟨by decide, by decide⟩)
  cases he₁.symm.trans he₁'
  obtain ⟨hpde, hp, -, -⟩ := walk_some.mp hmap₁.here
  have hp₁ : isPresent (pdeAt sampleLayout M₁.phys (0x401000 / pageSize)) = true := by
    rw [show pdeAt sampleLayout M₁.phys (0x401000 / pageSize) = _ from hpde]
    exact hp
  obtain ⟨hok, hr⟩ := heff.inv.pageOp_ok 0x401000 0xFD001000 (pageUser ||| pageWrite) (by omega)
    (by omega) (.inl hp₁)
  obtain ⟨M₂, he₂, hmap₂⟩ := mapPage_effect hmap₁.tree hok (.inl hp₁)
  have hb := pdeFor_perms (frameOf (pmmAllocFrame M₀.pmm).1) pageWrite
  rw [← (pmmAllocFrame_frame M₀.pmm).1] at hb
  rw [if_pos hp₁, show pdeAt sampleLayout M₁.phys (0x401000 / pageSize) = _ from hpde] at hmap₂
  have hperms : perms sampleLayout M₂.phys 0x401 = some (false, true) := by
    refine (hmap₂.perms hb.2).1.trans ?_
    rw [hb.1]
    rfl
  refine ⟨M₀, M₁, M₂, hinit, he₁, (PageOp.run_reached hmap₁.tree hok hr).trans he₂, hperms,
    fun h => ?_⟩
  exact absurd (hperms.symm.trans h.here) (by decide)

end Permissions

end TupleOS.Memory
