import TupleOS.Memory.RegionLists

/-!
# Looking for a free range (`vmm_find_free_region` of `kernel/vmm.c`)

The search walks the sorted list with a candidate. It moves the candidate past a
region that holds it, and takes the candidate when it ends by the base of the
region after. A region that begins above the candidate is never looked at itself,
so a gap that is too small is taken all the same: the search always ends at the
lowest free page at or above the hint, and its answer is usable exactly when that
page has the room (`find_free_region_iff`). Where there is room anywhere, there
is an answer (`find_free_region_answers`).
-/

namespace TupleOS.Memory

open TupleOS.Base

/-- The loop of `vmm_find_free_region`, after the sizes are rounded. -/
def findFree (size candidate : Nat) : List Region → Nat
  | [] => 0
  | r :: rs =>
    let regionEnd := w32 (r.base + r.size)
    let candidate := if r.base ≤ candidate ∧ candidate < regionEnd then roundUp pageSize regionEnd
      else candidate
    if w32 (candidate + size) ≤ rs.head?.elim 0xFFFFF000 Region.base then candidate
    else findFree size candidate rs

def hintOr (startHint : Nat) : Nat := if startHint = 0 then 0xD0000000 else startHint

def vmmFindFreeRegion (space : Option AddressSpace) (size startHint : Nat) : Nat :=
  match space with
  | none => 0
  | some space =>
    findFree (roundUp pageSize size) (roundUp pageSize (hintOr startHint)) space.regions

/-! ## Pages -/

/-- The end of the page that `n` falls in, as an integer. -/
def pagesUp (n : Nat) : Nat := (n + 4095) / 4096 * 4096

section Pages

variable {n m : Nat}

theorem roundUp_page (h : n ≤ 0xFFFFF000) : roundUp pageSize n = pagesUp n :=
  roundUp_of_lt (by unfold pageSize; omega)

theorem roundUp_top (h : 0xFFFFF000 < n) (hn : n < 2 ^ 32) : roundUp pageSize n = 0 := by
  unfold roundUp roundDown w32 pageSize
  omega

theorem le_pagesUp : n ≤ pagesUp n := by unfold pagesUp; omega

theorem pagesUp_le (hm : 4096 ∣ m) (h : n ≤ m) : pagesUp n ≤ m := by unfold pagesUp; omega

theorem pagesUp_dvd : 4096 ∣ pagesUp n := Nat.dvd_mul_left _ _

theorem page_le_top (hn : 4096 ∣ n) (h : n < 2 ^ 32) : n ≤ 0xFFFFF000 := by omega

theorem w32_dvd (hn : 4096 ∣ n) : 4096 ∣ w32 n := by unfold w32; omega

end Pages

def skip (candidate : Nat) (r : Region) : Nat :=
  if r.base ≤ candidate ∧ candidate < w32 (r.base + r.size) then
    roundUp pageSize (w32 (r.base + r.size))
  else candidate

theorem findFree_cons (size candidate : Nat) (r : Region) (rs : List Region) :
    findFree size candidate (r :: rs) =
      if w32 (skip candidate r + size) ≤ rs.head?.elim 0xFFFFF000 Region.base then skip candidate r
      else findFree size (skip candidate r) rs := rfl

theorem skip_dvd {c : Nat} (hc : 4096 ∣ c) (r : Region) : 4096 ∣ skip c r := by
  unfold skip
  split
  · exact roundUp_dvd pageSize _
  · exact hc

/-- A region in 32-bit words, which may run over 4 GB. -/
def Region.Words (r : Region) : Prop := r.base < 2 ^ 32 ∧ r.size < 2 ^ 32

theorem holds_of_skip {r : Region} (hr : r.Words) {c : Nat}
    (h : r.base ≤ c ∧ c < w32 (r.base + r.size)) :
    r.Holds c ∧ w32 (r.base + r.size) = r.base + r.size := by
  obtain ⟨hbase, hsize⟩ := hr
  obtain ⟨h1, h2⟩ := h
  unfold Region.Holds
  unfold w32 at h2 ⊢
  omega

/-! ## There is an answer -/

/-- `x` is a page with room for `size` bytes in no region. -/
structure Room (rs : List Region) (hint size x : Nat) : Prop where
  page : 4096 ∣ x
  above : hint ≤ x
  fits : x + pagesUp size ≤ 0xFFFFF000
  free : ∀ r ∈ rs, ∀ a, x ≤ a → a < x + pagesUp size → ¬ r.Holds a

section Answer

variable {rs : List Region} {size x c : Nat}

theorem skip_le {r : Region} (hr : r.Words) (hx : 4096 ∣ x) (htop : x ≤ 0xFFFFF000)
    (hfree : ¬ r.Holds x) (h0 : 0 < c) (hc : c ≤ x) : 0 < skip c r ∧ skip c r ≤ x := by
  unfold skip
  split
  · rename_i hin
    obtain ⟨hholds, hend⟩ := holds_of_skip hr hin
    have hle : r.base + r.size ≤ x := by
      unfold Region.Holds at hholds hfree
      omega
    rw [hend, roundUp_page (by omega)]
    have := le_pagesUp (n := r.base + r.size)
    unfold Region.Holds at hholds
    exact ⟨by omega, pagesUp_le hx hle⟩
  · exact ⟨h0, hc⟩

theorem findFree_pos (hwords : ∀ r ∈ rs, r.Words) (hsize : 4096 ∣ size) (hx : 4096 ∣ x)
    (htop : x ≤ 0xFFFFF000) (hfree : ∀ r ∈ rs, ¬ r.Holds x) (hne : rs ≠ []) (hpage : 4096 ∣ c)
    (h0 : 0 < c) (hc : c ≤ x) : findFree size c rs ≠ 0 := by
  induction rs generalizing c with
  | nil => exact absurd rfl hne
  | cons r rs ih =>
    obtain ⟨h0', hc'⟩ := skip_le (hwords r (List.mem_cons_self ..)) hx htop
      (hfree r (List.mem_cons_self ..)) h0 hc
    have hpage' := skip_dvd hpage r
    rw [findFree_cons]
    split
    · omega
    · rename_i hno
      refine ih (fun g hg => hwords g (List.mem_cons_of_mem _ hg))
        (fun g hg => hfree g (List.mem_cons_of_mem _ hg)) (fun hnil => hno ?_) hpage' h0' hc'
      rw [hnil]
      exact page_le_top (w32_dvd (Nat.dvd_add hpage' hsize)) (w32_lt _)

end Answer

/-- **The search never misses room.** -/
theorem find_free_region_answers {space : AddressSpace} {size startHint x : Nat}
    (hwords : ∀ r ∈ space.regions, r.Words) (hne : space.regions ≠ []) (hsize : 0 < size)
    (hx : Room space.regions (hintOr startHint) size x) :
    vmmFindFreeRegion (some space) size startHint ≠ 0 := by
  have hfits := hx.fits
  have hup := le_pagesUp (n := size)
  have habove := hx.above
  have hhint : 0 < hintOr startHint := by
    unfold hintOr
    split <;> omega
  have hstart := le_pagesUp (n := hintOr startHint)
  have hfree : ∀ r ∈ space.regions, ¬ r.Holds x := fun r hr =>
    hx.free r hr x (Nat.le_refl x) (by omega)
  unfold vmmFindFreeRegion
  rw [roundUp_page (by omega), roundUp_page (by omega)]
  exact findFree_pos hwords pagesUp_dvd hx.page (by omega) hfree hne pagesUp_dvd (by omega)
    (pagesUp_le hx.page habove)

def oneRegion (base size : Nat) : AddressSpace := ⟨0, [⟨base, size, 0, .kernelData⟩], 1⟩

/-- Behind the one region of a space there is room, and an answer. -/
theorem find_free_region_answers_behind :
    Room (oneRegion 0xD0000000 0x1000).regions (hintOr 0) 0x1000 0xD0001000 ∧
      vmmFindFreeRegion (some (oneRegion 0xD0000000 0x1000)) 0x1000 0 ≠ 0 := by
  have hroom : Room (oneRegion 0xD0000000 0x1000).regions (hintOr 0) 0x1000 0xD0001000 := by
    refine ⟨by decide, by decide, by decide, fun r hr a hle hlt hholds => ?_⟩
    rw [List.mem_singleton.mp hr] at hholds
    have hend : a < 0xD0000000 + 0x1000 := hholds.2
    omega
  refine ⟨hroom, find_free_region_answers (x := 0xD0001000) ?_ (List.cons_ne_nil _ _) (by decide)
    hroom⟩
  intro r hr
  rw [List.mem_singleton.mp hr]
  exact ⟨by decide, by decide⟩

/-! ## The answer -/

/-- Sorted regions, no two of which share an address, all within 4 GB. -/
structure SortedRegions (rs : List Region) : Prop where
  sorted : rs.Pairwise fun r g => r.base ≤ g.base
  apart : rs.Pairwise fun r g => ∀ a, ¬ (r.Holds a ∧ g.Holds a)
  words : ∀ r ∈ rs, r.Words
  within : ∀ r ∈ rs, r.base + r.size ≤ 2 ^ 32

/-- The lowest page at or above the hint that no region holds. -/
structure LowestFree (rs : List Region) (hint c : Nat) : Prop where
  page : 4096 ∣ c
  above : hint ≤ c
  free : ∀ r ∈ rs, ¬ r.Holds c
  taken : ∀ q, 4096 ∣ q → hint ≤ q → q < c → ∃ r ∈ rs, r.Holds q

/-- The lowest free page has room up to the next region. -/
def LowestFits (rs : List Region) (hint size : Nat) : Prop :=
  ∃ c, LowestFree rs hint c ∧ c + pagesUp size ≤ 0xFFFFF000 ∧
    ∀ r ∈ rs, c + pagesUp size ≤ r.base ∨ r.base + r.size ≤ c

/-- A range that `vmm_map_region` can be called with. -/
structure UsableRange (rs : List Region) (hint size r : Nat) : Prop where
  page : 4096 ∣ r
  above : hint ≤ r
  fits : r + pagesUp size ≤ 0xFFFFF000
  free : ∀ g ∈ rs, ∀ a, r ≤ a → a < r + pagesUp size → ¬ g.Holds a
  accepted : rs.any (overlaps r (pagesUp size)) = false

section Sorted

variable {rs : List Region} {g : Region} {size c : Nat}

theorem SortedRegions.tail (h : SortedRegions (g :: rs)) : SortedRegions rs where
  sorted := (List.pairwise_cons.mp h.sorted).2
  apart := (List.pairwise_cons.mp h.apart).2
  words := fun r hr => h.words r (List.mem_cons_of_mem _ hr)
  within := fun r hr => h.within r (List.mem_cons_of_mem _ hr)

theorem SortedRegions.base_le (h : SortedRegions (g :: rs)) {r : Region} (hr : r ∈ rs) :
    g.base ≤ r.base :=
  (List.pairwise_cons.mp h.sorted).1 r hr

theorem SortedRegions.before (h : SortedRegions (g :: rs)) {r : Region} (hr : r ∈ rs) {p q : Nat}
    (hp : g.Holds p) (hq : r.Holds q) : p < q := by
  by_contra hle
  have hbase := h.base_le hr
  have hg : g.Holds q := by
    unfold Region.Holds at hp hq ⊢
    omega
  exact (List.pairwise_cons.mp h.apart).1 r hr q ⟨hg, hq⟩

theorem SortedRegions.head_le (h : SortedRegions rs) {r : Region} (hr : r ∈ rs) :
    rs.head?.elim 0xFFFFF000 Region.base ≤ r.base := by
  cases rs with
  | nil => cases hr
  | cons g rs =>
    rcases List.mem_cons.mp hr with rfl | hr
    · exact Nat.le_refl _
    · exact h.base_le hr

theorem findFree_zero (size : Nat) (hwords : ∀ r ∈ rs, r.Words) (h : ∀ r ∈ rs, ¬ r.Holds 0) :
    findFree size 0 rs = 0 := by
  induction rs with
  | nil => rfl
  | cons g rs ih =>
    have hskip : skip 0 g = 0 := by
      unfold skip
      refine if_neg fun hin => ?_
      exact h g (List.mem_cons_self ..) (holds_of_skip (hwords g (List.mem_cons_self ..)) hin).1
    rw [findFree_cons, hskip, ih (fun r hr => hwords r (List.mem_cons_of_mem _ hr))
      fun r hr => h r (List.mem_cons_of_mem _ hr), ite_self]

/-- What a region does to the candidate: it stays, outside the region, or goes to the
first page after it, which may be address `0`. -/
theorem skip_cases (hg : g.Words) (c : Nat) :
    (skip c g = c ∧ (g.base + g.size < 2 ^ 32 → ¬ g.Holds c)) ∨
      (g.Holds c ∧ g.base + g.size ≤ 0xFFFFF000 ∧ skip c g = pagesUp (g.base + g.size)) ∨
      (g.Holds c ∧ skip c g = 0) := by
  unfold skip
  split
  · rename_i hin
    obtain ⟨hholds, hend⟩ := holds_of_skip hg hin
    rw [hend]
    by_cases htop : g.base + g.size ≤ 0xFFFFF000
    · exact .inr (.inl ⟨hholds, htop, roundUp_page htop⟩)
    · exact .inr (.inr ⟨hholds, roundUp_top (by omega) (hend ▸ w32_lt _)⟩)
  · rename_i hout
    refine .inl ⟨rfl, fun hend => ?_⟩
    rwa [w32_of_lt hend] at hout

/-- What a search that finds something has gone past. -/
structure Found (rs : List Region) (size c r : Nat) : Prop where
  page : 4096 ∣ r
  above : c ≤ r
  taken : ∀ q, 4096 ∣ q → c ≤ q → q < r → ∃ g ∈ rs, g.Holds q
  free : r + size < 2 ^ 32 → ∀ g ∈ rs, g.base + g.size < 2 ^ 32 → ¬ g.Holds r

theorem found_here (h : SortedRegions (g :: rs)) (hsize : 0 < size) (hpage : 4096 ∣ c)
    (hout : g.base + g.size < 2 ^ 32 → ¬ g.Holds c)
    (hpass : w32 (c + size) ≤ rs.head?.elim 0xFFFFF000 Region.base) : Found (g :: rs) size c c := by
  refine ⟨hpage, Nat.le_refl c, fun q _ hcq hlt => absurd hlt (by omega), ?_⟩
  intro hwrap r hr hend
  rcases List.mem_cons.mp hr with rfl | hr
  · exact hout hend
  · intro hholds
    have hle := h.tail.head_le hr
    rw [w32_of_lt hwrap] at hpass
    unfold Region.Holds at hholds
    omega

/-- Going on: a candidate that stayed is not in the region, and nor is what is found
after it, for a later region that moves it on would begin below this one. -/
theorem Found.cons (h : SortedRegions (g :: rs)) (hpage : 4096 ∣ c)
    (hout : g.base + g.size < 2 ^ 32 → ¬ g.Holds c) {r : Nat} (hr : Found rs size c r) :
    Found (g :: rs) size c r := by
  have habove := hr.above
  refine ⟨hr.page, habove, fun q hq hcq hlt => ?_, fun hwrap r' hr' hend => ?_⟩
  · obtain ⟨r', hr', hholds⟩ := hr.taken q hq hcq hlt
    exact ⟨r', List.mem_cons_of_mem _ hr', hholds⟩
  · rcases List.mem_cons.mp hr' with rfl | hr'
    · intro hholds
      have hc := hout hend
      by_cases hsame : r = c
      · exact hc (hsame ▸ hholds)
      · obtain ⟨g', hg', hholds'⟩ := hr.taken c hpage (Nat.le_refl c) (by omega)
        have hbase := h.base_le hg'
        unfold Region.Holds at hholds hholds' hc
        omega
    · exact hr.free hwrap r' hr' hend

theorem Found.skip (hg : g.Holds c) (hmem : g ∈ rs) {r : Nat}
    (hr : Found rs size (pagesUp (g.base + g.size)) r) : Found rs size c r := by
  have hup := le_pagesUp (n := g.base + g.size)
  have habove := hr.above
  have hlt := hg.2
  refine ⟨hr.page, by omega, fun q hq hcq hqr => ?_, hr.free⟩
  by_cases hin : g.Holds q
  · exact ⟨g, hmem, hin⟩
  · refine hr.taken q hq (pagesUp_le hq ?_) hqr
    unfold Region.Holds at hg hin
    omega

/-- **The search stops at a free page after taken ones.** -/
theorem findFree_found (h : SortedRegions rs) (hsize : 0 < size) (hpage : 4096 ∣ c)
    (hne : findFree size c rs ≠ 0) : Found rs size c (findFree size c rs) := by
  induction rs generalizing c with
  | nil => exact absurd rfl hne
  | cons g rs ih =>
    -- The rest of the pass, for a candidate that this region does not hold.
    have hrest : ∀ c', 4096 ∣ c' → (g.base + g.size < 2 ^ 32 → ¬ g.Holds c') →
        ∀ r, r = (if w32 (c' + size) ≤ rs.head?.elim 0xFFFFF000 Region.base then c'
          else findFree size c' rs) → r ≠ 0 → Found (g :: rs) size c' r := by
      intro c' hpage' hout r hr hne'
      split at hr
      · rename_i hpass
        rw [hr]
        exact found_here h hsize hpage' hout hpass
      · rw [hr] at hne' ⊢
        exact (ih h.tail hpage' hne').cons h hpage' hout
    have hmem : g ∈ g :: rs := List.mem_cons_self ..
    rw [findFree_cons] at hne ⊢
    rcases skip_cases (h.words g hmem) c with ⟨heq, hout⟩ | ⟨hin, htop, heq⟩ | ⟨hin, heq⟩
    · rw [heq] at hne ⊢
      exact hrest c hpage hout _ rfl hne
    · rw [heq] at hne ⊢
      refine Found.skip hin hmem (hrest _ pagesUp_dvd (fun _ hholds => ?_) _ rfl hne)
      have hup := le_pagesUp (n := g.base + g.size)
      have hlt := hholds.2
      omega
    · -- The candidate has wrapped, and no region after one that held it holds `0`.
      have hzero := findFree_zero size h.tail.words fun r hr hholds =>
        absurd (h.before hr hin hholds) (Nat.not_lt_zero c)
      rw [heq, hzero, ite_self] at hne
      exact absurd rfl hne

end Sorted

/-- A range the overlap check accepts and that shares no address with a region is on one
side of it. -/
theorem side_of_accepted {g : Region} {r n : Nat} (hn : 0 < n) (htop : r + n < 2 ^ 32)
    (hend : g.base + g.size ≤ 2 ^ 32) (hbase : g.base < 2 ^ 32)
    (hfree : ∀ a, r ≤ a → a < r + n → ¬ g.Holds a) (hacc : overlaps r n g = false) :
    r + n ≤ g.base ∨ g.base + g.size ≤ r := by
  by_contra hno
  rw [not_or] at hno
  by_cases hlt : g.base + g.size < 2 ^ 32
  · unfold overlaps at hacc
    rw [w32_of_lt hlt, w32_of_lt htop] at hacc
    simp only [Bool.and_eq_false_iff, decide_eq_false_iff_not] at hacc
    omega
  · refine hfree (max r g.base) (Nat.le_max_left ..) (by omega) ⟨Nat.le_max_right .., by omega⟩

theorem accepted_of_side {g : Region} {r n : Nat} (htop : r + n < 2 ^ 32)
    (hside : r + n ≤ g.base ∨ g.base + g.size ≤ r) : overlaps r n g = false := by
  unfold overlaps
  rw [w32_of_lt htop]
  have hle : w32 (g.base + g.size) ≤ g.base + g.size := Nat.mod_le ..
  simp only [Bool.and_eq_false_iff, decide_eq_false_iff_not]
  omega

section Usable

variable {rs : List Region} {hint size c r : Nat}

theorem UsableRange.lowest (h : SortedRegions rs) (hsize : 0 < size)
    (hu : UsableRange rs hint size r)
    (hfound : Found rs (pagesUp size) (pagesUp hint) r) : LowestFits rs hint size := by
  have hfits := hu.fits
  have hup := le_pagesUp (n := size)
  refine ⟨r, ⟨hu.page, hu.above, fun g hg => hu.free g hg r (Nat.le_refl r) (by omega), ?_⟩,
    hfits, fun g hg => ?_⟩
  · exact fun q hq hle hlt => hfound.taken q hq (pagesUp_le hq hle) hlt
  · exact side_of_accepted (by omega) (by omega) (h.within g hg) (h.words g hg).1 (hu.free g hg)
      (by simpa using List.any_eq_false.mp hu.accepted g hg)

theorem Found.eq_lowest (hc : LowestFree rs hint c) (hfits : c + pagesUp size ≤ 0xFFFFF000)
    (hfound : Found rs (pagesUp size) (pagesUp hint) r) : r = c := by
  have hle : r ≤ c := by
    by_contra hlt
    obtain ⟨g, hg, hholds⟩ := hfound.taken c hc.page (pagesUp_le hc.page hc.above) (by omega)
    exact hc.free g hg hholds
  by_contra hne
  have hstart := le_pagesUp (n := hint)
  have habove := hfound.above
  obtain ⟨g, hg, hholds⟩ := hc.taken r hfound.page (by omega) (by omega)
  -- A region that reaches the end of memory would hold `c` as well.
  have hend : g.base + g.size < 2 ^ 32 := by
    by_contra hge
    refine hc.free g hg ⟨?_, ?_⟩
    · exact Nat.le_trans hholds.1 hle
    · omega
  exact hfound.free (by omega) g hg hend hholds

theorem usable_of_lowest (hc : LowestFree rs hint c) (hfits : c + pagesUp size ≤ 0xFFFFF000)
    (hside : ∀ g ∈ rs, c + pagesUp size ≤ g.base ∨ g.base + g.size ≤ c) :
    UsableRange rs hint size c := by
  refine ⟨hc.page, hc.above, hfits, fun g hg a hle hlt hholds => ?_, ?_⟩
  · have hs := hside g hg
    unfold Region.Holds at hholds
    omega
  · refine List.any_eq_false.mpr fun g hg => ?_
    rw [accepted_of_side (by omega) (hside g hg)]
    exact Bool.false_ne_true

end Usable

/-- **An answer is usable exactly when the lowest free page has the room.** -/
theorem find_free_region_iff {space : AddressSpace} (h : SortedRegions space.regions)
    {size startHint : Nat} (hsize : 0 < size)
    (hne : vmmFindFreeRegion (some space) size startHint ≠ 0) :
    UsableRange space.regions (hintOr startHint) size
        (vmmFindFreeRegion (some space) size startHint) ↔
      LowestFits space.regions (hintOr startHint) size := by
  have hsizeUp := le_pagesUp (n := size)
  -- Both sides leave the rounded size and hint unwrapped.
  have hfound : ∀ x, hintOr startHint ≤ x → x + pagesUp size ≤ 0xFFFFF000 →
      Found space.regions (pagesUp size) (pagesUp (hintOr startHint))
        (vmmFindFreeRegion (some space) size startHint) := by
    intro x hle hfits
    unfold vmmFindFreeRegion at hne ⊢
    rw [roundUp_page (n := size) (by omega), roundUp_page (n := hintOr startHint) (by omega)]
      at hne ⊢
    exact findFree_found h (by omega) pagesUp_dvd hne
  constructor
  · intro hu
    exact hu.lowest h hsize (hfound _ hu.above hu.fits)
  · rintro ⟨c, hc, hfits, hside⟩
    rw [(hfound c hc.above hfits).eq_lowest hc hfits]
    exact usable_of_lowest hc hfits hside

theorem oneRegion_sorted {base size : Nat} (hbase : base < 2 ^ 32) (hsize : size < 2 ^ 32)
    (hend : base + size ≤ 2 ^ 32) : SortedRegions (oneRegion base size).regions where
  sorted := List.pairwise_singleton ..
  apart := List.pairwise_singleton ..
  words := fun _ hr => List.mem_singleton.mp hr ▸ ⟨hbase, hsize⟩
  within := fun _ hr => List.mem_singleton.mp hr ▸ hend

/-- Behind a region at the hint the lowest free page has the room. -/
theorem find_free_region_iff_behind :
    UsableRange (oneRegion 0xD0000000 0x1000).regions (hintOr 0) 0x1000
        (vmmFindFreeRegion (some (oneRegion 0xD0000000 0x1000)) 0x1000 0) ↔
      LowestFits (oneRegion 0xD0000000 0x1000).regions (hintOr 0) 0x1000 :=
  find_free_region_iff (oneRegion_sorted (by decide) (by decide) (by decide)) (by decide)
    (by decide)

/-- Below a region one page above the hint, two pages are found to be free. -/
theorem find_free_region_overlaps :
    SortedRegions (oneRegion 0xD0001000 0x1000).regions ∧
      vmmFindFreeRegion (some (oneRegion 0xD0001000 0x1000)) 0x2000 0 = 0xD0000000 ∧
      ¬ UsableRange (oneRegion 0xD0001000 0x1000).regions (hintOr 0) 0x2000 0xD0000000 := by
  refine ⟨oneRegion_sorted (by decide) (by decide) (by decide), by decide, fun h => ?_⟩
  exact absurd h.accepted (by decide)

end TupleOS.Memory
