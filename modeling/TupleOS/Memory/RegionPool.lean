import TupleOS.Base.Linked
import TupleOS.Memory.Vmm

/-!
# The region pool (`kernel/vmm.c`)

`Vmm` keeps the regions of a space as a list. In the source they are nodes of a static pool,
linked by pointers, and the lists of all spaces share the pool. Here is that level: a `Pool` has
the fields of each node apart from its pointer, and each space has a first node and a counter.

A call can fail to return in two ways. `Stop.list` is a loop over a list that does not end, or a
null pointer read there; `Stop.pages` is the work on the pages, between the search and the edit of
the list. While every space has its list and no two share a node (`Linked`), `insert_region` of a
new node and `remove_region` of one of the list return, and edit that list by the one node
(`Linked.insertRegion`, `Linked.removeRegion`).
-/

namespace TupleOS.Memory

open TupleOS.Base

structure SpaceHead where
  regions : Option Nat
  regionCount : Nat

/-- The machine, `region_pool` and the spaces. A node is named by its index. -/
structure Pool where
  mach : Machine
  /-- The fields of a node, without `next`. -/
  region : Nat → Region
  next : Nat → Option Nat
  regionPoolUsed : Nat
  spaces : Nat → SpaceHead

inductive Stop where
  | list | pages
  deriving DecidableEq, Repr

/-- The loop returns, or the call stops. -/
def orStop {α : Type} (e : Stop) : Option α → Except Stop α
  | none => .error e
  | some a => .ok a

namespace Pool

variable (st : Pool)

def start (m : Machine) : Pool where
  mach := m
  region _ := ⟨0, 0, 0, .free⟩
  next _ := none
  regionPoolUsed := 0
  spaces _ := ⟨none, 0⟩

def setSpace (s : Nat) (a : SpaceHead) : Pool :=
  { st with spaces := Function.update st.spaces s a }

/-- `alloc_region`; `none` is `NULL`. -/
def allocRegion : Option (Nat × Pool) :=
  if vmmMaxRegions ≤ st.regionPoolUsed then none
  else some (st.regionPoolUsed,
    { st with
      region := Function.update st.region st.regionPoolUsed ⟨0, 0, 0, .free⟩
      next := link st.next st.regionPoolUsed none
      regionPoolUsed := st.regionPoolUsed + 1 })

/-- The four assignments to a new node. -/
def setRegion (i : Nat) (r : Region) : Pool :=
  { st with region := Function.update st.region i r }

def insertRegion (s region : Nat) : Except Stop Pool :=
  let space := st.spaces s
  let count := w32 (space.regionCount + 1)
  let front : Pool := { st with next := link st.next region space.regions }
  match space.regions with
  | none => .ok (front.setSpace s ⟨some region, count⟩)
  | some first =>
    if (st.region region).base < (st.region first).base then
      .ok (front.setSpace s ⟨some region, count⟩)
    else do
      let curr ← orStop .list <| walkWhile st.next
        (fun j => (st.region j).base < (st.region region).base) vmmMaxRegions first
      let next := link (link st.next region (st.next curr)) curr (some region)
      .ok ({ st with next := next }.setSpace s { space with regionCount := count })

def removeRegion (s region : Nat) : Except Stop Pool :=
  let space := st.spaces s
  let count := sub32 space.regionCount 1
  match space.regions with
  | none => .error .list
  | some first =>
    if first = region then .ok (st.setSpace s ⟨st.next region, count⟩)
    else do
      let curr ← orStop .list <| walkWhile st.next (fun j => j ≠ region) vmmMaxRegions first
      if st.next curr = some region then
        .ok ({ st with next := link st.next curr (st.next region) }.setSpace s
          { space with regionCount := count })
      else .ok st

/-- The first node of a space that passes the test. -/
def findRegion (s : Nat) (p : Region → Bool) : Except Stop (Option Nat) :=
  orStop .list <|
    search st.next (fun i => p (st.region i)) (vmmMaxRegions + 1) (st.spaces s).regions

def registerExistingRegion (s : Nat) (r : Region) : Except Stop Pool :=
  match st.allocRegion with
  | none => .ok st
  | some (i, st) => (st.setRegion i r).insertRegion s i

def vmmMapRegion (L : Layout) (s : Option Nat) (r : Region) : Except Stop (Int × Pool) :=
  match s with
  | none => .ok (-1, st)
  | some s =>
    if r.base % pageSize ≠ 0 then .ok (-1, st)
    else if r.size % pageSize ≠ 0 then .ok (-1, st)
    else do
      let existing ← st.findRegion s (overlaps r.base r.size)
      if existing.isSome then .ok (-1, st)
      else do
        let (ok, m) ← orStop .pages <|
          mapPages L st.mach r.base (vmmFlagsToPageFlags r.flags) 0 (r.size / pageSize)
        let st := { st with mach := m }
        if ok then
          match st.allocRegion with
          | none => do
            let m ← orStop .pages <| undoPages L st.mach r.base 0 (r.size / pageSize)
            .ok (-1, { st with mach := m })
          | some (i, st) => do
            let st ← (st.setRegion i r).insertRegion s i
            .ok (0, st)
        else .ok (-1, st)

/-- The loop `for (offset = 0; offset < size; offset += PAGE_SIZE)` of `vmm_unmap_region`. Past
the last page the offset wraps before it reaches such a size. -/
def releaseRegion (L : Layout) (r : Region) : Option Machine :=
  if 2 ^ 32 - pageSize < r.size then none
  else releasePages L (roundDown pageSize) st.mach r.base 0
    ((r.size + (pageSize - 1)) / pageSize)

def vmmUnmapRegion (L : Layout) (s : Option Nat) (vaddr : Nat) : Except Stop (Int × Pool) :=
  match s with
  | none => .ok (-1, st)
  | some s => do
    match ← st.findRegion s (fun r => r.base = vaddr) with
    | none => .ok (-1, st)
    | some region =>
      if (st.region region).type.val ≤ RegionType.identityMap.val then .ok (-1, st)
      else do
        let m ← orStop .pages <| st.releaseRegion L (st.region region)
        let st ← { st with mach := m }.removeRegion s region
        .ok (0, st)

end Pool

/-! ## The lists -/

/-- The nodes of a space, in order. -/
structure IsList (st : Pool) (s : Nat) (l : List Nat) : Prop where
  chain : Chain st.next (st.spaces s).regions l
  nodup : l.Nodup
  ascending : l.Pairwise fun i j => (st.region i).base ≤ (st.region j).base
  count : (st.spaces s).regionCount = l.length

/-- Every space has its list, and no two lists share a node. -/
structure Linked (st : Pool) (lists : Nat → List Nat) : Prop where
  isList : ∀ s, IsList st s (lists s)
  apart : ∀ s k, s ≠ k → (lists s).Disjoint (lists k)
  allocated : ∀ s, ∀ i ∈ lists s, i < st.regionPoolUsed
  used_le : st.regionPoolUsed ≤ vmmMaxRegions

section Lists

variable {st st' : Pool} {lists : Nat → List Nat} {s i : Nat} {l pre post : List Nat}

theorem linked_start (m : Machine) : Linked (Pool.start m) fun _ => [] where
  isList _ := ⟨rfl, List.nodup_nil, List.Pairwise.nil, rfl⟩
  apart _ _ _ := List.disjoint_nil_left _
  allocated _ _ h := absurd h List.not_mem_nil
  used_le := Nat.zero_le _

theorem IsList.unique {l' : List Nat} (h : IsList st s l) (h' : IsList st s l') : l = l' :=
  h.chain.unique h'.chain

theorem IsList.congr (h : IsList st s l) (hspace : st'.spaces s = st.spaces s)
    (hnext : ∀ j ∈ l, st'.next j = st.next j) (hregion : ∀ j ∈ l, st'.region j = st.region j) :
    IsList st' s l where
  chain := hspace ▸ h.chain.congr hnext
  nodup := h.nodup
  ascending := by
    apply h.ascending.imp_of_mem
    intro a b ha hb hab
    rwa [hregion a ha, hregion b hb]
  count := hspace ▸ h.count

theorem Linked.length_le (h : Linked st lists) (s : Nat) : (lists s).length ≤ vmmMaxRegions := by
  have hsub : (lists s).toFinset ⊆ Finset.range st.regionPoolUsed := by
    intro j hj
    exact Finset.mem_range.mpr (h.allocated s j (List.mem_toFinset.mp hj))
  have hcard := Finset.card_le_card hsub
  rw [List.toFinset_card_of_nodup (h.isList s).nodup, Finset.card_range] at hcard
  exact hcard.trans h.used_le

/-- **One list is edited**; the links of the others stay. -/
theorem Linked.edit (h : Linked st lists) (hl : IsList st' s l)
    (hspaces : ∀ k, k ≠ s → st'.spaces k = st.spaces k)
    (hnext : ∀ k, k ≠ s → ∀ j ∈ lists k, st'.next j = st.next j)
    (hregion : st'.region = st.region) (hused : st'.regionPoolUsed = st.regionPoolUsed)
    (hmem : ∀ j ∈ l, j < st.regionPoolUsed) (hapart : ∀ k, k ≠ s → l.Disjoint (lists k)) :
    Linked st' (Function.update lists s l) where
  isList k := by
    by_cases hk : k = s
    · subst hk
      rwa [Function.update_self]
    · rw [Function.update_of_ne hk]
      exact (h.isList k).congr (hspaces k hk) (hnext k hk) fun j _ => congrFun hregion j
  apart a b hab := by
    by_cases ha : a = s
    · subst ha
      rw [Function.update_self, Function.update_of_ne hab.symm]
      exact hapart b hab.symm
    · rw [Function.update_of_ne ha]
      by_cases hb : b = s
      · subst hb
        rw [Function.update_self]
        exact (hapart a ha).symm
      · rw [Function.update_of_ne hb]
        exact h.apart a b hab
  allocated k j hj := by
    rw [hused]
    by_cases hk : k = s
    · subst hk
      rw [Function.update_self] at hj
      exact hmem j hj
    · rw [Function.update_of_ne hk] at hj
      exact h.allocated k j hj
  used_le := hused ▸ h.used_le

/-! ## `insert_region` -/

/-- A node goes between those that start before it and those that do not. -/
theorem Linked.inserted (h : Linked st lists) (hi : i < st.regionPoolUsed)
    (hnew : ∀ k, i ∉ lists k) (hsplit : lists s = pre ++ post)
    (hpre : ∀ a ∈ pre, (st.region a).base ≤ (st.region i).base)
    (hpost : ∀ b ∈ post, (st.region i).base ≤ (st.region b).base)
    {next : Nat → Option Nat} {head : Option Nat} (hchain : Chain next head (pre ++ i :: post))
    (hnext : ∀ j, j ≠ i → j ∉ lists s → next j = st.next j) :
    Linked ({ st with next := next }.setSpace s ⟨head, w32 ((st.spaces s).regionCount + 1)⟩)
      (Function.update lists s (pre ++ i :: post)) := by
  have hlist := h.isList s
  have hlen := h.length_le s
  rw [hsplit] at hlist hlen
  have hfresh : i ∉ pre ++ post := hsplit ▸ hnew s
  have hcount : w32 ((st.spaces s).regionCount + 1) = (pre ++ i :: post).length := by
    rw [hlist.count, w32_of_lt (by rw [vmmMaxRegions] at hlen; omega)]
    simp only [List.length_append, List.length_cons]
    omega
  apply h.edit
  · constructor
    · simpa only [Pool.setSpace, Function.update_self] using hchain
    · exact List.nodup_middle.mpr (List.nodup_cons.mpr ⟨hfresh, hlist.nodup⟩)
    · obtain ⟨hp, hq, hpq⟩ := List.pairwise_append.mp hlist.ascending
      refine List.pairwise_append.mpr ⟨hp, List.pairwise_cons.mpr ⟨hpost, hq⟩, ?_⟩
      intro a ha b hb
      obtain rfl | hb := List.mem_cons.mp hb
      · exact hpre a ha
      · exact hpq a ha b hb
    · simpa only [Pool.setSpace, Function.update_self] using hcount
  · intro k hk
    exact Function.update_of_ne hk _ _
  · intro k hk j hj
    exact hnext j (ne_of_mem_of_not_mem hj (hnew k)) (h.apart k s hk hj)
  · rfl
  · rfl
  · intro j hj
    obtain rfl | hj := List.mem_cons.mp (List.perm_middle.mem_iff.mp hj)
    · exact hi
    · exact h.allocated s j (hsplit ▸ hj)
  · intro k hk j hj hjk
    obtain rfl | hj := List.mem_cons.mp (List.perm_middle.mem_iff.mp hj)
    · exact hnew k hjk
    · exact h.apart k s hk hjk (hsplit ▸ hj)

theorem insertAfter_eq (r : Region) (c : Region) (l : List Region) :
    insertAfter r (c :: l) = c :: (l.takeWhile (fun g => g.base < r.base) ++
      r :: l.dropWhile fun g => g.base < r.base) := by
  induction l generalizing c with
  | nil => rfl
  | cons d l ih =>
    rw [insertAfter, List.takeWhile_cons, List.dropWhile_cons]
    by_cases hd : d.base < r.base
    · simp only [hd, ↓reduceIte, decide_true, ih, List.cons_append]
    · simp only [hd, ↓reduceIte, decide_false, Bool.false_eq_true, List.nil_append]

theorem le_of_mem_dropWhile {f : Nat → Nat} {b : Nat} (h : l.Pairwise fun i j => f i ≤ f j) :
    ∀ j ∈ l.dropWhile (fun i => f i < b), b ≤ f j := by
  induction l with
  | nil => exact fun j hj => absurd hj List.not_mem_nil
  | cons c l ih =>
    obtain ⟨hc, hl⟩ := List.pairwise_cons.mp h
    intro j hj
    rw [List.dropWhile_cons] at hj
    by_cases hcb : f c < b
    · rw [if_pos (decide_eq_true hcb)] at hj
      exact ih hl j hj
    · rw [if_neg (by simpa using hcb)] at hj
      obtain rfl | hj := List.mem_cons.mp hj
      · exact Nat.le_of_not_lt hcb
      · exact (Nat.le_of_not_lt hcb).trans (hc j hj)

/-- `st'` is `st` with other links and another head of the space `s`. -/
structure Relinked (st st' : Pool) (s : Nat) : Prop where
  mach : st'.mach = st.mach
  region : st'.region = st.region
  used : st'.regionPoolUsed = st.regionPoolUsed
  spaces : ∀ k, k ≠ s → st'.spaces k = st.spaces k

/-- The node `i` of `st'` stands between those of `pre` and `post`, where the function on lists puts
its region. -/
structure InsertedAt (st st' : Pool) (lists : Nat → List Nat) (s i : Nat) (pre post : List Nat) :
    Prop where
  relinked : Relinked st st' s
  split : lists s = pre ++ post
  linked : Linked st' (Function.update lists s (pre ++ i :: post))
  refines : ∀ dir,
    insertRegion ⟨dir, (lists s).map st.region, (st.spaces s).regionCount⟩ (st.region i) =
      ⟨dir, (pre ++ i :: post).map st'.region, (st'.spaces s).regionCount⟩

section Insert

variable (h : Linked st lists) (hi : i < st.regionPoolUsed) (hnew : ∀ k, i ∉ lists k)
include h hi hnew

theorem Linked.insertRegion_front
    (hlt : ∀ j ∈ lists s, (st.region i).base < (st.region j).base) :
    ∃ st', st.insertRegion s i = .ok st' ∧ InsertedAt st st' lists s i [] (lists s) := by
  have hchain := (h.isList s).chain
  refine ⟨{ st with next := link st.next i (st.spaces s).regions }.setSpace s
    ⟨some i, w32 ((st.spaces s).regionCount + 1)⟩, ?_, ?_⟩
  · rw [Pool.insertRegion]
    cases hl : lists s with
    | nil =>
      rw [hl] at hchain
      have hhead : (st.spaces s).regions = none := hchain
      simp only [hhead]
    | cons first l =>
      rw [hl] at hchain hlt
      simp only [hchain.1, hlt first (List.mem_cons_self ..), ↓reduceIte]
  · constructor
    · exact ⟨rfl, rfl, rfl, fun k hk => Function.update_of_ne hk ..⟩
    · rfl
    · apply h.inserted hi hnew rfl
      · exact fun a ha => absurd ha List.not_mem_nil
      · exact fun b hb => (hlt b hb).le
      · exact hchain.insert_head (hnew s)
      · exact fun j hj _ => link_of_ne _ hj
    · intro dir
      cases hl : lists s with
      | nil => simp [insertRegion, Pool.setSpace]
      | cons first l =>
        have hfirst := hlt first (hl ▸ List.mem_cons_self ..)
        simp [insertRegion, Pool.setSpace, hfirst]

/-- The node goes after the last one that starts before it, or after the first if that one
starts with it. -/
theorem Linked.insertRegion_walk {first : Nat} (hl : lists s = first :: l)
    (hge : (st.region first).base ≤ (st.region i).base) :
    ∃ st' pre post, st.insertRegion s i = .ok st' ∧ InsertedAt st st' lists s i pre post := by
  have hlist := h.isList s
  have hlen := h.length_le s
  rw [hl] at hlist hlen
  obtain ⟨hhead, hrest⟩ := hlist.chain
  obtain ⟨pre, c, hsplit, hwalk⟩ := walkWhile_spec
    (p := fun j => (st.region j).base < (st.region i).base) hrest hlen
  generalize hpost : l.dropWhile (fun j => (st.region j).base < (st.region i).base) = post
  have hwhole : first :: l = pre ++ c :: post := by
    rw [List.append_cons, ← hsplit, List.cons_append, ← hpost, List.takeWhile_append_dropWhile]
  have hnotin : i ∉ pre ++ c :: post := hwhole ▸ hl ▸ hnew s
  refine ⟨{ st with next := link (link st.next i (st.next c)) c (some i) }.setSpace s
    ⟨some first, w32 ((st.spaces s).regionCount + 1)⟩, pre ++ [c], post, ?_, ?_⟩
  · simp only [Pool.insertRegion, hhead, hge.not_gt, ↓reduceIte, hwalk, orStop]
    rfl
  · constructor
    · exact ⟨rfl, rfl, rfl, fun k hk => Function.update_of_ne hk ..⟩
    · rw [hl, hwhole, List.append_cons]
    · apply h.inserted hi hnew
      · rw [hl, hwhole, List.append_cons]
      · -- the first node may start with the new one, the others the walk passed start before it
        intro a ha
        rw [← hsplit] at ha
        obtain rfl | ha := List.mem_cons.mp ha
        · exact hge
        · have hbase := List.all_eq_true.mp (List.all_takeWhile ..) a ha
          exact (of_decide_eq_true hbase).le
      · exact hpost ▸ le_of_mem_dropWhile (List.pairwise_cons.mp hlist.ascending).2
      · rw [← List.append_cons]
        exact (hhead ▸ hwhole ▸ hlist.chain).insert_after (hwhole ▸ hlist.nodup) hnotin
      · intro j hj hjs
        have hjc : j ≠ c := by
          rintro rfl
          exact hjs (hl ▸ hwhole ▸ List.mem_append_cons_self)
        rw [link_of_ne _ hjc, link_of_ne _ hj]
    · intro dir
      rw [← hsplit, ← hpost]
      simp only [insertRegion, hl, List.map_cons, hge.not_gt, ↓reduceIte, insertAfter_eq,
        List.takeWhile_map, List.dropWhile_map, Function.comp_def, List.cons_append,
        List.map_append, Pool.setSpace, Function.update_self]

/-- **`insert_region`** returns, and the node is in the list. -/
theorem Linked.insertRegion (s : Nat) :
    ∃ st' pre post, st.insertRegion s i = .ok st' ∧ InsertedAt st st' lists s i pre post := by
  by_cases hlt : ∀ j ∈ lists s, (st.region i).base < (st.region j).base
  · obtain ⟨st', hst', hat⟩ := h.insertRegion_front hi hnew hlt
    exact ⟨st', [], lists s, hst', hat⟩
  · cases hl : lists s with
    | nil => exact absurd (fun j hj => absurd (hl ▸ hj) List.not_mem_nil) hlt
    | cons first l =>
      apply h.insertRegion_walk hi hnew hl
      by_contra hfirst
      apply hlt
      have hasc := (h.isList s).ascending
      rw [hl] at hasc ⊢
      intro j hj
      obtain rfl | hj := List.mem_cons.mp hj
      · omega
      · have := (List.pairwise_cons.mp hasc).1 j hj
        omega

end Insert

/-! ## `remove_region` -/

/-- A node is taken out of a list. -/
theorem Linked.removed (h : Linked st lists) (hsplit : lists s = pre ++ i :: post)
    {next : Nat → Option Nat} {head : Option Nat} (hchain : Chain next head (pre ++ post))
    (hnext : ∀ j, j ∉ lists s → next j = st.next j) :
    Linked ({ st with next := next }.setSpace s ⟨head, sub32 (st.spaces s).regionCount 1⟩)
      (Function.update lists s (pre ++ post)) := by
  have hlist := h.isList s
  have hlen := h.length_le s
  rw [hsplit] at hlist hlen
  have hsub : List.Sublist (pre ++ post) (pre ++ i :: post) :=
    (List.sublist_cons_self i post).append_left pre
  have hcount : sub32 (st.spaces s).regionCount 1 = (pre ++ post).length := by
    rw [hlist.count]
    simp only [List.length_append, List.length_cons] at hlen ⊢
    rw [sub32_of_le (by omega) (by rw [vmmMaxRegions] at hlen; omega)]
    omega
  have hmem : ∀ j ∈ pre ++ post, j ∈ lists s := fun j hj => hsplit ▸ hsub.mem hj
  apply h.edit
  · constructor
    · simpa only [Pool.setSpace, Function.update_self] using hchain
    · exact hlist.nodup.sublist hsub
    · exact hlist.ascending.sublist hsub
    · simpa only [Pool.setSpace, Function.update_self] using hcount
  · intro k hk
    exact Function.update_of_ne hk _ _
  · intro k hk j hj
    exact hnext j (h.apart k s hk hj)
  · rfl
  · rfl
  · exact fun j hj => h.allocated s j (hmem j hj)
  · exact fun k hk j hj hjk => h.apart k s hk hjk (hmem j hj)

/-- The node `i` of `st` stood between those of `pre` and `post`. -/
structure RemovedAt (st st' : Pool) (lists : Nat → List Nat) (s i : Nat) (pre post : List Nat) :
    Prop where
  relinked : Relinked st st' s
  split : lists s = pre ++ i :: post
  linked : Linked st' (Function.update lists s (pre ++ post))
  count : (st'.spaces s).regionCount = sub32 (st.spaces s).regionCount 1

/-- **`remove_region`** of a node of the list returns, and that node is gone. -/
theorem Linked.removeRegion (h : Linked st lists) (hsplit : lists s = pre ++ i :: post) :
    ∃ st', st.removeRegion s i = .ok st' ∧ RemovedAt st st' lists s i pre post := by
  have hlist := h.isList s
  have hlen := h.length_le s
  rw [hsplit] at hlist hlen
  cases pre with
  | nil =>
    obtain ⟨hhead, hrest⟩ := hlist.chain
    refine ⟨st.setSpace s ⟨st.next i, sub32 (st.spaces s).regionCount 1⟩, ?_, ?_⟩
    · simp only [Pool.removeRegion, hhead, ↓reduceIte]
    · constructor
      · exact ⟨rfl, rfl, rfl, fun k hk => Function.update_of_ne hk ..⟩
      · exact hsplit
      · exact h.removed hsplit hrest fun _ _ => rfl
      · simp only [Pool.setSpace, Function.update_self]
  | cons first pre =>
    rw [List.cons_append] at hlist hlen
    obtain ⟨hhead, hrest⟩ := hlist.chain
    obtain ⟨hfirst, hnodup⟩ := List.nodup_cons.mp hlist.nodup
    have hne : first ≠ i := by
      rintro rfl
      exact hfirst List.mem_append_cons_self
    have hipre : i ∉ pre := fun hmem =>
      (List.nodup_cons.mp (List.nodup_middle.mp hnodup)).1 (List.mem_append_left _ hmem)
    obtain ⟨pre', c, hc, hwalk⟩ := walkWhile_before hrest hipre hlen
    have hwhole : first :: (pre ++ i :: post) = pre' ++ c :: i :: post := by
      rw [← List.cons_append, hc, List.append_assoc, List.singleton_append]
    have hchain := hlist.chain
    rw [hwhole] at hchain
    have hci : st.next c = some i := hchain.tail.1
    refine ⟨{ st with next := link st.next c (st.next i) }.setSpace s
      ⟨some first, sub32 (st.spaces s).regionCount 1⟩, ?_, ?_⟩
    · simp only [Pool.removeRegion, hhead, hne, ↓reduceIte, hwalk, orStop]
      simp only [bind, Except.bind, hci, ↓reduceIte]
    · constructor
      · exact ⟨rfl, rfl, rfl, fun k hk => Function.update_of_ne hk ..⟩
      · exact hsplit
      · apply h.removed hsplit
        · rw [hc, ← List.append_cons]
          exact (hhead ▸ hchain).remove_after (hwhole ▸ hlist.nodup)
        · intro j hj
          apply link_of_ne
          rintro rfl
          rw [hsplit, List.cons_append, hwhole] at hj
          exact hj List.mem_append_cons_self
      · simp only [Pool.setSpace, Function.update_self]

end Lists

end TupleOS.Memory
