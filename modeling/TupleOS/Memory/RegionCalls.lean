import TupleOS.Memory.RegionPool

/-!
# Runs over the region pool

`register_existing_region`, `vmm_map_region` and `vmm_unmap_region` on the nodes of the pool. A call
that returns has left the lists alone, or put one new node into the list of its space, or taken one
out (`Linked.call`). So in every run, with any arguments, the lists are finite and by base, their
lengths are counted, and no loop over them fails to end (`region_lists_kept`).

Seen through the fields of the nodes (`Represents`), the calls are those of `Vmm`, which keeps a
list of regions for each space (`vmmMapRegion_refines`, `vmmUnmapRegion_refines`).
-/

namespace TupleOS.Memory

open TupleOS.Base

section Cases

variable {st st' : Pool} {lists : Nat → List Nat} {s i : Nat} {pre post : List Nat}

/-! ## The calls -/

theorem Linked.findRegion (h : Linked st lists) (s : Nat) (p : Region → Bool) :
    st.findRegion s p = .ok ((lists s).find? fun i => p (st.region i)) := by
  rw [Pool.findRegion, search_spec (h.isList s).chain (Nat.lt_succ_of_le (h.length_le s))]
  rfl

/-- A new node with its fields set. -/
def Pool.fresh (st : Pool) (r : Region) : Pool :=
  { st with
    region := Function.update st.region st.regionPoolUsed r
    next := link st.next st.regionPoolUsed none
    regionPoolUsed := st.regionPoolUsed + 1 }

theorem allocRegion_eq (hroom : st.regionPoolUsed < vmmMaxRegions) : ∃ st₁,
    st.allocRegion = some (st.regionPoolUsed, st₁) ∧
      ∀ r, st₁.setRegion st.regionPoolUsed r = st.fresh r := by
  refine ⟨_, if_neg hroom.not_ge, fun r => ?_⟩
  simp only [Pool.setRegion, Pool.fresh, Function.update_idem]

theorem Linked.used_notMem (h : Linked st lists) (k : Nat) : st.regionPoolUsed ∉ lists k :=
  fun hmem => lt_irrefl _ (h.allocated k _ hmem)

theorem Linked.fresh (h : Linked st lists) (hroom : st.regionPoolUsed < vmmMaxRegions)
    (r : Region) : Linked (st.fresh r) lists where
  isList k := by
    have hspace : (st.fresh r).spaces k = st.spaces k := rfl
    apply (h.isList k).congr hspace
    · exact fun j hj => link_of_ne _ (ne_of_mem_of_not_mem hj (h.used_notMem k))
    · exact fun j hj => Function.update_of_ne (ne_of_mem_of_not_mem hj (h.used_notMem k)) ..
  apart := h.apart
  allocated k j hj := (h.allocated k j hj).trans (Nat.lt_succ_self _)
  used_le := hroom

theorem Linked.insert_fresh (h : Linked st lists) (hroom : st.regionPoolUsed < vmmMaxRegions)
    (r : Region) (s : Nat) : ∃ st' pre post,
    (st.fresh r).insertRegion s st.regionPoolUsed = .ok st' ∧
      InsertedAt (st.fresh r) st' lists s st.regionPoolUsed pre post :=
  (h.fresh hroom r).insertRegion (Nat.lt_succ_self _) h.used_notMem s

theorem Linked.withMach (h : Linked st lists) (m : Machine) : Linked { st with mach := m } lists :=
  ⟨fun s => (h.isList s).congr rfl (fun _ _ => rfl) fun _ _ => rfl, h.apart, h.allocated, h.used_le⟩

/-- **`register_existing_region`** does nothing, or inserts a new node. -/
theorem Linked.registerExistingRegion_cases (h : Linked st lists) (s : Nat) (r : Region) :
    st.registerExistingRegion s r = .ok st ∨
    ∃ st' pre post, st.registerExistingRegion s r = .ok st' ∧
      InsertedAt (st.fresh r) st' lists s st.regionPoolUsed pre post := by
  by_cases hroom : st.regionPoolUsed < vmmMaxRegions
  · obtain ⟨st₁, halloc, hset⟩ := allocRegion_eq hroom
    obtain ⟨st', pre, post, hins, hat⟩ := h.insert_fresh hroom r s
    refine .inr ⟨st', pre, post, ?_, hat⟩
    simp only [Pool.registerExistingRegion, halloc, hset, hins]
  · left
    have halloc : st.allocRegion = none := if_pos (Nat.le_of_not_lt hroom)
    simp only [Pool.registerExistingRegion, halloc]

/-- **`vmm_map_region`** stops at the pages, fails, or inserts a new node. -/
theorem Linked.vmmMapRegion_cases (h : Linked st lists) (L : Layout) (s : Option Nat) (r : Region) :
    st.vmmMapRegion L s r = .error .pages ∨
    (∃ m, st.vmmMapRegion L s r = .ok (-1, { st with mach := m })) ∨
    ∃ k m st' pre post, s = some k ∧ st.vmmMapRegion L s r = .ok (0, st') ∧
      InsertedAt ({ st with mach := m }.fresh r) st' lists k st.regionPoolUsed pre post := by
  unfold Pool.vmmMapRegion
  cases s with
  | none => exact .inr (.inl ⟨st.mach, rfl⟩)
  | some k =>
    simp only [h.findRegion]
    split
    · exact .inr (.inl ⟨st.mach, rfl⟩)
    split
    · exact .inr (.inl ⟨st.mach, rfl⟩)
    simp only [bind, Except.bind]
    split
    · exact .inr (.inl ⟨st.mach, rfl⟩)
    cases mapPages L st.mach r.base (vmmFlagsToPageFlags r.flags) 0 (r.size / pageSize) with
    | none => exact .inl rfl
    | some res =>
      obtain ⟨ok, m⟩ := res
      simp only [orStop]
      cases ok with
      | false => exact .inr (.inl ⟨m, rfl⟩)
      | true =>
        simp only [↓reduceIte]
        by_cases hroom : st.regionPoolUsed < vmmMaxRegions
        · obtain ⟨st₁, halloc, hset⟩ := @allocRegion_eq { st with mach := m } hroom
          obtain ⟨st', pre, post, hins, hat⟩ := (h.withMach m).insert_fresh hroom r k
          simp only [halloc, hset, hins]
          exact .inr (.inr ⟨k, m, st', pre, post, rfl, rfl, hat⟩)
        · have halloc : { st with mach := m }.allocRegion = none := if_pos (Nat.le_of_not_lt hroom)
          simp only [halloc]
          cases undoPages L m r.base 0 (r.size / pageSize) with
          | none => exact .inl rfl
          | some m' => exact .inr (.inl ⟨m', rfl⟩)

/-- **`vmm_unmap_region`** stops at the pages, fails, or removes the first node of that base. -/
theorem Linked.vmmUnmapRegion_cases (h : Linked st lists) (L : Layout) (s : Option Nat)
    (vaddr : Nat) :
    st.vmmUnmapRegion L s vaddr = .error .pages ∨
    st.vmmUnmapRegion L s vaddr = .ok (-1, st) ∨
    ∃ k m st' pre i post, s = some k ∧ st.vmmUnmapRegion L s vaddr = .ok (0, st') ∧
      RemovedAt { st with mach := m } st' lists k i pre post ∧
      (st.region i).base = vaddr ∧ ∀ j ∈ pre, (st.region j).base ≠ vaddr := by
  unfold Pool.vmmUnmapRegion
  cases s with
  | none => exact .inr (.inl rfl)
  | some k =>
    simp only [h.findRegion, bind, Except.bind]
    cases hfind : (lists k).find? fun i => decide ((st.region i).base = vaddr) with
    | none => exact .inr (.inl rfl)
    | some i =>
      obtain ⟨hbase, pre, post, hsplit, hpre⟩ := List.find?_eq_some_iff_append.mp hfind
      simp only
      split
      · exact .inr (.inl rfl)
      cases st.releaseRegion L (st.region i) with
      | none => exact .inl rfl
      | some m =>
        obtain ⟨st', hrem, hat⟩ := (h.withMach m).removeRegion hsplit
        simp only [orStop, hrem]
        refine .inr (.inr ⟨k, m, st', pre, i, post, rfl, rfl, hat, of_decide_eq_true hbase, ?_⟩)
        intro j hj
        simpa using hpre j hj

end Cases

/-! ## Runs -/

inductive RegionCall where
  | register (s : Nat) (r : Region)
  | map (s : Option Nat) (r : Region)
  | unmap (s : Option Nat) (vaddr : Nat)

def Pool.call (L : Layout) (st : Pool) : RegionCall → Except Stop Pool
  | .register s r => st.registerExistingRegion s r
  | .map s r => Prod.snd <$> st.vmmMapRegion L s r
  | .unmap s vaddr => Prod.snd <$> st.vmmUnmapRegion L s vaddr

/-- What a call does to the list of the space `s`: nothing; one new node, with the fields the call
gives; or one node less, the first of the base the call gives. -/
inductive RegionCall.Edits (c : RegionCall) (s : Nat) (st st' : Pool) : List Nat → List Nat → Prop
  | kept (l : List Nat) : c.Edits s st st' l l
  | inserted {pre post : List Nat} {i : Nat} (hnew : i ∉ pre ++ post)
      (hcall : c = .register s (st'.region i) ∨ c = .map (some s) (st'.region i)) :
      c.Edits s st st' (pre ++ post) (pre ++ i :: post)
  | removed {pre post : List Nat} {i : Nat} (hcall : c = .unmap (some s) (st.region i).base)
      (hfirst : ∀ j ∈ pre, (st.region j).base ≠ (st.region i).base) :
      c.Edits s st st' (pre ++ i :: post) (pre ++ post)

section Calls

variable {st st' : Pool} {lists : Nat → List Nat} {L : Layout} {c : RegionCall} {s i : Nat}
  {pre post : List Nat}

/-- What every call does to the lists of all spaces. -/
structure CallDone (c : RegionCall) (st st' : Pool) (lists lists' : Nat → List Nat) : Prop where
  linked : Linked st' lists'
  fields : ∀ s, ∀ i ∈ lists s, st'.region i = st.region i
  edits : ∀ s, c.Edits s st st' (lists s) (lists' s)

theorem Linked.kept (h : Linked st lists) (m : Machine) :
    CallDone c st { st with mach := m } lists lists :=
  ⟨h.withMach m, fun _ _ _ => rfl, fun s => .kept (lists s)⟩

theorem CallDone.of_one {l : List Nat} (hl : Linked st' (Function.update lists s l))
    (hfields : ∀ k, ∀ i ∈ lists k, st'.region i = st.region i)
    (hedits : c.Edits s st st' (lists s) l) :
    CallDone c st st' lists (Function.update lists s l) where
  linked := hl
  fields := hfields
  edits k := by
    by_cases hk : k = s
    · subst hk
      rwa [Function.update_self]
    · rw [Function.update_of_ne hk]
      exact .kept _

theorem Linked.inserted_done (h : Linked st lists) {m : Machine} {r : Region}
    (hcall : c = .register s r ∨ c = .map (some s) r)
    (hat : InsertedAt ({ st with mach := m }.fresh r) st' lists s st.regionPoolUsed pre post) :
    CallDone c st st' lists
      (Function.update lists s (pre ++ st.regionPoolUsed :: post)) := by
  have hregion := hat.relinked.region
  have hnode : st'.region st.regionPoolUsed = r := by
    rw [hregion]
    exact Function.update_self ..
  apply CallDone.of_one hat.linked
  · intro k j hj
    rw [hregion]
    exact Function.update_of_ne (ne_of_mem_of_not_mem hj (h.used_notMem k)) ..
  · rw [hat.split]
    exact .inserted (hat.split ▸ h.used_notMem s) (hnode.symm ▸ hcall)

theorem removed_done {m : Machine} (hcall : c = .unmap (some s) (st.region i).base)
    (hat : RemovedAt { st with mach := m } st' lists s i pre post)
    (hfirst : ∀ j ∈ pre, (st.region j).base ≠ (st.region i).base) :
    CallDone c st st' lists (Function.update lists s (pre ++ post)) := by
  apply CallDone.of_one hat.linked
  · exact fun k j _ => congrFun hat.relinked.region j
  · rw [hat.split]
    exact .removed hcall hfirst

/-- **A call** stops at the pages, or edits at most one list. -/
theorem Linked.call (h : Linked st lists) (L : Layout) (c : RegionCall) :
    st.call L c = .error .pages ∨
    ∃ st' lists', st.call L c = .ok st' ∧ CallDone c st st' lists lists' := by
  cases c with
  | register s r =>
    obtain he | ⟨st', pre, post, he, hat⟩ := h.registerExistingRegion_cases s r
    · exact .inr ⟨st, lists, he, h.kept st.mach⟩
    · exact .inr ⟨st', _, he, h.inserted_done (.inl rfl) hat⟩
  | map s r =>
    obtain he | ⟨m, he⟩ | ⟨k, m, st', pre, post, rfl, he, hat⟩ := h.vmmMapRegion_cases L s r
    · exact .inl (by rw [Pool.call, he]; rfl)
    · exact .inr ⟨_, lists, by rw [Pool.call, he]; rfl, h.kept m⟩
    · exact .inr ⟨st', _, by rw [Pool.call, he]; rfl, h.inserted_done (.inr rfl) hat⟩
  | unmap s vaddr =>
    obtain he | he | ⟨k, m, st', pre, i, post, rfl, he, hat, rfl, hfirst⟩ :=
      h.vmmUnmapRegion_cases L s vaddr
    · exact .inl (by rw [Pool.call, he]; rfl)
    · exact .inr ⟨st, lists, by rw [Pool.call, he]; rfl, h.kept st.mach⟩
    · exact .inr ⟨st', _, by rw [Pool.call, he]; rfl, removed_done rfl hat hfirst⟩

/-- **Every run** stops at the pages, or keeps the lists. -/
theorem Linked.run (h : Linked st lists) (L : Layout) (calls : List RegionCall) :
    calls.foldlM (Pool.call L) st = .error .pages ∨
    ∃ st' lists', calls.foldlM (Pool.call L) st = .ok st' ∧ Linked st' lists' := by
  induction calls generalizing st lists with
  | nil => exact .inr ⟨st, lists, rfl, h⟩
  | cons c calls ih =>
    rw [List.foldlM_cons]
    obtain he | ⟨st₁, lists₁, he, hdone⟩ := h.call L c
    · exact .inl (by rw [he]; rfl)
    · rw [he]
      exact ih hdone.linked

end Calls

/-- **The region lists.** In every run of the three calls no loop over a list fails to end. In every
state reached each space has a finite list without repetition, by base, with its length counted;
the next call changes no list, or the one of its space by one node, and no node's fields;
`insert_region` adds the new node and `remove_region` takes out the one it is given. -/
theorem region_lists_kept (L : Layout) (m : Machine) (calls : List RegionCall) :
    (∀ e, calls.foldlM (Pool.call L) (Pool.start m) = .error e → e = .pages) ∧
    ∀ st, calls.foldlM (Pool.call L) (Pool.start m) = .ok st →
      (∀ s, ∃ l, IsList st s l) ∧
      (∀ c, st.call L c = .error .pages ∨ ∃ st', st.call L c = .ok st' ∧
        ∀ s l, IsList st s l → (∀ i ∈ l, st'.region i = st.region i) ∧
          ∃ l', IsList st' s l' ∧ c.Edits s st st' l l') ∧
      (∀ s l r, IsList st s l → st.regionPoolUsed < vmmMaxRegions →
        ∃ st' pre post, (st.fresh r).insertRegion s st.regionPoolUsed = .ok st' ∧
          l = pre ++ post ∧ st.regionPoolUsed ∉ l ∧
          IsList st' s (pre ++ st.regionPoolUsed :: post) ∧
          st'.region = (st.fresh r).region) ∧
      ∀ s l i, IsList st s l → i ∈ l → ∃ st', st.removeRegion s i = .ok st' ∧
        IsList st' s (l.erase i) ∧ st'.region = st.region := by
  obtain he | ⟨st, lists, he, h⟩ := (linked_start m).run L calls
  · rw [he]
    exact ⟨fun e h => (Except.error.inj h).symm, fun st h => nomatch h⟩
  · rw [he]
    refine ⟨(fun e h => nomatch h), fun st₁ hst => ?_⟩
    obtain rfl := Except.ok.inj hst
    refine ⟨fun s => ⟨lists s, h.isList s⟩, fun c => ?_, fun s l r hl hroom => ?_,
      fun s l i hl hi => ?_⟩
    · obtain he | ⟨st', lists', he, hdone⟩ := h.call L c
      · exact .inl he
      · refine .inr ⟨st', he, fun s l hl => ?_⟩
        obtain rfl := hl.unique (h.isList s)
        exact ⟨hdone.fields s, lists' s, hdone.linked.isList s, hdone.edits s⟩
    · obtain rfl := hl.unique (h.isList s)
      obtain ⟨st', pre, post, hins, hat⟩ := h.insert_fresh hroom r s
      have hlist := hat.linked.isList s
      rw [Function.update_self] at hlist
      exact ⟨st', pre, post, hins, hat.split, h.used_notMem s, hlist, hat.relinked.region⟩
    · obtain rfl := hl.unique (h.isList s)
      obtain ⟨pre, post, hsplit⟩ := List.append_of_mem hi
      obtain ⟨st', hrem, hat⟩ := h.removeRegion hsplit
      have hlist := hat.linked.isList s
      rw [Function.update_self] at hlist
      have hnodup := hsplit ▸ (h.isList s).nodup
      have hpre : i ∉ pre := fun hmem =>
        (List.nodup_cons.mp (List.nodup_middle.mp hnodup)).1 (List.mem_append_left _ hmem)
      refine ⟨st', hrem, ?_, hat.relinked.region⟩
      rwa [hsplit, List.erase_append_right _ hpre, List.erase_cons_head]

/-- Of two regions with one base the later is second while the other is the first node, and a
third that starts before them comes in front. -/
example (L : Layout) (m : Machine) :
    ([.register 0 ⟨2, 0, 0, .mmio⟩, .register 0 ⟨2, 0, 1, .mmio⟩,
        .register 0 ⟨1, 0, 0, .mmio⟩].foldlM (Pool.call L) (Pool.start m)).toOption.map
      (fun st => (st.spaces 0, st.next 2, st.next 0, st.next 1)) =
    some (⟨some 2, 3⟩, some 0, some 1, none) := rfl

/-! ## The calls on lists of regions -/

/-- The space `ref` of `vm` has the regions of the nodes of `s`. -/
structure Represents (st : Pool) (lists : Nat → List Nat) (s : Nat) (vm : Vm) (ref : SpaceRef) :
    Prop where
  linked : Linked st lists
  mach : vm.mach = st.mach
  used : vm.regionPoolUsed = st.regionPoolUsed
  space : ∃ dir, vm.space ref =
    some ⟨dir, (lists s).map st.region, (st.spaces s).regionCount⟩

/-- The two levels return the same, or the pages stop both. -/
inductive Agree (s : Nat) (ref : SpaceRef) : Option (Int × Vm) → Except Stop (Int × Pool) → Prop
  | stop : Agree s ref none (.error .pages)
  | done {vm : Vm} {st : Pool} {lists : Nat → List Nat} (ret : Int)
      (h : Represents st lists s vm ref) : Agree s ref (some (ret, vm)) (.ok (ret, st))

section Refines

variable {st st' : Pool} {lists : Nat → List Nat} {s i : Nat} {vm : Vm} {ref : SpaceRef}
  {pre post : List Nat}

theorem lookup_setCreated {p : Nat} {a b : AddressSpace} {qs : List (Nat × AddressSpace)}
    (h : qs.lookup p = some b) : (setCreated p a qs).lookup p = some a := by
  induction qs with
  | nil => cases h
  | cons q qs ih =>
    rw [setCreated]
    by_cases hq : q.1 = p
    · rw [if_pos hq, List.lookup_cons_self]
    · have hne : (p == q.1) = false := beq_false_of_ne (Ne.symm hq)
      rw [List.lookup_cons, hne] at h
      rw [if_neg hq, List.lookup_cons, hne]
      exact ih h

theorem space_setSpace {a b : AddressSpace} (h : vm.space ref = some b) :
    (vm.setSpace ref a).space ref = some a := by
  cases ref with
  | null => cases h
  | kernel => rfl
  | created p => exact lookup_setCreated h

theorem Represents.withMach (h : Represents st lists s vm ref) (m : Machine) :
    Represents { st with mach := m } lists s { vm with mach := m } ref :=
  ⟨h.linked.withMach m, rfl, h.used, by cases ref <;> exact h.space⟩

theorem Represents.inserted (h : Represents st lists s vm ref) {dir : Nat} {space : AddressSpace}
    (hspace : vm.space ref = some space)
    (heq : space = ⟨dir, (lists s).map st.region, (st.spaces s).regionCount⟩) {r : Region}
    (hat : InsertedAt (st.fresh r) st' lists s st.regionPoolUsed pre post) :
    Represents st' (Function.update lists s (pre ++ st.regionPoolUsed :: post)) s
      ({ vm with regionPoolUsed := vm.regionPoolUsed + 1 }.setSpace ref (insertRegion space r))
      ref where
  linked := hat.linked
  mach := by
    rw [hat.relinked.mach]
    cases ref <;> exact h.mach
  used := by
    rw [hat.relinked.used]
    cases ref <;> exact congrArg Nat.succ h.used
  space := by
    -- the fields of the nodes that were there have not changed
    have hold : (lists s).map (st.fresh r).region = (lists s).map st.region := by
      apply List.map_congr_left
      intro j hj
      exact Function.update_of_ne (ne_of_mem_of_not_mem hj (h.linked.used_notMem s)) ..
    have hnode : (st.fresh r).region st.regionPoolUsed = r := Function.update_self ..
    have hins := hat.refines dir
    rw [hold, hnode] at hins
    refine ⟨dir, ?_⟩
    rw [space_setSpace (b := space) (by cases ref <;> exact hspace), Function.update_self, heq]
    exact congrArg some hins

/-- **`vmm_map_region`** on the nodes is `vmm_map_region` on the list of regions. -/
theorem vmmMapRegion_refines (h : Represents st lists s vm ref) (L : Layout) (r : Region) :
    Agree s ref (vmmMapRegion L vm ref r.base r.size r.flags r.type)
      (st.vmmMapRegion L (some s) r) := by
  obtain ⟨dir, hspace⟩ := h.space
  have hany : ((lists s).map st.region).any (overlaps r.base r.size) =
      ((lists s).find? fun i => overlaps r.base r.size (st.region i)).isSome := by
    rw [List.any_map, Bool.eq_iff_iff, List.find?_isSome, List.any_eq_true]
    rfl
  unfold vmmMapRegion Pool.vmmMapRegion
  simp only [hspace, hany, h.linked.findRegion, bind, Except.bind, h.mach]
  by_cases hbase : r.base % pageSize ≠ 0
  · rw [if_pos hbase, if_pos hbase]
    exact .done _ h
  rw [if_neg hbase, if_neg hbase]
  by_cases hsize : r.size % pageSize ≠ 0
  · rw [if_pos hsize, if_pos hsize]
    exact .done _ h
  rw [if_neg hsize, if_neg hsize]
  by_cases hover :
      ((lists s).find? fun i => overlaps r.base r.size (st.region i)).isSome = true
  · simp only [hover, ↓reduceIte]
    exact .done _ h
  simp only [hover, Bool.false_eq_true, ↓reduceIte]
  cases mapPages L st.mach r.base (vmmFlagsToPageFlags r.flags) 0 (r.size / pageSize) with
  | none => exact .stop
  | some res =>
    obtain ⟨ok, m⟩ := res
    have hm := h.withMach m
    cases ok with
    | false => exact .done _ hm
    | true =>
      simp only [Option.bind_some, orStop, ↓reduceIte]
      by_cases hroom : st.regionPoolUsed < vmmMaxRegions
      · obtain ⟨st₁, halloc, hset⟩ := @allocRegion_eq { st with mach := m } hroom
        obtain ⟨st', pre, post, hins, hat⟩ := hm.linked.insert_fresh hroom r s
        have hvm : ¬ vmmMaxRegions ≤ vm.regionPoolUsed := h.used ▸ hroom.not_ge
        simp only [hvm, ↓reduceIte, halloc, hset, hins]
        exact .done 0 (hm.inserted (by cases ref <;> exact hspace) rfl hat)
      · have halloc : { st with mach := m }.allocRegion = none := if_pos (Nat.le_of_not_lt hroom)
        have hvm : vmmMaxRegions ≤ vm.regionPoolUsed := h.used ▸ Nat.le_of_not_lt hroom
        simp only [hvm, ↓reduceIte, halloc]
        cases undoPages L m r.base 0 (r.size / pageSize) with
        | none => exact .stop
        | some m' => exact .done _ (h.withMach m')

theorem eraseBase_append {base : Nat} {r : Region} {before after : List Region}
    (hbefore : ∀ g ∈ before, g.base ≠ base) (hr : r.base = base) :
    eraseBase base (before ++ r :: after) = before ++ after := by
  induction before with
  | nil => exact if_pos hr
  | cons g before ih =>
    rw [List.cons_append, eraseBase, if_neg (hbefore g (List.mem_cons_self ..)),
      ih fun j hj => hbefore j (List.mem_cons_of_mem g hj), List.cons_append]

theorem Represents.removed (h : Represents st lists s vm ref) {dir : Nat} {space : AddressSpace}
    (hspace : vm.space ref = some space)
    (heq : space = ⟨dir, (lists s).map st.region, (st.spaces s).regionCount⟩)
    (hat : RemovedAt st st' lists s i pre post)
    (hfirst : ∀ j ∈ pre, (st.region j).base ≠ (st.region i).base) :
    Represents st' (Function.update lists s (pre ++ post)) s
      (vm.setSpace ref (removeRegion space (st.region i).base)) ref where
  linked := hat.linked
  mach := by
    rw [hat.relinked.mach]
    cases ref <;> exact h.mach
  used := by
    rw [hat.relinked.used]
    cases ref <;> exact h.used
  space := by
    have hpre : ∀ g ∈ pre.map st.region, g.base ≠ (st.region i).base := by
      intro g hg
      obtain ⟨j, hj, rfl⟩ := List.mem_map.mp hg
      exact hfirst j hj
    refine ⟨dir, ?_⟩
    rw [space_setSpace hspace, Function.update_self, heq, removeRegion, hat.split,
      hat.relinked.region, hat.count, List.map_append, List.map_cons, eraseBase_append hpre rfl,
      List.map_append]

/-- **`vmm_unmap_region`** on the nodes is `vmm_unmap_region` on the list of regions, as long as no
region is so long that the offset of its last page wraps. -/
theorem vmmUnmapRegion_refines (h : Represents st lists s vm ref) (L : Layout) (vaddr : Nat)
    (hshort : ∀ i ∈ lists s, (st.region i).size ≤ 2 ^ 32 - pageSize) :
    Agree s ref (vmmUnmapRegion L vm ref vaddr) (st.vmmUnmapRegion L (some s) vaddr) := by
  obtain ⟨dir, hspace⟩ := h.space
  unfold vmmUnmapRegion Pool.vmmUnmapRegion
  simp only [hspace, h.linked.findRegion, bind, Except.bind, List.find?_map, Function.comp_def]
  cases hfind : (lists s).find? fun i => decide ((st.region i).base = vaddr) with
  | none => exact .done _ h
  | some i =>
    obtain ⟨hbase, pre, post, hsplit, hpre⟩ := List.find?_eq_some_iff_append.mp hfind
    obtain rfl := of_decide_eq_true hbase
    have hsize := hshort i (hsplit ▸ List.mem_append_cons_self)
    simp only [Option.map_some, Pool.releaseRegion, hsize.not_gt, ↓reduceIte, h.mach]
    by_cases htype : (st.region i).type.val ≤ RegionType.identityMap.val
    · rw [if_pos htype, if_pos htype]
      exact .done _ h
    rw [if_neg htype, if_neg htype]
    cases releasePages L (roundDown pageSize) st.mach (st.region i).base 0
        (((st.region i).size + (pageSize - 1)) / pageSize) with
    | none => exact .stop
    | some m =>
      have hm := h.withMach m
      obtain ⟨st', hrem, hat⟩ := hm.linked.removeRegion hsplit
      simp only [Option.bind_some, orStop, hrem]
      refine .done 0 (hm.removed (by cases ref <;> exact hspace) rfl hat ?_)
      intro j hj
      simpa using hpre j hj

end Refines

end TupleOS.Memory
