import TupleOS.Heap.Requests
import TupleOS.Memory.Conservation
import TupleOS.Memory.HeapBacked

/-!
# Requests that fail

`heap_expand` takes a frame and maps a page at a time, and gives nothing back when a later
frame is missing. A `kmalloc` that returns `NULL` changes nothing exactly when it does not
come to its first frame (`failed_kmalloc_iff`): the request is empty, the limit turns it
down, its size rounds to no page, or there is no frame at all. Otherwise the frames that it
came by are lost (`failed_kmalloc_keeps_frame`).
-/

namespace TupleOS.Memory

open TupleOS.Base TupleOS.Heap

/-! ## Frames that are taken -/

section Frames

variable {L : Layout} {M M' : Machine}

theorem machMem_store_pmm {va w : Nat} (he : machMem.store M va w = some M') : M'.pmm = M.pmm := by
  obtain ⟨f, -, rfl⟩ := Option.map_eq_some_iff.mp he
  rfl

theorem fillWords_pmm {base v : Nat} : ∀ (n : Nat) {M' : Machine},
    fillWords machMem M base v n = some M' → M'.pmm = M.pmm
  | 0, _, he => by cases he; rfl
  | n + 1, _, he => by
    rw [fillWords] at he
    obtain ⟨M₁, h₁, he⟩ := Option.bind_eq_some_iff.mp he
    exact (machMem_store_pmm he).trans (fillWords_pmm n h₁)

theorem machMem_alloc_used {g : Nat} (hg : (machMem.pmmAllocFrame M).2.pmm.Free g) :
    M.pmm.Free g := by
  have hg' : (pmmAllocFrame M.pmm).2.Free g := hg
  rcases pmmAllocFrame_cases M.pmm with ⟨ha, -⟩ | ⟨f, ha, -⟩
  · rwa [ha] at hg'
  · rw [ha] at hg'
    exact ((free_set rfl).mp hg').2

theorem newPageTable_used {i flags g : Nat} {ok : Bool}
    (he : newPageTable machMem L M i flags = some (ok, M')) (hg : M'.pmm.Free g) :
    M.pmm.Free g := by
  rw [newPageTable_eq] at he
  split at he
  · cases he
    exact machMem_alloc_used hg
  · obtain ⟨M₁, h₁, he⟩ := Option.bind_eq_some_iff.mp he
    obtain ⟨M₂, h₂, he⟩ := Option.bind_eq_some_iff.mp he
    cases he
    rw [machMem_store_pmm h₂, fillWords_pmm _ h₁] at hg
    exact machMem_alloc_used hg

theorem pagingMapPage_used {v p flags g : Nat} (he : pagingMapPage machMem L M v p flags = some M')
    (hg : M'.pmm.Free g) : M.pmm.Free g := by
  unfold pagingMapPage at he
  obtain ⟨pde, -, he⟩ := Option.bind_eq_some_iff.mp he
  simp only [Option.bind_eq_bind, Option.bind_some, ↓reduceIte] at he
  split at he
  · obtain ⟨pde, -, he⟩ := Option.bind_eq_some_iff.mp he
    rwa [machMem_store_pmm he] at hg
  · obtain ⟨⟨ok, M₁⟩, h₁, he⟩ := Option.bind_eq_some_iff.mp he
    apply newPageTable_used h₁
    cases ok with
    | false =>
      cases he
      exact hg
    | true =>
      obtain ⟨pde, -, he⟩ := Option.bind_eq_some_iff.mp he
      rwa [machMem_store_pmm he] at hg

theorem mapHeapPages_used {ok : Bool} {m' : Bytes} : ∀ (n base : Nat) {M : Machine} {m : Bytes},
    mapHeapPages (vmEnv L) M m base n = some (ok, M', m') →
      m' = m ∧ ∀ g, M'.pmm.Free g → M.pmm.Free g
  | 0, _, _, _, he => by cases he; exact ⟨rfl, fun _ hg => hg⟩
  | n + 1, base, M, m, he => by
    rw [mapHeapPages_succ] at he
    split at he
    · cases he
      exact ⟨rfl, fun _ hg => machMem_alloc_used hg⟩
    · obtain ⟨r, hr, he⟩ := Option.bind_eq_some_iff.mp he
      obtain ⟨M₁, h₁, rfl⟩ := Option.map_eq_some_iff.mp hr
      obtain ⟨hm, hused⟩ := mapHeapPages_used n _ he
      exact ⟨hm, fun g hg => machMem_alloc_used (pagingMapPage_used h₁ (hused g hg))⟩

theorem mapHeapPages_takes {ok : Bool} {m m' : Bytes} {base n : Nat} (hfr : ¬ NoFrame M.pmm)
    (he : mapHeapPages (vmEnv L) M m base (n + 1) = some (ok, M', m')) :
    ∃ f, M.pmm.Free f ∧ ¬ M'.pmm.Free f := by
  rcases pmmAllocFrame_cases M.pmm with ⟨-, hnone⟩ | ⟨f, ha, hf, -⟩
  · exact absurd hnone hfr
  have htaken : ¬ (machMem.pmmAllocFrame M).2.pmm.Free f := fun hg => by
    have hg' : (pmmAllocFrame M.pmm).2.Free f := hg
    rw [ha] at hg'
    exact ((free_set rfl).mp hg').1 rfl
  refine ⟨f, hf, fun hg => htaken ?_⟩
  rw [mapHeapPages_succ] at he
  split at he
  · cases he
    exact hg
  · obtain ⟨r, hr, he⟩ := Option.bind_eq_some_iff.mp he
    obtain ⟨M₁, h₁, rfl⟩ := Option.map_eq_some_iff.mp hr
    exact pagingMapPage_used h₁ ((mapHeapPages_used n _ he).2 f hg)

end Frames

/-! ## `NULL` -/

/-- The block list, `heap_end` and the counter, the free frames and every translation are
as before. -/
structure Unchanged (h h' : KHeap) (M M' : Machine) : Prop where
  blocks : readBlocks h'.mem walkFuel h'.firstBlock = readBlocks h.mem walkFuel h.firstBlock
  fin : h'.heapEnd = h.heapEnd
  used : kheapGetUsed h' = kheapGetUsed h
  frames : ∀ g, M'.pmm.Free g ↔ M.pmm.Free g
  translations : ∀ d u, walk M'.phys d u = walk M.phys d u

/-- A request for `n` bytes that no block serves does not come to its first frame. -/
def StopsShort (h : KHeap) (M : Machine) (n : Nat) : Prop :=
  n = 0 ∨ h.heapMax < w32 (h.heapEnd + growPages n * pageSize) ∨ growPages n = 0 ∨ NoFrame M.pmm

section Null

variable {σ : Type} {E : PageEnv σ} {e e' : σ} {L : Layout} {h h' : KHeap} {M M' : Machine}
  {live : List Alloc} {bs : List Block} {n : Nat}

theorem Unchanged.refl (h : KHeap) (M : Machine) : Unchanged h h M M :=
  ⟨rfl, rfl, rfl, fun _ => Iff.rfl, fun _ _ => rfl⟩

theorem none_fits (H : HeapOk h live bs) (hn : n ≠ 0)
    (he : kmalloc E h e n = some (0, h', e')) : bs.find? (fits (roundUp 8 n)) = none := by
  cases hfind : bs.find? (fits (roundUp 8 n)) with
  | none => rfl
  | some b =>
    have h8 : roundUp 8 n % 8 = 0 := Nat.mod_eq_zero_of_dvd (roundUp_dvd 8 n)
    obtain ⟨hf, hb0, hp, -⟩ := H.serve (n := 0) (by omega) (Nat.zero_le _) hfind
    rw [kmalloc_found hn hf hb0, hp, Option.some.injEq, Prod.mk.injEq] at he
    unfold Block.payload headerSize at he
    omega

theorem find_null (H : HeapOk h live bs) (hn : n ≠ 0)
    (he : kmalloc E h e n = some (0, h', e')) :
    findFreeBlock h.mem (roundUp 8 n) walkFuel h.firstBlock = some 0 := by
  rw [H.find, none_fits H hn he]
  rfl

theorem growPages_zero (h0 : growPages n = 0) : roundUp 8 n < 2 ^ 32 - headerSize := by
  have h8 : roundUp 8 n % 8 = 0 := Nat.mod_eq_zero_of_dvd (roundUp_dvd 8 n)
  have hlt := roundUp_lt 8 n
  unfold growPages roundUp roundDown w32 headerSize pageSize at *
  omega

theorem append_nothing {pre : List Block} {b : Block} (H : HeapOk h live (pre ++ [b]))
    (hb : b.free = true) : appendSpace h 0 = some h := by
  obtain ⟨nx, hh⟩ := H.seg.hdr (b := b) (by simp)
  have hend := H.end_le
  have hbig : heapMaxAddr < 2 ^ 32 := by decide
  have hmem : setSize h.mem b.addr (w32 (blockSize h.mem b.addr)) = h.mem := by
    rw [w32_of_lt (show blockSize h.mem b.addr < 2 ^ 32 from load32_lt _ _)]
    exact store32_load32 _ _
  unfold appendSpace
  rw [H.last]
  simp only [Option.bind_eq_bind, Option.bind_some, hh.isFree, hb, Bool.toNat_true, ne_eq,
    Nat.one_ne_zero, not_false_eq_true, ↓reduceIte, Nat.add_zero, hmem]
  rw [w32_of_lt (by omega)]

/-- Growing by no page over a last block that is in use puts a header at `heap_end`, and
the next search finds it. -/
theorem append_outside {pre : List Block} {b : Block} (H : HeapOk h live (pre ++ [b]))
    (hb : b.free = false) {size : Nat} (hsize : size < 2 ^ 32 - headerSize)
    (hnone : (pre ++ [b]).find? (fits size) = none) :
    ∃ h₁, appendSpace h 0 = some h₁ ∧
      findFreeBlock h₁.mem size walkFuel h₁.firstBlock = some h.heapEnd := by
  obtain ⟨nx, hh⟩ := H.seg.hdr (b := b) (by simp)
  have hgt := H.end_gt
  have hend := H.end_le
  have hbig : heapMaxAddr < 2 ^ 32 := by decide
  obtain ⟨hseg, -⟩ := link_seg H.seg (show sub32 0 headerSize < 2 ^ 32 by decide) (by omega)
  refine ⟨_, by unfold appendSpace; rw [H.last]; rfl, ?_⟩
  have hfree : ¬ blockIsFree h.mem b.addr ≠ 0 := by
    rw [hh.isFree, hb]
    simp
  simp only [hfree, ↓reduceIte]
  have hlen : (pre ++ [b, (⟨h.heapEnd, sub32 0 headerSize, true⟩ : Block)]).length < walkFuel := by
    have hle := H.seg.length_le
    simp only [List.length_append, List.length_cons, List.length_nil] at hle ⊢
    unfold headerSize heapMaxAddr heapStartAddr maxHeapSize walkFuel at *
    omega
  rw [H.first_eq, ← link_append_cons 0 heapStartAddr pre b [⟨h.heapEnd, sub32 0 headerSize, true⟩],
    findFreeBlock_seg hseg (by decide) hlen]
  have hnew : fits size ⟨h.heapEnd, sub32 0 headerSize, true⟩ = true := by
    have : sub32 0 headerSize = 2 ^ 32 - headerSize := by decide
    simp only [fits, Bool.true_and, decide_eq_true_eq]
    omega
  have hsplit : pre ++ [b, (⟨h.heapEnd, sub32 0 headerSize, true⟩ : Block)] =
      (pre ++ [b]) ++ [⟨h.heapEnd, sub32 0 headerSize, true⟩] := by simp
  rw [hsplit, List.find?_append, hnone, List.find?_cons_of_pos hnew]
  rfl

theorem kmalloc_noPage (H : HeapOk h live bs) (hn : n ≠ 0) (h0 : growPages n = 0)
    (he : kmalloc E h e n = some (0, h', e')) : h' = h ∧ e' = e := by
  have hnone := none_fits H hn he
  have hfind := find_null H hn he
  have hgt := H.end_gt
  have hend := H.end_le
  have hbig : heapMaxAddr < 2 ^ 32 := by decide
  have hx : heapExpand E h e (w32 (roundUp 8 n + headerSize)) =
      (appendSpace h 0).bind fun h => some (true, h, e) := by
    have hmax := H.max_eq
    rw [heapExpand_pages, h0, Nat.zero_mul, Nat.add_zero, w32_of_lt (by omega), if_neg (by omega)]
    rfl
  obtain ⟨pre, b, rfl⟩ : ∃ pre b, bs = pre ++ [b] :=
    ⟨_, _, (List.dropLast_append_getLast H.ne_nil).symm⟩
  cases hb : b.free with
  | true =>
    rw [append_nothing H hb, Option.bind_some] at hx
    simp only [kmalloc, hn, hfind, hx, Option.bind_eq_bind, Option.bind_some, ne_eq,
      not_true_eq_false, ↓reduceIte, Option.some.injEq, Prod.mk.injEq, true_and] at he
    exact ⟨he.1.symm, he.2.symm⟩
  | false =>
    obtain ⟨h₁, happ, hfind₁⟩ := append_outside H hb (growPages_zero h0) hnone
    rw [happ, Option.bind_some] at hx
    rw [kmalloc_expanded hn hfind hx hfind₁ (by omega), Option.some.injEq, Prod.mk.injEq] at he
    have hp : w32 (h.heapEnd + headerSize) = 0 := he.1
    rw [w32_of_lt (by unfold headerSize heapMaxAddr heapStartAddr maxHeapSize at *; omega)] at hp
    omega

theorem kmalloc_stopped (H : HeapOk h live bs) (hs : StopsShort h M n)
    (he : kmalloc (vmEnv L) h M n = some (0, h', M')) : h' = h ∧ M' = M := by
  by_cases hn : n = 0
  · simp only [kmalloc, hn, ↓reduceIte, Option.some.injEq, Prod.mk.injEq, true_and] at he
    exact ⟨he.1.symm, he.2.symm⟩
  by_cases h0 : growPages n = 0
  · exact kmalloc_noPage H hn h0 he
  -- the growth is refused, by the limit or for want of a frame
  have hx : heapExpand (vmEnv L) h M (w32 (roundUp 8 n + headerSize)) = some (false, h, M) := by
    rw [heapExpand_pages]
    split
    · rfl
    · rename_i hlim
      have hfr : NoFrame M.pmm := ((hs.resolve_left hn).resolve_left hlim).resolve_left h0
      obtain ⟨k, hk⟩ := Nat.exists_eq_succ_of_ne_zero h0
      have halloc : (vmEnv L).pmmAllocFrame M = (0, M) := hfr.alloc
      rw [hk, mapHeapPages_succ, halloc]
      rfl
  rw [kmalloc_refused hn (find_null H hn he) hx, Option.some.injEq, Prod.mk.injEq,
    Prod.mk.injEq] at he
  exact ⟨he.2.1.symm, he.2.2.symm⟩

theorem kmalloc_taken (H : HeapOk h live bs) (hs : ¬ StopsShort h M n)
    (he : kmalloc (vmEnv L) h M n = some (0, h', M')) : ∃ f, M.pmm.Free f ∧ ¬ M'.pmm.Free f := by
  simp only [StopsShort, not_or] at hs
  obtain ⟨hn, hlim, h0, hfr⟩ := hs
  obtain ⟨k, hk⟩ := Nat.exists_eq_succ_of_ne_zero h0
  have hfind := find_null H hn he
  simp only [kmalloc, hn, hfind, Option.bind_eq_bind, Option.bind_some, ne_eq, not_true_eq_false,
    ↓reduceIte] at he
  obtain ⟨⟨ok, h₁, M₁⟩, hx, he⟩ := Option.bind_eq_some_iff.mp he
  obtain rfl : M' = M₁ := by
    split at he
    · obtain ⟨block, -, he⟩ := Option.bind_eq_some_iff.mp he
      split at he <;> simp only [Option.some.injEq, Prod.mk.injEq] at he <;> exact he.2.2.symm
    · cases he
      rfl
  rw [heapExpand_pages, if_neg hlim, hk] at hx
  obtain ⟨⟨ok', M₂, m₂⟩, hmap, hx⟩ := Option.bind_eq_some_iff.mp hx
  obtain rfl : M' = M₂ := by
    split at hx
    · obtain ⟨h₂, -, hx⟩ := Option.bind_eq_some_iff.mp hx
      cases hx
      rfl
    · cases hx
      rfl
  exact mapHeapPages_takes hfr hmap

end Null

/-! ## Runs -/

theorem vmEnv_calls (L : Layout) :
    CallEnv (vmEnv L).total (fun _ _ _ => True) (fun _ => True) fun _ => True where
  quiet := {
    refuse := fun _ _ => trivial
    map := by
      intro v M m _ _ _ _ _
      have hsame : ∀ r : Option Machine, ((r.map fun M => (M, m)).getD
          (((vmEnv L).total.pmmAllocFrame M).2, m)).2 = m := by
        intro r
        cases r <;> rfl
      exact ⟨_, _, rfl, trivial, fun x _ => congrFun (hsame _) x⟩
    frame := fun _ _ => trivial }
  enter _ _ _ := trivial
  leave _ := trivial
  frame _ _ := trivial

section Runs

variable {L : Layout} {M₀ M₁ M M' : Machine} {bytes : Bytes} {h₀ h' : KHeap}
  {rs : List (Request Machine)} {s : HeapState} {n : Nat}

theorem kheapInit_heapOk (hk : kheapInit (vmEnv L) M₀ bytes = some (true, h₀, M₁)) :
    HeapOk h₀ [] [bootBlock] := by
  unfold kheapInit at hk
  obtain ⟨⟨ok, M₂, m₂⟩, -, hk⟩ := Option.bind_eq_some_iff.mp hk
  cases ok with
  | false => cases hk
  | true =>
    cases hk
    exact bootBlock_heapOk m₂

/-- **Failed requests.** In every state that clients reach from a successful `kheap_init`
through requests that do not wrap around, and whatever the machine has come to, a
`kmalloc` that returns `NULL` changes nothing exactly when it stops short. -/
theorem failed_kmalloc_iff (hk : kheapInit (vmEnv L) M₀ bytes = some (true, h₀, M₁))
    (hrun : Run (request (vmEnv L)) (fun s r => r.Proper s ∧ NoWrap s.heap r.bytes) ⟨h₀, []⟩ rs s)
    (he : kmalloc (vmEnv L) s.heap M n = some (0, h', M')) :
    Unchanged s.heap h' M M' ↔ StopsShort s.heap M n := by
  obtain ⟨⟨bs, H⟩, -⟩ :=
    (vmEnv_calls L).run_of_total ⟨⟨_, kheapInit_heapOk hk⟩, trivial⟩ hrun
  constructor
  · intro hsame
    by_contra hs
    obtain ⟨f, hf, hf'⟩ := kmalloc_taken H hs he
    exact hf' ((hsame.frames f).mpr hf)
  · intro hs
    obtain ⟨rfl, rfl⟩ := kmalloc_stopped H hs he
    exact .refl _ _

end Runs

theorem noFrame_iff {p : Pmm} : NoFrame p ↔ reachable p = 0 := by
  constructor
  · intro hnone
    have hle := Bitmap.clearCount_le (n := 8 * (p.totalFrames / 8)) 0 0 fun g hg hclear =>
      absurd hclear (hnone g hg)
    unfold reachable
    omega
  · intro h0 g hg hfree
    have hpos : 0 < reachable p := Bitmap.clearCount_pos hfree hg
    omega

/-- 552 frames from `0x127000`, of which the allocator finds 257. -/
def scarceMap : Option (List MmapEntry) := some [⟨0x127000#64, 0x228000#64, memoryAvailable⟩]

theorem scarcePmm : (pmmInit sampleLayout (fun _ => 0#8) scarceMap).totalFrames = 552 ∧
    reachable (pmmInit sampleLayout (fun _ => 0#8) scarceMap) = 257 :=
  oneRange_pmm ⟨0x127000#64, 0x228000#64, memoryAvailable⟩ 295 847 rfl (by decide) (by decide)
    (by decide) (by decide)

theorem initialHeap_full (bytes : Bytes) {n : Nat} (hn : bootBlock.size < roundUp 8 n) :
    findFreeBlock (initialHeap bytes).mem (roundUp 8 n) walkFuel (initialHeap bytes).firstBlock =
      some 0 := by
  have H : HeapOk (initialHeap bytes) [] [bootBlock] := bootBlock_heapOk bytes
  rw [H.find, List.find?_cons_of_neg, List.find?_nil]
  · rfl
  · simp only [fits, Bool.and_eq_true, decide_eq_true_eq]
    omega

/-- The theorem at a request for 16 MB, which the limit turns down. -/
theorem failed_kmalloc_over_limit : ∃ M₀ h₀ M₁ h' M',
    pagingInitLoad sampleLayout (bootStart sampleLayout (fun _ _ => 0)
      (pmmInit sampleLayout (fun _ => 0#8) scarceMap)) = some M₀ ∧
    kheapInit (vmEnv sampleLayout) M₀ (fun _ => 0#8) = some (true, h₀, M₁) ∧
    kmalloc (vmEnv sampleLayout) h₀ M₁ 0x1000000 = some (0, h', M') ∧ Unchanged h₀ h' M₁ M' := by
  obtain ⟨htot, hreach⟩ := scarcePmm
  obtain ⟨M₀, M₁, hload, hinit, -⟩ := sampleHeap_ok (n := 1)
    (pmmInit_reserves sampleLayout (fun _ => 0#8) scarceMap) (by omega) hreach
  have hlim : (initialHeap fun _ => 0#8).heapMax <
      w32 ((initialHeap fun _ => 0#8).heapEnd + growPages 0x1000000 * pageSize) := by decide
  have he := kmalloc_refused (E := vmEnv sampleLayout) (e := M₁) (by decide)
    (initialHeap_full (fun _ => 0#8) (n := 0x1000000) (by decide))
    (by rw [heapExpand_pages, if_pos hlim])
  exact ⟨M₀, _, M₁, _, _, hload, hinit, he,
    (failed_kmalloc_iff hinit (.nil _) he).mpr (.inr (.inl hlim))⟩

/-- **A failed request keeps its frames**: with one frame left, a request for 1 MB takes it
for the first of its 257 pages and returns `NULL`. -/
theorem failed_kmalloc_keeps_frame : ∃ M₀ h₀ M₁ h' M',
    pagingInitLoad sampleLayout (bootStart sampleLayout (fun _ _ => 0)
      (pmmInit sampleLayout (fun _ => 0#8) scarceMap)) = some M₀ ∧
    kheapInit (vmEnv sampleLayout) M₀ (fun _ => 0#8) = some (true, h₀, M₁) ∧
    kmalloc (vmEnv sampleLayout) h₀ M₁ 0x100000 = some (0, h', M') ∧ ¬ Unchanged h₀ h' M₁ M' := by
  obtain ⟨htot, hreach⟩ := scarcePmm
  obtain ⟨M₀, M₁, hload, hinit, hi₁, hr₁, hstatic, -⟩ := sampleHeap_ok (n := 1)
    (pmmInit_reserves sampleLayout (fun _ => 0#8) scarceMap) (by omega) hreach
  obtain ⟨M₂, hmap₂, -, hr₂, -⟩ := hi₁.mapHeapPages_static (initialHeap fun _ => 0#8).mem 1
    0xC0500000 rfl (by decide) (by decide) (fun u h1 h2 =>
      hstatic u (by unfold pageSize at *; omega) (by unfold pageSize at *; omega)) (by omega)
  -- the loop stops at its second page
  have hnone : (vmEnv sampleLayout).pmmAllocFrame M₂ = (0, M₂) :=
    (noFrame_iff.mpr (show reachable M₂.pmm = 0 by omega)).alloc
  have hmap : mapHeapPages (vmEnv sampleLayout) M₁ (initialHeap fun _ => 0#8).mem 0xC0500000 257 =
      some (false, M₂, (initialHeap fun _ => 0#8).mem) := by
    rw [mapHeapPages_add 256 1 0xC0500000 hmap₂, mapHeapPages_succ, hnone]
    rfl
  have hlim : ¬ (initialHeap fun _ => 0#8).heapMax <
      w32 ((initialHeap fun _ => 0#8).heapEnd + growPages 0x100000 * pageSize) := by decide
  have hpages : growPages 0x100000 = 257 := by decide
  have he := kmalloc_refused (E := vmEnv sampleLayout) (e := M₁) (by decide)
    (initialHeap_full (fun _ => 0#8) (n := 0x100000) (by decide))
    (by
      rw [heapExpand_pages, if_neg hlim, hpages]
      exact congrArg (Option.bind · _) hmap)
  have hmore : ¬ StopsShort (initialHeap fun _ => 0#8) M₁ 0x100000 := by
    rintro (h0 | h0 | h0 | h0)
    · cases h0
    · exact hlim h0
    · omega
    · rw [noFrame_iff] at h0
      omega
  refine ⟨M₀, _, M₁, _, _, hload, hinit, he, fun hsame => ?_⟩
  obtain ⟨f, hf, hf'⟩ := kmalloc_taken (bootBlock_heapOk _) hmore he
  exact hf' ((hsame.frames f).mpr hf)

end TupleOS.Memory
