import TupleOS.Heap.Aligned
import TupleOS.Memory.VmmSpec

/-!
# Requests of any size

Between a request and the end of the grown heap `kheap.c` rounds up to 8 bytes, adds
the header, rounds up to pages and adds `heap_end`; `kmalloc_aligned` adds a page before
that and `kcalloc` multiplies. All of it is unchecked 32-bit arithmetic. In every state
that clients reach through requests that do not wrap around, the next such request is
refused or gets the bytes it asked for (`requests_honoured`). A request that wraps around
is served by a block that is too small (`wrapped_requests_cheated`).
-/

namespace TupleOS.Heap

open TupleOS.Base TupleOS.Memory

/-! ## Clients -/

/-- What clients ask of the heap. The environment that `kheap.c` meets comes with the call. -/
inductive Request (σ : Type) where
  | kmalloc (n : Nat) (e : σ)
  | kmallocAligned (n : Nat) (e : σ)
  | kcalloc (num size : Nat) (e : σ)
  | kfree (p : Nat)
  | write (x : Nat) (b : BitVec 8)

section Requests

variable {σ : Type} (E : PageEnv σ)

/-- One request. The block behind an aligned pointer is live under the pointer of the
`kmalloc` inside `kmalloc_aligned`. -/
def request (s : HeapState) : Request σ → Option HeapState
  | .kmalloc n e => (kmalloc E s.heap e n).map fun r => ⟨r.2.1, addLive s.live r.1 n⟩
  | .kmallocAligned n e => (kmalloc E s.heap e (w32 (n + pageSize))).map fun r =>
      ⟨r.2.1, addLive s.live r.1 (n + pageSize)⟩
  | .kcalloc num size e => (kcalloc E s.heap e num size).map fun r =>
      ⟨r.2.1, addLive s.live r.1 (num * size)⟩
  | .kfree p => (kfree s.heap p).map fun h => ⟨h, dropPtr p s.live⟩
  | .write x b => some { s with heap := { s.heap with mem := store8 s.heap.mem x b } }

/-- The bytes that the request needs of one block, without wraparound. -/
def Request.bytes : Request σ → Nat
  | .kmalloc n _ => n
  | .kmallocAligned n _ => n + pageSize
  | .kcalloc num size _ => num * size
  | .kfree _ => 0
  | .write _ _ => 0

/-- `kfree` of live pointers, writes inside payloads. -/
def Request.Proper (s : HeapState) : Request σ → Prop
  | .kmalloc _ _ => True
  | .kmallocAligned _ _ => True
  | .kcalloc _ _ _ => True
  | .kfree p => ∃ l ∈ s.live, l.ptr = p
  | .write x _ => ∃ l ∈ s.live, InWin l.ptr (l.ptr + s.payloadSize l) x

/-- The environment that the call meets satisfies `ok`. -/
def Request.Meets (ok : σ → Prop) : Request σ → Prop
  | .kmalloc _ e => ok e
  | .kmallocAligned _ e => ok e
  | .kcalloc _ _ e => ok e
  | .kfree _ => True
  | .write _ _ => True

end Requests

/-- What calls ask of their environments: met with `ok` while memory satisfies `J`, they
are quiet and leave memory satisfying `J`. -/
structure CallEnv {σ : Type} (E : PageEnv σ) (I : Nat → σ → Bytes → Prop) (J : Bytes → Prop)
    (ok : σ → Prop) : Prop where
  quiet : QuietEnv E heapMaxAddr I
  enter : ∀ {e m}, J m → ok e → ∀ v, I v e m
  leave : ∀ {v e m}, I v e m → J m
  frame : ∀ {m m'}, J m → (∀ x, ¬ InWin heapStartAddr heapMaxAddr x → m' x = m x) → J m'

/-- The list is well formed and memory outside the heap satisfies `J`. -/
def GoodHeap (J : Bytes → Prop) (s : HeapState) : Prop :=
  (∃ bs, HeapOk s.heap s.live bs) ∧ J s.heap.mem

section Steps

variable {σ : Type} {E : PageEnv σ} {I : Nat → σ → Bytes → Prop} {J : Bytes → Prop} {ok : σ → Prop}
  {s s' : HeapState} {r : Request σ} {rs : List (Request σ)}

/-- **One request** that does not wrap around returns and leaves a good heap. -/
theorem CallEnv.step (C : CallEnv E I J ok) (h : GoodHeap J s) (hp : r.Proper s)
    (hw : NoWrap s.heap r.bytes) (hm : r.Meets ok) :
    ∃ s', request E s r = some s' ∧ GoodHeap J s' ∧ s.heap.heapEnd ≤ s'.heap.heapEnd := by
  obtain ⟨⟨bs, H⟩, hJ⟩ := h
  cases r with
  | kmalloc n e =>
    obtain ⟨p, h', e', he, ⟨_, hI⟩, hs⟩ := kmalloc_ok (n := n) C.quiet H (C.enter hJ hm _) hw id
    exact ⟨⟨h', addLive s.live p n⟩, by rw [request, he]; rfl, ⟨hs.addLive, C.leave hI⟩, hs.fin_le⟩
  | kmallocAligned n e =>
    have hsum : w32 (n + pageSize) = n + pageSize := w32_of_lt (by
      have : n + pageSize + 7 < 2 ^ 32 := (hw.expandSize H.end_gt.le).1
      omega)
    obtain ⟨p, h', e', he, ⟨_, hI⟩, hs⟩ := kmalloc_ok C.quiet H (C.enter hJ hm _) hw id
    exact ⟨⟨h', addLive s.live p (n + pageSize)⟩, by rw [request, hsum]; exact congrArg _ he,
      ⟨hs.addLive, C.leave hI⟩, hs.fin_le⟩
  | kcalloc num size e =>
    obtain ⟨p, h', e', he, ⟨_, hI⟩, hs, -⟩ := kcalloc_ok C.quiet H (C.enter hJ hm _) hw id
    exact ⟨⟨h', addLive s.live p (num * size)⟩, by rw [request, he]; rfl,
      ⟨hs.addLive, C.leave hI⟩, hs.fin_le⟩
  | kfree p =>
    obtain ⟨l, hl, rfl⟩ := hp
    obtain ⟨h', bs', he, H', hout, -⟩ := H.kfree_live hl
    exact ⟨⟨h', dropPtr l.ptr s.live⟩, by rw [request, he]; rfl, ⟨⟨bs', H'⟩, C.frame hJ hout⟩,
      Nat.le_of_eq (kfree_bounds he).fin.symm⟩
  | write x v =>
    obtain ⟨l, hl, hx⟩ := hp
    obtain ⟨H', hout⟩ := H.write_live hl hx v
    exact ⟨_, rfl, ⟨⟨bs, H'⟩, C.frame hJ hout⟩, Nat.le_refl _⟩

/-- **A run** of requests that do not wrap around. -/
theorem CallEnv.run (C : CallEnv E I J ok) (h : GoodHeap J s)
    (hrun : Run (request E) (fun s r => r.Proper s ∧ NoWrap s.heap r.bytes ∧ r.Meets ok) s rs s') :
    GoodHeap J s' := by
  refine hrun.invariant (GoodHeap J) (fun {s r s'} hs hr he => ?_) h
  obtain ⟨s₁, he₁, hs₁, -⟩ := C.step hs hr.1 hr.2.1 hr.2.2
  rw [he, Option.some.injEq] at he₁
  exact he₁ ▸ hs₁

end Steps

/-! ## Environments that may not return -/

section Total

variable {σ : Type} {E : PageEnv σ} {h h' : KHeap} {e e' : σ}

/-- `E`, where a mapping that does not return maps nothing. -/
def PageEnv.total (E : PageEnv σ) : PageEnv σ where
  pmmAllocFrame := E.pmmAllocFrame
  pagingMapPage e m v p flags := some ((E.pagingMapPage e m v p flags).getD (e, m))

theorem mapHeapPages_total {r : Bool × σ × Bytes} : ∀ (n base : Nat) {e : σ} {m : Bytes},
    mapHeapPages E e m base n = some r → mapHeapPages E.total e m base n = some r
  | 0, _, _, _, he => he
  | n + 1, base, e, m, he => by
    rw [mapHeapPages_succ] at he ⊢
    show (if (E.pmmAllocFrame e).1 = 0 then _ else _) = _
    split at he
    · rename_i h0
      rw [if_pos h0]
      exact he
    · rename_i h0
      rw [if_neg h0]
      obtain ⟨t, ht, he⟩ := Option.bind_eq_some_iff.mp he
      have ht' : E.total.pagingMapPage (E.total.pmmAllocFrame e).2 m base
          (E.total.pmmAllocFrame e).1 (pagePresent ||| pageWrite) = some t := by
        show some ((E.pagingMapPage (E.pmmAllocFrame e).2 m base (E.pmmAllocFrame e).1 _).getD
          _) = _
        rw [ht]
        rfl
      rw [ht']
      exact mapHeapPages_total n _ he

theorem heapExpand_total {size : Nat} {r : Bool × KHeap × σ} (he : heapExpand E h e size = some r) :
    heapExpand E.total h e size = some r := by
  unfold heapExpand at he ⊢
  simp only at he ⊢
  split at he
  · rename_i hlim
    rw [if_pos hlim]
    exact he
  · rename_i hlim
    rw [if_neg hlim]
    obtain ⟨t, ht, he⟩ := Option.bind_eq_some_iff.mp he
    rw [mapHeapPages_total _ _ ht]
    exact he

theorem kmalloc_total {n : Nat} {r : Nat × KHeap × σ} (he : kmalloc E h e n = some r) :
    kmalloc E.total h e n = some r := by
  unfold kmalloc at he ⊢
  split at he
  · rename_i h0
    rw [if_pos h0]
    exact he
  · rename_i h0
    rw [if_neg h0]
    obtain ⟨block, hf, he⟩ := Option.bind_eq_some_iff.mp he
    simp only [hf, Option.bind_eq_bind, Option.bind_some] at he ⊢
    split at he
    · rename_i hb
      rw [if_pos hb]
      exact he
    · rename_i hb
      rw [if_neg hb]
      obtain ⟨t, ht, he⟩ := Option.bind_eq_some_iff.mp he
      rw [heapExpand_total ht]
      exact he

theorem kcalloc_total {num size : Nat} {r : Nat × KHeap × σ}
    (he : kcalloc E h e num size = some r) : kcalloc E.total h e num size = some r := by
  unfold kcalloc at he ⊢
  obtain ⟨t, ht, he⟩ := Option.bind_eq_some_iff.mp he
  simp only [kmalloc_total ht]
  exact he

theorem request_total {s s' : HeapState} {r : Request σ} (he : request E s r = some s') :
    request E.total s r = some s' := by
  cases r with
  | kmalloc n e =>
    rw [request] at he
    obtain ⟨t, ht, hs⟩ := Option.map_eq_some_iff.mp he
    rw [request, kmalloc_total ht]
    exact congrArg some hs
  | kmallocAligned n e =>
    rw [request] at he
    obtain ⟨t, ht, hs⟩ := Option.map_eq_some_iff.mp he
    rw [request, kmalloc_total ht]
    exact congrArg some hs
  | kcalloc num size e =>
    rw [request] at he
    obtain ⟨t, ht, hs⟩ := Option.map_eq_some_iff.mp he
    rw [request, kcalloc_total ht]
    exact congrArg some hs
  | kfree p => exact he
  | write x b => exact he

end Total

theorem CallEnv.run_of_total {σ : Type} {E : PageEnv σ} {I : Nat → σ → Bytes → Prop}
    {J : Bytes → Prop} {s s' : HeapState} {rs : List (Request σ)}
    (C : CallEnv E.total I J fun _ => True) (h : GoodHeap J s)
    (hrun : Run (request E) (fun s r => r.Proper s ∧ NoWrap s.heap r.bytes) s rs s') :
    GoodHeap J s' := by
  refine hrun.invariant (GoodHeap J) (fun {s r s'} hs hr he => ?_) h
  obtain ⟨s₁, he₁, hs₁, -⟩ := C.step hs hr.1 hr.2 (by cases r <;> exact trivial)
  rw [request_total he, Option.some.injEq] at he₁
  exact he₁ ▸ hs₁

/-- Frames from the allocator, none of them for a page table in the heap window. -/
def Answers.Quiet (L : Layout) (a : Answers) : Prop := a.FromPmm L ∧ a.TablesOffHeap

theorem heapEnv_calls (L : Layout) :
    CallEnv (heapEnv L) (fun _ => TablesQuiet L) (TablesOk L) (Answers.Quiet L) where
  quiet := heapEnv_quiet L
  enter hm hq _ := tablesQuiet_of hq.1 hq.2 hm
  leave hI := hI.1
  frame hm hout := hm.frame (agree_pageDirectory hout)

/-! ## Honoured or refused -/

/-- The list has an allocated block inside the heap with payload `p` and at least `n` bytes. -/
def HoldsAt (h : KHeap) (p n : Nat) : Prop :=
  ∃ bs, readBlocks h.mem walkFuel h.firstBlock = some bs ∧ ∃ b ∈ bs, b.free = false ∧
    b.payload = p ∧ h.heapStart ≤ b.addr ∧ b.fin ≤ h.heapEnd ∧ n ≤ b.size

/-- The list has an allocated block inside the heap that contains `[p, p + n)`. -/
def Encloses (h : KHeap) (p n : Nat) : Prop :=
  ∃ bs, readBlocks h.mem walkFuel h.firstBlock = some bs ∧ ∃ b, Backs bs b p n ∧
    h.heapStart ≤ b.addr ∧ b.fin ≤ h.heapEnd

section Honoured

variable {L : Layout} {h h' : KHeap} {live : List Alloc} {bs : List Block} {p n : Nat}

theorem HeapOk.inside (H : HeapOk h live bs) {b : Block} (hb : b ∈ bs) :
    h.heapStart ≤ b.addr ∧ b.fin ≤ h.heapEnd := by
  rw [H.start_eq]
  exact H.addr_pos hb

theorem Served.holdsAt (hs : Served h h' live bs p n) (hp : p ≠ 0) : HoldsAt h' p n := by
  obtain ⟨bs', H', -⟩ := hs.granted hp
  obtain ⟨b, hb, hbf, hbp, hreq⟩ := H'.live_block ⟨p, n⟩ List.mem_cons_self
  exact ⟨bs', H'.read.1, b, hb, hbf, hbp, (H'.inside hb).1, (H'.inside hb).2, hreq⟩

theorem HoldsAt.le (hh : HoldsAt h p n) (hs : h.heapStart = heapStartAddr)
    (he : h.heapEnd ≤ heapMaxAddr) : n ≤ maxHeapSize := by
  obtain ⟨_, -, b, -, -, -, hlo, hhi, hn⟩ := hh
  unfold Block.fin at hhi
  unfold heapMaxAddr at he
  omega

theorem Encloses.le (hh : Encloses h p n) (hs : h.heapStart = heapStartAddr)
    (he : h.heapEnd ≤ heapMaxAddr) : n ≤ maxHeapSize := by
  obtain ⟨_, -, b, hb, hlo, hhi⟩ := hh
  have hb1 : b.addr + headerSize ≤ p := hb.lo
  have hb2 := hb.hi
  unfold heapMaxAddr at he
  omega

/-- **Requests are honoured or refused.** In every state that clients reach from a
successful boot through requests that do not wrap around, such a request returns, and an
answer other than `NULL` points to all the bytes asked for. -/
theorem requests_honoured {m : Bytes} {a a' e : Answers} {rs : List (Request Answers)}
    {s : HeapState} (ha : a.Quiet L) (hboot : bootHeap L m a = some (true, h, a'))
    (hrun : Run (request (heapEnv L))
      (fun s r => r.Proper s ∧ NoWrap s.heap r.bytes ∧ r.Meets (Answers.Quiet L)) ⟨h, []⟩ rs s)
    (he : e.Quiet L) :
    (∀ n, NoWrap s.heap n → ∃ p h' e', kmalloc (heapEnv L) s.heap e n = some (p, h', e') ∧
      (p ≠ 0 → HoldsAt h' p n)) ∧
    (∀ n, NoWrap s.heap (n + pageSize) → ∃ p h' e',
      kmallocAligned (heapEnv L) s.heap e n = some (p, h', e') ∧
      (p ≠ 0 → p % pageSize = 0 ∧ Encloses h' p n)) ∧
    ∀ num size, NoWrap s.heap (num * size) → ∃ p h' e',
      kcalloc (heapEnv L) s.heap e num size = some (p, h', e') ∧
      (p ≠ 0 → HoldsAt h' p (num * size) ∧ ∀ x, InWin p (p + num * size) x → h'.mem x = 0) := by
  obtain ⟨⟨bs, H⟩, hT⟩ := (heapEnv_calls L).run (bootHeap_inv ha.1 ha.2 hboot) hrun
  have hI := tablesQuiet_of he.1 he.2 hT
  refine ⟨fun n hw => ?_, fun n hw => ?_, fun num size hw => ?_⟩
  · obtain ⟨p, h', e', hk, -, hs⟩ := kmalloc_ok (heapEnv_quiet L) H hI hw id
    exact ⟨p, h', e', hk, hs.holdsAt⟩
  · obtain ⟨p, h', e', hk, -, -, -, hnz⟩ := kmallocAligned_ok H hT he.1 he.2 hw
    refine ⟨p, h', e', hk, fun hp => ?_⟩
    obtain ⟨live', bs', b, H', -, hb, hround, -⟩ := hnz hp
    exact ⟨by rw [hround]; exact Nat.mod_eq_zero_of_dvd (roundUp_dvd _ _), bs', H'.read.1, b, hb,
      H'.inside hb.mem⟩
  · obtain ⟨p, h', e', hk, -, hs, hzero⟩ := kcalloc_ok (heapEnv_quiet L) H hI hw id
    exact ⟨p, h', e', hk, fun hp => ⟨hs.holdsAt hp, hzero hp⟩⟩

def firstRequest : Request Answers := .kmalloc 100 ⟨[], []⟩

theorem firstRequest_served : ∃ h a' s,
    bootHeap sampleLayout (fun _ => 0) sampleBoot = some (true, h, a') ∧
    request (heapEnv sampleLayout) ⟨h, []⟩ firstRequest = some s ∧
    (firstRequest.Proper ⟨h, []⟩ ∧ NoWrap h firstRequest.bytes ∧
      firstRequest.Meets (Answers.Quiet sampleLayout)) ∧ ∃ bs, HeapOk s.heap s.live bs := by
  obtain ⟨hf, ho, -⟩ := sampleBoot_ok
  obtain ⟨h, a', hboot⟩ := sampleBoot_succeeds fun _ => 0
  have hgood : GoodHeap (TablesOk sampleLayout) ⟨h, []⟩ := bootHeap_inv hf ho hboot
  have hr : firstRequest.Proper ⟨h, []⟩ ∧ NoWrap h firstRequest.bytes ∧
      firstRequest.Meets (Answers.Quiet sampleLayout) :=
    ⟨trivial, (bootHeap_ok hf ho hboot).1.noWrap (by decide), noAnswers_fromPmm _,
      noAnswers_tablesOffHeap⟩
  obtain ⟨s, hs, ⟨hbs, -⟩, -⟩ := (heapEnv_calls sampleLayout).step hgood hr.1 hr.2.1 hr.2.2
  exact ⟨h, a', s, hboot, hs, hr, hbs⟩

/-- The theorem after a first request: one for nearly 1 GB, one for a kernel stack and
one for a table. -/
theorem requests_honoured_after_first : ∃ h a' s,
    bootHeap sampleLayout (fun _ => 0) sampleBoot = some (true, h, a') ∧
    request (heapEnv sampleLayout) ⟨h, []⟩ firstRequest = some s ∧
    (∃ p h' e', kmalloc (heapEnv sampleLayout) s.heap ⟨[], []⟩ 0x3E000000 = some (p, h', e') ∧
      (p ≠ 0 → HoldsAt h' p 0x3E000000)) ∧
    (∃ p h' e', kmallocAligned (heapEnv sampleLayout) s.heap ⟨[], []⟩ 8192 = some (p, h', e') ∧
      (p ≠ 0 → p % pageSize = 0 ∧ Encloses h' p 8192)) ∧
    ∃ p h' e', kcalloc (heapEnv sampleLayout) s.heap ⟨[], []⟩ 16 64 = some (p, h', e') ∧
      (p ≠ 0 → HoldsAt h' p (16 * 64) ∧ ∀ x, InWin p (p + 16 * 64) x → h'.mem x = 0) := by
  obtain ⟨hf, ho, -⟩ := sampleBoot_ok
  obtain ⟨h, a', s, hboot, hs, hr, bs', H'⟩ := firstRequest_served
  have hquiet : Answers.Quiet sampleLayout ⟨[], []⟩ :=
    ⟨noAnswers_fromPmm _, noAnswers_tablesOffHeap⟩
  have hbig : NoWrap s.heap 0x3E000000 := by
    have hend := H'.end_le
    unfold heapMaxAddr heapStartAddr maxHeapSize at hend
    unfold NoWrap growth headerSize pageSize
    omega
  obtain ⟨h1, h2, h3⟩ := requests_honoured ⟨hf, ho⟩ hboot (.cons hr hs (.nil s)) hquiet
  exact ⟨h, a', s, hboot, hs, h1 _ hbig, h2 _ (H'.noWrap (by decide)),
    h3 16 64 (H'.noWrap (by decide))⟩

/-! ## Requests that wrap around -/

theorem HeapOk.kmalloc_first {σ : Type} (E : PageEnv σ) (e : σ) {b : Block}
    (H : HeapOk h live (b :: bs)) (hb : b.free = true) (hn : n ≠ 0) (hk : roundUp 8 n ≤ b.size) :
    ∃ h' live' bs', Heap.kmalloc E h e n = some (b.payload, h', e) ∧ HeapOk h' live' bs' := by
  have h8 : roundUp 8 n % 8 = 0 := Nat.mod_eq_zero_of_dvd (roundUp_dvd 8 n)
  have hfind : (b :: bs).find? (fits (roundUp 8 n)) = some b := by
    apply List.find?_cons_of_pos
    simp [fits, hb, hk]
  obtain ⟨hf, hb0, hp, ⟨bs', H', -⟩, -⟩ := H.serve (n := 0) (by omega) (Nat.zero_le _) hfind
  exact ⟨_, _, bs', by rw [← hp]; exact kmalloc_found hn hf hb0, H'⟩

/-- **Requests that wrap around are cheated**: after boot `kmalloc(0xFFFFFFFF)` rounds to 0
bytes, `kmalloc_aligned(0xFFFFF008)` asks for 8 bytes and `kcalloc(0x10000, 0x10001)` for
64 KB. Each gets a pointer to less than it asked for. -/
theorem wrapped_requests_cheated : ∃ h a',
    bootHeap sampleLayout (fun _ => 0) sampleBoot = some (true, h, a') ∧
    (∃ h', kmalloc (heapEnv sampleLayout) h ⟨[], []⟩ 0xFFFFFFFF = some (0xC040000C, h', ⟨[], []⟩) ∧
      ¬ HoldsAt h' 0xC040000C 0xFFFFFFFF) ∧
    (∃ h', kmallocAligned (heapEnv sampleLayout) h ⟨[], []⟩ 0xFFFFF008 =
        some (0xC0401000, h', ⟨[], []⟩) ∧ ¬ Encloses h' 0xC0401000 0xFFFFF008) ∧
    ∃ h', kcalloc (heapEnv sampleLayout) h ⟨[], []⟩ 0x10000 0x10001 =
        some (0xC040000C, h', ⟨[], []⟩) ∧ ¬ HoldsAt h' 0xC040000C (0x10000 * 0x10001) := by
  obtain ⟨hf, ho, -⟩ := sampleBoot_ok
  obtain ⟨h, a', hboot⟩ := sampleBoot_succeeds fun _ => 0
  obtain ⟨H, -⟩ := bootHeap_ok hf ho hboot
  have hp : bootBlock.payload = 0xC040000C := rfl
  refine ⟨h, a', hboot, ?_, ?_, ?_⟩
  · obtain ⟨h', _, _, hk, H'⟩ :=
      H.kmalloc_first (n := 0xFFFFFFFF) (heapEnv sampleLayout) ⟨[], []⟩ rfl (by decide) (by decide)
    exact ⟨h', hk, fun hh => absurd (hh.le H'.start_eq H'.end_le) (by decide)⟩
  · obtain ⟨h', _, _, hk, H'⟩ := H.kmalloc_first (n := 8) (heapEnv sampleLayout) ⟨[], []⟩ rfl
      (by decide) (by decide)
    refine ⟨h', ?_, fun hh => absurd (hh.le H'.start_eq H'.end_le) (by decide)⟩
    rw [kmallocAligned, show w32 (0xFFFFF008 + pageSize) = 8 by decide, hk]
    rfl
  · obtain ⟨h', _, _, hk, H'⟩ := H.kmalloc_first (n := 0x10000) (heapEnv sampleLayout) ⟨[], []⟩ rfl
      (by decide) (by decide)
    refine ⟨{ h' with mem := zeroBytes h'.mem 0xC040000C 0x10000 }, ?_,
      fun hh => absurd (hh.le H'.start_eq H'.end_le) (by decide)⟩
    rw [kcalloc, show w32 (0x10000 * 0x10001) = 0x10000 by decide, hk]
    rfl

end Honoured

end TupleOS.Heap
