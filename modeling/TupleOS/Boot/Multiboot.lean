import TupleOS.Base.Bytes
import TupleOS.Memory.Pmm

/-!
# The memory map from stage 2 to the kernel (`boot/stage2.asm`, `kernel/pmm.c`)

`build_multiboot` converts the entries that the BIOS gave stage 2 into the form
`pmm_init` walks. Both arrays lie in low memory, and a long map is converted
over its own source. The destination starts 3844 bytes below the source and
advances as fast, so no entry is overwritten before it is read
(`mbConvert_spec`), and the walk finds the map that stage 2 was given
(`map_round_trip`).
-/

namespace TupleOS.Boot

open TupleOS.Base TupleOS.Memory

def mmapEntries : Nat := 0x6000
def mmapData : Nat := 0x6004
def mmapEntrySize : Nat := 24
def mbootInfo : Nat := 0x5000
def mbootMmap : Nat := 0x5100

/-! ## Stage 2 -/

def mbFields (m : Bytes) (esi edi : Nat) : Bytes :=
  let m := store32 m edi 20
  let m := store32 m (edi + 4) (load32 m (esi + 0))
  let m := store32 m (edi + 8) (load32 m (esi + 4))
  let m := store32 m (edi + 12) (load32 m (esi + 8))
  let m := store32 m (edi + 16) (load32 m (esi + 12))
  store32 m (edi + 20) (load32 m (esi + 16))

/-- `mem_lower`, from usable memory at address `0`. -/
def mbLower (m : Bytes) (esi : Nat) : Bytes :=
  if load32 m (esi + 16) = 1 ∧ load32 m (esi + 0) = 0 ∧ load32 m (esi + 4) = 0 then
    store32 m (mbootInfo + 4) (load32 m (esi + 8) / 2 ^ 10)
  else m

/-- `mem_upper`, from usable memory at 1 MB. -/
def mbUpper (m : Bytes) (esi : Nat) : Bytes :=
  if load32 m (esi + 16) = 1 ∧ load32 m (esi + 4) = 0 ∧ load32 m (esi + 0) = 0x100000 then
    store32 m (mbootInfo + 8) (load32 m (esi + 8) / 2 ^ 10)
  else m

def mbEntry (m : Bytes) (esi edi : Nat) : Bytes := mbUpper (mbLower (mbFields m esi edi) esi) esi

/-- The loop `.mb_convert`; the result is memory and `edx`. -/
def mbConvert (m : Bytes) (esi edi edx : Nat) : Nat → Bytes × Nat
  | 0 => (m, edx)
  | ecx + 1 => mbConvert (mbEntry m esi edi) (w32 (esi + mmapEntrySize)) (w32 (edi + 24))
      (w32 (edx + 24)) ecx

def buildMultiboot (m : Bytes) (mbootName : Nat) : Bytes :=
  let m := zeroWords m mbootInfo 22
  let (m, edx) := mbConvert m mmapData mbootMmap 0 (load32 m mmapEntries)
  let m := store32 m (mbootInfo + 0) (1 <<< 0 ||| 1 <<< 6 ||| 1 <<< 9)
  let m := store32 m (mbootInfo + 44) edx
  let m := store32 m (mbootInfo + 48) mbootMmap
  store32 m (mbootInfo + 64) mbootName

/-! ## The kernel -/

def multibootFlagMmap : Nat := 1 <<< 6

/-- What `pmm_init` reads of the `multiboot_mmap_entry_t` at `mmap`. -/
def readEntry (m : Bytes) (mmap : Nat) : MmapEntry where
  baseAddr := BitVec.ofNat 64 (load64 m (mmap + 4))
  length := BitVec.ofNat 64 (load64 m (mmap + 12))
  type := BitVec.ofNat 32 (load32 m (mmap + 20))

/-- The walk of `pmm_init`; `none` when it takes more than `fuel` entries. -/
def mmapWalk (m : Bytes) (mmapEnd : Nat) : Nat → Nat → Option (List MmapEntry)
  | 0, mmap => if mmap < mmapEnd then none else some []
  | fuel + 1, mmap =>
    if mmap < mmapEnd then
      (mmapWalk m mmapEnd fuel (w32 (w32 (mmap + load32 m mmap) + 4))).map (readEntry m mmap :: ·)
    else some []

/-- The entries that `pmm_init(mbi)` visits; `some none` when it has no map. -/
def pmmEntries (m : Bytes) (mbi fuel : Nat) : Option (Option (List MmapEntry)) :=
  if load32 m (mbi + 0) &&& multibootFlagMmap = 0 then some none
  else
    let mmapEnd := w32 (load32 m (mbi + 48) + load32 m (mbi + 44))
    (mmapWalk m mmapEnd fuel (load32 m (mbi + 48))).map some

/-! ## The map in memory -/

/-- A source entry as the BIOS wrote it. Its attributes are not converted. -/
structure E820At (m : Bytes) (a : Nat) (e : MmapEntry) : Prop where
  base : load64 m a = e.baseAddr.toNat
  length : load64 m (a + 8) = e.length.toNat
  type : load32 m (a + 16) = e.type.toNat

structure Stored (m : Bytes) (entries : List MmapEntry) : Prop where
  count : load32 m mmapEntries = entries.length
  entry : ∀ i (h : i < entries.length), E820At m (mmapData + 24 * i) entries[i]

structure MbootAt (m : Bytes) (a : Nat) (e : MmapEntry) : Prop where
  size : load32 m a = 20
  entry : readEntry m a = e

section Convert

variable {m m' : Bytes} {e : MmapEntry} {a b esi edi : Nat}

theorem E820At.congr (h : E820At m a e) (hm : AgreeOn m m' a (a + 20)) : E820At m' a e where
  base := by rw [load64_congr (hm.mono (by omega) (by omega))]; exact h.base
  length := by rw [load64_congr (hm.mono (by omega) (by omega))]; exact h.length
  type := by rw [load32_congr (hm.mono (by omega) (by omega))]; exact h.type

theorem MbootAt.congr (h : MbootAt m a e) (hm : AgreeOn m m' a (a + 24)) : MbootAt m' a e where
  size := by rw [load32_congr (hm.mono (by omega) (by omega))]; exact h.size
  entry := by
    rw [← h.entry]
    unfold readEntry
    rw [load64_congr (hm.mono (by omega) (by omega)), load64_congr (hm.mono (by omega) (by omega)),
      load32_congr (hm.mono (by omega) (by omega))]

theorem mbFields_eq (m : Bytes) (esi edi : Nat) :
    mbFields m esi edi = copyWords (store32 m edi 20) (edi + 4) esi 5 := rfl

theorem mbFields_agree (m : Bytes) {lo hi : Nat} (h : hi ≤ edi ∨ edi + 24 ≤ lo) :
    AgreeOn m (mbFields m esi edi) lo hi := by
  rw [mbFields_eq]
  exact (store32_agree m (by omega)).trans (copyWords_agree _ (by omega))

theorem mbFields_entry (h : E820At m esi e) (hlow : edi + 24 ≤ esi) :
    MbootAt (mbFields m esi edi) edi e := by
  have hsize : load32 (mbFields m esi edi) edi = 20 := by
    rw [mbFields_eq, load32_congr (copyWords_agree _ (by omega)), load32_store32 _ _ (by omega)]
  have hword : ∀ k < 5, load32 (mbFields m esi edi) (edi + 4 + 4 * k) = load32 m (esi + 4 * k) :=
    fun k hk => by
      rw [mbFields_eq, copyWords_load _ (by omega) hk, load32_store32_miss _ (by omega)]
  have hbase : load64 (mbFields m esi edi) (edi + 4) = e.baseAddr.toNat := by
    rw [← h.base]
    exact congrArg₂ (· + 2 ^ 32 * ·) (hword 0 (by omega)) (hword 1 (by omega))
  have hlength : load64 (mbFields m esi edi) (edi + 12) = e.length.toNat := by
    rw [← h.length]
    exact congrArg₂ (· + 2 ^ 32 * ·) (hword 2 (by omega)) (hword 3 (by omega))
  have htype : load32 (mbFields m esi edi) (edi + 20) = e.type.toNat := by
    rw [← h.type]
    exact hword 4 (by omega)
  refine ⟨hsize, ?_⟩
  unfold readEntry
  rw [hbase, hlength, htype, BitVec.ofNat_toNat, BitVec.ofNat_toNat, BitVec.ofNat_toNat]
  simp only [BitVec.setWidth_eq]

theorem mbLower_agree (m : Bytes) {lo hi : Nat} (h : hi ≤ mbootInfo + 4 ∨ mbootInfo + 8 ≤ lo) :
    AgreeOn m (mbLower m esi) lo hi := by
  unfold mbLower
  split
  · exact store32_agree m (by omega)
  · exact AgreeOn.refl _ _ _

theorem mbUpper_agree (m : Bytes) {lo hi : Nat} (h : hi ≤ mbootInfo + 8 ∨ mbootInfo + 12 ≤ lo) :
    AgreeOn m (mbUpper m esi) lo hi := by
  unfold mbUpper
  split
  · exact store32_agree m (by omega)
  · exact AgreeOn.refl _ _ _

theorem mbEntry_agree (m : Bytes) {lo hi : Nat} (h : hi ≤ edi ∨ edi + 24 ≤ lo)
    (hinfo : hi ≤ mbootInfo + 4 ∨ mbootInfo + 12 ≤ lo) : AgreeOn m (mbEntry m esi edi) lo hi :=
  ((mbFields_agree m h).trans (mbLower_agree _ (by omega))).trans (mbUpper_agree _ (by omega))

theorem mbEntry_entry (h : E820At m esi e) (hlow : edi + 24 ≤ esi) (hinfo : mbootInfo + 12 ≤ edi) :
    MbootAt (mbEntry m esi edi) edi e :=
  (mbFields_entry h hlow).congr
    ((mbLower_agree _ (.inr (by omega))).trans (mbUpper_agree _ (.inr (by omega))))

end Convert

/-! ## The loop -/

theorem mbConvert_agree (n : Nat) : ∀ (m : Bytes) (esi edi edx : Nat) {lo hi : Nat},
    edi + 24 * n < 2 ^ 32 → (hi ≤ edi ∨ edi + 24 * n ≤ lo) →
    (hi ≤ mbootInfo + 4 ∨ mbootInfo + 12 ≤ lo) →
    AgreeOn m (mbConvert m esi edi edx n).1 lo hi := by
  induction n with
  | zero => exact fun m _ _ _ lo hi _ _ _ => AgreeOn.refl m lo hi
  | succ n ih =>
    intro m esi edi edx lo hi hfit hout hinfo
    have hnext : w32 (edi + 24) = edi + 24 := w32_of_lt (by omega)
    rw [mbConvert, hnext]
    exact (mbEntry_agree m (by omega) hinfo).trans (ih _ _ _ _ (by omega) (by omega) hinfo)

theorem mbConvert_length (m : Bytes) (esi edi edx n : Nat) (hfit : edx + 24 * n < 2 ^ 32) :
    (mbConvert m esi edi edx n).2 = edx + 24 * n := by
  induction n generalizing m esi edi edx with
  | zero => rfl
  | succ n ih =>
    have hnext : w32 (edx + 24) = edx + 24 := w32_of_lt (by omega)
    rw [mbConvert, hnext, ih _ _ _ _ (by omega)]
    omega

/-- **The conversion over its own source.** The destination is below the source
and stays below what is left of it. -/
theorem mbConvert_spec (entries : List MmapEntry) : ∀ (m : Bytes) (esi edi edx : Nat),
    (∀ i (h : i < entries.length), E820At m (esi + 24 * i) entries[i]) →
    edi + 24 ≤ esi → mbootInfo + 12 ≤ edi → esi + 24 * entries.length < 2 ^ 32 →
    ∀ i (h : i < entries.length),
      MbootAt (mbConvert m esi edi edx entries.length).1 (edi + 24 * i) entries[i] := by
  induction entries with
  | nil => exact fun _ _ _ _ _ _ _ _ i h => absurd h (Nat.not_lt_zero i)
  | cons e rest ih =>
    intro m esi edi edx hsrc hlow hinfo hfit i hi
    rw [List.length_cons] at hfit hi
    have hesi : w32 (esi + mmapEntrySize) = esi + 24 := w32_of_lt (by unfold mmapEntrySize; omega)
    have hedi : w32 (edi + 24) = edi + 24 := w32_of_lt (by omega)
    rw [List.length_cons, mbConvert, hesi, hedi]
    have hhead : MbootAt (mbEntry m esi edi) edi e :=
      mbEntry_entry (hsrc 0 (by rw [List.length_cons]; omega)) hlow hinfo
    cases i with
    | zero => exact hhead.congr (mbConvert_agree _ _ _ _ _ (by omega) (by omega) (by omega))
    | succ i =>
      have htail : ∀ j (h : j < rest.length),
          E820At (mbEntry m esi edi) (esi + 24 + 24 * j) rest[j] := fun j hj => by
        have h := hsrc (j + 1) (by rw [List.length_cons]; omega)
        rw [show esi + 24 * (j + 1) = esi + 24 + 24 * j by omega] at h
        exact h.congr (mbEntry_agree m (.inr (by omega)) (.inr (by omega)))
      have h := ih _ (esi + 24) (edi + 24) (w32 (edx + 24)) htail (by omega) (by omega) (by omega)
        i (by omega)
      rw [show edi + 24 * (i + 1) = edi + 24 + 24 * i by omega]
      exact h

theorem mmapWalk_spec (m : Bytes) (entries : List MmapEntry) : ∀ (mmap fuel : Nat),
    (∀ i (h : i < entries.length), MbootAt m (mmap + 24 * i) entries[i]) →
    mmap + 24 * entries.length < 2 ^ 32 → entries.length ≤ fuel →
    mmapWalk m (mmap + 24 * entries.length) fuel mmap = some entries := by
  induction entries with
  | nil =>
    intro mmap fuel _ _ _
    cases fuel <;> simp [mmapWalk]
  | cons e rest ih =>
    intro mmap fuel hat hfit hfuel
    rw [List.length_cons] at hfit hfuel
    obtain ⟨fuel, rfl⟩ : ∃ k, fuel = k + 1 := ⟨fuel - 1, by omega⟩
    have hhead : MbootAt m mmap e := hat 0 (by rw [List.length_cons]; omega)
    have hstep : w32 (w32 (mmap + load32 m mmap) + 4) = mmap + 24 := by
      rw [hhead.size, w32_add_w32]
      exact w32_of_lt (by omega)
    have htail : ∀ j (h : j < rest.length), MbootAt m (mmap + 24 + 24 * j) rest[j] := fun j hj => by
      have h := hat (j + 1) (by rw [List.length_cons]; omega)
      rw [show mmap + 24 * (j + 1) = mmap + 24 + 24 * j by omega] at h
      exact h
    have hrest := ih (mmap + 24) fuel htail (by omega) (by omega)
    rw [List.length_cons, mmapWalk, if_pos (by omega), hstep, hhead.entry,
      show mmap + 24 * (rest.length + 1) = mmap + 24 + 24 * rest.length by omega, hrest]
    rfl

/-! ## The round trip -/

section RoundTrip

variable {m : Bytes} {entries : List MmapEntry}

theorem Stored.zeroed (h : Stored m entries) : Stored (zeroWords m mbootInfo 22) entries where
  count := by
    rw [load32_congr (zeroWords_agree m (.inr (by unfold mbootInfo mmapEntries; omega)))]
    exact h.count
  entry i hi := (h.entry i hi).congr
    (zeroWords_agree m (.inr (by unfold mbootInfo mmapData; omega)))

/-- Memory after `i` entries of the conversion. -/
def converted (m : Bytes) (i : Nat) : Bytes :=
  (mbConvert (zeroWords m mbootInfo 22) mmapData mbootMmap 0 i).1

theorem buildMultiboot_spec (h : Stored m entries) (hn : entries.length ≤ 298) (mbootName : Nat) :
    let m' := buildMultiboot m mbootName
    load32 m' mbootInfo = 0x241 ∧ load32 m' (mbootInfo + 44) = 24 * entries.length ∧
      load32 m' (mbootInfo + 48) = mbootMmap ∧
      ∀ i (h : i < entries.length), MbootAt m' (mbootMmap + 24 * i) entries[i] := by
  intro m'
  have hedx := mbConvert_length (zeroWords m mbootInfo 22) mmapData mbootMmap 0 entries.length
    (by omega)
  have hm' : m' = store32 (store32 (store32 (store32 (converted m entries.length) mbootInfo 0x241)
      (mbootInfo + 44) (24 * entries.length)) (mbootInfo + 48) mbootMmap) (mbootInfo + 64)
      mbootName := by
    show buildMultiboot m mbootName = _
    unfold buildMultiboot converted
    simp only [h.zeroed.count, hedx, Nat.zero_add]
    rfl
  have hmap := mbConvert_spec entries _ mmapData mbootMmap 0 h.zeroed.entry
    (by unfold mmapData mbootMmap; omega) (by unfold mbootInfo mbootMmap; omega)
    (by unfold mmapData; omega)
  rw [hm']
  refine ⟨?_, ?_, ?_, fun i hi => (hmap i hi).congr ?_⟩
  · rw [load32_store32_miss _ (by omega), load32_store32_miss _ (by omega),
      load32_store32_miss _ (by omega), load32_store32 _ _ (by omega)]
  · rw [load32_store32_miss _ (by omega), load32_store32_miss _ (by omega),
      load32_store32 _ _ (by omega)]
  · rw [load32_store32_miss _ (by omega), load32_store32 _ _ (by unfold mbootMmap; omega)]
  · have hout : mbootInfo + 68 ≤ mbootMmap + 24 * i := by unfold mbootInfo mbootMmap; omega
    exact (((store32_agree _ (by omega)).trans (store32_agree _ (by omega))).trans
      (store32_agree _ (by omega))).trans (store32_agree _ (by omega))

/-- **The map that stage 2 stored is the map that the kernel walks**, in order.
Nothing is converted over an entry still to be read, and no converted entry
touches the info struct. -/
theorem map_round_trip (h : Stored m entries) (hn : entries.length ≤ 298) (mbootName : Nat) :
    (∀ fuel, entries.length ≤ fuel →
      pmmEntries (buildMultiboot m mbootName) mbootInfo fuel = some (some entries)) ∧
    (∀ i ≤ entries.length, AgreeOn m (converted m i) (mmapData + 24 * i)
      (mmapData + 24 * entries.length)) ∧
    ∀ i < entries.length, ∀ m₀ esi,
      AgreeOn m₀ (mbFields m₀ esi (mbootMmap + 24 * i)) mbootInfo (mbootInfo + 88) := by
  obtain ⟨hflags, hlen, haddr, hmap⟩ := buildMultiboot_spec h hn mbootName
  refine ⟨fun fuel hfuel => ?_, fun i hi => ?_, fun i _ m₀ esi => ?_⟩
  · have hwalk := mmapWalk_spec _ entries mbootMmap fuel hmap (by unfold mbootMmap; omega) hfuel
    have hend : w32 (mbootMmap + 24 * entries.length) = mbootMmap + 24 * entries.length :=
      w32_of_lt (by unfold mbootMmap; omega)
    unfold pmmEntries
    rw [Nat.add_zero, hflags, if_neg (by decide), haddr, hlen, hend]
    exact congrArg (Option.map some) hwalk
  · have hzero : AgreeOn m (zeroWords m mbootInfo 22) (mmapData + 24 * i)
        (mmapData + 24 * entries.length) :=
      zeroWords_agree m (.inr (by unfold mmapData mbootInfo; omega))
    exact hzero.trans (mbConvert_agree i _ _ _ _ (by unfold mbootMmap; omega)
      (.inr (by unfold mmapData mbootMmap; omega)) (.inr (by unfold mmapData mbootInfo; omega)))
  · exact mbFields_agree m₀ (.inl (by unfold mbootInfo mbootMmap; omega))

end RoundTrip

/-- Conventional memory and 1 MB above 1 MB, as a BIOS would report them. -/
def storedMap : Bytes :=
  [(mmapEntries, 2), (mmapData + 8, 0x9fc00), (mmapData + 16, 1), (mmapData + 24, 0x100000),
    (mmapData + 32, 0x100000), (mmapData + 40, 1)].foldl (fun m (a, v) => store32 m a v) fun _ => 0

theorem storedMap_stored :
    Stored storedMap [⟨0, 0x9fc00, 1⟩, ⟨0x100000, 0x100000, 1⟩] where
  count := by decide
  entry
    | 0, _ => ⟨rfl, rfl, rfl⟩
    | 1, _ => ⟨rfl, rfl, rfl⟩

theorem map_round_trip_stored :
    pmmEntries (buildMultiboot storedMap 0x8000) mbootInfo 2 =
      some (some [⟨0, 0x9fc00, 1⟩, ⟨0x100000, 0x100000, 1⟩]) :=
  (map_round_trip storedMap_stored (by decide) 0x8000).1 2 (by decide)

end TupleOS.Boot
