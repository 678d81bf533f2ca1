import TupleOS.Boot.Multiboot

/-!
# The fallback map of stage 2 (`boot/stage2.asm`)

When the BIOS has no E820, `detect_memory` asks E801 for two amounts: kilobytes
from 1 MB up, and blocks of 64 KB from 16 MB up. It makes one entry of both, from
1 MB on and as long as their sum. The entry is sound exactly when nothing is
reported above 16 MB, or the memory below reaches 16 MB and the sum fits in 32
bits (`e801_sound_iff`).
-/

namespace TupleOS.Boot

open TupleOS.Base TupleOS.Memory

/-- What INT 15h, AX=E801h leaves in the flags and the registers. -/
structure E801Reply where
  carry : Bool
  ax : BitVec 16
  bx : BitVec 16
  cx : BitVec 16
  dx : BitVec 16

/-- `.use_ax`: `ax` and `bx`, or `cx` and `dx` where `cx` is not `0`. -/
def E801Reply.blocks (r : E801Reply) : BitVec 16 × BitVec 16 :=
  if r.cx = 0 then (r.ax, r.bx) else (r.cx, r.dx)

/-- The six words of a usable entry at `di`. -/
def storeEntry (m : Bytes) (di base length : Nat) : Bytes :=
  let m := store32 m (di + 0) base
  let m := store32 m (di + 4) 0
  let m := store32 m (di + 8) length
  let m := store32 m (di + 12) 0
  let m := store32 m (di + 16) 1
  store32 m (di + 20) 1

/-- The length that `.use_ax` computes for extended memory. -/
def extendedLength (ax bx : BitVec 16) : Nat :=
  w32 (w32 (ax.toNat <<< 10) + w32 (bx.toNat <<< 16))

def e801Map (m : Bytes) (r : E801Reply) : Bytes :=
  if r.carry then m
  else
    let (ax, bx) := r.blocks
    let m := storeEntry m mmapData 0x00000000 0x0009FC00
    let m := storeEntry m (mmapData + mmapEntrySize) 0x00100000 (extendedLength ax bx)
    store32 m mmapEntries 2

def conventional : MmapEntry := ⟨0, 0x9FC00, memoryAvailable⟩

def extended (r : E801Reply) : MmapEntry :=
  ⟨0x100000, BitVec.ofNat 64 (extendedLength r.blocks.1 r.blocks.2), memoryAvailable⟩

section Entries

variable {m : Bytes} {di base length : Nat}

theorem storeEntry_agree (m : Bytes) (base length : Nat) {lo hi : Nat}
    (h : hi ≤ di ∨ di + 24 ≤ lo) : AgreeOn m (storeEntry m di base length) lo hi :=
  (((((store32_agree _ (by omega)).trans (store32_agree _ (by omega))).trans
    (store32_agree _ (by omega))).trans (store32_agree _ (by omega))).trans
    (store32_agree _ (by omega))).trans (store32_agree _ (by omega))

theorem storeEntry_at (m : Bytes) (di : Nat) (hb : base < 2 ^ 32) (hl : length < 2 ^ 32) :
    E820At (storeEntry m di base length) di
      ⟨BitVec.ofNat 64 base, BitVec.ofNat 64 length, memoryAvailable⟩ := by
  have h0 : load32 (storeEntry m di base length) di = base := by
    simp (disch := omega) only [storeEntry, load32_store32_miss, Nat.add_zero]
    exact load32_store32 _ _ hb
  have h4 : load32 (storeEntry m di base length) (di + 4) = 0 := by
    simp (disch := omega) only [storeEntry, load32_store32_miss]
    exact load32_store32 _ _ (by omega)
  have h8 : load32 (storeEntry m di base length) (di + 8) = length := by
    simp (disch := omega) only [storeEntry, load32_store32_miss]
    exact load32_store32 _ _ hl
  have h12 : load32 (storeEntry m di base length) (di + 8 + 4) = 0 := by
    simp (disch := omega) only [storeEntry, load32_store32_miss]
    exact load32_store32 _ _ (by omega)
  have h16 : load32 (storeEntry m di base length) (di + 16) = 1 := by
    simp (disch := omega) only [storeEntry, load32_store32_miss]
    exact load32_store32 _ _ (by omega)
  refine ⟨?_, ?_, h16⟩
  · rw [load64, h0, h4, BitVec.toNat_ofNat, Nat.mod_eq_of_lt (by omega)]
    omega
  · rw [load64, h8, h12, BitVec.toNat_ofNat, Nat.mod_eq_of_lt (by omega)]
    omega

end Entries

theorem extendedLength_eq (ax bx : BitVec 16) :
    extendedLength ax bx = w32 (1024 * ax.toNat + 65536 * bx.toNat) := by
  have h1 := ax.isLt
  have h2 := bx.isLt
  unfold extendedLength w32
  rw [Nat.shiftLeft_eq, Nat.shiftLeft_eq]
  omega

/-- **The map that `.try_e801` leaves** has two entries. -/
theorem e801Map_stored (m : Bytes) {r : E801Reply} (hr : r.carry = false) :
    Stored (e801Map m r) [conventional, extended r] := by
  have hmap : e801Map m r = store32 (storeEntry (storeEntry m mmapData 0 0x9FC00)
      (mmapData + 24) 0x100000 (extendedLength r.blocks.1 r.blocks.2)) mmapEntries 2 := by
    unfold e801Map
    rw [hr]
    rfl
  have hcount : ∀ (m : Bytes) {lo hi : Nat}, mmapData ≤ lo →
      AgreeOn m (store32 m mmapEntries 2) lo hi := fun m lo hi h =>
    store32_agree m (.inr (by unfold mmapEntries; unfold mmapData at h; omega))
  have hfirst : E820At (storeEntry m mmapData 0 0x9FC00) mmapData conventional :=
    storeEntry_at m mmapData (by omega) (by omega)
  have hsecond : E820At (storeEntry (storeEntry m mmapData 0 0x9FC00) (mmapData + 24) 0x100000
      (extendedLength r.blocks.1 r.blocks.2)) (mmapData + 24) (extended r) :=
    storeEntry_at _ (mmapData + 24) (by omega) (w32_lt _)
  rw [hmap]
  refine ⟨load32_store32 _ _ (by omega), fun i hi => ?_⟩
  match i, hi with
  | 0, _ =>
    exact (hfirst.congr (storeEntry_agree _ _ _ (by omega))).congr (hcount _ (Nat.le_refl _))
  | 1, _ => exact hsecond.congr (hcount _ (by omega))

/-- Address `a` is usable by this entry. -/
def Usable (e : MmapEntry) (a : Nat) : Prop :=
  e.type = memoryAvailable ∧ e.baseAddr.toNat ≤ a ∧ a < e.baseAddr.toNat + e.length.toNat

instance (e : MmapEntry) (a : Nat) : Decidable (Usable e a) :=
  inferInstanceAs (Decidable (_ ∧ _ ∧ _))

/-- The entry keeps to what the BIOS reported, and its length is the sum. -/
structure E801Sound (k m : Nat) (e : MmapEntry) : Prop where
  within : ∀ a, Usable e a →
    InWin 0x100000 (0x100000 + 1024 * k) a ∨ InWin 0x1000000 (0x1000000 + 65536 * m) a
  exact : e.length.toNat = 1024 * k + 65536 * m

/-- **The fallback map is sound** exactly when nothing is reported above 16 MB, or the
first amount reaches 16 MB and the sum fits in 32 bits. -/
theorem e801_sound_iff (m : Bytes) {r : E801Reply} (hr : r.carry = false) :
    Stored (e801Map m r) [conventional, extended r] ∧
      (E801Sound r.blocks.1.toNat r.blocks.2.toNat (extended r) ↔
        r.blocks.2.toNat = 0 ∨ r.blocks.1.toNat = 15 * 1024 ∧ r.blocks.2.toNat < 65296) := by
  refine ⟨e801Map_stored m hr, ?_⟩
  have h1 := r.blocks.1.isLt
  have h2 := r.blocks.2.isLt
  have hbase : (extended r).baseAddr.toNat = 0x100000 := rfl
  have hlen : (extended r).length.toNat =
      w32 (1024 * r.blocks.1.toNat + 65536 * r.blocks.2.toNat) := by
    have := w32_lt (1024 * r.blocks.1.toNat + 65536 * r.blocks.2.toNat)
    rw [extended, extendedLength_eq, BitVec.toNat_ofNat, Nat.mod_eq_of_lt (by omega)]
  generalize r.blocks.1.toNat = k at *
  generalize r.blocks.2.toNat = n at *
  unfold w32 at hlen
  constructor
  · rintro ⟨hin, hexact⟩
    by_contra hn
    -- the first address past the lower range, and the last one of the entry
    have hfirst := hin (0x100000 + 1024 * k)
    have hlast := hin (0x100000 + 1024 * k + 65536 * n - 1)
    unfold Usable InWin at hfirst hlast
    rw [hbase, hexact] at hfirst hlast
    have htype : (extended r).type = memoryAvailable := rfl
    have h3 := hfirst ⟨htype, by omega, by omega⟩
    have h4 := hlast ⟨htype, by omega, by omega⟩
    omega
  · intro h
    refine ⟨fun a ha => ?_, by omega⟩
    obtain ⟨-, hlo, hhi⟩ := ha
    rw [hbase] at hlo hhi
    unfold InWin
    omega

/-- 64 MB without a hole: 15 MB below 16 MB and 48 MB above. -/
def plainReply : E801Reply := ⟨false, 0x3C00, 0x300, 0, 0⟩

theorem e801_sound_plain : E801Sound 0x3C00 0x300 (extended plainReply) :=
  (e801_sound_iff (r := plainReply) (fun _ => 0) rfl).2.mpr (.inr (by decide))

/-- A hole from 15 MB to 16 MB, and one block of 64 KB above it. -/
def holeReply : E801Reply := ⟨false, 0x3800, 1, 0, 0⟩

/-- **The hole is marked usable**: the entry reaches 64 KB into it. -/
theorem e801_marks_hole :
    Stored (e801Map (fun _ => 0) holeReply) [conventional, extended holeReply] ∧
      Usable (extended holeReply) 0xF00000 ∧ ¬ E801Sound 0x3800 1 (extended holeReply) := by
  have hused : Usable (extended holeReply) 0xF00000 := by decide
  refine ⟨e801Map_stored _ rfl, hused, fun h => ?_⟩
  have := h.within 0xF00000 hused
  unfold InWin at this
  omega

end TupleOS.Boot
