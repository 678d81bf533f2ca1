import TupleOS.Base.Bytes

/-!
# Descriptors

The eight-byte entries of the descriptor tables of an i386, as the processor reads
them: segments, whose base and limit are scattered over the entry, and gates. A
table register holds the address and the limit of a table, and an entry that is not
wholly inside the limit is not read.
-/

namespace TupleOS.Base

structure TableReg where
  limit : Nat
  base : Nat
  deriving DecidableEq

/-- The six bytes that `lgdt` and `lidt` read. -/
def tableRegAt (m : Bytes) (a : Nat) : TableReg := ⟨load16 m a, load32 m (a + 2)⟩

theorem tableRegAt_congr {m m' : Bytes} {a : Nat} (h : AgreeOn m m' a (a + 6)) :
    tableRegAt m' a = tableRegAt m a := by
  unfold tableRegAt
  rw [load16_congr (h.mono (by omega) (by omega)), load32_congr (h.mono (by omega) (by omega))]

def TableReg.Covers (t : TableReg) (i : Nat) : Prop := 8 * i + 7 ≤ t.limit

instance (t : TableReg) (i : Nat) : Decidable (t.Covers i) := inferInstanceAs (Decidable (_ ≤ _))

/-! ## Segments -/

structure Segment where
  base : Nat
  /-- Twenty bits, in bytes or pages. -/
  limit : Nat
  access : BitVec 8
  /-- Granularity, size and two more. -/
  flags : Nat
  deriving DecidableEq

def segmentAt (m : Bytes) (a : Nat) : Segment where
  base := load16 m (a + 2) + 2 ^ 16 * (m (a + 4)).toNat + 2 ^ 24 * (m (a + 7)).toNat
  limit := load16 m a + 2 ^ 16 * ((m (a + 6)).toNat % 16)
  access := m (a + 5)
  flags := (m (a + 6)).toNat / 16

namespace Segment

def present (s : Segment) : Bool := s.access.getLsbD 7

def ring (s : Segment) : Nat := s.access.toNat / 32 % 4

/-- A code or data segment, not one of the system's. -/
def ordinary (s : Segment) : Bool := s.access.getLsbD 4

def executable (s : Segment) : Bool := s.access.getLsbD 3

/-- Of code: readable. Of data: writable. -/
def rw (s : Segment) : Bool := s.access.getLsbD 1

def last (s : Segment) : Nat := if s.flags / 8 % 2 = 1 then s.limit * 4096 + 4095 else s.limit

def linear (s : Segment) (off : Nat) : Option Nat :=
  if off ≤ s.last then some ((s.base + off) % 2 ^ 32) else none

/-- `CS` can be loaded with it in ring 0. -/
def LoadsCode (s : Segment) : Prop :=
  s.present = true ∧ s.ordinary = true ∧ s.executable = true ∧ s.ring = 0

instance (s : Segment) : Decidable s.LoadsCode := inferInstanceAs (Decidable (_ ∧ _ ∧ _ ∧ _))

/-- A data segment register can be loaded with it in ring 0. -/
def LoadsData (s : Segment) : Prop :=
  s.present = true ∧ s.ordinary = true ∧ (s.executable = false ∨ s.rw = true) ∧ s.ring = 0

instance (s : Segment) : Decidable s.LoadsData := inferInstanceAs (Decidable (_ ∧ _ ∧ _ ∧ _))

/-- `SS` can be loaded with it in ring 0. -/
def LoadsStack (s : Segment) : Prop :=
  s.present = true ∧ s.ordinary = true ∧ s.executable = false ∧ s.rw = true ∧ s.ring = 0

instance (s : Segment) : Decidable s.LoadsStack := inferInstanceAs (Decidable (_ ∧ _ ∧ _ ∧ _ ∧ _))

/-- Every offset is its own linear address. -/
def Flat (s : Segment) : Prop := ∀ off < 2 ^ 32, s.linear off = some off

theorem flat_of {s : Segment} (hb : s.base = 0) (hl : 2 ^ 32 ≤ s.last + 1) : s.Flat := by
  intro off hoff
  unfold linear
  rw [if_pos (by omega), hb, Nat.zero_add, Nat.mod_eq_of_lt hoff]

end Segment

/-- The segment that a selector of ring 0 names: no null selector, no local table. -/
def TableReg.segment (t : TableReg) (m : Bytes) (selector : BitVec 16) : Option Segment :=
  if selector.toNat % 8 = 0 ∧ selector.toNat ≠ 0 ∧ t.Covers (selector.toNat / 8) then
    some (segmentAt m (t.base + selector.toNat))
  else none

theorem segmentAt_congr {m m' : Bytes} {a : Nat} (h : AgreeOn m m' a (a + 8)) :
    segmentAt m' a = segmentAt m a := by
  have hb : ∀ k < 8, m' (a + k) = m (a + k) := fun k hk => h _ ⟨by omega, by omega⟩
  unfold segmentAt
  rw [load16_congr (h.mono (by omega) (by omega)), load16_congr (h.mono (by omega) (by omega)),
    hb 4 (by omega), hb 5 (by omega), hb 6 (by omega), hb 7 (by omega)]

/-! ## Gates -/

structure Gate where
  offset : Nat
  selector : BitVec 16
  flags : BitVec 8
  deriving DecidableEq

def gateAt (m : Bytes) (a : Nat) : Gate where
  offset := load16 m a + 2 ^ 16 * load16 m (a + 6)
  selector := BitVec.ofNat 16 (load16 m (a + 2))
  flags := m (a + 5)

def Gate.Interrupt (g : Gate) : Prop := g.flags &&& 0x9F = 0x8E

instance (g : Gate) : Decidable g.Interrupt := inferInstanceAs (Decidable (_ = _))

def TableReg.gate (t : TableReg) (m : Bytes) (vector : Nat) : Option Gate :=
  if t.Covers vector ∧ (gateAt m (t.base + 8 * vector)).Interrupt then
    some (gateAt m (t.base + 8 * vector))
  else none

/-- The exceptions for which the processor pushes an error code. -/
def pushesErrorCode (vector : Nat) : Bool := vector ∈ [8, 10, 11, 12, 13, 14, 17, 21, 29, 30]

theorem gateAt_congr {m m' : Bytes} {a : Nat} (h : AgreeOn m m' a (a + 8)) :
    gateAt m' a = gateAt m a := by
  unfold gateAt
  rw [load16_congr (h.mono (by omega) (by omega)), load16_congr (h.mono (by omega) (by omega)),
    load16_congr (h.mono (by omega) (by omega)), h (a + 5) ⟨by omega, by omega⟩]

end TupleOS.Base
