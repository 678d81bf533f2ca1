import Mathlib.Algebra.Ring.Nat
import Mathlib.Tactic.Common

/-!
# Serial ports

The transmitting half of a 16550. A byte waits in the holding register, or in a
FIFO of 16 bytes, and goes through the shift register to the line. What the line
carries is a list of frames: a byte with the settings it was sent with. The
receiver shows only in the bits of the line status that are not the transmitter's.
-/

namespace TupleOS.Base

structure Frame where
  byte : BitVec 8
  divisor : Nat
  control : BitVec 8
  /-- The output was looped back and did not leave the chip. -/
  looped : Bool
  deriving DecidableEq, Repr

structure Uart where
  interrupts : BitVec 8
  lineControl : BitVec 8
  modemControl : BitVec 8
  divisorLow : BitVec 8
  divisorHigh : BitVec 8
  fifo : Bool
  /-- Bytes that wait, the oldest first. -/
  held : List (BitVec 8)
  shifting : Option (BitVec 8)
  line : List Frame
  deriving DecidableEq, Repr

namespace Uart

/-- Registers 0 and 1 are the divisor. -/
def latch (u : Uart) : Bool := u.lineControl.getLsbD 7

def frame (u : Uart) (b : BitVec 8) : Frame where
  byte := b
  divisor := u.divisorLow.toNat + 256 * u.divisorHigh.toNat
  control := u.lineControl
  looped := u.modemControl.getLsbD 4

/-- A byte for the transmitter. A full FIFO loses it, and the holding register the byte
before it. -/
def put (u : Uart) (b : BitVec 8) : Uart :=
  if u.fifo then
    if u.held.length < 16 then { u with held := u.held ++ [b] } else u
  else { u with held := [b] }

def write (u : Uart) (reg : Nat) (v : BitVec 8) : Uart :=
  match reg with
  | 0 => if u.latch then { u with divisorLow := v } else u.put v
  | 1 => if u.latch then { u with divisorHigh := v } else { u with interrupts := v }
  | 2 =>
    let clears := (v.getLsbD 0 && v.getLsbD 2) || v.getLsbD 0 != u.fifo
    { u with fifo := v.getLsbD 0, held := if clears then [] else u.held }
  | 3 => { u with lineControl := v }
  | 4 => { u with modemControl := v }
  | _ => u

/-- The line status, with what the receiver shows in its bits. -/
def status (u : Uart) (receiver : BitVec 8) : BitVec 8 :=
  (receiver &&& 0x9F) ||| (if u.held = [] then 0x20 else 0) |||
    (if u.held = [] ∧ u.shifting = none then 0x40 else 0)

/-- The transmitter works: a byte is out, or the next one starts. -/
def tick (u : Uart) : Uart :=
  match u.shifting with
  | some b => { u with shifting := none, line := u.line ++ [u.frame b] }
  | none =>
    match u.held with
    | [] => u
    | b :: held => { u with shifting := some b, held := held }

/-- Bytes that are on their way, the oldest first. -/
def waiting (u : Uart) : List (BitVec 8) := u.shifting.toList ++ u.held

theorem tick_settings (u : Uart) : u.tick.lineControl = u.lineControl ∧
    u.tick.modemControl = u.modemControl ∧ u.tick.divisorLow = u.divisorLow ∧
    u.tick.divisorHigh = u.divisorHigh ∧ u.tick.fifo = u.fifo := by
  unfold tick
  split
  · exact ⟨rfl, rfl, rfl, rfl, rfl⟩
  · split <;> exact ⟨rfl, rfl, rfl, rfl, rfl⟩

/-- **The transmitter loses nothing**: what is on the line and what is on its way stay
together the same. -/
theorem tick_conserves (u : Uart) : u.tick.line ++ u.tick.waiting.map u.frame =
    u.line ++ u.waiting.map u.frame := by
  unfold tick waiting
  cases hs : u.shifting with
  | some b => simp
  | none => cases hh : u.held <;> simp [hs, hh]

theorem write_line (u : Uart) (reg : Nat) (v : BitVec 8) : (u.write reg v).line = u.line := by
  have hput : (u.put v).line = u.line := by
    unfold put
    split
    · split <;> rfl
    · rfl
  unfold write
  split
  · split
    · rfl
    · exact hput
  · split <;> rfl
  all_goals rfl

theorem tick_held (h : u.held = []) : (tick u).held = [] := by
  unfold tick
  split
  · exact h
  · rw [h]
    exact h

theorem status_empty (u : Uart) (receiver : BitVec 8) :
    u.status receiver &&& 0x20 ≠ 0 ↔ u.held = [] := by
  have hbits : ∀ r : BitVec 8, (r &&& 0x9F ||| 0 ||| 0) &&& 0x20 = 0 ∧
      (r &&& 0x9F ||| 0x20 ||| 0) &&& 0x20 ≠ 0 ∧ (r &&& 0x9F ||| 0x20 ||| 0x40) &&& 0x20 ≠ 0 := by
    decide
  obtain ⟨h1, h2, h3⟩ := hbits receiver
  unfold status
  by_cases hh : u.held = []
  · by_cases hs : u.shifting = none
    · simp only [hh, hs, and_self, if_true, iff_true]
      exact h3
    · simp only [hh, hs, and_false, if_true, if_false, iff_true]
      exact h2
  · simp only [hh, false_and, if_false, iff_false, not_not]
    exact h1

end Uart

end TupleOS.Base
