import TupleOS.Base.Pic

/-!
# Programming interrupt controllers

An 8259 as its two ports show it: the words of an initialization are written one
after the other, and which of them comes next is part of the state (`Phase`).
Outside an initialization the data port is the mask. Commands that rotate
priorities are not modelled.

`Pair` is a master with a slave on one of its lines, `request` the interrupt
acknowledge cycle for one of the sixteen lines.
-/

namespace TupleOS.Base

/-- What the next write to the data port is. -/
inductive Phase where
  | ready
  | icw2
  | icw3
  | icw4
  deriving DecidableEq, Repr

structure I8259 where
  phase : Phase
  /-- ICW1 announced that there is no ICW3. -/
  single : Bool
  /-- ICW1 announced an ICW4. -/
  wantsIcw4 : Bool
  /-- The vector of line 0, from ICW2. -/
  base : BitVec 8
  /-- The lines of a master that have a slave, or the line of a slave. -/
  cascade : BitVec 8
  mode : BitVec 8
  mask : BitVec 8
  service : Pic

namespace I8259

def command (p : I8259) (v : BitVec 8) : I8259 :=
  if v.getLsbD 4 then
    -- ICW1
    { p with phase := .icw2, single := v.getLsbD 1, wantsIcw4 := v.getLsbD 0, mode := 0, mask := 0 }
  else if v.getLsbD 3 then p
  else if v.getLsbD 5 then
    if v.getLsbD 6 then
      { p with service := Function.update p.service ⟨v.toNat % 8, Nat.mod_lt _ (by decide)⟩ false }
    else { p with service := p.service.eoi }
  else p

def data (p : I8259) (v : BitVec 8) : I8259 :=
  let afterIcw3 : Phase := if p.wantsIcw4 then .icw4 else .ready
  match p.phase with
  | .icw2 => { p with base := v &&& 0xF8, phase := if p.single then afterIcw3 else .icw3 }
  | .icw3 => { p with cascade := v, phase := afterIcw3 }
  | .icw4 => { p with mode := v, phase := .ready }
  | .ready => { p with mask := v }

def vector (p : I8259) (line : Fin 8) : Nat := p.base.toNat + line.val

/-- No line of the same or a higher priority is in service. -/
def Open (p : I8259) (line : Fin 8) : Prop := ∀ l, l ≤ line → p.service l = false

instance (p : I8259) (line : Fin 8) : Decidable (p.Open line) :=
  inferInstanceAs (Decidable (∀ l, l ≤ line → p.service l = false))

def Passes (p : I8259) (line : Fin 8) : Prop :=
  p.phase = .ready ∧ p.mask.getLsbD line = false ∧ p.Open line

instance (p : I8259) (line : Fin 8) : Decidable (p.Passes line) :=
  inferInstanceAs (Decidable (_ ∧ _ ∧ _))

def take (p : I8259) (line : Fin 8) : I8259 := { p with service := p.service.take line }

end I8259

structure Pair where
  master : I8259
  slave : I8259

namespace Pair

def slaveLine (n : Fin 16) (h : ¬ n.val < 8) : Fin 8 := ⟨n.val - 8, by omega⟩

/-- The controllers while line `n` is in service, with the slave on line `wire`. -/
def serving (c : Pair) (wire : Fin 8) (n : Fin 16) : Pair :=
  if h : n.val < 8 then { c with master := c.master.take ⟨n.val, h⟩ }
  else ⟨c.master.take wire, c.slave.take (slaveLine n h)⟩

/-- The acknowledge cycle for line `n`, with the slave on line `wire` of the master:
the vector and the controllers after it, if the line passes. -/
def request (c : Pair) (wire : Fin 8) (n : Fin 16) : Option (Nat × Pair) :=
  if h : n.val < 8 then
    let line : Fin 8 := ⟨n.val, h⟩
    if c.master.Passes line ∧ c.master.cascade.getLsbD line = false then
      some (c.master.vector line, c.serving wire n)
    else none
  else
    let line := slaveLine n h
    -- the master passes the request on to the slave whose number it has on the line
    if c.master.Passes wire ∧ c.master.cascade.getLsbD wire = true ∧ c.slave.Passes line ∧
        c.slave.cascade.toNat % 8 = wire.val then
      some (c.slave.vector line, c.serving wire n)
    else none

end Pair

end TupleOS.Base
