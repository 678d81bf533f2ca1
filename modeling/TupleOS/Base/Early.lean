import TupleOS.Base.Mmu
import TupleOS.Base.Orbit
import TupleOS.Base.X86

/-!
# A processor that turns paging on

The part of an i386 that early boot code uses: aligned words of physical memory, the
control registers, and instructions that are fetched through the page tables as soon
as bit 31 of `%cr0` is set. `Placed` says where the instructions of a piece of code are;
`step_placed` executes one of them, and `straight_reaches` a stretch of them while
paging is off.
-/

namespace TupleOS.Base

inductive EarlyInstr where
  | mov (dst src : Reg)
  | movImm (r : Reg) (v : Word)
  | orImm (r : Reg) (v : Word)
  | addImm (r : Reg) (v : Word)
  | inc (r : Reg)
  /-- `movl %src, disp(%base)`. -/
  | store (src base : Reg) (disp : Word)
  /-- `movl $v, (%base, %index, 4)`. -/
  | storeImm (v : Word) (base index : Reg)
  | cmpImm (r : Reg) (v : Word)
  | jl (target : Word)
  /-- `movl %r, %cr3`. -/
  | setCr3 (r : Reg)
  /-- `movl %cr0, %r`. -/
  | getCr0 (r : Reg)
  | setCr0 (r : Reg)
  /-- `jmp *%r`. -/
  | jmpReg (r : Reg)
  | push (r : Reg)
  | call (target : Word)

structure Early where
  reg : Reg → Word
  /-- `SF ≠ OF`. -/
  less : Bool
  cr0 : Word
  cr3 : Word
  eip : Word
  phys : Phys

/-- The instruction at a physical address, with its size. -/
abbrev Code := Nat → Option (EarlyInstr × Nat)

namespace Early

def paging (s : Early) : Bool := s.cr0.getLsbD 31

def translate (s : Early) (va : Word) : Option Nat :=
  if s.paging then
    (walk s.phys (frameOf s.cr3.toNat) (va.toNat / 4096)).map fun e =>
      frameOf e.2 * 4096 + va.toNat % 4096
  else some va.toNat

def set (s : Early) (r : Reg) (v : Word) : Early :=
  { s with reg := fun r' => if r' = r then v else s.reg r' }

/-- Store a word; words that are not aligned are not modelled. -/
def write (s : Early) (va v : Word) : Option Early := do
  let a ← s.translate va
  if a % 4 = 0 then some { s with phys := s.phys.store (a / 4096) (a % 4096 / 4) v.toNat } else none

def read (s : Early) (va : Word) : Option Nat :=
  (s.translate va).map fun a => s.phys (a / 4096) (a % 4096 / 4)

def pushWord (s : Early) (v : Word) : Option Early :=
  (s.set .esp (s.reg .esp - 4)).write (s.reg .esp - 4) v

def addLess (a b : Word) : Bool := a.toInt + b.toInt < 0

def add (s : Early) (r : Reg) (v : Word) : Early :=
  { s.set r (s.reg r + v) with less := addLess (s.reg r) v }

/-- Execute an instruction that is followed by `next`. -/
def exec (s : Early) (next : Word) : EarlyInstr → Option Early
  | .mov dst src => some { s.set dst (s.reg src) with eip := next }
  | .movImm r v => some { s.set r v with eip := next }
  | .orImm r v => some { s.set r (s.reg r ||| v) with less := (s.reg r ||| v).msb, eip := next }
  | .addImm r v => some { s.add r v with eip := next }
  | .inc r => some { s.add r 1 with eip := next }
  | .store src base disp =>
    (s.write (s.reg base + disp) (s.reg src)).map fun s => { s with eip := next }
  | .storeImm v base index =>
    (s.write (s.reg base + 4 * s.reg index) v).map fun s => { s with eip := next }
  | .cmpImm r v => some { s with less := (s.reg r).slt v, eip := next }
  | .jl target => some { s with eip := if s.less then target else next }
  | .setCr3 r => some { s with cr3 := s.reg r, eip := next }
  | .getCr0 r => some { s.set r s.cr0 with eip := next }
  | .setCr0 r => some { s with cr0 := s.reg r, eip := next }
  | .jmpReg r => some { s with eip := s.reg r }
  | .push r => (s.pushWord (s.reg r)).map fun s => { s with eip := next }
  | .call target => (s.pushWord next).map fun s => { s with eip := target }

def step (code : Code) (s : Early) : Option Early := do
  let a ← s.translate s.eip
  let (ins, size) ← code a
  s.exec (s.eip + BitVec.ofNat 32 size) ins

end Early

/-- Instruction `i` of `l` is linked at `addr i`, and in physical memory `shift` below. -/
def Placed (code : Code) (shift : Nat) (addr : Nat → Word) (l : List EarlyInstr) : Prop :=
  ∀ i ins, l[i]? = some ins →
    code ((addr i).toNat - shift) = some (ins, (addr (i + 1) - addr i).toNat)

namespace Early

variable {code : Code} {shift : Nat} {addr : Nat → Word} {l block : List EarlyInstr} {i : Nat}
  {ins : EarlyInstr} {s s' : Early}

@[simp] theorem set_self (s : Early) (r : Reg) (v : Word) : (s.set r v).reg r = v := if_pos rfl

theorem set_other {r r' : Reg} (h : r' ≠ r) (s : Early) (v : Word) :
    (s.set r v).reg r' = s.reg r' := if_neg h

theorem slt_ofNat {a b : Nat} (ha : a < 2 ^ 31) (hb : b < 2 ^ 31) :
    (BitVec.ofNat 32 a).slt (BitVec.ofNat 32 b) = decide (a < b) := by
  have hint : ∀ {n : Nat}, n < 2 ^ 31 → (BitVec.ofNat 32 n).toInt = n := by
    intro n hn
    rw [BitVec.toInt_eq_toNat_of_lt, BitVec.toNat_ofNat]
    · omega
    · rw [BitVec.toNat_ofNat]
      omega
  rw [BitVec.slt_eq_decide, hint ha, hint hb]
  exact decide_eq_decide.mpr Int.ofNat_lt

theorem toNat_add_ofNat (a b : Nat) :
    (BitVec.ofNat 32 a + BitVec.ofNat 32 b).toNat = (a + b) % 2 ^ 32 := by
  rw [BitVec.ofNat_add_ofNat, BitVec.toNat_ofNat]

theorem frame_or_three {f : Nat} (h : f < 2 ^ 20) :
    (BitVec.ofNat 32 (f * 4096) ||| 3).toNat = f * 4096 + 3 := by
  have hor : f * 4096 ||| 3 = f * 4096 + 3 := by
    have := Nat.shiftLeft_add_eq_or_of_lt (show 3 < 2 ^ 12 by decide) f
    rw [Nat.shiftLeft_eq] at this
    exact this.symm
  rw [BitVec.toNat_or, BitVec.toNat_ofNat, Nat.mod_eq_of_lt (by omega)]
  exact hor

theorem translate_unpaged (h : s.paging = false) (va : Word) : s.translate va = some va.toNat :=
  if_neg (by rw [h]; decide)

theorem step_placed (hp : Placed code shift addr l) (hi : l[i]? = some ins) (he : s.eip = addr i)
    (ht : s.translate (addr i) = some ((addr i).toNat - shift)) :
    s.step code = s.exec (addr (i + 1)) ins := by
  have hnext : addr i + BitVec.ofNat 32 (addr (i + 1) - addr i).toNat = addr (i + 1) := by
    rw [BitVec.ofNat_toNat, BitVec.setWidth_eq, BitVec.add_comm, BitVec.sub_add_cancel]
  unfold step
  simp only [he, ht, hp i ins hi, Option.bind_eq_bind, Option.bind_some, hnext]

theorem reaches_placed (hp : Placed code shift addr l) (hi : l[i]? = some ins)
    (he : s.eip = addr i) (ht : s.translate (addr i) = some ((addr i).toNat - shift))
    (hs : s.exec (addr (i + 1)) ins = some s') : StateTransition.Reaches (step code) s s' :=
  .single (by rw [step_placed hp hi he ht]; exact hs)

/-- The instructions of a block from `addr i` on, while paging is off. -/
def straight (addr : Nat → Word) : Nat → List EarlyInstr → Early → Option Early
  | _, [], s => some s
  | i, ins :: block, s =>
    if s.paging = false ∧ s.eip = addr i then
      (s.exec (addr (i + 1)) ins).bind (straight addr (i + 1) block)
    else none

theorem straight_reaches (hp : Placed code 0 addr l) : ∀ {block : List EarlyInstr} {i : Nat}
    {s : Early}, block <+: l.drop i → straight addr i block s = some s' →
    StateTransition.Reaches (step code) s s'
  | [], _, s, _, h => by
    obtain rfl := Option.some.inj h
    exact .refl
  | ins :: block, i, s, ⟨after, hl⟩, h => by
    rw [straight] at h
    split at h
    · next hs =>
      obtain ⟨s₁, hs₁, h⟩ := Option.bind_eq_some_iff.mp h
      have hi : l[i]? = some ins := by
        rw [← Nat.add_zero i, ← List.getElem?_drop, ← hl]
        rfl
      refine (reaches_placed hp hi hs.2 (translate_unpaged hs.1 _) hs₁).trans ?_
      refine straight_reaches hp ⟨after, ?_⟩ h
      rw [← List.tail_drop, ← hl]
      rfl
    · cases h

end Early

end TupleOS.Base
