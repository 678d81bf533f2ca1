import TupleOS.Base.Bytes

/-!
# A 32-bit x86 processor

The registers, flags and segment registers of an i386 in protected mode, with a
byte memory, and the instructions that kernel entry and exit code is made of.
`EIP` is followed at control transfers only.

A stretch of code that pushes is described by `Pushed`: what stands on top of the
stack afterwards, and that nothing else was written. Code that pops runs on a
stack whose top is known (`Top`). `Returned` is what the i386 calling convention
promises to the caller of a function.
-/

namespace TupleOS.Base

abbrev Word := BitVec 32

inductive Reg where
  | eax | ecx | edx | ebx | esp | ebp | esi | edi
  deriving DecidableEq, Repr

inductive SegReg where
  | ds | es | fs | gs
  deriving DecidableEq, Repr

structure Cpu where
  reg : Reg → Word
  seg : SegReg → BitVec 16
  cs : BitVec 16
  eip : Word
  eflags : Word
  mem : Bytes

namespace Cpu

def set (m : Cpu) (r : Reg) (v : Word) : Cpu :=
  { m with reg := fun r' => if r' = r then v else m.reg r' }

def setSeg (m : Cpu) (s : SegReg) (v : BitVec 16) : Cpu :=
  { m with seg := fun s' => if s' = s then v else m.seg s' }

def sp (m : Cpu) : Nat := (m.reg .esp).toNat

def load (m : Cpu) (a : Nat) : Word := BitVec.ofNat 32 (load32 m.mem a)

def store (m : Cpu) (a : Nat) (v : Word) : Cpu := { m with mem := store32 m.mem a v.toNat }

def push (m : Cpu) (v : Word) : Cpu :=
  (m.set .esp (m.reg .esp - 4)).store (m.reg .esp - 4).toNat v

/-- The word `off` bytes above the top of the stack. -/
def top (m : Cpu) (off : Word) : Word := m.load (m.reg .esp + off).toNat

def drop (m : Cpu) (n : Word) : Cpu := m.set .esp (m.reg .esp + n)

end Cpu

/-- The low half of a register, as `%ax` of `%eax`. -/
def lowHalf (w : Word) : BitVec 16 := w.setWidth 16

def setLowHalf (w : Word) (v : BitVec 16) : Word :=
  BitVec.ofNat 32 (w.toNat / 2 ^ 16 * 2 ^ 16 + v.toNat)

theorem lowHalf_setLowHalf (w : Word) (v : BitVec 16) : lowHalf (setLowHalf w v) = v := by
  apply BitVec.eq_of_toNat_eq
  have := v.isLt
  simp only [lowHalf, setLowHalf, BitVec.toNat_setWidth, BitVec.toNat_ofNat]
  omega

/-- The arithmetic flags after `a + b`. -/
def addFlags (fl a b : Word) : Word :=
  let r := a + b
  let bit (n : Nat) (c : Bool) : Word := if c then 1#32 <<< n else 0
  (fl &&& ~~~(0x8D5#32)) ||| bit 0 (2 ^ 32 ≤ a.toNat + b.toNat)
    ||| bit 2 (((List.range 8).countP r.getLsbD) % 2 = 0)
    ||| bit 4 (16 ≤ a.toNat % 16 + b.toNat % 16) ||| bit 6 (r = 0) ||| bit 7 r.msb
    ||| bit 11 (a.msb = b.msb ∧ r.msb ≠ a.msb)

/-! ## Instructions -/

inductive Instr where
  | pushReg (r : Reg)
  | pushImm (v : Word)
  | popReg (r : Reg)
  | pusha
  | popa
  /-- `mov %seg, %ax`. -/
  | movAxSeg (s : SegReg)
  /-- `mov $v, %ax`. -/
  | movAxImm (v : BitVec 16)
  /-- `mov %ax, %seg`. -/
  | movSegAx (s : SegReg)
  /-- `mov disp(%base), %dst`. -/
  | load (dst base : Reg) (disp : Word)
  /-- `mov %src, (%base)`. -/
  | store (src base : Reg)
  | mov (dst src : Reg)
  | addImm (r : Reg) (v : Word)
  | jmp (target : Word)
  /-- `call target`, whose next instruction is at `next`. -/
  | call (target next : Word)
  | ret
  | iret

namespace Cpu

/-- The pushes of `pusha`, in order; `%esp` as it was before. -/
def pushAll (m : Cpu) : Cpu :=
  ((((((((m.push (m.reg .eax)).push (m.reg .ecx)).push (m.reg .edx)).push (m.reg .ebx)).push
    (m.reg .esp)).push (m.reg .ebp)).push (m.reg .esi)).push (m.reg .edi))

def popReg (m : Cpu) (r : Reg) : Cpu := (m.drop 4).set r (m.top 0)

/-- `popa`; the stored `%esp` is skipped. -/
def popAll (m : Cpu) : Cpu :=
  { m with
    reg := fun
      | .edi => m.top 0
      | .esi => m.top 4
      | .ebp => m.top 8
      | .esp => m.reg .esp + 32
      | .ebx => m.top 16
      | .edx => m.top 20
      | .ecx => m.top 24
      | .eax => m.top 28 }

def exec (m : Cpu) : Instr → Cpu
  | .pushReg r => m.push (m.reg r)
  | .pushImm v => m.push v
  | .popReg r => m.popReg r
  | .pusha => m.pushAll
  | .popa => m.popAll
  | .movAxSeg s => m.set .eax (setLowHalf (m.reg .eax) (m.seg s))
  | .movAxImm v => m.set .eax (setLowHalf (m.reg .eax) v)
  | .movSegAx s => m.setSeg s (lowHalf (m.reg .eax))
  | .load dst base disp => m.set dst (m.load (m.reg base + disp).toNat)
  | .store src base => m.store (m.reg base).toNat (m.reg src)
  | .mov dst src => m.set dst (m.reg src)
  | .addImm r v => { m.set r (m.reg r + v) with eflags := addFlags m.eflags (m.reg r) v }
  | .jmp target => { m with eip := target }
  | .call target next => { m.push next with eip := target }
  | .ret => { m.drop 4 with eip := m.top 0 }
  | .iret =>
    { m.drop 12 with
      eip := m.top 0
      cs := lowHalf (m.top 4)
      eflags := m.top 8 }

def run (m : Cpu) (code : List Instr) : Cpu := code.foldl exec m

theorem run_append (m : Cpu) (c c' : List Instr) : m.run (c ++ c') = (m.run c).run c' :=
  List.foldl_append

/-- An interrupt through an interrupt gate from ring 0: the flags, `CS` and `EIP`
are pushed, and `IF`, `TF`, `NT`, `RF` and `VM` are cleared. -/
def interrupt (m : Cpu) (cs : BitVec 16) (handler : Word) : Cpu :=
  { ((m.push m.eflags).push (m.cs.setWidth 32)).push m.eip with
    cs := cs
    eip := handler
    eflags := m.eflags &&& ~~~(0x34300#32) }

def InterruptsOn (m : Cpu) : Prop := m.eflags.getLsbD 9 = true

end Cpu

/-! ## Words on the stack -/

/-- The words `ws` stand from `a` upwards. -/
def Words (mem : Bytes) : Nat → List Word → Prop
  | _, [] => True
  | a, w :: ws => load32 mem a = w.toNat ∧ Words mem (a + 4) ws

theorem Words.congr {mem mem' : Bytes} : ∀ {ws : List Word} {a : Nat}, Words mem a ws →
    AgreeOn mem mem' a (a + 4 * ws.length) → Words mem' a ws
  | [], _, _, _ => trivial
  | w :: ws, a, ⟨h, hs⟩, hag => by
    rw [List.length_cons] at hag
    refine ⟨(load32_congr (hag.mono (by omega) (by omega))).trans h, hs.congr (hag.mono ?_ ?_)⟩
    · omega
    · omega

theorem Words.append {mem : Bytes} : ∀ {u v : List Word} {a : Nat}, Words mem a u →
    Words mem (a + 4 * u.length) v → Words mem a (u ++ v)
  | [], _, _, _, h => by simpa using h
  | w :: u, v, a, ⟨h, hs⟩, h' => by
    rw [List.length_cons, show a + 4 * (u.length + 1) = a + 4 + 4 * u.length by omega] at h'
    exact ⟨h, hs.append h'⟩

/-- `m'` is `m` with `ws` pushed, the last one on top, and nothing else written. -/
structure Pushed (m m' : Cpu) (ws : List Word) : Prop where
  sp : m'.sp + 4 * ws.length = m.sp
  words : Words m'.mem m'.sp ws
  frame : ∀ x, ¬ InWin m'.sp m.sp x → m'.mem x = m.mem x

namespace Cpu

@[simp] theorem set_same (m : Cpu) (r : Reg) (v : Word) : (m.set r v).reg r = v := by simp [set]

@[simp] theorem set_ne (m : Cpu) {r r' : Reg} (v : Word) (h : r' ≠ r) :
    (m.set r v).reg r' = m.reg r' := by simp [set, h]

@[simp] theorem set_mem (m : Cpu) (r : Reg) (v : Word) : (m.set r v).mem = m.mem := rfl
@[simp] theorem set_seg (m : Cpu) (r : Reg) (v : Word) : (m.set r v).seg = m.seg := rfl
@[simp] theorem set_load (m : Cpu) (r : Reg) (v : Word) (a : Nat) :
    (m.set r v).load a = m.load a := rfl

@[simp] theorem set_sp (m : Cpu) {r : Reg} (v : Word) (h : r ≠ .esp) : (m.set r v).sp = m.sp := by
  rw [sp, set_ne _ _ h.symm, sp]

@[simp] theorem push_reg (m : Cpu) (v : Word) {r : Reg} (h : r ≠ .esp) :
    (m.push v).reg r = m.reg r := by
  simp [push, store, set, h]

@[simp] theorem push_seg (m : Cpu) (v : Word) : (m.push v).seg = m.seg := rfl

@[simp] theorem pushAll_reg (m : Cpu) {r : Reg} (h : r ≠ .esp) : m.pushAll.reg r = m.reg r := by
  simp [pushAll, h]

@[simp] theorem pushAll_seg (m : Cpu) : m.pushAll.seg = m.seg := rfl

@[simp] theorem interrupt_reg (m : Cpu) (cs : BitVec 16) (v : Word) {r : Reg} (h : r ≠ .esp) :
    (m.interrupt cs v).reg r = m.reg r := by
  simp [interrupt, h]

@[simp] theorem interrupt_seg (m : Cpu) (cs : BitVec 16) (v : Word) :
    (m.interrupt cs v).seg = m.seg := rfl

@[simp] theorem push_esp (m : Cpu) (v : Word) : (m.push v).reg .esp = m.reg .esp - 4 := by
  simp [push, store]

theorem push_sp (m : Cpu) (v : Word) (h : 4 ≤ m.sp) : (m.push v).sp + 4 = m.sp := by
  unfold sp at *
  rw [push_esp]
  bv_omega

theorem push_pushed (m : Cpu) (v : Word) (h : 4 ≤ m.sp) : Pushed m (m.push v) [v] := by
  have hsp := m.push_sp v h
  have hmem : (m.push v).mem = store32 m.mem (m.push v).sp v.toNat := by
    simp [push, store, sp]
  refine ⟨hsp, ⟨?_, trivial⟩, fun x hx => ?_⟩
  · rw [hmem, load32_store32 _ _ v.isLt]
  · rw [hmem]
    refine store32_out ?_
    unfold InWin at hx
    omega

end Cpu

theorem Pushed.trans {m m' m'' : Cpu} {ws ws' : List Word} (h : Pushed m m' ws)
    (h' : Pushed m' m'' ws') : Pushed m m'' (ws' ++ ws) := by
  have hs := h.sp
  have hs' := h'.sp
  refine ⟨?_, h'.words.append ?_, fun x hx => ?_⟩
  · rw [List.length_append]; omega
  · rw [hs']
    refine h.words.congr fun x hx => h'.frame x ?_
    have := hx.1
    unfold InWin
    omega
  · unfold InWin at hx
    rw [h'.frame x (by unfold InWin; omega), h.frame x (by unfold InWin; omega)]

theorem Words.get {mem : Bytes} : ∀ {ws : List Word} {a i : Nat} {w : Word}, Words mem a ws →
    ws[i]? = some w → load32 mem (a + 4 * i) = w.toNat
  | _ :: _, _, 0, _, ⟨h, _⟩, hi => by
    rw [List.getElem?_cons_zero, Option.some.injEq] at hi
    simpa [hi] using h
  | _ :: ws, a, i + 1, w, ⟨_, hs⟩, hi => by
    rw [List.getElem?_cons_succ] at hi
    have := hs.get hi
    rwa [show a + 4 + 4 * i = a + 4 * (i + 1) by omega] at this

/-- The words `ws` stand on top of the stack of `m`. -/
structure Top (m : Cpu) (ws : List Word) : Prop where
  words : Words m.mem m.sp ws
  bound : m.sp + 4 * ws.length < 2 ^ 32

theorem Top.get {m : Cpu} {ws : List Word} (h : Top m ws) (i : Nat) {w : Word}
    (hi : ws[i]? = some w) : m.top (BitVec.ofNat 32 (4 * i)) = w := by
  have hlt : i < ws.length := (List.getElem?_eq_some_iff.mp hi).1
  have hb := h.bound
  have ha : (m.reg .esp + BitVec.ofNat 32 (4 * i)).toNat = m.sp + 4 * i := by
    unfold Cpu.sp at *
    rw [BitVec.toNat_add, BitVec.toNat_ofNat]
    omega
  rw [Cpu.top, Cpu.load, ha, h.words.get hi, BitVec.ofNat_toNat, BitVec.setWidth_eq]

theorem Pushed.refl (m : Cpu) : Pushed m m [] := ⟨by simp, trivial, fun _ _ => rfl⟩

theorem Pushed.push {m m' : Cpu} {ws : List Word} (h : Pushed m m' ws) (v : Word)
    (hroom : 4 * (ws.length + 1) ≤ m.sp) : Pushed m (m'.push v) (v :: ws) :=
  h.trans (m'.push_pushed v (by have := h.sp; omega))

theorem Pushed.pushAll {m m' : Cpu} {ws : List Word} (h : Pushed m m' ws)
    (hroom : 4 * (ws.length + 8) ≤ m.sp) :
    Pushed m m'.pushAll (m'.reg .edi :: m'.reg .esi :: m'.reg .ebp :: m'.reg .esp ::
      m'.reg .ebx :: m'.reg .edx :: m'.reg .ecx :: m'.reg .eax :: ws) := by
  have h1 := h.push (m'.reg .eax) (by omega)
  have h2 := h1.push (m'.reg .ecx) (by rw [List.length_cons]; omega)
  have h3 := h2.push (m'.reg .edx) (by simp only [List.length_cons]; omega)
  have h4 := h3.push (m'.reg .ebx) (by simp only [List.length_cons]; omega)
  have h5 := h4.push (m'.reg .esp) (by simp only [List.length_cons]; omega)
  have h6 := h5.push (m'.reg .ebp) (by simp only [List.length_cons]; omega)
  have h7 := h6.push (m'.reg .esi) (by simp only [List.length_cons]; omega)
  exact h7.push (m'.reg .edi) (by simp only [List.length_cons]; omega)

theorem Pushed.interrupt (m : Cpu) (cs : BitVec 16) (handler : Word) (hroom : 12 ≤ m.sp) :
    Pushed m (m.interrupt cs handler) [m.eip, m.cs.setWidth 32, m.eflags] := by
  have h1 := (Pushed.refl m).push m.eflags (by rw [List.length_nil]; omega)
  have h2 := h1.push (m.cs.setWidth 32) (by simp only [List.length_cons, List.length_nil]; omega)
  have h3 := h2.push m.eip (by simp only [List.length_cons, List.length_nil]; omega)
  exact ⟨h3.sp, h3.words, h3.frame⟩

theorem Pushed.same {m m' n : Cpu} {ws : List Word} (h : Pushed m m' ws)
    (hs : n.sp = m'.sp) (hm : n.mem = m'.mem) : Pushed m n ws := by
  obtain ⟨h1, h2, h3⟩ := h
  refine ⟨by omega, ?_, ?_⟩
  · rw [hm, hs]; exact h2
  · rw [hm, hs]; exact h3

/-! ## Calls -/

/-- The registers a function keeps for its caller, the stack pointer apart. -/
def calleeSaved : List Reg := [.ebx, .esi, .edi, .ebp]

/-- From the entry `m` of a function with `args` bytes of arguments, on a stack
that ends at `hi`, to its return `m'`: the i386 convention. -/
structure Returned (args hi : Nat) (m m' : Cpu) : Prop where
  eip : m'.eip = m.top 0
  esp : m'.reg .esp = m.reg .esp + 4
  saved : ∀ r ∈ calleeSaved, m'.reg r = m.reg r
  frame : AgreeOn m.mem m'.mem (m.sp + 4 + args) hi

end TupleOS.Base
