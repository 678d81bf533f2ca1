import Mathlib.Data.List.Induction
import TupleOS.Base.I8259
import TupleOS.Interrupt.Entry

/-!
# From a line to its handler (`kernel/idt.c`)

`pic_remap` programs both interrupt controllers, in whatever state they are, so that
line `n` has vector `32 + n`, and keeps their masks (`picRemap_eq`). `idt_register_handler`
fills a table of functions, and `interrupt_handler` calls the one for the number in the
frame and ends the interrupt at the controllers.

Together (`irq_reaches_handler`): a line that is raised while nothing is in service calls
the function that was registered last for its vector; once the handler has returned the
controllers are as before and the interrupted code goes on.
-/

namespace TupleOS.Interrupt

open TupleOS.Base

/-! ## `pic_remap` -/

def picOut (c : Pair) (port : Nat) (value : BitVec 8) : Pair :=
  if port = 0x20 then { c with master := c.master.command value }
  else if port = 0x21 then { c with master := c.master.data value }
  else if port = 0xA0 then { c with slave := c.slave.command value }
  else if port = 0xA1 then { c with slave := c.slave.data value }
  else c

def picIn (c : Pair) (port : Nat) : BitVec 8 :=
  if port = 0x21 then c.master.mask else if port = 0xA1 then c.slave.mask else 0xFF

def ioWait (c : Pair) : Pair := picOut c 0x80 0

def picRemap (c : Pair) : Pair :=
  let maskMaster := picIn c 0x21
  let maskSlave := picIn c 0xA1
  let c := ioWait (picOut c 0x20 0x11)
  let c := ioWait (picOut c 0xA0 0x11)
  let c := ioWait (picOut c 0x21 0x20)
  let c := ioWait (picOut c 0xA1 0x28)
  let c := ioWait (picOut c 0x21 0x04)
  let c := ioWait (picOut c 0xA1 0x02)
  let c := ioWait (picOut c 0x21 0x01)
  let c := ioWait (picOut c 0xA1 0x01)
  let c := picOut c 0x21 maskMaster
  picOut c 0xA1 maskSlave

def programmed (p : I8259) (base cascade : BitVec 8) : I8259 where
  phase := .ready
  single := false
  wantsIcw4 := true
  base := base
  cascade := cascade
  mode := 0x01
  mask := p.mask
  service := p.service

/-- **`pic_remap`** does not depend on the state it finds, and keeps the masks. -/
theorem picRemap_eq (c : Pair) :
    picRemap c = ⟨programmed c.master 0x20 0x04, programmed c.slave 0x28 0x02⟩ := by
  simp [picRemap, ioWait, picOut, picIn, I8259.command, I8259.data, programmed]

/-! ## Lines -/

/-- The line is enabled; a line of the slave needs line 2 of the master. -/
def Unmasked (c : Pair) (n : Fin 16) : Prop :=
  if n.val < 8 then c.master.mask.getLsbD n = false
  else c.master.mask.getLsbD 2 = false ∧ c.slave.mask.getLsbD (n - 8) = false

def Quiet (c : Pair) : Prop := c.master.service.Idle ∧ c.slave.service.Idle

/-- **Line `n` has vector `32 + n`.** -/
theorem request_remapped {c : Pair} {n : Fin 16} (hq : Quiet c) (hm : Unmasked c n)
    (hn : n ≠ 2) :
    (picRemap c).request 2 n = some (32 + n.val, (picRemap c).serving 2 n) := by
  rw [picRemap_eq]
  unfold Pair.request
  unfold Unmasked at hm
  by_cases h : n.val < 8
  · rw [if_pos h] at hm
    have hpass : (programmed c.master 0x20 0x04).Passes ⟨n.val, h⟩ :=
      ⟨rfl, hm, fun l _ => hq.1 l⟩
    have hwire : ∀ k : Fin 8, k ≠ 2 → (0x04 : BitVec 8).getLsbD k = false := by decide
    have hline : (⟨n.val, h⟩ : Fin 8) ≠ 2 := by
      intro he
      have hval : n.val = 2 := Fin.ext_iff.mp he
      exact hn (Fin.ext hval)
    simp only [dif_pos h]
    rw [if_pos ⟨hpass, hwire _ hline⟩]
    rfl
  · rw [if_neg h] at hm
    have hpass : (programmed c.master 0x20 0x04).Passes 2 := ⟨rfl, hm.1, fun l _ => hq.1 l⟩
    have hpass' : (programmed c.slave 0x28 0x02).Passes (Pair.slaveLine n h) :=
      ⟨rfl, hm.2, fun l _ => hq.2 l⟩
    have hvec : (programmed c.slave 0x28 0x02).vector (Pair.slaveLine n h) = 32 + n.val := by
      show 40 + (n.val - 8) = 32 + n.val
      omega
    have hwire : (0x04 : BitVec 8).getLsbD 2 = true := by decide
    have hslave : (0x02 : BitVec 8).toNat % 8 = 2 := by decide
    simp only [dif_neg h]
    rw [if_pos ⟨hpass, hwire, hpass', hslave⟩, hvec]

theorem take_eoi {p : I8259} (h : p.service.Idle) (line : Fin 8) :
    (p.take line).command 0x20 = p := by
  have hs : (p.service.take line).eoi = p.service :=
    funext fun l => (h.take.eoi l).trans (h l).symm
  show { p with service := (p.service.take line).eoi } = p
  rw [hs]

theorem idle_eoi {p : I8259} (h : p.service.Idle) : p.command 0x20 = p := by
  have hs : p.service.eoi = p.service :=
    funext fun l => ((Pic.Only.eoi (h.only : p.service.Only 0) l)).trans (h l).symm
  show { p with service := p.service.eoi } = p
  rw [hs]

/-! ## `interrupt_handler` -/

section Handlers

variable {η : Type} {regs : List (BitVec 8 × η)}

def idtRegisterHandler (handlers : Nat → Option η) (interrupt : BitVec 8) (handler : η) :
    Nat → Option η :=
  Function.update handlers interrupt.toNat (some handler)

/-- The table after some calls of `idt_register_handler`. -/
def registered (regs : List (BitVec 8 × η)) : Nat → Option η :=
  regs.foldl (fun handlers r => idtRegisterHandler handlers r.1 r.2) fun _ => none

/-- The last function that was registered for a vector. -/
def lastFor (regs : List (BitVec 8 × η)) (v : Nat) : Option η :=
  (regs.reverse.find? fun r => r.1.toNat = v).map Prod.snd

theorem registered_eq (regs : List (BitVec 8 × η)) (v : Nat) :
    registered regs v = lastFor regs v := by
  -- from the last registration back: it decides, or the ones before it do
  induction regs using List.reverseRecOn with
  | nil => rfl
  | append_singleton regs r ih =>
    have hstep : registered (regs ++ [r]) = idtRegisterHandler (registered regs) r.1 r.2 := by
      simp [registered]
    rw [hstep]
    unfold idtRegisterHandler lastFor
    rw [List.reverse_append, List.reverse_singleton, List.singleton_append]
    by_cases h : r.1.toNat = v
    · rw [List.find?_cons_of_pos (by simpa using h), ← h, Function.update_self]
      rfl
    · rw [List.find?_cons_of_neg (by simpa using h), Function.update_of_ne (Ne.symm h), ih]
      rfl

/-- `interrupt_handler`, where `call` is what a handler does to memory and to the
controllers. The number is read from the frame again once the handler is back. -/
def interruptHandler (handlers : Nat → Option η) (call : η → Bytes × Pair → Bytes × Pair)
    (frame : Nat) (s : Bytes × Pair) : Bytes × Pair :=
  let s :=
    match handlers (load32 s.1 (frame + 36)) with
    | some f => call f s
    | none => s
  let number := load32 s.1 (frame + 36)
  if 32 ≤ number ∧ number ≤ 47 then
    let c := if 40 ≤ number then picOut s.2 0xA0 0x20 else s.2
    (s.1, picOut c 0x20 0x20)
  else s

/-- The state after the handler of a vector. -/
def handled (regs : List (BitVec 8 × η)) (call : η → Bytes × Pair → Bytes × Pair) (v : Nat)
    (s : Bytes × Pair) : Bytes × Pair :=
  match lastFor regs v with
  | some f => call f s
  | none => s

/-- A handler leaves the number in the frame, and either does not touch the controllers or,
like `timer_handler`, ends the interrupt at the master itself. -/
structure Polite (call : η → Bytes × Pair → Bytes × Pair) (frame : Nat) (s : Bytes × Pair) :
    Prop where
  frame : ∀ f, AgreeOn s.1 (call f s).1 (frame + 36) (frame + 40)
  controllers : ∀ f, (call f s).2 = s.2 ∨ (call f s).2 = picOut s.2 0x20 0x20

theorem endOfInterrupt_serving {c c' : Pair} {n : Fin 16} (hq : Quiet c)
    (hc : c' = c.serving 2 n ∨ c' = picOut (c.serving 2 n) 0x20 0x20) :
    picOut (if 40 ≤ 32 + n.val then picOut c' 0xA0 0x20 else c') 0x20 0x20 = c := by
  have hm := fun line => take_eoi hq.1 line
  have hs := fun line => take_eoi hq.2 line
  have hidle := idle_eoi hq.1
  unfold Pair.serving picOut at hc
  unfold picOut
  by_cases h : n.val < 8
  · simp only [h, dif_pos, if_true, hm] at hc
    rw [if_neg (show ¬ 40 ≤ 32 + n.val by omega)]
    rcases hc with rfl | rfl
    · simp only [if_true, hm]
    · simp only [if_true, hidle]
  · simp only [h, dif_neg, not_false_eq_true, if_true, hm] at hc
    rw [if_pos (show 40 ≤ 32 + n.val by omega)]
    have h1 : (0xA0 : Nat) ≠ 0x20 := by decide
    have h2 : (0xA0 : Nat) ≠ 0x21 := by decide
    rcases hc with rfl | rfl
    · simp only [h1, h2, if_true, if_false, hm, hs]
    · simp only [h1, h2, if_true, if_false, hidle, hs]

theorem interruptHandler_irq {call : η → Bytes × Pair → Bytes × Pair} {mem : Bytes}
    {frame : Nat} {c : Pair} {n : Fin 16} (hv : load32 mem (frame + 36) = 32 + n.val)
    (hcall : Polite call frame (mem, c.serving 2 n)) (hq : Quiet c) :
    interruptHandler (registered regs) call frame (mem, c.serving 2 n) =
      ((handled regs call (32 + n.val) (mem, c.serving 2 n)).1, c) := by
  have hs : (match registered regs (load32 mem (frame + 36)) with
      | some f => call f (mem, c.serving 2 n)
      | none => (mem, c.serving 2 n)) = handled regs call (32 + n.val) (mem, c.serving 2 n) := by
    rw [hv, registered_eq]
    rfl
  have hafter : load32 (handled regs call (32 + n.val) (mem, c.serving 2 n)).1 (frame + 36) =
      32 + n.val ∧ ((handled regs call (32 + n.val) (mem, c.serving 2 n)).2 = c.serving 2 n ∨
      (handled regs call (32 + n.val) (mem, c.serving 2 n)).2 =
        picOut (c.serving 2 n) 0x20 0x20) := by
    unfold handled
    cases lastFor regs (32 + n.val) with
    | none => exact ⟨hv, .inl rfl⟩
    | some f => exact ⟨(load32_congr (hcall.frame f)).trans hv, hcall.controllers f⟩
  unfold interruptHandler
  simp only [hs, hafter.1]
  rw [if_pos ⟨by omega, by omega⟩, endOfInterrupt_serving hq hafter.2]

end Handlers

/-- **A line reaches its handler**: whatever state the controllers were in before
`pic_remap`, a line that is enabled and raised while nothing is in service interrupts with
vector `32 + n`, and the function called is the last one registered for that vector. When
`interrupt_handler` is done the controllers are as they were before the line was raised, and
the interrupted code goes on with its registers and its stack. -/
theorem irq_reaches_handler {η : Type} {K : TableLayout} {Y : Stubs} {mem₀ : Bytes} {m : Cpu}
    {c : Pair} {n : Fin 16} (regs : List (BitVec 8 × η))
    (hz : ∀ x, InWin K.idt (K.idt + 8 * 256) x → mem₀ x = 0)
    (hY : ∀ v < 48, ∀ w < 48, Y.entry v = Y.entry w → v = w) (hK : K.Kept mem₀ Y m.mem)
    (hroom : 64 ≤ m.sp) (hseg : ∀ s, m.seg s = m.seg .ds) (hq : Quiet c) (hm : Unmasked c n)
    (hn : n ≠ 2) :
    ∃ c₁ m₁, (picRemap c).request 2 n = some (32 + n.val, c₁) ∧
      Y.enter (K.registers mem₀ Y) m (32 + n.val) none = some m₁ ∧
      m₁.eip = Y.interruptHandler ∧
      (∀ call : η → Bytes × Pair → Bytes × Pair,
        Polite call (m₁.top 4).toNat (m₁.mem, c₁) →
        interruptHandler (registered regs) call (m₁.top 4).toNat (m₁.mem, c₁) =
          ((handled regs call (32 + n.val) (m₁.mem, c₁)).1, picRemap c)) ∧
      ∀ m₂ hi, Returned 4 hi m₁ m₂ → m.sp ≤ hi →
        SameContext m (isrLeave m₂) ∧ AgreeOn m.mem (isrLeave m₂).mem m.sp hi := by
  have hv : 32 + n.val < 48 := by omega
  have herr : (none : Option Word).isSome = pushesErrorCode (32 + n.val) := by
    have : ∀ k : Fin 16, pushesErrorCode (32 + k.val) = false := by decide
    exact (this n).symm
  obtain ⟨m₁, fp, esp, he, heip, -, hfp, hp⟩ := enter_some (hK.installed hz hY) hv herr hroom
  have hlt : m.sp < 2 ^ 32 := (m.reg .esp).isLt
  have hsp := hp.sp
  have htop : Top m₁ (Y.isrReturn :: fp ::
      interruptFrame m esp (BitVec.ofNat 32 (32 + n.val)) ((none : Option Word).getD 0)) :=
    ⟨hp.words, by omega⟩
  have hframe : Words m₁.mem (m₁.top 4).toNat
      (interruptFrame m esp (BitVec.ofNat 32 (32 + n.val)) ((none : Option Word).getD 0)) := by
    rw [show m₁.top 4 = fp from htop.get 1 rfl, hfp]
    exact hp.words.2.2
  have hquiet : Quiet (picRemap c) := by
    rw [picRemap_eq]
    exact hq
  have hnumber : load32 m₁.mem ((m₁.top 4).toNat + 36) = 32 + n.val := by
    have h : load32 m₁.mem ((m₁.top 4).toNat + 36) = (BitVec.ofNat 32 (32 + n.val)).toNat :=
      hframe.get (i := 9) rfl
    rw [h, BitVec.toNat_ofNat]
    omega
  refine ⟨_, m₁, request_remapped hq hm hn, he, heip, fun call hcall => ?_,
    fun m₂ hi hret hhi => ?_⟩
  · exact interruptHandler_irq hnumber hcall hquiet
  · exact leave_context hroom hp hret hhi hseg

/-- Controllers as a BIOS leaves them, with lines 0, 1 and 2 enabled. -/
def samplePair : Pair where
  master := ⟨.ready, false, true, 0x08, 0x04, 0x01, 0xF8, fun _ => false⟩
  slave := ⟨.ready, false, true, 0x70, 0x02, 0x01, 0xFF, fun _ => false⟩

/-- The theorem at the keyboard's line, with a handler that replaced another one. -/
theorem irq_reaches_handler_keyboard : ∃ c₁ m₁,
    (picRemap samplePair).request 2 1 = some (33, c₁) ∧
    sampleStubs.enter (sampleTables.registers (fun _ => 0) sampleStubs) sampleCpu 33 none =
      some m₁ ∧
    ∀ call : Nat → Bytes × Pair → Bytes × Pair, Polite call (m₁.top 4).toNat (m₁.mem, c₁) →
      interruptHandler (registered [(33, 5), (32, 6), (33, 7)]) call (m₁.top 4).toNat
        (m₁.mem, c₁) = ((call 7 (m₁.mem, c₁)).1, picRemap samplePair) := by
  obtain ⟨c₁, m₁, hr, he, -, hh, -⟩ := irq_reaches_handler (n := 1) (c := samplePair)
    [(33, 5), (32, 6), (33, 7)] (fun _ _ => rfl) sampleStubs_apart sampleCpu_kept
    (show 64 ≤ 0xC0200000 by decide) (fun _ => rfl) ⟨fun _ => rfl, fun _ => rfl⟩
    (show samplePair.master.mask.getLsbD 1 = false by decide) (by decide)
  exact ⟨c₁, m₁, hr, he, hh⟩

end TupleOS.Interrupt
