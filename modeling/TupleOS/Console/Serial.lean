import Mathlib.Tactic.IntervalCases
import TupleOS.Base.Fair
import TupleOS.Base.Uart
import TupleOS.Console.Printf

/-!
# The serial port (`kernel/serial.c`)

`serial_init` programs the port in whatever state the firmware left it, and
`serial_putchar` waits for the transmitter before each byte. The processor and the
transmitter work side by side: a `Session` takes a step of either for each event,
in any order. Whatever the order, the line carries some of what the firmware left in
the port, up to where `serial_init` empties the FIFO, and then what `serial_printf`
printed, each byte once and with the settings of `serial_init`; if both go on it
carries all of it (`serial_delivers`).
-/

namespace TupleOS.Console

open TupleOS.Base

/-! ## The code -/

/-- What the code does at the port. -/
inductive PortOp where
  /-- `outb(COM1 + reg, v)`. -/
  | out (reg : Nat) (v : BitVec 8)
  /-- `while (serial_is_transmit_empty() == 0);` -/
  | await
  deriving DecidableEq, Repr

def serialIsTransmitEmpty (u : Uart) (receiver : BitVec 8) : BitVec 8 := u.status receiver &&& 0x20

def serialInit : List PortOp :=
  [.out 1 0x00, .out 3 0x80, .out 0 0x03, .out 1 0x00, .out 3 0x03, .out 2 0xC7, .out 4 0x0B]

def serialPutchar (c : BitVec 8) : List PortOp := [.await, .out 0 c]

/-- `serial_putchar` for one character after the other. -/
def serialWrite (text : List (BitVec 8)) : List PortOp := text.flatMap serialPutchar

/-- A call of `serial_printf` at the port. -/
def serialPrintfOps (format : List CChar) (args : List Arg) : Option (List PortOp) :=
  (serialPrintf format args).map serialWrite

/-- The code that is left, and the port. -/
structure Session where
  code : List PortOp
  uart : Uart

inductive Party where
  | device
  | cpu
  deriving DecidableEq, Repr

/-- The transmitter or the processor takes a step; a poll shows the receiver as well. -/
inductive PortEvent where
  | device
  | cpu (receiver : BitVec 8)

def PortEvent.party : PortEvent → Party
  | .device => .device
  | .cpu _ => .cpu

def Session.step (s : Session) : PortEvent → Session
  | .device => { s with uart := s.uart.tick }
  | .cpu receiver =>
    match s.code with
    | [] => s
    | .out reg v :: code => ⟨code, s.uart.write reg v⟩
    | .await :: code =>
      if serialIsTransmitEmpty s.uart receiver = 0 then s else { s with code := code }

/-- A byte at 38400 baud, eight bits, no parity, one stop bit. -/
def sent (b : BitVec 8) : Frame := ⟨b, 3, 0x03, false⟩

/-! ## One step -/

section Steps

variable {s : Session} {u : Uart} {text : List (BitVec 8)}

theorem step_nil (receiver : BitVec 8) (hc : s.code = []) : s.step (.cpu receiver) = s := by
  unfold Session.step
  simp only [hc]

theorem step_out (receiver : BitVec 8) {reg : Nat} {v : BitVec 8} {code : List PortOp}
    (hc : s.code = .out reg v :: code) :
    s.step (.cpu receiver) = ⟨code, s.uart.write reg v⟩ := by
  unfold Session.step
  simp only [hc]

theorem step_await (receiver : BitVec 8) {code : List PortOp} (hc : s.code = .await :: code) :
    s.step (.cpu receiver) = if s.uart.held = [] then { s with code := code } else s := by
  have hstatus : serialIsTransmitEmpty s.uart receiver ≠ 0 ↔ s.uart.held = [] :=
    s.uart.status_empty receiver
  unfold Session.step
  simp only [hc]
  by_cases hh : s.uart.held = []
  · rw [if_neg (hstatus.mpr hh), if_pos hh]
  · rw [if_pos (not_not.mp (mt hstatus.mp hh)), if_neg hh]

theorem line_grows (s : Session) (e : PortEvent) : s.uart.line <+: (s.step e).uart.line := by
  cases e with
  | device =>
    show s.uart.line <+: s.uart.tick.line
    unfold Uart.tick
    split
    · exact List.prefix_append _ _
    · split <;> exact List.prefix_rfl
  | cpu receiver =>
    cases hc : s.code with
    | nil => rw [step_nil receiver hc]
    | cons op code =>
      cases op with
      | out reg v =>
        rw [step_out receiver hc]
        show s.uart.line <+: (s.uart.write reg v).line
        rw [Uart.write_line]
      | await =>
        rw [step_await receiver hc]
        split <;> exact List.prefix_rfl

theorem line_prefix (s : Session) (sched : Nat → PortEvent) (m n : Nat) :
    (statesOf Session.step sched s m).uart.line <+:
      (statesOf Session.step sched s (m + n)).uart.line := by
  induction n with
  | zero => exact List.prefix_rfl
  | succ n ih => exact ih.trans (line_grows _ _)

/-- What is left to do, for the processor and for the transmitter. -/
def toDo (s : Session) : Nat :=
  4 * s.code.length + 2 * s.uart.held.length + s.uart.shifting.toList.length

theorem tick_toDo (s : Session) : s.step .device = s ∨ toDo (s.step .device) < toDo s := by
  unfold Session.step toDo Uart.tick
  cases hs : s.uart.shifting with
  | some b => exact .inr (by simp)
  | none =>
    cases hh : s.uart.held with
    | nil => exact .inl rfl
    | cons b held => exact .inr (by simp; omega)

theorem tick_busy (h : s.uart.waiting ≠ []) : toDo (s.step .device) < toDo s := by
  refine (tick_toDo s).resolve_left fun he => h ?_
  have htick : s.uart.tick = s.uart := congrArg Session.uart he
  unfold Uart.tick at htick
  unfold Uart.waiting
  cases hs : s.uart.shifting with
  | some b =>
    rw [hs] at htick
    have := congrArg Uart.shifting htick
    rw [hs] at this
    cases this
  | none =>
    cases hh : s.uart.held with
    | nil => rfl
    | cons b held =>
      simp only [hs, hh] at htick
      have := congrArg Uart.shifting htick
      rw [hs] at this
      cases this

/-! ## `serial_init` -/

/-- After `j` writes of `serial_init`. The port may have sent bytes of the firmware, and some
may still be on their way. -/
structure Starting (u : Uart) (text : List (BitVec 8)) (j : Nat) (s : Session) : Prop where
  code : s.code = serialInit.drop j ++ serialWrite text
  latch : 2 ≤ j → j ≤ 4 → s.uart.lineControl = 0x80
  low : 3 ≤ j → s.uart.divisorLow = 0x03
  high : 4 ≤ j → s.uart.divisorHigh = 0x00
  control : 5 ≤ j → s.uart.lineControl = 0x03
  fifo : 6 ≤ j → s.uart.fifo = true ∧ s.uart.held = []
  modem : 7 ≤ j → s.uart.modemControl = 0x0B
  old : ∃ old, s.uart.line = u.line ++ old ∧ old.map Frame.byte ++ s.uart.waiting <+: u.waiting

theorem Starting.device {j : Nat} (h : Starting u text j s) :
    Starting u text j (s.step .device) := by
  obtain ⟨hc, hm, hl, hh, hf⟩ := s.uart.tick_settings
  obtain ⟨old, hline, hold⟩ := h.old
  obtain ⟨more, hmore⟩ : s.uart.line <+: s.uart.tick.line := line_grows s .device
  -- what has gone out comes off what was on its way
  have hout : more.map Frame.byte ++ s.uart.tick.waiting = s.uart.waiting := by
    have hcons := s.uart.tick_conserves
    rw [← hmore, List.append_assoc, List.append_cancel_left_eq] at hcons
    have hbytes := congrArg (List.map Frame.byte) hcons
    have hframe : Frame.byte ∘ s.uart.frame = id := rfl
    rwa [List.map_append, List.map_map, List.map_map, hframe, List.map_id, List.map_id] at hbytes
  refine ⟨h.code, fun h1 h2 => hc.trans (h.latch h1 h2), fun h1 => hl.trans (h.low h1),
    fun h1 => hh.trans (h.high h1), fun h1 => hc.trans (h.control h1),
    fun h1 => ⟨hf.trans (h.fifo h1).1, Uart.tick_held (h.fifo h1).2⟩,
    fun h1 => hm.trans (h.modem h1), old ++ more, ?_, ?_⟩
  · show s.uart.tick.line = _
    rw [← hmore, hline, List.append_assoc]
  · show _ ++ s.uart.tick.waiting <+: _
    rwa [List.map_append, List.append_assoc, hout]

theorem write_waiting {reg : Nat} {v : BitVec 8} (h : reg = 0 → u.latch = true) :
    (u.write reg v).shifting = u.shifting ∧ (u.write reg v).held <+: u.held := by
  unfold Uart.write
  split
  · rw [if_pos (h rfl)]
    exact ⟨rfl, List.prefix_rfl⟩
  · split <;> exact ⟨rfl, List.prefix_rfl⟩
  · refine ⟨rfl, ?_⟩
    show (if _ then [] else u.held) <+: _
    split
    · exact List.nil_prefix
    · exact List.prefix_rfl
  all_goals exact ⟨rfl, List.prefix_rfl⟩

/-- The next write of `serial_init`, and what it does to the settings. -/
theorem Starting.next {j : Nat} (h : Starting u text j s) (hj : j < 7) :
    ∃ reg v, s.code = .out reg v :: (serialInit.drop (j + 1) ++ serialWrite text) ∧
      (reg = 0 → s.uart.latch = true) ∧ Starting (s.uart.write reg v) text (j + 1)
        ⟨serialInit.drop (j + 1) ++ serialWrite text, s.uart.write reg v⟩ := by
  obtain ⟨hcode, hlatch, hlow, hhigh, hcontrol, hfifo, hmodem, -⟩ := h
  have hold : ∀ u' : Uart, ∃ old, u'.line = u'.line ++ old ∧
      old.map Frame.byte ++ u'.waiting <+: u'.waiting := fun u' => ⟨[], by simp⟩
  have hopen : 2 ≤ j → j ≤ 4 → s.uart.latch = true := by
    intro h1 h2
    unfold Uart.latch
    rw [hlatch h1 h2]
    decide
  interval_cases j
  · exact ⟨_, _, hcode, by simp, rfl, by simp, by simp, by simp, by simp, by simp, by simp,
      hold _⟩
  · exact ⟨_, _, hcode, by simp, rfl, fun _ _ => rfl, by simp, by simp, by simp, by simp,
      by simp, hold _⟩
  · have hw : s.uart.write 0 0x03 = { s.uart with divisorLow := 0x03 } :=
      if_pos (hopen (by simp) (by simp))
    refine ⟨_, _, hcode, fun _ => hopen (by simp) (by simp), ?_⟩
    rw [hw]
    exact ⟨rfl, fun _ _ => hlatch (by simp) (by simp), fun _ => rfl, by simp, by simp, by simp,
      by simp, hold _⟩
  · have hw : s.uart.write 1 0x00 = { s.uart with divisorHigh := 0x00 } :=
      if_pos (hopen (by simp) (by simp))
    refine ⟨_, _, hcode, by simp, ?_⟩
    rw [hw]
    exact ⟨rfl, fun _ _ => hlatch (by simp) (by simp), fun _ => hlow (by simp), fun _ => rfl,
      by simp, by simp, by simp, hold _⟩
  · exact ⟨_, _, hcode, by simp, rfl, by simp, fun _ => hlow (by simp),
      fun _ => hhigh (by simp), fun _ => rfl, by simp, by simp, hold _⟩
  · exact ⟨_, _, hcode, by simp, rfl, by simp, fun _ => hlow (by simp),
      fun _ => hhigh (by simp), fun _ => hcontrol (by simp), fun _ => ⟨rfl, rfl⟩, by simp,
      hold _⟩
  · exact ⟨_, _, hcode, by simp, rfl, by simp, fun _ => hlow (by simp),
      fun _ => hhigh (by simp), fun _ => hcontrol (by simp), fun _ => hfifo (by simp),
      fun _ => rfl, hold _⟩

theorem Starting.cpu {j : Nat} (h : Starting u text j s) (hj : j < 7) (receiver : BitVec 8) :
    Starting u text (j + 1) (s.step (.cpu receiver)) ∧
      toDo (s.step (.cpu receiver)) < toDo s := by
  obtain ⟨old, hline, hold⟩ := h.old
  obtain ⟨reg, v, hcode, hreg, hs⟩ := h.next hj
  obtain ⟨hshift, hheld⟩ := write_waiting (v := v) hreg
  rw [step_out receiver hcode]
  refine ⟨{ hs with old := ⟨old, (s.uart.write_line reg v).trans hline, ?_⟩ }, ?_⟩
  · refine List.IsPrefix.trans ((List.prefix_append_right_inj _).mpr ?_) hold
    show (s.uart.write reg v).waiting <+: _
    unfold Uart.waiting
    rw [hshift]
    exact (List.prefix_append_right_inj _).mpr hheld
  · have hlen := hheld.length_le
    unfold toDo
    rw [hcode, List.length_cons, ← hshift]
    simp only
    omega

/-! ## `serial_putchar` -/

structure Ready (u : Uart) : Prop where
  control : u.lineControl = 0x03
  modem : u.modemControl = 0x0B
  low : u.divisorLow = 0x03
  high : u.divisorHigh = 0x00
  fifo : u.fifo = true

theorem Ready.frame (h : Ready u) : u.frame = sent := by
  funext b
  unfold Uart.frame sent
  rw [h.control, h.modem, h.low, h.high]
  rfl

theorem Ready.tick (h : Ready u) : Ready u.tick := by
  obtain ⟨h1, h2, h3, h4, h5⟩ := u.tick_settings
  exact ⟨h1.trans h.control, h2.trans h.modem, h3.trans h.low, h4.trans h.high, h5.trans h.fifo⟩

theorem Ready.write (h : Ready u) (hh : u.held = []) (c : BitVec 8) :
    u.write 0 c = { u with held := [c] } := by
  have hl : u.latch = false := by
    unfold Uart.latch
    rw [h.control]
    decide
  show (if u.latch = true then _ else u.put c) = _
  rw [if_neg (by simp [hl])]
  unfold Uart.put
  rw [if_pos h.fifo, hh, if_pos (by decide)]
  rfl

/-- In the end the line will carry `all`: the rest is on its way or still to be written, and
a byte is only written to an empty transmitter. -/
structure Sending (all : List Frame) (s : Session) : Prop where
  ready : Ready s.uart
  rest : ∃ text, s.uart.line ++ (s.uart.waiting ++ text).map sent = all ∧
    (s.code = serialWrite text ∨
      ∃ c text', text = c :: text' ∧ s.code = .out 0 c :: serialWrite text' ∧ s.uart.held = [])

variable {all : List Frame}

theorem Sending.device (h : Sending all s) : Sending all (s.step .device) := by
  obtain ⟨text, hall, hcode⟩ := h.rest
  have hcons := s.uart.tick_conserves
  rw [h.ready.frame] at hcons
  refine ⟨h.ready.tick, text, ?_, ?_⟩
  · show s.uart.tick.line ++ (s.uart.tick.waiting ++ text).map sent = all
    rw [List.map_append, ← List.append_assoc, hcons, List.append_assoc, ← List.map_append, hall]
  · rcases hcode with hcode | ⟨c, text', rfl, hcode, hh⟩
    · exact .inl hcode
    · exact .inr ⟨c, text', rfl, hcode, Uart.tick_held hh⟩

/-- A step of the processor: a poll of a busy transmitter changes nothing, any other step
gets on. -/
theorem Sending.cpu (h : Sending all s) (receiver : BitVec 8) :
    Sending all (s.step (.cpu receiver)) ∧ (s.step (.cpu receiver) = s ∨
      toDo (s.step (.cpu receiver)) < toDo s) ∧
      (s.step (.cpu receiver) = s → s.code = [] ∨ s.uart.held ≠ []) := by
  obtain ⟨text, hall, hcode | ⟨c, text', rfl, hcode, hh⟩⟩ := h.rest
  · cases text with
    | nil =>
      rw [step_nil receiver hcode]
      exact ⟨h, .inl rfl, fun _ => .inl hcode⟩
    | cons c text' =>
      have hcode' : s.code = .await :: .out 0 c :: serialWrite text' := hcode
      rw [step_await receiver hcode']
      by_cases hh : s.uart.held = []
      · rw [if_pos hh]
        have hlt : toDo { s with code := .out 0 c :: serialWrite text' } < toDo s := by
          unfold toDo
          rw [hcode']
          simp only [List.length_cons]
          omega
        refine ⟨⟨h.ready, c :: text', hall, .inr ⟨c, text', rfl, rfl, hh⟩⟩, .inr hlt, fun he => ?_⟩
        rw [he] at hlt
        exact absurd hlt (lt_irrefl _)
      · rw [if_neg hh]
        exact ⟨h, .inl rfl, fun _ => .inr hh⟩
  · rw [step_out receiver hcode, h.ready.write hh]
    have hlt : toDo ⟨serialWrite text', { s.uart with held := [c] }⟩ < toDo s := by
      unfold toDo
      rw [hcode, hh]
      simp only [List.length_cons, List.length_nil]
      omega
    refine ⟨⟨⟨h.ready.control, h.ready.modem, h.ready.low, h.ready.high, h.ready.fifo⟩,
      text', ?_, .inl rfl⟩, .inr hlt, fun he => ?_⟩
    · rw [← hall]
      simp [Uart.waiting, hh]
    · rw [he] at hlt
      exact absurd hlt (lt_irrefl _)

end Steps

/-! ## The whole run -/

section Runs

variable {s : Session} {u : Uart} {text : List (BitVec 8)} {all : List Frame}
  {sched : Nat → PortEvent}

theorem started (hfair : Fair PortEvent.party sched) (u : Uart) (text : List (BitVec 8)) :
    ∃ n, Starting u text 7 (statesOf Session.step sched ⟨serialInit ++ serialWrite text, u⟩ n) := by
  have hs : ∃ j ≤ 7, Starting u text j ⟨serialInit ++ serialWrite text, u⟩ :=
    ⟨0, by omega, rfl, by simp, by simp, by simp, by simp, by simp, by simp, [], by simp⟩
  have hlt : ∀ {s j}, j ≤ 7 → Starting u text j s → ¬ Starting u text 7 s → j < 7 :=
    fun hj h hd => lt_of_le_of_ne hj fun he => hd (he ▸ h)
  have hcloser : ∀ s e, (∃ j ≤ 7, Starting u text j s) → ¬ Starting u text 7 s →
      PortEvent.party e = .cpu → toDo (s.step e) < toDo s := by
    rintro s e ⟨j, hj, h⟩ hd he
    cases e with
    | device => cases he
    | cpu receiver => exact (h.cpu (hlt hj h hd) receiver).2
  have hinv : ∀ s e, (∃ j ≤ 7, Starting u text j s) → ¬ Starting u text 7 s →
      ∃ j ≤ 7, Starting u text j (s.step e) := by
    rintro s e ⟨j, hj, h⟩ hd
    cases e with
    | device => exact ⟨j, hj, h.device⟩
    | cpu receiver => exact ⟨j + 1, hlt hj h hd, (h.cpu (hlt hj h hd) receiver).1⟩
  have hother : ∀ s e, (∃ j ≤ 7, Starting u text j s) → ¬ Starting u text 7 s →
      s.step e = s ∨ toDo (s.step e) < toDo s := by
    intro s e h hd
    cases e with
    | device => exact tick_toDo s
    | cpu receiver => exact .inr (hcloser s _ h hd rfl)
  obtain ⟨n, -, hn⟩ := hfair.eventually (fun s => ∃ j ≤ 7, Starting u text j s)
    (Starting u text 7) toDo (fun _ => .cpu) hinv hcloser hother hs
  exact ⟨n, hn⟩

theorem Starting.sending (h : Starting u text 7 s) :
    Sending (s.uart.line ++ (s.uart.waiting ++ text).map sent) s :=
  ⟨⟨h.control (by simp), h.modem le_rfl, h.low (by simp), h.high (by simp), (h.fifo (by simp)).1⟩,
    text, rfl, .inl h.code⟩

theorem Sending.step (h : Sending all s) (e : PortEvent) : Sending all (s.step e) := by
  cases e with
  | device => exact h.device
  | cpu receiver => exact (h.cpu receiver).1

theorem Sending.line_le (h : Sending all s) : s.uart.line <+: all := by
  obtain ⟨text, hall, -⟩ := h.rest
  exact ⟨_, hall⟩

/-- All of it arrives. -/
theorem Sending.finishes (hfair : Fair PortEvent.party sched) (h : Sending all s) :
    ∃ n, (statesOf Session.step sched s n).uart.line = all := by
  -- the processor gets on unless it waits for the transmitter, or has nothing left to do
  let helpful (s : Session) : Party := if s.code = [] ∨ s.uart.held ≠ [] then .device else .cpu
  let Done (s : Session) : Prop := s.code = [] ∧ s.uart.waiting = []
  have hinv : ∀ s e, Sending all s → ¬ Done s → Sending all (s.step e) := fun s e hs _ => hs.step e
  have hother : ∀ s e, Sending all s → ¬ Done s → s.step e = s ∨ toDo (s.step e) < toDo s := by
    intro s e hs _
    cases e with
    | device => exact tick_toDo s
    | cpu receiver => exact (hs.cpu receiver).2.1
  have hcloser : ∀ s e, Sending all s → ¬ Done s → PortEvent.party e = helpful s →
      toDo (s.step e) < toDo s := by
    intro s e hs hd he
    by_cases hw : s.code = [] ∨ s.uart.held ≠ []
    · rw [show helpful s = .device from if_pos hw] at he
      cases e with
      | cpu receiver => cases he
      | device =>
        refine tick_busy fun hempty => ?_
        rcases hw with hcode | hheld
        · exact hd ⟨hcode, hempty⟩
        · exact hheld (List.append_eq_nil_iff.mp hempty).2
    · rw [show helpful s = .cpu from if_neg hw] at he
      cases e with
      | device => cases he
      | cpu receiver =>
        obtain ⟨-, hstep, hstuck⟩ := hs.cpu receiver
        exact hstep.resolve_left fun h => hw (hstuck h)
  obtain ⟨n, hn, hcode, hwait⟩ := hfair.eventually (Sending all) Done toDo helpful hinv hcloser
    hother h
  refine ⟨n, ?_⟩
  obtain ⟨text, hall, htext | ⟨c, text', -, htext, -⟩⟩ := hn.rest
  · rw [hcode] at htext
    cases text with
    | nil => simpa [hwait] using hall
    | cons c text' => cases htext
  · rw [hcode] at htext
    cases htext

end Runs

/-- **The serial line carries what `serial_printf` prints.** Whatever the firmware left in
the port and however the processor and the transmitter take turns, the line carries some
first bytes of what the firmware had under way, and then the text of the items, each byte
once and with the settings of `serial_init`: at every moment a first part of it, and in the
end all of it. -/
theorem serial_delivers (u : Uart) (items : List Item) {sched : Nat → PortEvent}
    (hfair : Fair PortEvent.party sched) :
    ∃ code old, serialPrintfOps (items.flatMap Item.text) (items.flatMap Item.args) = some code ∧
      old.map Frame.byte <+: u.waiting ∧
      (∀ n, (statesOf Session.step sched ⟨serialInit ++ code, u⟩ n).uart.line <+:
        u.line ++ old ++ (items.flatMap Item.expected).map sent) ∧
      ∃ n, ∀ m, n ≤ m → (statesOf Session.step sched ⟨serialInit ++ code, u⟩ m).uart.line =
        u.line ++ old ++ (items.flatMap Item.expected).map sent := by
  have hcode : serialPrintfOps (items.flatMap Item.text) (items.flatMap Item.args) =
      some (serialWrite (items.flatMap Item.expected)) :=
    congrArg (Option.map serialWrite) (scan_items serial_sends items)
  obtain ⟨n₀, hstart⟩ := started hfair u (items.flatMap Item.expected)
  let run := statesOf Session.step sched
    ⟨serialInit ++ serialWrite (items.flatMap Item.expected), u⟩
  obtain ⟨old, hline, hold⟩ := hstart.old
  let all := u.line ++ (old ++ (run n₀).uart.waiting.map sent) ++
    (items.flatMap Item.expected).map sent
  have hsending : Sending all (run n₀) := by
    have h := hstart.sending
    rw [hline, List.map_append, ← List.append_assoc, List.append_assoc u.line] at h
    exact h
  have hafter : ∀ k, Sending all (run (n₀ + k)) := fun k => by
    show Sending all (statesOf _ _ _ _)
    rw [statesOf_add]
    exact statesOf_invariant (fun s e hs => hs.step e) hsending k
  have hle : ∀ n, (run n).uart.line <+: all := by
    intro n
    rcases Nat.le_total n n₀ with h | h
    · have hgrow := line_prefix (run 0) sched n (n₀ - n)
      rw [show n + (n₀ - n) = n₀ by omega] at hgrow
      exact hgrow.trans (hafter 0).line_le
    · rw [show n = n₀ + (n - n₀) by omega]
      exact (hafter (n - n₀)).line_le
  obtain ⟨n₁, hn₁⟩ := hsending.finishes (hfair.shift n₀)
  refine ⟨_, old ++ (run n₀).uart.waiting.map sent, hcode, ?_, hle, n₀ + n₁, fun m hm => ?_⟩
  · have hsent : Frame.byte ∘ sent = id := rfl
    rwa [List.map_append, List.map_map, hsent, List.map_id]
  · refine (hle m).eq_of_length_le ?_
    have hgrow := line_prefix (run 0) sched (n₀ + n₁) (m - (n₀ + n₁))
    rw [show n₀ + n₁ + (m - (n₀ + n₁)) = m by omega, statesOf_add n₀ n₁] at hgrow
    rw [← hn₁]
    exact hgrow.length_le

/-- A port in the middle of being set up, with a byte to send. -/
def samplePort : Uart where
  interrupts := 0
  lineControl := 0x80
  modemControl := 0x10
  divisorLow := 1
  divisorHigh := 0
  fifo := false
  held := [0x41]
  shifting := none
  line := []

/-- The transmitter and the processor in turn. -/
def alternating (n : Nat) : PortEvent := if n % 2 = 0 then .device else .cpu 0

theorem alternating_fair : Fair PortEvent.party alternating := by
  intro k n
  cases k with
  | device =>
    refine ⟨2 * n, by omega, ?_⟩
    unfold alternating
    rw [if_pos (by omega)]
    rfl
  | cpu =>
    refine ⟨2 * n + 1, by omega, ?_⟩
    unfold alternating
    rw [if_neg (by omega)]
    rfl

/-- The theorem for a number, at such a port. -/
theorem serial_delivers_number : ∃ code old, serialPrintfOps [percent, charU] [.word 100] =
    some code ∧ old.map Frame.byte <+: [0x41] ∧ ∃ n, ∀ m, n ≤ m →
      (statesOf Session.step alternating ⟨serialInit ++ code, samplePort⟩ m).uart.line =
        old ++ (numeral 10 100).map sent := by
  obtain ⟨code, old, hcode, hold, -, hall⟩ :=
    serial_delivers samplePort [.uint 100] alternating_fair
  exact ⟨code, old, hcode, hold, by simpa [samplePort, Item.expected] using hall⟩

end TupleOS.Console
