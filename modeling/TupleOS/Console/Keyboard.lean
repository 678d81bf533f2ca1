import Mathlib.Algebra.Ring.Nat

/-!
# The keyboard (`kernel/keyboard.c`)

`keyboard_handler` gets one scancode at a time and keeps one flag for both shift keys.
A keyboard is modelled by its `Event`s: a key with a plain code sends one scancode, a key
with an extended code sends `0xE0` first. With some of the extended keys come the extended
codes of the shift keys (`fake`), to which no key belongs.

The flag says whether a shift key is down, after every scancode, exactly in the runs in
which no shift key is released while the other one is down, and a fake code comes only
when it says nothing new (`shift_tracked_iff`).
-/

namespace TupleOS.Console

/-! ## The handler -/

def leftShiftPressed : BitVec 8 := 0x2A
def leftShiftReleased : BitVec 8 := 0xAA
def rightShiftPressed : BitVec 8 := 0x36
def rightShiftReleased : BitVec 8 := 0xB6

/-- `scancode_to_ascii`; what is not listed is `0`. -/
def scancodeToAscii : List Char :=
  ['\x00', '\x00', '1', '2', '3', '4', '5', '6', '7', '8', '9', '0', '-', '=', '\x08', '\x09',
    'q', 'w', 'e', 'r', 't', 'y', 'u', 'i', 'o', 'p', '[', ']', '\x0a', '\x00',
    'a', 's', 'd', 'f', 'g', 'h', 'j', 'k', 'l', ';', '\x27', '\x60', '\x00', '\x5c',
    'z', 'x', 'c', 'v', 'b', 'n', 'm', ',', '.', '/', '\x00', '*', '\x00', ' ', '\x00',
    '\x00', '\x00', '\x00', '\x00', '\x00', '\x00', '\x00', '\x00', '\x00', '\x00', '\x00', '\x00',
    '7', '8', '9', '-', '4', '5', '6', '+', '1', '2', '3', '0', '.',
    '\x00', '\x00', '\x00', '\x00', '\x00']

def scancodeToAsciiShifted : List Char :=
  ['\x00', '\x00', '!', '@', '#', '$', '%', '^', '&', '*', '(', ')', '_', '+', '\x08', '\x09',
    'Q', 'W', 'E', 'R', 'T', 'Y', 'U', 'I', 'O', 'P', '\x7b', '\x7d', '\x0a', '\x00',
    'A', 'S', 'D', 'F', 'G', 'H', 'J', 'K', 'L', ':', '\x22', '~', '\x00', '|',
    'Z', 'X', 'C', 'V', 'B', 'N', 'M', '<', '>', '?', '\x00', '*', '\x00', ' ', '\x00',
    '\x00', '\x00', '\x00', '\x00', '\x00', '\x00', '\x00', '\x00', '\x00', '\x00', '\x00', '\x00',
    '7', '8', '9', '-', '4', '5', '6', '+', '1', '2', '3', '0', '.',
    '\x00', '\x00', '\x00', '\x00', '\x00']

/-- The character of a scancode in one of the tables. -/
def keyChar (shiftHeld : Bool) (scancode : BitVec 8) : BitVec 8 :=
  let table := if shiftHeld then scancodeToAsciiShifted else scancodeToAscii
  BitVec.ofNat 8 (table.getD scancode.toNat '\x00').toNat

/-- `keyboard_handler`: `shift_held` after it, and the character given to
`shell_handle_key`. -/
def keyboardHandler (scancode : BitVec 8) (shiftHeld : Bool) : Bool × Option (BitVec 8) :=
  if scancode = leftShiftPressed ∨ scancode = rightShiftPressed then (true, none)
  else if scancode = leftShiftReleased ∨ scancode = rightShiftReleased then (false, none)
  else if scancode &&& 0x80 ≠ 0 then (shiftHeld, none)
  else if scancode.toNat < 128 then
    (shiftHeld, if keyChar shiftHeld scancode ≠ 0 then some (keyChar shiftHeld scancode) else none)
  else (shiftHeld, none)

/-! ## The keyboard -/

/-- A key, by its code. `fake` are the extended codes of the shift keys. -/
inductive Key where
  | leftShift
  | rightShift
  | plain (code : BitVec 7) (h : code ≠ 0x2A ∧ code ≠ 0x36)
  | extended (code : BitVec 7) (h : code ≠ 0x2A ∧ code ≠ 0x36)
  | fake (right : Bool)

/-- A key goes down, or is repeated, or up. -/
structure Event where
  key : Key
  down : Bool

/-- The code of a key with its top bit. -/
def keyCode (code : BitVec 7) (down : Bool) : BitVec 8 := BitVec.cons (!down) code

/-- What the keyboard sends for an event. -/
def Event.scancodes (e : Event) : List (BitVec 8) :=
  match e.key with
  | .leftShift => [keyCode 0x2A e.down]
  | .rightShift => [keyCode 0x36 e.down]
  | .plain code _ => [keyCode code e.down]
  | .extended code _ => [0xE0, keyCode code e.down]
  | .fake right => [0xE0, keyCode (if right then 0x36 else 0x2A) e.down]

structure Shifts where
  left : Bool
  right : Bool
  deriving DecidableEq

namespace Shifts

def any (s : Shifts) : Bool := s.left || s.right

def after (s : Shifts) (e : Event) : Shifts :=
  match e.key with
  | .leftShift => { s with left := e.down }
  | .rightShift => { s with right := e.down }
  | _ => s

end Shifts

/-- The scancodes of a run, each with the shift keys that are down then. -/
def trace : Shifts → List Event → List (BitVec 8 × Shifts)
  | _, [] => []
  | s, e :: events => e.scancodes.map (·, s.after e) ++ trace (s.after e) events

/-- The flag is right after each scancode, and each character is from the table that
belongs to the shift keys. -/
def Tracked : Bool → List (BitVec 8 × Shifts) → Prop
  | _, [] => True
  | held, (code, s) :: rest =>
    (keyboardHandler code held).1 = s.any ∧
      (keyboardHandler code held).2 = (keyboardHandler code s.any).2 ∧
      Tracked (keyboardHandler code held).1 rest

/-- An event that the flag can follow, when `s` are down before it. -/
def Followed (s : Shifts) (e : Event) : Prop :=
  match e.key with
  | .leftShift => e.down = true ∨ s.right = false
  | .rightShift => e.down = true ∨ s.left = false
  | .fake _ => s.any = e.down
  | _ => True

def AllFollowed : Shifts → List Event → Prop
  | _, [] => True
  | s, e :: events => Followed s e ∧ AllFollowed (s.after e) events

/-! ## What the handler does with a scancode -/

section Codes

variable {code : BitVec 7} {s : Shifts} {rest : List (BitVec 8 × Shifts)}

theorem handler_shift (held down right : Bool) :
    keyboardHandler (keyCode (if right then 0x36 else 0x2A) down) held = (down, none) := by
  cases right <;> cases down <;> rfl

theorem keyCode_inj {code' : BitVec 7} {down down' : Bool}
    (h : keyCode code down = keyCode code' down') : code = code' := by
  have hlow := congrArg (BitVec.setWidth 7) h
  rwa [keyCode, keyCode, BitVec.setWidth_cons, BitVec.setWidth_cons] at hlow

theorem handler_other (h : code ≠ 0x2A ∧ code ≠ 0x36) (down held : Bool) :
    (keyboardHandler (keyCode code down) held).1 = held := by
  have hleft : ∀ d, keyCode code down ≠ keyCode 0x2A d := fun d heq => h.1 (keyCode_inj heq)
  have hright : ∀ d, keyCode code down ≠ keyCode 0x36 d := fun d heq => h.2 (keyCode_inj heq)
  have hpressed : ¬ (keyCode code down = leftShiftPressed ∨
      keyCode code down = rightShiftPressed) :=
    not_or.mpr ⟨hleft true, hright true⟩
  have hreleased :
      ¬ (keyCode code down = leftShiftReleased ∨ keyCode code down = rightShiftReleased) :=
    not_or.mpr ⟨hleft false, hright false⟩
  unfold keyboardHandler
  rw [if_neg hpressed, if_neg hreleased]
  split
  · rfl
  · split <;> rfl

theorem tracked_cons {held : Bool} {c : BitVec 8} : Tracked held ((c, s) :: rest) ↔
    (keyboardHandler c held).1 = s.any ∧ (keyboardHandler c held).2 = (keyboardHandler c s.any).2 ∧
      Tracked (keyboardHandler c held).1 rest := Iff.rfl

theorem tracked_shift {held : Bool} (down right : Bool) :
    Tracked held ((keyCode (if right then 0x36 else 0x2A) down, s) :: rest) ↔
      down = s.any ∧ Tracked s.any rest := by
  rw [tracked_cons, handler_shift, handler_shift]
  constructor
  · rintro ⟨hdown, -, hrest⟩
    exact ⟨hdown, hdown ▸ hrest⟩
  · rintro ⟨hdown, hrest⟩
    exact ⟨hdown, rfl, hdown ▸ hrest⟩

theorem tracked_other (h : code ≠ 0x2A ∧ code ≠ 0x36) (down : Bool) :
    Tracked s.any ((keyCode code down, s) :: rest) ↔ Tracked s.any rest := by
  rw [tracked_cons, handler_other h]
  exact ⟨fun h => h.2.2, fun h => ⟨rfl, rfl, h⟩⟩

theorem tracked_extended : Tracked s.any ((0xE0, s) :: rest) ↔ Tracked s.any rest :=
  ⟨fun h => h.2.2, fun h => ⟨rfl, rfl, h⟩⟩

end Codes

/-- **One event**: the flag is right after it exactly if it can follow the event. -/
theorem tracked_event (s : Shifts) (e : Event) (rest : List (BitVec 8 × Shifts)) :
    Tracked s.any (e.scancodes.map (·, s.after e) ++ rest) ↔
      Followed s e ∧ Tracked (s.after e).any rest := by
  obtain ⟨key, down⟩ := e
  cases key with
  | leftShift =>
    refine (tracked_shift down false).trans (and_congr_left fun _ => ?_)
    show down = (down || s.right) ↔ down = true ∨ s.right = false
    cases down <;> cases s.right <;> simp
  | rightShift =>
    refine (tracked_shift down true).trans (and_congr_left fun _ => ?_)
    show down = (s.left || down) ↔ down = true ∨ s.left = false
    cases down <;> cases s.left <;> simp
  | plain code h =>
    refine (tracked_other h down).trans ?_
    exact (iff_of_eq (true_and _)).symm
  | extended code h =>
    refine tracked_extended.trans ((tracked_other h down).trans ?_)
    exact (iff_of_eq (true_and _)).symm
  | fake right =>
    refine tracked_extended.trans ((tracked_shift down right).trans (and_congr_left fun _ => ?_))
    exact eq_comm

/-- **Shift tracking.** For every run of a keyboard, `shift_held` says after each scancode
whether a shift key is down, and each character is translated with the table for it, if
and only if no shift key goes up while the other one is down, and no extended shift code
comes that says otherwise than the keys. -/
theorem shift_tracked_iff (events : List Event) :
    Tracked false (trace ⟨false, false⟩ events) ↔ AllFollowed ⟨false, false⟩ events := by
  have hrun : ∀ s, Tracked s.any (trace s events) ↔ AllFollowed s events := by
    induction events with
    | nil => exact fun s => Iff.rfl
    | cons e events ih =>
      intro s
      rw [trace, tracked_event, ih]
      rfl
  exact hrun ⟨false, false⟩

/-- **Both shift keys**, and the left one goes up: `shift_held` is false with the right one
still down. The same happens when a fake code says that the only shift key went up. -/
theorem shift_lost :
    ¬ Tracked false (trace ⟨false, false⟩
      [⟨.leftShift, true⟩, ⟨.rightShift, true⟩, ⟨.leftShift, false⟩]) ∧
    ¬ Tracked false (trace ⟨false, false⟩ [⟨.leftShift, true⟩, ⟨.fake false, false⟩]) := by
  constructor
  · rintro ⟨-, -, -, -, hflag, -⟩
    exact Bool.false_ne_true hflag
  · rintro ⟨-, -, -, -, hflag, -⟩
    exact Bool.false_ne_true hflag

end TupleOS.Console
