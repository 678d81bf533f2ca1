import TupleOS.Console.Keyboard
import TupleOS.Console.Shell

/-!
# Sessions at the keyboard (`kernel/keyboard.c`, `kernel/shell.c`)

Scancodes come one interrupt after the other, and what the handler makes of them goes to
the shell. For the user this is a line editor that hands over a line at every newline
(`Editor`). Keyboard and shell refine it for every sequence of bytes that the keyboard may
send (`session_refines`), and every text can be typed (`typed_lines_run`).
-/

namespace TupleOS.Console

open TupleOS.Base

/-! ## The code -/

def shellInit (t : Terminal) : Option Terminal := do
  let t ← terminalWrite (chars "Welcome To The TupleOS Shell\n".toList) t
  let t ← terminalWrite (chars "Type \x27help\x27 for a list of commands\n".toList) t
  shellPrompt t

/-- `shift_held` and the shell, with what was run at each newline. -/
structure Desk where
  shiftHeld : Bool
  shell : Shell
  ran : List (Option Command)

/-- An interrupt of the keyboard: the scancode, and what `timer_get_ticks` returns. -/
def keyboardInterrupt (d : Desk) (e : BitVec 8 × BitVec 32) : Option Desk :=
  match keyboardHandler e.1 d.shiftHeld with
  | (held, none) => some { d with shiftHeld := held }
  | (held, some c) => do
    let (sh, cmd) ← shellHandleKey e.2 c d.shell
    some ⟨held, sh, if c = charNewline then d.ran ++ [cmd] else d.ran⟩

/-! ## What it is for -/

/-- A line, and the lines that were entered before it. -/
structure Editor where
  line : List (BitVec 8)
  entered : List (List (BitVec 8))

def Editor.key (e : Editor) (c : BitVec 8) : Editor :=
  if c = charNewline then ⟨[], e.entered ++ [e.line]⟩
  else if c = charBackspace then { e with line := e.line.dropLast }
  else if e.line.length < 255 then { e with line := e.line ++ [c] }
  else e

def commandNamed (line : List (BitVec 8)) : Option Command :=
  commands.find? fun cmd => cmd.name = line

/-- The characters that the handler makes of some scancodes. -/
def decode : Bool → List (BitVec 8) → List (BitVec 8)
  | _, [] => []
  | held, code :: codes =>
    (keyboardHandler code held).2.toList ++ decode (keyboardHandler code held).1 codes

/-- The prompt is on the screen, and the line after it. -/
def Shown (sh : Shell) : Prop := ∃ t k q, Prompted t ∧ EditedAt t sh k q

/-- The shell is where the editor is. -/
structure Follows (d : Desk) (e : Editor) : Prop where
  shown : Shown d.shell
  line : d.shell.line = e.line
  ran : d.ran = e.entered.map commandNamed

/-! ## A key -/

section Keys

variable {sh sh' : Shell} {d : Desk} {e : Editor} {c : BitVec 8} {ran : Option Command}

theorem commandNamed_eq (line : List (BitVec 8))
    (h : ∀ cmd, ran = some cmd ↔ cmd.name = line) : ran = commandNamed line := by
  unfold commandNamed
  cases hf : commands.find? fun cmd => decide (cmd.name = line) with
  | none =>
    cases hr : ran with
    | none => rfl
    | some cmd =>
      have hmem : cmd ∈ commands := by cases cmd <;> decide
      have := List.find?_eq_none.mp hf cmd hmem
      exact absurd ((h cmd).mp hr) (by simpa using this)
  | some cmd => exact (h cmd).mpr (by simpa using List.find?_some hf)

theorem finish_shown (hok : sh.term.Ok) (h : sh.finish = some sh') :
    Shown sh' ∧ sh'.line = [] := by
  obtain ⟨u, hu, hprompted⟩ := prompt_printed hok
  rw [Shell.finish, hu] at h
  obtain rfl := Option.some.inj h
  exact ⟨⟨u, 0, u.pos, hprompted, hprompted.edited _⟩, rfl⟩

theorem runCommands_shown (now : BitVec 32) (hok : sh.term.Ok) : ∀ cmds : List Command,
    runCommands now sh cmds = some (sh', ran) → Shown sh' ∧ sh'.line = []
  | [], h => by
    obtain ⟨u, hu, huok⟩ := write_ok hok (chars "Unknown command: ".toList)
    obtain ⟨v, hv, hvok⟩ := write_ok huok
      (((List.range maxCmdLength).map sh.cmdBuffer).takeWhile (· ≠ 0))
    obtain ⟨w, hw, hwok⟩ := putchar_ok hvok charNewline
    obtain ⟨s, hs⟩ := finish_some (s := { sh with term := w }) hwok
    rw [runCommands, hu] at h
    simp only [Option.bind_eq_bind, Option.bind_some, hv, hw, hs] at h
    obtain ⟨rfl, -⟩ := Prod.mk.inj (Option.some.inj h)
    exact finish_shown hwok hs
  | cmd :: cmds, h => by
    rw [runCommands, Option.bind_eq_bind] at h
    obtain ⟨r, -, h⟩ := Option.bind_eq_some_iff.mp h
    split at h
    · obtain ⟨u, hu, huok⟩ := fn_prints now cmd sh.term hok
      obtain ⟨s, hs⟩ := finish_some (s := { sh with term := u }) huok
      simp only [hu, Option.bind_eq_bind, Option.bind_some, hs] at h
      obtain ⟨rfl, -⟩ := Prod.mk.inj (Option.some.inj h)
      exact finish_shown huok hs
    · exact runCommands_shown now hok cmds h

theorem newline_shown (now : BitVec 32) (hok : sh.term.Ok)
    (h : shellHandleKey now charNewline sh = some (sh', ran)) : Shown sh' ∧ sh'.line = [] := by
  obtain ⟨u, hu, huok⟩ := putchar_ok hok charNewline
  unfold shellHandleKey shellExecute at h
  rw [if_pos rfl, hu] at h
  simp only [Option.bind_eq_bind, Option.bind_some] at h
  obtain ⟨s, hs, h⟩ := Option.bind_eq_some_iff.mp h
  unfold Shell.store at hs
  split at hs
  · obtain rfl := Option.some.inj hs
    exact runCommands_shown now huok commands h
  · cases hs

theorem line_dropLast (sh : Shell) (t : Terminal) :
    Shell.line { sh with term := t, cmdLength := sh.cmdLength - 1 } = sh.line.dropLast := by
  unfold Shell.line
  cases sh.cmdLength with
  | zero => rfl
  | succ n => rw [List.range_succ, List.map_append, List.map_singleton, List.dropLast_concat]; rfl

theorem line_store (sh : Shell) (t : Terminal) (c : BitVec 8) :
    Shell.line ⟨t, fun j => if j = sh.cmdLength then c else sh.cmdBuffer j, sh.cmdLength + 1⟩ =
      sh.line ++ [c] := by
  unfold Shell.line
  rw [List.range_succ, List.map_append, List.map_singleton]
  congr 1
  · apply List.map_congr_left
    intro j hj
    exact if_neg (Nat.ne_of_lt (List.mem_range.mp hj))
  · exact congrArg (fun b => [b]) (if_pos rfl)

/-- What a key does to the line. -/
theorem key_line (now : BitVec 32) (hn : c ≠ charNewline) (he : sh.line = e.line)
    (h : shellHandleKey now c sh = some (sh', ran)) : sh'.line = (e.key c).line := by
  have hlen : e.line.length = sh.cmdLength := by
    rw [← he, Shell.line, List.length_map, List.length_range]
  unfold shellHandleKey at h
  unfold Editor.key
  rw [if_neg hn] at h ⊢
  by_cases hb : c = charBackspace
  · rw [if_pos hb] at h ⊢
    split at h
    · obtain ⟨t, -, h⟩ := Option.bind_eq_some_iff.mp h
      obtain ⟨rfl, -⟩ := Prod.mk.inj (Option.some.inj h)
      exact (line_dropLast sh t).trans (congrArg _ he)
    · next hzero =>
      obtain ⟨rfl, -⟩ := Prod.mk.inj (Option.some.inj h)
      have hempty : e.line = [] := List.length_eq_zero_iff.mp (by omega)
      rw [he, hempty]
      rfl
  · rw [if_neg hb] at h ⊢
    have hroom : sh.cmdLength < maxCmdLength - 1 ↔ e.line.length < 255 := by rw [hlen]; rfl
    by_cases hfull : e.line.length < 255
    · rw [if_pos (hroom.mpr hfull)] at h
      rw [if_pos hfull]
      obtain ⟨s, hs, h⟩ := Option.bind_eq_some_iff.mp h
      obtain ⟨t, -, h⟩ := Option.bind_eq_some_iff.mp h
      obtain ⟨rfl, -⟩ := Prod.mk.inj (Option.some.inj h)
      unfold Shell.store at hs
      rw [if_pos (Nat.lt_of_lt_of_le (hroom.mpr hfull) (by decide))] at hs
      obtain rfl := Option.some.inj hs
      exact (line_store sh t c).trans (congrArg (· ++ [c]) he)
    · rw [if_neg (mt hroom.mp hfull)] at h
      rw [if_neg hfull]
      obtain ⟨rfl, -⟩ := Prod.mk.inj (Option.some.inj h)
      exact he

theorem handler_nonzero {code : BitVec 8} {held : Bool}
    (h : (keyboardHandler code held).2 = some c) : c ≠ 0 := by
  unfold keyboardHandler at h
  split at h
  · cases h
  · split at h
    · cases h
    · split at h
      · cases h
      · split at h
        · dsimp only at h
          split at h
          · obtain rfl := Option.some.inj h
            assumption
          · cases h
        · cases h

/-- **An interrupt**: keyboard and shell do what the editor does. -/
theorem Follows.interrupt (h : Follows d e) (ev : BitVec 8 × BitVec 32) :
    ∃ d', keyboardInterrupt d ev = some d' ∧
      d'.shiftHeld = (keyboardHandler ev.1 d.shiftHeld).1 ∧
      Follows d' ((keyboardHandler ev.1 d.shiftHeld).2.toList.foldl Editor.key e) := by
  obtain ⟨t, k, q, hprompted, hedit⟩ := h.shown
  unfold keyboardInterrupt
  rcases hkey : keyboardHandler ev.1 d.shiftHeld with ⟨held, ch⟩
  cases ch with
  | none => exact ⟨_, rfl, rfl, h.shown, h.line, h.ran⟩
  | some c =>
    by_cases hn : c = charNewline
    · subst hn
      obtain ⟨sh', ran, hsh', hran⟩ := hedit.newline ev.2
      obtain ⟨hshown, hline⟩ := newline_shown ev.2 hedit.ok hsh'
      refine ⟨⟨held, sh', d.ran ++ [ran]⟩, ?_, rfl, hshown, hline, ?_⟩
      · simp only [hsh', Option.bind_eq_bind, Option.bind_some, if_true]
      · show d.ran ++ [ran] = (e.entered ++ [e.line]).map commandNamed
        rw [List.map_append, h.ran, commandNamed_eq d.shell.line hran, h.line]
        rfl
    · have h0 := handler_nonzero (c := c) (congrArg Prod.snd hkey)
      obtain ⟨sh', k', q', hsh', hedit'⟩ := hedit.key ev.2 h0 hn
      refine ⟨⟨held, sh', d.ran⟩, ?_, rfl, ⟨t, k', q', hprompted, hedit'⟩,
        key_line ev.2 hn h.line hsh', ?_⟩
      · simp only [hsh', Option.bind_eq_bind, Option.bind_some, if_neg hn]
      · rw [h.ran]
        show e.entered.map _ = (e.key c).entered.map _
        unfold Editor.key
        rw [if_neg hn]
        split
        · rfl
        · split <;> rfl

theorem Follows.interrupts (h : Follows d e) (codes : List (BitVec 8 × BitVec 32)) :
    ∃ d', codes.foldlM keyboardInterrupt d = some d' ∧
      Follows d' ((decode d.shiftHeld (codes.map Prod.fst)).foldl Editor.key e) := by
  induction codes generalizing d e with
  | nil => exact ⟨d, rfl, h⟩
  | cons ev codes ih =>
    obtain ⟨d₁, hd₁, hheld, h₁⟩ := h.interrupt ev
    obtain ⟨d', hd', h'⟩ := ih h₁
    refine ⟨d', by rw [List.foldlM_cons, hd₁]; exact hd', ?_⟩
    rw [List.map_cons, decode, List.foldl_append, ← hheld]
    exact h'

end Keys

theorem init_follows {t₀ : Terminal} (h₀ : t₀.Ok) (buffer : Nat → BitVec 8) :
    ∃ t, shellInit t₀ = some t ∧ Follows ⟨false, ⟨t, buffer, 0⟩, []⟩ ⟨[], []⟩ := by
  obtain ⟨u, hu, huok⟩ := write_ok h₀ (chars "Welcome To The TupleOS Shell\n".toList)
  obtain ⟨v, hv, hvok⟩ := write_ok huok
    (chars "Type \x27help\x27 for a list of commands\n".toList)
  obtain ⟨t, ht, hprompted⟩ := prompt_printed hvok
  refine ⟨t, ?_, ⟨t, 0, t.pos, hprompted, hprompted.edited buffer⟩, rfl, rfl⟩
  unfold shellInit
  simp only [hu, hv, ht, Option.bind_eq_bind, Option.bind_some]

/-- **Keyboard and shell are a line editor.** From any screen, and for all bytes that the
keyboard may send at any times: nothing is written outside the buffer or the screen, the
line in the buffer is the editor's, it stands on the screen after the prompt, and each
line that was entered ran the command of that name, or none if there is none. -/
theorem session_refines (t₀ : Terminal) (h₀ : t₀.row < 25 ∧ t₀.column < 80)
    (buffer : Nat → BitVec 8) (codes : List (BitVec 8 × BitVec 32)) :
    ∃ t d, shellInit t₀ = some t ∧
      codes.foldlM keyboardInterrupt ⟨false, ⟨t, buffer, 0⟩, []⟩ = some d ∧ Shown d.shell ∧
      d.shell.line = ((decode false (codes.map Prod.fst)).foldl Editor.key ⟨[], []⟩).line ∧
      d.ran = ((decode false (codes.map Prod.fst)).foldl Editor.key ⟨[], []⟩).entered.map
        commandNamed := by
  obtain ⟨t, ht, hfollows⟩ := init_follows ⟨h₀.1, h₀.2⟩ buffer
  obtain ⟨d, hd, hshown, hline, hran⟩ := hfollows.interrupts codes
  exact ⟨t, d, ht, hd, hshown, hline, hran⟩

/-- The theorem for keys that spell `help`, with a mistake and stray bytes between them. -/
theorem session_refines_help : ∃ t d, shellInit lastCell = some t ∧
    ([0x23, 0xA3, 0xE0, 0x12, 0x26, 0x26, 0x0E, 0xFF, 0x19, 0x1C].map
      fun code => ((code : BitVec 8), (7 : BitVec 32))).foldlM keyboardInterrupt
      ⟨false, ⟨t, fun _ => 0, 0⟩, []⟩ = some d ∧ d.shell.line = [] ∧ d.ran = [some .help] := by
  obtain ⟨t, d, ht, hd, -, hline, hran⟩ := session_refines lastCell ⟨by decide, by decide⟩
    (fun _ => 0) ([0x23, 0xA3, 0xE0, 0x12, 0x26, 0x26, 0x0E, 0xFF, 0x19, 0x1C].map
      fun code => ((code : BitVec 8), (7 : BitVec 32)))
  exact ⟨t, d, ht, hd, hline, hran.trans (by decide)⟩

/-! ## Typing a text -/

/-- The characters with a key of their own, and newline. -/
def Typable (c : BitVec 8) : Prop := 0x20 ≤ c.toNat ∧ c.toNat < 0x7F ∨ c = charNewline

instance (c : BitVec 8) : Decidable (Typable c) := inferInstanceAs (Decidable (_ ∨ _))

/-- The place of a character in a table. -/
def codeIn (table : List Char) (c : BitVec 8) : Nat :=
  table.findIdx fun ch => BitVec.ofNat 8 ch.toNat = c

def stroke (code : Nat) : List (BitVec 8) := [BitVec.ofNat 8 code, BitVec.ofNat 8 (code + 0x80)]

/-- What the keyboard sends when a character is typed, with the left shift key if it takes one. -/
def keystrokes (c : BitVec 8) : List (BitVec 8) :=
  if codeIn scancodeToAscii c < scancodeToAscii.length then stroke (codeIn scancodeToAscii c)
  else [leftShiftPressed] ++ stroke (codeIn scancodeToAsciiShifted c) ++ [leftShiftReleased]

def heldAfter (held : Bool) (codes : List (BitVec 8)) : Bool :=
  codes.foldl (fun held code => (keyboardHandler code held).1) held

theorem decode_append (held : Bool) (a b : List (BitVec 8)) :
    decode held (a ++ b) = decode held a ++ decode (heldAfter held a) b := by
  induction a generalizing held with
  | nil => rfl
  | cons code a ih =>
    rw [List.cons_append, decode, decode, ih, List.append_assoc]
    rfl

/-- **Every printable character can be typed**, and the shift key is up again. -/
theorem keystrokes_typed : ∀ c : BitVec 8, Typable c →
    decode false (keystrokes c) = [c] ∧ heldAfter false (keystrokes c) = false := by
  decide +kernel

theorem decode_keystrokes {text : List (BitVec 8)} (h : ∀ c ∈ text, Typable c) :
    decode false (text.flatMap keystrokes) = text := by
  induction text with
  | nil => rfl
  | cons c text ih =>
    obtain ⟨hc, hheld⟩ := keystrokes_typed c (h c (List.mem_cons_self ..))
    rw [List.flatMap_cons, decode_append, hc, hheld,
      ih fun c' hc' => h c' (List.mem_cons_of_mem _ hc')]
    rfl

def Enterable (line : List (BitVec 8)) : Prop :=
  line.length ≤ 255 ∧ ∀ c ∈ line, 0x20 ≤ c.toNat ∧ c.toNat < 0x7F

theorem edit_line {line : List (BitVec 8)} (h : Enterable line) (e : Editor) (he : e.line = []) :
    line.foldl Editor.key e = ⟨line, e.entered⟩ := by
  -- on the line from its end, so that the editor holds what was typed so far
  induction line using List.reverseRecOn with
  | nil =>
    show e = ⟨[], e.entered⟩
    rw [← he]
  | append_singleton l c ih =>
    have hl : Enterable l := ⟨by have := h.1; rw [List.length_append] at this; omega,
      fun c' hc' => h.2 c' (List.mem_append_left _ hc')⟩
    have hc := h.2 c (List.mem_append_right _ (List.mem_singleton_self c))
    have hnewline : c ≠ charNewline := by rintro rfl; exact absurd hc.1 (by decide)
    have hback : c ≠ charBackspace := by rintro rfl; exact absurd hc.1 (by decide)
    have hroom : l.length < 255 := by
      have := h.1
      rw [List.length_append, List.length_singleton] at this
      omega
    rw [List.foldl_append, ih hl]
    show Editor.key _ c = _
    unfold Editor.key
    rw [if_neg hnewline, if_neg hback, if_pos hroom]

theorem edit_lines {lines : List (List (BitVec 8))} (h : ∀ l ∈ lines, Enterable l) (e : Editor)
    (he : e.line = []) :
    (lines.flatMap (· ++ [charNewline])).foldl Editor.key e = ⟨[], e.entered ++ lines⟩ := by
  induction lines generalizing e with
  | nil =>
    show e = ⟨[], e.entered ++ []⟩
    rw [← he, List.append_nil]
  | cons l lines ih =>
    rw [List.flatMap_cons, List.foldl_append, List.foldl_append,
      edit_line (h l (List.mem_cons_self ..)) e he]
    show List.foldl Editor.key (⟨[], e.entered ++ [l]⟩ : Editor) _ = _
    rw [ih (fun l' hl' => h l' (List.mem_cons_of_mem _ hl')) _ rfl, List.append_assoc]
    rfl

/-- **Every session can be typed**: pressing and releasing the keys of some lines, with the
shift key where it is needed and at any times, runs the commands that they name, one after
the other. -/
theorem typed_lines_run (t₀ : Terminal) (h₀ : t₀.row < 25 ∧ t₀.column < 80)
    (buffer : Nat → BitVec 8) (lines : List (List (BitVec 8))) (hlines : ∀ l ∈ lines, Enterable l)
    (codes : List (BitVec 8 × BitVec 32))
    (hcodes : codes.map Prod.fst = (lines.flatMap (· ++ [charNewline])).flatMap keystrokes) :
    ∃ t d, shellInit t₀ = some t ∧
      codes.foldlM keyboardInterrupt ⟨false, ⟨t, buffer, 0⟩, []⟩ = some d ∧
      d.ran = lines.map commandNamed ∧ d.shell.line = [] := by
  have htypable : ∀ c ∈ lines.flatMap (· ++ [charNewline]), Typable c := by
    intro c hc
    obtain ⟨l, hl, hc⟩ := List.mem_flatMap.mp hc
    rcases List.mem_append.mp hc with hc | hc
    · exact .inl ((hlines l hl).2 c hc)
    · exact .inr (List.mem_singleton.mp hc)
  obtain ⟨t, ht, hfollows⟩ := init_follows ⟨h₀.1, h₀.2⟩ buffer
  obtain ⟨d, hd, -, hline, hran⟩ := hfollows.interrupts codes
  rw [hcodes, decode_keystrokes htypable, edit_lines hlines _ rfl] at hline hran
  exact ⟨t, d, ht, hd, hran, hline⟩

/-- The theorem for two lines, the second with a capital letter. -/
theorem typed_lines_run_two : ∃ t d, shellInit lastCell = some t ∧
    (([chars ['t', 'i', 'c', 'k', 's'], chars ['H', 'i']].flatMap (· ++ [charNewline])).flatMap
      keystrokes |>.map fun code => (code, (7 : BitVec 32))).foldlM keyboardInterrupt
      ⟨false, ⟨t, fun _ => 0, 0⟩, []⟩ = some d ∧ d.ran = [some .ticks, none] ∧
    d.shell.line = [] := by
  obtain ⟨t, d, ht, hd, hran, hline⟩ := typed_lines_run lastCell ⟨by decide, by decide⟩
    (fun _ => 0) [chars ['t', 'i', 'c', 'k', 's'], chars ['H', 'i']]
    (by unfold Enterable; decide)
    (([chars ['t', 'i', 'c', 'k', 's'], chars ['H', 'i']].flatMap (· ++ [charNewline])).flatMap
      keystrokes |>.map fun code => (code, (7 : BitVec 32)))
    (by rw [List.map_map]; exact List.map_id' _)
  exact ⟨t, d, ht, hd, hran.trans (by decide), hline⟩

end TupleOS.Console
