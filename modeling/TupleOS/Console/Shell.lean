import TupleOS.Console.Page
import TupleOS.Console.Printf

/-!
# The shell (`kernel/shell.c`)

`shell_handle_key` keeps the line that is typed in `cmd_buffer`, and puts the same
characters on the screen. `EditedAt` says that the two agree: the prompt and everything
before it is where it was, or some rows higher; after it come the characters of the buffer,
and then the cursor. Every key keeps this (`EditedAt.key`), so what is executed at a
newline is what the screen shows (`shell_shows_command`).
-/

namespace TupleOS.Console

open TupleOS.Base

/-! ## The code -/

def chars (l : List Char) : List (BitVec 8) := l.map fun c => BitVec.ofNat 8 c.toNat

def maxCmdLength : Nat := 256

structure Shell where
  term : Terminal
  cmdBuffer : Nat → BitVec 8
  cmdLength : Nat

/-- `cmd_buffer[i] = c`; `none` outside the buffer. -/
def Shell.store (i : Nat) (c : BitVec 8) (sh : Shell) : Option Shell :=
  if i < maxCmdLength then
    some { sh with cmdBuffer := fun j => if j = i then c else sh.cmdBuffer j }
  else none

/-- `strcmp` from character `i` on; `none` when it would read `s1` after so many. -/
def strcmpFrom (s1 s2 : Nat → BitVec 8) : Nat → Nat → Option Int
  | 0, _ => none
  | n + 1, i =>
    if s1 i ≠ 0 ∧ s1 i = s2 i then strcmpFrom s1 s2 n (i + 1)
    else some ((s1 i).toNat - (s2 i).toNat)

def strcmp (s1 s2 : Nat → BitVec 8) : Option Int := strcmpFrom s1 s2 maxCmdLength 0

/-- A string of the source as memory. -/
def cString (l : List (BitVec 8)) (i : Nat) : BitVec 8 := l.getD i 0

def shellPrompt (t : Terminal) : Option Terminal := terminalWrite (chars ['>', ' ']) t

inductive Command where
  | help
  | clear
  | about
  | ticks
  deriving DecidableEq

def Command.name : Command → List (BitVec 8)
  | help => chars ['h', 'e', 'l', 'p']
  | clear => chars ['c', 'l', 'e', 'a', 'r']
  | about => chars ['a', 'b', 'o', 'u', 't']
  | ticks => chars ['t', 'i', 'c', 'k', 's']

def cmdHelp (t : Terminal) : Option Terminal := do
  let t ← terminalWrite (chars "Available commands:\n".toList) t
  let t ← terminalWrite (chars "help - Show this message\n".toList) t
  let t ← terminalWrite (chars "clear - Clear the screen\n".toList) t
  let t ← terminalWrite (chars "ticks - Show number of timer ticks since boot\n".toList) t
  terminalWrite (chars "about - About TupleOS\n".toList) t

def cmdAbout (t : Terminal) : Option Terminal := do
  let t ← terminalWrite (chars "TupleOS v0.1\n".toList) t
  let t ← terminalWrite (chars "A simple hobby OS written in C\n".toList) t
  terminalWrite (chars "Created by Aaron Grant and Val Petrov\n".toList) t

/-- `cmd_ticks`, with the `print_uint` of this file. -/
def cmdTicks (now : BitVec 32) (t : Terminal) : Option Terminal := do
  let t ← terminalWrite (chars "Ticks since boot: ".toList) t
  let digits ← printNumber 10 decDigit 12 now.toNat
  let t ← terminalWrite digits t
  terminalPutchar charNewline t

/-- The functions in `commands`, when `timer_get_ticks` is `now`; `cmd_clear` is
`terminal_initialize`. -/
def Command.fn (now : BitVec 32) : Command → Terminal → Option Terminal
  | help => cmdHelp
  | clear => terminalInitialize
  | about => cmdAbout
  | ticks => cmdTicks now

def commands : List Command := [.help, .clear, .about, .ticks]

def Shell.finish (sh : Shell) : Option Shell := do
  let t ← shellPrompt sh.term
  some { sh with term := t, cmdLength := 0 }

/-- The loop of `shell_execute`, and what follows it; the command that was run comes with
the result. -/
def runCommands (now : BitVec 32) (sh : Shell) : List Command → Option (Shell × Option Command)
  | [] => do
    let t ← terminalWrite (chars "Unknown command: ".toList) sh.term
    let t ← terminalWrite (((List.range maxCmdLength).map sh.cmdBuffer).takeWhile (· ≠ 0)) t
    let t ← terminalPutchar charNewline t
    let sh ← { sh with term := t }.finish
    some (sh, none)
  | cmd :: cmds => do
    let r ← strcmp sh.cmdBuffer (cString cmd.name)
    if r = 0 then do
      let t ← cmd.fn now sh.term
      let sh ← { sh with term := t }.finish
      some (sh, some cmd)
    else runCommands now sh cmds

def shellExecute (now : BitVec 32) (sh : Shell) : Option (Shell × Option Command) := do
  let sh ← sh.store sh.cmdLength 0
  runCommands now sh commands

/-- `shell_handle_key`, with the command that it ran. -/
def shellHandleKey (now : BitVec 32) (c : BitVec 8) (sh : Shell) :
    Option (Shell × Option Command) :=
  if c = charNewline then do
    let t ← terminalPutchar charNewline sh.term
    shellExecute now { sh with term := t }
  else if c = charBackspace then
    if 0 < sh.cmdLength then do
      let t ← terminalPutchar charBackspace sh.term
      some ({ sh with term := t, cmdLength := sh.cmdLength - 1 }, none)
    else some (sh, none)
  else if sh.cmdLength < maxCmdLength - 1 then do
    let sh ← sh.store sh.cmdLength c
    let t ← terminalPutchar c sh.term
    some ({ sh with term := t, cmdLength := sh.cmdLength + 1 }, none)
  else some (sh, none)

def shellKeys (now : BitVec 32) (keys : List (BitVec 8)) (sh : Shell) : Option Shell :=
  keys.foldlM (fun sh c => (shellHandleKey now c sh).map Prod.fst) sh

def Shell.line (sh : Shell) : List (BitVec 8) := (List.range sh.cmdLength).map sh.cmdBuffer

/-! ## Buffer and screen -/

/-- The screen and the buffer after some keys, since the prompt was printed with the
result `t`: it is `k` rows higher now, and ends before position `q`. -/
structure EditedAt (t : Terminal) (sh : Shell) (k q : Nat) : Prop where
  ok : sh.term.Ok
  length : sh.cmdLength ≤ 255
  nonzero : ∀ i < sh.cmdLength, sh.cmdBuffer i ≠ 0
  prompt : q + 80 * k = t.pos
  room : 2 ≤ q
  cursor : sh.term.pos = q + sh.cmdLength
  before : ∀ j < q, sh.term.buffer j = t.buffer (j + 80 * k)
  typed : ∀ i < sh.cmdLength, cellChar (sh.term.buffer (q + i)) = sh.cmdBuffer i

/-- The prompt is on the screen, and the cursor after it. -/
structure Prompted (t : Terminal) : Prop where
  ok : t.Ok
  room : 2 ≤ t.pos
  sign : cellChar (t.buffer (t.pos - 2)) = BitVec.ofNat 8 '>'.toNat
  blank : cellChar (t.buffer (t.pos - 1)) = charSpace

section Keys

variable {t : Terminal} {sh : Shell} {c : BitVec 8} {k q : Nat}

theorem write_cons (c : BitVec 8) (data : List (BitVec 8)) (t : Terminal) :
    terminalWrite (c :: data) t = (terminalPutchar c t).bind (terminalWrite data) :=
  List.foldlM_cons

theorem put_cell (t : Terminal) (c : BitVec 8) : cellChar ((t.put c).buffer t.pos) = c := by
  show cellChar (if _ then _ else _) = _
  rw [if_pos rfl, cellChar_vgaEntry]

theorem put_other {j : Nat} (h : j ≠ t.pos) : (t.put c).buffer j = t.buffer j := if_neg h

/-- **`shell_prompt`** prints its two characters at any position. -/
theorem prompt_printed (h : t.Ok) : ∃ u, shellPrompt t = some u ∧ Prompted u := by
  obtain ⟨u, k, hu, huok, hupos, huk, hubuf⟩ := putchar_print (c := BitVec.ofNat 8 '>'.toNat) h
    (by decide) (by decide)
  obtain ⟨v, l, hv, hvok, hvpos, hvl, hvbuf⟩ := putchar_print (c := charSpace) huok
    (by decide) (by decide)
  refine ⟨v, ?_, hvok, by omega, ?_, ?_⟩
  · show terminalWrite [BitVec.ofNat 8 '>'.toNat, charSpace] t = _
    rw [write_cons, hu, Option.bind_some, write_cons, hv]
    rfl
  · have hat : v.pos - 2 + 80 * l = u.pos - 1 := by omega
    have hfirst : u.pos - 1 + 80 * k = t.pos := by omega
    rw [hvbuf _ (by omega), hat, put_other (by omega), hubuf _ (by omega), hfirst, put_cell]
  · have hat : v.pos - 1 + 80 * l = u.pos := by omega
    rw [hvbuf _ (by omega), hat, put_cell]

theorem Prompted.edited (h : Prompted t) (buffer : Nat → BitVec 8) :
    EditedAt t ⟨t, buffer, 0⟩ 0 t.pos where
  ok := h.ok
  length := Nat.zero_le _
  nonzero := fun i hi => absurd hi (Nat.not_lt_zero i)
  prompt := rfl
  room := h.room
  cursor := rfl
  before := fun _ _ => rfl
  typed := fun i hi => absurd hi (Nat.not_lt_zero i)

/-- **A backspace** takes the last character from the buffer and from the screen. -/
theorem EditedAt.backspace (now : BitVec 32) (h : EditedAt t sh k q) :
    ∃ sh', shellHandleKey now charBackspace sh = some (sh', none) ∧ EditedAt t sh' k q := by
  have hcursor := h.cursor
  have hlength := h.length
  unfold shellHandleKey
  rw [if_neg (by decide), if_pos rfl]
  by_cases hpos : 0 < sh.cmdLength
  · obtain ⟨hok, hback, hbuffer, -⟩ := stepBack_ok h.ok
    rw [if_pos hpos, putchar_backspace h.ok]
    refine ⟨_, rfl, ⟨hok.row, hok.column⟩, ?_, fun i hi => h.nonzero i ?_, h.prompt, h.room, ?_,
      fun j hj => ?_, fun i hi => ?_⟩
    · show sh.cmdLength - 1 ≤ 255
      omega
    · exact Nat.lt_of_lt_of_le hi (Nat.sub_le _ 1)
    · show (stepBack sh.term).pos = q + (sh.cmdLength - 1)
      omega
    · show ((stepBack sh.term).put charSpace).buffer j = _
      rw [put_other (by omega), hbuffer]
      exact h.before j hj
    · have hi' : i < sh.cmdLength - 1 := hi
      show cellChar (((stepBack sh.term).put charSpace).buffer (q + i)) = _
      rw [put_other (by omega), hbuffer]
      exact h.typed i (by omega)
  · rw [if_neg hpos]
    exact ⟨sh, rfl, h⟩

/-- **A character** is added to both, or to neither. -/
theorem EditedAt.char (now : BitVec 32) (h : EditedAt t sh k q) (h0 : c ≠ 0)
    (hb : c ≠ charBackspace) (hn : c ≠ charNewline) :
    ∃ sh' k' q', shellHandleKey now c sh = some (sh', none) ∧ EditedAt t sh' k' q' := by
  have hcursor := h.cursor
  have hprompt := h.prompt
  have hroom := h.room
  unfold shellHandleKey
  rw [if_neg hn, if_neg hb]
  by_cases hfull : sh.cmdLength < maxCmdLength - 1
  · have hlt : sh.cmdLength < 255 := hfull
    obtain ⟨u, l, hu, huok, hupos, hul, hubuf⟩ := putchar_print h.ok hb hn
    have hstore : sh.store sh.cmdLength c = some { sh with
        cmdBuffer := fun j => if j = sh.cmdLength then c else sh.cmdBuffer j } :=
      if_pos (Nat.lt_of_lt_of_le hlt (by decide))
    rw [if_pos hfull, hstore, Option.bind_eq_bind, Option.bind_some, hu]
    -- the prompt is `l` rows higher than before
    refine ⟨_, k + l, q - 80 * l, rfl, huok, hlt, fun i hi => ?_, by omega, by omega, ?_,
      fun j hj => ?_, fun i hi => ?_⟩
    · show (if i = sh.cmdLength then c else sh.cmdBuffer i) ≠ 0
      split
      · exact h0
      · exact h.nonzero i (by have : i < sh.cmdLength + 1 := hi; omega)
    · show u.pos = q - 80 * l + (sh.cmdLength + 1)
      omega
    · show u.buffer j = _
      rw [hubuf j (by omega), put_other (by omega), h.before _ (by omega)]
      congr 1
      omega
    · have hi' : i < sh.cmdLength + 1 := hi
      have hat : q - 80 * l + i + 80 * l = q + i := by omega
      show cellChar (u.buffer (q - 80 * l + i)) = if i = sh.cmdLength then c else sh.cmdBuffer i
      rw [hubuf _ (by omega), hat]
      by_cases hlast : i = sh.cmdLength
      · rw [if_pos hlast, hlast, ← hcursor, put_cell]
      · rw [if_neg hlast, put_other (by omega)]
        exact h.typed i (by omega)
  · rw [if_neg hfull]
    exact ⟨sh, k, q, rfl, h⟩

/-- **Any key but a newline.** -/
theorem EditedAt.key (now : BitVec 32) (h : EditedAt t sh k q) (h0 : c ≠ 0) (hn : c ≠ charNewline) :
    ∃ sh' k' q', shellHandleKey now c sh = some (sh', none) ∧ EditedAt t sh' k' q' := by
  by_cases hb : c = charBackspace
  · subst hb
    obtain ⟨sh', hkey, hedit⟩ := h.backspace now
    exact ⟨sh', k, q, hkey, hedit⟩
  · exact h.char now h0 hb hn

/-! ## The command -/

def HoldsFrom (s : Nat → BitVec 8) : Nat → List (BitVec 8) → Prop
  | i, [] => s i = 0
  | i, c :: l => s i = c ∧ c ≠ 0 ∧ HoldsFrom s (i + 1) l

theorem toNat_sub_eq_zero (x y : BitVec 8) : (x.toNat : Int) - y.toNat = 0 ↔ x = y := by
  constructor
  · intro h
    exact BitVec.eq_of_toNat_eq (by omega)
  · rintro rfl
    omega

/-- **`strcmp`** is zero exactly for equal strings. -/
theorem strcmpFrom_spec {s1 s2 : Nat → BitVec 8} {a : List (BitVec 8)} : ∀ {b : List (BitVec 8)}
    {n i : Nat}, HoldsFrom s1 i a → HoldsFrom s2 i b → a.length < n →
    ∃ r, strcmpFrom s1 s2 n i = some r ∧ (r = 0 ↔ a = b) := by
  induction a with
  | nil =>
    rintro b (_ | n) i h1 h2 hn
    · omega
    refine ⟨_, if_neg fun h => h.1 h1, ?_⟩
    rw [toNat_sub_eq_zero, h1]
    cases b with
    | nil => simp only [h2.symm]
    | cons d b =>
      rw [h2.1]
      simp only [h2.2.1.symm, reduceCtorEq]
  | cons c a ih =>
    rintro b (_ | n) i ⟨h1, hc, hrest⟩ h2 hn
    · omega
    rw [strcmpFrom, h1]
    by_cases heq : c = s2 i
    · rw [if_pos ⟨hc, heq⟩]
      cases b with
      | nil => exact absurd (heq.trans h2) hc
      | cons d b =>
        obtain ⟨hd, -, hrest'⟩ := h2
        obtain ⟨r, hr, hiff⟩ := ih hrest hrest' (Nat.lt_of_succ_lt_succ hn)
        refine ⟨r, hr, hiff.trans ?_⟩
        rw [List.cons.injEq, and_iff_right (heq.trans hd)]
    · rw [if_neg fun h => heq h.2]
      refine ⟨_, rfl, ?_⟩
      rw [toNat_sub_eq_zero]
      cases b with
      | nil => simp only [heq, reduceCtorEq]
      | cons d b =>
        rw [List.cons.injEq, ← h2.1]
        simp only [heq, false_and]

theorem holdsFrom_range {s : Nat → BitVec 8} : ∀ {n i : Nat}, (∀ j < n, s (i + j) ≠ 0) →
    s (i + n) = 0 → HoldsFrom s i ((List.range n).map fun j => s (i + j))
  | 0, _, _, h => h
  | n + 1, i, hne, h => by
    rw [List.range_succ_eq_map, List.map_cons, List.map_map]
    have hshift : ∀ j, i + (j + 1) = i + 1 + j := fun j => by omega
    have htail : HoldsFrom s (i + 1) ((List.range n).map fun j => s (i + 1 + j)) := by
      apply holdsFrom_range
      · intro j hj
        rw [← hshift]
        exact hne (j + 1) (by omega)
      · rw [← hshift]
        exact h
    have hmap : (List.range n).map ((fun j => s (i + j)) ∘ Nat.succ) =
        (List.range n).map fun j => s (i + 1 + j) :=
      List.map_congr_left fun j _ => congrArg s (hshift j)
    rw [hmap]
    exact ⟨rfl, hne 0 (by omega), htail⟩

theorem holdsFrom_cString : ∀ (l p : List (BitVec 8)), (∀ c ∈ l, c ≠ 0) →
    HoldsFrom (cString (p ++ l)) p.length l
  | [], p, _ => by
    show (p ++ []).getD p.length 0 = 0
    rw [List.append_nil, List.getD_eq_default _ _ (Nat.le_refl _)]
  | c :: l, p, h => by
    refine ⟨?_, h c (List.mem_cons_self ..), ?_⟩
    · show (p ++ c :: l).getD p.length 0 = c
      rw [List.getD_append_right _ _ _ _ (Nat.le_refl _), Nat.sub_self]
      rfl
    · have htail := holdsFrom_cString l (p ++ [c]) fun d hd => h d (List.mem_cons_of_mem c hd)
      rwa [List.append_assoc, List.length_append] at htail

theorem Command.name_injective : Function.Injective Command.name := by
  intro a b h
  cases a <;> cases b <;> first | rfl | exact absurd h (by decide)

theorem Command.name_ne_zero (cmd : Command) : ∀ c ∈ cmd.name, c ≠ 0 := by
  cases cmd <;> simp [Command.name, chars]

/-- A function that prints, from any position, and returns. -/
def Prints (f : Terminal → Option Terminal) : Prop :=
  ∀ t : Terminal, t.Ok → ∃ u, f t = some u ∧ u.Ok

theorem Prints.bind {f g : Terminal → Option Terminal} (hf : Prints f) (hg : Prints g) :
    Prints fun t => (f t).bind g := by
  intro t ht
  obtain ⟨u, hu, huok⟩ := hf t ht
  obtain ⟨v, hv, hvok⟩ := hg u huok
  refine ⟨v, ?_, hvok⟩
  show (f t).bind g = _
  rw [hu, Option.bind_some, hv]

theorem write_prints (data : List (BitVec 8)) : Prints (terminalWrite data) := fun _ h =>
  write_ok h data

theorem initialize_prints : Prints terminalInitialize := fun t _ => by
  obtain ⟨u, hu, hwritten⟩ := initialize_written t
  exact ⟨u, hu, hwritten.ok⟩

theorem ticks_prints (now : BitVec 32) : Prints (cmdTicks now) := by
  have hdigits : printNumber 10 decDigit 12 now.toNat = some _ := printUint_numeral now
  unfold cmdTicks
  rw [hdigits]
  exact (write_prints _).bind ((write_prints _).bind fun _ h => putchar_ok h charNewline)

theorem fn_prints (now : BitVec 32) (cmd : Command) : Prints (cmd.fn now) := by
  cases cmd with
  | help =>
    exact (write_prints _).bind ((write_prints _).bind ((write_prints _).bind
      ((write_prints _).bind (write_prints _))))
  | clear => exact initialize_prints
  | about => exact (write_prints _).bind ((write_prints _).bind (write_prints _))
  | ticks => exact ticks_prints now

theorem finish_some {s : Shell} (h : s.term.Ok) : ∃ sh', s.finish = some sh' := by
  obtain ⟨u, hu, -⟩ := prompt_printed h
  refine ⟨{ s with term := u, cmdLength := 0 }, ?_⟩
  rw [Shell.finish, hu]
  rfl

/-- **The loop over the commands** runs the one that has the line as its name. -/
theorem runCommands_spec (now : BitVec 32) {line : List (BitVec 8)} (hok : sh.term.Ok)
    (hline : HoldsFrom sh.cmdBuffer 0 line) (hlen : line.length < 256) : ∀ cmds : List Command,
    ∃ sh' ran, runCommands now sh cmds = some (sh', ran) ∧
      ∀ cmd, ran = some cmd ↔ cmd ∈ cmds ∧ cmd.name = line
  | [] => by
    obtain ⟨u, hu, huok⟩ := write_ok hok (chars "Unknown command: ".toList)
    obtain ⟨v, hv, hvok⟩ := write_ok huok
      (((List.range maxCmdLength).map sh.cmdBuffer).takeWhile (· ≠ 0))
    obtain ⟨w, hw, hwok⟩ := putchar_ok hvok charNewline
    obtain ⟨sh', hsh'⟩ := finish_some (s := { sh with term := w }) hwok
    refine ⟨sh', none, ?_, fun cmd => ?_⟩
    · rw [runCommands, hu]
      simp only [Option.bind_eq_bind, Option.bind_some, hv, hw, hsh']
    · simp only [reduceCtorEq, List.not_mem_nil, false_and]
  | cmd :: cmds => by
    obtain ⟨r, hr, hiff⟩ := strcmpFrom_spec hline
      (holdsFrom_cString cmd.name [] cmd.name_ne_zero) hlen
    have hcmp : strcmp sh.cmdBuffer (cString cmd.name) = some r := hr
    rw [runCommands, hcmp, Option.bind_eq_bind, Option.bind_some]
    by_cases h0 : r = 0
    · obtain ⟨u, hu, huok⟩ := fn_prints now cmd sh.term hok
      obtain ⟨sh', hsh'⟩ := finish_some (s := { sh with term := u }) huok
      refine ⟨sh', some cmd, ?_, fun cmd' => ?_⟩
      · rw [if_pos h0, hu]
        simp only [Option.bind_eq_bind, Option.bind_some, hsh']
      · rw [Option.some.injEq]
        constructor
        · rintro rfl
          exact ⟨List.mem_cons_self .., (hiff.mp h0).symm⟩
        · rintro ⟨-, hname⟩
          exact Command.name_injective ((hiff.mp h0).symm.trans hname.symm)
    · obtain ⟨sh', ran, hrun, hran⟩ := runCommands_spec now hok hline hlen cmds
      refine ⟨sh', ran, by rw [if_neg h0, hrun], fun cmd' => (hran cmd').trans ?_⟩
      rw [List.mem_cons]
      constructor
      · rintro ⟨hmem, hname⟩
        exact ⟨.inr hmem, hname⟩
      · rintro ⟨rfl | hmem, hname⟩
        · exact absurd (hiff.mpr hname.symm) h0
        · exact ⟨hmem, hname⟩

/-- **A newline** runs the command whose name is the line, if there is one. -/
theorem EditedAt.newline (now : BitVec 32) (h : EditedAt t sh k q) :
    ∃ sh' ran, shellHandleKey now charNewline sh = some (sh', ran) ∧
      ∀ cmd, ran = some cmd ↔ cmd.name = sh.line := by
  obtain ⟨u, hu, huok⟩ := putchar_ok h.ok charNewline
  have hlen : sh.cmdLength < maxCmdLength := Nat.lt_succ_of_le h.length
  -- the buffer with its terminator
  obtain ⟨s, hs⟩ : ∃ s : Shell, s = ⟨u, fun j => if j = sh.cmdLength then 0 else sh.cmdBuffer j,
    sh.cmdLength⟩ := ⟨_, rfl⟩
  have hkey : shellHandleKey now charNewline sh = runCommands now s commands := by
    have hstore : Shell.store sh.cmdLength 0 { sh with term := u } = some s := by
      rw [hs]
      exact if_pos hlen
    unfold shellHandleKey shellExecute
    rw [if_pos rfl, hu]
    simp only [Option.bind_eq_bind, Option.bind_some, hstore]
  have hbuffer : ∀ j < sh.cmdLength, s.cmdBuffer j = sh.cmdBuffer j := fun j hj => by
    rw [hs]
    exact if_neg (Nat.ne_of_lt hj)
  have hline : HoldsFrom s.cmdBuffer 0 sh.line := by
    have hrange := holdsFrom_range (s := s.cmdBuffer) (n := sh.cmdLength) (i := 0)
      (fun j hj => by rw [Nat.zero_add, hbuffer j hj]; exact h.nonzero j hj)
      (by rw [Nat.zero_add, hs]; exact if_pos rfl)
    have hmap : sh.line = (List.range sh.cmdLength).map fun j => s.cmdBuffer (0 + j) := by
      apply List.map_congr_left
      intro j hj
      rw [Nat.zero_add, hbuffer j (List.mem_range.mp hj)]
    rw [hmap]
    exact hrange
  have hlength : sh.line.length < 256 := by
    rw [Shell.line, List.length_map, List.length_range]
    exact hlen
  obtain ⟨sh', ran, hrun, hran⟩ := runCommands_spec now (hs ▸ huok) hline hlength commands
  refine ⟨sh', ran, hkey.trans hrun, fun cmd => (hran cmd).trans ?_⟩
  have hmem : cmd ∈ commands := by cases cmd <;> decide
  exact and_iff_right hmem

end Keys

/-- **What you see is what is executed.** From any position of the cursor: after the prompt
and any keys but a newline, the line has at most 255 characters; the prompt is on the
screen, with everything before it and perhaps some rows higher, and the cells from its end
to the cursor are the line; and a newline runs a command if and only if the line is its
name. -/
theorem shell_shows_command (now : BitVec 32) (t₀ : Terminal) (h₀ : t₀.row < 25 ∧ t₀.column < 80)
    (buffer : Nat → BitVec 8) (keys : List (BitVec 8))
    (hkeys : ∀ c ∈ keys, c ≠ 0 ∧ c ≠ charNewline) :
    ∃ t sh, shellPrompt t₀ = some t ∧ Prompted t ∧ shellKeys now keys ⟨t, buffer, 0⟩ = some sh ∧
      sh.cmdLength ≤ 255 ∧
      (∃ k q, EditedAt t sh k q ∧ cellChar (sh.term.buffer (q - 2)) = BitVec.ofNat 8 '>'.toNat ∧
        cellChar (sh.term.buffer (q - 1)) = charSpace) ∧
      ∃ sh' ran, shellHandleKey now charNewline sh = some (sh', ran) ∧
        ∀ cmd, ran = some cmd ↔ cmd.name = sh.line := by
  obtain ⟨t, ht, hprompted⟩ := prompt_printed ⟨h₀.1, h₀.2⟩
  obtain ⟨sh, hsh, k, q, hedit⟩ := foldlM_rule
    (fun (_ : List (BitVec 8)) sh => ∃ k q, EditedAt t sh k q)
    (f := fun sh c => (shellHandleKey now c sh).map Prod.fst) (l := keys)
    (fun _ c sh hc ⟨k, q, h⟩ => by
      obtain ⟨h0, hn⟩ := hkeys c hc
      obtain ⟨sh', k', q', hkey, hedit⟩ := h.key now h0 hn
      exact ⟨sh', by rw [hkey]; rfl, k', q', hedit⟩)
    [] ⟨0, t.pos, hprompted.edited buffer⟩
  refine ⟨t, sh, ht, hprompted, hsh, hedit.length, ⟨k, q, hedit, ?_, ?_⟩, hedit.newline now⟩
  · have hroom := hedit.room
    have hat : q - 2 + 80 * k = t.pos - 2 := by
      have := hedit.prompt
      omega
    rw [hedit.before _ (by omega), hat]
    exact hprompted.sign
  · have hroom := hedit.room
    have hat : q - 1 + 80 * k = t.pos - 1 := by
      have := hedit.prompt
      omega
    rw [hedit.before _ (by omega), hat]
    exact hprompted.blank

/-- An empty screen with the cursor at the end of the last row. -/
def lastCell : Terminal := ⟨24, 79, 7, fun _ => 0x0720, 0⟩

/-- The prompt is printed across the end of the screen, and `help` is typed with a mistake. -/
theorem shell_shows_help : ∃ t sh, shellPrompt lastCell = some t ∧ Prompted t ∧
    shellKeys 0 (chars ['h', 'e', 'k', '\x08', 'l', 'p']) ⟨t, fun _ => 0, 0⟩ = some sh ∧
      sh.cmdLength ≤ 255 := by
  obtain ⟨t, sh, ht, hp, hsh, hlen, -⟩ := shell_shows_command 0 lastCell ⟨by decide, by decide⟩
    (fun _ => 0) (chars ['h', 'e', 'k', '\x08', 'l', 'p']) (by decide)
  exact ⟨t, sh, ht, hp, hsh, hlen⟩

end TupleOS.Console
