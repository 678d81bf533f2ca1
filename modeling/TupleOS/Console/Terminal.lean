import TupleOS.Base.Loops

/-!
# The terminal (`kernel/kernel.c`)

The text buffer of 25 rows of 80 cells, the cursor variables and `terminal_putchar`. A
store outside the buffer is `none`. Positions are also counted through, row after row
(`pos`): a printed character goes to the position of the cursor and moves it on by one, a
backspace moves it back by one, and at the end of the last row everything moves up by a
row (`putchar_print`, `putchar_backspace`).
-/

namespace TupleOS.Console

open TupleOS.Base

/-! ## The code -/

def vgaWidth : Nat := 80
def vgaHeight : Nat := 25

def vgaEntry (uc color : BitVec 8) : BitVec 16 := uc.setWidth 16 ||| color.setWidth 16 <<< 8

def vgaEntryColor (fg bg : BitVec 8) : BitVec 8 := fg ||| bg <<< 4

/-- The variables `terminal_*` and the buffer; `cursor` is what the VGA ports were given. -/
structure Terminal where
  row : Nat
  column : Nat
  color : BitVec 8
  buffer : Nat → BitVec 16
  cursor : BitVec 16

def Terminal.store (index : Nat) (entry : BitVec 16) (t : Terminal) : Option Terminal :=
  if index < vgaHeight * vgaWidth then
    some { t with buffer := fun i => if i = index then entry else t.buffer i }
  else none

def charSpace : BitVec 8 := 0x20
def charNewline : BitVec 8 := 0x0A
def charBackspace : BitVec 8 := 0x08

def terminalInitialize (t : Terminal) : Option Terminal :=
  forLoop (fun y => forLoop (fun x t =>
    t.store (y * vgaWidth + x) (vgaEntry charSpace t.color)) vgaWidth) vgaHeight
    { t with row := 0, column := 0, color := vgaEntryColor 7 0 }

def terminalUpdateCursor (t : Terminal) : Terminal :=
  { t with cursor := BitVec.ofNat 16 (t.row * vgaWidth + t.column) }

def terminalPutentryat (c color : BitVec 8) (x y : Nat) (t : Terminal) : Option Terminal :=
  t.store (y * vgaWidth + x) (vgaEntry c color)

def terminalScroll (t : Terminal) : Option Terminal := do
  let t ← forLoop (fun y => forLoop (fun x t =>
    t.store (y * vgaWidth + x) (t.buffer ((y + 1) * vgaWidth + x))) vgaWidth) (vgaHeight - 1) t
  forLoop (fun x t =>
    t.store ((vgaHeight - 1) * vgaWidth + x) (vgaEntry charSpace t.color)) vgaWidth t

/-- `terminal_column = 0; if (++terminal_row == VGA_HEIGHT) …`, which `terminal_putchar` has
twice. -/
def nextRow (t : Terminal) : Option Terminal :=
  if t.row + 1 = vgaHeight then
    (terminalScroll { t with column := 0, row := t.row + 1 }).map
      ({ · with row := vgaHeight - 1 })
  else some { t with column := 0, row := t.row + 1 }

/-- The cursor one back, at most to the top left corner. -/
def stepBack (t : Terminal) : Terminal :=
  if 0 < t.column then { t with column := t.column - 1 }
  else if 0 < t.row then { t with row := t.row - 1, column := vgaWidth - 1 }
  else t

def terminalPutchar (c : BitVec 8) (t : Terminal) : Option Terminal :=
  if c = charBackspace then do
    let t := stepBack t
    let t ← terminalPutentryat charSpace t.color t.column t.row t
    some (terminalUpdateCursor t)
  else if c = charNewline then nextRow t
  else do
    let t ← terminalPutentryat c t.color t.column t.row t
    let t := { t with column := t.column + 1 }
    let t ← if t.column = vgaWidth then nextRow t else some t
    some (terminalUpdateCursor t)

def terminalWrite (data : List (BitVec 8)) (t : Terminal) : Option Terminal :=
  data.foldlM (fun t c => terminalPutchar c t) t

/-! ## Stores and loops -/

section Loops

variable {t : Terminal} {c : BitVec 8}

theorem store_eq {index : Nat} {entry : BitVec 16} (h : index < 2000) :
    t.store index entry =
      some { t with buffer := fun i => if i = index then entry else t.buffer i } := by
  rw [Terminal.store, if_pos]
  exact h

/-- `n` cells from `lo` on hold what `f` says. -/
def filled (t : Terminal) (lo n : Nat) (f : Nat → BitVec 16) : Terminal :=
  { t with buffer := fun i => if lo ≤ i ∧ i < lo + n then f i else t.buffer i }

theorem filled_zero (t : Terminal) (lo : Nat) (f : Nat → BitVec 16) : filled t lo 0 f = t := by
  have hbuffer : (fun i => if lo ≤ i ∧ i < lo + 0 then f i else t.buffer i) = t.buffer := by
    funext i
    exact if_neg (by omega)
  unfold filled
  rw [hbuffer]

theorem filled_store {lo n : Nat} {f : Nat → BitVec 16} (h : lo + n < 2000) :
    (filled t lo n f).store (lo + n) (f (lo + n)) = some (filled t lo (n + 1) f) := by
  rw [store_eq h]
  have hbuffer : (fun i => if i = lo + n then f (lo + n)
      else if lo ≤ i ∧ i < lo + n then f i else t.buffer i) =
      fun i => if lo ≤ i ∧ i < lo + (n + 1) then f i else t.buffer i := by
    funext i
    by_cases hi : i = lo + n
    · subst hi
      rw [if_pos rfl, if_pos (by omega)]
    · rw [if_neg hi]
      exact if_congr (by omega) rfl rfl
  unfold filled
  rw [hbuffer]

theorem row_loop {a k m : Nat} {f : Nat → BitVec 16} {v : Nat → Terminal → BitVec 16}
    (h : a + k + m ≤ 2000) (hv : ∀ x < m, v x (filled t a (k + x) f) = f (a + (k + x))) :
    forLoop (fun x u => u.store (a + k + x) (v x u)) m (filled t a k f) =
      some (filled t a (k + m) f) := by
  obtain ⟨u, hu, rfl⟩ := forLoop_rule (fun x u => u = filled t a (k + x) f)
    (f := fun x u => u.store (a + k + x) (v x u)) (n := m) (s := filled t a k f) rfl (by
      rintro x hx u rfl
      refine ⟨_, ?_, rfl⟩
      rw [hv x hx, Nat.add_assoc]
      exact filled_store (by omega))
  exact hu

theorem rows_loop {w h : Nat} {f : Nat → BitVec 16} {v : Nat → Nat → Terminal → BitVec 16}
    (hh : h * w ≤ 2000)
    (hv : ∀ y < h, ∀ x < w, v y x (filled t 0 (y * w + x) f) = f (y * w + x)) :
    forLoop (fun y => forLoop (fun x u => u.store (y * w + x) (v y x u)) w) h t =
      some (filled t 0 (h * w) f) := by
  have hround : ∀ y < h, forLoop (fun x u => u.store (y * w + x) (v y x u)) w
      (filled t 0 (y * w) f) = some (filled t 0 ((y + 1) * w) f) := fun y hy => by
    have hle : (y + 1) * w ≤ h * w := Nat.mul_le_mul_right w hy
    have hrow := row_loop (t := t) (a := 0) (k := y * w) (m := w) (f := f) (v := v y)
      (by rw [Nat.succ_mul] at hle; omega) (fun x hx => by rw [Nat.zero_add]; exact hv y hy x hx)
    rwa [Nat.zero_add, ← Nat.succ_mul] at hrow
  obtain ⟨u, hu, rfl⟩ := forLoop_rule (fun y u => u = filled t 0 (y * w) f)
    (f := fun y => forLoop (fun x u => u.store (y * w + x) (v y x u)) w) (n := h) (s := t)
    (by rw [Nat.zero_mul, filled_zero]) (fun y hy u hu => ⟨_, hu ▸ hround y hy, rfl⟩)
  exact hu

/-- The buffer one row up, with an empty row at the bottom. -/
def scrolled (buffer : Nat → BitVec 16) (blank : BitVec 16) (i : Nat) : BitVec 16 :=
  if i < 1920 then buffer (i + 80) else if i < 2000 then blank else buffer i

/-- **No line is smeared**: a row is read before it is written. -/
theorem terminalScroll_eq (t : Terminal) : terminalScroll t =
    some { t with buffer := scrolled t.buffer (vgaEntry charSpace t.color) } := by
  have hcopy : forLoop (fun y => forLoop (fun x u =>
      u.store (y * vgaWidth + x) (u.buffer ((y + 1) * vgaWidth + x))) vgaWidth) (vgaHeight - 1) t =
      some (filled t 0 ((vgaHeight - 1) * vgaWidth) fun i => t.buffer (i + vgaWidth)) := by
    refine rows_loop (by decide) fun y hy x hx => ?_
    show (if _ then _ else _) = _
    rw [if_neg (by rw [Nat.succ_mul]; omega), Nat.succ_mul, Nat.add_right_comm]
  have hclear := row_loop
    (t := filled t 0 ((vgaHeight - 1) * vgaWidth) fun i => t.buffer (i + vgaWidth))
    (a := (vgaHeight - 1) * vgaWidth) (k := 0) (m := vgaWidth)
    (f := fun _ => vgaEntry charSpace t.color) (v := fun _ u => vgaEntry charSpace u.color)
    (by decide) (fun _ _ => rfl)
  rw [filled_zero, Nat.add_zero, Nat.zero_add] at hclear
  have hbuffer : (filled (filled t 0 ((vgaHeight - 1) * vgaWidth) fun i => t.buffer (i + vgaWidth))
      ((vgaHeight - 1) * vgaWidth) vgaWidth fun _ => vgaEntry charSpace t.color).buffer =
      scrolled t.buffer (vgaEntry charSpace t.color) := by
    funext i
    show (if 1920 ≤ i ∧ i < 1920 + 80 then vgaEntry charSpace t.color
      else if 0 ≤ i ∧ i < 0 + 1920 then t.buffer (i + 80) else t.buffer i) =
      if i < 1920 then t.buffer (i + 80)
      else if i < 2000 then vgaEntry charSpace t.color else t.buffer i
    by_cases hrow : 1920 ≤ i ∧ i < 2000
    · rw [if_pos (by omega), if_neg (by omega), if_pos hrow.2]
    · rw [if_neg (by omega)]
      by_cases hi : i < 1920
      · rw [if_pos (by omega), if_pos hi]
      · rw [if_neg (by omega), if_neg hi, if_neg (by omega)]
  unfold terminalScroll
  rw [hcopy, Option.bind_eq_bind, Option.bind_some, hclear, ← hbuffer]
  rfl

theorem terminalInitialize_eq (t : Terminal) : terminalInitialize t = some { t with
    row := 0, column := 0, color := vgaEntryColor 7 0
    buffer := fun i =>
      if i < 2000 then vgaEntry charSpace (vgaEntryColor 7 0) else t.buffer i } := by
  have hclear := rows_loop (t := { t with row := 0, column := 0, color := vgaEntryColor 7 0 })
    (w := vgaWidth) (h := vgaHeight) (f := fun _ => vgaEntry charSpace (vgaEntryColor 7 0))
    (v := fun _ _ u => vgaEntry charSpace u.color) (by decide) (fun _ _ _ _ => rfl)
  have hbuffer : (fun i => if 0 ≤ i ∧ i < 0 + vgaHeight * vgaWidth then
      vgaEntry charSpace (vgaEntryColor 7 0) else t.buffer i) =
      fun i => if i < 2000 then vgaEntry charSpace (vgaEntryColor 7 0) else t.buffer i := by
    funext i
    unfold vgaHeight vgaWidth
    exact if_congr (by omega) rfl rfl
  unfold terminalInitialize
  rw [hclear, filled, hbuffer]

end Loops

/-! ## One character -/

structure Terminal.Ok (t : Terminal) : Prop where
  row : t.row < 25
  column : t.column < 80

/-- The position of the cursor, row after row. -/
def Terminal.pos (t : Terminal) : Nat := t.row * 80 + t.column

/-- The terminal with a character at the cursor. -/
def Terminal.put (t : Terminal) (c : BitVec 8) : Terminal :=
  { t with buffer := fun i => if i = t.pos then vgaEntry c t.color else t.buffer i }

section Putchar

variable {t : Terminal} {c : BitVec 8}

theorem Terminal.Ok.pos_lt (h : t.Ok) : t.pos < 2000 := by
  have hrow := h.row
  have hcolumn := h.column
  unfold Terminal.pos
  omega

theorem putentry_eq (h : t.Ok) : terminalPutentryat c t.color t.column t.row t = some (t.put c) :=
  store_eq h.pos_lt

theorem nextRow_eq (t : Terminal) : nextRow t =
    if t.row = 24 then some { t with
      column := 0, row := 24, buffer := scrolled t.buffer (vgaEntry charSpace t.color) }
    else some { t with column := 0, row := t.row + 1 } := by
  unfold nextRow vgaHeight
  rw [terminalScroll_eq, Option.map_some]
  by_cases hrow : t.row = 24
  · rw [if_pos (by omega), if_pos hrow]
  · rw [if_neg (by omega), if_neg hrow]

theorem putchar_inside (h : t.Ok) (hb : c ≠ charBackspace) (hn : c ≠ charNewline)
    (hcol : t.column + 1 < 80) : terminalPutchar c t =
      some (terminalUpdateCursor { t.put c with column := t.column + 1 }) := by
  unfold terminalPutchar
  rw [if_neg hb, if_neg hn, putentry_eq h, Option.bind_eq_bind, Option.bind_some]
  have hne : ¬ (t.put c).column + 1 = vgaWidth := Nat.ne_of_lt hcol
  simp only [if_neg hne, Option.bind_some]
  rfl

theorem putchar_last (h : t.Ok) (hb : c ≠ charBackspace) (hn : c ≠ charNewline)
    (hcol : t.column + 1 = 80) : terminalPutchar c t =
      (nextRow (t.put c)).map terminalUpdateCursor := by
  unfold terminalPutchar
  rw [if_neg hb, if_neg hn, putentry_eq h, Option.bind_eq_bind, Option.bind_some]
  have heq : (t.put c).column + 1 = vgaWidth := hcol
  -- `nextRow` sets the column itself
  have hrow : nextRow { t.put c with column := (t.put c).column + 1 } = nextRow (t.put c) := rfl
  simp only [if_pos heq, hrow]
  exact Option.map_eq_bind.symm

theorem stepBack_ok (h : t.Ok) : (stepBack t).Ok ∧ (stepBack t).pos = t.pos - 1 ∧
    (stepBack t).buffer = t.buffer ∧ (stepBack t).color = t.color := by
  have hrow := h.row
  have hcolumn := h.column
  unfold stepBack vgaWidth Terminal.pos
  split
  · refine ⟨⟨hrow, ?_⟩, ?_, rfl, rfl⟩ <;> dsimp only <;> omega
  · split
    · refine ⟨⟨?_, ?_⟩, ?_, rfl, rfl⟩ <;> dsimp only <;> omega
    · refine ⟨h, ?_, rfl, rfl⟩
      omega

theorem putchar_backspace (h : t.Ok) : terminalPutchar charBackspace t =
    some (terminalUpdateCursor ((stepBack t).put charSpace)) := by
  unfold terminalPutchar
  rw [if_pos rfl]
  simp only [putentry_eq (stepBack_ok h).1, Option.bind_eq_bind, Option.bind_some]

theorem nextRow_ok (h : t.Ok) : ∃ u, nextRow t = some u ∧ u.Ok := by
  have hrow := h.row
  rw [nextRow_eq]
  by_cases hlast : t.row = 24
  · rw [if_pos hlast]
    exact ⟨_, rfl, Nat.lt_add_one 24, Nat.zero_lt_succ 79⟩
  · rw [if_neg hlast]
    exact ⟨_, rfl, by show t.row + 1 < 25; omega, Nat.zero_lt_succ 79⟩

/-- **Every character** is put on the screen, and the cursor stays there. -/
theorem putchar_ok (h : t.Ok) (c : BitVec 8) : ∃ u, terminalPutchar c t = some u ∧ u.Ok := by
  by_cases hb : c = charBackspace
  · subst hb
    obtain ⟨⟨hrow, hcolumn⟩, -⟩ := stepBack_ok h
    exact ⟨_, putchar_backspace h, hrow, hcolumn⟩
  · by_cases hn : c = charNewline
    · subst hn
      exact nextRow_ok h
    · by_cases hcol : t.column + 1 < 80
      · exact ⟨_, putchar_inside h hb hn hcol, h.row, hcol⟩
      · have hput : (t.put c).Ok := ⟨h.row, h.column⟩
        obtain ⟨u, hu, hok⟩ := nextRow_ok hput
        have hlast := putchar_last h hb hn (by have := h.column; omega)
        rw [hu, Option.map_some] at hlast
        exact ⟨_, hlast, hok.row, hok.column⟩

/-- **A printed character** is at the old position, and the cursor one further; at the end
of the screen everything is a row higher. -/
theorem putchar_print (h : t.Ok) (hb : c ≠ charBackspace) (hn : c ≠ charNewline) :
    ∃ u k, terminalPutchar c t = some u ∧ u.Ok ∧ u.pos + 80 * k = t.pos + 1 ∧
      (k = 0 ∨ k = 1 ∧ t.pos + 1 = 2000) ∧
      ∀ j < u.pos, u.buffer j = (t.put c).buffer (j + 80 * k) := by
  have hrow := h.row
  have hcolumn := h.column
  unfold Terminal.pos
  by_cases hcol : t.column + 1 < 80
  · refine ⟨_, 0, putchar_inside h hb hn hcol, ⟨hrow, hcol⟩, ?_, .inl rfl, fun _ _ => rfl⟩
    show t.row * 80 + (t.column + 1) + 80 * 0 = _
    omega
  · have hlast := putchar_last h hb hn (by omega)
    rw [nextRow_eq] at hlast
    have hsame : (t.put c).row = t.row := rfl
    rw [hsame] at hlast
    by_cases hbottom : t.row = 24
    · rw [if_pos hbottom, Option.map_some] at hlast
      refine ⟨_, 1, hlast, ⟨Nat.lt_add_one 24, Nat.zero_lt_succ 79⟩, ?_, .inr ⟨rfl, by omega⟩, ?_⟩
      · show 24 * 80 + 0 + 80 * 1 = _
        omega
      · intro j hj
        have hj' : j < 1920 := hj
        show scrolled (t.put c).buffer _ j = _
        unfold scrolled
        rw [if_pos hj', Nat.mul_one]
    · rw [if_neg hbottom, Option.map_some] at hlast
      refine ⟨_, 0, hlast, ⟨?_, Nat.zero_lt_succ 79⟩, ?_, .inl rfl, fun _ _ => rfl⟩
      · show t.row + 1 < 25
        omega
      · show (t.row + 1) * 80 + 0 + 80 * 0 = _
        omega

theorem write_ok (h : t.Ok) (data : List (BitVec 8)) : ∃ u, terminalWrite data t = some u ∧ u.Ok :=
  foldlM_rule (fun _ (t : Terminal) => t.Ok) (fun _ c _ _ h => putchar_ok h c) [] h

end Putchar

end TupleOS.Console
