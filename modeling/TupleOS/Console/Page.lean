import Mathlib.Data.List.GetD
import TupleOS.Console.Terminal

/-!
# The screen and the page (`kernel/kernel.c`)

A text without backspaces is laid out on a page without end: a row ends at a newline or
after its 80th character (`layout`). The screen shows the last 25 rows of that page, with
blanks where there is no text, and the cursor is where the next character goes
(`screen_is_window`). One character keeps this (`Window.putchar`).
-/

namespace TupleOS.Console

open TupleOS.Base

/-! ## The page -/

/-- The rows that have ended, and the one that is written. -/
structure Page where
  rows : List (List (BitVec 8))
  current : List (BitVec 8)

namespace Page

def put (p : Page) (c : BitVec 8) : Page :=
  if c = charNewline then ⟨p.rows ++ [p.current], []⟩
  else if p.current.length + 1 = 80 then ⟨p.rows ++ [p.current ++ [c]], []⟩
  else ⟨p.rows, p.current ++ [c]⟩

def lines (p : Page) : List (List (BitVec 8)) := p.rows ++ [p.current]

/-- The first of the last 25 rows. -/
def top (p : Page) : Nat := p.lines.length - 25

end Page

def layout (text : List (BitVec 8)) : Page := text.foldl Page.put ⟨[], []⟩

/-- The character in column `x` of row `r`; blank where there is no text. -/
def charAt (lines : List (List (BitVec 8))) (r x : Nat) : BitVec 8 :=
  (lines.getD r []).getD x charSpace

def cellChar (entry : BitVec 16) : BitVec 8 := entry.setWidth 8

/-- The screen shows 25 rows from `top` on. -/
def Shows (buffer : Nat → BitVec 16) (lines : List (List (BitVec 8))) (top : Nat) : Prop :=
  ∀ y < 25, ∀ x < 80, cellChar (buffer (y * 80 + x)) = charAt lines (top + y) x

/-- The screen is the window on the end of the page. -/
structure Window (t : Terminal) (p : Page) : Prop where
  shows : Shows t.buffer p.lines p.top
  row : p.top + t.row = p.rows.length
  column : t.column = p.current.length

/-! ## Cells -/

theorem cellChar_vgaEntry (uc color : BitVec 8) : cellChar (vgaEntry uc color) = uc := by
  unfold cellChar vgaEntry
  ext i hi
  simp

theorem charAt_none {lines : List (List (BitVec 8))} {r : Nat} (h : lines.length ≤ r) (x : Nat) :
    charAt lines r x = charSpace := by
  rw [charAt, List.getD_eq_default _ _ h]
  rfl

theorem getD_concat {α : Type} (l : List α) (a d : α) (r : Nat) :
    (l ++ [a]).getD r d = if r = l.length then a else l.getD r d := by
  rcases Nat.lt_trichotomy r l.length with h | rfl | h
  · rw [List.getD_append _ _ _ _ h, if_neg (Nat.ne_of_lt h)]
  · rw [List.getD_append_right _ _ _ _ (Nat.le_refl _), if_pos rfl, Nat.sub_self]
    rfl
  · rw [List.getD_eq_default _ _ (by rw [List.length_append]; exact h), if_neg (Nat.ne_of_gt h),
      List.getD_eq_default _ _ (Nat.le_of_lt h)]

theorem charAt_concat_nil (lines : List (List (BitVec 8))) (r x : Nat) :
    charAt (lines ++ [[]]) r x = charAt lines r x := by
  unfold charAt
  rw [getD_concat]
  by_cases h : r = lines.length
  · rw [if_pos h, List.getD_eq_default _ _ (Nat.le_of_eq h.symm)]
  · rw [if_neg h]

theorem charAt_concat (rows : List (List (BitVec 8))) (current : List (BitVec 8)) (c : BitVec 8)
    (r x : Nat) : charAt (rows ++ [current ++ [c]]) r x =
      if r = rows.length ∧ x = current.length then c else charAt (rows ++ [current]) r x := by
  unfold charAt
  rw [getD_concat, getD_concat]
  by_cases hr : r = rows.length
  · rw [if_pos hr, if_pos hr, getD_concat]
    exact if_congr (by simp only [hr, true_and]) rfl rfl
  · rw [if_neg hr, if_neg hr, if_neg fun h => hr h.1]

section Steps

variable {t : Terminal} {p : Page} {c : BitVec 8} {rows : List (List (BitVec 8))}
  {current : List (BitVec 8)} {top : Nat}

theorem Page.top_eq (p : Page) : p.top = p.rows.length - 24 := by
  unfold Page.top Page.lines
  rw [List.length_append, List.length_singleton]
  omega

/-- **A character at the cursor** is a character at the end of the page. -/
theorem put_shows (hok : t.Ok) (h : Window t p) (c : BitVec 8) :
    Shows (t.put c).buffer (p.rows ++ [p.current ++ [c]]) p.top := by
  intro y hy x hx
  have hrow := h.row
  have hcolumn := h.column
  have hlt := hok.column
  show cellChar (if y * 80 + x = t.row * 80 + t.column then _ else _) = _
  rw [charAt_concat]
  by_cases hat : y = t.row ∧ x = t.column
  · rw [if_pos (by omega), if_pos (by omega), cellChar_vgaEntry]
  · rw [if_neg (by omega), if_neg (by omega)]
    exact h.shows y hy x hx

/-- **The next row**, below or with everything moved up. -/
theorem nextRow_window (hshows : Shows t.buffer (rows ++ [current]) (rows.length - 24))
    (hrow : rows.length - 24 + t.row = rows.length) :
    ∃ u, nextRow t = some u ∧ Window u ⟨rows ++ [current], []⟩ := by
  have htop : Page.top ⟨rows ++ [current], []⟩ = rows.length + 1 - 24 := by
    rw [Page.top_eq, List.length_append, List.length_singleton]
  rw [nextRow_eq]
  by_cases hlast : t.row = 24
  · rw [if_pos hlast]
    refine ⟨_, rfl, fun y hy x hx => ?_, ?_, rfl⟩
    · rw [htop, Page.lines, charAt_concat_nil]
      show cellChar (scrolled t.buffer _ (y * 80 + x)) = _
      unfold scrolled
      by_cases hy' : y < 24
      · rw [if_pos (by omega), Nat.add_right_comm, ← Nat.succ_mul, hshows (y + 1) (by omega) x hx]
        congr 1
        omega
      · rw [if_neg (by omega), if_pos (by omega), cellChar_vgaEntry, charAt_none]
        rw [List.length_append, List.length_singleton]
        omega
    · rw [htop, List.length_append, List.length_singleton]
      show _ + 24 = _
      omega
  · rw [if_neg hlast]
    refine ⟨_, rfl, fun y hy x hx => ?_, ?_, rfl⟩
    · rw [htop, Page.lines, charAt_concat_nil]
      refine (hshows y hy x hx).trans ?_
      congr 1
      omega
    · rw [htop, List.length_append, List.length_singleton]
      show _ + (t.row + 1) = _
      omega

theorem Window.updateCursor (h : Window t p) : Window (terminalUpdateCursor t) p :=
  ⟨h.shows, h.row, h.column⟩

/-- **One character** on the screen and on the page. -/
theorem Window.putchar (h : Window t p) (hok : t.Ok) (hb : c ≠ charBackspace) :
    ∃ u, terminalPutchar c t = some u ∧ Window u (p.put c) := by
  have hrow := h.row
  have hcolumn := h.column
  rw [p.top_eq] at hrow
  unfold Page.put
  by_cases hn : c = charNewline
  · subst hn
    have hshows := h.shows
    rw [p.top_eq] at hshows
    rw [if_pos rfl]
    exact nextRow_window hshows hrow
  · rw [if_neg hn]
    have hput := put_shows hok h c
    by_cases hcol : t.column + 1 < 80
    · rw [if_neg (by omega)]
      have htop : Page.top ⟨p.rows, p.current ++ [c]⟩ = p.top := by rw [Page.top_eq, Page.top_eq]
      rw [← htop] at hput
      refine ⟨_, putchar_inside hok hb hn hcol, Window.updateCursor ⟨hput, htop ▸ h.row, ?_⟩⟩
      rw [List.length_append, List.length_singleton, ← hcolumn]
    · have hlast := hok.column
      rw [if_pos (by omega)]
      rw [p.top_eq] at hput
      have hrow' : p.rows.length - 24 + (t.put c).row = p.rows.length := hrow
      obtain ⟨u, hu, hw⟩ := nextRow_window hput hrow'
      refine ⟨terminalUpdateCursor u, ?_, hw.updateCursor⟩
      rw [putchar_last hok hb hn (by omega), hu, Option.map_some]

/-- What holds when `text` has been written. -/
structure Written (text : List (BitVec 8)) (t : Terminal) : Prop where
  ok : t.Ok
  window : charBackspace ∉ text → Window t (layout text)

theorem Written.putchar {text : List (BitVec 8)} (h : Written text t) (c : BitVec 8) :
    ∃ u, terminalPutchar c t = some u ∧ Written (text ++ [c]) u := by
  obtain ⟨u, hu, hok⟩ := putchar_ok h.ok c
  refine ⟨u, hu, hok, fun hno => ?_⟩
  rw [List.mem_append, List.mem_singleton, not_or] at hno
  obtain ⟨u', hu', hw⟩ := (h.window hno.1).putchar h.ok (Ne.symm hno.2)
  rw [hu, Option.some.injEq] at hu'
  rw [hu', layout, List.foldl_append]
  exact hw

theorem initialize_written (t : Terminal) : ∃ u, terminalInitialize t = some u ∧ Written [] u := by
  refine ⟨_, terminalInitialize_eq t, ⟨Nat.zero_lt_succ 24, Nat.zero_lt_succ 79⟩,
    fun _ => ⟨fun y hy x hx => ?_, rfl, rfl⟩⟩
  show cellChar (if _ then _ else _) = _
  rw [if_pos (by omega), cellChar_vgaEntry]
  exact (charAt_concat_nil [] _ x).symm

end Steps

/-- **The screen is a window on the text.** After `terminal_initialize`, whatever is
written: every store is inside the buffer and the cursor on the screen; and if there is no
backspace in the text, the screen shows the last 25 rows of its page, with the cursor
where the page goes on. -/
theorem screen_is_window (t₀ : Terminal) (text : List (BitVec 8)) :
    ∃ t, (terminalInitialize t₀).bind (terminalWrite text) = some t ∧ t.row < 25 ∧ t.column < 80 ∧
      (charBackspace ∉ text → Window t (layout text)) := by
  obtain ⟨s, hs, hstart⟩ := initialize_written t₀
  obtain ⟨t, ht, hwritten⟩ := foldlM_rule Written (l := text) (fun _ c _ _ h => h.putchar c) []
    hstart
  refine ⟨t, ?_, hwritten.ok.row, hwritten.ok.column, hwritten.window⟩
  rw [hs, Option.bind_some]
  exact ht

end TupleOS.Console
