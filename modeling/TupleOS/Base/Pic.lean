import Mathlib.Algebra.Ring.Nat
import Mathlib.Data.List.FinRange
import Mathlib.Logic.Function.Basic

/-!
# Interrupt controllers

An 8259 by its in-service bits, line 0 with the highest priority. `take` is the
CPU taking an interrupt of a line, and `eoi` the end-of-interrupt command that
names no line: it clears the highest bit that is set, if any. When only one line
can be in service, the command clears that line or nothing (`Only.highest`) and
leaves the controller idle (`Only.eoi`).
-/

namespace TupleOS.Base

/-- The in-service bits of the eight lines. -/
abbrev Pic := Fin 8 → Bool

namespace Pic

variable {p : Pic} {line l : Fin 8}

def take (p : Pic) (line : Fin 8) : Pic := Function.update p line true

/-- The line in service with the highest priority. -/
def highest (p : Pic) : Option (Fin 8) := (List.finRange 8).find? fun l => p l

def eoi (p : Pic) : Pic :=
  match p.highest with
  | none => p
  | some l => Function.update p l false

def Idle (p : Pic) : Prop := ∀ l, p l = false

def Only (p : Pic) (line : Fin 8) : Prop := ∀ l, p l = true → l = line

theorem Idle.only (h : p.Idle) : p.Only line := fun l hl => by
  rw [h l] at hl
  cases hl

theorem Idle.take (h : p.Idle) : (p.take line).Only line := by
  intro l hl
  by_cases he : l = line
  · exact he
  · unfold Pic.take at hl
    rw [Function.update_of_ne he, h l] at hl
    cases hl

theorem Only.highest (h : p.Only line) (hl : p.highest = some l) : l = line :=
  h l (List.find?_some hl)

theorem Only.eoi (h : p.Only line) : p.eoi.Idle := by
  intro l
  unfold Pic.eoi
  cases hh : p.highest with
  | none =>
    have := List.find?_eq_none.mp hh l (List.mem_finRange l)
    simpa using this
  | some l' =>
    obtain rfl := h.highest hh
    by_cases he : l = l'
    · rw [he]
      exact Function.update_self _ _ _
    · simp only [Function.update_of_ne he]
      exact Bool.eq_false_iff.mpr fun hl => he (h l hl)

end Pic

end TupleOS.Base
