import Mathlib.Algebra.Ring.Nat
import Mathlib.Algebra.Group.Fin.Basic
import Mathlib.Data.List.FinRange

/-!
# Scans around a circle

On `Fin n`, `(b - a).val` is the number of steps from `a` up to `b`, around the
end. `circle a` lists all positions in that order, and a search along it stops
at the nearest hit (`find_circle`). Going from `a` by way of `b` to `c` short of
a full turn adds up the steps (`val_sub_add`).

In a round robin each turn goes to the nearest position that is ready. `Turns`
is a sequence of turns, with whatever ready set each of them finds. Between two
turns of `p`, every position that waits gets one turn (`Turns.mem_chosen`) and
none gets two (`Turns.nodup`); a waiting position gets its turn before the
circle is closed (`Turns.length_lt`).
-/

namespace TupleOS.Base

variable {n : Nat} [NeZero n]

/-- All positions, from `a` upwards around the end. -/
def circle (a : Fin n) : List (Fin n) := (List.finRange n).map (a + ·)

theorem val_sub_add {a b c : Fin n} (h : (b - a).val + (c - b).val < n) :
    (c - a).val = (b - a).val + (c - b).val := by
  rw [← sub_add_sub_cancel' b a c, Fin.val_add, Nat.mod_eq_of_lt h]

theorem val_sub_of_le {p a b : Fin n} (h : (a - p).val ≤ (b - p).val) :
    (b - a).val = (b - p).val - (a - p).val := by
  rw [← sub_sub_sub_cancel_right b a p, Fin.sub_val_of_le h]

omit [NeZero n] in
theorem val_sub_swap {a b : Fin n} (h : a ≠ b) : (b - a).val + (a - b).val = n := by
  rcases Nat.lt_or_gt_of_ne (Fin.val_ne_of_ne h) with hlt | hlt
  · have hb := b.isLt
    rw [Fin.sub_val_of_le (Fin.le_of_lt hlt), Fin.coe_sub_iff_lt.mpr hlt]; omega
  · have ha := a.isLt
    rw [Fin.coe_sub_iff_lt.mpr hlt, Fin.sub_val_of_le (Fin.le_of_lt hlt)]; omega

theorem val_sub_eq_zero {a b : Fin n} : (b - a).val = 0 ↔ b = a := by
  rw [Fin.val_eq_zero_iff, sub_eq_zero]

omit [NeZero n] in
@[simp] theorem length_circle (a : Fin n) : (circle a).length = n := by simp [circle]

omit [NeZero n] in
theorem getElem_circle {a : Fin n} {i : Nat} (h : i < (circle a).length) :
    (circle a)[i] = a + ⟨i, by simpa using h⟩ := by
  simp [circle]

theorem getElem_circle_sub (a x : Fin n) (h : (x - a).val < (circle a).length) :
    (circle a)[(x - a).val] = x := by
  rw [getElem_circle]
  exact add_sub_cancel a x

theorem mem_circle (a x : Fin n) : x ∈ circle a :=
  List.mem_map.mpr ⟨x - a, List.mem_finRange _, add_sub_cancel a x⟩

theorem find_circle {p : Fin n → Bool} {a b : Fin n} :
    (circle a).find? p = some b ↔ p b = true ∧ ∀ x, p x = true → (b - a).val ≤ (x - a).val := by
  rw [List.find?_eq_some_iff_getElem]
  refine and_congr_right fun hb => ⟨?_, fun hmin => ?_⟩
  · rintro ⟨i, hi, hxi, hbefore⟩ x hx
    have hdist : (b - a).val = i := by
      rw [getElem_circle] at hxi
      rw [← hxi, add_sub_cancel_left]
    by_contra hlt
    have := hbefore (x - a).val (by omega)
    rw [getElem_circle_sub] at this
    simp [hx] at this
  · refine ⟨(b - a).val, by simp, getElem_circle_sub a b (by simp), fun j hj => ?_⟩
    have hlen : j < (circle a).length := by rw [length_circle]; omega
    by_contra hp
    have hle := hmin (circle a)[j] (by simpa using hp)
    rw [getElem_circle, add_sub_cancel_left] at hle
    simp only at hle
    omega

theorem find_circle_none {p : Fin n → Bool} {a : Fin n} :
    (circle a).find? p = none ↔ ∀ x, p x = false := by
  rw [List.find?_eq_none]
  exact ⟨fun h x => by simpa using h x (mem_circle a x), fun h x _ => by simp [h x]⟩

/-! ## Round robin -/

/-- `b` is the first ready position from `c` on. -/
def Nearest (ready : Fin n → Prop) (c b : Fin n) : Prop :=
  ready b ∧ ∀ x, ready x → (b - c).val ≤ (x - c).val

/-- One turn: who has it now, who is ready, who gets it next. -/
structure Turn (n : Nat) where
  holder : Fin n
  ready : Fin n → Prop
  chosen : Fin n

/-- `q` is ready for the turn, or has it already. -/
def Turn.Waits (t : Turn n) (q : Fin n) : Prop := t.ready q ∨ t.holder = q

/-- Turns that follow each other from `c` to `c'`, each to the nearest ready
position; the holder is not ready for its own turn. -/
inductive Turns : Fin n → List (Turn n) → Fin n → Prop where
  | nil (c : Fin n) : Turns c [] c
  | cons {c b c' : Fin n} {ready : Fin n → Prop} {ts : List (Turn n)} : Nearest ready c b →
      ¬ ready c → Turns b ts c' → Turns c (⟨c, ready, b⟩ :: ts) c'

section RoundRobin

variable {ready : Fin n → Prop} {c c' b p q : Fin n} {ts : List (Turn n)}

theorem Nearest.up (h : Nearest ready c b) (hc : ¬ ready c) (hp : ready p ∨ c = p) (hb : b ≠ p) :
    (b - p).val = (c - p).val + (b - c).val ∧ 0 < (b - c).val := by
  have hbc : (b - c).val ≠ 0 := fun h0 => hc (val_sub_eq_zero.mp h0 ▸ h.1)
  refine ⟨?_, by omega⟩
  by_cases hcp : c = p
  · subst hcp; simp
  · have hle := h.2 p (hp.resolve_right hcp)
    have hne : (b - c).val ≠ (p - c).val := fun he => hb (sub_left_injective (Fin.ext he))
    have hturn := val_sub_swap hcp
    exact val_sub_add (by omega)

theorem Nearest.not_skip (h : Nearest ready c b) (hq : ready q)
    (hcq : (c - p).val ≤ (q - p).val) : (c - p).val + (b - c).val ≤ (q - p).val := by
  have hle := h.2 q hq
  have hqc := val_sub_of_le hcq
  omega

omit [NeZero n] in
theorem Turn.Waits.ready_of_lt {t : Turn n} (h : t.Waits q)
    (hlt : (t.holder - p).val < (q - p).val) : t.ready q := by
  refine h.resolve_right ?_
  rintro rfl
  omega

theorem Turns.sorted (h : Turns c ts c') (hp : ∀ t ∈ ts, t.Waits p ∧ t.chosen ≠ p) :
    (c :: ts.map Turn.chosen).Pairwise fun x y => (x - p).val < (y - p).val := by
  induction h with
  | nil => exact List.pairwise_singleton _ _
  | cons hn hc _ ih =>
    obtain ⟨hw, hb⟩ := hp _ List.mem_cons_self
    obtain ⟨hup, hpos⟩ := hn.up hc hw hb
    have hs := ih fun t ht => hp t (List.mem_cons_of_mem _ ht)
    refine List.pairwise_cons.mpr ⟨fun y hy => ?_, hs⟩
    rcases List.mem_cons.mp hy with rfl | hy
    · omega
    · have hlt := (List.pairwise_cons.mp hs).1 y hy
      omega

/-- **No position gets two turns** while `p` waits. -/
theorem Turns.nodup (h : Turns c ts c') (hp : ∀ t ∈ ts, t.Waits p ∧ t.chosen ≠ p) :
    (ts.map Turn.chosen).Nodup := by
  refine (List.pairwise_cons.mp (h.sorted hp)).2.imp fun {x y} hlt => ?_
  rintro rfl
  omega

theorem Turns.mem_of_passed (h : Turns c ts c') (hp : ∀ t ∈ ts, t.Waits p ∧ t.chosen ≠ p)
    (hq : ∀ t ∈ ts, t.Waits q) (hlo : (c - p).val < (q - p).val)
    (hhi : (q - p).val ≤ (c' - p).val) : q ∈ ts.map Turn.chosen := by
  induction h with
  | nil => omega
  | cons hn hc _ ih =>
    obtain ⟨hw, hb⟩ := hp _ List.mem_cons_self
    obtain ⟨hup, -⟩ := hn.up hc hw hb
    have hskip := hn.not_skip ((hq _ List.mem_cons_self).ready_of_lt hlo) (Nat.le_of_lt hlo)
    rw [← hup] at hskip
    rcases Nat.lt_or_eq_of_le hskip with hlt | heq
    · exact List.mem_cons_of_mem _ (ih (fun t ht => hp t (List.mem_cons_of_mem _ ht))
        (fun t ht => hq t (List.mem_cons_of_mem _ ht)) hlt hhi)
    · rw [List.map_cons, ← sub_left_injective (Fin.ext heq)]
      exact List.mem_cons_self

/-- **A position that waits gets its turn** between two turns of `p`. -/
theorem Turns.mem_chosen (h : Turns p ts c') (hp : ∀ t ∈ ts, t.Waits p ∧ t.chosen ≠ p)
    (hq : ∀ t ∈ ts, t.Waits q) (hlast : Nearest ready c' p) (hc : ¬ ready c')
    (hlq : ready q ∨ c' = q) (hne : q ≠ p) : q ∈ ts.map Turn.chosen := by
  have hcp : c' ≠ p := by rintro rfl; exact hc hlast.1
  have hturn := val_sub_swap hcp
  have h0 : 0 < (q - p).val := Nat.pos_of_ne_zero fun h0 => hne (val_sub_eq_zero.mp h0)
  refine h.mem_of_passed hp hq (by simpa using h0) ?_
  by_contra hlt
  -- the last turn would have gone to `q` and not all the way to `p`
  have hskip := hlast.not_skip (hlq.resolve_right (by rintro rfl; omega)) (p := p) (by omega)
  have := (q - p).isLt
  omega

/-- **A ready position waits less than one round.** -/
theorem Turns.length_lt (h : Turns c ts c') (hc : c ≠ q)
    (hq : ∀ t ∈ ts, t.ready q ∧ t.chosen ≠ q) : ts.length < (q - c).val := by
  induction h with
  | nil => exact Nat.pos_of_ne_zero fun h0 => hc (val_sub_eq_zero.mp h0).symm
  | cons hn hnc _ ih =>
    obtain ⟨hr, hb⟩ := hq _ List.mem_cons_self
    obtain ⟨hup, hpos⟩ := hn.up hnc (.inl hr) hb
    have hlen := ih hb fun t ht => hq t (List.mem_cons_of_mem _ ht)
    have h1 := val_sub_swap hb
    have h2 := val_sub_swap hc
    rw [List.length_cons]
    simp only at *
    omega

end RoundRobin

end TupleOS.Base
