import Mathlib.Algebra.Ring.Nat
import Mathlib.Data.Finset.Card
import Mathlib.Data.Finset.Range
import Mathlib.Tactic.Common

/-!
# Bitmaps

A bitmap is an array of bytes, bit `f` being bit `f % 8` of byte `f / 8`.
`firstClear` scans it for the lowest clear bit, byte by byte; `clearCount b n`
counts the clear bits below `n`. Setting the lowest clear bit lowers the count
by one (`clearCount_set`), which bounds how often a scan can succeed.
-/

namespace TupleOS.Base

abbrev Bitmap := Nat → BitVec 8

namespace Bitmap

variable {b : Bitmap} {f g n : Nat}

def test (b : Bitmap) (f : Nat) : Bool := (b (f / 8)).getLsbD (f % 8)

def set (b : Bitmap) (f : Nat) : Bitmap := fun i =>
  if i = f / 8 then b i ||| (1#8 <<< (f % 8)) else b i

def clear (b : Bitmap) (f : Nat) : Bitmap := fun i =>
  if i = f / 8 then b i &&& ~~~(1#8 <<< (f % 8)) else b i

theorem getLsbD_one_shiftLeft {i j : Nat} (hi : i < 8) :
    (1#8 <<< j).getLsbD i = decide (i = j) := by
  rw [BitVec.getLsbD_shiftLeft]
  by_cases hlt : i < j
  · simp [hi, hlt, Nat.ne_of_lt hlt]
  · have : (1#8).getLsbD (i - j) = decide (i - j = 0) := by
      rw [BitVec.getLsbD_one]; simp
    simp only [hi, decide_true, hlt, decide_false, Bool.not_false, Bool.true_and, this]
    exact decide_eq_decide.mpr (by omega)

theorem test_set (b : Bitmap) (f g : Nat) : (b.set f).test g = (decide (g = f) || b.test g) := by
  unfold test set
  by_cases hw : g / 8 = f / 8
  · rw [if_pos hw, BitVec.getLsbD_or, getLsbD_one_shiftLeft (by omega), Bool.or_comm]
    congr 1
    exact decide_eq_decide.mpr (by omega)
  · rw [if_neg hw, show decide (g = f) = false from decide_eq_false (by rintro rfl; exact hw rfl),
      Bool.false_or]

theorem test_clear (b : Bitmap) (f g : Nat) :
    (b.clear f).test g = (!decide (g = f) && b.test g) := by
  unfold test clear
  by_cases hw : g / 8 = f / 8
  · rw [if_pos hw, BitVec.getLsbD_and, BitVec.getLsbD_not, getLsbD_one_shiftLeft (by omega),
      Bool.and_comm]
    congr 1
    rw [show decide (g % 8 < 8) = true from decide_eq_true (by omega), Bool.true_and]
    congr 1
    exact decide_eq_decide.mpr (by omega)
  · rw [if_neg hw, show decide (g = f) = false from decide_eq_false (by rintro rfl; exact hw rfl),
      Bool.not_false, Bool.true_and]

/-! ## Scanning -/

/-- The lowest clear bit among bits `j` to `j + n` of a byte. -/
def firstClearBit (x : BitVec 8) : Nat → Nat → Option Nat
  | 0, _ => none
  | n + 1, j => if x.getLsbD j then firstClearBit x n (j + 1) else some j

/-- The lowest clear bit of `n` bytes from byte `i`; full bytes are skipped. -/
def firstClear (b : Bitmap) : Nat → Nat → Option Nat
  | 0, _ => none
  | n + 1, i =>
    if b i = 0xFF#8 then firstClear b n (i + 1)
    else match firstClearBit (b i) 8 0 with
      | some j => some (i * 8 + j)
      | none => firstClear b n (i + 1)

theorem firstClearBit_some {x : BitVec 8} : ∀ {n j k : Nat}, firstClearBit x n j = some k →
    j ≤ k ∧ k < j + n ∧ x.getLsbD k = false ∧ ∀ i, j ≤ i → i < k → x.getLsbD i = true
  | n + 1, j, k, h => by
    rw [firstClearBit] at h
    by_cases hx : x.getLsbD j = true
    · rw [if_pos hx] at h
      obtain ⟨h1, h2, h3, h4⟩ := firstClearBit_some h
      refine ⟨by omega, by omega, h3, fun i hi hik => ?_⟩
      by_cases hij : i = j
      · exact hij ▸ hx
      · exact h4 i (by omega) hik
    · rw [if_neg hx, Option.some.injEq] at h
      subst h
      exact ⟨Nat.le_refl _, by omega, Bool.eq_false_iff.mpr hx, fun i hi hik => by omega⟩

theorem firstClearBit_none {x : BitVec 8} : ∀ {n j : Nat}, firstClearBit x n j = none →
    ∀ i, j ≤ i → i < j + n → x.getLsbD i = true
  | 0, j, _, i, hi, hlt => by omega
  | n + 1, j, h, i, hi, hlt => by
    rw [firstClearBit] at h
    by_cases hx : x.getLsbD j = true
    · rw [if_pos hx] at h
      by_cases hij : i = j
      · exact hij ▸ hx
      · exact firstClearBit_none h i (by omega) (by omega)
    · rw [if_neg hx] at h; cases h

theorem getLsbD_full {i : Nat} (hi : i < 8) : (0xFF#8).getLsbD i = true := by
  have : 0xFF#8 = BitVec.allOnes 8 := rfl
  rw [this, BitVec.getLsbD_allOnes]
  exact decide_eq_true hi

/-- A scan that finds a bit finds the lowest clear one. -/
theorem firstClear_some : ∀ {n i : Nat}, b.firstClear n i = some f →
    8 * i ≤ f ∧ f < 8 * (i + n) ∧ b.test f = false ∧ ∀ g, 8 * i ≤ g → g < f → b.test g = true
  | n + 1, i, h => by
    -- either byte `i` is full, or its lowest clear bit is the answer
    have hskip : (∀ j < 8, (b i).getLsbD j = true) → b.firstClear n (i + 1) = some f →
        8 * i ≤ f ∧ f < 8 * (i + (n + 1)) ∧ b.test f = false ∧
          ∀ g, 8 * i ≤ g → g < f → b.test g = true := by
      intro hfull h'
      obtain ⟨h1, h2, h3, h4⟩ := firstClear_some h'
      refine ⟨by omega, by omega, h3, fun g hg hgf => ?_⟩
      by_cases hgi : g / 8 = i
      · unfold test; rw [hgi]; exact hfull _ (by omega)
      · exact h4 g (by omega) hgf
    rw [firstClear] at h
    by_cases hb : b i = 0xFF#8
    · rw [if_pos hb] at h
      exact hskip (fun j hj => by rw [hb]; exact getLsbD_full hj) h
    · rw [if_neg hb] at h
      cases hbit : firstClearBit (b i) 8 0 with
      | none =>
        rw [hbit] at h
        exact hskip (fun j hj => firstClearBit_none hbit j (by omega) (by omega)) h
      | some j =>
        rw [hbit, Option.some.injEq] at h
        obtain ⟨-, hj, hclear, hlow⟩ := firstClearBit_some hbit
        have hdiv : ∀ k, k < 8 → (i * 8 + k) / 8 = i ∧ (i * 8 + k) % 8 = k := fun k hk => by omega
        subst h
        refine ⟨by omega, by omega, ?_, fun g hg hgf => ?_⟩
        · unfold test; rw [(hdiv j (by omega)).1, (hdiv j (by omega)).2]; exact hclear
        · unfold test; rw [show g / 8 = i by omega]; exact hlow _ (by omega) (by omega)

theorem firstClear_none : ∀ {n i : Nat}, b.firstClear n i = none →
    ∀ g, 8 * i ≤ g → g < 8 * (i + n) → b.test g = true
  | 0, i, _, g, hg, hlt => by omega
  | n + 1, i, h, g, hg, hlt => by
    rw [firstClear] at h
    by_cases hb : b i = 0xFF#8
    · rw [if_pos hb] at h
      by_cases hgi : g / 8 = i
      · unfold test; rw [hgi, hb]; exact getLsbD_full (by omega)
      · exact firstClear_none h g (by omega) (by omega)
    · rw [if_neg hb] at h
      cases hbit : firstClearBit (b i) 8 0 with
      | some j => rw [hbit] at h; cases h
      | none =>
        rw [hbit] at h
        by_cases hgi : g / 8 = i
        · unfold test; rw [hgi]; exact firstClearBit_none hbit _ (by omega) (by omega)
        · exact firstClear_none h g (by omega) (by omega)

/-! ## Counting -/

/-- The number of clear bits below `n`. -/
def clearCount (b : Bitmap) : Nat → Nat
  | 0 => 0
  | n + 1 => clearCount b n + if b.test n then 0 else 1

theorem clearCount_eq_card (b : Bitmap) (n : Nat) :
    b.clearCount n = ((Finset.range n).filter fun f => b.test f = false).card := by
  induction n with
  | zero => rfl
  | succ n ih =>
    rw [clearCount, Finset.range_add_one, Finset.filter_insert, ih]
    by_cases ht : b.test n = true
    · simp [ht]
    · rw [if_neg ht, if_pos (Bool.eq_false_iff.mpr ht), Finset.card_insert_of_notMem (by simp)]

theorem clearCount_congr {b' : Bitmap} (h : ∀ g < n, b'.test g = b.test g) :
    b'.clearCount n = b.clearCount n := by
  induction n with
  | zero => rfl
  | succ n ih => rw [clearCount, clearCount, ih fun g hg => h g (by omega), h n (by omega)]

theorem clearCount_set (hf : b.test f = false) (hn : f < n) :
    (b.set f).clearCount n + 1 = b.clearCount n := by
  induction n with
  | zero => omega
  | succ n ih =>
    rw [clearCount, clearCount]
    by_cases hfn : f = n
    · subst hfn
      have hlow : (b.set f).clearCount f = b.clearCount f :=
        clearCount_congr fun g hg => by rw [test_set]; simp [Nat.ne_of_lt hg]
      rw [hlow, test_set]
      simp [hf]
    · have := ih (by omega)
      rw [test_set, show decide (n = f) = false from decide_eq_false (by omega), Bool.false_or]
      omega

theorem clearCount_set_above (hn : n ≤ f) : (b.set f).clearCount n = b.clearCount n :=
  clearCount_congr fun g hg => by
    rw [test_set, show decide (g = f) = false from decide_eq_false (by omega), Bool.false_or]

theorem clearCount_pos (hf : b.test f = false) (hn : f < n) : 0 < b.clearCount n := by
  have := clearCount_set hf hn
  omega

theorem exists_clear_of_pos (h : 0 < b.clearCount n) : ∃ g < n, b.test g = false := by
  induction n with
  | zero => simp [clearCount] at h
  | succ n ih =>
    rw [clearCount] at h
    by_cases ht : b.test n = true
    · rw [if_pos ht] at h
      obtain ⟨g, hg, hc⟩ := ih (by omega)
      exact ⟨g, by omega, hc⟩
    · exact ⟨n, by omega, Bool.eq_false_iff.mpr ht⟩

theorem clearCount_le (lo hi : Nat) (h : ∀ g < n, b.test g = false → lo ≤ g ∧ g < hi) :
    b.clearCount n ≤ min n hi - lo := by
  induction n with
  | zero => exact Nat.zero_le _
  | succ n ih =>
    have hlow := ih fun g hg => h g (by omega)
    have hn := h n (by omega)
    rw [clearCount]
    cases ht : b.test n with
    | true =>
      simp only [↓reduceIte]
      omega
    | false =>
      have := hn ht
      simp only [Bool.false_eq_true, ↓reduceIte]
      omega

theorem le_clearCount (lo hi : Nat) (h : ∀ g, lo ≤ g → g < hi → b.test g = false) (hn : hi ≤ n) :
    hi - lo ≤ b.clearCount n := by
  induction n generalizing hi with
  | zero => omega
  | succ n ih =>
    rw [clearCount]
    by_cases hlast : hi = n + 1
    · subst hlast
      have hlow := ih n (fun g h1 h2 => h g h1 (by omega)) (Nat.le_refl n)
      by_cases hlo : lo ≤ n
      · rw [h n hlo (by omega)]
        simp only [Bool.false_eq_true, ↓reduceIte]
        omega
      · omega
    · have := ih hi h (by omega)
      omega

end Bitmap

end TupleOS.Base
