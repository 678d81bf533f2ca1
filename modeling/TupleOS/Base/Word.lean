import Mathlib.Algebra.Ring.Nat
import Mathlib.Tactic.Common

/-!
# 32-bit words

Machine words are natural numbers below `2 ^ 32`; `w32` is the wraparound of
unsigned arithmetic and `sub32` the wrapping difference. `roundDown k`/`roundUp k`
are the mask idioms `x & ~(k - 1)` and `(x + k - 1) & ~(k - 1)` for a power of
two `k`.
-/

namespace TupleOS.Base

def w32 (n : Nat) : Nat := n % 2 ^ 32

/-- `a - b` in unsigned 32-bit arithmetic. -/
def sub32 (a b : Nat) : Nat := (a + (2 ^ 32 - b % 2 ^ 32)) % 2 ^ 32

def roundDown (k x : Nat) : Nat := x / k * k

/-- `(x + k - 1) & ~(k - 1)` in unsigned 32-bit arithmetic. -/
def roundUp (k x : Nat) : Nat := roundDown k (w32 (x + (k - 1)))

theorem w32_of_lt {n : Nat} (h : n < 2 ^ 32) : w32 n = n := Nat.mod_eq_of_lt h

theorem w32_lt (n : Nat) : w32 n < 2 ^ 32 := Nat.mod_lt _ (by omega)

theorem w32_add_w32 (a b : Nat) : w32 (w32 a + b) = w32 (a + b) := Nat.mod_add_mod _ _ _

theorem sub32_of_le {a b : Nat} (h : b ≤ a) (ha : a < 2 ^ 32) : sub32 a b = a - b := by
  unfold sub32; omega

theorem eq_zero_of_sub32_self {a b : Nat} (hb : b < 2 ^ 32) (h : sub32 a b = a) : b = 0 := by
  unfold sub32 at h; omega

theorem roundUp_of_lt {k x : Nat} (h : x + (k - 1) < 2 ^ 32) :
    roundUp k x = (x + (k - 1)) / k * k := by
  rw [roundUp, w32_of_lt h, roundDown]

theorem roundUp_lt (k x : Nat) : roundUp k x < 2 ^ 32 :=
  Nat.lt_of_le_of_lt (Nat.div_mul_le_self _ _) (w32_lt _)

theorem roundUp_dvd (k x : Nat) : k ∣ roundUp k x := Nat.dvd_mul_left _ _

end TupleOS.Base
