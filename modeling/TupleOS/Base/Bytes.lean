import Mathlib.Algebra.Ring.Nat
import Mathlib.Tactic.Common
import Mathlib.Data.Nat.Basic

/-!
# Byte memories

A byte memory is a total function from addresses to bytes. `load32`/`store32`
are the little-endian word accesses of a 32-bit machine; `zeroBytes` is a loop
of byte stores. Each store comes with its hit, its miss and its footprint, and
`load32_congr` moves a load to any memory that agrees on the four bytes.
-/

namespace TupleOS.Base

abbrev Bytes := Nat → BitVec 8

/-- `a` lies in the half-open window `[lo, hi)`. -/
def InWin (lo hi a : Nat) : Prop := lo ≤ a ∧ a < hi

instance (lo hi a : Nat) : Decidable (InWin lo hi a) := inferInstanceAs (Decidable (_ ∧ _))

/-- The two memories agree on `[lo, hi)`. -/
def AgreeOn (m m' : Bytes) (lo hi : Nat) : Prop := ∀ a, InWin lo hi a → m' a = m a

theorem AgreeOn.refl (m : Bytes) (lo hi : Nat) : AgreeOn m m lo hi := fun _ _ => rfl

theorem AgreeOn.trans {m m' m'' : Bytes} {lo hi : Nat} (h1 : AgreeOn m m' lo hi)
    (h2 : AgreeOn m' m'' lo hi) : AgreeOn m m'' lo hi :=
  fun a ha => (h2 a ha).trans (h1 a ha)

theorem AgreeOn.mono {m m' : Bytes} {lo hi lo' hi' : Nat} (h : AgreeOn m m' lo hi)
    (h1 : lo ≤ lo') (h2 : hi' ≤ hi) : AgreeOn m m' lo' hi' :=
  fun a ha => h a ⟨Nat.le_trans h1 ha.1, Nat.lt_of_lt_of_le ha.2 h2⟩

/-! ## Words -/

def load32 (m : Bytes) (a : Nat) : Nat :=
  (m a).toNat + 2 ^ 8 * (m (a + 1)).toNat + 2 ^ 16 * (m (a + 2)).toNat + 2 ^ 24 * (m (a + 3)).toNat

/-- Store the word `v` at `a`, low byte first. -/
def store32 (m : Bytes) (a v : Nat) : Bytes := fun x =>
  if InWin a (a + 4) x then BitVec.ofNat 8 (v / 256 ^ (x - a)) else m x

def store8 (m : Bytes) (a : Nat) (b : BitVec 8) : Bytes := fun x => if x = a then b else m x

theorem load32_lt (m : Bytes) (a : Nat) : load32 m a < 2 ^ 32 := by
  have h0 := (m a).isLt; have h1 := (m (a + 1)).isLt
  have h2 := (m (a + 2)).isLt; have h3 := (m (a + 3)).isLt
  unfold load32; omega

theorem load32_congr {m m' : Bytes} {a : Nat} (h : AgreeOn m m' a (a + 4)) :
    load32 m' a = load32 m a := by
  unfold load32
  rw [h a ⟨by omega, by omega⟩, h (a + 1) ⟨by omega, by omega⟩, h (a + 2) ⟨by omega, by omega⟩,
    h (a + 3) ⟨by omega, by omega⟩]

theorem load32_zeros {m : Bytes} {x : Nat} (h : ∀ y, InWin x (x + 4) y → m y = 0) :
    load32 m x = 0 := by
  have hag : AgreeOn (fun _ => 0) m x (x + 4) := h
  rw [load32_congr hag]
  rfl

theorem store32_out {m : Bytes} {a v x : Nat} (h : x < a ∨ a + 4 ≤ x) :
    store32 m a v x = m x := by
  unfold store32; rw [if_neg (by unfold InWin; omega)]

theorem store32_agree (m : Bytes) {a v lo hi : Nat} (h : hi ≤ a ∨ a + 4 ≤ lo) :
    AgreeOn m (store32 m a v) lo hi := by
  intro x hx
  obtain ⟨h1, h2⟩ := hx
  exact store32_out (by omega)

theorem load32_store32 (m : Bytes) (a : Nat) {v : Nat} (hv : v < 2 ^ 32) :
    load32 (store32 m a v) a = v := by
  have hin : ∀ i, i < 4 → InWin a (a + 4) (a + i) := fun i hi => ⟨by omega, by omega⟩
  have h0 : InWin a (a + 4) a := hin 0 (by omega)
  simp only [load32, store32, h0, hin 1 (by omega), hin 2 (by omega), hin 3 (by omega), ↓reduceIte,
    Nat.sub_self, Nat.add_sub_cancel_left, Nat.pow_zero, Nat.div_one, BitVec.toNat_ofNat,
    Nat.reducePow]
  omega

theorem load32_store32_miss (m : Bytes) {a b v : Nat} (h : a + 4 ≤ b ∨ b + 4 ≤ a) :
    load32 (store32 m b v) a = load32 m a :=
  load32_congr (store32_agree m h)

theorem store32_load32 (m : Bytes) (a : Nat) : store32 m a (load32 m a) = m := by
  funext x
  have h0 := (m a).isLt; have h1 := (m (a + 1)).isLt
  have h2 := (m (a + 2)).isLt; have h3 := (m (a + 3)).isLt
  unfold store32
  split
  · rename_i hx
    obtain ⟨hlo, hhi⟩ := hx
    apply BitVec.eq_of_toNat_eq
    rw [BitVec.toNat_ofNat]
    unfold load32
    obtain rfl | rfl | rfl | rfl : x = a ∨ x = a + 1 ∨ x = a + 2 ∨ x = a + 3 := by omega
    all_goals
      simp only [Nat.sub_self, Nat.add_sub_cancel_left]
      omega
  · rfl

theorem store8_out {m : Bytes} {a x : Nat} {b : BitVec 8} (h : x ≠ a) : store8 m a b x = m x := by
  unfold store8; rw [if_neg h]

@[simp] theorem store8_same (m : Bytes) (a : Nat) (b : BitVec 8) : store8 m a b a = b := by
  simp [store8]

def load16 (m : Bytes) (a : Nat) : Nat := (m a).toNat + 2 ^ 8 * (m (a + 1)).toNat

theorem load16_lt (m : Bytes) (a : Nat) : load16 m a < 2 ^ 16 := by
  have h0 := (m a).isLt; have h1 := (m (a + 1)).isLt
  unfold load16; omega

theorem load16_congr {m m' : Bytes} {a : Nat} (h : AgreeOn m m' a (a + 2)) :
    load16 m' a = load16 m a := by
  unfold load16
  rw [h a ⟨by omega, by omega⟩, h (a + 1) ⟨by omega, by omega⟩]

theorem load32_add (m : Bytes) (a k : Nat) : load32 m (a + k) = load32 (fun x => m (a + x)) k := by
  unfold load32
  rw [Nat.add_assoc a, Nat.add_assoc a, Nat.add_assoc a]

theorem load16_add (m : Bytes) (a k : Nat) : load16 m (a + k) = load16 (fun x => m (a + x)) k := by
  unfold load16
  rw [Nat.add_assoc a]

/-- Store the half word `v` at `a`, low byte first. -/
def store16 (m : Bytes) (a v : Nat) : Bytes := fun x =>
  if InWin a (a + 2) x then BitVec.ofNat 8 (v / 256 ^ (x - a)) else m x

theorem store16_agree (m : Bytes) {a v lo hi : Nat} (h : hi ≤ a ∨ a + 2 ≤ lo) :
    AgreeOn m (store16 m a v) lo hi := by
  intro x hx
  obtain ⟨h1, h2⟩ := hx
  unfold store16; rw [if_neg (by unfold InWin; omega)]

theorem load16_store16 (m : Bytes) (a : Nat) {v : Nat} (hv : v < 2 ^ 16) :
    load16 (store16 m a v) a = v := by
  have h0 : InWin a (a + 2) a := ⟨by omega, by omega⟩
  have h1 : InWin a (a + 2) (a + 1) := ⟨by omega, by omega⟩
  simp only [load16, store16, h0, h1, ↓reduceIte, Nat.sub_self, Nat.add_sub_cancel_left,
    Nat.pow_zero, Nat.div_one, BitVec.toNat_ofNat, Nat.reducePow]
  omega

theorem store16_out {m : Bytes} {a v x : Nat} (h : x < a ∨ a + 2 ≤ x) : store16 m a v x = m x := by
  unfold store16; rw [if_neg (by unfold InWin; omega)]

theorem store8_agree (m : Bytes) {a lo hi : Nat} (b : BitVec 8) (h : hi ≤ a ∨ a + 1 ≤ lo) :
    AgreeOn m (store8 m a b) lo hi := by
  intro x hx
  obtain ⟨h1, h2⟩ := hx
  exact store8_out (by omega)

theorem load16_store8 {m : Bytes} {a x : Nat} {b : BitVec 8} (h : x + 2 ≤ a ∨ a < x) :
    load16 (store8 m a b) x = load16 m x :=
  load16_congr (store8_agree m b (by omega))

theorem load16_store16_miss {m : Bytes} {a v x : Nat} (h : x + 2 ≤ a ∨ a + 2 ≤ x) :
    load16 (store16 m a v) x = load16 m x :=
  load16_congr (store16_agree m (by omega))

def load64 (m : Bytes) (a : Nat) : Nat := load32 m a + 2 ^ 32 * load32 m (a + 4)

theorem load64_congr {m m' : Bytes} {a : Nat} (h : AgreeOn m m' a (a + 8)) :
    load64 m' a = load64 m a := by
  unfold load64
  rw [load32_congr (h.mono (by omega) (by omega)), load32_congr (h.mono (by omega) (by omega))]

/-! ## Loops of stores -/

def copyWords (m : Bytes) (dst src : Nat) : Nat → Bytes
  | 0 => m
  | n + 1 =>
    let m := copyWords m dst src n
    store32 m (dst + 4 * n) (load32 m (src + 4 * n))

theorem copyWords_agree (m : Bytes) {dst src n lo hi : Nat} (h : hi ≤ dst ∨ dst + 4 * n ≤ lo) :
    AgreeOn m (copyWords m dst src n) lo hi := by
  induction n with
  | zero => exact AgreeOn.refl _ _ _
  | succ n ih => exact (ih (by omega)).trans (store32_agree _ (by omega))

theorem copyWords_load (m : Bytes) {dst src n k : Nat} (h : dst + 4 * n ≤ src ∨ src + 4 * n ≤ dst)
    (hk : k < n) : load32 (copyWords m dst src n) (dst + 4 * k) = load32 m (src + 4 * k) := by
  induction n with
  | zero => omega
  | succ n ih =>
    rw [copyWords]
    by_cases hkn : k = n
    · subst hkn
      rw [load32_store32 _ _ (load32_lt _ _)]
      exact load32_congr (copyWords_agree m (by omega))
    · rw [load32_store32_miss _ (by omega)]
      exact ih (by omega) (by omega)

def zeroWords (m : Bytes) (a : Nat) : Nat → Bytes
  | 0 => m
  | n + 1 => store32 (zeroWords m a n) (a + 4 * n) 0

theorem zeroWords_agree (m : Bytes) {a n lo hi : Nat} (h : hi ≤ a ∨ a + 4 * n ≤ lo) :
    AgreeOn m (zeroWords m a n) lo hi := by
  induction n with
  | zero => exact AgreeOn.refl _ _ _
  | succ n ih => exact (ih (by omega)).trans (store32_agree _ (by omega))

/-- Zero the `n` bytes from `a`, one after the other. -/
def zeroBytes (m : Bytes) (a : Nat) : Nat → Bytes
  | 0 => m
  | n + 1 => store8 (zeroBytes m a n) (a + n) 0

theorem zeroBytes_out {m : Bytes} {a n x : Nat} (h : x < a ∨ a + n ≤ x) :
    zeroBytes m a n x = m x := by
  induction n with
  | zero => rfl
  | succ n ih => rw [zeroBytes, store8_out (by omega), ih (by omega)]

theorem zeroBytes_in {m : Bytes} {a n x : Nat} (h : InWin a (a + n) x) :
    zeroBytes m a n x = 0 := by
  induction n with
  | zero => obtain ⟨h1, h2⟩ := h; omega
  | succ n ih =>
    obtain ⟨h1, h2⟩ := h
    by_cases hx : x = a + n
    · subst hx; simp [zeroBytes]
    · rw [zeroBytes, store8_out hx, ih ⟨h1, by omega⟩]

end TupleOS.Base
