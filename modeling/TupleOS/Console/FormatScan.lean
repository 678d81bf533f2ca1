import TupleOS.Base.Bytes
import TupleOS.Base.Orbit
import TupleOS.Console.Printf

/-!
# The format cursor (`kernel/kprintf.c`, `kernel/serial.c`)

The loop of the two formatters as it runs in memory: `format` is an address, the arguments
are the words after it on the stack, and a round reads one character, or two after a `%`.
`scanStep` is one round. On a string without a `%` at its end it computes what `scan` says
(`scan_refines`). A `%` at the end makes the cursor step over the terminator: the loop
stays in the string, and ends, exactly for the strings in which every `%` has its
character (`format_inside_iff`).
-/

namespace TupleOS.Console

open TupleOS.Base
open StateTransition (Reaches)

/-! ## The loop in memory -/

/-- A byte of the 32-bit address space. -/
def byteAt (m : Bytes) (a : Nat) : BitVec 8 := m (a % 2 ^ 32)

/-- The characters from `a` to the next NUL; `none` when there is none in so many bytes. -/
def readString (m : Bytes) : Nat → Nat → Option (List (BitVec 8))
  | 0, _ => none
  | n + 1, a => if byteAt m a = 0 then some [] else (readString m n (a + 1)).map (byteAt m a :: ·)

def writestring (m : Bytes) (str : BitVec 32) : Option (List (BitVec 8)) :=
  readString m (2 ^ 32) str.toNat

/-- A `switch` on the character after `%` and the next argument: what is sent, and how many
arguments are taken. -/
abbrev Switch := BitVec 8 → BitVec 32 → Option (List (BitVec 8) × Nat)

def kprintfSwitch (m : Bytes) : Switch := fun f arg =>
  if f = charD.val then (printInt arg).map (·, 1)
  else if f = charU.val then (printUint arg).map (·, 1)
  else if f = charX.val then (printHex arg).map (·, 1)
  else if f = charS.val then (writestring m arg).map (·, 1)
  else if f = percent.val then some ([percent.val, f], 0)
  else some ([], 0)

def serialSwitch (m : Bytes) : Switch := fun f arg =>
  if f = charD.val then (serialPrintInt arg).map (·, 1)
  else if f = charU.val then (serialPrintUint arg).map (·, 1)
  else if f = charX.val then (serialPrintHex arg).map (·, 1)
  else if f = charS.val then (writestring m arg).map (·, 1)
  else if f = percent.val then some ([percent.val], 0)
  else some ([percent.val, f], 0)

/-- The loop: the cursor, the arguments taken and what was sent. -/
structure ScanState where
  format : Nat
  taken : Nat
  out : List (BitVec 8)

def scanStep (switch : Switch) (m : Bytes) (args : Nat → BitVec 32) (s : ScanState) :
    Option ScanState :=
  if byteAt m s.format = 0 then none
  else if byteAt m s.format = percent.val then do
    let (out, n) ← switch (byteAt m (s.format + 1)) (args s.taken)
    some ⟨s.format + 2, s.taken + n, s.out ++ out⟩
  else some ⟨s.format + 1, s.taken, s.out ++ [byteAt m s.format]⟩

/-- The addresses at which a round reads the format. -/
def roundReads (m : Bytes) (format : Nat) : List Nat :=
  if byteAt m format = percent.val then [format, format + 1] else [format]

/-- The first NUL from `a` on is `n` bytes further. -/
structure FirstNul (m : Bytes) (a n : Nat) : Prop where
  nul : byteAt m (a + n) = 0
  first : ∀ i < n, byteAt m (a + i) ≠ 0

/-- The loop ends, and reads no character after the NUL. -/
structure StaysInside (switch : Switch) (m : Bytes) (args : Nat → BitVec 32) (format n : Nat) :
    Prop where
  ends : ∃ t, Reaches (scanStep switch m args) ⟨format, 0, []⟩ t ∧ byteAt m t.format = 0
  inside : ∀ t, Reaches (scanStep switch m args) ⟨format, 0, []⟩ t →
    ∀ a ∈ roundReads m t.format, a ≤ format + n

/-- A `%` at the end, after those that have a character behind them. -/
def dangling : List (BitVec 8) → Bool
  | [] => false
  | c :: rest =>
    if c = percent.val then
      match rest with
      | [] => true
      | _ :: rest => dangling rest
    else dangling rest

def textAt (m : Bytes) : Nat → Nat → List (BitVec 8)
  | _, 0 => []
  | a, n + 1 => byteAt m a :: textAt m (a + 1) n

/-! ## Rounds -/

section Rounds

variable {m : Bytes} {switch : Switch} {args : Nat → BitVec 32} {s t : ScanState} {a n : Nat}

theorem FirstNul.tail (h : FirstNul m a (n + 1)) : FirstNul m (a + 1) n := by
  constructor
  · rw [Nat.add_right_comm, Nat.add_assoc]
    exact h.nul
  · intro i hi
    rw [Nat.add_right_comm, Nat.add_assoc]
    exact h.first (i + 1) (by omega)

theorem FirstNul.head (h : FirstNul m a (n + 1)) : byteAt m a ≠ 0 := h.first 0 (by omega)

theorem readString_some (a : Nat) : ∀ k, byteAt m (a + k) = 0 → ∀ fuel, k < fuel →
    ∃ str, readString m fuel a = some str := by
  intro k
  induction k generalizing a with
  | zero =>
    rintro hnul (_ | fuel) hfuel
    · omega
    · rw [Nat.add_zero] at hnul
      exact ⟨[], by rw [readString, if_pos hnul]⟩
  | succ k ih =>
    rintro hnul (_ | fuel) hfuel
    · omega
    · rw [readString]
      by_cases h0 : byteAt m a = 0
      · exact ⟨[], by rw [if_pos h0]⟩
      · obtain ⟨str, hstr⟩ := ih (a + 1) (by rwa [Nat.add_right_comm, Nat.add_assoc])
          fuel (by omega)
        exact ⟨byteAt m a :: str, by rw [if_neg h0, hstr]; rfl⟩

theorem writestring_some (h : byteAt m a = 0) (str : BitVec 32) :
    ∃ out, writestring m str = some out := by
  have hlt := str.isLt
  -- going up from `str`, addresses wrap around and come to `a`
  refine readString_some str.toNat ((a % 2 ^ 32 + 2 ^ 32 - str.toNat) % 2 ^ 32) ?_ _
    (Nat.mod_lt _ (by omega))
  have haddr : (str.toNat + (a % 2 ^ 32 + 2 ^ 32 - str.toNat) % 2 ^ 32) % 2 ^ 32 = a % 2 ^ 32 := by
    omega
  unfold byteAt at h ⊢
  rw [haddr, h]

def Switch.Total (switch : Switch) : Prop := ∀ f arg, ∃ out n, switch f arg = some (out, n)

theorem kprintfSwitch_total (h : byteAt m a = 0) : (kprintfSwitch m).Total := by
  intro f arg
  unfold kprintfSwitch
  obtain ⟨str, hstr⟩ := writestring_some h arg
  rw [printInt_numeral, printUint_numeral, printHex_numeral, hstr]
  split_ifs <;> exact ⟨_, _, rfl⟩

theorem serialSwitch_total (h : byteAt m a = 0) : (serialSwitch m).Total := by
  intro f arg
  unfold serialSwitch
  obtain ⟨str, hstr⟩ := writestring_some h arg
  have hint : serialPrintInt arg = some _ := printInt_numeral arg
  have huint : serialPrintUint arg = some _ := printUint_numeral arg
  have hhex : serialPrintHex arg = some _ := printHex_numeral arg
  rw [hint, huint, hhex, hstr]
  split_ifs <;> exact ⟨_, _, rfl⟩

theorem step_nul (h : byteAt m s.format = 0) : scanStep switch m args s = none := by
  rw [scanStep, if_pos h]

theorem step_percent (args : Nat → BitVec 32) (htotal : switch.Total)
    (h : byteAt m s.format = percent.val) :
    ∃ t, scanStep switch m args s = some t ∧ t.format = s.format + 2 := by
  obtain ⟨out, n, hout⟩ := htotal (byteAt m (s.format + 1)) (args s.taken)
  have hne : byteAt m s.format ≠ 0 := by
    rw [h]
    exact percent.property
  refine ⟨⟨s.format + 2, s.taken + n, s.out ++ out⟩, ?_, rfl⟩
  rw [scanStep, if_neg hne, if_pos h, hout]
  rfl

theorem step_other (switch : Switch) (args : Nat → BitVec 32) (h0 : byteAt m s.format ≠ 0)
    (h : byteAt m s.format ≠ percent.val) :
    ∃ t, scanStep switch m args s = some t ∧ t.format = s.format + 1 := by
  refine ⟨⟨s.format + 1, s.taken, s.out ++ [byteAt m s.format]⟩, ?_, rfl⟩
  rw [scanStep, if_neg h0, if_neg h]

theorem reaches_step {u : ScanState} (h : scanStep switch m args s = some t)
    (hu : Reaches (scanStep switch m args) s u) : u = s ∨ Reaches (scanStep switch m args) t u := by
  rcases hu.cases_head with rfl | ⟨t', ht', hu⟩
  · exact .inl rfl
  · rw [h] at ht'
    cases ht'
    exact .inr hu

theorem reads_le (m : Bytes) (format : Nat) : ∀ a ∈ roundReads m format, a ≤ format + 1 := by
  intro a ha
  unfold roundReads at ha
  split at ha
  · rcases List.mem_cons.mp ha with rfl | ha
    · omega
    · rw [List.mem_singleton.mp ha]
  · rw [List.mem_singleton.mp ha]
    omega

theorem reads_other (h : byteAt m a ≠ percent.val) : roundReads m a = [a] := by
  rw [roundReads, if_neg h]

theorem dangling_other {c : BitVec 8} (h : c ≠ percent.val) (rest : List (BitVec 8)) :
    dangling (c :: rest) = dangling rest := by
  rw [dangling.eq_def]
  simp only [h, ↓reduceIte]

/-- **A string without a dangling `%`**: the loop ends at the NUL and reads up to it. -/
theorem scan_inside (args : Nat → BitVec 32) (htotal : switch.Total) (hnul : FirstNul m s.format n)
    (hd : dangling (textAt m s.format n) = false) :
    (∃ t, Reaches (scanStep switch m args) s t ∧ byteAt m t.format = 0) ∧
      ∀ t, Reaches (scanStep switch m args) s t →
        ∀ a ∈ roundReads m t.format, a ≤ s.format + n := by
  induction n using Nat.strong_induction_on generalizing s with
  | _ n ih =>
  match n with
  | 0 =>
    have h0 : byteAt m s.format = 0 := hnul.nul
    refine ⟨⟨s, .refl, h0⟩, fun t ht => ?_⟩
    rcases ht.cases_head with rfl | ⟨t', ht', -⟩
    · have hne : byteAt m s.format ≠ percent.val := by
        rw [h0]
        exact percent.property.symm
      rw [reads_other hne]
      exact fun a ha => Nat.le_of_eq (List.mem_singleton.mp ha)
    · rw [step_nul h0] at ht'
      exact absurd ht' (Option.not_mem_none t')
  | n + 1 =>
    by_cases hc : byteAt m s.format = percent.val
    · match n with
      | 0 =>
        rw [textAt, hc, textAt] at hd
        exact absurd hd (by decide)
      | n + 1 =>
        obtain ⟨t, hstep, ht⟩ := step_percent args htotal hc
        rw [textAt, hc, textAt] at hd
        have htail : FirstNul m t.format n := by
          rw [ht]
          exact hnul.tail.tail
        obtain ⟨⟨e, he, hend⟩, hin⟩ := ih n (by omega) htail (by rw [ht]; exact hd)
        refine ⟨⟨e, .head hstep he, hend⟩, fun u hu a ha => ?_⟩
        rcases reaches_step hstep hu with rfl | hu
        · have := reads_le m _ a ha
          omega
        · have := hin u hu a ha
          omega
    · obtain ⟨t, hstep, ht⟩ := step_other switch args hnul.head hc
      rw [textAt, dangling_other hc] at hd
      obtain ⟨⟨e, he, hend⟩, hin⟩ := ih n (by omega) (ht ▸ hnul.tail) (by rw [ht]; exact hd)
      refine ⟨⟨e, .head hstep he, hend⟩, fun u hu a ha => ?_⟩
      rcases reaches_step hstep hu with rfl | hu
      · rw [reads_other hc, List.mem_singleton] at ha
        omega
      · have := hin u hu a ha
        omega

/-- **A dangling `%`**: some round reads after the NUL. -/
theorem scan_outside (args : Nat → BitVec 32) (htotal : switch.Total) (hnul : FirstNul m s.format n)
    (hd : dangling (textAt m s.format n) = true) :
    ∃ t, Reaches (scanStep switch m args) s t ∧ ∃ a ∈ roundReads m t.format, s.format + n < a := by
  induction n using Nat.strong_induction_on generalizing s with
  | _ n ih =>
  match n with
  | 0 => exact absurd hd Bool.false_ne_true
  | n + 1 =>
    by_cases hc : byteAt m s.format = percent.val
    · obtain ⟨t, hstep, ht⟩ := step_percent args htotal hc
      match n with
      | 0 =>
        refine ⟨t, .single hstep, t.format, ?_, by omega⟩
        unfold roundReads
        split <;> simp
      | n + 1 =>
        rw [textAt, hc, textAt] at hd
        have htail : FirstNul m t.format n := by
          rw [ht]
          exact hnul.tail.tail
        obtain ⟨u, hu, a, ha, hlt⟩ := ih n (by omega) htail (by rw [ht]; exact hd)
        exact ⟨u, .head hstep hu, a, ha, by omega⟩
    · obtain ⟨t, hstep, ht⟩ := step_other switch args hnul.head hc
      rw [textAt, dangling_other hc] at hd
      obtain ⟨u, hu, a, ha, hlt⟩ := ih n (by omega) (ht ▸ hnul.tail) (by rw [ht]; exact hd)
      exact ⟨u, .head hstep hu, a, ha, by omega⟩

theorem staysInside_iff (htotal : switch.Total) {format : Nat} (hnul : FirstNul m format n) :
    StaysInside switch m args format n ↔ dangling (textAt m format n) = false := by
  constructor
  · intro h
    by_contra hd
    obtain ⟨t, ht, a, ha, hlt⟩ := scan_outside (s := ⟨format, 0, []⟩) args htotal hnul
      (Bool.eq_true_of_not_eq_false hd)
    exact Nat.not_lt.mpr (h.inside t ht a ha) hlt
  · intro hd
    obtain ⟨hends, hin⟩ := scan_inside (s := ⟨format, 0, []⟩) args htotal hnul hd
    exact ⟨hends, hin⟩

end Rounds

/-! ## What the list model says of it -/

/-- The words from the `k`-th on are these arguments. -/
def ArgsAt (m : Bytes) (args : Nat → BitVec 32) : Nat → List Arg → Prop
  | _, [] => True
  | k, .word w :: rest => args k = w ∧ ArgsAt m args (k + 1) rest
  | k, .str s :: rest =>
    writestring m (args k) = some (s.map Subtype.val) ∧ ArgsAt m args (k + 1) rest

/-- A `switch` does in memory what `case` does with the list of arguments. -/
def Realises (m : Bytes) (args : Nat → BitVec 32) (switch : Switch)
    (case : CChar → List Arg → Option (List (BitVec 8) × List Arg)) : Prop :=
  ∀ f k as out rest, ArgsAt m args k as → case f as = some (out, rest) →
    ∃ n, switch f.val (args k) = some (out, n) ∧ ArgsAt m args (k + n) rest

section Refine

variable {m : Bytes} {args : Nat → BitVec 32} {k : Nat} {as rest : List Arg} {out : List (BitVec 8)}

theorem printWord_refines {print : BitVec 32 → Option (List (BitVec 8))} (has : ArgsAt m args k as)
    (h : printWord print as = some (out, rest)) :
    ∃ n, (print (args k)).map (·, 1) = some (out, n) ∧ ArgsAt m args (k + n) rest := by
  match as with
  | .word w :: as =>
    obtain ⟨hw, hrest⟩ := has
    simp only [printWord, nextWord, Option.bind_eq_bind, Option.bind_some, Option.bind_eq_some_iff,
      Option.some.injEq, Prod.mk.injEq] at h
    obtain ⟨out', hout, rfl, rfl⟩ := h
    exact ⟨1, by rw [hw, hout]; rfl, hrest⟩

theorem printStr_refines (has : ArgsAt m args k as) (h : printStr as = some (out, rest)) :
    ∃ n, (writestring m (args k)).map (·, 1) = some (out, n) ∧ ArgsAt m args (k + n) rest := by
  match as with
  | .str s :: as =>
    obtain ⟨hs, hrest⟩ := has
    simp only [printStr, nextStr, Option.bind_eq_bind, Option.bind_some, Option.some.injEq,
      Prod.mk.injEq] at h
    obtain ⟨rfl, rfl⟩ := h
    exact ⟨1, by rw [hs]; rfl, hrest⟩

theorem kprintf_realises (m : Bytes) (args : Nat → BitVec 32) :
    Realises m args (kprintfSwitch m) kprintfCase := by
  intro f k as out rest has h
  unfold kprintfCase at h
  unfold kprintfSwitch
  simp only [← Subtype.ext_iff]
  split_ifs at h ⊢
  · exact printWord_refines has h
  · exact printWord_refines has h
  · exact printWord_refines has h
  · exact printStr_refines has h
  · cases h
    exact ⟨0, rfl, has⟩
  · cases h
    exact ⟨0, rfl, has⟩

theorem serial_realises (m : Bytes) (args : Nat → BitVec 32) :
    Realises m args (serialSwitch m) serialCase := by
  intro f k as out rest has h
  unfold serialCase at h
  unfold serialSwitch
  simp only [← Subtype.ext_iff]
  split_ifs at h ⊢
  · exact printWord_refines has h
  · exact printWord_refines has h
  · exact printWord_refines has h
  · exact printStr_refines has h
  · cases h
    exact ⟨0, rfl, has⟩
  · cases h
    exact ⟨0, rfl, has⟩

/-- **The loop in memory sends what `scan` says**, and ends at the terminator. -/
theorem scan_refines {switch : Switch}
    {case : CChar → List Arg → Option (List (BitVec 8) × List Arg)}
    (hcase : Realises m args switch case) :
    ∀ (text : List CChar) (s : ScanState) (as : List Arg) (out : List (BitVec 8)),
      textAt m s.format text.length = text.map Subtype.val →
      byteAt m (s.format + text.length) = 0 → ArgsAt m args s.taken as →
      scan case text as = some out →
      ∃ t, Reaches (scanStep switch m args) s t ∧ t.format = s.format + text.length ∧
        t.out = s.out ++ out
  | [], s, as, out, _, _, _, h => by
    cases h
    exact ⟨s, .refl, rfl, (List.append_nil _).symm⟩
  | c :: text, s, as, out, htext, hnul, has, h => by
    rw [List.length_cons, textAt, List.map_cons, List.cons.injEq] at htext
    obtain ⟨hc, htext⟩ := htext
    have hc0 : byteAt m s.format ≠ 0 := hc ▸ c.property
    rw [scan.eq_def] at h
    by_cases hp : c = percent
    · cases text with
      | nil =>
        simp only [hp, ↓reduceIte] at h
        cases h
      | cons f text =>
        simp only [hp, ↓reduceIte, Option.bind_eq_bind, Option.bind_eq_some_iff,
          Option.map_eq_some_iff, Prod.exists] at h
        obtain ⟨out₁, as', hf, out₂, hrest, rfl⟩ := h
        rw [List.length_cons, textAt, List.map_cons, List.cons.injEq] at htext
        obtain ⟨hfc, htext⟩ := htext
        obtain ⟨n, hsw, has'⟩ := hcase f s.taken as out₁ as' has hf
        have hstep : scanStep switch m args s =
            some ⟨s.format + 2, s.taken + n, s.out ++ out₁⟩ := by
          rw [scanStep, if_neg hc0, if_pos (hc.trans (congrArg Subtype.val hp)), hfc, hsw]
          rfl
        have hend : s.format + (c :: f :: text).length = s.format + 2 + text.length := by
          rw [List.length_cons, List.length_cons]
          omega
        rw [hend] at hnul ⊢
        obtain ⟨t, ht, hformat, hout⟩ := scan_refines hcase text
          ⟨s.format + 2, s.taken + n, s.out ++ out₁⟩ as' out₂ htext hnul has' hrest
        exact ⟨t, .head hstep ht, hformat, by rw [hout, List.append_assoc]⟩
    · simp only [hp, ↓reduceIte, Option.map_eq_some_iff] at h
      obtain ⟨out', hrest, rfl⟩ := h
      have hne : byteAt m s.format ≠ percent.val := fun heq =>
        hp (Subtype.ext (hc.symm.trans heq))
      have hstep : scanStep switch m args s = some ⟨s.format + 1, s.taken, s.out ++ [c.val]⟩ := by
        rw [scanStep, if_neg hc0, if_neg hne, hc]
      have hend : s.format + (c :: text).length = s.format + 1 + text.length := by
        rw [List.length_cons]
        omega
      rw [hend] at hnul ⊢
      obtain ⟨t, ht, hformat, hout⟩ := scan_refines hcase text
        ⟨s.format + 1, s.taken, s.out ++ [c.val]⟩ as out' htext hnul has hrest
      exact ⟨t, .head hstep ht, hformat, by rw [hout, List.append_assoc]; rfl⟩

theorem printf_refines {a : Nat} {text : List CChar}
    (htext : textAt m a text.length = text.map Subtype.val) (hnul : byteAt m (a + text.length) = 0)
    (has : ArgsAt m args 0 as) :
    (∀ out, kprintf text as = some out →
      ∃ t, Reaches (scanStep (kprintfSwitch m) m args) ⟨a, 0, []⟩ t ∧ byteAt m t.format = 0 ∧
        t.out = out) ∧
    ∀ out, serialPrintf text as = some out →
      ∃ t, Reaches (scanStep (serialSwitch m) m args) ⟨a, 0, []⟩ t ∧ byteAt m t.format = 0 ∧
        t.out = out := by
  constructor
  · intro out h
    obtain ⟨t, ht, hformat, hout⟩ := scan_refines (kprintf_realises m args) text ⟨a, 0, []⟩ as out
      htext hnul has h
    exact ⟨t, ht, by rw [hformat]; exact hnul, hout⟩
  · intro out h
    obtain ⟨t, ht, hformat, hout⟩ := scan_refines (serial_realises m args) text ⟨a, 0, []⟩ as out
      htext hnul has h
    exact ⟨t, ht, by rw [hformat]; exact hnul, hout⟩

end Refine

/-! ## The cursor -/

/-- **The cursor stays in the format string.** For every string in memory and all words on
the stack, `kprintf` and `serial_printf` end and read no character after the NUL if and
only if the string has no `%` at its end without a character of its own. -/
theorem format_inside_iff (m : Bytes) (format n : Nat) (args : Nat → BitVec 32)
    (hnul : FirstNul m format n) :
    (StaysInside (kprintfSwitch m) m args format n ↔ dangling (textAt m format n) = false) ∧
      (StaysInside (serialSwitch m) m args format n ↔ dangling (textAt m format n) = false) :=
  ⟨staysInside_iff (kprintfSwitch_total hnul.nul) hnul,
    staysInside_iff (serialSwitch_total hnul.nul) hnul⟩

/-- `"%%"`, with zeros behind it. -/
theorem format_inside_percents :
    StaysInside (kprintfSwitch (fun a => if a < 2 then 0x25 else 0))
        (fun a => if a < 2 then 0x25 else 0) (fun _ => 0) 0 2 ∧
      StaysInside (serialSwitch (fun a => if a < 2 then 0x25 else 0))
        (fun a => if a < 2 then 0x25 else 0) (fun _ => 0) 0 2 := by
  obtain ⟨hk, hs⟩ := format_inside_iff (fun a => if a < 2 then 0x25 else 0) 0 2 (fun _ => 0)
    ⟨by decide, by decide⟩
  exact ⟨hk.mpr (by decide), hs.mpr (by decide)⟩

/-- **`"50%"`**: both read after its terminator. -/
theorem format_outside_percent :
    FirstNul (fun a => [0x35, 0x30, 0x25].getD a 0) 0 3 ∧
      ¬ StaysInside (kprintfSwitch fun a => [0x35, 0x30, 0x25].getD a 0)
        (fun a => [0x35, 0x30, 0x25].getD a 0) (fun _ => 0) 0 3 ∧
      ¬ StaysInside (serialSwitch fun a => [0x35, 0x30, 0x25].getD a 0)
        (fun a => [0x35, 0x30, 0x25].getD a 0) (fun _ => 0) 0 3 := by
  have hnul : FirstNul (fun a => [0x35, 0x30, 0x25].getD a 0) 0 3 := ⟨by decide, by decide⟩
  refine ⟨hnul, fun h => ?_, fun h => ?_⟩
  · exact absurd ((staysInside_iff (kprintfSwitch_total hnul.nul) hnul).mp h) (by decide)
  · exact absurd ((staysInside_iff (serialSwitch_total hnul.nul) hnul).mp h) (by decide)

end TupleOS.Console
