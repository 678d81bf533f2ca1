import Mathlib.Algebra.Ring.Nat
import Mathlib.Data.Nat.Digits.Defs
import Mathlib.Data.Nat.Digits.Lemmas

/-!
# The two formatters (`kernel/kprintf.c`, `kernel/serial.c`)

`kprintf` and `serial_printf` are written separately: the same loop over the
format string, each with its own `switch` and its own number printers. What they
send is the list of characters given to `terminal_putchar` and `serial_putchar`.

A format string of the documented kind is a list of `Item`s, each with its text,
its argument and what should be printed for it. `serial_printf` prints that for
every list; `kprintf` prints `%%` as two percent signs, and agrees exactly on the
lists without it (`formatters_agree_iff`).
-/

namespace TupleOS.Console

abbrev CChar := {c : BitVec 8 // c ≠ 0}

/-- What is passed after the format string. -/
inductive Arg where
  | word (w : BitVec 32)
  | str (s : List CChar)

/-! ## Number printers -/

/-- `while (num > 0) buffer[i++] = …` in a buffer with `slots` left; `none` is a
store after its end. -/
def fillBuffer (base : Nat) (digit : Nat → BitVec 8) : Nat → Nat → Option (List (BitVec 8))
  | 0, num => if num = 0 then some [] else none
  | slots + 1, num =>
    if num = 0 then some []
    else (fillBuffer base digit slots (num / base)).map (digit (num % base) :: ·)

/-- The body of the printers: a buffer of `size` bytes, printed backwards. -/
def printNumber (base : Nat) (digit : Nat → BitVec 8) (size num : Nat) : Option (List (BitVec 8)) :=
  if num = 0 then some [0x30] else (fillBuffer base digit size num).map List.reverse

def decDigit (d : Nat) : BitVec 8 := BitVec.ofNat 8 (0x30 + d)

/-- `(digit < 10) ? ('0' + digit) : ('A' + digit - 10)`. -/
def hexDigit (d : Nat) : BitVec 8 :=
  if d < 10 then BitVec.ofNat 8 (0x30 + d) else BitVec.ofNat 8 (0x41 + d - 10)

def printUint (num : BitVec 32) : Option (List (BitVec 8)) := printNumber 10 decDigit 12 num.toNat

def printInt (num : BitVec 32) : Option (List (BitVec 8)) :=
  if num.slt 0 then (printUint (-num)).map (0x2D :: ·) else printUint num

def printHex (num : BitVec 32) : Option (List (BitVec 8)) := printNumber 16 hexDigit 8 num.toNat

def serialPrintUint (num : BitVec 32) : Option (List (BitVec 8)) :=
  printNumber 10 decDigit 12 num.toNat

def serialPrintInt (num : BitVec 32) : Option (List (BitVec 8)) :=
  if num.slt 0 then (serialPrintUint (-num)).map (0x2D :: ·) else serialPrintUint num

def serialPrintHex (num : BitVec 32) : Option (List (BitVec 8)) :=
  printNumber 16 hexDigit 8 num.toNat

/-! ## The scanners -/

/-- `va_arg(args, uint32_t)`; `none` when the argument is another. -/
def nextWord : List Arg → Option (BitVec 32 × List Arg)
  | .word w :: args => some (w, args)
  | _ => none

def nextStr : List Arg → Option (List CChar × List Arg)
  | .str s :: args => some (s, args)
  | _ => none

def percent : CChar := ⟨0x25, by decide⟩
def charD : CChar := ⟨0x64, by decide⟩
def charU : CChar := ⟨0x75, by decide⟩
def charX : CChar := ⟨0x78, by decide⟩
def charS : CChar := ⟨0x73, by decide⟩

/-- A number printer on the next argument. -/
def printWord (print : BitVec 32 → Option (List (BitVec 8))) (args : List Arg) :
    Option (List (BitVec 8) × List Arg) := do
  let (w, args) ← nextWord args
  let out ← print w
  some (out, args)

/-- `terminal_writestring` and `serial_writestring` on the next argument. -/
def printStr (args : List Arg) : Option (List (BitVec 8) × List Arg) := do
  let (s, args) ← nextStr args
  some (s.map Subtype.val, args)

def kprintfCase (f : CChar) (args : List Arg) : Option (List (BitVec 8) × List Arg) :=
  if f = charD then printWord printInt args
  else if f = charU then printWord printUint args
  else if f = charX then printWord printHex args
  else if f = charS then printStr args
  else if f = percent then some ([percent.val, f.val], args)
  else some ([], args)

def serialCase (f : CChar) (args : List Arg) : Option (List (BitVec 8) × List Arg) :=
  if f = charD then printWord serialPrintInt args
  else if f = charU then printWord serialPrintUint args
  else if f = charX then printWord serialPrintHex args
  else if f = charS then printStr args
  else if f = percent then some ([percent.val], args)
  else some ([percent.val, f.val], args)

/-- The loop over the format string, around the `switch`. A `%` at the end lets it
run on after the string. -/
def scan (switch : CChar → List Arg → Option (List (BitVec 8) × List Arg)) :
    List CChar → List Arg → Option (List (BitVec 8))
  | [], _ => some []
  | c :: rest, args =>
    if c = percent then
      match rest with
      | [] => none
      | f :: rest => do
        let (out, args) ← switch f args
        (scan switch rest args).map (out ++ ·)
    else (scan switch rest args).map (c.val :: ·)

/-- `kprintf`: what it gives to `terminal_putchar`. -/
def kprintf (format : List CChar) (args : List Arg) : Option (List (BitVec 8)) :=
  scan kprintfCase format args

/-- `serial_printf`: what it gives to `serial_putchar`. -/
def serialPrintf (format : List CChar) (args : List Arg) : Option (List (BitVec 8)) :=
  scan serialCase format args

/-! ## What should be printed -/

/-- The numeral of `n` in base `b`, highest digit first. -/
def numeral (b n : Nat) : List (BitVec 8) :=
  if n = 0 then [0x30] else (Nat.digits b n).reverse.map hexDigit

def intNumeral (i : Int) : List (BitVec 8) :=
  if i < 0 then 0x2D :: numeral 10 i.natAbs else numeral 10 i.natAbs

/-- A literal character, or a documented specifier with its argument. -/
inductive Item where
  | lit (c : CChar) (h : c ≠ percent)
  | int (w : BitVec 32)
  | uint (w : BitVec 32)
  | hex (w : BitVec 32)
  | str (s : List CChar)
  | percent

namespace Item

def text : Item → List CChar
  | lit c _ => [c]
  | int _ => [Console.percent, charD]
  | uint _ => [Console.percent, charU]
  | hex _ => [Console.percent, charX]
  | str _ => [Console.percent, charS]
  | percent => [Console.percent, Console.percent]

def args : Item → List Arg
  | int w => [.word w]
  | uint w => [.word w]
  | hex w => [.word w]
  | str s => [.str s]
  | _ => []

def expected : Item → List (BitVec 8)
  | lit c _ => [c.val]
  | int w => intNumeral w.toInt
  | uint w => numeral 10 w.toNat
  | hex w => numeral 16 w.toNat
  | str s => s.map Subtype.val
  | percent => [Console.percent.val]

end Item

/-! ## Numbers -/

theorem fillBuffer_digits {base : Nat} (hb : 1 < base) (digit : Nat → BitVec 8) {slots n : Nat}
    (hn : n < base ^ slots) :
    fillBuffer base digit slots n = some ((Nat.digits base n).map digit) := by
  induction slots generalizing n with
  | zero =>
    obtain rfl : n = 0 := by simpa using hn
    simp [fillBuffer]
  | succ slots ih =>
    by_cases h0 : n = 0
    · subst h0
      simp [fillBuffer]
    · have hdiv : n / base < base ^ slots := by
        rw [pow_succ'] at hn
        exact Nat.div_lt_of_lt_mul hn
      rw [fillBuffer, if_neg h0, ih hdiv, Nat.digits_def' hb (Nat.pos_of_ne_zero h0)]
      rfl

theorem printNumber_numeral {base size n : Nat} {digit : Nat → BitVec 8} (hb : 1 < base)
    (hdigit : ∀ d < base, digit d = hexDigit d) (hn : n < base ^ size) :
    printNumber base digit size n = some (numeral base n) := by
  unfold printNumber numeral
  by_cases h0 : n = 0
  · rw [if_pos h0, if_pos h0]
  · rw [if_neg h0, if_neg h0, fillBuffer_digits hb digit hn, Option.map_some, List.map_reverse]
    congr 2
    exact List.map_congr_left fun d hd => hdigit d (Nat.digits_lt_base hb hd)

theorem printUint_numeral (w : BitVec 32) : printUint w = some (numeral 10 w.toNat) := by
  refine printNumber_numeral (by decide) (fun d hd => ?_) (Nat.lt_trans w.isLt (by decide))
  rw [hexDigit, if_pos hd]
  rfl

theorem printHex_numeral (w : BitVec 32) : printHex w = some (numeral 16 w.toNat) :=
  printNumber_numeral (by decide) (fun _ _ => rfl) (Nat.lt_of_lt_of_le w.isLt (by decide))

theorem natAbs_toInt_of_neg {w : BitVec 32} (h : w.slt 0) : (-w).toNat = w.toInt.natAbs := by
  have hneg : w.toInt < 0 := by
    rw [BitVec.slt_iff_toInt_lt] at h
    simpa using h
  rw [BitVec.toInt_eq_toNat_cond] at hneg ⊢
  have hlt := w.isLt
  rw [BitVec.toNat_neg]
  split at hneg
  · omega
  · rename_i hc
    rw [if_neg hc]
    omega

theorem printInt_numeral (w : BitVec 32) : printInt w = some (intNumeral w.toInt) := by
  unfold printInt intNumeral
  by_cases h : w.slt 0
  · have hneg : w.toInt < 0 := by
      rw [BitVec.slt_iff_toInt_lt] at h
      simpa using h
    rw [if_pos h, if_pos hneg, printUint_numeral, natAbs_toInt_of_neg h]
    rfl
  · have hpos : ¬ w.toInt < 0 := fun hlt => h (by
      rw [BitVec.slt_iff_toInt_lt]
      simpa using hlt)
    have hnat : w.toInt.natAbs = w.toNat := by
      rw [BitVec.toInt_eq_toNat_cond] at hpos ⊢
      have hlt := w.isLt
      split at hpos
      · omega
      · omega
    rw [if_neg h, if_neg hpos, printUint_numeral, hnat]

/-- The characters of the digits, `0` to `9` and `A` to `F`. -/
def digitChars : List Char :=
  ['0', '1', '2', '3', '4', '5', '6', '7', '8', '9', 'A', 'B', 'C', 'D', 'E', 'F']

def digitChar (d : Nat) : BitVec 8 := BitVec.ofNat 8 (digitChars.getD d '?').toNat

theorem hexDigit_eq : ∀ d < 16, hexDigit d = digitChar d := by decide

/-- A canonical numeral of `n`: digits of the base, highest first, that add up to it, with
no zero in front. -/
def IsNumeral (base n : Nat) (out : List (BitVec 8)) : Prop :=
  ∃ ds : List Nat, out = ds.map digitChar ∧ (∀ d ∈ ds, d < base) ∧
    Nat.ofDigits base ds.reverse = n ∧ ds ≠ [] ∧ (ds.head? = some 0 → ds = [0])

def IsIntNumeral (i : Int) (out : List (BitVec 8)) : Prop :=
  if i < 0 then ∃ ds, out = 0x2D :: ds ∧ IsNumeral 10 i.natAbs ds else IsNumeral 10 i.natAbs out

theorem numeral_isNumeral {b : Nat} (hb : 1 < b) (hle : b ≤ 16) (n : Nat) :
    IsNumeral b n (numeral b n) := by
  unfold numeral
  by_cases h0 : n = 0
  · subst h0
    refine ⟨[0], rfl, fun d hd => ?_, rfl, List.cons_ne_nil 0 [], fun _ => rfl⟩
    obtain rfl := List.mem_singleton.mp hd
    exact Nat.lt_trans Nat.zero_lt_one hb
  · have hne : Nat.digits b n ≠ [] := Nat.digits_ne_nil_iff_ne_zero.mpr h0
    rw [if_neg h0]
    refine ⟨(Nat.digits b n).reverse, ?_, fun d hd => ?_, ?_, ?_, fun hhead => ?_⟩
    · apply List.map_congr_left
      intro d hd
      have hlt := Nat.digits_lt_base hb (List.mem_reverse.mp hd)
      exact hexDigit_eq d (Nat.lt_of_lt_of_le hlt hle)
    · exact Nat.digits_lt_base hb (List.mem_reverse.mp hd)
    · rw [List.reverse_reverse, Nat.ofDigits_digits]
    · exact fun h => hne (List.reverse_eq_nil_iff.mp h)
    · rw [List.head?_reverse, List.getLast?_eq_some_getLast hne, Option.some.injEq] at hhead
      exact absurd hhead (Nat.getLast_digit_ne_zero b h0)

theorem intNumeral_isIntNumeral (i : Int) : IsIntNumeral i (intNumeral i) := by
  unfold IsIntNumeral intNumeral
  split
  · exact ⟨_, rfl, numeral_isNumeral (by decide) (by decide) _⟩
  · exact numeral_isNumeral (by decide) (by decide) _

/-- Three printers whose digits all fit into their buffers, and which print the unsigned, the
signed and the hexadecimal numeral of every value. -/
def PrintsExactly (uint int hex : BitVec 32 → Option (List (BitVec 8))) : Prop :=
  ∀ w, (∃ out, uint w = some out ∧ IsNumeral 10 w.toNat out) ∧
    (∃ out, int w = some out ∧ IsIntNumeral w.toInt out) ∧
    ∃ out, hex w = some out ∧ IsNumeral 16 w.toNat out

/-- **The number printers are exact**, in both files. -/
theorem printers_exact : PrintsExactly printUint printInt printHex ∧
    PrintsExactly serialPrintUint serialPrintInt serialPrintHex := by
  have hexact : PrintsExactly printUint printInt printHex := fun w =>
    ⟨⟨_, printUint_numeral w, numeral_isNumeral (by decide) (by decide) _⟩,
      ⟨_, printInt_numeral w, intNumeral_isIntNumeral _⟩,
      ⟨_, printHex_numeral w, numeral_isNumeral (by decide) (by decide) _⟩⟩
  -- the printers of the two files are the same text
  exact ⟨hexact, hexact⟩

/-! ## Format strings -/

section Scan

variable {switch : CChar → List Arg → Option (List (BitVec 8) × List Arg)}

/-- `out` is what the scanner sends for the item. -/
def Sends (switch : CChar → List Arg → Option (List (BitVec 8) × List Arg)) (i : Item)
    (out : List (BitVec 8)) : Prop :=
  ∀ rest args, scan switch (i.text ++ rest) (i.args ++ args) =
    (scan switch rest args).map (out ++ ·)

theorem sends_lit (c : CChar) (h : c ≠ percent) : Sends switch (.lit c h) [c.val] := by
  intro rest args
  show scan switch (c :: rest) args = _
  rw [scan.eq_def]
  simp only [h, ↓reduceIte, List.singleton_append]

theorem sends_specifier {i : Item} {f : CChar} {out : List (BitVec 8)}
    (htext : i.text = [percent, f])
    (hout : ∀ args, switch f (i.args ++ args) = some (out, args)) : Sends switch i out := by
  intro rest args
  rw [htext]
  show scan switch (percent :: f :: rest) (i.args ++ args) = _
  rw [scan.eq_def]
  simp only [↓reduceIte, hout, Option.bind_eq_bind, Option.bind_some]

theorem printWord_word {print : BitVec 32 → Option (List (BitVec 8))} {w : BitVec 32}
    {out : List (BitVec 8)} (h : print w = some out) (args : List Arg) :
    printWord print (.word w :: args) = some (out, args) := by
  simp only [printWord, nextWord, Option.bind_eq_bind, Option.bind_some, h]

theorem scan_items {send : Item → List (BitVec 8)} (h : ∀ i, Sends switch i (send i))
    (items : List Item) :
    scan switch (items.flatMap Item.text) (items.flatMap Item.args) =
      some (items.flatMap send) := by
  induction items with
  | nil => rfl
  | cons i items ih =>
    rw [List.flatMap_cons, List.flatMap_cons, List.flatMap_cons, h i, ih]
    rfl

end Scan

theorem serial_sends (i : Item) : Sends serialCase i i.expected := by
  cases i with
  | lit c h => exact sends_lit c h
  | int w => exact sends_specifier rfl (printWord_word (printInt_numeral w))
  | uint w => exact sends_specifier rfl (printWord_word (printUint_numeral w))
  | hex w => exact sends_specifier rfl (printWord_word (printHex_numeral w))
  | str s => exact sends_specifier rfl fun _ => rfl
  | percent => exact sends_specifier rfl fun _ => rfl

/-- What `kprintf` sends: a percent sign too many. -/
def kprintfSends : Item → List (BitVec 8)
  | .percent => [percent.val, percent.val]
  | i => i.expected

theorem kprintf_sends (i : Item) : Sends kprintfCase i (kprintfSends i) := by
  cases i with
  | lit c h => exact sends_lit c h
  | int w => exact sends_specifier rfl (printWord_word (printInt_numeral w))
  | uint w => exact sends_specifier rfl (printWord_word (printUint_numeral w))
  | hex w => exact sends_specifier rfl (printWord_word (printHex_numeral w))
  | str s => exact sends_specifier rfl fun _ => rfl
  | percent => exact sends_specifier rfl fun _ => rfl

theorem kprintfSends_eq {i : Item} (h : i ≠ .percent) : kprintfSends i = i.expected := by
  cases i with
  | percent => exact absurd rfl h
  | _ => rfl

theorem length_expected_le (i : Item) : i.expected.length ≤ (kprintfSends i).length := by
  cases i with
  | percent => exact Nat.le_succ 1
  | _ => exact Nat.le_refl _

theorem length_items_le (items : List Item) :
    (items.flatMap Item.expected).length ≤ (items.flatMap kprintfSends).length := by
  induction items with
  | nil => exact Nat.le_refl 0
  | cons i items ih =>
    rw [List.flatMap_cons, List.flatMap_cons, List.length_append, List.length_append]
    exact Nat.add_le_add (length_expected_le i) ih

theorem length_items_lt {items : List Item} (h : .percent ∈ items) :
    (items.flatMap Item.expected).length < (items.flatMap kprintfSends).length := by
  induction items with
  | nil => cases h
  | cons i items ih =>
    rw [List.flatMap_cons, List.flatMap_cons, List.length_append, List.length_append]
    rcases List.mem_cons.mp h with rfl | hmem
    · exact Nat.add_lt_add_of_lt_of_le (Nat.lt_succ_self 1) (length_items_le items)
    · exact Nat.add_lt_add_of_le_of_lt (length_expected_le i) (ih hmem)

/-- **The formatters agree** on what should be printed exactly without `%%`. -/
theorem formatters_agree_iff (items : List Item) :
    (kprintf (items.flatMap Item.text) (items.flatMap Item.args) =
        some (items.flatMap Item.expected) ∧
      serialPrintf (items.flatMap Item.text) (items.flatMap Item.args) =
        some (items.flatMap Item.expected)) ↔ .percent ∉ items := by
  have hserial : serialPrintf (items.flatMap Item.text) (items.flatMap Item.args) =
      some (items.flatMap Item.expected) := scan_items serial_sends items
  have hkprintf : kprintf (items.flatMap Item.text) (items.flatMap Item.args) =
      some (items.flatMap kprintfSends) := scan_items kprintf_sends items
  constructor
  · rintro ⟨h, -⟩ hmem
    rw [hkprintf] at h
    have hlt := length_items_lt hmem
    rw [Option.some.inj h] at hlt
    exact Nat.lt_irrefl _ hlt
  · intro hmem
    refine ⟨hkprintf.trans (congrArg some ?_), hserial⟩
    exact List.flatMap_congr fun i hi => kprintfSends_eq fun heq => hmem (heq ▸ hi)

/-- `kprintf("100%%")` and `serial_printf("100%%")`. -/
theorem kprintf_percent :
    kprintf [⟨0x31, by decide⟩, ⟨0x30, by decide⟩, ⟨0x30, by decide⟩, percent, percent] [] =
        some [0x31, 0x30, 0x30, 0x25, 0x25] ∧
      serialPrintf [⟨0x31, by decide⟩, ⟨0x30, by decide⟩, ⟨0x30, by decide⟩, percent, percent] [] =
        some [0x31, 0x30, 0x30, 0x25] := by
  exact ⟨by decide, by decide⟩

end TupleOS.Console
