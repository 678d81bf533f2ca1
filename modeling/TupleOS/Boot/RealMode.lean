import TupleOS.Boot.Stage2
import Mathlib.Order.Interval.Set.Disjoint

/-!
# Stage 2 in real mode keeps its buffers apart

The map, the FAT and the stack share the memory below stage 2. `RealMode` is what
a territory must give the stack and the variables; each function of stage 2 then
keeps to its territory. The three parts of real mode (start, map, file system)
have different ones, because the stack goes down by a different amount in each.
-/

namespace TupleOS.Boot

open TupleOS.Base TupleOS.Memory

/-! ## The loop over the replies -/

/-- The replies that stage 2 takes: up to the last, or to one that fails. -/
def consulted : List Reply → List Reply
  | [] => []
  | r :: rs => if r.fails then [] else if r.last then [r] else r :: consulted rs

/-- The replies end with one that fails. -/
def givesUp : List Reply → Bool
  | [] => true
  | r :: rs => r.fails || (! r.last && givesUp rs)

def usableReplies (rs : List Reply) : Nat := (consulted rs).countP Reply.usable

/-- The entries of the map, with the two of E801 where E820 gives none. -/
def BootInput.entries (x : BootInput) : Nat :=
  if givesUp x.replies && decide (usableReplies x.replies = 0) then if x.e801 then 2 else 0
  else usableReplies x.replies

section Replies

variable {r : Reply} (sp c : Nat) (rs : List Reply)

theorem e820Loop_fails (hf : r.fails) : e820Loop sp c (r :: rs) = (e820Call sp c, c, true) :=
  if_pos hf

theorem e820Loop_last (hf : ¬ r.fails) (hl : r.last) : e820Loop sp c (r :: rs) =
    (e820Call sp c ++ e820Keep c r, if r.usable then c + 1 else c, false) :=
  (if_neg hf).trans (if_pos hl)

theorem e820Loop_next (hf : ¬ r.fails) (hl : ¬ r.last) : e820Loop sp c (r :: rs) =
    (e820Call sp c ++ e820Keep c r ++ (e820Loop sp (if r.usable then c + 1 else c) rs).1,
      (e820Loop sp (if r.usable then c + 1 else c) rs).2) :=
  (if_neg hf).trans (if_neg hl)

theorem usableReplies_last (hf : ¬ r.fails) (hl : r.last) :
    usableReplies (r :: rs) = if r.usable then 1 else 0 := by
  unfold usableReplies consulted
  rw [if_neg hf, if_pos hl, List.countP_singleton]

theorem usableReplies_next (hf : ¬ r.fails) (hl : ¬ r.last) :
    usableReplies (r :: rs) = usableReplies rs + if r.usable then 1 else 0 := by
  unfold usableReplies
  rw [consulted, if_neg hf, if_neg hl, List.countP_cons]

theorem count_step : (if r.usable then c + 1 else c) = c + if r.usable then 1 else 0 := by
  by_cases hu : r.usable <;> simp only [hu, ↓reduceIte, Bool.false_eq_true, Nat.add_zero]

end Replies

theorem e820Loop_result (sp c : Nat) (rs : List Reply) :
    (e820Loop sp c rs).2 = (c + usableReplies rs, givesUp rs) := by
  induction rs generalizing c with
  | nil => rfl
  | cons r rs ih =>
    by_cases hf : r.fails
    · rw [e820Loop_fails sp c rs hf, usableReplies, consulted, if_pos hf, givesUp, hf]
      rfl
    · by_cases hl : r.last
      · rw [e820Loop_last sp c rs hf hl, usableReplies_last rs hf hl, givesUp, hl,
          Bool.eq_false_iff.mpr hf]
        by_cases hu : r.usable <;> simp only [hu] <;> rfl
      · rw [e820Loop_next sp c rs hf hl, ih, usableReplies_next rs hf hl, givesUp,
          Bool.eq_false_iff.mpr hf, Bool.eq_false_iff.mpr hl]
        by_cases hu : r.usable
        · simp only [hu, ↓reduceIte, Bool.not_false, Bool.true_and, Bool.false_or, Prod.mk.injEq,
            and_true]
          omega
        · simp only [hu, ↓reduceIte, Bool.false_eq_true, Bool.not_false, Bool.true_and,
            Bool.false_or, Nat.add_zero]

theorem count_eq (x : BootInput) : x.count = x.entries := by
  unfold BootInput.count BootInput.entries detectMemory tryE801
  rw [← Nat.zero_add (usableReplies x.replies)]
  have hloop := e820Loop_result (stackTop - 2) 0 x.replies
  generalize e820Loop (stackTop - 2) 0 x.replies = out at hloop
  obtain ⟨us, c, failed⟩ := out
  obtain ⟨rfl, rfl⟩ := Prod.mk.inj hloop
  simp only
  split
  · split <;> rfl
  · rfl

/-! ## Territories in real mode -/

/-- The stack and the variables of a territory in real mode. -/
structure RealMode (W T : Region → Set Nat) (low : Nat) : Prop where
  writes : Set.Ico low stackTop ⊆ W .stack
  lives : Set.Ico low stackTop ⊆ T .stack
  code : codeWin ⊆ W .code

section RealMode

variable {W T : Region → Set Nat} {low sp n : Nat} {body : Nat → Uses} {buffer : Uses}

theorem RealMode.setVar (h : RealMode W T low) : Within W T setVar :=
  within_cons.mpr ⟨h.code, within_nil⟩

theorem RealMode.push (h : RealMode W T low) (hlow : low + n ≤ sp) (htop : sp ≤ stackTop)
    (hb : Within W T (body (sp - n))) : Within W T (push sp n body) :=
  within_pushed h.writes h.lives (by omega) htop hb

theorem RealMode.call (h : RealMode W T low) (hlow : low + 2 ≤ sp) (htop : sp ≤ stackTop)
    (hb : Within W T (body (sp - 2))) : Within W T (call sp body) := by
  unfold Boot.call
  exact h.push hlow htop hb

theorem RealMode.interrupt (h : RealMode W T low) (hlow : low + 6 ≤ sp) (htop : sp ≤ stackTop)
    (hb : Within W T buffer) : Within W T (interrupt sp buffer) := by
  unfold Boot.interrupt
  exact h.push hlow htop hb

theorem RealMode.printString (h : RealMode W T low) (hlow : low + 8 ≤ sp) (htop : sp ≤ stackTop) :
    Within W T (printString sp) := by
  unfold Boot.printString
  exact h.call (by omega) htop (h.interrupt (by omega) (by omega) within_nil)

theorem RealMode.printHex (h : RealMode W T low) (hlow : low + 8 ≤ sp) (htop : sp ≤ stackTop) :
    Within W T (printHex sp) :=
  h.printString hlow htop

theorem RealMode.readSectors (h : RealMode W T low) (hlow : low + 24 ≤ sp) (htop : sp ≤ stackTop)
    (hb : Within W T buffer) : Within W T (readSectors buffer sp) := by
  unfold Boot.readSectors
  exact h.call (by omega) htop (h.push (by omega) (by omega)
    (within_append.mpr ⟨h.setVar, h.interrupt (by omega) (by omega) hb⟩))

theorem RealMode.checkA20 (h : RealMode W T low) (hprobe : {0x500, 0x100500} ⊆ W .other)
    (hlow : low + 16 ≤ sp) (htop : sp ≤ stackTop) : Within W T (checkA20 sp) := by
  have hall : ∀ s : Set Nat, s ⊆ {0x500, 0x100500} → Within W T [.write .other s] :=
    fun s hs => within_cons.mpr ⟨hs.trans hprobe, within_nil⟩
  unfold Boot.checkA20
  refine h.call (by omega) htop (h.push (by omega) (by omega) (within_append.mpr
    ⟨h.push (by omega) (by omega) (within_append.mpr ⟨h.push (by omega) (by omega) ?_, ?_⟩), ?_⟩))
  · exact hall _ subset_rfl
  · exact hall _ (by simp)
  · exact hall _ (by simp)

theorem RealMode.enableA20 (h : RealMode W T low) (hprobe : {0x500, 0x100500} ⊆ W .other)
    (a20 : A20) (hlow : low + 18 ≤ sp) (htop : sp ≤ stackTop) : Within W T (enableA20 a20 sp) := by
  have hprint : Within W T (Boot.printString (sp - 2)) := h.printString (by omega) (by omega)
  have hcheck : Within W T (Boot.checkA20 (sp - 2)) := h.checkA20 hprobe (by omega) (by omega)
  have hwait : Within W T (kbdWait (sp - 2)) := by
    unfold kbdWait
    exact h.call (by omega) (by omega) within_nil
  have hint : Within W T (Boot.interrupt (sp - 2) []) :=
    h.interrupt (by omega) (by omega) within_nil
  unfold Boot.enableA20
  refine h.call (by omega) htop ?_
  simp only [within_append, hprint, hint, true_and]
  refine ⟨?_, ?_⟩
  · split
    · exact within_nil
    · exact hcheck
  · split
    · exact within_nil
    · simp only [within_append, hprint, hwait, hcheck, true_and]
      split
      · exact within_nil
      · exact within_append.mpr ⟨hprint, hcheck⟩

theorem within_flatten {us : Uses} (n : Nat) (h : Within W T us) :
    Within W T (List.replicate n us).flatten := by
  intro u hu
  obtain ⟨l, hl, hul⟩ := List.mem_flatten.mp hu
  exact h u ((List.mem_replicate.mp hl).2 ▸ hul)

theorem RealMode.printMemoryMap (h : RealMode W T low) (n : Nat) (hlow : low + 14 ≤ sp)
    (htop : sp ≤ stackTop) : Within W T (printMemoryMap n sp) := by
  unfold Boot.printMemoryMap
  refine h.call (by omega) htop (within_flatten _ ?_)
  unfold printEntry
  refine h.push (by omega) (by omega) ?_
  have hprint : Within W T (Boot.printString (sp - 2 - 2 - 2)) :=
    h.printString (by omega) (by omega)
  have hhex : Within W T (Boot.printHex (sp - 2 - 2 - 2)) := h.printHex (by omega) (by omega)
  have hint : Within W T (Boot.interrupt (sp - 2 - 2 - 2) []) :=
    h.interrupt (by omega) (by omega) within_nil
  have hpush : ∀ {b : Nat → Uses}, Within W T (b (sp - 2 - 2 - 2)) →
      Within W T (Boot.push (sp - 2 - 2) 2 b) := fun hb => h.push (by omega) (by omega) hb
  simp only [within_append]
  exact ⟨⟨⟨⟨⟨hpush hprint, hpush hhex⟩, hpush (within_append.mpr ⟨hhex, hprint⟩)⟩, hpush hhex⟩,
    hpush (within_append.mpr ⟨hhex, hprint⟩)⟩, hpush (within_append.mpr ⟨hint, hprint⟩)⟩

theorem RealMode.fat16Init (h : RealMode W T low) {fatSize : Nat}
    (hbuf : Set.Ico 0x500 0x700 ⊆ W .other) (hfatW : fatWin fatSize ⊆ W .fat)
    (hfatT : fatWin fatSize ⊆ T .fat) (hlow : low + 28 ≤ sp) (htop : sp ≤ stackTop) :
    Within W T (fat16Init fatSize sp) := by
  have hsector : Within W T sectorRead := within_cons.mpr ⟨hbuf, within_nil⟩
  have hfat : Within W T [.write .fat (fatWin fatSize), .live .fat (fatWin fatSize)] :=
    within_cons.mpr ⟨hfatW, within_cons.mpr ⟨hfatT, within_nil⟩⟩
  unfold Boot.fat16Init
  refine h.call (by omega) htop (within_append.mpr ⟨within_append.mpr
    ⟨h.printString (by omega) (by omega), h.push (by omega) (by omega) ?_⟩,
    h.printString (by omega) (by omega)⟩)
  exact within_append.mpr ⟨within_append.mpr ⟨h.readSectors (by omega) (by omega) hsector,
    h.setVar⟩, h.readSectors (by omega) (by omega) hfat⟩

theorem RealMode.fat16FindFile (h : RealMode W T low) (scanned : Nat)
    (hbuf : Set.Ico 0x500 0x700 ⊆ W .other) (hlow : low + 34 ≤ sp) (htop : sp ≤ stackTop) :
    Within W T (fat16FindFile scanned sp) := by
  have hsector : Within W T sectorRead := within_cons.mpr ⟨hbuf, within_nil⟩
  unfold Boot.fat16FindFile
  refine h.call (by omega) htop (within_append.mpr ⟨within_append.mpr ⟨within_append.mpr
    ⟨h.printString (by omega) (by omega), within_flatten _ ?_⟩, h.setVar⟩,
    h.push (by omega) (by omega) (h.printString (by omega) (by omega))⟩)
  unfold scanSector
  refine h.push (by omega) (by omega) (within_append.mpr ⟨?_, ?_⟩)
  · exact h.push (by omega) (by omega) (h.push (by omega) (by omega)
      (h.readSectors (by omega) (by omega) hsector))
  · exact h.push (by omega) (by omega) within_nil

theorem RealMode.startUp (h : RealMode W T low) (hprobe : {0x500, 0x100500} ⊆ W .other)
    (hlive : codeWin ⊆ T .code) (a20 : A20) (hlow : low + 18 ≤ stackTop) :
    Within W T (startUp a20) := by
  have hprint : Within W T (Boot.printString stackTop) := h.printString (by omega) (by omega)
  have hhex : Within W T (Boot.printHex stackTop) := h.printHex (by omega) (by omega)
  have hint : Within W T (Boot.interrupt stackTop []) :=
    h.interrupt (by omega) (by omega) within_nil
  have hcheck : Within W T (Boot.checkA20 stackTop) := h.checkA20 hprobe (by omega) (by omega)
  have henable := h.enableA20 hprobe a20 hlow (by omega)
  unfold Boot.startUp
  simp only [within_cons, within_append, h.setVar, hprint, hhex, hint, hcheck, henable, and_true]
  exact hlive

theorem e820Di_eq {c : Nat} (hc : c ≤ 297) : e820Di c = mmapData + 24 * c := by
  unfold e820Di mmapData mmapEntrySize
  omega

theorem RealMode.e820Call (h : RealMode W T low) (hmap : Set.Ico mmapEntries 0x7BF4 ⊆ W .map)
    {c : Nat} (hc : c ≤ 297) (hlow : low + 6 ≤ sp) (htop : sp ≤ stackTop) :
    Within W T (e820Call sp c) := by
  have hdi := e820Di_eq hc
  have hdata : mmapData = mmapEntries + 4 := rfl
  have hentries : mmapEntries = 0x6000 := rfl
  unfold Boot.e820Call attrsWin
  exact within_cons.mpr ⟨(Set.Ico_subset_Ico (by omega) (by omega)).trans hmap,
    h.interrupt hlow htop (within_cons.mpr
      ⟨(Set.Ico_subset_Ico (by omega) (by omega)).trans hmap, within_nil⟩)⟩

theorem e820Keep_within (hmap : Set.Ico mmapEntries 0x7BF4 ⊆ W .map)
    (hlive : Set.Ico mmapEntries 0x7BDC ⊆ T .map) {c : Nat} {r : Reply}
    (hc : (if r.usable then c + 1 else c) ≤ 297) : Within W T (e820Keep c r) := by
  have hdi : e820Di c = mmapData + 24 * c := e820Di_eq (by split at hc <;> omega)
  unfold mmapData at hdi
  have hc' : c ≤ 297 := by split at hc <;> omega
  unfold e820Keep attrsWin
  refine within_append.mpr ⟨?_, ?_⟩
  · split
    · refine within_cons.mpr ⟨(Set.Ico_subset_Ico ?_ ?_).trans hmap, within_nil⟩
      · unfold mmapEntries
        omega
      · omega
    · exact within_nil
  · split
    · rename_i hu
      rw [if_pos hu] at hc
      refine within_cons.mpr ⟨(Set.Ico_subset_Ico_right ?_).trans hmap, within_cons.mpr
        ⟨(Set.Ico_subset_Ico_right ?_).trans hlive, within_nil⟩⟩
      · unfold mmapEntries
        omega
      · unfold mmapData
        omega
    · exact within_nil

theorem RealMode.e820Loop (h : RealMode W T low) (hmap : Set.Ico mmapEntries 0x7BF4 ⊆ W .map)
    (hlive : Set.Ico mmapEntries 0x7BDC ⊆ T .map) (hlow : low + 6 ≤ sp) (htop : sp ≤ stackTop)
    (rs : List Reply) {c : Nat} (hc : c + usableReplies rs ≤ 297) :
    Within W T (e820Loop sp c rs).1 := by
  induction rs generalizing c with
  | nil => exact h.e820Call hmap (by omega) hlow htop
  | cons r rs ih =>
    have hcall : Within W T (Boot.e820Call sp c) := h.e820Call hmap (by omega) hlow htop
    by_cases hf : r.fails
    · rw [e820Loop_fails sp c rs hf]
      exact hcall
    · by_cases hl : r.last
      · rw [usableReplies_last rs hf hl] at hc
        rw [e820Loop_last sp c rs hf hl]
        refine within_append.mpr ⟨hcall, e820Keep_within hmap hlive ?_⟩
        rw [count_step]
        exact hc
      · rw [usableReplies_next rs hf hl] at hc
        have hnext : (if r.usable then c + 1 else c) + usableReplies rs ≤ 297 := by
          rw [count_step]
          omega
        rw [e820Loop_next sp c rs hf hl]
        exact within_append.mpr ⟨within_append.mpr ⟨hcall, e820Keep_within hmap hlive (by omega)⟩,
          ih hnext⟩

theorem RealMode.detectMemory (h : RealMode W T low) (hmap : Set.Ico mmapEntries 0x7BF4 ⊆ W .map)
    (hlive : Set.Ico mmapEntries 0x7BDC ⊆ T .map) (hlow : low + 8 ≤ sp) (htop : sp ≤ stackTop)
    {rs : List Reply} (hrs : usableReplies rs ≤ 297) (e801 : Bool) :
    Within W T (detectMemory rs e801 sp).1 := by
  have hprint : Within W T (Boot.printString sp) := h.printString hlow htop
  have hdone : Within W T (e820Done sp) :=
    within_append.mpr ⟨within_append.mpr ⟨hprint, h.printHex hlow htop⟩, hprint⟩
  have hcount : Use.Within W T (.write .map countWin) :=
    (Set.Ico_subset_Ico_right (by unfold mmapEntries; omega)).trans hmap
  have hstart : Within W T (Boot.printString sp ++
      [.write .map countWin, .live .map (mapWin 0)]) := by
    refine within_append.mpr ⟨hprint, within_cons.mpr ⟨hcount, within_cons.mpr
      ⟨(Set.Ico_subset_Ico_right ?_).trans hlive, within_nil⟩⟩⟩
    unfold mmapData
    omega
  have hloop : Within W T (Boot.e820Loop sp 0 rs).1 :=
    h.e820Loop hmap hlive (by omega) htop rs (by omega)
  have he801 : Within W T (tryE801 sp e801).1 := by
    have hask : Within W T (Boot.printString sp ++ Boot.interrupt sp []) :=
      within_append.mpr ⟨hprint, h.interrupt (by omega) htop within_nil⟩
    unfold tryE801
    split
    · refine within_append.mpr ⟨within_append.mpr ⟨hask, within_cons.mpr
        ⟨(Set.Ico_subset_Ico ?_ ?_).trans hmap, within_cons.mpr ⟨hcount, within_cons.mpr
          ⟨(Set.Ico_subset_Ico_right ?_).trans hlive, within_nil⟩⟩⟩⟩, hdone⟩
      all_goals
        simp only [mmapData, mmapEntries]
        omega
    · exact within_append.mpr ⟨hask, hprint⟩
  unfold Boot.detectMemory
  simp only
  split
  · exact within_append.mpr ⟨within_append.mpr ⟨hstart, hloop⟩, he801⟩
  · exact within_append.mpr ⟨within_append.mpr ⟨hstart, hloop⟩, hdone⟩

theorem RealMode.loadCluster (h : RealMode W T low) {fat : Nat → Nat} {spc : Nat}
    (himage : Set.Ico (16 * kernelSeg) 0xC0000 ⊆ W .image) (hlow : low + 26 ≤ sp)
    (htop : sp ≤ stackTop) {cs : List Nat} (hcs : Follows fat cs) : ∀ (c : Nat) (rest : List Nat)
    (seg fuel : Nat), cs = c :: rest → cs.length ≤ fuel → kernelSeg ≤ seg →
    seg + 32 * spc * cs.length ≤ 0xC000 →
    ∃ us, loadCluster fat spc sp fuel c seg = some us ∧ Within W T us := by
  have hread : ∀ seg, kernelSeg ≤ seg → seg + 32 * spc ≤ 0xC000 → Within W T (Boot.push sp 2
      (Boot.readSectors [.write .image (Set.Ico (16 * seg) (16 * seg + 512 * spc))])) := by
    intro seg hseg hfit
    refine h.push (by omega) htop (h.readSectors (by omega) (by omega) (within_cons.mpr
      ⟨(Set.Ico_subset_Ico (by omega) (by omega)).trans himage, within_nil⟩))
  induction hcs with
  | @last c hlast =>
    rintro _ _ seg fuel ⟨rfl, rfl⟩ hfuel hseg hfit
    obtain ⟨fuel, rfl⟩ : ∃ k, fuel = k + 1 := ⟨fuel - 1, by simp at hfuel; omega⟩
    rw [List.length_singleton, Nat.mul_one] at hfit
    refine ⟨_, if_neg (by omega), within_append.mpr ⟨hread seg hseg hfit, h.setVar⟩⟩
  | @next c cs hnext _ ih =>
    rintro _ _ seg fuel ⟨rfl, rfl⟩ hfuel hseg hfit
    rw [List.length_cons] at hfuel hfit
    obtain ⟨fuel, rfl⟩ : ∃ k, fuel = k + 1 := ⟨fuel - 1, by omega⟩
    rw [Nat.mul_add, Nat.mul_one] at hfit
    have hpos : 0 < (fat c :: cs).length := List.length_pos_of_ne_nil (List.cons_ne_nil _ _)
    have hmod : (seg + 32 * spc) % 2 ^ 16 = seg + 32 * spc := Nat.mod_eq_of_lt (by omega)
    obtain ⟨us, hus, hw⟩ := ih (fat c) cs (seg + 32 * spc) fuel rfl (by omega) (by omega) (by omega)
    refine ⟨_, ?_, within_append.mpr ⟨within_append.mpr ⟨hread seg hseg (by omega), h.setVar⟩, hw⟩⟩
    rw [Boot.loadCluster, if_pos hnext, hmod, hus]
    rfl

end RealMode

/-! ## Where the regions live -/

section Stays

variable {r : Region} {sp n : Nat} {body : Nat → Uses} {buffer : Uses}

theorem stays_push (hr : r ≠ .stack) : Stays r (push sp n body) ↔ Stays r (body (sp - n)) :=
  stays_pushed hr

theorem stays_call (hr : r ≠ .stack) : Stays r (call sp body) ↔ Stays r (body (sp - 2)) :=
  stays_pushed hr

theorem stays_interrupt (hr : r ≠ .stack) : Stays r (interrupt sp buffer) ↔ Stays r buffer :=
  stays_pushed hr

@[simp] theorem stays_setVar : Stays r setVar := stays_write.mpr stays_nil

theorem stays_printString (hr : r ≠ .stack) : Stays r (printString sp) :=
  (stays_call hr).mpr ((stays_interrupt hr).mpr stays_nil)

theorem stays_printHex (hr : r ≠ .stack) : Stays r (printHex sp) := stays_printString hr

theorem stays_readSectors (hr : r ≠ .stack) : Stays r (readSectors buffer sp) ↔ Stays r buffer := by
  rw [readSectors, stays_call hr, stays_push hr, stays_append, stays_interrupt hr]
  exact and_iff_right stays_setVar

theorem stays_flatten {us : Uses} (n : Nat) (h : Stays r us) :
    Stays r (List.replicate n us).flatten := by
  intro s hs
  obtain ⟨l, hl, hul⟩ := List.mem_flatten.mp hs
  exact h s ((List.mem_replicate.mp hl).2 ▸ hul)

theorem stays_checkA20 (hr : r ≠ .stack) : Stays r (checkA20 sp) := by
  simp only [checkA20, stays_call hr, stays_push hr, stays_append, stays_write, stays_nil, and_self]

theorem stays_enableA20 (hr : r ≠ .stack) (a20 : A20) : Stays r (enableA20 a20 sp) := by
  have hwait : ∀ sp, Stays r (kbdWait sp) := fun _ => (stays_call hr).mpr stays_nil
  simp only [enableA20, stays_call hr, stays_append, stays_printString hr, stays_interrupt hr,
    stays_nil, true_and]
  refine ⟨?_, ?_⟩
  · split
    · exact stays_nil
    · exact stays_checkA20 hr
  · split
    · exact stays_nil
    · simp only [stays_append, stays_printString hr, hwait, stays_checkA20 hr, true_and]
      split
      · exact stays_nil
      · exact stays_append.mpr ⟨stays_printString hr, stays_checkA20 hr⟩

theorem stays_printMemoryMap (hr : r ≠ .stack) (n : Nat) : Stays r (printMemoryMap n sp) := by
  refine (stays_call hr).mpr (stays_flatten _ ?_)
  simp only [printEntry, stays_push hr, stays_append, stays_printString hr, stays_printHex hr,
    stays_interrupt hr, stays_nil, and_self]

theorem stays_fat16Init (hr : r ≠ .stack) (hfat : r ≠ .fat) (fatSize : Nat) :
    Stays r (fat16Init fatSize sp) := by
  simp only [fat16Init, sectorRead, stays_call hr, stays_push hr, stays_append,
    stays_printString hr, stays_readSectors hr, stays_write, stays_live hfat, stays_setVar,
    stays_nil, and_self]

theorem stays_fat16FindFile (hr : r ≠ .stack) (scanned : Nat) :
    Stays r (fat16FindFile scanned sp) := by
  have hscan : ∀ sp, Stays r (scanSector sp) := fun sp => by
    simp only [scanSector, sectorRead, stays_push hr, stays_append, stays_readSectors hr,
      stays_write, stays_nil, and_self]
  simp only [fat16FindFile, stays_call hr, stays_push hr, stays_append, stays_printString hr,
    stays_flatten _ (hscan _), stays_setVar, and_self]

theorem stays_e820Loop (hr : r ≠ .stack) (hmap : r ≠ .map) (sp c : Nat) (rs : List Reply) :
    Stays r (e820Loop sp c rs).1 := by
  have hcall : ∀ c, Stays r (e820Call sp c) := fun c => by
    simp only [e820Call, stays_write, stays_interrupt hr, stays_nil]
  have hkeep : ∀ c q, Stays r (e820Keep c q) := fun c q => by
    unfold e820Keep
    refine stays_append.mpr ⟨?_, ?_⟩
    · split
      · exact stays_write.mpr stays_nil
      · exact stays_nil
    · split
      · exact stays_write.mpr ((stays_live hmap).mpr stays_nil)
      · exact stays_nil
  induction rs generalizing c with
  | nil => exact hcall c
  | cons q rs ih =>
    by_cases hf : q.fails
    · rw [e820Loop_fails sp c rs hf]
      exact hcall c
    · by_cases hl : q.last
      · rw [e820Loop_last sp c rs hf hl]
        exact stays_append.mpr ⟨hcall c, hkeep c q⟩
      · rw [e820Loop_next sp c rs hf hl]
        exact stays_append.mpr ⟨stays_append.mpr ⟨hcall c, hkeep c q⟩, ih _⟩

theorem stays_detectMemory (hr : r ≠ .stack) (hmap : r ≠ .map) (rs : List Reply) (e801 : Bool) :
    Stays r (detectMemory rs e801 sp).1 := by
  have hdone : Stays r (e820Done sp) := by
    simp only [e820Done, stays_append, stays_printString hr, stays_printHex hr, and_self]
  have he801 : Stays r (tryE801 sp e801).1 := by
    unfold tryE801
    split
    · simp only [stays_append, stays_printString hr, stays_interrupt hr, stays_nil, stays_write,
        stays_live hmap, hdone, and_self]
    · simp only [stays_append, stays_printString hr, stays_interrupt hr, stays_nil, and_self]
  unfold detectMemory
  simp only
  split
  · simp only [stays_append, stays_printString hr, stays_write, stays_live hmap, stays_nil,
      stays_e820Loop hr hmap, he801, and_self]
  · simp only [stays_append, stays_printString hr, stays_write, stays_live hmap, stays_nil,
      stays_e820Loop hr hmap, hdone, and_self]

theorem stays_loadCluster (hr : r ≠ .stack) {fat : Nat → Nat} {spc : Nat} :
    ∀ {fuel c seg : Nat} {us : Uses}, loadCluster fat spc sp fuel c seg = some us → Stays r us := by
  intro fuel
  induction fuel with
  | zero => intro c seg us h; cases h
  | succ fuel ih =>
    intro c seg us h
    have hread : ∀ s, Stays r (push sp 2 (readSectors [.write .image s])) := fun s => by
      simp only [stays_push hr, stays_readSectors hr, stays_write, stays_nil]
    rw [loadCluster] at h
    split at h
    · obtain ⟨vs, hvs, rfl⟩ := Option.map_eq_some_iff.mp h
      exact stays_append.mpr ⟨stays_append.mpr ⟨hread _, stays_setVar⟩, ih hvs⟩
    · cases h
      exact stays_append.mpr ⟨hread _, stays_setVar⟩

end Stays

/-- The regions between two functions of stage 2, with nothing on the stacks. -/
def layout (map fat image : Set Nat) : Region → Set Nat
  | .code => codeWin
  | .map => map
  | .fat => fat
  | .image => image
  | _ => ∅

theorem after_call_stack (L : Region → Set Nat) (body : Nat → Uses) :
    after L (call stackTop body) .stack = ∅ := by
  unfold call push
  rw [after_pushed, Function.update_self, Set.Ico_self]

theorem after_startUp (a20 : A20) :
    after (fun _ => ∅) (startUp a20) = layout ∅ ∅ ∅ := by
  have hstays : ∀ r, r ≠ .stack → Stays r (setVar ++ interrupt stackTop [] ++
      printString stackTop ++ printHex stackTop ++ printString stackTop ++
      enableA20 a20 stackTop ++ checkA20 stackTop ++ printString stackTop) := fun r hr => by
    simp only [stays_append, stays_setVar, stays_interrupt hr, stays_nil, stays_printString hr,
      stays_printHex hr, stays_enableA20 hr, stays_checkA20 hr, and_self]
  have hstep : ∀ r, r ≠ .stack → after (fun _ => ∅) (startUp a20) r =
      after (fun _ => ∅) [.live .code codeWin] r := fun r hr => by
    rw [startUp, ← List.singleton_append, after_append, after_of_stays (hstays r hr)]
  funext r
  cases r with
  | stack =>
    rw [startUp, ← List.cons_append, after_append]
    exact after_call_stack _ _
  | _ => exact hstep _ (by decide)

/-- The map after the loop. -/
theorem after_e820Loop (sp : Nat) (rs : List Reply) : ∀ (c : Nat) (L : Region → Set Nat),
    L .map = mapWin c → after L (e820Loop sp c rs).1 .map = mapWin (c + usableReplies rs) := by
  have hcall : ∀ c (L : Region → Set Nat), after L (e820Call sp c) .map = L .map := fun c L =>
    after_of_stays (stays_write.mpr ((stays_interrupt (by decide)).mpr (stays_write.mpr stays_nil)))
  have hkeep : ∀ c q (L : Region → Set Nat), L .map = mapWin c →
      after L (e820Call sp c ++ e820Keep c q) .map = mapWin (c + if q.usable then 1 else 0) := by
    intro c q L hL
    rw [after_append, e820Keep, after_append]
    by_cases hu : q.usable
    · rw [if_pos hu, if_pos hu]
      rfl
    · rw [if_neg hu, if_neg hu]
      have hflag : Stays .map (if 20 ≤ q.size then [.write .map (attrsWin c)] else [] : Uses) := by
        split
        · exact stays_write.mpr stays_nil
        · exact stays_nil
      exact (after_of_stays hflag).trans ((hcall c L).trans hL)
  induction rs with
  | nil => exact fun c L hL => (hcall c L).trans hL
  | cons q rs ih =>
    intro c L hL
    by_cases hf : q.fails
    · rw [e820Loop_fails sp c rs hf, usableReplies, consulted, if_pos hf]
      exact (hcall c L).trans hL
    · by_cases hl : q.last
      · rw [e820Loop_last sp c rs hf hl, usableReplies_last rs hf hl]
        exact hkeep c q L hL
      · rw [e820Loop_next sp c rs hf hl, after_append, count_step]
        rw [ih _ _ (hkeep c q L hL), usableReplies_next rs hf hl]
        congr 1
        omega

theorem after_detectMemory (L : Region → Set Nat) (rs : List Reply) (e801 : Bool) (sp : Nat) :
    after L (detectMemory rs e801 sp).1 .map = mapWin (detectMemory rs e801 sp).2 := by
  have hmap : Region.map ≠ .stack := by decide
  have hdone : Stays .map (e820Done sp) := by
    simp only [e820Done, stays_append, stays_printString hmap, stays_printHex hmap, and_self]
  have hloop := after_e820Loop sp rs 0 (after L (printString sp ++
    [.write .map countWin, .live .map (mapWin 0)])) (by rw [after_append]; rfl)
  rw [Nat.zero_add] at hloop
  have hres := e820Loop_result sp 0 rs
  rw [Nat.zero_add] at hres
  unfold detectMemory tryE801
  simp only [hres]
  split
  · rename_i hnone
    simp only [Bool.and_eq_true, decide_eq_true_eq] at hnone
    split
    · rw [after_append, after_append, after_of_stays hdone, after_append]
      rfl
    · have hfail : Stays .map (printString sp ++ interrupt sp [] ++ printString sp) := by
        simp only [stays_append, stays_printString hmap, stays_interrupt hmap, stays_nil, and_self]
      rw [after_append, after_of_stays hfail, after_append, hloop, hnone.2]
  · rw [after_append, after_of_stays hdone, after_append]
    exact hloop

theorem after_detect (rs : List Reply) (e801 : Bool) :
    after (layout ∅ ∅ ∅) (call stackTop fun sp => (detectMemory rs e801 sp).1) =
      layout (mapWin (detectMemory rs e801 (stackTop - 2)).2) ∅ ∅ := by
  funext r
  by_cases hr : r = .stack
  · subst hr
    exact after_call_stack _ _
  · by_cases hmap : r = .map
    · subst hmap
      unfold call push
      rw [after_pushed, Function.update_of_ne (by decide)]
      exact after_detectMemory _ _ _ _
    · rw [after_of_stays ((stays_call hr).mpr (stays_detectMemory hr hmap rs e801))]
      cases r <;> first | rfl | contradiction

def loaded (size : Nat) (us : Uses) : Uses :=
  call stackTop (fun sp => .live .image (imageWin size) :: (setVar ++ us ++ printString sp)) ++
    [.live .fat ∅]

theorem stays_findKernel {r : Region} (hr : r ≠ .stack) (hfat : r ≠ .fat) (x : BootInput) :
    Stays r x.findKernel := by
  simp only [BootInput.findKernel, stays_append, stays_printString hr, stays_printMemoryMap hr,
    stays_fat16Init hr hfat, stays_fat16FindFile hr, and_self]

theorem stays_loaded {r : Region} (hr : r ≠ .stack) (hfat : r ≠ .fat) (himage : r ≠ .image)
    {us : Uses} (hus : Stays r us) (size : Nat) : Stays r (loaded size us) := by
  simp only [loaded, stays_append, stays_call hr, stays_live hfat, stays_live himage, stays_setVar,
    hus, stays_printString hr, stays_nil, and_self]

theorem after_load (x : BootInput) (map : Set Nat) {us : Uses}
    (hus : ∀ r, r ≠ .stack → Stays r us) :
    after (layout map ∅ ∅) (x.findKernel ++ loaded x.file.size us ++ printString stackTop) =
      layout map ∅ (imageWin x.file.size) := by
  funext r
  rw [after_append]
  by_cases hr : r = .stack
  · subst hr
    exact after_call_stack _ _
  · rw [after_of_stays (stays_printString hr), after_append]
    by_cases hfat : r = .fat
    · subst hfat
      rw [loaded, after_append]
      rfl
    · by_cases himage : r = .image
      · subst himage
        have hbody : Stays .image (setVar ++ us ++ printString (stackTop - 2)) := by
          simp only [stays_append, stays_setVar, hus _ hr, stays_printString hr, and_self]
        rw [loaded, after_append, after_of_stays ((stays_live hfat).mpr stays_nil)]
        unfold call push
        rw [after_pushed, Function.update_of_ne hr]
        beta_reduce
        rw [← List.singleton_append, after_append, after_of_stays hbody]
        rfl
      · rw [after_of_stays (stays_loaded hr hfat himage (hus r hr) _),
          after_of_stays (stays_findKernel hr hfat x)]
        cases r <;> first | rfl | contradiction

/-! ## Real mode -/

/-- Territories in real mode, with the stack down to `low`. -/
def territory (low : Nat) (map fat image other : Set Nat) : Region → Set Nat
  | .stack => Set.Ico low stackTop
  | .pmStack => ∅
  | .code => codeWin
  | .map => map
  | .fat => fat
  | .image => image
  | .other => other

theorem territory_mode (low : Nat) (mapW fatW imageW otherW mapT fatT imageT otherT : Set Nat) :
    RealMode (territory low mapW fatW imageW otherW) (territory low mapT fatT imageT otherT) low :=
  ⟨subset_rfl, subset_rfl, subset_rfl⟩

theorem layout_subset {low : Nat} {map fat image map' fat' image' : Set Nat} (hmap : map ⊆ map')
    (hfat : fat ⊆ fat') (himage : image ⊆ image') (r : Region) :
    layout map fat image r ⊆ territory low map' fat' image' ∅ r := by
  cases r with
  | code => exact subset_rfl
  | map => exact hmap
  | fat => exact hfat
  | image => exact himage
  | _ => exact Set.empty_subset _

theorem clean_startUp (a20 : A20) : Clean (fun _ => ∅) (startUp a20) := by
  have h := (territory_mode 0x7BEE ∅ ∅ ∅ {0x500, 0x100500} ∅ ∅ ∅ ∅).startUp subset_rfl subset_rfl
    a20 (by decide)
  refine clean_of_within (fun r r' hne => ?_) h fun r => Set.empty_subset _
  cases r <;> cases r' <;> first
    | exact absurd rfl hne
    | exact Set.disjoint_empty _
    | exact Set.empty_disjoint _
    | exact Set.Ico_disjoint_Ico.mpr (by decide)
    | simp [territory, codeWin, stackTop]

theorem clean_detect {rs : List Reply} (hrs : usableReplies rs ≤ 297) (e801 : Bool) :
    Clean (layout ∅ ∅ ∅) (call stackTop fun sp => (detectMemory rs e801 sp).1) := by
  have hmode := territory_mode 0x7BF6 (Set.Ico mmapEntries 0x7BF4) ∅ ∅ ∅
    (Set.Ico mmapEntries 0x7BDC) ∅ ∅ ∅
  have hbody : Within _ _ (detectMemory rs e801 (stackTop - 2)).1 :=
    hmode.detectMemory subset_rfl subset_rfl (by decide) (by decide) hrs e801
  have h : Within _ _ (call stackTop fun sp => (detectMemory rs e801 sp).1) :=
    hmode.call (by decide) (le_refl stackTop) hbody
  refine clean_of_within (fun r r' hne => ?_) h (layout_subset (Set.empty_subset _) subset_rfl
    subset_rfl)
  cases r <;> cases r' <;> first
    | exact absurd rfl hne
    | exact Set.disjoint_empty _
    | exact Set.empty_disjoint _
    | exact Set.Ico_disjoint_Ico.mpr (by decide)

/-- The file system next to the map, and the image above stage 2. -/
theorem clean_load {x : BootInput} {map : Set Nat} (hmap : map ⊆ Set.Ico mmapEntries 0x7BDC)
    (hfat : x.fatSize ≤ 40) {us : Uses} (hus : ∀ {W T}, RealMode W T 0x7BDE →
      Set.Ico (16 * kernelSeg) 0xC0000 ⊆ W .image → Within W T us) :
    Clean (layout map ∅ ∅) (x.findKernel ++ loaded x.file.size us ++ printString stackTop) := by
  have hmode := territory_mode 0x7BDE ∅ (Set.Ico fatBuf 0x6000) (Set.Ico (16 * kernelSeg) 0xC0000)
    (Set.Ico 0x500 0x700) (Set.Ico mmapEntries 0x7BDC) (Set.Ico fatBuf 0x6000)
    (Set.Ico (16 * kernelSeg) 0xC0000) ∅
  have hfatWin : fatWin x.fatSize ⊆ Set.Ico fatBuf 0x6000 :=
    Set.Ico_subset_Ico_right (by unfold fatBuf; omega)
  have himage : imageWin x.file.size ⊆ Set.Ico (16 * kernelSeg) 0xC0000 := by
    have := x.file.limit
    exact Set.Ico_subset_Ico_right (by unfold kernelSeg; omega)
  have hprint := hmode.printString (by decide) (le_refl stackTop)
  have hprint' : Within _ _ (printString (stackTop - 2)) :=
    hmode.printString (by decide) (Nat.sub_le stackTop 2)
  have hload : Within _ _ (loaded x.file.size us) :=
    within_append.mpr ⟨hmode.call (by decide) (le_refl stackTop) (within_cons.mpr ⟨himage,
      within_append.mpr ⟨within_append.mpr ⟨hmode.setVar, hus hmode subset_rfl⟩, hprint'⟩⟩),
      within_cons.mpr ⟨Set.empty_subset _, within_nil⟩⟩
  have hfind : Within _ _ x.findKernel :=
    within_append.mpr ⟨within_append.mpr ⟨within_append.mpr ⟨hprint,
      hmode.printMemoryMap _ (by decide) (le_refl stackTop)⟩,
      hmode.fat16Init subset_rfl hfatWin hfatWin (by decide) (le_refl stackTop)⟩,
      hmode.fat16FindFile _ subset_rfl (by decide) (le_refl stackTop)⟩
  refine clean_of_within (fun r r' hne => ?_) (within_append.mpr ⟨within_append.mpr ⟨hfind, hload⟩,
    hprint⟩) (layout_subset hmap (Set.empty_subset _) (Set.empty_subset _))
  cases r <;> cases r' <;> first
    | exact absurd rfl hne
    | exact Set.disjoint_empty _
    | exact Set.empty_disjoint _
    | exact Set.Ico_disjoint_Ico.mpr (by decide)

theorem room_of_clean {x : BootInput} {n : Nat}
    (h : Clean (layout (mapWin n) ∅ ∅) x.findKernel) : n ≤ 297 ∧ x.fatSize ≤ 40 := by
  have hstays : Stays .map x.findKernel := stays_findKernel (by decide) (by decide) x
  have hpush : .write .stack (Set.Ico 0x7BDE 0x7BE4) ∈ x.findKernel := by
    refine List.mem_append_right _ (List.mem_cons_of_mem _ (List.mem_cons_of_mem _
      (List.mem_append_left _ (List.mem_append_left _ (List.mem_append_left _
        (List.mem_append_right _ (List.mem_flatten.mpr ⟨scanSector (stackTop - 2), ?_, ?_⟩)))))))
    · exact List.mem_replicate.mpr ⟨by have := x.scanned_pos; omega, rfl⟩
    · simp [scanSector, readSectors, call, push, interrupt, pushed, stackTop]
  have hfat : .write .fat (fatWin x.fatSize) ∈ x.findKernel := by
    simp [BootInput.findKernel, fat16Init, readSectors, call, push, interrupt, pushed]
  have hfirst := h.disjoint hpush (by decide) hstays
  have hsecond := h.disjoint hfat (by decide) hstays
  constructor
  · by_contra hn
    refine Set.disjoint_left.mp hfirst (Set.mem_Ico.mpr ⟨le_refl 0x7BDE, by decide⟩) ?_
    exact ⟨by decide, by unfold mmapData; omega⟩
  · by_contra hn
    refine Set.disjoint_left.mp hsecond (Set.mem_Ico.mpr ⟨by decide, ?_⟩ : 0x6000 ∈ _) ?_
    · unfold fatBuf
      omega
    · exact ⟨by decide, by unfold mmapData; omega⟩

end TupleOS.Boot
