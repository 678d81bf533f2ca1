import TupleOS.Base.Run
import TupleOS.Memory.Pmm

/-!
# Frames on loan

A run of `pmm_alloc_frame` and `pmm_free_frame` calls, with the list of the
addresses handed out and not given back. Only those may be freed, and no call may
look past the end of `frame_bitmap`. In every state of such a run the next
allocation is of a released frame that nobody holds, and the two counters agree
with the list (`frames_exclusive`).
-/

namespace TupleOS.Memory

open TupleOS.Base

/-- The allocator and the frames on loan. -/
structure Loans where
  pmm : Pmm
  held : List Nat

inductive FrameOp where
  | alloc
  | free (frameAddr : Nat)

def frameStep (s : Loans) : FrameOp → Option Loans
  | .alloc =>
    let (frame, pmm) := pmmAllocFrame s.pmm
    some ⟨pmm, if frame = 0 then s.held else frame :: s.held⟩
  | .free frameAddr => some ⟨pmmFreeFrame s.pmm frameAddr, s.held.erase frameAddr⟩

theorem frameStep_alloc (s : Loans) : frameStep s .alloc = some ⟨(pmmAllocFrame s.pmm).2,
    if (pmmAllocFrame s.pmm).1 = 0 then s.held else (pmmAllocFrame s.pmm).1 :: s.held⟩ := rfl

/-- `bitmap_first_free` reads only `frame_bitmap`: its loop ends there, or finds a
frame there. The first holds for good under a map that leaves `total_frames`
within the bitmap. -/
def ScanInBounds (p : Pmm) : Prop :=
  p.totalFrames / 8 ≤ maxFrames / 8 ∨ ∃ f < capacity, p.Free f

/-- A scan stays in bounds, and only a frame on loan is given back. -/
def FrameOp.Ok (s : Loans) : FrameOp → Prop
  | .alloc => ScanInBounds s.pmm
  | .free frameAddr => frameAddr ∈ s.held

/-- What the callers of the allocator rely on. -/
structure Exclusive (L : Layout) (entries : List MmapEntry) (s : Loans) : Prop where
  /-- The next frame is a released one that nobody holds. -/
  fresh : ScanInBounds s.pmm → (pmmAllocFrame s.pmm).1 ≠ 0 →
    (pmmAllocFrame s.pmm).1 ∉ s.held ∧
      ∃ f, (pmmAllocFrame s.pmm).1 = f * pageSize ∧ Releases L entries f
  used : s.pmm.usedFrames = s.held.length
  /-- `total_frames - used_frames` does not wrap. -/
  balance : s.pmm.usedFrames ≤ s.pmm.totalFrames

/-- The bitmap and the counter against the loans. -/
structure LoanInv (L : Layout) (entries : List MmapEntry) (s : Loans) : Prop where
  free : ∀ g < capacity, s.pmm.Free g ↔ Releases L entries g ∧ g * pageSize ∉ s.held
  held : ∀ a ∈ s.held, ∃ f, a = f * pageSize ∧ f < capacity ∧ f < 8 * (s.pmm.totalFrames / 8) ∧
    Releases L entries f
  nodup : s.held.Nodup
  used : s.pmm.usedFrames = s.held.length

section Loans

variable {L : Layout} {entries : List MmapEntry} {s s' : Loans}

theorem length_le_of_frames {held : List Nat} {n : Nat} (hnd : held.Nodup)
    (h : ∀ a ∈ held, ∃ f < n, a = f * pageSize) : held.length ≤ n := by
  have hsub : held ⊆ (List.range n).map (· * pageSize) := by
    intro a ha
    obtain ⟨f, hf, rfl⟩ := h a ha
    exact List.mem_map.mpr ⟨f, List.mem_range.mpr hf, rfl⟩
  have := (hnd.subperm hsub).length_le
  rwa [List.length_map, List.length_range] at this

theorem frame_address {f g : Nat} : f * pageSize = g * pageSize ↔ f = g :=
  Nat.mul_left_inj (Nat.pos_iff_ne_zero.mp (Nat.zero_lt_succ _))

theorem LoanInv.length_le (h : LoanInv L entries s) : s.held.length ≤ capacity :=
  length_le_of_frames h.nodup fun a ha => by
    obtain ⟨f, rfl, hf, -⟩ := h.held a ha
    exact ⟨f, hf, rfl⟩

theorem LoanInv.balance (h : LoanInv L entries s) : s.pmm.usedFrames ≤ s.pmm.totalFrames := by
  have hle : s.held.length ≤ 8 * (s.pmm.totalFrames / 8) :=
    length_le_of_frames h.nodup fun a ha => by
      obtain ⟨f, rfl, -, hf, -⟩ := h.held a ha
      exact ⟨f, hf, rfl⟩
  rw [h.used]
  omega

/-- **What an allocation returns**: nothing, or a released frame that nobody holds. -/
theorem LoanInv.alloc_cases (h : LoanInv L entries s) (hin : ScanInBounds s.pmm) :
    pmmAllocFrame s.pmm = (0, s.pmm) ∨
    ∃ f, pmmAllocFrame s.pmm = (f * pageSize,
        { s.pmm with bitmap := s.pmm.bitmap.set f, usedFrames := w32 (s.pmm.usedFrames + 1) }) ∧
      f < capacity ∧ f < 8 * (s.pmm.totalFrames / 8) ∧ f * pageSize ≠ 0 ∧
      Releases L entries f ∧ f * pageSize ∉ s.held := by
  rcases pmmAllocFrame_cases s.pmm with ⟨hnone, -⟩ | ⟨f, heq, hfree, hlt, hlow⟩
  · exact .inl hnone
  · -- the lowest free frame has a bit of its own
    have hcap : f < capacity := by
      rcases hin with hin | ⟨g, hg, hgfree⟩
      · unfold capacity; omega
      · exact Nat.lt_of_le_of_lt (Nat.le_of_not_lt fun hgf => hlow g hgf hgfree) hg
    obtain ⟨hrel, hnot⟩ := (h.free f hcap).mp hfree
    have hpos := (kernelEndFrame_bounds L).1
    have hK := hrel.1
    have hmax := hrel.2.1
    rw [w32_of_lt (by unfold maxFrames at hmax; unfold pageSize; omega)] at heq
    exact .inr ⟨f, heq, hcap, hlt, by unfold pageSize; omega, hrel, hnot⟩

theorem LoanInv.exclusive (h : LoanInv L entries s) : Exclusive L entries s := by
  refine ⟨fun hin hne => ?_, h.used, h.balance⟩
  rcases h.alloc_cases hin with hnone | ⟨f, heq, -, -, -, hrel, hnot⟩
  · rw [hnone] at hne
    exact absurd rfl hne
  · rw [heq]
    exact ⟨hnot, f, rfl, hrel⟩

theorem LoanInv.alloc (h : LoanInv L entries s) (hin : ScanInBounds s.pmm)
    (he : frameStep s .alloc = some s') : LoanInv L entries s' := by
  rcases h.alloc_cases hin with hnone | ⟨f, heq, hcap, hlt, hne, hrel, hnot⟩
  · simp only [frameStep_alloc, hnone, ↓reduceIte, Option.some.injEq] at he
    exact he ▸ h
  · simp only [frameStep_alloc, heq, if_neg hne, Option.some.injEq] at he
    subst he
    refine ⟨fun g hg => ?_, ?_, List.nodup_cons.mpr ⟨hnot, h.nodup⟩, ?_⟩
    · rw [free_set (p := s.pmm) rfl, h.free g hg]
      simp only [List.mem_cons, frame_address, not_or]
      constructor
      · exact fun ⟨h1, h2, h3⟩ => ⟨h2, h1, h3⟩
      · exact fun ⟨h1, h2, h3⟩ => ⟨h2, h1, h3⟩
    · intro a ha
      rcases List.mem_cons.mp ha with rfl | ha
      · exact ⟨f, rfl, hcap, hlt, hrel⟩
      · exact h.held a ha
    · have hle := h.length_le
      have : capacity = 32784 := rfl
      simp only [List.length_cons, h.used]
      exact w32_of_lt (by omega)

theorem LoanInv.free_frame (h : LoanInv L entries s) {a : Nat} (ha : a ∈ s.held) :
    LoanInv L entries ⟨pmmFreeFrame s.pmm a, s.held.erase a⟩ := by
  obtain ⟨f, rfl, hcap, hlt, hrel⟩ := h.held a ha
  have hdiv : f * pageSize / pageSize = f := Nat.mul_div_cancel _ (Nat.zero_lt_succ _)
  have hused : ¬ s.pmm.Free f := fun hfree => ((h.free f hcap).mp hfree).2 ha
  have hpos : 0 < s.held.length := List.length_pos_of_mem ha
  refine ⟨fun g hg => ?_, ?_, h.nodup.erase _, ?_⟩
  · rw [pmmFreeFrame_free, hdiv, h.free g hg, h.nodup.mem_erase_iff, frame_address.ne]
    constructor
    · rintro (⟨h1, h2⟩ | ⟨rfl, -⟩)
      · exact ⟨h1, fun h3 => h2 h3.2⟩
      · exact ⟨hrel, fun h3 => h3.1 rfl⟩
    · rintro ⟨h1, h2⟩
      by_cases hgf : g = f
      · exact .inr ⟨hgf, h1.2.1⟩
      · exact .inl ⟨h1, fun h3 => h2 ⟨hgf, h3⟩⟩
  · intro b hb
    rw [pmmFreeFrame_total]
    exact h.held b (List.mem_of_mem_erase hb)
  · have hle := h.length_le
    have hc : capacity = 32784 := rfl
    have htest : s.pmm.bitmap.test f = true := by
      rwa [Pmm.Free, Bool.not_eq_false] at hused
    simp only [pmmFreeFrame, hdiv, if_neg (Nat.not_le.mpr hrel.2.1), htest, ↓reduceIte, h.used,
      List.length_erase_of_mem ha]
    exact sub32_of_le hpos (by omega)

theorem LoanInv.step {o : FrameOp} (h : LoanInv L entries s) (ho : o.Ok s)
    (he : frameStep s o = some s') : LoanInv L entries s' := by
  cases o with
  | alloc => exact h.alloc ho he
  | free frameAddr =>
    simp only [frameStep, Option.some.injEq] at he
    exact he ▸ h.free_frame ho

theorem LoanInv.init (L : Layout) (bitmap : Bitmap) (mmap : Option (List MmapEntry)) :
    LoanInv L (mmap.getD []) ⟨pmmInit L bitmap mmap, []⟩ := by
  refine ⟨fun g hg => ?_, nofun, List.nodup_nil, ?_⟩
  · simp only [List.not_mem_nil, not_false_eq_true, and_true]
    cases mmap with
    | none => exact iff_of_false (fullPmm_used bitmap hg) fun ⟨_, _, e, he, _⟩ => nomatch he
    | some entries => exact (pmmInit_spec L bitmap entries).1 g hg
  · cases mmap with
    | none => rfl
    | some entries => exact (pmmInit_spec L bitmap entries).2.2

/-- **No frame is lent twice**, and the counters count the loans. -/
theorem frames_exclusive {bitmap : Bitmap} {mmap : Option (List MmapEntry)} {os : List FrameOp}
    (hrun : Run frameStep (fun s o => o.Ok s) ⟨pmmInit L bitmap mmap, []⟩ os s) :
    Exclusive L (mmap.getD []) s :=
  (hrun.invariant _ LoanInv.step (LoanInv.init L bitmap mmap)).exclusive

theorem LoanInv.lends {p : Pmm} {held : List Nat} {f : Nat} (h : LoanInv L entries ⟨p, held⟩)
    (hin : ScanInBounds p) (hrel : Releases L entries f) (hnot : f * pageSize ∉ held)
    (hlow : ∀ g < f, Releases L entries g → g * pageSize ∈ held)
    (hlt : f < 8 * (p.totalFrames / 8)) (hcap : f < capacity) :
    ∃ p', frameStep ⟨p, held⟩ .alloc = some ⟨p', f * pageSize :: held⟩ ∧
      LoanInv L entries ⟨p', f * pageSize :: held⟩ ∧ p'.totalFrames = p.totalFrames := by
  have hfree := (h.free f hcap).mpr ⟨hrel, hnot⟩
  rcases pmmAllocFrame_cases p with ⟨-, hfull⟩ | ⟨g, heq, hg, -, hbelow⟩
  · exact absurd hfree (hfull f hlt)
  · have hle : g ≤ f := Nat.le_of_not_lt fun hfg => hbelow f hfg hfree
    have hge : f ≤ g := Nat.le_of_not_lt fun hgf =>
      have hfresh := (h.free g (by omega)).mp hg
      hfresh.2 (hlow g hgf hfresh.1)
    obtain rfl := Nat.le_antisymm hle hge
    have hpos := (kernelEndFrame_bounds L).1
    have hK := hrel.1
    have hc : capacity = 32784 := rfl
    have hne : g * pageSize ≠ 0 := by unfold pageSize; omega
    rw [w32_of_lt (by unfold pageSize; omega)] at heq
    have he : frameStep ⟨p, held⟩ .alloc = some ⟨(pmmAllocFrame p).2, g * pageSize :: held⟩ := by
      rw [frameStep_alloc, heq, if_neg hne]
    exact ⟨_, he, h.alloc hin he, by rw [heq]⟩

/-- Two frames are lent, the first comes back and is lent again. -/
theorem frames_exclusive_first : ∃ s,
    Run frameStep (fun s o => o.Ok s) ⟨pmmInit sampleLayout (fun _ => 0#8) sampleMap, []⟩
      [.alloc, .alloc, .free 0x120000, .alloc] s ∧
    s.held = [0x120000, 0x121000] ∧ Exclusive sampleLayout (sampleMap.getD []) s := by
  have h₀ := LoanInv.init sampleLayout (fun _ => 0#8) sampleMap
  have ht₀ := samplePmm.1
  have hrel : ∀ g, 288 ≤ g → g < 4096 → Releases sampleLayout (sampleMap.getD []) g :=
    fun g h1 h2 => ⟨h1, by unfold maxFrames; omega, _, List.mem_singleton_self _, rfl, h1, h2⟩
  have hlow : ∀ g < 288, ¬ Releases sampleLayout (sampleMap.getD []) g :=
    fun g hg h => absurd h.1 (Nat.not_le.mpr hg)
  have hin : ∀ {p : Pmm}, p.totalFrames = 3808 → ScanInBounds p := fun h => .inl (by rw [h]; decide)
  obtain ⟨p₁, he₁, h₁, ht₁⟩ := h₀.lends (hin ht₀) (hrel 288 (by decide) (by decide)) nofun
    (fun g hg h => absurd h (hlow g hg)) (by rw [ht₀]; decide) (by decide)
  rw [ht₀] at ht₁
  obtain ⟨p₂, he₂, h₂, ht₂⟩ := h₁.lends (hin ht₁) (hrel 289 (by decide) (by decide)) (by decide)
    (fun g hg h => by
      obtain rfl : g = 288 := Nat.le_antisymm (by omega) h.1
      exact List.mem_singleton_self _) (by rw [ht₁]; decide) (by decide)
  have hback : 0x120000 ∈ [289 * pageSize, 288 * pageSize] := by decide
  have ht₃ : (pmmFreeFrame p₂ 0x120000).totalFrames = 3808 := by
    rw [pmmFreeFrame_total, ht₂, ht₁]
  have h₃ : LoanInv _ _ ⟨_, [289 * pageSize]⟩ := h₂.free_frame hback
  obtain ⟨p₄, he₄, -⟩ := h₃.lends (hin ht₃) (hrel 288 (by decide) (by decide)) (by decide)
    (fun g hg h => absurd h (hlow g hg)) (by rw [ht₃]; decide) (by decide)
  have hrun : Run frameStep (fun s o => o.Ok s)
      ⟨pmmInit sampleLayout (fun _ => 0#8) sampleMap, []⟩
      [.alloc, .alloc, .free 0x120000, .alloc] ⟨p₄, [288 * pageSize, 289 * pageSize]⟩ :=
    .cons (hin ht₀) he₁ <| .cons (hin ht₁) he₂ <| .cons hback rfl <| .cons (hin ht₃) he₄ (.nil _)
  exact ⟨_, hrun, rfl, frames_exclusive hrun⟩

end Loans

end TupleOS.Memory
