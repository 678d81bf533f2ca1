import TupleOS.Process.Steps

/-!
# Round-robin fairness of `schedule`

Each call of `schedule` that finds a `READY` process is a turn in a round robin
over the 64 slots: it goes to the nearest `READY` slot after the current one
(`Runs.turn`), whatever the slots were filled with, emptied or left as zombies
in between. A run is therefore a sequence of turns (`trace_turns`), and the
fairness of `schedule` is that of round robin.
-/

namespace TupleOS.Process

open TupleOS.Base

variable {σ : Type} {E : ProcEnv σ} {k k' : ProcTable} {s s' : σ} {c p q : Slot}

/-- The calls a run went through, each with the state it was called in. -/
abbrev History (σ : Type) := List ((ProcTable × σ) × ProcOp)

def selections (l : History σ) : List Slot := l.filterMap fun t => t.2.selected t.1.1

def turns (l : History σ) : List (Turn maxProcesses) :=
  l.filterMap fun t => (t.2.selected t.1.1).map fun b =>
    ⟨t.1.1.current.getD 0, IsReady t.1.1, b⟩

theorem map_chosen_turns (l : History σ) : (turns l).map Turn.chosen = selections l := by
  unfold turns selections
  rw [List.map_filterMap]
  congr 1
  funext t
  cases t.2.selected t.1.1 <;> rfl

theorem mem_turns {l : History σ} {t : Turn maxProcesses} (h : t ∈ turns l) :
    ∃ x ∈ l, t.ready = IsReady x.1.1 ∧ t.holder = x.1.1.current.getD 0 ∧
      t.chosen ∈ selections l := by
  obtain ⟨x, hx, he⟩ := List.mem_filterMap.mp h
  obtain ⟨b, hb, rfl⟩ := Option.map_eq_some_iff.mp he
  exact ⟨x, hx, rfl, rfl, List.mem_filterMap.mpr ⟨x, hx, hb⟩⟩

/-! ## One call -/

/-- **One call** leaves the turn where it is, or passes it to the nearest ready
process. -/
theorem Runs.turn (h : Runs k c) {op : ProcOp} (ho : op.Sound k)
    (hs : procStep E (k, s) op = some (k', s')) :
    (op.selected k = none ∧ Runs k' c) ∨
    ∃ b, op.selected k = some b ∧ Nearest (IsReady k) c b ∧ Runs k' b := by
  cases op with
  | create entry name =>
    left
    obtain ⟨⟨r, k1, s1⟩, hc, he⟩ := Option.map_eq_some_iff.mp hs
    simp only [Prod.mk.injEq] at he
    obtain ⟨rfl, rfl⟩ := he
    refine ⟨rfl, ?_⟩
    rcases kthreadCreate_cases hc with ⟨-, rfl | ⟨slot, hu, he⟩⟩ | ⟨slot, -, hu, he, -⟩
    · exact h
    · exact h.edit he (by rw [hu]; nofun) nofun
    · exact h.edit he (by rw [hu]; nofun) nofun
  | tick =>
    obtain ⟨⟨r, k1, s1⟩, hc, he⟩ := Option.map_eq_some_iff.mp hs
    simp only [Prod.mk.injEq] at he
    obtain ⟨rfl, rfl⟩ := he
    obtain ⟨rfl, rfl⟩ := schedule_cases hc
    have hsel : ProcOp.selected k .tick = (pickNext k).map Switch.next := rfl
    cases hp : pickNext k with
    | none =>
      left
      exact ⟨by rw [hsel, hp]; rfl, h⟩
    | some sw =>
      right
      obtain ⟨rfl, hn⟩ := h.pick_some hp
      exact ⟨sw.next, by rw [hsel, hp]; rfl, hn, h.switch sw.next⟩
  | exit =>
    right
    obtain ⟨⟨r, k1, s1⟩, hc, he⟩ := Option.bind_eq_some_iff.mp hs
    obtain ⟨sw, hr, he⟩ := Option.map_eq_some_iff.mp he
    simp only [Prod.mk.injEq] at hr he
    obtain ⟨rfl, rfl⟩ := he
    obtain ⟨hp, rfl⟩ := schedule_cases hc
    rw [hr] at hp
    obtain ⟨rfl, hn⟩ := h.exit.pick_some hp.symm
    have hsel : ProcOp.selected k .exit = (pickNext (exitCurrent k)).map Switch.next := rfl
    refine ⟨sw.next, by rw [hsel, ← hp]; rfl, ?_, ?_⟩
    · exact ⟨(h.ready_exit _).mp hn.1, fun x hx => hn.2 x ((h.ready_exit x).mpr hx)⟩
    · rw [hr]
      exact h.exit.switch sw.next
  | free slot =>
    left
    refine ⟨rfl, ?_⟩
    rcases processFree_cases hs with ⟨-, rfl⟩ | he
    · exact h
    · exact h.edit he (by rw [ho.1]; nofun) nofun

/-! ## Runs -/

theorem trace_turns {x y : ProcTable × σ} {l : History σ}
    (h : Trace (procStep E) (fun x op => op.Sound x.1) x l y) :
    ∀ {c}, Runs x.1 c → ∃ c', Runs y.1 c' ∧ Turns c (turns l) c' := by
  induction h with
  | nil => exact fun {c} hc => ⟨c, hc, .nil c⟩
  | @cons x x₁ y op l ho hs _ ih =>
    intro c hc
    rcases hc.turn ho hs with ⟨hsel, hc'⟩ | ⟨b, hsel, hn, hb⟩
    · have : turns ((x, op) :: l) = turns l := by simp [turns, hsel]
      rw [this]
      exact ih hc'
    · obtain ⟨c', hc', ht⟩ := ih hb
      have : turns ((x, op) :: l) = ⟨c, IsReady x.1, b⟩ :: turns l := by
        simp [turns, hsel, hc.current]
      rw [this]
      exact ⟨c', hc', .cons hn hc.notReady ht⟩

theorem reach_runs {ops : List ProcOp} {s₀ : σ} {x : ProcTable × σ}
    (h : Run (procStep E) (fun x op => op.Sound x.1) (bootTable E, s₀) ops x) :
    ∃ c, Runs x.1 c := by
  refine h.invariant (fun x => ∃ c, Runs x.1 c) ?_ ⟨0, bootTable_runs E⟩
  rintro ⟨k, s⟩ op ⟨k', s'⟩ ⟨c, hc⟩ ho hs
  rcases hc.turn ho hs with ⟨-, h'⟩ | ⟨b, -, -, h'⟩
  · exact ⟨c, h'⟩
  · exact ⟨b, h'⟩

theorem Runs.waits (h : Runs k c) (hq : (k.process q).Runnable) : IsReady k q ∨ c = q := by
  rcases hq with hr | hr
  · exact .inl hr
  · exact .inr (h.running q hr).symm

theorem trace_runs {x y : ProcTable × σ} {l : History σ}
    (h : Trace (procStep E) (fun x op => op.Sound x.1) x l y) :
    ∀ {c}, Runs x.1 c → ∀ t ∈ l, ∃ c, Runs t.1.1 c := by
  induction h with
  | nil => intro c _ t ht; cases ht
  | @cons x x₁ y op l ho hs _ ih =>
    intro c hc t ht
    rcases List.mem_cons.mp ht with rfl | ht
    · exact ⟨c, hc⟩
    · rcases hc.turn ho hs with ⟨-, h'⟩ | ⟨b, -, -, h'⟩
      · exact ih h' t ht
      · exact ih h' t ht

theorem trace_waits {x y : ProcTable × σ} {l : History σ}
    (h : Trace (procStep E) (fun x op => op.Sound x.1) x l y) (hc : Runs x.1 c)
    (hq : ∀ t ∈ l, (t.1.1.process q).Runnable) : ∀ t ∈ turns l, t.Waits q := by
  intro t ht
  obtain ⟨x', hx', hr, hh, -⟩ := mem_turns ht
  obtain ⟨c', hc'⟩ := trace_runs h hc x' hx'
  rw [Turn.Waits, hr, hh, hc'.current]
  exact hc'.waits (hq x' hx')

/-- **Round-robin fairness.** In every state of every run: if a call selects `p`,
and a later call selects `p` again, with `p` runnable in between and not selected,
then in between no process is selected twice, and every other process that stays
runnable is selected once. And a process that stays ready is selected within 63
calls that find a ready process. -/
theorem round_robin {ops : List ProcOp} {s₀ : σ} {x : ProcTable × σ}
    (h : Run (procStep E) (fun x op => op.Sound x.1) (bootTable E, s₀) ops x) :
    (∀ p a b y z w (l : History σ), a.Sound x.1 → a.selected x.1 = some p →
      procStep E x a = some y → Trace (procStep E) (fun x op => op.Sound x.1) y l z →
      b.Sound z.1 → b.selected z.1 = some p → procStep E z b = some w →
      p ∉ selections l → (∀ t ∈ l ++ [(z, b)], (t.1.1.process p).Runnable) →
      (selections l).Nodup ∧
      ∀ q, q ≠ p → (∀ t ∈ l ++ [(z, b)], (t.1.1.process q).Runnable) →
        (selections l).count q = 1) ∧
    (∀ q y (l : History σ), Trace (procStep E) (fun x op => op.Sound x.1) x l y →
      (∀ t ∈ l, IsReady t.1.1 q) → 63 ≤ (selections l).length → q ∈ selections l) := by
  obtain ⟨c, hc⟩ := reach_runs h
  constructor
  · intro p a b y z w l ha hsa hsy hl hb hsb hsw hp hrun
    -- `p` runs after the first call, and the turns start from it
    have hy : Runs y.1 p := by
      rcases hc.turn ha hsy with ⟨hn, -⟩ | ⟨b', hs', -, h'⟩
      · rw [hsa] at hn; cases hn
      · rw [hsa, Option.some.injEq] at hs'
        exact hs' ▸ h'
    obtain ⟨c', hc', ht⟩ := trace_turns hl hy
    have hlast : Nearest (IsReady z.1) c' p := by
      rcases hc'.turn hb hsw with ⟨hn, -⟩ | ⟨b', hs', hn, -⟩
      · rw [hsb] at hn; cases hn
      · rw [hsb, Option.some.injEq] at hs'
        exact hs' ▸ hn
    have hmid : ∀ t ∈ turns l, t.Waits p ∧ t.chosen ≠ p := by
      intro t htl
      obtain ⟨x', -, -, -, hch⟩ := mem_turns htl
      refine ⟨trace_waits hl hy (fun t ht => hrun t (List.mem_append_left _ ht)) t htl, ?_⟩
      rintro rfl
      exact hp hch
    have hnd := ht.nodup hmid
    rw [map_chosen_turns] at hnd
    refine ⟨hnd, fun q hq hrq => ?_⟩
    have hmem := ht.mem_chosen hmid
      (trace_waits hl hy fun t ht => hrq t (List.mem_append_left _ ht)) hlast hc'.notReady
      (hc'.waits (hrq (z, b) (by simp))) hq
    rw [map_chosen_turns] at hmem
    exact List.count_eq_one_of_mem hnd hmem
  · intro q y l hl hready hlen
    by_contra hq
    obtain ⟨c', -, ht⟩ := trace_turns hl hc
    have hcq : c ≠ q := by
      rintro rfl
      cases hl with
      | nil => simp [selections] at hlen
      | cons => exact hc.notReady (hready _ List.mem_cons_self)
    have hlt := ht.length_lt hcq fun t htl => by
      obtain ⟨x', hx', hr, -, hch⟩ := mem_turns htl
      refine ⟨by rw [hr]; exact hready x' hx', ?_⟩
      rintro rfl
      exact hq hch
    rw [← List.length_map (f := Turn.chosen), map_chosen_turns] at hlt
    have hround : (q - c).val < 64 := (q - c).isLt
    omega

/-- Two threads and the kernel: between two turns of thread 1, the kernel has one. -/
theorem round_robin_sample : ∃ (x : ProcTable × Nat) (l : History Nat),
    Run (procStep sampleEnv) (fun x op => op.Sound x.1) (bootTable sampleEnv, 0xC0401000)
      [.create 0xC0101000 [], .create 0xC0101100 []] x ∧
    ProcOp.selected x.1 .tick = some 1 ∧ l.length = 2 ∧
    (selections l).Nodup ∧ (selections l).count 0 = 1 := by
  have hrun : Run (procStep sampleEnv) (fun x op => op.Sound x.1)
      (bootTable sampleEnv, 0xC0401000) [.create 0xC0101000 [], .create 0xC0101100 []] _ :=
    .cons trivial rfl (.cons trivial rfl (.nil _))
  obtain ⟨hnd, hone⟩ := (round_robin hrun).1 1 .tick .tick _ _ _ [(_, .tick), (_, .tick)]
    trivial rfl rfl (.cons trivial rfl (.cons trivial rfl (.nil _))) trivial rfl rfl
    (by decide) (by decide)
  refine ⟨_, _, hrun, ?_, ?_, hnd, hone 0 (by decide) (by decide)⟩
  · rfl
  · rfl

end TupleOS.Process
