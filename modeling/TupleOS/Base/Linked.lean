import Mathlib.Algebra.Ring.Nat
import Mathlib.Data.List.Nodup
import Mathlib.Logic.Function.Basic

/-!
# Singly linked lists

Nodes are named by a type `ι`, and `next` gives the pointer in each. `Chain next head l` says
that following the pointers from `head` one comes through the nodes of `l`, in that order,
and to the end. Two loops walk along a chain: `walkWhile` stops before the first node that is
not wanted, `search` at the first that is. Both count their steps, and return `none` when
so many were not enough.
-/

namespace TupleOS.Base

variable {ι : Type} {next next' : ι → Option ι} {p : ι → Bool} {head : Option ι} {l : List ι}

/-- From `head` on the nodes are those of the list. -/
def Chain (next : ι → Option ι) : Option ι → List ι → Prop
  | head, [] => head = none
  | head, i :: l => head = some i ∧ Chain next (next i) l

/-- `while (cur->next && p(cur->next)) cur = cur->next;`. -/
def walkWhile (next : ι → Option ι) (p : ι → Bool) : Nat → ι → Option ι
  | 0, _ => none
  | n + 1, cur =>
    match next cur with
    | none => some cur
    | some j => if p j then walkWhile next p n j else some cur

/-- `while (cur && !p(cur)) cur = cur->next;`. -/
def search (next : ι → Option ι) (p : ι → Bool) : Nat → Option ι → Option (Option ι)
  | 0, _ => none
  | _ + 1, none => some none
  | n + 1, some i => if p i then some (some i) else search next p n (next i)

theorem Chain.congr (h : Chain next head l) (hnext : ∀ i ∈ l, next' i = next i) :
    Chain next' head l := by
  induction l generalizing head with
  | nil => exact h
  | cons i l ih =>
    refine ⟨h.1, ?_⟩
    rw [hnext i (List.mem_cons_self ..)]
    exact ih h.2 fun j hj => hnext j (List.mem_cons_of_mem i hj)

theorem Chain.unique (h : Chain next head l) {l' : List ι} (h' : Chain next head l') : l = l' := by
  induction l generalizing head l' with
  | nil =>
    cases l' with
    | nil => rfl
    | cons i l' => exact absurd (h.symm.trans h'.1) (Option.some_ne_none i).symm
  | cons i l ih =>
    cases l' with
    | nil => exact absurd (h'.symm.trans h.1) (Option.some_ne_none i).symm
    | cons j l' =>
      obtain rfl := Option.some.inj (h.1.symm.trans h'.1)
      rw [ih h.2 h'.2]

theorem Chain.tail {pre post : List ι} {c : ι} (h : Chain next head (pre ++ c :: post)) :
    Chain next (next c) post := by
  induction pre generalizing head with
  | nil => exact h.2
  | cons i pre ih => exact ih h.2

theorem Chain.replace_tail {pre post post' : List ι} {c : ι}
    (h : Chain next head (pre ++ c :: post)) (hpre : ∀ i ∈ pre, next' i = next i)
    (hpost : Chain next' (next' c) post') :
    Chain next' head (pre ++ c :: post') := by
  induction pre generalizing head with
  | nil => exact ⟨h.1, hpost⟩
  | cons i pre ih =>
    refine ⟨h.1, ?_⟩
    rw [hpre i (List.mem_cons_self ..)]
    exact ih h.2 fun j hj => hpre j (List.mem_cons_of_mem i hj)

/-! ## Walking -/

/-- **A walk** ends at the last node before the first that is not wanted. -/
theorem walkWhile_spec {cur : ι} {n : Nat} (h : Chain next (next cur) l) (hn : l.length < n) :
    ∃ pre c, cur :: l.takeWhile p = pre ++ [c] ∧ walkWhile next p n cur = some c := by
  induction l generalizing cur n with
  | nil =>
    obtain ⟨n, rfl⟩ := Nat.exists_eq_add_of_lt hn
    have hend : next cur = none := h
    exact ⟨[], cur, rfl, by rw [walkWhile, hend]⟩
  | cons j l ih =>
    obtain ⟨n, rfl⟩ := Nat.exists_eq_succ_of_ne_zero (Nat.ne_zero_of_lt hn)
    obtain ⟨hj, hrest⟩ := h
    rw [walkWhile, hj, List.takeWhile_cons]
    by_cases hp : p j = true
    · obtain ⟨pre, c, heq, hwalk⟩ := ih hrest (Nat.lt_of_succ_lt_succ hn)
      refine ⟨cur :: pre, c, ?_, ?_⟩
      · rw [if_pos hp, heq, List.cons_append]
      · simp only [hp, ↓reduceIte, hwalk]
    · refine ⟨[], cur, ?_, ?_⟩
      · rw [if_neg hp, List.nil_append]
      · simp only [hp, Bool.false_eq_true, ↓reduceIte]

theorem walkWhile_before [DecidableEq ι] {cur i : ι} {n : Nat} {pre post : List ι}
    (h : Chain next (next cur) (pre ++ i :: post)) (hi : i ∉ pre)
    (hn : (pre ++ i :: post).length < n) :
    ∃ pre' c, cur :: pre = pre' ++ [c] ∧ walkWhile next (fun j => j ≠ i) n cur = some c := by
  have htake : (pre ++ i :: post).takeWhile (fun j => j ≠ i) = pre := by
    rw [List.takeWhile_append_of_pos fun j hj => decide_eq_true (ne_of_mem_of_not_mem hj hi),
      List.takeWhile_cons_of_neg (by simp), List.append_nil]
  have hwalk := walkWhile_spec (p := fun j => j ≠ i) h hn
  rwa [htake] at hwalk

/-- **A search** finds the first node that is wanted. -/
theorem search_spec {n : Nat} (h : Chain next head l) (hn : l.length < n) :
    search next p n head = some (l.find? p) := by
  induction l generalizing head n with
  | nil =>
    obtain ⟨n, rfl⟩ := Nat.exists_eq_succ_of_ne_zero (Nat.ne_zero_of_lt hn)
    obtain rfl : head = none := h
    rfl
  | cons i l ih =>
    obtain ⟨n, rfl⟩ := Nat.exists_eq_succ_of_ne_zero (Nat.ne_zero_of_lt hn)
    obtain ⟨rfl, hrest⟩ := h
    rw [search, ih hrest (Nat.lt_of_succ_lt_succ hn), List.find?_cons]
    cases p i <;> rfl

/-! ## Linking and unlinking -/

section Splice

variable [DecidableEq ι] {pre post : List ι} {c i : ι}

def link (next : ι → Option ι) (i : ι) (target : Option ι) : ι → Option ι :=
  Function.update next i target

@[simp] theorem link_self (target : Option ι) : link next i target i = target :=
  Function.update_self ..

theorem link_of_ne {j : ι} (target : Option ι) (h : j ≠ i) : link next i target j = next j :=
  Function.update_of_ne h ..

theorem Chain.link_outside {target : Option ι} (h : Chain next head l) (hi : i ∉ l) :
    Chain (link next i target) head l := by
  apply h.congr
  intro j hj
  exact link_of_ne target (ne_of_mem_of_not_mem hj hi)

theorem Chain.insert_head (h : Chain next head l) (hi : i ∉ l) :
    Chain (link next i head) (some i) (i :: l) := by
  refine ⟨rfl, ?_⟩
  rw [link_self]
  exact h.link_outside hi

/-- **A node after `c`.** -/
theorem Chain.insert_after (h : Chain next head (pre ++ c :: post))
    (hnodup : (pre ++ c :: post).Nodup) (hi : i ∉ pre ++ c :: post) :
    Chain (link (link next i (next c)) c (some i)) head (pre ++ c :: i :: post) := by
  obtain ⟨hc, -⟩ := List.nodup_middle.mp hnodup |> List.nodup_cons.mp
  rw [List.mem_append, not_or] at hc
  have hic : i ≠ c := by
    rintro rfl
    exact hi List.mem_append_cons_self
  have hipre : i ∉ pre := fun hmem => hi (List.mem_append_left _ hmem)
  have hipost : i ∉ post := fun hmem => hi (List.mem_append_right _ (List.mem_cons_of_mem c hmem))
  apply h.replace_tail
  · intro j hj
    rw [link_of_ne _ (ne_of_mem_of_not_mem hj hc.1), link_of_ne _ (ne_of_mem_of_not_mem hj hipre)]
  · rw [link_self]
    refine ⟨rfl, ?_⟩
    rw [link_of_ne _ hic, link_self]
    exact (h.tail.link_outside hipost).link_outside hc.2

/-- **The node after `c`** is taken out. -/
theorem Chain.remove_after (h : Chain next head (pre ++ c :: i :: post))
    (hnodup : (pre ++ c :: i :: post).Nodup) :
    Chain (link next c (next i)) head (pre ++ c :: post) := by
  obtain ⟨hc, -⟩ := List.nodup_middle.mp hnodup |> List.nodup_cons.mp
  rw [List.mem_append, List.mem_cons, not_or, not_or] at hc
  apply h.replace_tail
  · intro j hj
    exact link_of_ne _ (ne_of_mem_of_not_mem hj hc.1)
  · rw [link_self]
    exact h.tail.2.link_outside hc.2.2

end Splice

end TupleOS.Base
