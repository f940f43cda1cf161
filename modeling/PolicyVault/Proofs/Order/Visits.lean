import Mathlib.Data.List.Permutation
import PolicyVault.Proofs.Order.Arrangements

/-!
# Every order once

The orders that are visited while the first places are permuted are as many as there can be, no two
of them agree, and each comes from the one before by a single exchange. Two orders of one turn
differ by induction, two of different turns in the last place.

Main statement: `permutations_exact`.
-/

namespace PolicyVault.Order

variable {order : List Nat} {i j k : Nat}

/-! ## How many orders there are -/

theorem length_visits (k : Nat) (order : List Nat) :
    (permute k order).1.length = k.factorial := by
  induction k using Nat.twoStepInduction generalizing order with
  | zero => rfl
  | one => rfl
  | more k _ ih =>
    rw [permute_visits, List.length_flatMap]
    simp only [ih, List.map_const', List.sum_replicate, List.length_range, smul_eq_mul]
    rw [Nat.factorial_succ (k + 1)]

/-! ## No order comes twice -/

theorem visits_last {σ : Equiv.Perm Nat} (settled : Settled (k + 1) σ)
    (fits : k + 2 ≤ order.length) (within : j ≤ k + 1) {visited : List Nat}
    (member : visited ∈ (permute (k + 1) (turn k order j)).1) :
    visited.length = order.length ∧ visited[k + 1]? = order[turned k σ j (k + 1)]? := by
  have inner := (permute_keeps _ (length_turn fits within).le).1 visited member
  refine ⟨inner.length.trans (turn_keeps fits within).length, ?_⟩
  rw [inner.beyond _ (Nat.le_refl _), turn_arranges settled fits j within]

theorem visits_disjoint (fits : k + 2 ≤ order.length) (distinct : order.Nodup)
    (first : i ≤ k + 1) (second : j ≤ k + 1) (apart : i ≠ j) :
    (permute (k + 1) (turn k order i)).1.Disjoint (permute (k + 1) (turn k order j)).1 := by
  obtain ⟨σ, settled⟩ := exists_settled k
  intro visited inFirst inSecond
  obtain ⟨length, atFirst⟩ := visits_last settled fits first inFirst
  obtain ⟨-, atSecond⟩ := visits_last settled fits second inSecond
  have entry : visited[k + 1]? = some visited[k + 1] := List.getElem?_eq_getElem (by omega)
  obtain ⟨bound, -⟩ := List.getElem?_eq_some_iff.mp (atFirst.symm.trans entry)
  have same := (List.getElem?_inj bound distinct).mp (atFirst.symm.trans atSecond)
  exact apart (turned_last settled first second same)

theorem visits_nodup (fits : k ≤ order.length) (distinct : order.Nodup) :
    (permute k order).1.Nodup := by
  induction k using Nat.twoStepInduction generalizing order with
  | zero => exact List.nodup_singleton order
  | one => exact List.nodup_singleton order
  | more k _ ih =>
    rw [permute_visits, List.nodup_flatMap]
    constructor
    · intro j below
      have within : j ≤ k + 1 := Nat.le_of_lt_succ (List.mem_range.mp below)
      exact ih (length_turn fits within).le
        ((turn_keeps fits within).perm.nodup_iff.mpr distinct)
    · refine List.pairwise_lt_range.imp_of_mem fun first second less => ?_
      exact visits_disjoint fits distinct (Nat.le_of_lt_succ (List.mem_range.mp first))
        (Nat.le_of_lt_succ (List.mem_range.mp second)) less.ne

/-! ## Each order comes from the one before -/

/-- The orders differ at two places and no others, and the entries of the two are exchanged. -/
def Neighbours (before after : List Nat) : Prop :=
  ∃ i j : Nat, i < j ∧ after[i]? = before[j]? ∧ after[j]? = before[i]? ∧
    ∀ p, before[p]? ≠ after[p]? ↔ p = i ∨ p = j

theorem exchange_neighbours (distinct : order.Nodup) (less : i < j) (bound : j < order.length) :
    Neighbours order (exchange order i j) := by
  have arranges := exchange_arranges (less.trans bound) bound
  have apart : order[i]? ≠ order[j]? := by
    rw [Ne, List.getElem?_inj (less.trans bound) distinct]
    exact less.ne
  refine ⟨i, j, less, ?_, ?_, fun p => ?_⟩
  · rw [arranges, Equiv.swap_apply_left]
  · rw [arranges, Equiv.swap_apply_right]
  · rw [arranges]
    by_cases atFirst : p = i
    · subst atFirst
      simp [apart]
    · by_cases atSecond : p = j
      · subst atSecond
        simp [apart.symm]
      · simp [Equiv.swap_apply_of_ne_of_ne, atFirst, atSecond]

theorem visits_head (k : Nat) (order : List Nat) : (permute k order).1.head? = some order := by
  induction k using Nat.twoStepInduction generalizing order with
  | zero => rfl
  | one => rfl
  | more k _ ih =>
    rw [permute_visits, List.range_succ_eq_map, List.flatMap_cons, List.head?_append, ih]
    rfl

theorem visits_getLast (k : Nat) (order : List Nat) :
    (permute k order).1.getLast? = some (permute k order).2 := by
  induction k using Nat.twoStepInduction generalizing order with
  | zero => rfl
  | one => rfl
  | more k _ ih =>
    rw [permute_visits, List.range_succ, List.flatMap_append, List.flatMap_singleton,
      List.getLast?_append, ih, permute_left]
    rfl

theorem visits_chain (fits : k ≤ order.length) (distinct : order.Nodup) :
    (permute k order).1.IsChain Neighbours := by
  induction k using Nat.twoStepInduction generalizing order with
  | zero => exact List.isChain_singleton order
  | one => exact List.isChain_singleton order
  | more k _ ih =>
    have nonempty {j : Nat} : (permute (k + 1) (turn k order j)).1 ≠ [] :=
      List.ne_nil_of_length_pos (by rw [length_visits]; exact Nat.factorial_pos _)
    rw [permute_visits, List.flatMap_def, List.isChain_flatten (by simp [nonempty])]
    constructor
    · rintro visits member
      obtain ⟨j, below, rfl⟩ := List.mem_map.mp member
      have within : j ≤ k + 1 := Nat.le_of_lt_succ (List.mem_range.mp below)
      exact ih (length_turn fits within).le
        ((turn_keeps fits within).perm.nodup_iff.mpr distinct)
    · -- A turn starts from what the one before leaves, but for the exchange between them.
      rw [List.isChain_map, List.isChain_range_succ]
      intro j within before isLast after isFirst
      rw [visits_getLast] at isLast
      rw [visits_head] at isFirst
      obtain rfl := Option.some.inj isLast
      obtain rfl := Option.some.inj isFirst
      have inside := length_turn fits within.le
      have left := (permute_keeps _ inside.le).2
      have leftLength := left.length
      have place := pivot_le k j
      have entries := left.perm.trans (turn_keeps fits within.le).perm
      exact exchange_neighbours (entries.nodup_iff.mpr distinct) (by omega) (by omega)

/-! ## All orders -/

theorem permutations_eq {n : Nat} (positive : 1 ≤ n) :
    permutations n = (permute n (List.range n)).1 :=
  if_neg (Nat.ne_of_gt positive)

/-- Visiting the orders of the numbers below `n` comes to `n!` orders, all different, which are the
permutations of these numbers: each of them comes up exactly once. Every order but the first comes
from the one before by an exchange of two places, in which alone the two differ. -/
theorem permutations_exact {n : Nat} (positive : 1 ≤ n) :
    (permutations n).length = n.factorial ∧
      (permutations n).Nodup ∧
      (∀ order, order ∈ permutations n ↔ order.Perm (List.range n)) ∧
      (∀ order, order.Perm (List.range n) → (permutations n).count order = 1) ∧
      (permutations n).IsChain Neighbours := by
  have fits : n ≤ (List.range n).length := by rw [List.length_range]
  have length := length_visits n (List.range n)
  have distinct := visits_nodup fits List.nodup_range
  have chain := visits_chain fits List.nodup_range
  rw [← permutations_eq positive] at length distinct chain
  have sound : permutations n ⊆ (List.range n).permutations := by
    intro order member
    rw [permutations_eq positive] at member
    exact List.mem_permutations.mpr ((permute_keeps n fits).1 order member).perm
  -- As many different orders as there are permutations are all permutations.
  have all : (permutations n).Perm (List.range n).permutations :=
    (List.subperm_of_subset distinct sound).perm_of_length_le
      (by rw [List.length_permutations, List.length_range, length])
  have members : ∀ order, order ∈ permutations n ↔ order.Perm (List.range n) := by
    intro order
    rw [all.mem_iff, List.mem_permutations]
  exact ⟨length, distinct, members,
    fun order same => List.count_eq_one_of_mem distinct ((members order).mpr same), chain⟩

theorem permutations_exact_three :
    1 ≤ 3 ∧ permutations 3 =
      [[0, 1, 2], [1, 0, 2], [2, 0, 1], [0, 2, 1], [1, 2, 0], [2, 1, 0]] ∧
      (permutations 3).count [2, 0, 1] = 1 ∧ (permutations 3).IsChain Neighbours := by
  obtain ⟨-, -, -, once, chain⟩ := permutations_exact (n := 3) (by decide)
  exact ⟨by decide, by decide, once [2, 0, 1] (by decide), chain⟩

end PolicyVault.Order
