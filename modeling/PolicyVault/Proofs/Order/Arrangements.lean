import Mathlib.GroupTheory.Perm.Cycle.Basic
import PolicyVault.Order.Permutations

/-!
# What permuting leaves

Permuting the first `k + 2` places takes as many turns. Each turn permutes the first `k + 1` places,
and after each but the last some place is exchanged with place `k + 1`. What is left in the end is
an arrangement that depends on `k` alone: with an odd number of places the first and the last are
exchanged, with an even number all of them move along one cycle. From this each turn finds another
entry in place `k + 1`.

Main statements: `exists_settled`, `turned_last`.
-/

namespace PolicyVault.Order

open Equiv (Perm swap)

/-! ## Cycles -/

/-- An exchange with a fixed place takes that place into a cycle. -/
theorem isCycleOn_mul_swap {f : Perm Nat} {s : Finset Nat} {a b : Nat} (cycle : f.IsCycleOn s)
    (inside : a ∈ s) (outside : b ∉ s) (fixed : f b = b) :
    (f * swap a b).IsCycleOn (insert b s : Finset Nat) := by
  have atA : (f * swap a b) a = b := by simp [fixed]
  have atB : (f * swap a b) b = f a := by simp
  have elsewhere : ∀ x, x ≠ a → x ≠ b → (f * swap a b) x = f x := by
    intro x notA notB
    rw [Perm.mul_apply, Equiv.swap_apply_of_ne_of_ne notA notB]
  -- From `b` the new cycle goes on as `f` does from `a`, until it is back at `a`.
  have joined : ∀ n, (f * swap a b).SameCycle b ((f ^ n) a) := by
    intro n
    induction n with
    | zero =>
      have step : (f * swap a b).SameCycle a b := ⟨1, by rw [zpow_one, atA]⟩
      exact step.symm
    | succ n ih =>
      have member : (f ^ n) a ∈ s := cycle.1.mapsTo.perm_pow n inside
      rw [pow_succ', Perm.mul_apply]
      by_cases home : (f ^ n) a = a
      · rw [home, ← atB]
        exact Perm.sameCycle_apply_right.mpr .rfl
      · rw [← elsewhere _ home (fun same => outside (same ▸ member))]
        exact Perm.sameCycle_apply_right.mpr ih
  have reached : ∀ x ∈ insert b s, (f * swap a b).SameCycle b x := by
    intro x member
    rcases Finset.mem_insert.mp member with rfl | member
    · exact .rfl
    · obtain ⟨n, -, rfl⟩ := cycle.exists_pow_eq inside member
      exact joined n
  have keeps : Set.BijOn f (insert b s : Finset Nat) (insert b s : Finset Nat) := by
    have wider := cycle.1.insert (a := b) (by rwa [fixed])
    rwa [fixed, ← Finset.coe_insert] at wider
  have exchanges : Set.BijOn (swap a b) (insert b s : Finset Nat) (insert b s : Finset Nat) :=
    Equiv.swap_bijOn_self (by simp [inside])
  exact ⟨keeps.comp exchanges, fun x inX y inY => (reached x inX).symm.trans (reached y inY)⟩

/-! ## Arrangements -/

/-- Each place holds afterwards what the place that `σ` tells held before. -/
def Arranges (σ : Perm Nat) (before after : List Nat) : Prop :=
  ∀ p, after[p]? = before[σ p]?

variable {σ τ : Perm Nat} {order before between after : List Nat} {i j k : Nat}

theorem Arranges.refl (order : List Nat) : Arranges 1 order order := fun _ => rfl

theorem Arranges.trans (first : Arranges σ before between) (second : Arranges τ between after) :
    Arranges (σ * τ) before after := by
  intro p
  rw [second, first, Perm.mul_apply]

@[simp] theorem length_exchange (order : List Nat) (i j : Nat) :
    (exchange order i j).length = order.length := by
  simp [exchange]

theorem exchange_arranges (first : i < order.length) (second : j < order.length) :
    Arranges (swap i j) order (exchange order i j) := by
  intro p
  simp only [exchange, List.getElem?_set, List.length_set, Equiv.swap_apply_def,
    List.getD_eq_getElem?_getD]
  grind

theorem exchange_perm (first : i < order.length) (second : j < order.length) :
    (exchange order i j).Perm order := by
  have same := List.set_set_perm first second
  simpa [exchange, first, second] using same

/-! ## Turns -/

/-- The place that is exchanged with the last one after turn `i`. -/
def pivot (k i : Nat) : Nat := if k % 2 = 0 then i else 0

theorem pivot_le (k i : Nat) : pivot k i ≤ i := by
  unfold pivot
  split <;> omega

/-- What turn `j` of the first `k + 2` places starts from. -/
def turn (k : Nat) (order : List Nat) : Nat → List Nat
  | 0 => order
  | j + 1 => exchange (permute (k + 1) (turn k order j)).2 (pivot k j) (k + 1)

theorem foldl_turns (k : Nat) (order : List Nat) (j : Nat) :
    (List.range j).foldl
        (fun (visited, order) i =>
          let turn := permute (k + 1) order
          (visited ++ turn.1, exchange turn.2 (if k % 2 = 0 then i else 0) (k + 1)))
        ([], order) =
      ((List.range j).flatMap fun i => (permute (k + 1) (turn k order i)).1, turn k order j) := by
  induction j with
  | zero => rfl
  | succ j ih => simp [List.range_succ, ih, turn, pivot]

theorem permute_visits (k : Nat) (order : List Nat) :
    (permute (k + 2) order).1 =
      (List.range (k + 2)).flatMap fun j => (permute (k + 1) (turn k order j)).1 := by
  have turns : List.range (k + 2) = List.range (k + 1) ++ [k + 1] := List.range_succ
  rw [permute, foldl_turns, turns]
  simp only [List.flatMap_append, List.flatMap_singleton]

theorem permute_left (k : Nat) (order : List Nat) :
    (permute (k + 2) order).2 = (permute (k + 1) (turn k order (k + 1))).2 := by
  rw [permute, foldl_turns]

/-! ## Places that stay -/

/-- The entries are the same, and those from place `k` on stay where they are. -/
structure Keeps (k : Nat) (before after : List Nat) : Prop where
  perm : after.Perm before
  beyond : ∀ p, k ≤ p → after[p]? = before[p]?

namespace Keeps

theorem refl (k : Nat) (order : List Nat) : Keeps k order order :=
  ⟨.refl order, fun _ _ => rfl⟩

theorem trans (first : Keeps k before between) (second : Keeps k between after) :
    Keeps k before after :=
  ⟨second.perm.trans first.perm,
    fun p above => (second.beyond p above).trans (first.beyond p above)⟩

theorem mono {n : Nat} (keeps : Keeps k before after) (wider : k ≤ n) : Keeps n before after :=
  ⟨keeps.perm, fun p above => keeps.beyond p (Nat.le_trans wider above)⟩

theorem length (keeps : Keeps k before after) : after.length = before.length :=
  keeps.perm.length_eq

theorem exchange (fits : k ≤ order.length) (first : i < k) (second : j < k) :
    Keeps k order (exchange order i j) where
  perm := exchange_perm (by omega) (by omega)
  beyond p above := by
    rw [exchange_arranges (by omega) (by omega),
      Equiv.swap_apply_of_ne_of_ne (by omega) (by omega)]

end Keeps

theorem turn_keeps_of_left (left : ∀ order : List Nat, k + 1 ≤ order.length →
      Keeps (k + 1) order (permute (k + 1) order).2)
    (fits : k + 2 ≤ order.length) (j : Nat) (within : j ≤ k + 1) :
    Keeps (k + 2) order (turn k order j) := by
  induction j with
  | zero => exact .refl _ order
  | succ j ih =>
    have before := ih (by omega)
    have sameLength := before.length
    have inner := (left (turn k order j) (by omega)).mono (Nat.le_succ (k + 1))
    have length := (before.trans inner).length
    have place := pivot_le k j
    exact (before.trans inner).trans (.exchange (by omega) (by omega) (by omega))

/-- Permuting the first places reorders the entries and leaves the further places alone. -/
theorem permute_keeps (k : Nat) (fits : k ≤ order.length) :
    (∀ visited ∈ (permute k order).1, Keeps k order visited) ∧
      Keeps k order (permute k order).2 := by
  induction k using Nat.twoStepInduction generalizing order with
  | zero => simp [permute, Keeps.refl]
  | one => simp [permute, Keeps.refl]
  | more k _ ih =>
    have turns := turn_keeps_of_left (fun _ inner => (ih inner).2) fits
    have inside : ∀ j ≤ k + 1, k + 1 ≤ (turn k order j).length := by
      intro j within
      have length := (turns j within).length
      omega
    constructor
    · intro visited member
      rw [permute_visits, List.mem_flatMap] at member
      obtain ⟨j, below, member⟩ := member
      have within : j ≤ k + 1 := Nat.le_of_lt_succ (List.mem_range.mp below)
      have inner := (ih (inside j within)).1 visited member
      exact (turns j within).trans (inner.mono (Nat.le_succ _))
    · have inner := (ih (inside _ (Nat.le_refl _))).2
      rw [permute_left]
      exact (turns _ (Nat.le_refl _)).trans (inner.mono (Nat.le_succ _))

theorem turn_keeps (fits : k + 2 ≤ order.length) (within : j ≤ k + 1) :
    Keeps (k + 2) order (turn k order j) :=
  turn_keeps_of_left (fun _ inner => (permute_keeps _ inner).2) fits j within

theorem length_turn (fits : k + 2 ≤ order.length) (within : j ≤ k + 1) :
    k + 1 < (turn k order j).length := by
  rw [(turn_keeps fits within).length]
  exact fits

/-! ## What is left -/

/-- Permuting the first `k` places leaves what `σ` arranges, which is one of two kinds. -/
structure Settled (k : Nat) (σ : Perm Nat) : Prop where
  arranges : ∀ order : List Nat, k ≤ order.length → Arranges σ order (permute k order).2
  fixes : ∀ p, k ≤ p → σ p = p
  odd : k % 2 = 1 → σ = swap 0 (k - 1)
  even : k % 2 = 0 → σ.IsCycleOn (Finset.range k)

/-- The arrangement that turn `j` starts from, if each turn leaves `σ`. -/
def turned (k : Nat) (σ : Perm Nat) : Nat → Perm Nat
  | 0 => 1
  | j + 1 => turned k σ j * σ * swap (pivot k j) (k + 1)

theorem turn_arranges (settled : Settled (k + 1) σ) (fits : k + 2 ≤ order.length) (j : Nat)
    (within : j ≤ k + 1) : Arranges (turned k σ j) order (turn k order j) := by
  induction j with
  | zero => exact .refl order
  | succ j ih =>
    have inside := length_turn fits (Nat.le_of_succ_le within)
    have leftLength := (permute_keeps _ inside.le).2.length
    have place := pivot_le k j
    exact ((ih (by omega)).trans (settled.arranges _ inside.le)).trans
      (exchange_arranges (by omega) (by omega))

theorem turned_fixes (fixes : ∀ p, k + 1 ≤ p → σ p = p) {p : Nat} (within : j ≤ k + 1)
    (above : k + 2 ≤ p) : turned k σ j p = p := by
  induction j with
  | zero => rfl
  | succ j ih =>
    have place := pivot_le k j
    rw [turned, Perm.mul_apply, Perm.mul_apply,
      Equiv.swap_apply_of_ne_of_ne (by omega) (by omega), fixes p (by omega), ih (by omega)]

/-! ## An odd number of places -/

section Odd

variable (parity : k % 2 = 1)
include parity

theorem turned_odd (σ : Perm Nat) (j : Nat) : turned k σ j = (σ * swap 0 (k + 1)) ^ j := by
  have place : ∀ i, pivot k i = 0 := by
    intro i
    rw [pivot, if_neg (by omega)]
  induction j with
  | zero => rfl
  | succ j ih => rw [turned, ih, place, pow_succ, mul_assoc]

variable (settled : Settled (k + 1) σ)
include settled

/-- A turn and the exchange after it move all places along one cycle. -/
theorem cycle_odd : (σ * swap 0 (k + 1)).IsCycleOn (Finset.range (k + 2)) := by
  have cycle := settled.even (by omega)
  have wider := isCycleOn_mul_swap cycle (a := 0) (b := k + 1) (by simp) (by simp)
    (settled.fixes _ (Nat.le_refl _))
  rwa [← Finset.range_add_one] at wider

theorem left_odd : turned k σ (k + 1) * σ = swap 0 (k + 1) := by
  have cycle := cycle_odd parity settled
  have whole : (σ * swap 0 (k + 1)) ^ (k + 2) = 1 := by
    ext p
    rcases Nat.lt_or_ge p (k + 2) with below | above
    · simpa using cycle.pow_card_apply (Finset.mem_range.mpr below)
    · apply Perm.pow_apply_eq_self_of_apply_eq_self
      rw [Perm.mul_apply, Equiv.swap_apply_of_ne_of_ne (by omega) (by omega)]
      exact settled.fixes p (by omega)
  rw [turned_odd parity]
  calc (σ * swap 0 (k + 1)) ^ (k + 1) * σ
      = (σ * swap 0 (k + 1)) ^ (k + 2) * swap 0 (k + 1) := by
        rw [pow_succ _ (k + 1), mul_assoc, mul_assoc, Equiv.swap_mul_self, mul_one]
    _ = swap 0 (k + 1) := by rw [whole, one_mul]

theorem last_odd (first : i ≤ k + 1) (second : j ≤ k + 1)
    (same : turned k σ i (k + 1) = turned k σ j (k + 1)) : i = j := by
  rw [turned_odd parity, turned_odd parity,
    (cycle_odd parity settled).pow_apply_eq_pow_apply (by simp), Finset.card_range] at same
  exact same.eq_of_lt_of_lt (by omega) (by omega)

end Odd

/-! ## An even number of places -/

/-- The exchanges that follow the first `j` turns. What the turns do themselves, which is to
exchange places `0` and `k`, is drawn out of them. -/
def star (k : Nat) : Nat → Perm Nat
  | 0 => 1
  | j + 1 => star k j * swap (swap 0 k j) (k + 1)

theorem swap_le (within : j ≤ k) : swap 0 k j ≤ k := by
  rw [Equiv.swap_apply_def]
  split
  · exact Nat.le_refl k
  · split <;> omega

theorem swap_last (k : Nat) : swap 0 k (k + 1) = k + 1 :=
  Equiv.swap_apply_of_ne_of_ne (by omega) (by omega)

theorem swap_pow_even (n : Nat) : swap 0 k ^ (2 * n) = 1 := by
  rw [pow_mul, pow_two, Equiv.swap_mul_self, one_pow]

theorem star_fixes {p : Nat} (notLast : p ≠ k + 1) (fresh : ∀ i < j, swap 0 k i ≠ p) :
    star k j p = p := by
  induction j with
  | zero => rfl
  | succ j ih =>
    have apart := fresh j (Nat.lt_succ_self j)
    rw [star, Perm.mul_apply, Equiv.swap_apply_of_ne_of_ne apart.symm notLast]
    exact ih fun i below => fresh i (Nat.lt_succ_of_lt below)

theorem star_fixes_next (within : j ≤ k) : star k j (swap 0 k j) = swap 0 k j := by
  have bound := swap_le within
  exact star_fixes (by omega) fun i below same => below.ne ((swap 0 k).injective same)

theorem star_last (within : j ≤ k) : star k (j + 1) (k + 1) = swap 0 k j := by
  rw [star, Perm.mul_apply, Equiv.swap_apply_right, star_fixes_next within]

/-- The places exchanged so far and the last one form one cycle. -/
theorem star_cycle (within : j ≤ k + 1) :
    (star k j).IsCycleOn (insert (k + 1) ((Finset.range j).image (swap 0 k)) : Finset Nat) := by
  induction j with
  | zero => simp [star]
  | succ j ih =>
    have bound : swap 0 k j ≤ k := swap_le (by omega)
    have outside : swap 0 k j ∉ insert (k + 1) ((Finset.range j).image (swap 0 k)) := by
      rw [Finset.mem_insert, Finset.mem_image]
      rintro (same | ⟨i, below, same⟩)
      · omega
      · exact (Finset.mem_range.mp below).ne ((swap 0 k).injective same)
    have wider := isCycleOn_mul_swap (ih (by omega)) (Finset.mem_insert_self ..) outside
      (star_fixes_next (by omega))
    rwa [Equiv.swap_comm, Finset.insert_comm, ← Finset.image_insert, ← Finset.range_add_one]
      at wider

theorem image_swap (k : Nat) : (Finset.range (k + 1)).image (swap 0 k) = Finset.range (k + 1) := by
  ext p
  rw [Finset.mem_image]
  constructor
  · rintro ⟨i, below, rfl⟩
    exact Finset.mem_range.mpr
      (Nat.lt_succ_of_le (swap_le (Nat.le_of_lt_succ (Finset.mem_range.mp below))))
  · intro below
    have within : swap 0 k p ≤ k := swap_le (Nat.le_of_lt_succ (Finset.mem_range.mp below))
    refine ⟨swap 0 k p, Finset.mem_range.mpr (Nat.lt_succ_of_le within), ?_⟩
    rw [← Perm.mul_apply, Equiv.swap_mul_self, Perm.one_apply]

theorem cycle_even (k : Nat) : (star k (k + 1)).IsCycleOn (Finset.range (k + 2)) := by
  have cycle := star_cycle (Nat.le_refl (k + 1))
  rwa [image_swap, ← Finset.range_add_one] at cycle

section Even

variable (parity : k % 2 = 0)
include parity

theorem swap_pow_self (j : Nat) : (swap 0 k ^ (j + 1)) j = swap 0 k j := by
  rcases Nat.even_or_odd' j with ⟨n, rfl | rfl⟩
  · rw [pow_succ, swap_pow_even, one_mul]
  · -- An odd place is neither `0` nor `k`.
    have apart : swap 0 k (2 * n + 1) = 2 * n + 1 :=
      Equiv.swap_apply_of_ne_of_ne (by omega) (by omega)
    rw [apart]
    exact Perm.pow_apply_eq_self_of_apply_eq_self apart _

theorem turned_even (j : Nat) : turned k (swap 0 k) j = star k j * swap 0 k ^ j := by
  induction j with
  | zero => rfl
  | succ j ih =>
    have last : (swap 0 k ^ (j + 1)) (k + 1) = k + 1 :=
      Perm.pow_apply_eq_self_of_apply_eq_self (swap_last k) _
    -- The turns are taken past the exchange, which they move to where its place came from.
    rw [turned, ih, pivot, if_pos parity, mul_assoc (star k j), ← pow_succ, mul_assoc,
      Equiv.mul_swap_eq_swap_mul, swap_pow_self parity, last, star, mul_assoc]

theorem left_even : turned k (swap 0 k) (k + 1) * swap 0 k = star k (k + 1) := by
  obtain ⟨n, half⟩ : ∃ n, k + 2 = 2 * n := ⟨(k + 2) / 2, by omega⟩
  rw [turned_even parity, mul_assoc, ← pow_succ, half, swap_pow_even, mul_one]

theorem last_even (first : i ≤ k + 1) (second : j ≤ k + 1)
    (same : turned k (swap 0 k) i (k + 1) = turned k (swap 0 k) j (k + 1)) : i = j := by
  have last : ∀ n, turned k (swap 0 k) n (k + 1) = star k n (k + 1) := by
    intro n
    rw [turned_even parity, Perm.mul_apply, Perm.pow_apply_eq_self_of_apply_eq_self (swap_last k)]
  rw [last, last] at same
  cases i with
  | zero =>
    cases j with
    | zero => rfl
    | succ j =>
      have bound := swap_le (Nat.le_of_succ_le_succ second)
      rw [star_last (Nat.le_of_succ_le_succ second), star, Perm.one_apply] at same
      omega
  | succ i =>
    have boundI := swap_le (Nat.le_of_succ_le_succ first)
    cases j with
    | zero =>
      rw [star_last (Nat.le_of_succ_le_succ first), star, Perm.one_apply] at same
      omega
    | succ j =>
      rw [star_last (Nat.le_of_succ_le_succ first),
        star_last (Nat.le_of_succ_le_succ second)] at same
      rw [(swap 0 k).injective same]

end Even

/-! ## All numbers of places -/

theorem Settled.swap_of_even (settled : Settled (k + 1) σ) (parity : k % 2 = 0) :
    σ = swap 0 k :=
  settled.odd (by omega)

theorem Settled.next (settled : Settled (k + 1) σ) :
    Settled (k + 2) (turned k σ (k + 1) * σ) where
  arranges order fits := by
    rw [permute_left]
    exact (turn_arranges settled fits _ (Nat.le_refl _)).trans
      (settled.arranges _ (length_turn fits (Nat.le_refl _)).le)
  fixes p above := by
    rw [Perm.mul_apply, settled.fixes p (by omega),
      turned_fixes settled.fixes (Nat.le_refl _) above]
  odd parity := left_odd (by omega) settled
  even parity := by
    obtain rfl := settled.swap_of_even (by omega)
    rw [left_even (by omega)]
    exact cycle_even k

theorem exists_settled (k : Nat) : ∃ σ, Settled (k + 1) σ := by
  induction k with
  | zero =>
    exact ⟨1, fun order _ => .refl order, fun _ _ => rfl, fun _ => Equiv.swap_self 0 |>.symm,
      fun parity => by contradiction⟩
  | succ k ih =>
    obtain ⟨σ, settled⟩ := ih
    exact ⟨_, settled.next⟩

/-- No two turns start with the same entry in the last place. -/
theorem turned_last (settled : Settled (k + 1) σ) (first : i ≤ k + 1) (second : j ≤ k + 1)
    (same : turned k σ i (k + 1) = turned k σ j (k + 1)) : i = j := by
  rcases Nat.mod_two_eq_zero_or_one k with parity | parity
  · obtain rfl := settled.swap_of_even parity
    exact last_even parity first second same
  · exact last_odd parity settled first second same

end PolicyVault.Order
