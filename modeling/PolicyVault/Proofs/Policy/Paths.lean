import Mathlib.Tactic.ByContra
import PolicyVault.Policy.Nfa

/-!
# Paths
-/

namespace PolicyVault.Policy.Nfa

theorem edge_lt {m : Nfa} {s t : Nat} {l : Label} (edge : m.Edge s l t) : s < m.edges.size := by
  by_contra outside
  simp [Edge, outgoing, Array.getD_eq_getD_getElem?, outside] at edge

theorem Path.trans {m : Nfa} {s t u : Nat} {v w : List UInt8} (first : m.Path s v t)
    (second : m.Path t w u) : m.Path s (v ++ w) u := by
  induction first with
  | refl => exact second
  | empty edge _ ih => exact .empty edge (ih second)
  | symbol edge _ ih => exact .symbol edge (ih second)

theorem Path.of_empty {m : Nfa} {s t : Nat} (edge : m.Edge s .empty t) : m.Path s [] t :=
  .empty edge .refl

theorem Path.trans_empty {m : Nfa} {s t u : Nat} {w : List UInt8} (path : m.Path s w t)
    (edge : m.Edge t .empty u) : m.Path s w u := by
  have longer := path.trans (.of_empty edge)
  rwa [List.append_nil] at longer

def EdgesInside (m : Nfa) : Prop :=
  ∀ source label target, m.Edge source label target → target < m.edges.size

theorem WellFormed.edges {m : Nfa} (formed : m.WellFormed) : m.EdgesInside := formed.2.2

theorem Path.target_lt {m : Nfa} (edges : m.EdgesInside) {s t : Nat} {w : List UInt8}
    (path : m.Path s w t) (bound : s < m.edges.size) : t < m.edges.size := by
  induction path with
  | refl => exact bound
  | empty edge _ ih => exact ih (edges _ _ _ edge)
  | symbol edge _ ih => exact ih (edges _ _ _ edge)

/-- What empty edges keep, paths that read nothing keep. -/
theorem path_closed {m : Nfa} {reached : Nat → Prop}
    (closed : ∀ s t, reached s → m.Edge s .empty t → reached t) {s t : Nat}
    (path : m.Path s [] t) (start : reached s) : reached t := by
  generalize form : ([] : List UInt8) = w at path
  induction path with
  | refl => exact start
  | empty edge _ ih => exact ih (closed _ _ start edge) form
  | symbol => contradiction

/-! ## Words in parts -/

theorem Path.split {m : Nfa} {s u : Nat} {v w : List UInt8} (path : m.Path s (v ++ w) u) :
    ∃ t, m.Path s v t ∧ m.Path t w u := by
  generalize form : v ++ w = whole at path
  induction path generalizing v with
  | refl =>
    obtain ⟨rfl, rfl⟩ := List.append_eq_nil_iff.mp form
    exact ⟨_, .refl, .refl⟩
  | empty edge _ ih =>
    obtain ⟨t, first, second⟩ := ih form
    exact ⟨t, .empty edge first, second⟩
  | symbol edge rest ih =>
    cases v with
    | nil =>
      obtain rfl : w = _ := form
      exact ⟨_, .refl, .symbol edge rest⟩
    | cons b v =>
      simp only [List.cons_append, List.cons.injEq] at form
      obtain ⟨t, first, second⟩ := ih form.2
      exact ⟨t, form.1 ▸ .symbol edge first, second⟩

theorem Path.one {m : Nfa} {s t : Nat} {b : UInt8} (path : m.Path s [b] t) :
    ∃ p q, m.Path s [] p ∧ m.Edge p (.symbol b) q ∧ m.Path q [] t := by
  generalize form : [b] = w at path
  induction path with
  | refl => contradiction
  | empty edge _ ih =>
    obtain ⟨p, q, first, middle, last⟩ := ih form
    exact ⟨p, q, .empty edge first, middle, last⟩
  | symbol edge rest _ =>
    obtain ⟨rfl, rfl⟩ := List.cons.inj form
    exact ⟨_, _, .refl, edge, rest⟩

theorem path_snoc {m : Nfa} {s t : Nat} {w : List UInt8} {b : UInt8} :
    m.Path s (w ++ [b]) t ↔
      ∃ p, m.Path s w p ∧ ∃ q, m.Edge p (.symbol b) q ∧ m.Path q [] t := by
  constructor
  · intro path
    obtain ⟨u, first, last⟩ := path.split
    obtain ⟨p, q, before, edge, after⟩ := last.one
    refine ⟨p, ?_, q, edge, after⟩
    simpa using first.trans before
  · rintro ⟨p, first, q, edge, last⟩
    exact first.trans (.symbol edge last)

end PolicyVault.Policy.Nfa
