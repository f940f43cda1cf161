import Mathlib.Data.List.Sort
import Mathlib.Logic.Relation
import PolicyVault.Proofs.Policy.Paths

/-!
# States reached for free

`mem_closure`: the closure of some states holds exactly the states that paths reading nothing
reach from them. `closure_ascending`: it lists them in ascending order. So it depends on nothing
but what is reached, in whatever order and however often the states are given.

Main statement: `closure_exact`.
-/

namespace PolicyVault.Policy.Nfa

/-! ## Marks -/

def Marks.Marked (marks : Marks) (s : Nat) : Prop :=
  marks[s]? = some true

@[simp] theorem Marks.size_visit (found : Marks × List Nat) (s : Nat) :
    (visit found s).1.size = found.1.size := by
  unfold visit
  split
  · rw [Array.size_set]
  · rfl

theorem Marks.marked_visit (found : Marks × List Nat) (s t : Nat) :
    (visit found s).1.Marked t ↔ found.1.Marked t ∨ (t = s ∧ s < found.1.size) := by
  unfold visit Marked
  split
  · rename_i h
    obtain ⟨bound, value⟩ := Array.getElem?_eq_some_iff.mp h
    rw [Array.getElem?_set]
    grind
  · rename_i other
    have old : s < found.1.size → found.1[s]? = some true := by
      intro bound
      cases value : found.1[s] <;> simp_all
    grind

theorem Marks.mem_visit (found : Marks × List Nat) (s t : Nat) :
    t ∈ (visit found s).2 ↔ t ∈ found.2 ∨ (t = s ∧ found.1[s]? = some false) := by
  unfold visit
  split <;> grind

@[simp] theorem Marks.size_visitAll (states : List Nat) (found : Marks × List Nat) :
    (states.foldl visit found).1.size = found.1.size := by
  induction states generalizing found with
  | nil => rfl
  | cons s states ih => rw [List.foldl_cons, ih, size_visit]

theorem Marks.marked_visitAll (states : List Nat) (found : Marks × List Nat) (t : Nat) :
    (states.foldl visit found).1.Marked t ↔
      found.1.Marked t ∨ (t ∈ states ∧ t < found.1.size) := by
  induction states generalizing found with
  | nil => simp
  | cons s states ih =>
    rw [List.foldl_cons, ih, marked_visit, size_visit, List.mem_cons]
    grind

theorem Marks.mem_visitAll (states : List Nat) (found : Marks × List Nat) (t : Nat) :
    t ∈ (states.foldl visit found).2 ↔
      t ∈ found.2 ∨ (t ∈ states ∧ found.1[t]? = some false) := by
  induction states generalizing found with
  | nil => simp
  | cons s states ih =>
    have kept : t ≠ s → (visit found s).1[t]? = found.1[t]? := by
      unfold visit
      split <;> grind
    have closed : (visit found s).1[s]? ≠ some false := by
      unfold visit
      split <;> grind
    rw [List.foldl_cons, ih, mem_visit, List.mem_cons]
    by_cases same : t = s
    · subst same
      simp [closed]
    · simp [same, kept same]

theorem Marks.mem_toStates (marks : Marks) (n : Nat) (above : List Nat) (t : Nat) :
    t ∈ marks.toStates n above ↔ t ∈ above ∨ (t < n ∧ marks.Marked t) := by
  induction n generalizing above with
  | zero => simp [toStates]
  | succ n ih =>
    have value : marks.getD n false = true ↔ marks.Marked n := by
      rw [Marked, Array.getD_eq_getD_getElem?]
      cases marks[n]? <;> simp
    rw [toStates, ih]
    split <;> grind

theorem Marks.ascending_toStates (marks : Marks) (n : Nat) (above : List Nat)
    (ascending : above.Pairwise (· < ·)) (high : ∀ s ∈ above, n ≤ s) :
    (marks.toStates n above).Pairwise (· < ·) := by
  induction n generalizing above with
  | zero => exact ascending
  | succ n ih =>
    have higher : ∀ s ∈ above, n < s := high
    rw [toStates]
    split
    · exact ih _ (List.pairwise_cons.mpr ⟨higher, ascending⟩)
        (List.forall_mem_cons.mpr ⟨Nat.le_refl n, fun s member => Nat.le_of_lt (higher s member)⟩)
    · exact ih _ ascending fun s member => Nat.le_of_lt (higher s member)

/-! ## Layers -/

theorem mem_emptyTargets {m : Nfa} {s t : Nat} : t ∈ m.emptyTargets s ↔ m.Edge s .empty t := by
  unfold emptyTargets Edge
  rw [List.mem_filterMap]
  constructor
  · rintro ⟨⟨label, target⟩, member, value⟩
    cases label <;> simp_all
  · exact fun member => ⟨(.empty, t), member, rfl⟩

theorem mem_layerTargets {m : Nfa} {layer : List Nat} {t : Nat} :
    t ∈ layer.flatMap m.emptyTargets ↔ ∃ s ∈ layer, m.Edge s .empty t := by
  simp only [List.mem_flatMap, mem_emptyTargets]

/-- Between two layers: all of the layer is marked, and nothing leads out of the other marked
states but to marked ones. -/
structure Spreading (m : Nfa) (marks : Marks) (layer : List Nat) : Prop where
  size : marks.size = m.edges.size
  marked : ∀ s ∈ layer, marks.Marked s
  closed : ∀ s t, marks.Marked s → s ∉ layer → m.Edge s .empty t → marks.Marked t

theorem marked_nextLayer {m : Nfa} (edges : m.EdgesInside) {marks : Marks} {layer : List Nat}
    (spreading : Spreading m marks layer) (t : Nat) :
    (m.nextLayer marks layer).1.Marked t ↔
      marks.Marked t ∨ ∃ s ∈ layer, m.Edge s .empty t := by
  unfold nextLayer
  rw [Marks.marked_visitAll, mem_layerTargets, spreading.size]
  have inside : (∃ s ∈ layer, m.Edge s .empty t) → t < m.edges.size :=
    fun ⟨_, _, edge⟩ => edges _ _ _ edge
  rw [and_iff_left_of_imp inside]

theorem mem_nextLayer {m : Nfa} (edges : m.EdgesInside) {marks : Marks} {layer : List Nat}
    (spreading : Spreading m marks layer) (t : Nat) :
    t ∈ (m.nextLayer marks layer).2 ↔ (∃ s ∈ layer, m.Edge s .empty t) ∧ ¬ marks.Marked t := by
  unfold nextLayer
  rw [Marks.mem_visitAll, mem_layerTargets]
  simp only [List.not_mem_nil, false_or, and_congr_right_iff]
  rintro ⟨s, _, edge⟩
  have inside : t < marks.size := spreading.size ▸ edges _ _ _ edge
  unfold Marks.Marked
  cases value : marks[t] <;> simp [inside, value]

theorem Spreading.next {m : Nfa} (edges : m.EdgesInside) {marks : Marks} {layer : List Nat}
    (spreading : Spreading m marks layer) :
    Spreading m (m.nextLayer marks layer).1 (m.nextLayer marks layer).2 where
  size := by
    unfold nextLayer
    rw [Marks.size_visitAll]
    exact spreading.size
  marked s member :=
    (marked_nextLayer edges spreading s).mpr
      (.inr ((mem_nextLayer edges spreading s).mp member).1)
  closed s t marked fresh edge := by
    have old : marks.Marked s := by
      rcases (marked_nextLayer edges spreading s).mp marked with old | reached
      · exact old
      · by_contra new
        exact fresh ((mem_nextLayer edges spreading s).mpr ⟨reached, new⟩)
    refine (marked_nextLayer edges spreading t).mpr ?_
    by_cases member : s ∈ layer
    · exact .inr ⟨s, member, edge⟩
    · exact .inl (spreading.closed s t old member edge)

/-- Spreading marks exactly what empty edges reach from the states marked so far. -/
theorem marked_spread {m : Nfa} (edges : m.EdgesInside) (marks : Marks) (layer : List Nat)
    (spreading : Spreading m marks layer) (t : Nat) :
    (m.spread marks layer).Marked t ↔ ∃ s, marks.Marked s ∧ m.Path s [] t := by
  induction marks, layer using spread.induct m with
  | case1 marks layer next done =>
    -- The next layer is empty, so the marked states are closed under empty edges.
    have nothing : ∀ t, (∃ s ∈ layer, m.Edge s .empty t) → marks.Marked t := by
      intro t reached
      by_contra new
      have kept := (mem_nextLayer edges spreading t).mpr ⟨reached, new⟩
      simp only [next, List.isEmpty_iff] at done
      rw [done] at kept
      contradiction
    have closed : ∀ s t, marks.Marked s → m.Edge s .empty t → marks.Marked t := by
      intro s t marked edge
      by_cases member : s ∈ layer
      · exact nothing t ⟨s, member, edge⟩
      · exact spreading.closed s t marked member edge
    unfold spread
    simp only [next] at done
    rw [if_pos done, marked_nextLayer edges spreading, or_iff_left_of_imp (nothing t)]
    exact ⟨fun marked => ⟨t, marked, .refl⟩,
      fun ⟨_, marked, path⟩ => path_closed closed path marked⟩
  | case2 marks layer next more ih =>
    unfold spread
    simp only [next] at more
    rw [if_neg more, ih (spreading.next edges)]
    constructor
    · rintro ⟨s, marked, path⟩
      rcases (marked_nextLayer edges spreading s).mp marked with old | ⟨source, member, edge⟩
      · exact ⟨s, old, path⟩
      · exact ⟨source, spreading.marked source member, .empty edge path⟩
    · rintro ⟨s, marked, path⟩
      exact ⟨s, (marked_nextLayer edges spreading s).mpr (.inl marked), path⟩

/-! ## The closure -/

theorem mem_closure {m : Nfa} (edges : m.EdgesInside) {states : List Nat} {t : Nat} :
    t ∈ m.closure states ↔ ∃ s ∈ states, s < m.edges.size ∧ m.Path s [] t := by
  have unmarked : ∀ s, ¬ Marks.Marked (Array.replicate m.edges.size false) s := by
    intro s
    simp [Marks.Marked, Array.getElem?_replicate]
  let first := states.foldl Marks.visit (Array.replicate m.edges.size false, [])
  have marked : ∀ s, first.1.Marked s ↔ s ∈ states ∧ s < m.edges.size := by
    intro s
    simp only [first]
    rw [Marks.marked_visitAll, or_iff_right (unmarked s), Array.size_replicate]
  have kept : ∀ s, s ∈ first.2 ↔ s ∈ states ∧ s < m.edges.size := by
    intro s
    simp only [first]
    rw [Marks.mem_visitAll]
    simp [Array.getElem?_replicate]
  have size : first.1.size = m.edges.size := by
    simp only [first]
    rw [Marks.size_visitAll, Array.size_replicate]
  have spreading : Spreading m first.1 first.2 :=
    ⟨size, fun s member => (marked s).mpr ((kept s).mp member),
      fun s _ old fresh => absurd ((kept s).mpr ((marked s).mp old)) fresh⟩
  have within : (m.spread first.1 first.2).Marked t → t < (m.spread first.1 first.2).size := by
    intro value
    exact (Array.getElem?_eq_some_iff.mp value).1
  have expand : m.closure states =
      (m.spread first.1 first.2).toStates (m.spread first.1 first.2).size [] := rfl
  rw [expand, Marks.mem_toStates, and_iff_right_of_imp within,
    marked_spread edges first.1 first.2 spreading]
  simp [marked, and_assoc]

theorem closure_ascending (m : Nfa) (states : List Nat) :
    (m.closure states).Pairwise (· < ·) :=
  Marks.ascending_toStates _ _ [] .nil (by simp)

/-! ## Reachability -/

/-- Zero or more empty edges lead from the one state to the other. -/
def Free (m : Nfa) : Nat → Nat → Prop :=
  Relation.ReflTransGen fun s t => m.Edge s .empty t

theorem free_iff_path {m : Nfa} {s t : Nat} : m.Free s t ↔ m.Path s [] t := by
  constructor
  · intro free
    induction free with
    | refl => exact .refl
    | tail _ edge ih => exact ih.trans_empty edge
  · intro path
    exact path_closed (fun _ _ free edge => free.tail edge) path .refl

/-- The states that empty edges lead to from one of `states`. -/
def FreeFrom (m : Nfa) (states : List Nat) (t : Nat) : Prop :=
  ∃ s ∈ states, m.Free s t

theorem mem_closure_iff_freeFrom {m : Nfa} (edges : m.EdgesInside) {states : List Nat}
    (valid : ∀ s ∈ states, s < m.edges.size) {t : Nat} :
    t ∈ m.closure states ↔ m.FreeFrom states t := by
  rw [mem_closure edges]
  constructor
  · rintro ⟨s, member, -, path⟩
    exact ⟨s, member, free_iff_path.mpr path⟩
  · rintro ⟨s, member, free⟩
    exact ⟨s, member, valid s member, free_iff_path.mp free⟩

theorem closure_valid {m : Nfa} (edges : m.EdgesInside) {states : List Nat} {t : Nat}
    (member : t ∈ m.closure states) : t < m.edges.size := by
  obtain ⟨s, -, bound, path⟩ := (mem_closure edges).mp member
  exact path.target_lt edges bound

theorem closure_eq_iff {m : Nfa} (edges : m.EdgesInside) {states others : List Nat}
    (valid : ∀ s ∈ states, s < m.edges.size) (validOthers : ∀ s ∈ others, s < m.edges.size) :
    m.closure states = m.closure others ↔ ∀ t, m.FreeFrom states t ↔ m.FreeFrom others t := by
  constructor
  · intro same t
    rw [← mem_closure_iff_freeFrom edges valid, same, mem_closure_iff_freeFrom edges validOthers]
  · intro same
    -- An ascending list is determined by its members.
    refine (closure_ascending m states).eq_of_mem_iff (closure_ascending m others) fun t => ?_
    rw [mem_closure_iff_freeFrom edges valid, mem_closure_iff_freeFrom edges validOthers, same]

theorem freeFrom_closure {m : Nfa} (edges : m.EdgesInside) {states : List Nat}
    (valid : ∀ s ∈ states, s < m.edges.size) (t : Nat) :
    m.FreeFrom (m.closure states) t ↔ m.FreeFrom states t := by
  constructor
  · rintro ⟨s, member, onwards⟩
    obtain ⟨first, given, free⟩ := (mem_closure_iff_freeFrom edges valid).mp member
    exact ⟨first, given, free.trans onwards⟩
  · rintro ⟨s, given, free⟩
    exact ⟨s, (mem_closure_iff_freeFrom edges valid).mpr ⟨s, given, .refl⟩, free⟩

/-- The closure of states of an automaton whose edges stay within its states is the strictly
ascending list of what empty edges reach from them, around cycles and in any order. Two lists of
states have one closure exactly if they reach the same states, and the closure of a closure is the
closure itself. -/
theorem closure_exact {m : Nfa} (edges : m.EdgesInside) {states : List Nat}
    (valid : ∀ s ∈ states, s < m.edges.size) :
    (m.closure states).Pairwise (· < ·) ∧
      (∀ t, t ∈ m.closure states ↔ m.FreeFrom states t) ∧
      (∀ others, (∀ s ∈ others, s < m.edges.size) →
        (m.closure states = m.closure others ↔ ∀ t, m.FreeFrom states t ↔ m.FreeFrom others t)) ∧
      m.closure (m.closure states) = m.closure states := by
  refine ⟨closure_ascending m states, fun _ => mem_closure_iff_freeFrom edges valid,
    fun _ => closure_eq_iff edges valid, ?_⟩
  exact (closure_eq_iff edges (fun _ => closure_valid edges) valid).mpr
    (freeFrom_closure edges valid)

/-- Empty edges in a cycle and from a state to itself. -/
def tangled : Nfa where
  edges := #[[(.empty, 2)], [(.empty, 1)], [(.empty, 0), (.symbol 0x52, 3)], []]
  start := 0
  accept := 3

theorem closure_exact_tangled :
    tangled.EdgesInside ∧ (∀ s ∈ [2, 1, 2], s < tangled.edges.size) ∧
      tangled.closure [2, 1, 2] = [0, 1, 2] ∧
      tangled.closure [0, 1, 2] = [0, 1, 2] ∧
      (tangled.closure [2, 1, 2]).Pairwise (· < ·) ∧ ¬ tangled.FreeFrom [2, 1, 2] 3 := by
  have inside : ∀ s < tangled.edges.size, ∀ edge ∈ tangled.outgoing s, edge.2 < 4 := by decide
  have edges : tangled.EdgesInside := fun s label t edge => inside s (edge_lt edge) (label, t) edge
  have valid : ∀ s ∈ [2, 1, 2], s < tangled.edges.size := by decide
  have value : tangled.closure [2, 1, 2] = [0, 1, 2] := by decide +kernel
  obtain ⟨ascending, members, -, again⟩ := closure_exact edges valid
  refine ⟨edges, valid, value, ?_, ascending, ?_⟩
  · rw [value] at again
    exact again
  · rw [← members, value]
    decide

end PolicyVault.Policy.Nfa
