import Mathlib.Data.List.Forall2
import PolicyVault.Policy.Dfa
import PolicyVault.Proofs.Policy.Closure

/-!
# Sets of states

`ofNfa_subsets`: the rows of the deterministic automaton are the sets found, in the order in which
they are found, and each row leads to the numbers of the sets that its symbols lead to.
`Subsets.target`: along a row, a set that holds what a word reaches becomes one that holds what the
word with one symbol more reaches.
-/

namespace PolicyVault.Policy

/-! ## Moves -/

namespace Nfa

theorem mem_symbolEdges {m : Nfa} {states : List Nat} {b : UInt8} {t : Nat} :
    (b, t) ∈ m.symbolEdges states ↔ ∃ s ∈ states, m.Edge s (.symbol b) t := by
  unfold symbolEdges Edge
  simp only [List.mem_flatMap, List.mem_filterMap]
  constructor
  · rintro ⟨s, member, ⟨label, target⟩, edge, value⟩
    cases label with
    | empty => contradiction
    | symbol a =>
      simp only [Option.some.injEq, Prod.mk.injEq] at value
      obtain ⟨rfl, rfl⟩ := value
      exact ⟨s, member, edge⟩
  · rintro ⟨s, member, edge⟩
    exact ⟨s, member, (.symbol b, t), edge, rfl⟩

def targets (m : Nfa) (states : List Nat) (b : UInt8) : List Nat :=
  ((m.symbolEdges states).filter fun edge => edge.1 == b).map (·.2)

theorem mem_targets {m : Nfa} {states : List Nat} {b : UInt8} {t : Nat} :
    t ∈ m.targets states b ↔ ∃ s ∈ states, m.Edge s (.symbol b) t := by
  rw [← mem_symbolEdges, targets]
  simp only [List.mem_map, List.mem_filter, beq_iff_eq, Prod.exists]
  constructor
  · rintro ⟨_, _, ⟨member, rfl⟩, rfl⟩
    exact member
  · exact fun member => ⟨b, t, ⟨member, rfl⟩, rfl⟩

theorem mem_allBytes (b : UInt8) : b ∈ allBytes := by
  unfold allBytes
  rw [List.mem_map]
  exact ⟨b.toNat, List.mem_range.mpr b.toNat_lt, UInt8.ofNat_toNat⟩

theorem allBytes_ascending : allBytes.Pairwise (· < ·) := by
  unfold allBytes
  rw [List.pairwise_map]
  apply List.pairwise_lt_range.imp_of_mem
  intro i j inI inJ before
  rw [UInt8.lt_iff_toNat_lt, UInt8.toNat_ofNat_of_lt' (List.mem_range.mp inI),
    UInt8.toNat_ofNat_of_lt' (List.mem_range.mp inJ)]
  exact before

theorem alphabet_ascending (m : Nfa) : m.alphabet.Pairwise (· < ·) := by
  unfold alphabet
  exact allBytes_ascending.filter _

theorem mem_alphabet {m : Nfa} {b : UInt8} :
    b ∈ m.alphabet ↔ ∃ s t, m.Edge s (.symbol b) t := by
  unfold alphabet
  simp only [List.mem_filter, mem_allBytes, true_and, List.any_eq_true, Prod.exists, beq_iff_eq]
  constructor
  · rintro ⟨_, t, member, rfl⟩
    obtain ⟨s, _, edge⟩ := mem_symbolEdges.mp member
    exact ⟨s, t, edge⟩
  · rintro ⟨s, t, edge⟩
    exact ⟨b, t, mem_symbolEdges.mpr ⟨s, List.mem_range.mpr (edge_lt edge), edge⟩, rfl⟩

/-- The set that a symbol leads to, if it leads anywhere. -/
def reached (m : Nfa) (states : List Nat) (b : UInt8) : Option (List Nat) :=
  match m.targets states b with
  | [] => none
  | targets => some (m.closure targets)

theorem moves_eq (m : Nfa) (symbols : List UInt8) (states : List Nat) :
    m.moves symbols states = symbols.filterMap fun b => (m.reached states b).map (b, ·) := by
  simp only [moves, reached, targets]
  congr 1
  funext b
  generalize ((m.symbolEdges states).filter fun edge => edge.1 == b).map (·.2) = targets
  cases targets <;> rfl

theorem moves_keys (m : Nfa) (symbols : List UInt8) (states : List Nat) :
    ((m.moves symbols states).map (·.1)).Sublist symbols := by
  rw [moves_eq]
  induction symbols with
  | nil => exact .slnil
  | cons b symbols ih =>
    rw [List.filterMap_cons]
    cases m.reached states b with
    | none => exact ih.cons b
    | some => exact ih.cons_cons b

theorem lookup_keyed {α : Type} (f : UInt8 → Option α) (b : UInt8) (symbols : List UInt8) :
    (symbols.filterMap fun a => (f a).map (a, ·)).lookup b = if b ∈ symbols then f b else none := by
  induction symbols with
  | nil => rfl
  | cons a symbols ih =>
    rw [List.filterMap_cons]
    by_cases same : b = a
    · subst same
      cases value : f b with
      | none => simpa [value] using ih
      | some => simp
    · have other : (b == a) = false := by simpa using same
      cases value : f a with
      | none => simpa [same] using ih
      | some => simpa [List.lookup_cons, other, same] using ih

theorem lookup_moves {m : Nfa} {symbols : List UInt8} {states : List Nat} {b : UInt8} :
    (m.moves symbols states).lookup b = if b ∈ symbols then m.reached states b else none := by
  rw [moves_eq, lookup_keyed]

theorem lookup_moves_alphabet {m : Nfa} {states : List Nat} {b : UInt8} :
    (m.moves m.alphabet states).lookup b = m.reached states b := by
  rw [lookup_moves]
  split
  · rfl
  · rename_i unread
    unfold reached
    split
    · rfl
    · rename_i some
      obtain ⟨t, member⟩ := List.exists_mem_of_ne_nil _ some
      obtain ⟨s, _, edge⟩ := mem_targets.mp member
      exact absurd (mem_alphabet.mpr ⟨s, t, edge⟩) unread

theorem mem_reached {m : Nfa} (edges : m.EdgesInside) {states next : List Nat} {b : UInt8}
    (found : m.reached states b = some next) {t : Nat} :
    t ∈ next ↔ ∃ s ∈ states, ∃ q, m.Edge s (.symbol b) q ∧ m.Path q [] t := by
  unfold reached at found
  split at found
  · contradiction
  · obtain rfl := Option.some.inj found
    rw [mem_closure edges]
    constructor
    · rintro ⟨q, member, _, path⟩
      obtain ⟨s, source, edge⟩ := mem_targets.mp member
      exact ⟨s, source, q, edge, path⟩
    · rintro ⟨s, source, q, edge, path⟩
      exact ⟨q, mem_targets.mpr ⟨s, source, edge⟩, edges _ _ _ edge, path⟩

theorem not_edge_of_reached_none {m : Nfa} {states : List Nat} {b : UInt8}
    (found : m.reached states b = none) {s t : Nat} (member : s ∈ states) :
    ¬ m.Edge s (.symbol b) t := by
  intro edge
  have target : t ∈ m.targets states b := mem_targets.mpr ⟨s, member, edge⟩
  unfold reached at found
  split at found
  · simp_all
  · contradiction

theorem reached_nonempty {m : Nfa} (edges : m.EdgesInside) {states next : List Nat} {b : UInt8}
    (found : m.reached states b = some next) : ∃ t, t ∈ next := by
  have whole := found
  unfold reached at found
  split at found
  · contradiction
  · rename_i some
    obtain ⟨t, member⟩ := List.exists_mem_of_ne_nil _ some
    obtain ⟨s, source, edge⟩ := mem_targets.mp member
    exact ⟨t, (mem_reached edges whole).mpr ⟨s, source, t, edge, .refl⟩⟩

/-- The lists of states that symbol moves lead to from the closure of the start. -/
inductive Obtained (m : Nfa) : List Nat → Prop
  | first : m.Obtained (m.closure [m.start])
  | next {states next : List Nat} {b : UInt8} (obtained : m.Obtained states)
      (found : m.reached states b = some next) : m.Obtained next

theorem Obtained.of_moves {m : Nfa} {symbols : List UInt8} {states next : List Nat} {b : UInt8}
    (obtained : m.Obtained states) (moved : (b, next) ∈ m.moves symbols states) :
    m.Obtained next := by
  rw [moves_eq] at moved
  obtain ⟨a, -, leads⟩ := List.mem_filterMap.mp moved
  obtain ⟨_, found, same⟩ := Option.map_eq_some_iff.mp leads
  obtain ⟨rfl, rfl⟩ := Prod.mk.inj same
  exact obtained.next found

/-! ## Sets that hold what a word reaches -/

/-- The set holds the states that the word leads to from the start. -/
def Holding (m : Nfa) (states : List Nat) (w : List UInt8) : Prop :=
  ∀ t, t ∈ states ↔ m.Path m.start w t

theorem holding_first {m : Nfa} (edges : m.EdgesInside) (start : m.start < m.edges.size) :
    m.Holding (m.closure [m.start]) [] := by
  intro t
  rw [mem_closure edges]
  simp [start]

theorem Holding.next {m : Nfa} (edges : m.EdgesInside) {states next : List Nat}
    {w : List UInt8} {b : UInt8} (holding : m.Holding states w)
    (found : m.reached states b = some next) : m.Holding next (w ++ [b]) := by
  intro t
  rw [mem_reached edges found, path_snoc]
  simp only [holding _]

theorem Holding.stuck {m : Nfa} {states : List Nat} {w : List UInt8} {b : UInt8}
    (holding : m.Holding states w) (found : m.reached states b = none) (t : Nat) :
    ¬ m.Path m.start (w ++ [b]) t := by
  rw [path_snoc]
  rintro ⟨p, first, q, edge, _⟩
  exact not_edge_of_reached_none found ((holding p).mpr first) edge

end Nfa

/-! ## Numbers of sets -/

namespace Dfa

/-- The set has the number: the sets are numbered from the initial state on. -/
def Numbered (sets : Array (List Nat)) (set : List Nat) (number : Nat) : Prop :=
  ∃ i, sets[i]? = some set ∧ number = initial + i

/-- The numbers handed out are the places of the sets found. -/
def Discovery.Consistent (found : Discovery) : Prop :=
  ∀ set number, found.numbers[set]? = some number ↔ Numbered found.sets set number

theorem getElem?_of_isPrefix {before after : Array (List Nat)} {set : List Nat} {i : Nat}
    (more : before.toList <+: after.toList) (place : before[i]? = some set) :
    after[i]? = some set := by
  obtain ⟨bound, value⟩ := Array.getElem?_eq_some_iff.mp place
  rw [← Array.getElem?_toList, List.prefix_iff_getElem?.mp more i bound]
  simpa using value

theorem Numbered.mono {before after : Array (List Nat)} {set : List Nat} {number : Nat}
    (numbered : Numbered before set number) (more : before.toList <+: after.toList) :
    Numbered after set number := by
  obtain ⟨i, place, rfl⟩ := numbered
  exact ⟨i, getElem?_of_isPrefix more place, rfl⟩

theorem numbered_push {sets : Array (List Nat)} {set other : List Nat} {number : Nat} :
    Numbered (sets.push set) other number ↔
      Numbered sets other number ∨ (other = set ∧ number = initial + sets.size) := by
  unfold Numbered
  constructor
  · rintro ⟨i, place, rfl⟩
    rw [Array.getElem?_push] at place
    split at place
    · rename_i last
      exact .inr ⟨(Option.some.inj place).symm, by rw [last]⟩
    · exact .inl ⟨i, place, rfl⟩
  · rintro (⟨i, place, rfl⟩ | ⟨rfl, rfl⟩)
    · obtain ⟨bound, _⟩ := Array.getElem?_eq_some_iff.mp place
      refine ⟨i, ?_, rfl⟩
      rw [Array.getElem?_push, if_neg (Nat.ne_of_lt bound)]
      exact place
    · exact ⟨sets.size, by simp, rfl⟩

theorem Discovery.Consistent.push {found : Discovery} {set : List Nat}
    (consistent : found.Consistent) (new : found.numbers[set]? = none) :
    (⟨found.sets.push set, found.numbers.insert set (initial + found.sets.size)⟩ :
      Discovery).Consistent := by
  intro other number
  rw [Std.TreeMap.getElem?_insert, numbered_push, ← consistent other number]
  by_cases same : set = other
  · subst same
    simp [new, eq_comm]
  · rw [if_neg (by simpa using same)]
    simp [show other ≠ set from fun h => same h.symm]

theorem Discovery.number_spec {found after : Discovery} {limit number : Nat} {set : List Nat}
    (consistent : found.Consistent) (bounded : found.sets.size ≤ limit)
    (numbered : found.number limit set = .ok (number, after)) :
    after.Consistent ∧ after.sets.size ≤ limit ∧ found.sets.toList <+: after.sets.toList ∧
      Numbered after.sets set number ∧ ∀ other ∈ after.sets, other ∈ found.sets ∨ other = set := by
  unfold Discovery.number at numbered
  split at numbered
  · rename_i old
    obtain ⟨rfl, rfl⟩ := Prod.mk.inj (Except.ok.inj numbered)
    exact ⟨consistent, bounded, List.prefix_rfl, (consistent set _).mp old, fun _ => .inl⟩
  · rename_i new
    split at numbered
    · contradiction
    · rename_i room
      obtain ⟨rfl, rfl⟩ := Prod.mk.inj (Except.ok.inj numbered)
      refine ⟨consistent.push new, ?_, ?_, numbered_push.mpr (.inr ⟨rfl, rfl⟩), ?_⟩
      · rw [Array.size_push]
        omega
      · rw [Array.toList_push]
        exact List.prefix_append _ _
      · intro other member
        exact Array.mem_push.mp member

/-- The targets of a row are the numbers of the sets that its symbols lead to. -/
def Leads (sets : Array (List Nat)) (moves : List (UInt8 × List Nat))
    (targets : List (UInt8 × Nat)) : Prop :=
  List.Forall₂ (fun move target => move.1 = target.1 ∧ Numbered sets move.2 target.2) moves targets

theorem Leads.mono {before after : Array (List Nat)} {moves : List (UInt8 × List Nat)}
    {targets : List (UInt8 × Nat)} (leads : Leads before moves targets)
    (more : before.toList <+: after.toList) : Leads after moves targets :=
  leads.imp fun _ _ edge => ⟨edge.1, edge.2.mono more⟩

theorem Leads.keys {sets : Array (List Nat)} {moves : List (UInt8 × List Nat)}
    {targets : List (UInt8 × Nat)} (leads : Leads sets moves targets) :
    targets.map (·.1) = moves.map (·.1) := by
  induction leads with
  | nil => rfl
  | cons edge _ ih => rw [List.map_cons, List.map_cons, ih, edge.1]

theorem Discovery.numberAll_spec {found after : Discovery} {limit : Nat}
    {moves : List (UInt8 × List Nat)} {targets : List (UInt8 × Nat)}
    (consistent : found.Consistent) (bounded : found.sets.size ≤ limit)
    (numbered : found.numberAll limit moves = .ok (targets, after)) :
    after.Consistent ∧ after.sets.size ≤ limit ∧ found.sets.toList <+: after.sets.toList ∧
      Leads after.sets moves targets ∧
      ∀ set ∈ after.sets, set ∈ found.sets ∨ ∃ b, (b, set) ∈ moves := by
  induction moves generalizing found targets with
  | nil =>
    obtain ⟨rfl, rfl⟩ := Prod.mk.inj (Except.ok.inj numbered)
    exact ⟨consistent, bounded, List.prefix_rfl, .nil, fun _ => .inl⟩
  | cons move moves ih =>
    obtain ⟨b, set⟩ := move
    unfold Discovery.numberAll at numbered
    split at numbered
    · contradiction
    · rename_i number middle first
      split at numbered
      · contradiction
      · rename_i rest last others
        obtain ⟨rfl, rfl⟩ := Prod.mk.inj (Except.ok.inj numbered)
        obtain ⟨consistent, bounded, more, place, one⟩ := number_spec consistent bounded first
        obtain ⟨consistent, bounded, most, leads, origins⟩ := ih consistent bounded others
        refine ⟨consistent, bounded, more.trans most, .cons ⟨rfl, place.mono most⟩ leads, ?_⟩
        intro other member
        rcases origins other member with old | ⟨a, moved⟩
        · rcases one other old with old | rfl
          · exact .inl old
          · exact .inr ⟨b, List.mem_cons_self ..⟩
        · exact .inr ⟨a, List.mem_cons_of_mem _ moved⟩

theorem Leads.lookup {sets : Array (List Nat)} {moves : List (UInt8 × List Nat)}
    {targets : List (UInt8 × Nat)} (leads : Leads sets moves targets) (b : UInt8) :
    match moves.lookup b with
    | none => targets.lookup b = none
    | some set => ∃ number, targets.lookup b = some number ∧ Numbered sets set number := by
  induction leads with
  | nil => rfl
  | @cons move target moves targets edge leads ih =>
    obtain ⟨a, set⟩ := move
    obtain ⟨_, number⟩ := target
    obtain ⟨rfl, place⟩ := edge
    by_cases same : b = a
    · subst same
      simpa using place
    · have other : (b == a) = false := by simpa using same
      simpa only [List.lookup_cons, other] using ih

/-! ## The rows -/

structure Subsets (m : Nfa) (sets : Array (List Nat)) (rows : Array Row) : Prop where
  first : sets[0]? = some (m.closure [m.start])
  row : ∀ i < rows.size, ∃ set targets, sets[i]? = some set ∧
    rows[i]? = some ⟨targets, set.contains m.accept⟩ ∧ Leads sets (m.moves m.alphabet set) targets

/-- Between two rows: what was found is consistent, and rows were made for some of it. -/
structure Exploration (m : Nfa) (limit : Nat) (found : Discovery) (rows : Array Row) : Prop where
  consistent : found.Consistent
  bounded : found.sets.size ≤ limit
  subsets : Subsets m found.sets rows
  obtained : ∀ set ∈ found.sets, m.Obtained set

theorem ofFirst_consistent (set : List Nat) : (Discovery.ofFirst set).Consistent := by
  have empty : (⟨#[], ∅⟩ : Discovery).Consistent := by
    intro set number
    simp [Numbered]
  exact empty.push (by simp)

theorem exploration_first (m : Nfa) {limit : Nat} (positive : 0 < limit) :
    Exploration m limit (.ofFirst (m.closure [m.start])) #[] where
  consistent := ofFirst_consistent _
  bounded := positive
  subsets := ⟨rfl, fun i bound => absurd bound (Nat.not_lt_zero i)⟩
  obtained := by
    intro set member
    obtain rfl := Array.mem_singleton.mp member
    exact .first

theorem Exploration.next {m : Nfa} {limit : Nat} {found after : Discovery} {rows : Array Row}
    {set : List Nat} {targets : List (UInt8 × Nat)} (exploration : Exploration m limit found rows)
    (place : found.sets[rows.size]? = some set)
    (numbered : found.numberAll limit (m.moves m.alphabet set) = .ok (targets, after)) :
    Exploration m limit after (rows.push ⟨targets, set.contains m.accept⟩) := by
  obtain ⟨consistent, bounded, more, leads, origins⟩ :=
    Discovery.numberAll_spec exploration.consistent exploration.bounded numbered
  obtain ⟨first, row⟩ := exploration.subsets
  refine ⟨consistent, bounded, ⟨getElem?_of_isPrefix more first, ?_⟩, ?_⟩
  · -- Sets found later leave the numbers in the earlier rows as they are.
    intro i bound
    rw [Array.size_push] at bound
    rcases Nat.lt_succ_iff_lt_or_eq.mp bound with old | rfl
    · obtain ⟨set, targets, place, located, leads⟩ := row i old
      refine ⟨set, targets, getElem?_of_isPrefix more place, ?_, leads.mono more⟩
      rw [Array.getElem?_push, if_neg (Nat.ne_of_lt old)]
      exact located
    · exact ⟨set, targets, getElem?_of_isPrefix more place, by simp, leads⟩
  · intro other member
    rcases origins other member with old | ⟨b, moved⟩
    · exact exploration.obtained other old
    · exact (exploration.obtained set (Array.mem_of_getElem? place)).of_moves moved

/-- An exploration that ends with rows has made one for each set. What each row keeps holds then. -/
theorem explore_induct {m : Nfa} {limit fuel : Nat} {motive : Discovery → Array Row → Prop}
    (next : ∀ {found after rows set targets}, Exploration m limit found rows →
      found.sets[rows.size]? = some set →
      found.numberAll limit (m.moves m.alphabet set) = .ok (targets, after) → motive found rows →
      motive after (rows.push ⟨targets, set.contains m.accept⟩))
    {found : Discovery} {rows result : Array Row} (exploration : Exploration m limit found rows)
    (first : motive found rows) (enough : limit ≤ rows.size + fuel)
    (explored : explore m m.alphabet limit fuel found rows = .ok result) :
    ∃ after, Exploration m limit after result ∧ motive after result ∧
      after.sets.size ≤ result.size := by
  induction fuel generalizing found rows with
  | zero =>
    -- Each step of fuel made a row, and there are no more sets than the limit.
    obtain rfl := Except.ok.inj explored
    exact ⟨found, exploration, first, Nat.le_trans exploration.bounded enough⟩
  | succ fuel ih =>
    unfold explore at explored
    split at explored
    · rename_i done
      obtain rfl := Except.ok.inj explored
      exact ⟨found, exploration, first, Array.getElem?_eq_none_iff.mp done⟩
    · rename_i set place
      split at explored
      · contradiction
      · rename_i targets after numbered
        have kept := next exploration place numbered first
        refine ih (exploration.next place numbered) kept ?_ explored
        rw [Array.size_push]
        omega

theorem ofNfa_induct {m : Nfa} {limit : Nat} {d : Dfa} {motive : Discovery → Array Row → Prop}
    (next : ∀ {found after rows set targets}, Exploration m limit found rows →
      found.sets[rows.size]? = some set →
      found.numberAll limit (m.moves m.alphabet set) = .ok (targets, after) → motive found rows →
      motive after (rows.push ⟨targets, set.contains m.accept⟩))
    (first : motive (.ofFirst (m.closure [m.start])) #[]) (positive : 0 < limit)
    (built : ofNfa m limit = .ok d) :
    ∃ found, Exploration m limit found d.rows ∧ motive found d.rows ∧
      found.sets.size ≤ d.rows.size := by
  unfold ofNfa at built
  split at built
  · contradiction
  · rename_i rows explored
    obtain rfl := Except.ok.inj built
    exact explore_induct next (exploration_first m positive) first (Nat.le_add_left ..) explored

theorem ofNfa_ok {m : Nfa} {limit : Nat} {d : Dfa} (positive : 0 < limit)
    (built : ofNfa m limit = .ok d) :
    ∃ found, Exploration m limit found d.rows ∧ found.sets.size ≤ d.rows.size := by
  obtain ⟨found, exploration, -, complete⟩ :=
    ofNfa_induct (motive := fun _ _ => True) (fun _ _ _ _ => trivial) trivial positive built
  exact ⟨found, exploration, complete⟩

theorem ofNfa_subsets {m : Nfa} {limit : Nat} {d : Dfa} (positive : 0 < limit)
    (built : ofNfa m limit = .ok d) :
    ∃ sets, Subsets m sets d.rows ∧ sets.size ≤ d.rows.size := by
  obtain ⟨found, exploration, complete⟩ := ofNfa_ok positive built
  exact ⟨found.sets, exploration.subsets, complete⟩

theorem mem_symbols {d : Dfa} {b : UInt8} :
    b ∈ d.symbols ↔ ∃ row ∈ d.rows, ∃ t, (b, t) ∈ row.targets := by
  unfold symbols
  simp only [List.mem_filter, Nfa.mem_allBytes, true_and, Array.any_eq_true', List.any_eq_true,
    beq_iff_eq, Prod.exists]
  constructor
  · rintro ⟨row, member, _, t, edge, rfl⟩
    exact ⟨row, member, t, edge⟩
  · rintro ⟨row, member, t, edge⟩
    exact ⟨row, member, b, t, edge, rfl⟩

theorem Subsets.target {m : Nfa} {sets : Array (List Nat)} {rows : Array Row}
    (subsets : Subsets m sets rows) (complete : sets.size ≤ rows.size) {i : Nat} {set : List Nat}
    (place : sets[i]? = some set) :
    ∃ row, rows[i]? = some row ∧ row.accepting = set.contains m.accept ∧ ∀ b,
      match m.reached set b with
      | none => row.targets.lookup b = none
      | some next => ∃ number, row.targets.lookup b = some number ∧ Numbered sets next number := by
  obtain ⟨bound, _⟩ := Array.getElem?_eq_some_iff.mp place
  obtain ⟨_, targets, same, row, leads⟩ := subsets.row i (by omega)
  obtain rfl := Option.some.inj (place.symm.trans same)
  refine ⟨_, row, rfl, fun b => ?_⟩
  rw [← Nfa.lookup_moves_alphabet]
  exact leads.lookup b

theorem Subsets.target_lt {m : Nfa} {sets : Array (List Nat)} {rows : Array Row}
    (subsets : Subsets m sets rows) (complete : sets.size ≤ rows.size) {row : Row}
    (member : row ∈ rows) (b : UInt8) : row.target b < initial + rows.size := by
  obtain ⟨i, bound, rfl⟩ := Array.mem_iff_getElem.mp member
  obtain ⟨set, targets, place, located, leads⟩ := subsets.row i bound
  rw [(Array.getElem?_eq_some_iff.mp located).2, Row.target]
  have leadsTo := leads.lookup b
  split at leadsTo
  · rw [leadsTo, initial]
    exact Nat.lt_add_right _ Nat.zero_lt_one
  · obtain ⟨number, lookup, i, numbered, rfl⟩ := leadsTo
    obtain ⟨inside, -⟩ := Array.getElem?_eq_some_iff.mp numbered
    rw [lookup]
    exact Nat.add_lt_add_left (Nat.lt_of_lt_of_le inside complete) initial

end Dfa

end PolicyVault.Policy
