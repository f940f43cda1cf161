import Mathlib.Data.List.Shortlex
import PolicyVault.Proofs.Policy.Determinization

/-!
# Numbers of states

The rows of an automaton are made in the order of their numbers, and the symbols of a row are
ascending. So the transitions are met in order of their sources and symbols, and each leads to a
state met before or to the next new one. The transition that introduces a state comes before all
others that lead there or beyond. Followed back to the initial state, these transitions spell the
first word that leads to the state, by length and then bytewise.

Main statement: `numbering_exact`.
-/

namespace PolicyVault.Policy

/-! ## The order of transitions -/

namespace Dfa

/-- A transition between numbers of states. -/
structure Transition where
  source : Nat
  symbol : UInt8
  target : Nat

def Transition.Before (x y : Transition) : Prop :=
  x.source < y.source ∨ (x.source = y.source ∧ x.symbol < y.symbol)

/-- Each transition leads to a state below the next new one, or introduces it. -/
inductive Discovers : (next : Nat) → List Transition → (last : Nat) → Prop
  | done {next} : Discovers next [] next
  | known {next last x rest} : x.target < next → Discovers next rest last →
      Discovers next (x :: rest) last
  | fresh {next last x rest} : x.source < next → x.target = next →
      Discovers (next + 1) rest last → Discovers next (x :: rest) last

theorem Discovers.append {next middle last : Nat} {front back : List Transition}
    (first : Discovers next front middle) (second : Discovers middle back last) :
    Discovers next (front ++ back) last := by
  induction first with
  | done => exact second
  | known below _ ih => exact .known below (ih second)
  | fresh source target _ ih => exact .fresh source target (ih second)

theorem Discovers.introduced {next last number : Nat} {transitions : List Transition}
    (discovers : Discovers next transitions last) (low : next ≤ number) (high : number < last) :
    ∃ front x back, transitions = front ++ x :: back ∧ x.target = number ∧ x.source < number ∧
      ∀ y ∈ front, y.target < number := by
  induction discovers with
  | done => omega
  | @known _ _ y _ below _ ih =>
    obtain ⟨front, x, back, rfl, target, source, earlier⟩ := ih low high
    refine ⟨y :: front, x, back, rfl, target, source, List.forall_mem_cons.mpr ⟨?_, earlier⟩⟩
    omega
  | @fresh _ _ y rest source target _ ih =>
    rcases Nat.eq_or_lt_of_le low with rfl | above
    · exact ⟨[], y, rest, rfl, target, source, by simp⟩
    · obtain ⟨front, x, back, rfl, target, source, earlier⟩ := ih above high
      refine ⟨y :: front, x, back, rfl, target, source, List.forall_mem_cons.mpr ⟨?_, earlier⟩⟩
      omega

def Row.transitions (row : Row) (source : Nat) : List Transition :=
  row.targets.map fun edge => ⟨source, edge.1, edge.2⟩

def transitions (rows : Array Row) : List Transition :=
  (rows.toList.zipIdx initial).flatMap fun entry => entry.1.transitions entry.2

theorem transitions_push (rows : Array Row) (row : Row) :
    transitions (rows.push row) = transitions rows ++ row.transitions (initial + rows.size) := by
  simp [transitions, List.zipIdx_append]

theorem mem_transitions {rows : Array Row} {x : Transition} :
    x ∈ transitions rows ↔ ∃ i row, rows[i]? = some row ∧ x.source = initial + i ∧
      (x.symbol, x.target) ∈ row.targets := by
  simp only [transitions, Row.transitions, List.mem_flatMap, List.mem_map, Prod.exists,
    List.mem_zipIdx_iff_le_and_getElem?_sub, Array.getElem?_toList]
  constructor
  · rintro ⟨row, source, ⟨low, located⟩, b, t, edge, rfl⟩
    exact ⟨source - initial, row, located, (Nat.add_sub_of_le low).symm, edge⟩
  · rintro ⟨i, row, located, source, edge⟩
    refine ⟨row, x.source, ⟨?_, ?_⟩, x.symbol, x.target, edge, rfl⟩
    · omega
    · rw [source, Nat.add_sub_cancel_left]
      exact located

/-! ## Discovery in order -/

variable {m : Nfa} {limit : Nat} {found after : Discovery} {d : Dfa}

theorem Discovery.number_discovers {number : Nat} {set : List Nat} (consistent : found.Consistent)
    (numbered : found.number limit set = .ok (number, after)) :
    (number < initial + found.sets.size ∧ after = found) ∨
      (number = initial + found.sets.size ∧ after.sets.size = found.sets.size + 1) := by
  unfold Discovery.number at numbered
  split at numbered
  · rename_i old
    obtain ⟨rfl, rfl⟩ := Prod.mk.inj (Except.ok.inj numbered)
    obtain ⟨i, place, rfl⟩ := (consistent set _).mp old
    obtain ⟨bound, -⟩ := Array.getElem?_eq_some_iff.mp place
    exact .inl ⟨Nat.add_lt_add_left bound initial, rfl⟩
  · split at numbered
    · cases numbered
    · obtain ⟨rfl, rfl⟩ := Prod.mk.inj (Except.ok.inj numbered)
      exact .inr ⟨rfl, Array.size_push ..⟩

theorem Discovery.numberAll_discovers {source : Nat} {moves : List (UInt8 × List Nat)}
    {targets : List (UInt8 × Nat)} (consistent : found.Consistent)
    (bounded : found.sets.size ≤ limit) (inside : source < initial + found.sets.size)
    (numbered : found.numberAll limit moves = .ok (targets, after)) :
    Discovers (initial + found.sets.size) (targets.map fun edge => ⟨source, edge.1, edge.2⟩)
      (initial + after.sets.size) := by
  induction moves generalizing found targets with
  | nil =>
    obtain ⟨rfl, rfl⟩ := Prod.mk.inj (Except.ok.inj numbered)
    exact .done
  | cons move moves ih =>
    obtain ⟨b, set⟩ := move
    unfold Discovery.numberAll at numbered
    split at numbered
    · cases numbered
    · rename_i number middle first
      split at numbered
      · cases numbered
      · rename_i rest last others
        obtain ⟨rfl, rfl⟩ := Prod.mk.inj (Except.ok.inj numbered)
        obtain ⟨kept, within, -, -, -⟩ := number_spec consistent bounded first
        rw [List.map_cons]
        rcases number_discovers consistent first with ⟨below, rfl⟩ | ⟨new, size⟩
        · exact .known below (ih kept within inside others)
        · have deeper := ih kept within (by omega) others
          rw [size] at deeper
          exact .fresh inside new deeper

theorem ofNfa_discovers (positive : 0 < limit) (built : ofNfa m limit = .ok d) :
    Discovers (initial + 1) (transitions d.rows) (initial + d.rows.size) := by
  obtain ⟨found, exploration, discovers, whole⟩ := ofNfa_induct
    (motive := fun found rows =>
      Discovers (initial + 1) (transitions rows) (initial + found.sets.size))
    (by
      intro found after rows set targets exploration place numbered discovers
      obtain ⟨bound, -⟩ := Array.getElem?_eq_some_iff.mp place
      rw [transitions_push]
      exact discovers.append (Discovery.numberAll_discovers exploration.consistent
        exploration.bounded (Nat.add_lt_add_left bound initial) numbered))
    .done positive built
  rw [exploration.size_eq whole]
  exact discovers

theorem Subsets.keys_ascending {sets : Array (List Nat)} {rows : Array Row}
    (subsets : Subsets m sets rows) {row : Row} (member : row ∈ rows) :
    (row.targets.map (·.1)).Pairwise (· < ·) := by
  obtain ⟨i, bound, rfl⟩ := Array.mem_iff_getElem.mp member
  obtain ⟨set, targets, -, located, leads⟩ := subsets.row i bound
  rw [(Array.getElem?_eq_some_iff.mp located).2, leads.keys]
  exact (Nfa.alphabet_ascending m).sublist (Nfa.moves_keys ..)

theorem Subsets.ordered {sets : Array (List Nat)} {rows : Array Row}
    (subsets : Subsets m sets rows) : (transitions rows).Pairwise Transition.Before := by
  refine List.pairwise_flatMap.mpr ⟨?_, ?_⟩
  · rintro ⟨row, source⟩ member
    have inRows : row ∈ rows := by simpa using List.fst_mem_of_mem_zipIdx member
    refine List.pairwise_map.mpr ((List.pairwise_map.mp (subsets.keys_ascending inRows)).imp ?_)
    exact fun less => .inr ⟨rfl, less⟩
  · have sources : ((rows.toList.zipIdx initial).map (·.2)).Pairwise (· < ·) := by
      rw [List.zipIdx_map_snd]
      exact List.pairwise_lt_range' 1
    refine (List.pairwise_map.mp sources).imp ?_
    intro first second less x inFirst y inSecond
    obtain ⟨_, -, rfl⟩ := List.mem_map.mp inFirst
    obtain ⟨_, -, rfl⟩ := List.mem_map.mp inSecond
    exact .inl less

end Dfa

/-! ## The table -/

namespace Automaton

variable {d : Dfa} {p : Automaton} {s t : Nat} {b : UInt8} {u v : List UInt8}

theorem next_outside (built : ofDfa d = .ok p) (outside : p.stateCount ≤ s) (b : UInt8) :
    p.next s b = sink := by
  unfold next
  split
  · rfl
  · have beyond : p.table.size ≤ s * p.symbolCount := by
      rw [table_size built, ← stateCount_eq built]
      exact Nat.mul_le_mul_right _ outside
    rw [Array.getD_eq_getD_getElem?, Array.getElem?_eq_none (by omega)]
    rfl

theorem isAccepting_outside (built : ofDfa d = .ok p) (outside : p.stateCount ≤ s) :
    p.isAccepting s = false := by
  rw [stateCount_eq built, initial] at outside
  rw [isAccepting, (ofDfa_ok built).2.2, Array.getD_eq_getD_getElem?,
    Array.getElem?_eq_none (by simpa using outside)]
  rfl

theorem lookup_of_mem {targets : List (UInt8 × Nat)}
    (ascending : (targets.map (·.1)).Pairwise (· < ·)) (member : (b, t) ∈ targets) :
    targets.lookup b = some t := by
  obtain ⟨front, back, rfl⟩ := List.append_of_mem member
  rw [List.map_append, List.pairwise_append] at ascending
  refine List.lookup_eq_some_iff.mpr ⟨front, back, rfl, fun edge before => ?_⟩
  have less := ascending.2.2 _ (List.mem_map_of_mem before) b (by simp)
  exact bne_iff_ne.mpr (UInt8.ne_of_lt less).symm

theorem next_of_transition {m : Nfa} {sets : Array (List Nat)} (built : ofDfa d = .ok p)
    (subsets : Dfa.Subsets m sets d.rows) (member : ⟨s, b, t⟩ ∈ Dfa.transitions d.rows) :
    p.next s b = t := by
  obtain ⟨i, row, located, rfl, edge⟩ := Dfa.mem_transitions.mp member
  have ascending := subsets.keys_ascending (Array.mem_of_getElem? located)
  rw [next_state built located, Dfa.Row.target, lookup_of_mem ascending edge]
  rfl

theorem transition_of_next (built : ofDfa d = .ok p) (leads : p.next s b = t)
    (notSink : t ≠ sink) : ⟨s, b, t⟩ ∈ Dfa.transitions d.rows := by
  have inside : s < initial + d.rows.size := by
    rw [← stateCount_eq built]
    by_contra outside
    exact notSink (leads ▸ next_outside built (Nat.not_lt.mp outside) b)
  rcases Nat.eq_zero_or_pos s with rfl | positive
  · exact absurd (leads ▸ next_sink built b) notSink
  · obtain ⟨i, rfl⟩ : ∃ i, s = initial + i := Nat.exists_eq_add_of_le positive
    have bound : i < d.rows.size := Nat.lt_of_add_lt_add_left inside
    have located := Array.getElem?_eq_getElem bound
    rw [next_state built located, Dfa.Row.target] at leads
    refine Dfa.mem_transitions.mpr ⟨i, _, located, rfl, ?_⟩
    cases lookup : d.rows[i].targets.lookup b with
    | none =>
      rw [lookup] at leads
      exact absurd leads.symm notSink
    | some target =>
      rw [lookup] at leads
      obtain ⟨front, back, whole, -⟩ := List.lookup_eq_some_iff.mp lookup
      obtain rfl : target = t := leads
      rw [whole]
      exact List.mem_append_right _ (List.mem_cons_self ..)

/-! ## First words -/

/-- The transition leads to the state, and none before it leads there or beyond. -/
structure Introduces (p : Automaton) (s : Nat) (b : UInt8) (t : Nat) : Prop where
  leads : p.next s b = t
  low : initial ≤ s
  below : s < t
  first : ∀ source a, t ≤ p.next source a → s < source ∨ (s = source ∧ (b = a ∨ b < a))

theorem exists_introduces {m : Nfa} {limit : Nat} (positive : 0 < limit)
    (determined : Dfa.ofNfa m limit = .ok d) (built : ofDfa d = .ok p) (low : initial < t)
    (high : t < p.stateCount) : ∃ s b, p.Introduces s b t := by
  obtain ⟨sets, subsets, -⟩ := Dfa.ofNfa_subsets positive determined
  rw [stateCount_eq built] at high
  obtain ⟨front, x, back, whole, target, source, earlier⟩ :=
    (Dfa.ofNfa_discovers positive determined).introduced low high
  have member : x ∈ Dfa.transitions d.rows := by
    rw [whole]
    exact List.mem_append_right _ (List.mem_cons_self ..)
  obtain ⟨i, -, -, place, -⟩ := Dfa.mem_transitions.mp member
  refine ⟨x.source, x.symbol, ?_, place ▸ Nat.le_add_right .., source, fun other a beyond => ?_⟩
  · rw [← target]
    exact next_of_transition built subsets member
  · have notSink : p.next other a ≠ sink := by
      simp only [sink, initial] at low ⊢
      omega
    have ordered := subsets.ordered
    have met := transition_of_next built rfl notSink
    rw [whole] at ordered met
    -- What leads so far is not in front of the transition, and all behind it come later.
    rcases List.mem_append.mp met with inFront | inBack
    · have small : p.next other a < t := earlier _ inFront
      omega
    · rcases List.mem_cons.mp inBack with rfl | behind
      · exact .inr ⟨rfl, .inl rfl⟩
      · have before := (List.pairwise_cons.mp (List.pairwise_append.mp ordered).2.1).1 _ behind
        exact before.imp_right (And.imp_right .inr)

/-- The words that lead to a state along introducing transitions only. -/
inductive Spells (p : Automaton) : Nat → List UInt8 → Prop
  | start : Spells p initial []
  | step {s b t w} : Spells p s w → p.Introduces s b t → Spells p t (w ++ [b])

theorem exists_spells (introduced : ∀ t, initial < t → t < p.stateCount → ∃ s b, p.Introduces s b t)
    (low : initial ≤ t) (high : t < p.stateCount) : ∃ w, p.Spells t w := by
  induction t using Nat.strongRecOn with
  | ind t ih =>
    rcases Nat.eq_or_lt_of_le low with rfl | above
    · exact ⟨[], .start⟩
    · obtain ⟨s, b, introduces⟩ := introduced t above high
      obtain ⟨w, spells⟩ := ih s introduces.below introduces.low
        (Nat.lt_trans introduces.below high)
      exact ⟨w ++ [b], .step spells introduces⟩

theorem run_snoc (p : Automaton) (s : Nat) (w : List UInt8) (b : UInt8) :
    p.run s (w ++ [b]) = p.next (p.run s w) b := by
  rw [run, List.foldl_append]
  rfl

theorem Spells.run (spells : p.Spells s u) : p.run initial u = s := by
  induction spells with
  | start => rfl
  | step _ introduces ih => rw [run_snoc, ih, introduces.leads]

theorem run_lt (inside : initial < p.stateCount) (stays : ∀ s b, p.next s b < p.stateCount)
    (w : List UInt8) : p.run initial w < p.stateCount := by
  induction w using List.reverseRecOn with
  | nil => exact inside
  | append_singleton w b _ =>
    rw [run_snoc]
    exact stays _ b

theorem shortlex_snoc (less : List.Shortlex (· < ·) u v) (a b : UInt8) :
    List.Shortlex (· < ·) (u ++ [a]) (v ++ [b]) := by
  rcases List.shortlex_def.mp less with shorter | ⟨same, lex⟩
  · apply List.Shortlex.of_length_lt
    simpa using shorter
  · apply List.Shortlex.of_lex (by simpa using same)
    clear less
    induction lex with
    | nil => cases same
    | rel smaller => exact .rel smaller
    | cons _ ih => exact .cons (ih (Nat.succ.inj same))

/-- No word that leads to the state or beyond comes before the spelled one. -/
theorem Spells.least (spells : p.Spells s u) (beyond : s ≤ p.run initial v) :
    u = v ∨ List.Shortlex (· < ·) u v := by
  induction v using List.reverseRecOn generalizing s u with
  | nil =>
    cases spells with
    | start => exact .inl rfl
    | step _ introduces =>
      have above := Nat.lt_of_le_of_lt introduces.low introduces.below
      exact absurd beyond (Nat.not_le.mpr above)
  | append_singleton v b ih =>
    cases spells with
    | start => exact .inr (List.Shortlex.of_length_lt (by simp))
    | @step source a _ w spells introduces =>
      rw [run_snoc] at beyond
      have order := introduces.first _ b beyond
      have reached : source ≤ p.run initial v :=
        order.elim Nat.le_of_lt fun same => Nat.le_of_eq same.1
      rcases ih spells reached with rfl | less
      · rw [spells.run] at order
        rcases order with later | ⟨-, rfl | smaller⟩
        · exact absurd later (Nat.lt_irrefl _)
        · exact .inl rfl
        · exact .inr (((List.shortlex_singleton_iff a b).mpr smaller).append_left w)
      · exact .inr (shortlex_snoc less a b)

/-- The word leads to the state, and no other word that does comes before it. -/
structure Least (p : Automaton) (s : Nat) (w : List UInt8) : Prop where
  leads : p.run initial w = s
  least : ∀ v, p.run initial v = s → w = v ∨ List.Shortlex (· < ·) w v

theorem Spells.isLeast (spells : p.Spells s u) : p.Least s u where
  leads := spells.run
  least _ leads := spells.least (Nat.le_of_eq leads.symm)

theorem Least.unique (first : p.Least s u) (second : p.Least s v) : u = v := by
  rcases first.least v second.leads with same | less
  · exact same
  · rcases second.least u first.leads with same | more
    · exact same.symm
    · exact absurd more (Std.Asymm.asymm _ _ less)

theorem Spells.shortlex (first : p.Spells s u) (second : p.Spells t v) (before : s < t) :
    List.Shortlex (· < ·) u v := by
  have beyond : s ≤ p.run initial v := by
    rw [second.run]
    exact Nat.le_of_lt before
  rcases first.least beyond with rfl | less
  · exact absurd (first.run.symm.trans second.run) (Nat.ne_of_lt before)
  · exact less

theorem Spells.lt_iff (first : p.Spells s u) (second : p.Spells t v) :
    s < t ↔ List.Shortlex (· < ·) u v := by
  refine ⟨first.shortlex second, fun less => ?_⟩
  rcases Nat.lt_trichotomy s t with before | rfl | behind
  · exact before
  · obtain rfl := first.isLeast.unique second.isLeast
    exact absurd less (Std.Irrefl.irrefl u)
  · exact absurd less (Std.Asymm.asymm _ _ (second.shortlex first behind))

/-- The states of a compiled policy, the sink apart, are numbered in the order of the first words
that lead to them, shorter ones first and then bytewise. The table has a row for each state, and
all its entries are states. Nothing leads out of the sink, nor out of a number that is no state. -/
theorem numbering_exact {source : List UInt8} {p : Automaton} (compiled : compile source = .ok p) :
    (∀ s, initial ≤ s → s < p.stateCount → ∃ w, p.Least s w) ∧
      (∀ s t u v, initial ≤ s → initial ≤ t → p.Least s u → p.Least t v →
        (s < t ↔ List.Shortlex (· < ·) u v)) ∧
      p.table.size = p.stateCount * p.symbolCount ∧ (∀ entry ∈ p.table, entry < p.stateCount) ∧
      (∀ b, p.next sink b = sink) ∧
      ∀ s b, p.stateCount ≤ s → p.next s b = sink ∧ p.isAccepting s = false := by
  obtain ⟨inside, stays⟩ := compile_states compiled
  obtain ⟨e, d, -, determined, built⟩ := compile_ok compiled
  have positive : 0 < maxStates := by decide
  obtain ⟨sets, subsets, complete⟩ := Dfa.ofNfa_subsets positive determined
  have spelled (s : Nat) (low : initial ≤ s) (high : s < p.stateCount) : ∃ w, p.Spells s w :=
    exists_spells (fun t => exists_introduces positive determined built) low high
  have spells (s : Nat) (u : List UInt8) (low : initial ≤ s) (least : p.Least s u) :
      p.Spells s u := by
    have high : s < p.stateCount := least.leads ▸ run_lt inside stays u
    obtain ⟨w, spells⟩ := spelled s low high
    exact spells.isLeast.unique least ▸ spells
  refine ⟨?_, ?_, ?_, table_lt built subsets complete, next_sink built, ?_⟩
  · intro s low high
    obtain ⟨w, spells⟩ := spelled s low high
    exact ⟨w, spells.isLeast⟩
  · intro s t u v lowS lowT first second
    exact (spells s u lowS first).lt_iff (spells t v lowT second)
  · rw [table_size built, stateCount_eq built]
  · exact fun s b outside => ⟨next_outside built outside b, isAccepting_outside built outside⟩

/-- The source is `W(R|W)*`. State 3 is introduced by `R` out of state 2, and state 4 by `W`. -/
theorem numbering_exact_two_symbols :
    let source : List UInt8 := [0x57, 0x28, 0x52, 0x7c, 0x57, 0x29, 0x2a]
    ∃ p, compile source = .ok p ∧ p.stateCount = 5 ∧
      p.table = #[0, 0, 0, 2, 3, 4, 3, 4, 3, 4] ∧
      (∃ u v, p.Least 3 u ∧ p.Least 4 v ∧ List.Shortlex (· < ·) u v) ∧
      p.next 5 0x57 = sink ∧ p.isAccepting 5 = false := by
  intro source
  have compiled : (compile source).toOption =
      some ⟨[0x52, 0x57], #[0, 0, 0, 2, 3, 4, 3, 4, 3, 4], #[false, false, true, true, true]⟩ := by
    decide +kernel
  obtain ⟨least, order, -, -, -, outside⟩ := numbering_exact (ok_of_toOption compiled)
  obtain ⟨u, first⟩ := least 3 (by decide) (by decide)
  obtain ⟨v, second⟩ := least 4 (by decide) (by decide)
  have less := (order 3 4 u v (by decide) (by decide) first second).mp (by decide)
  exact ⟨_, ok_of_toOption compiled, rfl, rfl, ⟨u, v, first, second, less⟩,
    outside 5 0x57 (Nat.le_refl 5)⟩

end Automaton

end PolicyVault.Policy
