import Mathlib.Data.List.Induction
import PolicyVault.Policy.Automaton
import PolicyVault.Proofs.Policy.Subsets
import PolicyVault.Proofs.Policy.Thompson

/-!
# Compilation

`compile_exact`: along every word, the state of a compiled policy accepts exactly the words of the
expression, and it is the sink exactly when no word of the expression begins so.
-/

namespace PolicyVault.Policy

/-! ## The table -/

namespace Automaton

theorem getElem?_flatMap_chunks {α β : Type} {width : Nat} (rows : List α) (chunk : α → List β)
    (uniform : ∀ row, (chunk row).length = width) (i : Nat) {column : Nat}
    (inside : column < width) :
    (rows.flatMap chunk)[i * width + column]? = rows[i]?.bind fun row => (chunk row)[column]? := by
  induction rows generalizing i with
  | nil => simp
  | cons row rows ih =>
    rw [List.flatMap_cons]
    cases i with
    | zero =>
      rw [Nat.zero_mul, Nat.zero_add, List.getElem?_append_left (by rw [uniform]; exact inside)]
      simp
    | succ i =>
      have skip : (i + 1) * width + column = width + (i * width + column) := by
        rw [Nat.succ_mul]
        omega
      rw [skip, List.getElem?_append_right (by rw [uniform]; omega), uniform,
        Nat.add_sub_cancel_left, ih]
      simp

variable {d : Dfa} {p : Automaton}

theorem ofDfa_ok (built : ofDfa d = .ok p) : p.symbols = d.symbols ∧
    p.table = (d.symbols.map fun _ => sink).toArray ++
      d.rows.flatMap (fun row => (d.symbols.map row.target).toArray) ∧
    p.accepting = #[false] ++ d.rows.map (·.accepting) := by
  unfold ofDfa at built
  dsimp only at built
  split at built
  · contradiction
  · obtain rfl := Except.ok.inj built
    exact ⟨rfl, rfl, rfl⟩

theorem lookup_of_not_symbol {row : Dfa.Row} (member : row ∈ d.rows) {b : UInt8}
    (unread : b ∉ d.symbols) : row.targets.lookup b = none := by
  rw [List.lookup_eq_none_iff]
  intro edge reads
  by_contra same
  have read : b = edge.1 := by simpa using same
  exact unread (Dfa.mem_symbols.mpr ⟨row, member, edge.2, read ▸ reads⟩)

theorem target_of_not_symbol {row : Dfa.Row} (member : row ∈ d.rows) {b : UInt8}
    (unread : b ∉ d.symbols) : row.target b = sink := by
  rw [Dfa.Row.target, lookup_of_not_symbol member unread]
  rfl

theorem idxOf?_lt {b : UInt8} {symbols : List UInt8} {column : Nat}
    (found : symbols.idxOf? b = some column) :
    column < symbols.length ∧ symbols[column]? = some b := by
  obtain ⟨bound, value, _⟩ := List.idxOf?_eq_some_iff.mp found
  exact ⟨bound, by rw [List.getElem?_eq_getElem bound, value]⟩

theorem next_sink (built : ofDfa d = .ok p) (b : UInt8) : p.next sink b = sink := by
  obtain ⟨symbols, table, _⟩ := ofDfa_ok built
  unfold next symbolOf symbolCount
  split
  · rfl
  · rename_i column found
    rw [symbols] at found
    have bound := (idxOf?_lt found).1
    rw [table, symbols]
    simp [sink, Array.getD_eq_getD_getElem?, Array.getElem?_append, bound]

theorem next_state (built : ofDfa d = .ok p) {i : Nat} {row : Dfa.Row}
    (place : d.rows[i]? = some row) (b : UInt8) : p.next (initial + i) b = row.target b := by
  obtain ⟨symbols, table, _⟩ := ofDfa_ok built
  unfold next symbolOf symbolCount
  rw [symbols]
  split
  · rename_i unread
    rw [List.idxOf?_eq_none_iff] at unread
    exact (target_of_not_symbol (Array.mem_of_getElem? place) unread).symm
  · rename_i column found
    obtain ⟨bound, value⟩ := idxOf?_lt found
    have chunk := getElem?_flatMap_chunks d.rows.toList (fun row => d.symbols.map row.target)
      (fun _ => List.length_map _) i bound
    have behind : (initial + i) * d.symbols.length + column =
        d.symbols.length + (i * d.symbols.length + column) := by
      rw [initial, Nat.add_mul]
      omega
    have entry : p.table[(initial + i) * d.symbols.length + column]? = some (row.target b) := by
      rw [table, behind, Array.getElem?_append_right (by simp)]
      simp only [Array.getElem?_toList, place, Option.bind_some, List.getElem?_map, value] at chunk
      simpa [← Array.getElem?_toList, Array.toList_flatMap] using chunk
    rw [Array.getD_eq_getD_getElem?, entry, Option.getD_some]

theorem isAccepting_sink (built : ofDfa d = .ok p) : p.isAccepting sink = false := by
  obtain ⟨_, _, accepting⟩ := ofDfa_ok built
  rw [isAccepting, accepting, Array.getD_eq_getD_getElem?]
  rw [Array.getElem?_append_left (by simp [sink])]
  rfl

theorem isAccepting_state (built : ofDfa d = .ok p) {i : Nat} {row : Dfa.Row}
    (place : d.rows[i]? = some row) : p.isAccepting (initial + i) = row.accepting := by
  obtain ⟨_, _, accepting⟩ := ofDfa_ok built
  rw [isAccepting, accepting, Array.getD_eq_getD_getElem?]
  rw [Array.getElem?_append_right (by simp [initial])]
  simp [initial, place]

/-! ## Runs -/

/-- The state stands for what the word reaches: the sink if that is nothing, and else the number of
a set that holds it. -/
def Stands (m : Nfa) (sets : Array (List Nat)) (state : Nat) (w : List UInt8) : Prop :=
  (state = sink ∧ ∀ t, ¬ m.Path m.start w t) ∨
    ∃ set, Dfa.Numbered sets set state ∧ m.Holding set w ∧ ∃ t, t ∈ set

variable {m : Nfa} {sets : Array (List Nat)}

theorem Stands.next (built : ofDfa d = .ok p) (formed : m.WellFormed)
    (subsets : Dfa.Subsets m sets d.rows) (complete : sets.size ≤ d.rows.size) {state : Nat}
    {w : List UInt8} (stands : Stands m sets state w) (b : UInt8) :
    Stands m sets (p.next state b) (w ++ [b]) := by
  rcases stands with ⟨rfl, nothing⟩ | ⟨set, ⟨i, place, rfl⟩, holding, _⟩
  · refine .inl ⟨next_sink built b, fun t path => ?_⟩
    obtain ⟨u, first, _⟩ := path.split
    exact nothing u first
  · obtain ⟨row, located, _, targets⟩ := subsets.target complete place
    have leads := targets b
    rw [next_state built located]
    cases found : m.reached set b with
    | none =>
      rw [found] at leads
      refine .inl ⟨?_, holding.stuck found⟩
      rw [Dfa.Row.target, leads]
      rfl
    | some after =>
      rw [found] at leads
      obtain ⟨number, lookup, numbered⟩ := leads
      refine .inr ⟨after, ?_, holding.next formed.edges found,
        Nfa.reached_nonempty formed.edges found⟩
      rw [Dfa.Row.target, lookup]
      exact numbered

theorem stands_run (built : ofDfa d = .ok p) (formed : m.WellFormed)
    (subsets : Dfa.Subsets m sets d.rows) (complete : sets.size ≤ d.rows.size) (w : List UInt8) :
    Stands m sets (p.run initial w) w := by
  induction w using List.reverseRecOn with
  | nil =>
    have first := Nfa.holding_first formed.edges formed.1
    exact .inr ⟨_, ⟨0, subsets.first, rfl⟩, first, _, (first m.start).mpr .refl⟩
  | append_singleton w b ih =>
    rw [run, List.foldl_append]
    exact ih.next built formed subsets complete b

theorem Stands.ne_sink {state : Nat} {w : List UInt8} (stands : Stands m sets state w) :
    state ≠ sink ↔ ∃ t, m.Path m.start w t := by
  rcases stands with ⟨rfl, nothing⟩ | ⟨set, ⟨i, _, rfl⟩, holding, t, member⟩
  · simp [nothing]
  · have above : initial + i ≠ sink := by
      simp only [initial, sink]
      omega
    exact iff_of_true above ⟨t, (holding t).mp member⟩

theorem Stands.isAccepting (built : ofDfa d = .ok p) (subsets : Dfa.Subsets m sets d.rows)
    (complete : sets.size ≤ d.rows.size) {state : Nat} {w : List UInt8}
    (stands : Stands m sets state w) : p.isAccepting state = true ↔ m.Accepts w := by
  rcases stands with ⟨rfl, nothing⟩ | ⟨set, ⟨i, place, rfl⟩, holding, _⟩
  · rw [isAccepting_sink built]
    exact iff_of_false Bool.false_ne_true (nothing m.accept)
  · obtain ⟨row, located, accepting, _⟩ := subsets.target complete place
    rw [isAccepting_state built located, accepting, List.contains_iff_mem]
    exact holding m.accept

/-! ## States -/

theorem symbols_nonempty (built : ofDfa d = .ok p) : 0 < d.symbols.length := by
  unfold ofDfa at built
  dsimp only at built
  split at built
  · contradiction
  · rename_i some
    exact List.length_pos_iff.mpr (by simpa using some)

theorem table_size (built : ofDfa d = .ok p) :
    p.table.size = (initial + d.rows.size) * p.symbolCount := by
  obtain ⟨symbols, table, -⟩ := ofDfa_ok built
  rw [table, symbolCount, symbols, Nat.add_mul, initial]
  simp [Array.size_flatMap, Array.map_const']

theorem stateCount_eq (built : ofDfa d = .ok p) : p.stateCount = initial + d.rows.size := by
  have positive : 0 < p.symbolCount := by
    rw [symbolCount, (ofDfa_ok built).1]
    exact symbols_nonempty built
  rw [stateCount, table_size built, Nat.mul_div_cancel _ positive]

theorem table_lt {m : Nfa} {sets : Array (List Nat)} (built : ofDfa d = .ok p)
    (subsets : Dfa.Subsets m sets d.rows) (complete : sets.size ≤ d.rows.size) :
    ∀ state ∈ p.table, state < p.stateCount := by
  intro state member
  rw [stateCount_eq built]
  rw [(ofDfa_ok built).2.1] at member
  rcases Array.mem_append.mp member with inSink | inRow
  · obtain ⟨-, isSink⟩ : _ ∧ state = sink := by simpa using inSink
    rw [isSink, initial]
    exact Nat.lt_add_right _ Nat.zero_lt_one
  · obtain ⟨row, located, inTargets⟩ := Array.mem_flatMap.mp inRow
    obtain ⟨b, -, rfl⟩ := List.mem_map.mp (by simpa using inTargets)
    exact subsets.target_lt complete located b

end Automaton

/-! ## The compiler -/

theorem Nfa.viable_iff_path {e : Expr} {w : List UInt8} :
    e.Viable w ↔ ∃ t, (Nfa.ofExpr e).Path (Nfa.ofExpr e).start w t := by
  constructor
  · rintro ⟨v, matched⟩
    obtain ⟨t, first, _⟩ := (Nfa.ofExpr_accepts.mpr matched).split
    exact ⟨t, first⟩
  · rintro ⟨t, path⟩
    have formed := Nfa.ofExpr_wellFormed e
    obtain ⟨v, rest⟩ := Nfa.ofExpr_reaches_accept (path.target_lt formed.edges formed.1)
    exact ⟨v, Nfa.ofExpr_accepts.mp (path.trans rest)⟩

theorem Automaton.compile_ok {source : List UInt8} {p : Automaton}
    (compiled : Automaton.compile source = .ok p) : ∃ e d, Expr.parse source = .ok e ∧
      Dfa.ofNfa (Nfa.ofExpr e) maxStates = .ok d ∧ Automaton.ofDfa d = .ok p := by
  unfold Automaton.compile at compiled
  split at compiled
  · contradiction
  · split at compiled
    · contradiction
    · rename_i e parsed
      split at compiled
      · contradiction
      · rename_i d built
        exact ⟨e, d, parsed, built, compiled⟩

/-- A compiled policy has the initial state, and no step leaves its states. -/
theorem Automaton.compile_states {source : List UInt8} {p : Automaton}
    (compiled : Automaton.compile source = .ok p) :
    initial < p.stateCount ∧ ∀ state b, p.next state b < p.stateCount := by
  obtain ⟨e, d, -, subset, built⟩ := compile_ok compiled
  obtain ⟨sets, subsets, complete⟩ := Dfa.ofNfa_subsets (by decide) subset
  have some : initial < p.stateCount := by
    have first := (Array.getElem?_eq_some_iff.mp subsets.first).1
    rw [stateCount_eq built]
    omega
  refine ⟨some, fun state b => ?_⟩
  have noSink : sink < p.stateCount := Nat.zero_lt_of_lt some
  unfold next
  split
  · exact noSink
  · rename_i symbol _
    rw [Array.getD_eq_getD_getElem?]
    cases entry : p.table[state * p.symbolCount + symbol]? with
    | none => exact noSink
    | some target => exact table_lt built subsets complete target (Array.mem_of_getElem? entry)

/-- What a compiled policy says of every word, and what its sink says. -/
theorem Automaton.run_exact {source : List UInt8} {p : Automaton}
    (compiled : Automaton.compile source = .ok p) {e : Expr} (parsed : Expr.parse source = .ok e)
    (w : List UInt8) : (p.isAccepting (p.run initial w) = true ↔ e.Matches w) ∧
      (p.run initial w ≠ sink ↔ e.Viable w) := by
  obtain ⟨_, d, same, determined, built⟩ := compile_ok compiled
  obtain rfl := Except.ok.inj (parsed.symm.trans same)
  obtain ⟨sets, subsets, complete⟩ := Dfa.ofNfa_subsets (by decide) determined
  have stands := stands_run built (Nfa.ofExpr_wellFormed e) subsets complete w
  rw [stands.isAccepting built subsets complete, stands.ne_sink, Nfa.ofExpr_accepts,
    Nfa.viable_iff_path]
  exact ⟨Iff.rfl, Iff.rfl⟩

theorem ok_of_toOption {ε α : Type} {x : Except ε α} {a : α} (found : x.toOption = some a) :
    x = .ok a := by
  cases x with
  | error e => contradiction
  | ok b => exact congrArg Except.ok (Option.some.inj found)

/-- Along every word, the state of a compiled policy accepts exactly the words of the expression,
and it is the sink exactly when no word of the expression begins so. -/
theorem compile_exact {source : List UInt8} {p : Automaton}
    (compiled : Automaton.compile source = .ok p) :
    ∃ e, Expr.parse source = .ok e ∧ ∀ w,
      (p.isAccepting (p.run initial w) = true ↔ e.Matches w) ∧
      (p.run initial w ≠ sink ↔ ∃ v, e.Matches (w ++ v)) := by
  obtain ⟨e, _, parsed, _⟩ := Automaton.compile_ok compiled
  exact ⟨e, parsed, fun w => Automaton.run_exact compiled parsed w⟩

/-- The expression is `R(W|x)*`. -/
theorem compile_exact_read_first :
    ∃ p, Automaton.compile [0x52, 0x28, 0x57, 0x7c, 0x78, 0x29, 0x2a] = .ok p ∧
      ∃ e, Expr.parse [0x52, 0x28, 0x57, 0x7c, 0x78, 0x29, 0x2a] = .ok e ∧ ∀ w,
        (p.isAccepting (p.run initial w) = true ↔ e.Matches w) ∧
        (p.run initial w ≠ sink ↔ ∃ v, e.Matches (w ++ v)) := by
  have compiled : (Automaton.compile [0x52, 0x28, 0x57, 0x7c, 0x78, 0x29, 0x2a]).toOption =
      some ⟨[0x52, 0x57, 0x78], #[0, 0, 0, 2, 0, 0, 0, 3, 4, 0, 3, 4, 0, 3, 4],
        #[false, false, true, true, true]⟩ := by decide +kernel
  exact ⟨_, ok_of_toOption compiled, compile_exact (ok_of_toOption compiled)⟩

end PolicyVault.Policy
