import Mathlib.Data.Set.Card
import PolicyVault.Proofs.Policy.Determinization
import PolicyVault.Proofs.Policy.Offences
import PolicyVault.Wire.PolicyItem

/-!
# Symbols

The letters and digits of a source are the symbols of its tree. Each of them is read in some word
of the tree, so that a transition of the deterministic automaton reads it; and no transition reads
anything else. So whoever counts the letters and digits of the source counts the columns of the
table.

Main statement: `compile_symbols_exact`.
-/

namespace PolicyVault.Policy

variable {b : UInt8}

/-- The letters and digits of a source. -/
def symbolsOf (source : List UInt8) : Set UInt8 := {b | b ∈ source ∧ isSymbol b = true}

theorem mem_symbolsOf_append {s t : List UInt8} :
    b ∈ symbolsOf (s ++ t) ↔ b ∈ symbolsOf s ∨ b ∈ symbolsOf t := by
  simp only [symbolsOf, Set.mem_ofPred_eq, List.mem_append, or_and_right]

theorem mem_symbolsOf_cons {a : UInt8} (mark : a ∈ punctuation) {s : List UInt8} :
    b ∈ symbolsOf (a :: s) ↔ b ∈ symbolsOf s := by
  have unlike : isSymbol b = true → b ≠ a := by
    rintro symbol rfl
    have none : punctuation.any isSymbol = false := rfl
    exact List.any_eq_false.mp none b mark symbol
  simp only [symbolsOf, Set.mem_ofPred_eq, List.mem_cons]
  exact and_congr_left fun symbol => or_iff_right (unlike symbol)

theorem not_mem_symbolsOf_nil : b ∉ symbolsOf [] := by
  simp [symbolsOf]

/-! ## From the source to the automaton -/

theorem Derives.mem_symbols_iff {category : Category} {s : List UInt8} {e : Expr}
    (derives : Derives category s e) : b ∈ e.symbols ↔ b ∈ symbolsOf s := by
  have closing {s : List UInt8} {a : UInt8} (mark : a ∈ punctuation) :
      b ∈ symbolsOf (s ++ [a]) ↔ b ∈ symbolsOf s := by
    rw [mem_symbolsOf_append, mem_symbolsOf_cons mark, or_iff_left not_mem_symbolsOf_nil]
  induction derives with
  | single _ ih | last _ ih | once _ ih => exact ih
  | either _ _ ihl ihr =>
    rw [Expr.symbols, List.mem_append, mem_symbolsOf_append, mem_symbolsOf_cons (by decide)]
    exact or_congr ihl ihr
  | juxtaposed _ _ ihl ihr =>
    rw [Expr.symbols, List.mem_append, mem_symbolsOf_append]
    exact or_congr ihl ihr
  | star _ ih | optional _ ih =>
    rw [Expr.symbols, closing (by decide)]
    exact ih
  | @symbol a symbol =>
    simp only [Expr.symbols, symbolsOf, Set.mem_ofPred_eq, List.mem_singleton]
    exact ⟨fun same => ⟨same, same ▸ symbol⟩, And.left⟩
  | group _ ih =>
    rw [closing (by decide), mem_symbolsOf_cons (by decide)]
    exact ih

theorem Expr.exists_matches_of_mem {e : Expr} (member : b ∈ e.symbols) :
    ∃ u v, e.Matches (u ++ b :: v) := by
  induction e with
  | symbol a =>
    obtain rfl := List.mem_singleton.mp member
    exact ⟨[], [], .symbol⟩
  | concat l r ihl ihr =>
    rcases List.mem_append.mp member with inLeft | inRight
    · obtain ⟨u, v, left⟩ := ihl inLeft
      obtain ⟨a, w, right⟩ := r.matches_some
      exact ⟨u, v ++ a :: w, by simpa using Matches.concat left right⟩
    · obtain ⟨a, w, left⟩ := l.matches_some
      obtain ⟨u, v, right⟩ := ihr inRight
      exact ⟨a :: w ++ u, v, by simpa using Matches.concat left right⟩
  | either l r ihl ihr =>
    rcases List.mem_append.mp member with inLeft | inRight
    · obtain ⟨u, v, left⟩ := ihl inLeft
      exact ⟨u, v, .left left⟩
    · obtain ⟨u, v, right⟩ := ihr inRight
      exact ⟨u, v, .right right⟩
  | star e ih =>
    obtain ⟨u, v, body⟩ := ih member
    exact ⟨u, v, by simpa using Matches.starMore body .starNil⟩
  | optional e ih =>
    obtain ⟨u, v, body⟩ := ih member
    exact ⟨u, v, .optionalSome body⟩

theorem Nfa.mem_symbols_of_arc {e : Expr} {base : Nat} {arc : Arc}
    (member : arc ∈ (fragment e base).arcs) (reads : arc.label = .symbol b) : b ∈ e.symbols := by
  induction e generalizing base with
  | symbol a =>
    obtain rfl := List.mem_singleton.mp member
    obtain rfl := Label.symbol.inj reads
    exact List.mem_singleton_self a
  | concat l r ihl ihr =>
    simp only [fragment, List.cons_append, List.mem_cons, List.mem_append] at member
    rcases member with rfl | member | member
    · cases reads
    · exact List.mem_append_left _ (ihl member)
    · exact List.mem_append_right _ (ihr member)
  | either l r ihl ihr =>
    simp only [fragment, List.cons_append, List.mem_cons, List.mem_append] at member
    rcases member with rfl | rfl | rfl | rfl | member | member
    iterate 4 cases reads
    · exact List.mem_append_left _ (ihl member)
    · exact List.mem_append_right _ (ihr member)
  | star e ih =>
    simp only [fragment, List.mem_cons] at member
    rcases member with rfl | rfl | rfl | rfl | member
    iterate 4 cases reads
    exact ih member
  | optional e ih =>
    simp only [fragment, List.mem_cons] at member
    rcases member with rfl | rfl | rfl | member
    iterate 3 cases reads
    exact ih member

theorem Nfa.mem_symbols_of_alphabet {e : Expr} (read : b ∈ (ofExpr e).alphabet) :
    b ∈ e.symbols := by
  obtain ⟨s, t, edge⟩ := mem_alphabet.mp read
  exact mem_symbols_of_arc (ofExpr_edge.mp edge) rfl

theorem Dfa.mem_symbols_iff {e : Expr} {d : Dfa}
    (built : ofNfa (Nfa.ofExpr e) maxStates = .ok d) : b ∈ d.symbols ↔ b ∈ e.symbols := by
  have formed := Nfa.ofExpr_wellFormed e
  have positive : 0 < maxStates := by decide
  constructor
  · intro read
    obtain ⟨sets, subsets, -⟩ := ofNfa_subsets positive built
    obtain ⟨row, member, t, edge⟩ := mem_symbols.mp read
    obtain ⟨i, bound, rfl⟩ := Array.mem_iff_getElem.mp member
    obtain ⟨set, targets, -, located, leads⟩ := subsets.row i bound
    rw [(Array.getElem?_eq_some_iff.mp located).2] at edge
    have key := List.mem_map_of_mem (f := (·.1)) edge
    rw [leads.keys] at key
    exact Nfa.mem_symbols_of_alphabet ((Nfa.moves_keys ..).subset key)
  · intro member
    obtain ⟨u, v, matched⟩ := Expr.exists_matches_of_mem member
    rw [List.append_cons] at matched
    obtain ⟨t, path, -⟩ := (Nfa.ofExpr_accepts.mpr matched).split
    obtain ⟨sets, -, -, -, words⟩ := determinizes_of_ok formed.edges formed.1 positive built
    cases followed : d.follow (u ++ [b]) with
    | none => exact absurd path ((words _).1.mp followed t)
    | some state => exact mem_symbols_of_follow followed

/-! ## Columns -/

namespace Automaton

variable {p : Automaton}

theorem symbolOf_eq_some (ascending : p.symbols.Pairwise (· < ·)) {i : Nat} :
    p.symbolOf b = some i ↔ p.symbols[i]? = some b := by
  constructor
  · exact fun found => (idxOf?_lt found).2
  · intro place
    obtain ⟨bound, value⟩ := List.getElem?_eq_some_iff.mp place
    refine List.idxOf?_eq_some_iff.mpr ⟨bound, value, fun j before same => ?_⟩
    have less := List.pairwise_iff_getElem.mp ascending j i (by omega) bound before
    rw [same, value] at less
    exact absurd less (UInt8.lt_irrefl b)

theorem symbolOf_lt_iff (ascending : p.symbols.Pairwise (· < ·)) {a : UInt8} {i j : Nat}
    (first : p.symbolOf a = some i) (second : p.symbolOf b = some j) : a < b ↔ i < j := by
  obtain ⟨inside, here⟩ := List.getElem?_eq_some_iff.mp ((symbolOf_eq_some ascending).mp first)
  obtain ⟨within, there⟩ := List.getElem?_eq_some_iff.mp ((symbolOf_eq_some ascending).mp second)
  have increases := List.pairwise_iff_getElem.mp ascending
  rcases Nat.lt_trichotomy i j with before | rfl | behind
  · exact iff_of_true (here ▸ there ▸ increases i j inside within before) before
  · obtain rfl := here.symm.trans there
    exact iff_of_false (UInt8.lt_irrefl a) (Nat.lt_irrefl i)
  · have less : b < a := here ▸ there ▸ increases j i within inside behind
    exact iff_of_false (UInt8.lt_asymm less) (Nat.lt_asymm behind)

theorem symbols_ascending {d : Dfa} (built : ofDfa d = .ok p) : p.symbols.Pairwise (· < ·) := by
  rw [(ofDfa_ok built).1]
  exact Nfa.allBytes_ascending.filter _

theorem symbolCount_le {d : Dfa} (built : ofDfa d = .ok p) : p.symbolCount ≤ 256 := by
  rw [symbolCount, (ofDfa_ok built).1]
  have all : Nfa.allBytes.length = 256 := by simp [Nfa.allBytes]
  exact all ▸ List.length_filter_le ..

theorem compile_mem_symbols {source : List UInt8} (compiled : compile source = .ok p) :
    b ∈ p.symbols ↔ b ∈ symbolsOf source := by
  obtain ⟨e, d, parsed, determined, built⟩ := compile_ok compiled
  rw [(ofDfa_ok built).1, Dfa.mem_symbols_iff determined]
  exact (derives_of_parse parsed).mem_symbols_iff

/-- Each step of the compiler fails for causes of its own, and the last one never does. -/
theorem compile_symbols_some (source : List UInt8) : compile source ≠ .error .noActiveSymbols := by
  intro refused
  unfold compile at refused
  split at refused
  · cases refused
  · split at refused
    · rename_i failed
      obtain rfl := Except.error.inj refused
      rcases parse_error_cases failed with ⟨-, other⟩ | ⟨_, _, _, _, -, -, stopped⟩ | ⟨_, _, -, other⟩
      · cases other
      · cases Reader.step_error stopped
      · cases other
    · rename_i e parsed
      have formed := Nfa.ofExpr_wellFormed e
      have positive : 0 < maxStates := by decide
      split at refused
      · rename_i failed
        obtain rfl := Except.error.inj refused
        cases ((Dfa.ofNfa_error_iff formed.edges formed.1 positive _).mp failed).1
      · rename_i d determined
        have determinizes := Dfa.determinizes_of_ok formed.edges formed.1 positive determined
        obtain ⟨p, built⟩ := exists_ofDfa determinizes
        rw [built] at refused
        cases refused

end Automaton

/-! ## Counting -/

theorem nodup_eraseDups (l : List UInt8) : l.eraseDups.Nodup := by
  cases l with
  | nil => exact .nil
  | cons a l =>
    rw [List.eraseDups_cons, List.nodup_cons, List.mem_eraseDups]
    exact ⟨by simp, nodup_eraseDups _⟩
termination_by l.length
decreasing_by exact Nat.lt_succ_of_le (List.length_filter_le ..)

theorem countSymbols_eq (source : List UInt8) :
    Wire.PolicyItem.countSymbols source = (symbolsOf source).ncard := by
  rw [Wire.PolicyItem.countSymbols, ← Nfa.ncard_mem (nodup_eraseDups _)]
  congr 1
  ext b
  simp [symbolsOf, List.mem_eraseDups]

/-- No expression compiles to a policy without symbols. The symbols of a compiled policy are the
letters and digits of its source, as many as the sender of the source counts, and they are
numbered from 0 on in ascending order. -/
theorem compile_symbols_exact (source : List UInt8) :
    Automaton.compile source ≠ .error .noActiveSymbols ∧
      ∀ p, Automaton.compile source = .ok p →
        p.symbolCount = (symbolsOf source).ncard ∧
        (Wire.PolicyItem.ofExpression source).symbolCount.toNat = p.symbolCount ∧
        (∀ b, p.symbolOf b = none ↔ b ∉ symbolsOf source) ∧
        (∀ i, i < p.symbolCount ↔ ∃ b, p.symbolOf b = some i) ∧
        ∀ a b i j, p.symbolOf a = some i → p.symbolOf b = some j → (a < b ↔ i < j) := by
  refine ⟨Automaton.compile_symbols_some source, fun p compiled => ?_⟩
  obtain ⟨e, d, -, -, built⟩ := Automaton.compile_ok compiled
  have ascending := Automaton.symbols_ascending built
  have member (b : UInt8) : b ∈ p.symbols ↔ b ∈ symbolsOf source :=
    Automaton.compile_mem_symbols compiled
  have count : p.symbolCount = (symbolsOf source).ncard := by
    have distinct : p.symbols.Nodup := ascending.imp fun less => UInt8.ne_of_lt less
    rw [Automaton.symbolCount, ← Nfa.ncard_mem distinct]
    exact congrArg Set.ncard (Set.ext member)
  refine ⟨count, ?_, ?_, ?_, ?_⟩
  · have few := Automaton.symbolCount_le built
    rw [count, ← countSymbols_eq] at few ⊢
    exact UInt32.toNat_ofNat_of_lt' (Nat.lt_of_le_of_lt few (by decide))
  · intro b
    rw [← member, Automaton.symbolOf, List.idxOf?_eq_none_iff]
  · intro i
    simp only [Automaton.symbolOf_eq_some ascending]
    constructor
    · intro bound
      exact ⟨_, List.getElem?_eq_getElem bound⟩
    · rintro ⟨b, place⟩
      exact (List.getElem?_eq_some_iff.mp place).1
  · exact fun a b i j => Automaton.symbolOf_lt_iff ascending

/-- The source `W(R|W)*` holds `W` twice and counts it once. -/
theorem compile_symbols_exact_repeated :
    let source : List UInt8 := [0x57, 0x28, 0x52, 0x7c, 0x57, 0x29, 0x2a]
    ∃ p, Automaton.compile source = .ok p ∧ p.symbolCount = 2 ∧ (symbolsOf source).ncard = 2 ∧
      (Wire.PolicyItem.ofExpression source).symbolCount.toNat = 2 ∧ p.symbolOf 0x52 = some 0 ∧
      p.symbolOf 0x57 = some 1 ∧ 0x28 ∉ symbolsOf source := by
  intro source
  have compiled : (Automaton.compile source).toOption =
      some ⟨[0x52, 0x57], #[0, 0, 0, 2, 3, 4, 3, 4, 3, 4], #[false, false, true, true, true]⟩ := by
    decide +kernel
  obtain ⟨count, sent, unmapped, -⟩ := (compile_symbols_exact source).2 _ (ok_of_toOption compiled)
  exact ⟨_, ok_of_toOption compiled, rfl, count.symm, sent, rfl, rfl, (unmapped 0x28).mp rfl⟩

end PolicyVault.Policy
