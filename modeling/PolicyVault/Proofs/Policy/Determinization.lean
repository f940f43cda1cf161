import Mathlib.Data.Set.Card
import PolicyVault.Proofs.Policy.Compilation
import PolicyVault.Proofs.Policy.Parsing

/-!
# Determinization

A list of states stands for its members, and since closures are ascending, different lists stand
for different sets. So the deterministic automaton has one state for each set that words lead to,
and none is made just if there are more of these sets than the limit allows.

Main statement: `Dfa.ofNfa_exact`.
-/

namespace PolicyVault.Policy

/-! ## The sets that words lead to -/

namespace Nfa

variable {m : Nfa} {states next : List Nat} {b : UInt8}

/-- What a symbol, and empty edges after it, lead to from some states. -/
def after (m : Nfa) (states : Set Nat) (b : UInt8) : Set Nat :=
  {t | ∃ s ∈ states, ∃ q, m.Edge s (.symbol b) q ∧ m.Path q [] t}

/-- The nonempty sets that symbols lead to from the closure of the start. -/
inductive Subset (m : Nfa) : Set Nat → Prop
  | first : m.Subset {t | m.Path m.start [] t}
  | next {states : Set Nat} (b : UInt8) (subset : m.Subset states)
      (some : (m.after states b).Nonempty) : m.Subset (m.after states b)

noncomputable def subsetCount (m : Nfa) : Nat := {states | m.Subset states}.ncard

def members (states : List Nat) : Set Nat := {t | t ∈ states}

theorem after_members (edges : m.EdgesInside) (found : m.reached states b = some next) :
    m.after (members states) b = members next := by
  ext t
  exact (mem_reached edges found).symm

theorem after_members_none (found : m.reached states b = none) :
    m.after (members states) b = ∅ := by
  ext t
  refine ⟨?_, nofun⟩
  rintro ⟨s, member, q, edge, -⟩
  exact not_edge_of_reached_none found member edge

theorem members_first (edges : m.EdgesInside) (start : m.start < m.edges.size) :
    members (m.closure [m.start]) = {t | m.Path m.start [] t} := by
  ext t
  exact holding_first edges start t

theorem Obtained.subset (edges : m.EdgesInside) (start : m.start < m.edges.size)
    (obtained : m.Obtained states) : m.Subset (members states) := by
  induction obtained with
  | first =>
    rw [members_first edges start]
    exact .first
  | next _ found ih =>
    rw [← after_members edges found]
    apply ih.next
    rw [after_members edges found]
    exact reached_nonempty edges found

theorem Subset.nonempty {set : Set Nat} (subset : m.Subset set) : set.Nonempty := by
  cases subset with
  | first => exact ⟨m.start, .refl⟩
  | next _ _ some => exact some

theorem Subset.obtained (edges : m.EdgesInside) (start : m.start < m.edges.size) {set : Set Nat}
    (subset : m.Subset set) : ∃ states, m.Obtained states ∧ members states = set := by
  induction subset with
  | first => exact ⟨_, .first, members_first edges start⟩
  | next b _ some ih =>
    obtain ⟨states, obtained, rfl⟩ := ih
    cases found : m.reached states b with
    | none =>
      rw [after_members_none found] at some
      exact absurd some Set.not_nonempty_empty
    | some next => exact ⟨next, obtained.next found, (after_members edges found).symm⟩

theorem Obtained.ascending (obtained : m.Obtained states) : states.Pairwise (· < ·) := by
  cases obtained with
  | first => exact closure_ascending m _
  | next _ found =>
    unfold reached at found
    split at found
    · contradiction
    · obtain rfl := Option.some.inj found
      exact closure_ascending m _

theorem members_injOn (m : Nfa) : Set.InjOn members {states | m.Obtained states} := by
  intro first obtained second other same
  exact obtained.ascending.eq_of_mem_iff other.ascending fun {t} => Set.ext_iff.mp same t

/-! ## How many sets there are -/

theorem Subset.inside (edges : m.EdgesInside) (start : m.start < m.edges.size) {set : Set Nat}
    (subset : m.Subset set) : set ⊆ {t | t < m.edges.size} := by
  cases subset with
  | first => exact fun t path => path.target_lt edges start
  | next b _ _ =>
    rintro t ⟨s, -, q, edge, path⟩
    exact path.target_lt edges (edges _ _ _ edge)

theorem finite_subsets (edges : m.EdgesInside) (start : m.start < m.edges.size) :
    {set | m.Subset set}.Finite :=
  (Set.finite_lt_nat m.edges.size).finite_subsets.subset fun _ subset => subset.inside edges start

theorem ncard_mem {α : Type} {list : List α} (distinct : list.Nodup) :
    {x | x ∈ list}.ncard = list.length := by
  classical
  rw [← List.coe_toFinset, Set.ncard_coe_finset, List.toFinset_card_of_nodup distinct]

theorem subsetCount_eq {sets : List (Set Nat)} (distinct : sets.Nodup)
    (all : ∀ set, set ∈ sets ↔ m.Subset set) : m.subsetCount = sets.length := by
  rw [← ncard_mem distinct, subsetCount]
  congr 1
  ext set
  exact (all set).symm

theorem length_le_subsetCount (edges : m.EdgesInside) (start : m.start < m.edges.size)
    {sets : List (Set Nat)} (distinct : sets.Nodup) (all : ∀ set ∈ sets, m.Subset set) :
    sets.length ≤ m.subsetCount := by
  rw [← ncard_mem distinct, subsetCount]
  exact Set.ncard_le_ncard all (finite_subsets edges start)

theorem nodup_members {lists : List (List Nat)} (distinct : lists.Nodup)
    (obtained : ∀ states ∈ lists, m.Obtained states) : (lists.map members).Nodup := by
  apply distinct.map_on
  intro first member second other same
  exact m.members_injOn (obtained first member) (obtained second other) same

end Nfa

/-! ## Exploring -/

namespace Dfa

variable {m : Nfa} {limit fuel : Nat} {found : Discovery} {rows : Array Row} {d : Dfa}

theorem Discovery.Consistent.nodup (consistent : found.Consistent) :
    found.sets.toList.Nodup := by
  rw [List.nodup_iff_getElem?_ne_getElem?]
  intro i j before bound same
  rw [Array.getElem?_toList, Array.getElem?_toList] at same
  obtain ⟨set, place⟩ : ∃ set, found.sets[j]? = some set :=
    ⟨_, Array.getElem?_eq_getElem (by simpa using bound)⟩
  have first := (consistent set _).mpr ⟨i, same.trans place, rfl⟩
  have second := (consistent set _).mpr ⟨j, place, rfl⟩
  have equal := Option.some.inj (first.symm.trans second)
  simp only [initial] at equal
  omega

theorem Discovery.number_error {set : List Nat} {e : Error} (consistent : found.Consistent)
    (bounded : found.sets.size ≤ limit) (failed : found.number limit set = .error e) :
    e = .tooManyStates (limit + 1) limit ∧ found.sets.size = limit ∧ set ∉ found.sets := by
  unfold Discovery.number at failed
  split at failed
  · cases failed
  · rename_i new
    split at failed
    · rename_i full
      have size := Nat.le_antisymm bounded full
      obtain rfl := Except.error.inj failed
      refine ⟨by rw [size], size, ?_⟩
      intro member
      obtain ⟨i, place⟩ := Array.getElem?_of_mem member
      rw [(consistent set _).mpr ⟨i, place, rfl⟩] at new
      cases new
    · cases failed

/-- Numbering fails on a set beyond the limit. -/
theorem Discovery.numberAll_error {moves : List (UInt8 × List Nat)} {e : Error}
    (consistent : found.Consistent) (bounded : found.sets.size ≤ limit)
    (failed : found.numberAll limit moves = .error e) :
    e = .tooManyStates (limit + 1) limit ∧ ∃ full : Discovery, full.Consistent ∧
      full.sets.size = limit ∧ (∀ set ∈ full.sets, set ∈ found.sets ∨ ∃ b, (b, set) ∈ moves) ∧
      ∃ b set, (b, set) ∈ moves ∧ set ∉ full.sets := by
  induction moves generalizing found with
  | nil => cases failed
  | cons move moves ih =>
    obtain ⟨b, set⟩ := move
    unfold Discovery.numberAll at failed
    split at failed
    · rename_i cause refused
      obtain rfl := Except.error.inj failed
      obtain ⟨same, size, new⟩ := number_error consistent bounded refused
      exact ⟨same, found, consistent, size, fun _ => .inl, b, set, List.mem_cons_self .., new⟩
    · rename_i number middle first
      split at failed
      · rename_i cause refused
        obtain rfl := Except.error.inj failed
        obtain ⟨consistent, bounded, -, -, one⟩ := number_spec consistent bounded first
        obtain ⟨same, full, whole, size, origins, a, other, moved, new⟩ :=
          ih consistent bounded refused
        refine ⟨same, full, whole, size, ?_, a, other, List.mem_cons_of_mem _ moved, new⟩
        intro known member
        rcases origins known member with old | ⟨c, moved⟩
        · rcases one known old with old | rfl
          · exact .inl old
          · exact .inr ⟨b, List.mem_cons_self ..⟩
        · exact .inr ⟨c, List.mem_cons_of_mem _ moved⟩
      · cases failed

/-- An exploration fails only if one set more than the limit can be obtained. -/
theorem explore_error {e : Error} (exploration : Exploration m limit found rows)
    (failed : explore m m.alphabet limit fuel found rows = .error e) :
    e = .tooManyStates (limit + 1) limit ∧ ∃ lists : List (List Nat), lists.Nodup ∧
      lists.length = limit + 1 ∧ ∀ states ∈ lists, m.Obtained states := by
  induction fuel generalizing found rows with
  | zero => cases failed
  | succ fuel ih =>
    unfold explore at failed
    split at failed
    · cases failed
    · rename_i set place
      split at failed
      · rename_i cause refused
        obtain rfl := Except.error.inj failed
        obtain ⟨same, full, consistent, size, origins, b, other, moved, new⟩ :=
          Discovery.numberAll_error exploration.consistent exploration.bounded refused
        have source := exploration.obtained set (Array.mem_of_getElem? place)
        refine ⟨same, other :: full.sets.toList, ?_, by simp [size], ?_⟩
        · exact List.nodup_cons.mpr ⟨by simpa using new, consistent.nodup⟩
        · refine List.forall_mem_cons.mpr ⟨source.of_moves moved, ?_⟩
          intro states member
          rcases origins states (by simpa using member) with old | ⟨a, moved⟩
          · exact exploration.obtained states old
          · exact source.of_moves moved
      · rename_i targets after numbered
        exact ih (exploration.next place numbered) failed

/-- No row is left when the fuel is used up. -/
theorem explore_fuel (exploration : Exploration m limit found rows)
    (enough : limit ≤ rows.size + fuel) (more : Nat) :
    explore m m.alphabet limit (fuel + more) found rows =
      explore m m.alphabet limit fuel found rows := by
  induction fuel generalizing found rows with
  | zero =>
    have done : found.sets[rows.size]? = none :=
      Array.getElem?_eq_none (Nat.le_trans exploration.bounded enough)
    cases more with
    | zero => rfl
    | succ more => simp only [explore, done]
  | succ fuel ih =>
    rw [Nat.add_right_comm, explore, explore]
    cases place : found.sets[rows.size]? with
    | none => rfl
    | some set =>
      simp only
      cases numbered : found.numberAll limit (m.moves m.alphabet set) with
      | error e => rfl
      | ok pair =>
        obtain ⟨targets, after⟩ := pair
        apply ih (exploration.next place numbered)
        rw [Array.size_push]
        omega

theorem Exploration.complete (exploration : Exploration m limit found rows)
    (whole : found.sets.size ≤ rows.size) {states : List Nat} (obtained : m.Obtained states) :
    states ∈ found.sets := by
  induction obtained with
  | first => exact Array.mem_of_getElem? exploration.subsets.first
  | @next states next b _ reached ih =>
    obtain ⟨i, place⟩ := Array.getElem?_of_mem ih
    obtain ⟨row, -, -, targets⟩ := exploration.subsets.target whole place
    have leads := targets b
    rw [reached] at leads
    obtain ⟨number, -, j, located, -⟩ := leads
    exact Array.mem_of_getElem? located

theorem Exploration.size_eq (exploration : Exploration m limit found rows)
    (whole : found.sets.size ≤ rows.size) : rows.size = found.sets.size := by
  refine Nat.le_antisymm (Nat.not_lt.mp fun more => ?_) whole
  obtain ⟨set, targets, place, -⟩ := exploration.subsets.row found.sets.size more
  exact absurd (Array.getElem?_eq_some_iff.mp place).1 (Nat.lt_irrefl _)

/-! ## Following a word -/

def row? (d : Dfa) : Nat → Option Row
  | 0 => none
  | i + 1 => d.rows[i]?

/-- The state that a symbol leads to, if there is a transition. -/
def step? (d : Dfa) (state : Nat) (b : UInt8) : Option Nat :=
  (d.row? state).bind fun row => row.targets.lookup b

def follow (d : Dfa) (w : List UInt8) : Option Nat := w.foldlM d.step? initial

theorem row?_initial (d : Dfa) (i : Nat) : d.row? (initial + i) = d.rows[i]? := by
  rw [initial, Nat.add_comm]
  rfl

theorem follow_snoc (d : Dfa) (w : List UInt8) (b : UInt8) :
    d.follow (w ++ [b]) = (d.follow w).bind (d.step? · b) := by
  simp [follow, List.foldlM_append]

theorem mem_symbols_of_follow {w : List UInt8} {b : UInt8} {state : Nat}
    (followed : d.follow (w ++ [b]) = some state) : b ∈ d.symbols := by
  rw [follow_snoc] at followed
  obtain ⟨source, -, step⟩ := Option.bind_eq_some_iff.mp followed
  obtain ⟨row, located, lookup⟩ := Option.bind_eq_some_iff.mp step
  by_contra unread
  cases source with
  | zero => cases located
  | succ i =>
    rw [Automaton.lookup_of_not_symbol (Array.mem_of_getElem? located) unread] at lookup
    cases lookup

theorem follow_holds (edges : m.EdgesInside) (start : m.start < m.edges.size)
    {sets : Array (List Nat)} (subsets : Subsets m sets d.rows) (whole : sets.size ≤ d.rows.size)
    (w : List UInt8) :
    match d.follow w with
    | none => ∀ t, ¬ m.Path m.start w t
    | some state => ∃ set, Numbered sets set state ∧ m.Holding set w := by
  induction w using List.reverseRecOn with
  | nil => exact ⟨_, ⟨0, subsets.first, rfl⟩, Nfa.holding_first edges start⟩
  | append_singleton w b ih =>
    rw [follow_snoc]
    cases followed : d.follow w with
    | none =>
      rw [followed] at ih
      intro t path
      obtain ⟨u, first, -⟩ := path.split
      exact ih u first
    | some state =>
      rw [followed] at ih
      obtain ⟨set, ⟨i, place, rfl⟩, holding⟩ := ih
      obtain ⟨row, located, -, targets⟩ := subsets.target whole place
      have leads := targets b
      simp only [Option.bind_some, step?, row?_initial, located]
      cases reached : m.reached set b with
      | none =>
        rw [reached] at leads
        rw [leads]
        exact holding.stuck reached
      | some next =>
        rw [reached] at leads
        obtain ⟨number, lookup, numbered⟩ := leads
        rw [lookup]
        exact ⟨next, numbered, holding.next edges reached⟩

/-- The automaton has one state for each set that words lead to. Along every word it leads to the
state of the set that the word leads to, and nowhere if that is empty. -/
def Determinizes (d : Dfa) (m : Nfa) : Prop :=
  ∃ sets : List (Set Nat), sets.Nodup ∧ (∀ set, set ∈ sets ↔ m.Subset set) ∧
    d.rows.size = sets.length ∧ ∀ w,
      (d.follow w = none ↔ ∀ t, ¬ m.Path m.start w t) ∧
      ∀ state, d.follow w = some state → ∃ i row, state = initial + i ∧
        sets[i]? = some {t | m.Path m.start w t} ∧ d.row? state = some row ∧
        (row.accepting = true ↔ m.Accepts w)

theorem determinizes_of_ok (edges : m.EdgesInside) (start : m.start < m.edges.size)
    (positive : 0 < limit) (built : ofNfa m limit = .ok d) : d.Determinizes m := by
  obtain ⟨found, exploration, whole⟩ := ofNfa_ok positive built
  refine ⟨found.sets.toList.map Nfa.members, ?_, ?_, ?_, ?_⟩
  · exact Nfa.nodup_members exploration.consistent.nodup fun states member =>
      exploration.obtained states (by simpa using member)
  · intro set
    constructor
    · intro member
      obtain ⟨states, inside, rfl⟩ := List.mem_map.mp member
      exact (exploration.obtained states (by simpa using inside)).subset edges start
    · intro subset
      obtain ⟨states, obtained, rfl⟩ := subset.obtained edges start
      exact List.mem_map_of_mem (by simpa using exploration.complete whole obtained)
  · simpa using exploration.size_eq whole
  · intro w
    have leads := follow_holds edges start exploration.subsets whole w
    cases followed : d.follow w with
    | none =>
      rw [followed] at leads
      exact ⟨iff_of_true rfl leads, nofun⟩
    | some state =>
      rw [followed] at leads
      obtain ⟨set, ⟨i, place, rfl⟩, holding⟩ := leads
      obtain ⟨row, located, accepting, -⟩ := exploration.subsets.target whole place
      have reaches : Nfa.members set = {t | m.Path m.start w t} := Set.ext holding
      have subset := (exploration.obtained set (Array.mem_of_getElem? place)).subset edges start
      refine ⟨iff_of_false nofun ?_, ?_⟩
      · obtain ⟨t, member⟩ := subset.nonempty
        exact fun nothing => nothing t ((holding t).mp member)
      · intro state same
        obtain rfl := Option.some.inj same
        refine ⟨i, row, rfl, ?_, ?_, ?_⟩
        · simp [place, reaches]
        · rw [row?_initial, located]
        · rw [accepting, List.contains_iff_mem]
          exact holding m.accept

theorem Determinizes.size (determinizes : d.Determinizes m) : d.rows.size = m.subsetCount := by
  obtain ⟨sets, distinct, all, size, -⟩ := determinizes
  rw [size, Nfa.subsetCount_eq distinct all]

theorem ofNfa_error_iff (edges : m.EdgesInside) (start : m.start < m.edges.size)
    (positive : 0 < limit) (e : Error) :
    ofNfa m limit = .error e ↔ e = .tooManyStates (limit + 1) limit ∧ limit < m.subsetCount := by
  have necessary : ∀ cause, ofNfa m limit = .error cause →
      cause = .tooManyStates (limit + 1) limit ∧ limit < m.subsetCount := by
    intro cause failed
    unfold ofNfa at failed
    split at failed
    · rename_i refusal explored
      obtain rfl := Except.error.inj failed
      obtain ⟨same, lists, distinct, length, obtained⟩ :=
        explore_error (exploration_first m positive) explored
      refine ⟨same, ?_⟩
      have more := Nfa.length_le_subsetCount edges start (Nfa.nodup_members distinct obtained) ?_
      · rw [List.length_map, length] at more
        exact more
      · intro set member
        obtain ⟨states, inside, rfl⟩ := List.mem_map.mp member
        exact (obtained states inside).subset edges start
    · cases failed
  constructor
  · exact necessary e
  · rintro ⟨rfl, many⟩
    cases built : ofNfa m limit with
    | error cause => rw [(necessary cause built).1]
    | ok d =>
      -- An automaton that is built has a row for each set, and no more rows than the limit.
      obtain ⟨found, exploration, whole⟩ := ofNfa_ok positive built
      have size := (determinizes_of_ok edges start positive built).size
      have few := exploration.bounded
      rw [← exploration.size_eq whole, size] at few
      exact absurd many (Nat.not_lt.mpr few)

end Dfa

/-! ## The compiler -/

theorem Expr.matches_some (e : Expr) : ∃ b w, e.Matches (b :: w) := by
  induction e with
  | symbol b => exact ⟨b, [], .symbol⟩
  | concat l r ihl ihr =>
    obtain ⟨b, v, left⟩ := ihl
    obtain ⟨c, w, right⟩ := ihr
    exact ⟨b, v ++ c :: w, .concat left right⟩
  | either l r ihl ihr =>
    obtain ⟨b, w, left⟩ := ihl
    exact ⟨b, w, .left left⟩
  | star e ih =>
    obtain ⟨b, w, body⟩ := ih
    exact ⟨b, w, by simpa using Matches.starMore body .starNil⟩
  | optional e ih =>
    obtain ⟨b, w, body⟩ := ih
    exact ⟨b, w, .optionalSome body⟩

/-- Every expression has a word to read, and so its automaton has a symbol. -/
theorem Automaton.exists_ofDfa {e : Expr} {d : Dfa} (determinizes : d.Determinizes (Nfa.ofExpr e)) :
    ∃ p, Automaton.ofDfa d = .ok p := by
  obtain ⟨b, w, matched⟩ := e.matches_some
  obtain ⟨t, path, -⟩ := Nfa.Path.split (v := [b]) (Nfa.ofExpr_accepts.mpr matched)
  obtain ⟨sets, -, -, -, words⟩ := determinizes
  have read : b ∈ d.symbols := by
    cases followed : d.follow ([] ++ [b]) with
    | none => exact absurd path ((words [b]).1.mp followed t)
    | some state => exact Dfa.mem_symbols_of_follow followed
  have some : ¬ d.symbols.isEmpty = true := by
    rw [List.isEmpty_iff]
    exact List.ne_nil_of_mem read
  exact ⟨_, if_neg some⟩

theorem Automaton.length_of_compile {source : List UInt8} {p : Automaton}
    (compiled : Automaton.compile source = .ok p) : source.length ≤ maxSourceSize := by
  unfold Automaton.compile at compiled
  split at compiled
  · cases compiled
  · rename_i short
    exact Nat.not_lt.mp short

theorem Automaton.exists_compile_iff (source : List UInt8) :
    (∃ p, Automaton.compile source = .ok p) ↔
      source.length ≤ maxSourceSize ∧ ∃ e, Derives .expr source e ∧
        (Nfa.ofExpr e).subsetCount ≤ maxStates := by
  have positive : 0 < maxStates := by decide
  constructor
  · rintro ⟨p, compiled⟩
    obtain ⟨e, d, parsed, built, -⟩ := Automaton.compile_ok compiled
    refine ⟨length_of_compile compiled, e, derives_of_parse parsed, ?_⟩
    by_contra many
    have formed := Nfa.ofExpr_wellFormed e
    rw [(Dfa.ofNfa_error_iff formed.edges formed.1 positive _).mpr ⟨rfl, Nat.not_le.mp many⟩]
      at built
    cases built
  · rintro ⟨short, e, derives, few⟩
    have formed := Nfa.ofExpr_wellFormed e
    cases built : Dfa.ofNfa (Nfa.ofExpr e) maxStates with
    | error cause =>
      have many := ((Dfa.ofNfa_error_iff formed.edges formed.1 positive cause).mp built).2
      exact absurd many (Nat.not_lt.mpr few)
    | ok d =>
      obtain ⟨p, made⟩ :=
        exists_ofDfa (Dfa.determinizes_of_ok formed.edges formed.1 positive built)
      refine ⟨p, ?_⟩
      rw [Automaton.compile, if_neg (Nat.not_lt.mpr short), parse_of_derives derives]
      simp only [built, made]

/-- If the edges of an automaton stay within its states, finitely many sets of states are reached.
The construction explores them all if there are no more than the limit, and then it makes a state
for each; else it fails with one more than the limit. More fuel changes nothing. So an expression
is compiled just if it is short enough, has a tree, and reaches no more sets than the most states
of a policy. -/
theorem Dfa.ofNfa_exact :
    (∀ (m : Nfa) (limit : Nat), m.EdgesInside → m.start < m.edges.size → 1 ≤ limit →
      {set | m.Subset set}.Finite ∧
      (∀ fuel, limit ≤ fuel →
        explore m m.alphabet limit fuel (.ofFirst (m.closure [m.start])) #[] =
          explore m m.alphabet limit limit (.ofFirst (m.closure [m.start])) #[]) ∧
      (∀ e, ofNfa m limit = .error e ↔
        e = .tooManyStates (limit + 1) limit ∧ limit < m.subsetCount) ∧
      ∀ d, ofNfa m limit = .ok d → d.rows.size = m.subsetCount ∧ d.Determinizes m) ∧
    ∀ source, (∃ p, Automaton.compile source = .ok p) ↔
      source.length ≤ 4096 ∧ ∃ e, Derives .expr source e ∧
        (Nfa.ofExpr e).subsetCount ≤ 65535 := by
  refine ⟨?_, Automaton.exists_compile_iff⟩
  intro m limit edges start positive
  refine ⟨Nfa.finite_subsets edges start, ?_, ofNfa_error_iff edges start positive, ?_⟩
  · intro fuel enough
    obtain ⟨more, rfl⟩ := Nat.exists_eq_add_of_le enough
    exact explore_fuel (exploration_first m positive) (Nat.le_add_left ..) more
  · intro d built
    have determinizes := determinizes_of_ok edges start positive built
    exact ⟨determinizes.size, determinizes⟩

/-- A state that reads `R` into itself and into another one: `R` tells two sets apart. -/
theorem Dfa.ofNfa_exact_two_sets :
    let m : Nfa := ⟨#[[(.symbol 0x52, 0), (.symbol 0x52, 1)], []], 0, 1⟩
    m.subsetCount = 2 ∧ ofNfa m 1 = .error (.tooManyStates 2 1) ∧
      ∃ d, ofNfa m 2 = .ok d ∧ d.Determinizes m ∧ d.follow [0x52, 0x52] = some 2 := by
  intro m
  have edges : m.EdgesInside := by
    intro source label target edge
    have read : (label, target) ∈ [(Label.symbol 0x52, 0), (Label.symbol 0x52, 1)] := by
      rcases source with _ | _ | source
      · exact edge
      · cases edge
      · cases edge
    simp only [List.mem_cons, Prod.mk.injEq, List.not_mem_nil, or_false] at read
    show target < 2
    omega
  have start : m.start < m.edges.size := by decide
  obtain ⟨-, -, -, determined⟩ := ofNfa_exact.1 m 2 edges start (by decide)
  obtain ⟨-, -, refused, -⟩ := ofNfa_exact.1 m 1 edges start (by decide)
  have built : (ofNfa m 2).toOption = some ⟨#[⟨[(0x52, 2)], false⟩, ⟨[(0x52, 2)], true⟩]⟩ := by
    decide +kernel
  obtain ⟨size, determinizes⟩ := determined _ (ok_of_toOption built)
  have two : m.subsetCount = 2 := size.symm
  have more : 1 < m.subsetCount := by
    rw [two]
    decide
  exact ⟨two, (refused _).mpr ⟨rfl, more⟩, _, ok_of_toOption built, determinizes, rfl⟩

end PolicyVault.Policy
