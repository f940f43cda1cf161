import PolicyVault.Policy.Expr

/-!
# Automata with empty edges

The automaton of an expression has one start and one accepting state, and each part of the
expression becomes a fragment with a start and an accepting state of its own. A word is accepted
along a path from start to accept that reads it; empty edges are free.

`Nfa.closure` collects the states that empty edges reach. It works in layers: each layer holds
the states that the one before reaches for the first time.
-/

namespace PolicyVault.Policy

/-- What an edge reads. -/
inductive Label
  | empty
  | symbol (byte : UInt8)
  deriving DecidableEq, Repr

/-- An automaton over bytes, given by the edges that leave each state. -/
structure Nfa where
  edges : Array (List (Label × Nat))
  start : Nat
  accept : Nat
  deriving Repr

namespace Nfa

def outgoing (m : Nfa) (state : Nat) : List (Label × Nat) :=
  m.edges.getD state []

def Edge (m : Nfa) (source : Nat) (label : Label) (target : Nat) : Prop :=
  (label, target) ∈ m.outgoing source

/-- Start, accept and all edges stay within the states. -/
def WellFormed (m : Nfa) : Prop :=
  m.start < m.edges.size ∧ m.accept < m.edges.size ∧
    ∀ source label target, m.Edge source label target → target < m.edges.size

/-- A path that reads a word. -/
inductive Path (m : Nfa) : Nat → List UInt8 → Nat → Prop
  | refl {s} : Path m s [] s
  | empty {s t u w} : m.Edge s .empty t → Path m t w u → Path m s w u
  | symbol {s t u b w} : m.Edge s (.symbol b) t → Path m t w u → Path m s (b :: w) u

/-- The words read from start to accept. -/
def Accepts (m : Nfa) (w : List UInt8) : Prop :=
  m.Path m.start w m.accept

/-! ## The automaton of an expression -/

structure Arc where
  source : Nat
  label : Label
  target : Nat
  deriving DecidableEq, Repr

structure Fragment where
  start : Nat
  accept : Nat
  arcs : List Arc
  deriving DecidableEq, Repr

def stateCount : Expr → Nat
  | .symbol _ => 2
  | .concat l r => stateCount l + stateCount r
  | .either l r => stateCount l + stateCount r + 2
  | .star e | .optional e => stateCount e + 2

/-- The fragment of an expression, whose states are numbered from `base` on. -/
def fragment : Expr → Nat → Fragment
  | .symbol b, base => ⟨base, base + 1, [⟨base, .symbol b, base + 1⟩]⟩
  | .concat l r, base =>
    let left := fragment l base
    let right := fragment r (base + stateCount l)
    ⟨left.start, right.accept, ⟨left.accept, .empty, right.start⟩ :: left.arcs ++ right.arcs⟩
  | .either l r, base =>
    let left := fragment l base
    let right := fragment r (base + stateCount l)
    let start := base + stateCount l + stateCount r
    let accept := start + 1
    ⟨start, accept,
      ⟨start, .empty, left.start⟩ :: ⟨start, .empty, right.start⟩ ::
        ⟨left.accept, .empty, accept⟩ :: ⟨right.accept, .empty, accept⟩ ::
        left.arcs ++ right.arcs⟩
  | .star e, base =>
    let body := fragment e base
    let start := base + stateCount e
    let accept := start + 1
    ⟨start, accept,
      ⟨start, .empty, body.start⟩ :: ⟨start, .empty, accept⟩ ::
        ⟨body.accept, .empty, body.start⟩ :: ⟨body.accept, .empty, accept⟩ :: body.arcs⟩
  | .optional e, base =>
    let body := fragment e base
    let start := base + stateCount e
    let accept := start + 1
    ⟨start, accept,
      ⟨start, .empty, body.start⟩ :: ⟨start, .empty, accept⟩ ::
        ⟨body.accept, .empty, accept⟩ :: body.arcs⟩

def ofArcs (size : Nat) (start accept : Nat) (arcs : List Arc) : Nfa where
  edges := arcs.foldl (fun edges arc => edges.modify arc.source ((arc.label, arc.target) :: ·))
    (Array.replicate size [])
  start := start
  accept := accept

def ofExpr (e : Expr) : Nfa :=
  let whole := fragment e 0
  ofArcs (stateCount e) whole.start whole.accept whole.arcs

/-! ## States reached for free -/

abbrev Marks := Array Bool

/-- How many states are not reached yet. -/
def Marks.open (marks : Marks) : Nat :=
  marks.count false

/-- Marks a state, and keeps it if it was not marked before. -/
def Marks.visit (found : Marks × List Nat) (state : Nat) : Marks × List Nat :=
  match h : found.1[state]? with
  | some false =>
    (found.1.set state true (by grind), state :: found.2)
  | _ => found

/-- Each state kept by `visit` was open before. -/
theorem Marks.open_visit (found : Marks × List Nat) (state : Nat) :
    (visit found state).1.open + (visit found state).2.length =
      found.1.open + found.2.length := by
  unfold visit
  split
  · rename_i h
    obtain ⟨bound, value⟩ := Array.getElem?_eq_some_iff.mp h
    have positive : 0 < found.1.count false :=
      Array.count_pos_iff.mpr (value ▸ Array.getElem_mem bound)
    simp [Marks.open, Array.count_set, value]
    omega
  · rfl

/-- Each state kept by a run of `visit` was open before. -/
theorem Marks.open_visitAll (states : List Nat) (found : Marks × List Nat) :
    (states.foldl visit found).1.open + (states.foldl visit found).2.length =
      found.1.open + found.2.length := by
  induction states generalizing found with
  | nil => rfl
  | cons state states ih => rw [List.foldl_cons, ih, open_visit]

/-- The marked states below `n`, in ascending order, in front of `above`. -/
def Marks.toStates (marks : Marks) : (n : Nat) → (above : List Nat) → List Nat
  | 0, above => above
  | n + 1, above => marks.toStates n (if marks.getD n false then n :: above else above)

def emptyTargets (m : Nfa) (state : Nat) : List Nat :=
  (m.outgoing state).filterMap fun edge =>
    match edge.1 with
    | .empty => some edge.2
    | .symbol _ => none

/-- The marks after one layer, and the layer that it reaches for the first time. -/
def nextLayer (m : Nfa) (marks : Marks) (layer : List Nat) : Marks × List Nat :=
  (layer.flatMap m.emptyTargets).foldl Marks.visit (marks, [])

/-- Marks all that empty edges reach from the layer of states reached last. -/
def spread (m : Nfa) (marks : Marks) (layer : List Nat) : Marks :=
  let next := m.nextLayer marks layer
  if next.2.isEmpty then next.1 else spread m next.1 next.2
termination_by marks.open
decreasing_by
  have kept := Marks.open_visitAll (layer.flatMap m.emptyTargets) (marks, [])
  rename_i nonempty
  have : 0 < next.2.length := by
    simpa [List.length_pos_iff] using nonempty
  simp only [next, nextLayer, List.length_nil] at *
  omega

/-- The states that empty edges reach from `states`, in ascending order. -/
def closure (m : Nfa) (states : List Nat) : List Nat :=
  let first := states.foldl Marks.visit (Array.replicate m.edges.size false, [])
  let marks := m.spread first.1 first.2
  marks.toStates marks.size []

/-! ## Moves -/

def symbolEdges (m : Nfa) (states : List Nat) : List (UInt8 × Nat) :=
  states.flatMap fun state => (m.outgoing state).filterMap fun edge =>
    match edge.1 with
    | .empty => none
    | .symbol b => some (b, edge.2)

/-- All bytes, in ascending order. -/
def allBytes : List UInt8 :=
  (List.range 256).map UInt8.ofNat

/-- The symbols on the edges of an automaton, in ascending order. -/
def alphabet (m : Nfa) : List UInt8 :=
  let edges := m.symbolEdges (List.range m.edges.size)
  allBytes.filter fun b => edges.any fun edge => edge.1 == b

/-- For each of `symbols` that some edge out of `states` reads, the states it leads to. -/
def moves (m : Nfa) (symbols : List UInt8) (states : List Nat) : List (UInt8 × List Nat) :=
  let edges := m.symbolEdges states
  symbols.filterMap fun b =>
    match (edges.filter fun edge => edge.1 == b).map (·.2) with
    | [] => none
    | targets => some (b, m.closure targets)

end Nfa

end PolicyVault.Policy
