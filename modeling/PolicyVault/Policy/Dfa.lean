import Std.Data.TreeMap
import PolicyVault.Policy.Error
import PolicyVault.Policy.Nfa

/-!
# Deterministic automata

The states of the deterministic automaton are the sets of states that a word can lead the
automaton with empty edges to. They are numbered from 1 in the order in which they are found:
breadth first, and out of each state by ascending symbol. The empty set is never a state of its
own; it is the sink, 0.
-/

namespace PolicyVault.Policy

/-- The state that no word leads out of. -/
def sink : Nat := 0

def initial : Nat := 1

/-- A state of a deterministic automaton: where its symbols lead, and whether it accepts. -/
structure Dfa.Row where
  targets : List (UInt8 × Nat)
  accepting : Bool
  deriving DecidableEq, Repr

/-- A deterministic automaton. Row `i` belongs to state `i + 1`. -/
structure Dfa where
  rows : Array Dfa.Row
  deriving DecidableEq, Repr

namespace Dfa

/-- The sets found so far, in order of discovery, with the number of each. -/
structure Discovery where
  sets : Array (List Nat)
  numbers : Std.TreeMap (List Nat) Nat

def Discovery.ofFirst (set : List Nat) : Discovery where
  sets := #[set]
  numbers := (∅ : Std.TreeMap (List Nat) Nat).insert set initial

/-- The number of a set, which is new if it was not found before. -/
def Discovery.number (found : Discovery) (limit : Nat) (set : List Nat) :
    Except Error (Nat × Discovery) :=
  match found.numbers[set]? with
  | some number => .ok (number, found)
  | none =>
    if limit ≤ found.sets.size then .error (.tooManyStates (found.sets.size + 1) limit)
    else
      let number := initial + found.sets.size
      .ok (number, ⟨found.sets.push set, found.numbers.insert set number⟩)

/-- The numbers of the sets that the symbols of one row lead to. -/
def Discovery.numberAll (found : Discovery) (limit : Nat) :
    List (UInt8 × List Nat) → Except Error (List (UInt8 × Nat) × Discovery)
  | [] => .ok ([], found)
  | (b, set) :: rest =>
    match found.number limit set with
    | .error e => .error e
    | .ok (number, found) =>
      match found.numberAll limit rest with
      | .error e => .error e
      | .ok (targets, found) => .ok ((b, number) :: targets, found)

/-- Adds the row of each set found, in order, until no set is left. At most `fuel` rows are added,
and `limit` rows are always enough. -/
def explore (m : Nfa) (symbols : List UInt8) (limit : Nat) :
    (fuel : Nat) → Discovery → Array Row → Except Error (Array Row)
  | 0, _, rows => .ok rows
  | fuel + 1, found, rows =>
    match found.sets[rows.size]? with
    | none => .ok rows
    | some set =>
      match found.numberAll limit (m.moves symbols set) with
      | .error e => .error e
      | .ok (targets, found) =>
        explore m symbols limit fuel found (rows.push ⟨targets, set.contains m.accept⟩)

/-- The deterministic automaton of an automaton with empty edges. It may have up to `limit`
states. -/
def ofNfa (m : Nfa) (limit : Nat) : Except Error Dfa :=
  match explore m m.alphabet limit limit (.ofFirst (m.closure [m.start])) #[] with
  | .error e => .error e
  | .ok rows => .ok ⟨rows⟩

/-- The symbols that some state reads, in ascending order. -/
def symbols (d : Dfa) : List UInt8 :=
  Nfa.allBytes.filter fun b => d.rows.any fun row => row.targets.any fun edge => edge.1 == b

/-- The state that a symbol leads to, the sink if none. -/
def Row.target (row : Row) (b : UInt8) : Nat :=
  (row.targets.lookup b).getD sink

end Dfa

end PolicyVault.Policy
