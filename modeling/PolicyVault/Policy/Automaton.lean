import PolicyVault.Policy.Dfa
import PolicyVault.Policy.Parser
import PolicyVault.Text.Quoted

/-!
# Compiled policies

A compiled policy is one dense table with a row for the sink and for each state of the
deterministic automaton, and a column for each symbol of the expression. Every other byte leads
to the sink.
-/

namespace PolicyVault.Policy

/-- The longest expression that is compiled, in bytes. -/
def maxSourceSize : Nat := 4096

/-- The most states that a compiled policy has beside the sink. -/
def maxStates : Nat := 65535

/-- The table entry of a byte that is no symbol of the policy. -/
def unmapped : Nat := 255

/-- A compiled policy: its symbols in ascending order, its table row by row, and which states
accept. -/
structure Automaton where
  symbols : List UInt8
  table : Array Nat
  accepting : Array Bool
  deriving DecidableEq, Repr

namespace Automaton

/-- The number of symbols, which is the width of the table. -/
def symbolCount (p : Automaton) : Nat :=
  p.symbols.length

/-- The number of states, the sink included. -/
def stateCount (p : Automaton) : Nat :=
  p.table.size / p.symbolCount

def symbolOf (p : Automaton) (b : UInt8) : Option Nat :=
  p.symbols.idxOf? b

def mapped (p : Automaton) : List (UInt8 × Nat) :=
  p.symbols.zipIdx

def next (p : Automaton) (state : Nat) (b : UInt8) : Nat :=
  match p.symbolOf b with
  | none => sink
  | some symbol => p.table.getD (state * p.symbolCount + symbol) sink

def run (p : Automaton) (state : Nat) (w : List UInt8) : Nat :=
  w.foldl p.next state

/-- Whether the word that led to `state` is a whole word of the policy. -/
def isAccepting (p : Automaton) (state : Nat) : Bool :=
  p.accepting.getD state false

def ofDfa (d : Dfa) : Except Error Automaton :=
  let symbols := d.symbols
  if symbols.isEmpty then .error .noActiveSymbols
  else
    .ok {
      symbols := symbols
      table := (symbols.map fun _ => sink).toArray ++
        d.rows.flatMap fun row => (symbols.map row.target).toArray
      accepting := #[false] ++ d.rows.map (·.accepting) }

def compile (source : List UInt8) : Except Error Automaton :=
  if maxSourceSize < source.length then .error (.tooLong source.length maxSourceSize)
  else
    match Expr.parse source with
    | .error e => .error e
    | .ok e =>
      match Dfa.ofNfa (Nfa.ofExpr e) maxStates with
      | .error e => .error e
      | .ok d => ofDfa d

def describe (p : Automaton) : String :=
  let entry (b : UInt8) (column : Nat) := Text.quotedChar (Text.latin1 b) ++ s!": {column}"
  let entries := p.mapped.map fun (b, column) => entry b column
  s!"CompiledPolicy \x7b symbol_count: {p.symbolCount}, states: {p.stateCount}, alphabet: \x7b"
    ++ ", ".intercalate entries ++ "\x7d, .. \x7d"

end Automaton

end PolicyVault.Policy
