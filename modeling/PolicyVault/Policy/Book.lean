import PolicyVault.Policy.Automaton

/-!
# Loaded policies

A loaded policy counts the monitors bound to it. It can be retired once none is left, and a
retired policy is never bound again. The policies of one owner form a book, which numbers them
from 0.
-/

namespace PolicyVault.Policy

structure Loaded where
  source : List UInt8
  automaton : Automaton
  bindings : Nat
  retired : Bool
  deriving DecidableEq, Repr

namespace Loaded

def load (source : List UInt8) : Except Error Loaded :=
  match Automaton.compile source with
  | .error e => .error e
  | .ok automaton => .ok ⟨source, automaton, 0, false⟩

def text (p : Loaded) : String :=
  Text.latin1Text p.source

/-- Retires the policy, unless a monitor is bound to it. -/
def retire (p : Loaded) : Except Error Loaded :=
  if p.bindings = 0 then .ok { p with retired := true } else .error (.inUse p.bindings)

/-- Counts a new binding, unless the policy is retired. -/
def acquire (p : Loaded) : Except Error Loaded :=
  if p.retired then .error .retired else .ok { p with bindings := p.bindings + 1 }

def retain (p : Loaded) : Loaded :=
  { p with bindings := p.bindings + 1 }

def release (p : Loaded) : Loaded :=
  { p with bindings := p.bindings - 1 }

def describe (p : Loaded) : String :=
  "PolicyDescriptor \x7b comment: " ++ Text.quotedText p.text
    ++ s!", ref_count: {p.bindings}, policy: " ++ p.automaton.describe ++ " \x7d"

end Loaded

/-- The policies of one owner, by number. -/
abbrev Book := List Loaded

namespace Book

/-- Compiles expressions in order. The first that fails is reported with its number. -/
def load (sources : List (List UInt8)) : Except (Nat × Error) Book :=
  go 0 sources
where
  go (index : Nat) : List (List UInt8) → Except (Nat × Error) Book
    | [] => .ok []
    | source :: rest =>
      match Loaded.load source with
      | .error e => .error (index, e)
      | .ok p =>
        match go (index + 1) rest with
        | .error e => .error e
        | .ok book => .ok (p :: book)

def acquire (book : Book) (policy : Nat) : Except Error Book :=
  match book[policy]? with
  | none => .error .retired
  | some p =>
    match p.acquire with
    | .error e => .error e
    | .ok p => .ok (book.set policy p)

def retain (book : Book) (policy : Nat) : Book :=
  book.modify policy Loaded.retain

def release (book : Book) (policy : Nat) : Book :=
  book.modify policy Loaded.release

def retire (book : Book) (policy : Nat) : Except Error Book :=
  match book[policy]? with
  | none => .error .retired
  | some p =>
    match p.retire with
    | .error e => .error e
    | .ok p => .ok (book.set policy p)

/-- Retires all policies that nothing is bound to, and reports the others in order. -/
def retireAll : Book → Book × List Error
  | [] => ([], [])
  | p :: rest =>
    let (rest, failures) := retireAll rest
    match p.retire with
    | .ok p => (p :: rest, failures)
    | .error e => (p :: rest, e :: failures)

def text? (book : Book) (policy : Nat) : Option String :=
  (book[policy]?).map Loaded.text

end Book

end PolicyVault.Policy
