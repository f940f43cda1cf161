import PolicyVault.Policy.Book

/-!
# Monitors

A monitor follows the accesses to one allocation through the automaton of the policy it is bound
to. It rejects as soon as it is in the sink, and it remembers the state before the last step. A
bound monitor counts as one binding of its policy, from binding to unbinding or discarding.
-/

namespace PolicyVault.Policy

inductive Access
  | read
  | write
  deriving DecidableEq, Repr

def Access.symbol : Access → UInt8
  | .read => 0x52
  | .write => 0x57

def Access.name : Access → String
  | .read => "Read"
  | .write => "Write"

inductive Verdict
  | allowed
  | rejected
  deriving DecidableEq, Repr

/-- A running monitor. A duplicate of a note has a mark at its end. -/
structure Monitor where
  policy : Option Nat
  current : Nat
  previous : Nat
  note : Option String
  deriving DecidableEq, Repr

namespace Monitor

/-- A monitor bound to a policy of the book, before its first step. -/
def bind (book : Book) (policy : Nat) : Except Error (Monitor × Book) :=
  match book.acquire policy with
  | .error e => .error e
  | .ok book => .ok (⟨some policy, initial, sink, none⟩, book)

/-- Releases the policy and parks the monitor in the sink. -/
def unbind (m : Monitor) (book : Book) : Except Error (Monitor × Book) :=
  match m.policy with
  | none => .error .notBound
  | some policy =>
    .ok ({ m with policy := none, current := sink, previous := sink }, book.release policy)

def isBound (m : Monitor) : Bool :=
  m.policy.isSome

def loaded? (m : Monitor) (book : Book) : Option Loaded :=
  m.policy.bind fun policy => book[policy]?

def policyText? (m : Monitor) (book : Book) : Option String :=
  (m.loaded? book).map Loaded.text

/-- Steps on a byte. A monitor that is not bound steps into the sink. -/
def step (m : Monitor) (book : Book) (b : UInt8) : Monitor :=
  let next :=
    match m.loaded? book with
    | some p => p.automaton.next m.current b
    | none => sink
  { m with current := next, previous := m.current }

def stepAccess (m : Monitor) (book : Book) (access : Access) : Monitor :=
  m.step book access.symbol

/-- Allowed outside the sink, rejected in it. -/
def verdict (m : Monitor) : Verdict :=
  if m.current = sink then .rejected else .allowed

/-- Returns to the state before the last step, which is forgotten. -/
def stepBack (m : Monitor) : Monitor :=
  { m with current := m.previous, previous := sink }

/-- Starts over, if the monitor is bound. -/
def reload (m : Monitor) : Monitor :=
  if m.isBound then { m with current := initial, previous := sink } else m

/-- Parks the monitor in the sink with no way back. -/
def invalidate (m : Monitor) : Monitor :=
  { m with current := sink, previous := sink }

def setNote (m : Monitor) (note : String) : Monitor :=
  { m with note := some note }

/-- A second monitor in the same state with a binding of its own. -/
def duplicate (m : Monitor) (book : Book) : Monitor × Book :=
  let book :=
    match m.policy with
    | some policy => book.retain policy
    | none => book
  ({ m with note := m.note.map (·.push '@') }, book)

def discard (m : Monitor) (book : Book) : Book :=
  match m.policy with
  | some policy => book.release policy
  | none => book

def describe (m : Monitor) (book : Book) : String :=
  let policy :=
    match m.policyText? book with
    | some text => "Some(" ++ Text.quotedText text ++ ")"
    | none => "None"
  s!"AccessState \x7b policy: {policy}, current: {m.current}, previous: {m.previous} \x7d"

/-! ## Steps and verdicts -/

variable {m : Monitor} {book : Book} {policy : Nat} {p : Loaded}

theorem step_bound (bound : m.policy = some policy) (found : book[policy]? = some p) (b : UInt8) :
    m.step book b = { m with current := p.automaton.next m.current b, previous := m.current } := by
  simp only [step, loaded?, bound, Option.bind_some, found]

theorem step_unbound (unbound : m.policy = none) (book : Book) (b : UInt8) :
    m.step book b = { m with current := sink, previous := m.current } := by
  simp only [step, loaded?, unbound, Option.bind_none]

theorem allowed_iff : m.verdict = .allowed ↔ m.current ≠ sink := by
  simp [verdict]

theorem rejected_iff : m.verdict = .rejected ↔ m.current = sink := by
  simp [verdict]

end Monitor

end PolicyVault.Policy
