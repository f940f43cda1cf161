import PolicyVault.Text.Fields
import PolicyVault.Text.Numeral
import PolicyVault.Text.Utf8

/-!
# Snapshots

A snapshot shows a vault to an operator: sizes, policies and segments, but no stored byte. It
travels as text. Each value ends with a field mark, except the last of each segment, which ends
with a record mark; one more record mark ends the text. The policies are counted in front, and the
first segment follows them directly.
-/

namespace PolicyVault

/-- A policy of a vault: its expression, and how many monitors are bound to it. -/
structure Snapshot.PolicyEntry where
  text : String
  bindings : UInt64
  deriving DecidableEq, Repr

/-- A segment of a vault, with the policy and the state of its monitor. -/
structure Snapshot.SegmentEntry where
  offset : UInt64
  last : UInt64
  size : UInt64
  used : Bool
  policy : Option String
  state : Option UInt32
  deriving DecidableEq, Repr

structure Snapshot where
  pid : UInt32
  arenaSize : UInt64
  usedBytes : UInt64
  locked : Bool
  policies : List Snapshot.PolicyEntry
  segments : List Snapshot.SegmentEntry
  deriving DecidableEq, Repr

namespace Snapshot

def fieldMark : Char := '\x1c'

def recordMark : Char := '\x1e'

/-! ## Writing -/

def numberField (n : Nat) : List Char :=
  (toString n).toList ++ [fieldMark]

def textField (text : String) : List Char :=
  text.toList ++ [fieldMark]

def flagField (flag : Bool) : List Char :=
  numberField (if flag then 1 else 0)

def PolicyEntry.fields (p : PolicyEntry) : List Char :=
  textField p.text ++ numberField p.bindings.toNat

/-- The record of a segment. What is absent is left empty. -/
def SegmentEntry.record (s : SegmentEntry) : List Char :=
  flagField s.used ++ numberField s.offset.toNat ++ numberField s.last.toNat
    ++ numberField s.size.toNat ++ textField (s.policy.getD "")
    ++ (s.state.elim "" fun state => toString state.toNat).toList ++ [recordMark]

def toText (v : Snapshot) : List Char :=
  numberField v.pid.toNat ++ numberField v.arenaSize.toNat ++ numberField v.usedBytes.toNat
    ++ flagField v.locked ++ numberField v.policies.length
    ++ v.policies.flatMap PolicyEntry.fields ++ v.segments.flatMap SegmentEntry.record
    ++ [recordMark]

def encode (v : Snapshot) : List UInt8 :=
  Text.bytesOfText (String.ofList v.toText)

/-! ## Reading -/

/-- Why bytes cannot be read as a snapshot: they are no snapshot, or they announce more policies
than memory can be reserved for. -/
inductive Unreadable
  | malformed
  | capacityOverflow
  deriving DecidableEq, Repr

def Unreadable.message : Unreadable → String
  | .malformed => "malformed view"
  | .capacityOverflow => "capacity overflow"

/-- The memory reserved for one announced policy, in bytes. -/
def entrySize : Nat := 32

/-- The most memory that can be reserved at once, in bytes. -/
def maxReservation : Nat := 9223372036854775807

structure Header where
  pid : UInt32
  arenaSize : UInt64
  usedBytes : UInt64
  locked : Bool
  policyCount : Nat
  deriving DecidableEq, Repr

def word32? (text : List Char) : Option UInt32 :=
  (Text.decimal? Text.wordLimit32 text).map UInt32.ofNat

def word64? (text : List Char) : Option UInt64 :=
  (Text.decimal? Text.wordLimit64 text).map UInt64.ofNat

def header? : List (List Char) → Option (Header × List (List Char))
  | pid :: arenaSize :: usedBytes :: locked :: policyCount :: rest => do
    let pid ← word32? pid
    let arenaSize ← word64? arenaSize
    let usedBytes ← word64? usedBytes
    let policyCount ← Text.decimal? Text.wordLimit64 policyCount
    return (⟨pid, arenaSize, usedBytes, locked == ['1'], policyCount⟩, rest)
  | _ => none

def policies? : Nat → List (List Char) → Option (List PolicyEntry × List (List Char))
  | 0, fields => some ([], fields)
  | count + 1, text :: bindings :: fields => do
    let bindings ← word64? bindings
    let (policies, fields) ← policies? count fields
    return (⟨String.ofList text, bindings⟩ :: policies, fields)
  | _ + 1, _ => none

/-- Reads a segment from all the fields of its record. -/
def segment? : List (List Char) → Option SegmentEntry
  | [used, offset, last, size, policy, state] => do
    let offset ← word64? offset
    let last ← word64? last
    let size ← word64? size
    let state ← if state.isEmpty then some none else (word32? state).map some
    return {
      offset := offset
      last := last
      size := size
      used := used == ['1']
      policy := if policy.isEmpty then none else some (String.ofList policy)
      state := state }
  | _ => none

/-- The records of a snapshot, cut into fields, if the text has the form of one. -/
def records? (bytes : List UInt8) : Option (List (List Char) × List (List (List Char))) := do
  if [0x1e, 0x1e].isSuffixOf bytes then
    let text ← Text.textOfBytes? (bytes.take (bytes.length - 2))
    match Text.cutAt recordMark text.toList with
    | [] => none
    | head :: rest =>
      some (Text.cutAt fieldMark head, rest.map (Text.cutAt fieldMark))
  else none

/-- Reads what follows the header: the policies and the segments. -/
def body? (header : Header) (fields : List (List Char)) (records : List (List (List Char))) :
    Option Snapshot := do
  let (policies, fields) ← policies? header.policyCount fields
  let first ← segment? fields
  let others ← records.mapM segment?
  return {
    pid := header.pid
    arenaSize := header.arenaSize
    usedBytes := header.usedBytes
    locked := header.locked
    policies := policies
    segments := first :: others }

/-- Reads the written form. Memory for the announced policies is reserved before they are read. -/
def decode (bytes : List UInt8) : Except Unreadable Snapshot :=
  match records? bytes with
  | none => .error .malformed
  | some (head, records) =>
    match header? head with
    | none => .error .malformed
    | some (header, fields) =>
      if maxReservation < header.policyCount * entrySize then .error .capacityOverflow
      else
        match body? header fields records with
        | none => .error .malformed
        | some v => .ok v

/-! ## The table for operators -/

def PolicyEntry.lines (id : Nat) (p : PolicyEntry) : String :=
  s!"\tPolicy: {id}\n\t\tRegex: {p.text}\n\t\tRef Count: {p.bindings}\n"

def SegmentEntry.line (s : SegmentEntry) : String :=
  "\t" ++ Text.hex s.offset.toNat ++ "\t" ++ Text.hex s.last.toNat ++ "\t" ++ Text.hex s.size.toNat
    ++ "\t" ++ (if s.used then "X" else " ") ++ "\t" ++ s.policy.getD "" ++ "\t"
    ++ (s.state.elim "" fun state => toString state.toNat) ++ "\n"

def table (v : Snapshot) : String :=
  s!"PID:\t{v.pid}\n\tTotal Size: " ++ Text.hex v.arenaSize.toNat ++ "\n\tUsed: "
    ++ Text.hex v.usedBytes.toNat ++ "\n\tLocked: " ++ (if v.locked then "yes" else "no") ++ "\n"
    ++ String.join (v.policies.zipIdx.map fun (p, id) => p.lines id)
    ++ "\tMemory:\n\tstart\tend\tsize\tused\tregex\tstate\n"
    ++ String.join (v.segments.map SegmentEntry.line)

end Snapshot

end PolicyVault
