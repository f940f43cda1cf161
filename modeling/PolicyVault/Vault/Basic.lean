import PolicyVault.Memory.Arena
import PolicyVault.Memory.Layout
import PolicyVault.Vault.Error
import PolicyVault.Vault.Snapshot

/-!
# Vaults

A vault is the protected memory of one process: an arena, its layout, and the policies loaded for
it. Each allocation has a monitor of its own, which is the payload of its segment, and a read or a
write happens only if the monitor still allows it after a step on that access.

An operation answers together with the vault it leaves behind, failed or not.
-/

namespace PolicyVault

/-- The protected memory of one process. -/
structure Vault where
  pid : UInt32
  arena : Memory.Arena
  layout : Memory.Layout Policy.Monitor
  policies : Policy.Book

namespace Vault

/-- The answer of an operation, and what it leaves behind. -/
abbrev Answer (σ α : Type) := Except Error α × σ

/-- Compiles the policies in order and makes an arena of zero bytes. -/
def create (pid : UInt32) (arenaSize : UInt64) (sources : List (List UInt8)) :
    Except Error Vault :=
  if arenaSize = 0 then .error .emptyArena
  else if sources.isEmpty then .error .noPolicies
  else
    match Policy.Book.load sources with
    | .error (index, e) => .error (.compile index e)
    | .ok policies => .ok ⟨pid, .zeroed arenaSize, .start arenaSize.toNat, policies⟩

/-! ## Allocations -/

/-- Binds a monitor of a policy to the zeroed bytes at `offset`. If the policy refuses, the bytes
are given back. -/
def guard (v : Vault) (offset policy : Nat) : Answer Vault Nat :=
  match Policy.Monitor.bind v.policies policy with
  | .error e =>
    match v.layout.deallocate offset with
    | .error e => (.error (.memory e), v)
    | .ok (_, layout) => (.error (.policy e), { v with layout := layout })
  | .ok (monitor, policies) =>
    match v.layout.attach offset monitor with
    | none => (.error (.memory (.notFound offset)), v)
    | some (_, layout) => (.ok offset, { v with layout := layout, policies := policies })

/-- Allocates zeroed bytes under a policy and tells where they start. -/
def alloc (v : Vault) (size policy : Nat) : Answer Vault Nat :=
  if policy < v.policies.length then
    match v.layout.allocate size with
    | .error e => (.error (.memory e), v)
    | .ok (offset, layout) =>
      match v.arena.zeroRange offset size with
      | .error e => (.error (.memory e), { v with layout := layout })
      | .ok arena => guard { v with arena := arena, layout := layout } offset policy
  else (.error (.unknownPolicy policy v.policies.length), v)

/-- The used segment that starts at an address. -/
def used (v : Vault) (address : Nat) : Except Error (Memory.Segment Policy.Monitor) :=
  match v.layout.find? address with
  | none => .error (.memory (.notFound address))
  | some s => if s.used then .ok s else .error (.memory (.notInUse address))

/-- One failure stands for itself; several are reported together. -/
def collect (v : Vault) : List Error → Except Error Unit
  | [] => .ok ()
  | [e] => .error e
  | failures => .error (.cleanup v.pid failures)

def wipe (v : Vault) (address size : Nat) : List Error × Vault :=
  match v.arena.zeroRange address size with
  | .error e => ([.memory e], v)
  | .ok arena => ([], { v with arena := arena })

/-- Unbinds and removes the monitor at an address. -/
def unguard (v : Vault) (address : Nat) : List Error × Vault :=
  match v.layout.detach address with
  | some (some monitor, layout) =>
    match monitor.unbind v.policies with
    | .error e => ([.policy e], { v with layout := layout })
    | .ok (_, policies) => ([], { v with layout := layout, policies := policies })
  | some (none, _) | none => ([.unbound address], v)

def giveBack (v : Vault) (address : Nat) : List Error × Vault :=
  match v.layout.deallocate address with
  | .error e => ([.memory e], v)
  | .ok (_, layout) => ([], { v with layout := layout })

/-- Zeroes, unbinds and gives back the allocation at an address. All three steps are taken even if
one fails. -/
def dealloc (v : Vault) (address : Nat) : Answer Vault Unit :=
  match v.used address with
  | .error e => (.error e, v)
  | .ok segment =>
    let (wiping, v) := v.wipe address segment.size
    let (unguarding, v) := v.unguard address
    let (freeing, v) := v.giveBack address
    (v.collect (wiping ++ unguarding ++ freeing), v)

/-! ## Accesses -/

/-- Steps the monitor of the allocation at an address and asks for its verdict. A step into the
sink is not taken back. -/
def authorize (v : Vault) (address length : Nat) (access : Policy.Access) : Answer Vault Unit :=
  if length = 0 then (.error (.emptyAccess address), v)
  else
    match v.used address with
    | .error e => (.error e, v)
    | .ok segment =>
      if segment.size < length then
        (.error (.lengthExceedsSegment address length segment.size), v)
      else
        match segment.payload.filter Policy.Monitor.isBound with
        | none => (.error (.unbound address), v)
        | some monitor =>
          let monitor := monitor.stepAccess v.policies access
          let v := { v with layout := v.layout.setPayload address (some monitor) }
          match monitor.verdict with
          | .allowed => (.ok (), v)
          | .rejected =>
            let text := (monitor.policyText? v.policies).getD ""
            (.error (.policyViolation address access text), v)

def read (v : Vault) (address length : Nat) : Answer Vault (List UInt8) :=
  match v.authorize address length .read with
  | (.error e, v) => (.error e, v)
  | (.ok (), v) =>
    match v.arena.read address length with
    | .error e => (.error (.memory e), v)
    | .ok data => (.ok data, v)

def write (v : Vault) (address : Nat) (data : List UInt8) : Answer Vault Unit :=
  match v.authorize address data.length .write with
  | (.error e, v) => (.error e, v)
  | (.ok (), v) =>
    match v.arena.write address data with
    | .error e => (.error (.memory e), v)
    | .ok arena => (.ok (), { v with arena := arena })

/-! ## The end of a vault -/

def unbindAll (policies : Policy.Book) : List (Option Policy.Monitor) → List Error × Policy.Book
  | [] => ([], policies)
  | none :: rest => unbindAll policies rest
  | some monitor :: rest =>
    match monitor.unbind policies with
    | .error e =>
      let (failures, policies) := unbindAll policies rest
      (.policy e :: failures, policies)
    | .ok (_, policies) => unbindAll policies rest

/-- Unbinds every monitor, zeroes the arena, gives back every segment and retires every policy.
All of it is done; what fails is reported in order. -/
def teardown (v : Vault) : List Error × Vault :=
  let (unbinding, policies) := unbindAll v.policies v.layout.usedPayloads
  let (policies, retiring) := policies.retireAll
  (unbinding ++ retiring.map .policy,
    { v with
      arena := v.arena.zeroize
      layout := .start v.layout.arenaSize
      policies := policies })

/-! ## Monitors held by others -/

def hold (v : Vault) (policy : Nat) : Except Policy.Error (Policy.Monitor × Vault) :=
  match Policy.Monitor.bind v.policies policy with
  | .error e => .error e
  | .ok (monitor, policies) => .ok (monitor, { v with policies := policies })

def release (v : Vault) (monitor : Policy.Monitor) : Vault :=
  { v with policies := monitor.discard v.policies }

/-! ## What can be seen -/

def segmentEntry (policies : Policy.Book) (s : Memory.Segment Policy.Monitor) :
    Snapshot.SegmentEntry where
  offset := s.offset.toUInt64
  last := (s.stop - 1).toUInt64
  size := s.size.toUInt64
  used := s.used
  policy := s.payload.bind (·.policyText? policies)
  state := s.payload.map (·.current.toUInt32)

def snapshot (v : Vault) : Snapshot where
  pid := v.pid
  arenaSize := v.arena.size.toUInt64
  usedBytes := v.layout.usedBytes.toUInt64
  locked := v.arena.locked
  policies := v.policies.map fun p => ⟨p.text, p.bindings.toUInt64⟩
  segments := v.layout.segments.map (segmentEntry v.policies)

def describe (v : Vault) : String :=
  s!"ProcessContext \x7b pid: {v.pid}, arena: {v.arena.describe}, "
    ++ s!"segments: {v.layout.segments.length}, policies: {v.policies.length} \x7d"

end Vault

end PolicyVault
