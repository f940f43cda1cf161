import PolicyVault.Memory.Error
import PolicyVault.Policy.Monitor

/-!
# What can go wrong with a vault

Causes for which the vaults of processes refuse an operation, and the kind of each cause, which is
what a client may be told.
-/

namespace PolicyVault

inductive ErrorKind
  | malformed
  | notFound
  | capacity
  | policyViolation
  | compile
  | cleanup
  | internal
  deriving DecidableEq, Repr

namespace Vault

/-- Why an operation on a vault, or on the registry of vaults, fails. -/
inductive Error
  | alreadyRegistered (pid : UInt32)
  | notRegistered (pid : UInt32)
  | emptyArena
  | noPolicies
  | compile (index : Nat) (source : Policy.Error)
  | unknownPolicy (policy count : Nat)
  | emptyAccess (address : Nat)
  | lengthExceedsSegment (address length size : Nat)
  | unbound (address : Nat)
  | policyViolation (address : Nat) (access : Policy.Access) (policy : String)
  | memory (cause : Memory.Error)
  | policy (cause : Policy.Error)
  | cleanup (pid : UInt32) (failures : List Error)
  | poisoned

namespace Error

def message : Error → String
  | .alreadyRegistered pid => s!"process {pid} is already registered"
  | .notRegistered pid => s!"process {pid} is not registered"
  | .emptyArena => "arena size must be non-zero"
  | .noPolicies => "at least one policy is required"
  | .compile index source => s!"policy {index} failed to compile: {source.message}"
  | .unknownPolicy id count => s!"policy id {id} out of range ({count} loaded)"
  | .emptyAccess address => "zero-length access at " ++ Text.hex address
  | .lengthExceedsSegment address length size =>
    s!"access of {length} bytes exceeds segment of {size} bytes at " ++ Text.hex address
  | .unbound address => "segment at " ++ Text.hex address ++ " has no bound policy"
  | .policyViolation address access text =>
    access.name ++ " at " ++ Text.hex address ++ s!" rejected by policy '{text}'"
  | .memory cause => "RegionError: " ++ cause.message
  | .policy cause => "PolicyError: " ++ cause.message
  | .cleanup pid failures => s!"cleanup of process {pid} left {failures.length} failure(s)"
  | .poisoned => "mutex poisoned"

def kind : Error → ErrorKind
  | .alreadyRegistered _ | .emptyArena | .noPolicies | .unknownPolicy .. | .emptyAccess _
  | .lengthExceedsSegment .. => .malformed
  | .notRegistered _ | .unbound _ => .notFound
  | .policyViolation .. => .policyViolation
  | .compile .. => .compile
  | .cleanup .. => .cleanup
  | .poisoned => .internal
  | .memory (.outOfMemory ..) | .memory .lock => .capacity
  | .memory (.notFound _) | .memory (.notInUse _) => .notFound
  | .memory .zeroSize | .memory (.outOfBounds ..) => .malformed
  | .policy (.inUse _) | .policy .notBound => .cleanup
  | .policy .retired => .notFound
  | .policy _ => .compile

end Error

end Vault

end PolicyVault
