import PolicyVault.Vault.Registry
import PolicyVault.Wire.Reply

/-!
# Dispatch

A dispatcher serves requests from the registry of vaults. It checks what it can before it asks the
registry, so that a request it grants fits into a reply. Every message gets exactly one reply,
except a request to terminate, which gets none.
-/

namespace PolicyVault.Service

open Wire (Request Reply Frame Message)

structure Limits where
  maxPid : UInt32
  maxArena : UInt32
  lockMemory : Bool
  deriving DecidableEq, Repr

/-- The bounds that hold if nobody sets others. -/
def Limits.standard : Limits := ⟨32768, 16777216, false⟩

inductive Error
  | pidOutOfRange (pid max : UInt32)
  | arenaSizeOutOfRange (size max : UInt32)
  | noPolicies
  | allocSizeOutOfRange (size : UInt32) (arenaSize : Nat)
  | addressOutOfRange (address : UInt32) (arenaSize : Nat)
  | emptyAccess
  | readTooLarge (length : UInt32) (limit : Nat)
  | wire (cause : Wire.Error)
  | vault (cause : Vault.Error)

namespace Error

def message : Error → String
  | .pidOutOfRange pid max => s!"pid {pid} outside 1..={max}"
  | .arenaSizeOutOfRange size max =>
    "arena size " ++ Text.hex size.toNat ++ " outside 1..=" ++ Text.hex max.toNat
  | .noPolicies => "load carries no policies"
  | .allocSizeOutOfRange size arenaSize =>
    "allocation of " ++ Text.hex size.toNat ++ " bytes outside 1..=" ++ Text.hex arenaSize
  | .addressOutOfRange address arenaSize =>
    "address " ++ Text.hex address.toNat ++ " outside arena of " ++ Text.hex arenaSize ++ " bytes"
  | .emptyAccess => "zero-length access"
  | .readTooLarge length limit => s!"read of {length} bytes exceeds reply capacity {limit}"
  | .wire cause => "WireError: " ++ cause.message
  | .vault cause => "RegistryError: " ++ cause.message

def kind : Error → ErrorKind
  | .vault cause => cause.kind
  | _ => .malformed

end Error

structure Dispatcher where
  limits : Limits
  registry : Registry

namespace Dispatcher

def fresh (limits : Limits) : Dispatcher := ⟨limits, .empty⟩

/-! ## Checks -/

def checkPid (d : Dispatcher) (pid : UInt32) : Except Error Unit :=
  if pid = 0 ∨ d.limits.maxPid < pid then .error (.pidOutOfRange pid d.limits.maxPid) else .ok ()

def arenaSize (d : Dispatcher) (pid : UInt32) : Except Error Nat :=
  match d.checkPid pid with
  | .error e => .error e
  | .ok () =>
    match d.registry.arenaSize pid with
    | .error e => .error (.vault e)
    | .ok size => .ok size

def checkLoad (d : Dispatcher) (pid arenaSize : UInt32) (policies : List Wire.PolicyItem) :
    Except Error Unit :=
  match d.checkPid pid with
  | .error e => .error e
  | .ok () =>
    if arenaSize = 0 ∨ d.limits.maxArena < arenaSize then
      .error (.arenaSizeOutOfRange arenaSize d.limits.maxArena)
    else if policies.isEmpty then .error .noPolicies
    else .ok ()

/-- Refuses an allocation that no arena of the process can hold. -/
def checkAlloc (d : Dispatcher) (pid size : UInt32) : Except Error Unit :=
  match d.arenaSize pid with
  | .error e => .error e
  | .ok arenaSize =>
    if size = 0 ∨ arenaSize < size.toNat then .error (.allocSizeOutOfRange size arenaSize)
    else .ok ()

def checkAddress (d : Dispatcher) (pid address : UInt32) : Except Error Unit :=
  match d.arenaSize pid with
  | .error e => .error e
  | .ok arenaSize =>
    if arenaSize ≤ address.toNat then .error (.addressOutOfRange address arenaSize) else .ok ()

/-- Refuses an empty read, and one that no reply can hold. -/
def checkRead (d : Dispatcher) (pid address length : UInt32) : Except Error Unit :=
  match d.checkAddress pid address with
  | .error e => .error e
  | .ok () =>
    if length = 0 then .error .emptyAccess
    else if Wire.maxPayload < length.toNat then .error (.readTooLarge length Wire.maxPayload)
    else .ok ()

def checkWrite (d : Dispatcher) (pid address : UInt32) (data : List UInt8) : Except Error Unit :=
  match d.checkAddress pid address with
  | .error e => .error e
  | .ok () => if data.isEmpty then .error .emptyAccess else .ok ()

/-! ## Requests -/

/-- An answer, and the dispatcher it leaves behind. -/
abbrev Answer (α : Type) := Except Error α × Dispatcher

/-- Runs an operation of the registry, if the check before it passed, and makes a reply of what it
answers. -/
def serve {α : Type} (d : Dispatcher) (check : Except Error Unit)
    (operation : Registry → Vault.Answer Registry α) (reply : α → Except Wire.Error Reply) :
    Answer Reply :=
  match check with
  | .error e => (.error e, d)
  | .ok () =>
    match operation d.registry with
    | (.error e, registry) => (.error (.vault e), { d with registry := registry })
    | (.ok a, registry) =>
      match reply a with
      | .error e => (.error (.wire e), { d with registry := registry })
      | .ok r => (.ok r, { d with registry := registry })

def dispatch (d : Dispatcher) (q : Request) : Answer Reply :=
  let ack := Reply.ack q
  match q with
  | .nil | .terminate => (.ok ack, d)
  | .load pid arenaSize policies =>
    d.serve (d.checkLoad pid arenaSize policies)
      (·.load pid arenaSize.toUInt64 (policies.map (·.expression))) fun _ => .ok ack
  | .unload pid => d.serve (d.checkPid pid) (·.unload pid) fun _ => .ok ack
  | .alloc pid size policy =>
    d.serve (d.checkAlloc pid size) (·.alloc pid size.toNat policy.toNat) fun offset =>
      match Wire.fit .offset offset with
      | .error e => .error e
      | .ok offset => .ok (ack.withField2 offset)
  | .dealloc pid address =>
    d.serve (d.checkAddress pid address) (·.dealloc pid address.toNat) fun _ => .ok ack
  | .read pid address length =>
    d.serve (d.checkRead pid address length) (·.read pid address.toNat length.toNat)
      ack.withPayload
  | .write pid address data =>
    d.serve (d.checkWrite pid address data) (·.write pid address.toNat data) fun _ => .ok ack
  | .view pid =>
    d.serve (d.checkPid pid) (fun r => (r.snapshot pid, r)) fun v =>
      ack.withPayload (v.encode.take Wire.maxPayload)

/-! ## Messages -/

inductive Outcome
  | reply (f : Frame)
  | terminate
  deriving DecidableEq, Repr

/-- The frame of a message as far as its header goes, and a request for nothing if it is too short
for a header. -/
def headerOrNil (m : Message) : Frame :=
  (Frame.decodeHeader m).toOption.getD (.bare Wire.Operation.nil.code 0 0 0)

def respond (d : Dispatcher) (q : Request) : Outcome × Dispatcher :=
  if q.operation = .terminate then (.terminate, d)
  else
    match d.dispatch q with
    | (.ok r, d) => (.reply r.toFrame, d)
    | (.error _, d) => (.reply (Reply.nak q).toFrame, d)

/-- Answers a message. One that holds no request is refused with what its header says. -/
def handle (d : Dispatcher) (m : Message) : Outcome × Dispatcher :=
  match Frame.decode m with
  | .error _ => (.reply (headerOrNil m).refusal, d)
  | .ok f =>
    match Request.ofFrame f with
    | .error _ => (.reply f.refusal, d)
    | .ok q => d.respond q

end Dispatcher

end PolicyVault.Service
