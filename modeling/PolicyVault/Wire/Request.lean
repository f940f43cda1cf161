import PolicyVault.Wire.PolicyItem

/-!
# Requests

What a client asks for, and the frame that carries it:

| request   | field 2    | field 3      | last word | payload  |
|-----------|------------|--------------|-----------|----------|
| load      | arena size | policy count | length    | policies |
| alloc     | size       | policy       |           |          |
| dealloc   | address    |              |           |          |
| read      | address    |              | length    |          |
| write     | address    |              | length    | data     |

The other requests leave all of this empty. Requests to no process have the process number 0.
-/

namespace PolicyVault.Wire

inductive Request
  | nil
  | load (pid arenaSize : UInt32) (policies : List PolicyItem)
  | unload (pid : UInt32)
  | alloc (pid size policy : UInt32)
  | dealloc (pid address : UInt32)
  | read (pid address length : UInt32)
  | write (pid address : UInt32) (data : List UInt8)
  | view (pid : UInt32)
  | terminate
  deriving DecidableEq, Repr

/-- A number as a word, if it fits. -/
def fit (field : Field) (value : Nat) : Except Error UInt32 :=
  if value < Text.wordLimit32 then .ok value.toUInt32 else .error (.fieldOverflow field value)

namespace Request

def operation : Request → Operation
  | .nil => .nil
  | .load .. => .load
  | .unload _ => .unload
  | .alloc .. => .alloc
  | .dealloc .. => .dealloc
  | .read .. => .read
  | .write .. => .write
  | .view _ => .view
  | .terminate => .terminate

/-- The process concerned, 0 if none. -/
def pid : Request → UInt32
  | .nil | .terminate => 0
  | .load pid .. | .unload pid | .alloc pid .. | .dealloc pid _ | .read pid .. | .write pid ..
  | .view pid => pid

/-- Process, field 2 and field 3 of the header. -/
def headerFields : Request → Except Error (UInt32 × UInt32 × UInt32)
  | .nil | .terminate => .ok (0, 0, 0)
  | .load pid arenaSize policies =>
    match fit .policyCount policies.length with
    | .error e => .error e
    | .ok count => .ok (pid, arenaSize, count)
  | .unload pid | .view pid => .ok (pid, 0, 0)
  | .alloc pid size policy => .ok (pid, size, policy)
  | .dealloc pid address | .read pid address _ | .write pid address _ => .ok (pid, address, 0)

/-- The length a request asks for behind its header. -/
def requested : Request → UInt32
  | .read _ _ length => length
  | _ => 0

def payload : Request → Except Error (List UInt8)
  | .load _ _ policies => PolicyItem.pack policies
  | .write _ _ data =>
    if maxPayload < data.length then .error (.payloadTooLarge data.length maxPayload) else .ok data
  | _ => .ok []

def toFrame (q : Request) : Except Error Frame :=
  match q.headerFields with
  | .error e => .error e
  | .ok (pid, field2, field3) =>
    match q.payload with
    | .error e => .error e
    | .ok payload =>
      .ok ⟨(Tag.mk q.operation .request).toWord, pid, field2, field3, q.requested, payload⟩

/-- The request, if the frame has no payload. -/
def withoutPayload (f : Frame) (q : Request) : Except Error Request :=
  if f.payload.isEmpty then .ok q
  else .error (.unexpectedPayload q.operation.name f.payload.length)

def ofOperation (f : Frame) : Operation → Except Error Request
  | .load =>
    match PolicyItem.unpack f.payload f.field3.toNat with
    | .error e => .error e
    | .ok policies => .ok (.load f.pid f.field2 policies)
  | .write => .ok (.write f.pid f.field2 f.payload)
  | .read =>
    match fit .readLength f.dataLength with
    | .error e => .error e
    | .ok length => .ok (.read f.pid f.field2 length)
  | .nil => withoutPayload f .nil
  | .unload => withoutPayload f (.unload f.pid)
  | .alloc => withoutPayload f (.alloc f.pid f.field2 f.field3)
  | .dealloc => withoutPayload f (.dealloc f.pid f.field2)
  | .view => withoutPayload f (.view f.pid)
  | .terminate => withoutPayload f .terminate

def ofFrame (f : Frame) : Except Error Request :=
  match f.decodedTag with
  | .error e => .error e
  | .ok tag =>
    if tag.isReply then .error (.unexpectedReply f.tag) else ofOperation f tag.operation

end Request

end PolicyVault.Wire
