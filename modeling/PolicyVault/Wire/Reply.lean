import PolicyVault.Wire.Request

/-!
# Replies

A reply repeats the header of its request and says whether the request was granted. Granted
allocations have their offset in field 2; granted reads and views have a payload. A refusal never
has one.
-/

namespace PolicyVault.Wire

structure Reply where
  tag : Tag
  pid : UInt32
  field2 : UInt32
  field3 : UInt32
  payload : List UInt8
  deriving DecidableEq, Repr

namespace Reply

/-- The reply that repeats the header of a request. -/
def echo (q : Request) (status : Status) : Reply :=
  let (pid, field2, field3) := q.headerFields.toOption.getD (q.pid, 0, 0)
  ⟨⟨q.operation, status⟩, pid, field2, field3, []⟩

def ack (q : Request) : Reply := echo q .ack

def nak (q : Request) : Reply := echo q .nak

def withField2 (r : Reply) (field2 : UInt32) : Reply := { r with field2 := field2 }

/-- The reply with a payload, which a refusal cannot have. -/
def withPayload (r : Reply) (payload : List UInt8) : Except Error Reply :=
  if maxPayload < payload.length then .error (.payloadTooLarge payload.length maxPayload)
  else if r.tag.status = .nak then
    .error (.unexpectedPayload r.tag.operation.name payload.length)
  else .ok { r with payload := payload }

def isAck (r : Reply) : Bool := r.tag.status == .ack

def toFrame (r : Reply) : Frame := ⟨r.tag.toWord, r.pid, r.field2, r.field3, 0, r.payload⟩

def ofFrame (f : Frame) : Except Error Reply :=
  match f.decodedTag with
  | .error e => .error e
  | .ok tag =>
    if !tag.isReply then .error (.unexpectedRequest f.tag)
    else if tag.status = .nak ∧ 0 < f.dataLength then
      .error (.unexpectedPayload tag.operation.name f.dataLength)
    else .ok ⟨tag, f.pid, f.field2, f.field3, f.payload⟩

end Reply

end PolicyVault.Wire
