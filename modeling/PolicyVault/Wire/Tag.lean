import PolicyVault.Wire.Error

/-!
# Tags

The tag of a message names an operation. One bit beside the operation marks a reply that grants
it, another one a reply that refuses it; a tag never has both.
-/

namespace PolicyVault.Wire

inductive Operation
  | nil
  | load
  | unload
  | alloc
  | dealloc
  | read
  | write
  | view
  | terminate
  deriving DecidableEq, Repr

namespace Operation

def code : Operation → UInt32
  | .nil => 0
  | .load => 1
  | .unload => 2
  | .alloc => 3
  | .dealloc => 4
  | .read => 5
  | .write => 6
  | .view => 7
  | .terminate => 8

def name : Operation → String
  | .nil => "nil"
  | .load => "load"
  | .unload => "unload"
  | .alloc => "alloc"
  | .dealloc => "dealloc"
  | .read => "read"
  | .write => "write"
  | .view => "view"
  | .terminate => "terminate"

/-- All operations, by code. -/
def all : List Operation :=
  [.nil, .load, .unload, .alloc, .dealloc, .read, .write, .view, .terminate]

def ofCode (code : UInt32) : Except Error Operation :=
  match all.find? fun op => op.code == code with
  | some op => .ok op
  | none => .error (.unknownTag code)

end Operation

/-- Whether a message is a request, or how it answers one. -/
inductive Status
  | request
  | ack
  | nak
  deriving DecidableEq, Repr

def ackBit : UInt32 := 0x10

def nakBit : UInt32 := 0x20

def operationBits (raw : UInt32) : UInt32 := raw &&& ~~~(ackBit ||| nakBit)

def replyBits (raw : UInt32) : UInt32 := raw &&& (ackBit ||| nakBit)

/-- An operation with its status. -/
structure Tag where
  operation : Operation
  status : Status
  deriving DecidableEq, Repr

namespace Tag

def statusBits : Status → UInt32
  | .request => 0
  | .ack => ackBit
  | .nak => nakBit

def toWord (t : Tag) : UInt32 := t.operation.code ||| statusBits t.status

/-- The status of a word, unless it has both reply bits. -/
def statusOf (raw : UInt32) : Except Error Status :=
  if replyBits raw = 0 then .ok .request
  else if replyBits raw = ackBit then .ok .ack
  else if replyBits raw = nakBit then .ok .nak
  else .error (.unknownTag raw)

def ofWord (raw : UInt32) : Except Error Tag :=
  match statusOf raw with
  | .error e => .error e
  | .ok status =>
    match Operation.ofCode (operationBits raw) with
    | .error e => .error e
    | .ok operation => .ok ⟨operation, status⟩

def isReply (t : Tag) : Bool := t.status != .request

end Tag

end PolicyVault.Wire
