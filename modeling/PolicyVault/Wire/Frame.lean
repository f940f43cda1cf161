import PolicyVault.Wire.Tag
import PolicyVault.Wire.Word

/-!
# Frames

A frame is a message with its tag undecoded: a header of five words and a payload. The last word
of the header is the length of the payload. A request to read has no payload and announces there
how many bytes it asks for; whoever reads it may find that many filler bytes behind the header.
-/

namespace PolicyVault.Wire

def headerSize : Nat := 20

/-- The longest payload in bytes. -/
def maxPayload : Nat := 4096

/-- The longest message in bytes. -/
def maxMessage : Nat := headerSize + maxPayload

abbrev Message := List UInt8

structure Frame where
  tag : UInt32
  pid : UInt32
  field2 : UInt32
  field3 : UInt32
  requested : UInt32
  payload : List UInt8
  deriving DecidableEq, Repr

namespace Frame

def bare (tag pid field2 field3 : UInt32) : Frame := ⟨tag, pid, field2, field3, 0, []⟩

/-- What the last word of the header says: the length of the payload, or the length asked for if
there is no payload. -/
def dataLength (f : Frame) : Nat :=
  if f.payload.isEmpty then f.requested.toNat else f.payload.length

def decodedTag (f : Frame) : Except Error Tag := Tag.ofWord f.tag

/-- The refusing reply that repeats the header. -/
def refusal (f : Frame) : Frame :=
  .bare (operationBits f.tag ||| nakBit) f.pid f.field2 f.field3

def header (f : Frame) (length : UInt32) : List UInt8 :=
  wordBytes f.tag ++ wordBytes f.pid ++ wordBytes f.field2 ++ wordBytes f.field3
    ++ wordBytes length

def encode (f : Frame) : Except Error (List UInt8) :=
  if maxPayload < f.payload.length then .error (.payloadTooLarge f.payload.length maxPayload)
  else .ok (f.header f.dataLength.toUInt32 ++ f.payload)

/-- Reads the header off the front of the bytes: the frame without payload, the last word, and
what follows. -/
def header? (bytes : List UInt8) : Option (Frame × Nat × List UInt8) := do
  let (tag, bytes) ← word? bytes
  let (pid, bytes) ← word? bytes
  let (field2, bytes) ← word? bytes
  let (field3, bytes) ← word? bytes
  let (length, bytes) ← word? bytes
  return (.bare tag pid field2 field3, length.toNat, bytes)

/-- The frame that a header stands for, whatever follows it. -/
def decodeHeader (bytes : List UInt8) : Except Error Frame :=
  match header? bytes with
  | none => .error (.truncated headerSize bytes.length)
  | some (f, _, _) => .ok f

def asksToRead (f : Frame) : Bool := f.tag == Operation.read.code

/-- The frame of a request to read `length` bytes, with `body` behind its header. -/
def decodeRead (f : Frame) (length : Nat) (body : List UInt8) : Except Error Frame :=
  if !body.isEmpty && body.length != length then .error (.lengthMismatch length body.length)
  else .ok { f with requested := length.toUInt32 }

/-- The frame with `body` behind its header, whose last word is `length`. -/
def decodeBody (f : Frame) (length : Nat) (body : List UInt8) : Except Error Frame :=
  if maxPayload < length then .error (.payloadTooLarge length maxPayload)
  else if body.length < length then
    .error (.truncated (headerSize + length) (headerSize + body.length))
  else if length < body.length then .error (.lengthMismatch length body.length)
  else .ok { f with payload := body }

/-- The frame that the bytes hold and nothing else. -/
def decode (bytes : List UInt8) : Except Error Frame :=
  match header? bytes with
  | none => .error (.truncated headerSize bytes.length)
  | some (f, length, body) =>
    if f.asksToRead then f.decodeRead length body else f.decodeBody length body

/-- A summary for diagnostics, without the payload. -/
def summary (f : Frame) : String :=
  "Record \x7b tag: " ++ Text.hex f.tag.toNat ++ s!", pid: {f.pid}, field2: "
    ++ Text.hex f.field2.toNat ++ s!", field3: {f.field3}, data_len: {f.dataLength} \x7d"

end Frame

end PolicyVault.Wire
