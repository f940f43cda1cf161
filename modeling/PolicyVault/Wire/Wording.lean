import PolicyVault.Wire.Frame

/-!
# Messages in words

One line for each frame, as logs and clients show it, and bytes as rows of numbers.
-/

namespace PolicyVault.Wire

namespace Frame

def requestText (f : Frame) : Operation → String
  | .nil => "Nil"
  | .load =>
    s!"Loading {f.field3} policies for pid {f.pid} with " ++ Text.hex f.field2.toNat
      ++ " bytes of secure memory"
  | .unload => s!"Unloading pid {f.pid}"
  | .alloc =>
    "Allocating " ++ Text.hex f.field2.toNat ++ s!" bytes from pid {f.pid} under policy {f.field3}"
  | .dealloc => s!"Deallocating from pid {f.pid} @ " ++ Text.hex f.field2.toNat
  | .read =>
    "Reading " ++ Text.hex f.dataLength ++ s!" bytes from pid {f.pid} @ "
      ++ Text.hex f.field2.toNat
  | .write =>
    "Writing " ++ Text.hex f.dataLength ++ s!" bytes to pid {f.pid} @ " ++ Text.hex f.field2.toNat
  | .view => s!"Viewing pid {f.pid}"
  | .terminate => "Terminate"

/-- What a reply answers, in words. -/
def replyText (f : Frame) (granted : Bool) : Operation → String
  | .nil => "Nil"
  | .load => s!"Load of pid {f.pid}"
  | .unload => s!"Unload of pid {f.pid}"
  | .alloc =>
    if granted then s!"Allocated from pid {f.pid} @ address " ++ Text.hex f.field2.toNat
    else "Allocation of " ++ Text.hex f.field2.toNat ++ s!" bytes from pid {f.pid}"
  | .dealloc => s!"Deallocation from pid {f.pid} @ " ++ Text.hex f.field2.toNat
  | .read =>
    if granted then
      "Read of " ++ Text.hex f.dataLength ++ s!" bytes from pid {f.pid} @ "
        ++ Text.hex f.field2.toNat
    else s!"Read from pid {f.pid} @ " ++ Text.hex f.field2.toNat
  | .write => s!"Write to pid {f.pid} @ " ++ Text.hex f.field2.toNat
  | .view => s!"View of pid {f.pid}"
  | .terminate => "Terminate"

/-- A frame with a known tag in words, but for its payload. -/
def taggedText (f : Frame) (tag : Tag) : String :=
  match tag.status with
  | .request => f.requestText tag.operation
  | .ack => f.replyText true tag.operation ++ " ACK"
  | .nak => f.replyText false tag.operation ++ " NAK"

def text (f : Frame) : String :=
  match f.decodedTag with
  | .error _ => "Unknown message type " ++ Text.hex f.tag.toNat
  | .ok tag =>
    f.taggedText tag ++ if f.payload.isEmpty then "" else s!" [{f.payload.length} bytes]"

end Frame

/-! ## Rows of bytes -/

def rowSize : Nat := 16

def hexRow (offset : Nat) (row : List UInt8) : List Char :=
  Text.paddedHex 8 offset ++ [' '] ++ row.flatMap (fun b => ' ' :: Text.paddedHex 2 b.toNat)
    ++ ['\n']

def hexRows (offset : Nat) (bytes : List UInt8) : List Char :=
  if bytes.isEmpty then []
  else hexRow offset (bytes.take rowSize) ++ hexRows (offset + rowSize) (bytes.drop rowSize)
termination_by bytes.length
decreasing_by
  rename_i nonempty
  have : 0 < bytes.length := by simpa [List.length_pos_iff] using nonempty
  simp [rowSize]
  omega

def hexDump (bytes : List UInt8) : String := String.ofList (hexRows 0 bytes)

end PolicyVault.Wire
