import PolicyVault.Text.Numeral

/-!
# What can go wrong on the wire
-/

namespace PolicyVault.Wire

inductive Field
  | policyCount
  | readLength
  | offset
  deriving DecidableEq, Repr

def Field.name : Field → String
  | .policyCount => "policy count"
  | .readLength => "read length"
  | .offset => "offset"

/-- Why bytes are no message, or a message cannot be put into bytes. -/
inductive Error
  | truncated (needed available : Nat)
  | payloadTooLarge (length limit : Nat)
  | lengthMismatch (declared actual : Nat)
  | unknownTag (tag : UInt32)
  | unexpectedReply (tag : UInt32)
  | unexpectedRequest (tag : UInt32)
  | policyTruncated (index : Nat)
  | policyCountMismatch (declared found : Nat)
  | unexpectedPayload (operation : String) (length : Nat)
  | fieldOverflow (field : Field) (value : Nat)
  deriving DecidableEq, Repr

def Error.message : Error → String
  | .truncated needed available => s!"record truncated: need {needed} bytes, have {available}"
  | .payloadTooLarge length limit => s!"payload of {length} bytes exceeds capacity of {limit}"
  | .lengthMismatch declared actual =>
    s!"declared data length {declared} disagrees with {actual} payload bytes"
  | .unknownTag tag => "unknown operation tag " ++ Text.hex tag.toNat
  | .unexpectedReply tag => "tag " ++ Text.hex tag.toNat ++ " is a reply, expected a request"
  | .unexpectedRequest tag => "tag " ++ Text.hex tag.toNat ++ " is a request, expected a reply"
  | .policyTruncated index => s!"policy record {index} is truncated"
  | .policyCountMismatch declared found =>
    s!"expected {declared} policy records, payload holds {found}"
  | .unexpectedPayload operation length =>
    s!"{operation} request carries no payload, got {length} bytes"
  | .fieldOverflow field value => s!"{field.name} value {value} does not fit the wire format"

inductive TransportError
  | interrupted
  | disconnected
  | oversized (length limit : Nat)
  deriving DecidableEq, Repr

def TransportError.message : TransportError → String
  | .interrupted => "interrupted"
  | .disconnected => "transport disconnected"
  | .oversized length limit =>
    s!"message of {length} bytes exceeds the maximum record size {limit}"

end PolicyVault.Wire
