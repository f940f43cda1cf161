import PolicyVault.Policy.Expr
import PolicyVault.Wire.Frame

/-!
# Policies in a payload

Each policy of a load request is a count of its symbols, the length of its expression, and the
expression. The policies follow each other without gap and fill the payload. The count is what the
sender believes; whoever compiles the expression counts again.
-/

namespace PolicyVault.Wire

structure PolicyItem where
  symbolCount : UInt32
  expression : List UInt8
  deriving DecidableEq, Repr

namespace PolicyItem

def countSymbols (expression : List UInt8) : Nat :=
  (expression.filter Policy.isSymbol).eraseDups.length

/-- The item of an expression, with its symbols counted. -/
def ofExpression (expression : List UInt8) : PolicyItem :=
  ⟨(countSymbols expression).toUInt32, expression⟩

def headSize : Nat := 8

def encodedSize (p : PolicyItem) : Nat := headSize + p.expression.length

def bytes (p : PolicyItem) : List UInt8 :=
  wordBytes p.symbolCount ++ wordBytes p.expression.length.toUInt32 ++ p.expression

def pack (items : List PolicyItem) : Except Error (List UInt8) :=
  let size := (items.map encodedSize).foldr (· + ·) 0
  if maxPayload < size then .error (.payloadTooLarge size maxPayload)
  else .ok (items.flatMap bytes)

def item? (bytes : List UInt8) : Option (PolicyItem × List UInt8) := do
  let (symbolCount, bytes) ← word? bytes
  let (length, bytes) ← word? bytes
  let expression := bytes.take length.toNat
  if expression.length = length.toNat then
    some (⟨symbolCount, expression⟩, bytes.drop length.toNat)
  else none

/-- Reads `missing` more items off the rest of a payload of `total` bytes, of which `index` items
have been read. -/
def unpackFrom (total declared : Nat) : (missing index : Nat) → (rest : List UInt8) →
    Except Error (List PolicyItem)
  | 0, _, rest =>
    if rest.isEmpty then .ok [] else .error (.lengthMismatch (total - rest.length) total)
  | missing + 1, index, rest =>
    if rest.isEmpty then .error (.policyCountMismatch declared index)
    else
      match item? rest with
      | none => .error (.policyTruncated index)
      | some (item, rest) =>
        match unpackFrom total declared missing (index + 1) rest with
        | .error e => .error e
        | .ok items => .ok (item :: items)

/-- The items that a payload holds and nothing else. -/
def unpack (payload : List UInt8) (count : Nat) : Except Error (List PolicyItem) :=
  unpackFrom payload.length count count 0 payload

end PolicyItem

end PolicyVault.Wire
