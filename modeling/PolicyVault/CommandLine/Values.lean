import PolicyVault.Text.Numeral
import PolicyVault.Text.Utf8

/-!
# Values on a command line

Numbers, queue keys and bytes as they are written on a command line. A number is decimal, or in
base sixteen behind the mark `0x`. A key is the bit pattern of a signed word, always in base
sixteen. Bytes are pairs of digits of base sixteen.
-/

namespace PolicyVault.CommandLine

open Text (NumeralError Utf8Fault)

inductive ValueError
  | number (text : String) (cause : NumeralError)
  | key (text : String) (cause : NumeralError)
  | unevenDigits (text : String)
  | notText (fault : Utf8Fault)
  | notByte (pair : String)
  deriving DecidableEq, Repr

def ValueError.message : ValueError → String
  | .number text cause => s!"invalid number '{text}': {cause.message}"
  | .key text cause => s!"invalid queue key '{text}': {cause.message}"
  | .unevenDigits text => s!"'{text}' is not an even number of hex digits"
  | .notText fault => fault.message
  | .notByte pair => s!"'{pair}' is not a hex byte"

/-- The digits behind a mark of base sixteen, if the mark is there. -/
def unmarked? : List Char → Option (List Char)
  | '0' :: 'x' :: digits | '0' :: 'X' :: digits => some digits
  | _ => none

/-- A number of 32 bits. -/
def readNumber (text : String) : Except ValueError UInt32 :=
  let value :=
    match unmarked? text.toList with
    | some digits => Text.readNumeral 16 Text.wordLimit32 digits
    | none => Text.readNumeral 10 Text.wordLimit32 text.toList
  match value with
  | .ok n => .ok n.toUInt32
  | .error cause => .error (.number text cause)

/-- The key of a queue. -/
def readKey (text : String) : Except ValueError Int32 :=
  let digits := (unmarked? text.toList).getD text.toList
  match Text.readNumeral 16 Text.wordLimit32 digits with
  | .ok n => .ok n.toUInt32.toInt32
  | .error cause => .error (.key text cause)

/-- A decimal number of 32 bits with an optional sign. Of the negative numbers only zero is in
range. -/
def readDecimal? (text : String) : Option UInt32 :=
  match text.toList with
  | '-' :: digits =>
    if digits.head? = some '+' then none else (Text.decimal? 1 digits).map Nat.toUInt32
  | digits => (Text.decimal? Text.wordLimit32 digits).map Nat.toUInt32

/-! ## Bytes -/

def readPair (pair : List UInt8) : Except ValueError UInt8 :=
  match Text.utf8Fault? pair with
  | some fault => .error (.notText fault)
  | none =>
    let text := (Text.textOfBytes? pair).getD ""
    match Text.readNumeral 16 256 text.toList with
    | .ok n => .ok n.toUInt8
    | .error _ => .error (.notByte text)

def readPairs : List UInt8 → Except ValueError (List UInt8)
  | a :: b :: rest =>
    match readPair [a, b] with
    | .error e => .error e
    | .ok value =>
      match readPairs rest with
      | .error e => .error e
      | .ok values => .ok (value :: values)
  | _ => .ok []

/-- Bytes written as pairs of digits, with or without the mark `0x`. There is at least one. -/
def readHex (text : String) : Except ValueError (List UInt8) :=
  let digits :=
    match Text.bytesOfText text with
    | 0x30 :: 0x78 :: digits => digits
    | digits => digits
  if digits.isEmpty || digits.length % 2 != 0 then .error (.unevenDigits text)
  else readPairs digits

end PolicyVault.CommandLine
