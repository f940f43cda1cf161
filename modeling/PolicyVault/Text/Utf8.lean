/-!
# Faults of UTF-8

The first place where a byte string stops being UTF-8, and how many bytes are to blame. A
sequence that the end of the string cuts short is told apart from one that is wrong.
-/

namespace PolicyVault.Text

/-- A place where bytes are not UTF-8: `length` bytes are wrong, or the text ends too early. -/
structure Utf8Fault where
  position : Nat
  length : Option Nat
  deriving DecidableEq, Repr

def Utf8Fault.message (fault : Utf8Fault) : String :=
  match fault.length with
  | some length => s!"invalid utf-8 sequence of {length} bytes from index {fault.position}"
  | none => s!"incomplete utf-8 byte sequence from index {fault.position}"

def isContinuation (b : UInt8) : Bool :=
  0x80 ≤ b && b ≤ 0xbf

def secondOfThree (first second : UInt8) : Bool :=
  isContinuation second && (first != 0xe0 || 0xa0 ≤ second) && (first != 0xed || second ≤ 0x9f)

def secondOfFour (first second : UInt8) : Bool :=
  isContinuation second && (first != 0xf0 || 0x90 ≤ second) && (first != 0xf4 || second ≤ 0x8f)

/-- The first fault of `bytes`, whose first byte stands at `position` of the whole text. -/
def utf8FaultFrom (position : Nat) : List UInt8 → Option Utf8Fault
  | [] => none
  | first :: rest =>
    if first < 0x80 then utf8FaultFrom (position + 1) rest
    else if 0xc2 ≤ first && first ≤ 0xdf then
      match rest with
      | [] => some ⟨position, none⟩
      | second :: rest =>
        if !isContinuation second then some ⟨position, some 1⟩
        else utf8FaultFrom (position + 2) rest
    else if 0xe0 ≤ first && first ≤ 0xef then
      match rest with
      | [] => some ⟨position, none⟩
      | second :: rest =>
        if !secondOfThree first second then some ⟨position, some 1⟩
        else match rest with
          | [] => some ⟨position, none⟩
          | third :: rest =>
            if !isContinuation third then some ⟨position, some 2⟩
            else utf8FaultFrom (position + 3) rest
    else if 0xf0 ≤ first && first ≤ 0xf4 then
      match rest with
      | [] => some ⟨position, none⟩
      | second :: rest =>
        if !secondOfFour first second then some ⟨position, some 1⟩
        else match rest with
          | [] => some ⟨position, none⟩
          | third :: rest =>
            if !isContinuation third then some ⟨position, some 2⟩
            else match rest with
              | [] => some ⟨position, none⟩
              | fourth :: rest =>
                if !isContinuation fourth then some ⟨position, some 3⟩
                else utf8FaultFrom (position + 4) rest
    else some ⟨position, some 1⟩

/-- The first fault of a byte string, if it is not UTF-8. -/
def utf8Fault? (bytes : List UInt8) : Option Utf8Fault :=
  utf8FaultFrom 0 bytes

/-! ## Bytes and text -/

/-- The text that a byte string encodes, if it is UTF-8. -/
def textOfBytes? (bytes : List UInt8) : Option String :=
  String.fromUTF8? bytes.toByteArray

def bytesOfText (text : String) : List UInt8 :=
  text.toUTF8.toList

def latin1 (b : UInt8) : Char :=
  Char.ofNat b.toNat

def latin1Text (bytes : List UInt8) : String :=
  String.ofList (bytes.map latin1)

end PolicyVault.Text
