/-!
# Unsigned numerals

Reading a numeral in a given base below a given limit, and writing one in base sixteen. The
digits are taken from the left: of an invalid digit and a value that grows too large, the one
met first is reported.
-/

namespace PolicyVault.Text

inductive NumeralError
  | empty
  | invalidDigit
  | tooLarge
  deriving DecidableEq, Repr

def NumeralError.message : NumeralError → String
  | .empty => "cannot parse integer from empty string"
  | .invalidDigit => "invalid digit found in string"
  | .tooLarge => "number too large to fit in target type"

/-- The value of a digit: letters of either case count on from ten. -/
def digitValue? (base : Nat) (c : Char) : Option Nat :=
  let value :=
    if '0' ≤ c ∧ c ≤ '9' then some (c.toNat - '0'.toNat)
    else if 'a' ≤ c ∧ c ≤ 'z' then some (c.toNat - 'a'.toNat + 10)
    else if 'A' ≤ c ∧ c ≤ 'Z' then some (c.toNat - 'A'.toNat + 10)
    else none
  value.filter (· < base)

def readDigits (base limit : Nat) (value : Nat) : List Char → Except NumeralError Nat
  | [] => .ok value
  | c :: rest =>
    match digitValue? base c with
    | none => .error .invalidDigit
    | some digit =>
      if value * base + digit < limit then readDigits base limit (value * base + digit) rest
      else .error .tooLarge

/-- Reads a numeral below `limit`. One plus sign may precede the digits; leading zeros are free. -/
def readNumeral (base limit : Nat) : List Char → Except NumeralError Nat
  | [] => .error .empty
  | ['+'] => .error .invalidDigit
  | '+' :: digits => readDigits base limit 0 digits
  | digits => readDigits base limit 0 digits

/-- A decimal numeral below `limit`, if the text is one. -/
def decimal? (limit : Nat) (text : List Char) : Option Nat :=
  (readNumeral 10 limit text).toOption

def wordLimit32 : Nat := 4294967296

def wordLimit64 : Nat := 18446744073709551616

/-! ## Base sixteen -/

/-- The digits of `n` in base sixteen, without leading zeros. -/
def hexDigits (n : Nat) : List Char :=
  Nat.toDigits 16 n

def hex (n : Nat) : String :=
  "0x" ++ String.ofList (hexDigits n)

def paddedHex (width n : Nat) : List Char :=
  let digits := hexDigits n
  List.replicate (width - digits.length) '0' ++ digits

end PolicyVault.Text
