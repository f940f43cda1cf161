import PolicyVault.Text.Quoted

/-!
# What can go wrong with a policy

Causes for which an expression is refused, and causes for which a loaded policy cannot be
bound or retired.
-/

namespace PolicyVault.Policy

inductive Expectation
  | operand
  | closing
  deriving DecidableEq, Repr

def Expectation.message : Expectation → String
  | .operand => "alphanumeric symbol or '('"
  | .closing => "')'"

inductive Error
  | empty
  | tooLong (size limit : Nat)
  | unexpectedByte (found : Char) (position : Nat) (expected : Expectation)
  | unexpectedEnd (expected : Expectation)
  | trailingInput (position : Nat)
  | noActiveSymbols
  | tooManyStates (states limit : Nat)
  | inUse (bindings : Nat)
  | retired
  | notBound
  deriving DecidableEq, Repr

def Error.message : Error → String
  | .empty => "policy expression is empty"
  | .tooLong size limit => s!"policy expression is {size} bytes, limit is {limit}"
  | .unexpectedByte found position expected =>
    "unexpected " ++ Text.quotedChar found ++ s!" at position {position}, expected "
      ++ expected.message
  | .unexpectedEnd expected => "unexpected end of expression, expected " ++ expected.message
  | .trailingInput position => s!"trailing input at position {position}"
  | .noActiveSymbols => "policy compiles to zero active symbols"
  | .tooManyStates states limit => s!"policy needs {states} states, limit is {limit}"
  | .inUse bindings => s!"descriptor still bound by {bindings} access state(s)"
  | .retired => "descriptor has been unloaded"
  | .notBound => "access state is not bound to a descriptor"

end PolicyVault.Policy
