import PolicyVault.Text.Numeral

/-!
# What can go wrong in protected memory
-/

namespace PolicyVault.Memory

inductive Error
  | outOfMemory (requested largestFree : Nat)
  | zeroSize
  | notFound (offset : Nat)
  | notInUse (offset : Nat)
  | outOfBounds (offset size arenaSize : Nat)
  | lock
  deriving DecidableEq, Repr

def Error.message : Error → String
  | .outOfMemory requested largestFree =>
    s!"out of memory: requested {requested} bytes, largest free segment is {largestFree}"
  | .zeroSize => "zero-sized allocation"
  | .notFound offset => "no segment at offset " ++ Text.hex offset
  | .notInUse offset => "segment at offset " ++ Text.hex offset ++ " is not in use"
  | .outOfBounds offset size arenaSize =>
    "range " ++ Text.hex offset ++ "+" ++ Text.hex size ++ " exceeds arena of "
      ++ Text.hex arenaSize ++ " bytes"
  | .lock => "mlock failed"

end PolicyVault.Memory
