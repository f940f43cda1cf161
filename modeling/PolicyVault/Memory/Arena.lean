import PolicyVault.Memory.Error

/-!
# Arenas

An arena is a row of bytes of fixed size, all zero at first. Every access names a range of it,
and a range that does not fit, by its end or because its end is no 64-bit address, is refused.
-/

namespace PolicyVault.Memory

def zeros (n : Nat) : ByteArray :=
  if n = 0 then .empty
  else
    let half := zeros (n / 2)
    if n % 2 = 0 then half ++ half else (half ++ half).push 0
termination_by n

/-- A row of bytes, and whether it is pinned in memory. -/
structure Arena where
  bytes : ByteArray
  locked : Bool

namespace Arena

def zeroed (size : UInt64) : Arena := ⟨zeros size.toNat, false⟩

def size (a : Arena) : Nat := a.bytes.size

/-- The end of a range, if it is a 64-bit address. -/
def rangeEnd? (offset length : Nat) : Option Nat :=
  if offset + length < Text.wordLimit64 then some (offset + length) else none

/-- Refuses a range that does not lie within the arena. -/
def checkRange (a : Arena) (offset length : Nat) : Except Error Unit :=
  match rangeEnd? offset length with
  | some last =>
    if last ≤ a.size then .ok () else .error (.outOfBounds offset length a.size)
  | none => .error (.outOfBounds offset length a.size)

def read (a : Arena) (offset length : Nat) : Except Error (List UInt8) :=
  match a.checkRange offset length with
  | .error e => .error e
  | .ok () => .ok (a.bytes.extract offset (offset + length)).toList

/-- Puts bytes in place of those from `offset` on. -/
def patch (a : Arena) (offset : Nat) (data : ByteArray) : Arena :=
  { a with bytes := data.copySlice 0 a.bytes offset data.size }

def write (a : Arena) (offset : Nat) (data : List UInt8) : Except Error Arena :=
  match a.checkRange offset data.length with
  | .error e => .error e
  | .ok () => .ok (a.patch offset data.toByteArray)

def zeroRange (a : Arena) (offset length : Nat) : Except Error Arena :=
  match a.checkRange offset length with
  | .error e => .error e
  | .ok () => .ok (a.patch offset (zeros length))

def zeroize (a : Arena) : Arena :=
  { a with bytes := zeros a.size }

/-- Whether all bytes are zero. -/
def isZero (a : Arena) : Bool :=
  a.bytes.toList.all (· == 0)

/-- Pins the arena in memory; `granted` tells whether the system agreed. An arena without bytes
needs no pinning, and one that is pinned stays so. -/
def lock (a : Arena) (granted : Bool) : Except Error Arena :=
  if a.locked || a.size == 0 then .ok a
  else if granted then .ok { a with locked := true }
  else .error .lock

/-- A summary for diagnostics, without the bytes. -/
def describe (a : Arena) : String :=
  s!"Arena \x7b len: {a.size}, locked: {a.locked}, .. \x7d"

end Arena

end PolicyVault.Memory
