import PolicyVault.Memory.Error

/-!
# Layouts

A layout divides an arena into segments, free and used, in order of their offsets. The first free
segment that is large enough is taken, from its low end. A segment that is given back is joined
with its free neighbours. Whoever holds a segment can attach a payload to it.
-/

namespace PolicyVault.Memory

structure Segment (α : Type) where
  offset : Nat
  size : Nat
  used : Bool
  payload : Option α
  deriving DecidableEq, Repr

namespace Segment

variable {α : Type}

def free (offset size : Nat) : Segment α := ⟨offset, size, false, none⟩

/-- The offset behind the last byte. -/
def stop (s : Segment α) : Nat := s.offset + s.size

/-- Takes the low `size` bytes of a segment. What is left over becomes a free segment. -/
def take (s : Segment α) (size : Nat) : List (Segment α) :=
  if size < s.size then
    [{ s with size := size, used := true }, free (s.offset + size) (s.size - size)]
  else [{ s with used := true }]

/-- Puts a segment in front of its right neighbours, and joins the two that meet if both are free.
The joined segment is the left one made larger. -/
def join (s : Segment α) : List (Segment α) → List (Segment α)
  | [] => [s]
  | t :: rest =>
    if s.used || t.used then s :: t :: rest else { s with size := s.size + t.size } :: rest

end Segment

/-- The segments of an arena in order of their offsets. -/
structure Layout (α : Type) where
  segments : List (Segment α)
  arenaSize : Nat
  deriving DecidableEq, Repr

namespace Layout

variable {α : Type}

def start (arenaSize : Nat) : Layout α := ⟨[.free 0 arenaSize], arenaSize⟩

def freeCount (l : Layout α) : Nat := l.segments.countP (!·.used)

def usedCount (l : Layout α) : Nat := l.segments.countP (·.used)

def usedBytes (l : Layout α) : Nat :=
  ((l.segments.filter (·.used)).map (·.size)).foldr (· + ·) 0

/-- The size of the largest free segment, 0 if none is free. -/
def largestFree (l : Layout α) : Nat :=
  ((l.segments.filter (!·.used)).map (·.size)).foldl max 0

/-! ## Taking and giving back -/

/-- Takes `size` bytes of the first free segment that is large enough, and tells where they
start. -/
def takeFirst (size : Nat) : List (Segment α) → Option (Nat × List (Segment α))
  | [] => none
  | s :: rest =>
    if !s.used && size ≤ s.size then some (s.offset, s.take size ++ rest)
    else (takeFirst size rest).map fun (offset, rest) => (offset, s :: rest)

def allocate (l : Layout α) (size : Nat) : Except Error (Nat × Layout α) :=
  if size = 0 then .error .zeroSize
  else
    match takeFirst size l.segments with
    | none => .error (.outOfMemory size l.largestFree)
    | some (offset, segments) => .ok (offset, { l with segments := segments })

/-- Frees the used segment that starts at `offset`, and hands out its payload. -/
def giveBack (offset : Nat) : List (Segment α) → Except Error (Option α × List (Segment α))
  | [] => .error (.notFound offset)
  | s :: rest =>
    if s.offset = offset then
      if s.used then .ok (s.payload, { s with used := false, payload := none : Segment α }.join rest)
      else .error (.notInUse offset)
    else
      match giveBack offset rest with
      | .error e => .error e
      | .ok (payload, rest) => .ok (payload, s.join rest)

/-- Deallocates the used segment that starts at `offset`, and hands out its payload. -/
def deallocate (l : Layout α) (offset : Nat) : Except Error (Option α × Layout α) :=
  match giveBack offset l.segments with
  | .error e => .error e
  | .ok (payload, segments) => .ok (payload, { l with segments := segments })

/-! ## Payloads -/

def find? (l : Layout α) (offset : Nat) : Option (Segment α) :=
  l.segments.find? fun s => s.offset == offset

def setPayload (l : Layout α) (offset : Nat) (payload : Option α) : Layout α :=
  { l with
    segments := l.segments.map fun s =>
      if s.offset = offset then { s with payload := payload } else s }

/-- Attaches a payload to the segment that starts at `offset`, and hands out the one it had. -/
def attach (l : Layout α) (offset : Nat) (payload : α) : Option (Option α × Layout α) :=
  (l.find? offset).map fun s => (s.payload, l.setPayload offset (some payload))

def detach (l : Layout α) (offset : Nat) : Option (Option α × Layout α) :=
  (l.find? offset).map fun s => (s.payload, l.setPayload offset none)

/-- The payloads of the used segments, in order of their offsets. -/
def usedPayloads (l : Layout α) : List (Option α) :=
  (l.segments.filter (·.used)).map (·.payload)

/-- Detaches the payloads of all used segments. -/
def detachUsed (l : Layout α) : Layout α :=
  { l with segments := l.segments.map fun s => if s.used then { s with payload := none } else s }

end Layout

end PolicyVault.Memory
