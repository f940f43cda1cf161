import PolicyVault.Text.Numeral

/-!
# Checking layouts

Two checks of a list of spans: that they cover an arena without gap, overlap or empty span, and
that no two free spans are neighbours. The first fault is reported. The end of a span is a 64-bit
address; where it would not be, the check fails.
-/

namespace PolicyVault.Memory

structure Span where
  offset : Nat
  size : Nat
  used : Bool
  deriving DecidableEq, Repr

inductive PartitionFault
  | noSpan
  | headNotAtStart (offset : Nat)
  | misplaced (index offset expected : Nat)
  | emptySpan (index : Nat)
  | endTooLarge
  | wrongEnd (last arenaSize : Nat)
  | adjacentFree (index : Nat)
  deriving DecidableEq, Repr

def differ (reason : String) (left right : Nat) : String :=
  s!"assertion `left == right` failed: {reason}\n  left: {left}\n right: {right}"

def PartitionFault.message : PartitionFault → String
  | .noSpan => "segment list is empty"
  | .headNotAtStart offset => differ "head segment does not start at 0" offset 0
  | .misplaced index offset expected =>
    let reason := s!"segment {index} starts at " ++ Text.hex offset ++ ", expected "
      ++ Text.hex expected
    differ reason offset expected
  | .emptySpan index => s!"segment {index} is empty"
  | .endTooLarge => "attempt to add with overflow"
  | .wrongEnd last arenaSize =>
    let reason := "segments end at " ++ Text.hex last ++ ", arena is " ++ Text.hex arenaSize
    differ reason last arenaSize
  | .adjacentFree index => s!"free segments {index} and {index + 1} are adjacent"

/-- Checks that spans follow each other from `expected` on, and gives the end of the last one. -/
def checkChain (index expected : Nat) : List Span → Except PartitionFault Nat
  | [] => .ok expected
  | s :: rest =>
    if s.offset ≠ expected then .error (.misplaced index s.offset expected)
    else if s.size = 0 then .error (.emptySpan index)
    else if Text.wordLimit64 ≤ s.offset + s.size then .error .endTooLarge
    else checkChain (index + 1) (s.offset + s.size) rest

/-- Checks that spans cover an arena exactly and in order. -/
def checkPartition (spans : List Span) (arenaSize : Nat) : Except PartitionFault Unit :=
  match spans with
  | [] => .error .noSpan
  | head :: _ =>
    if head.offset ≠ 0 then .error (.headNotAtStart head.offset)
    else
      match checkChain 0 0 spans with
      | .error e => .error e
      | .ok last => if last = arenaSize then .ok () else .error (.wrongEnd last arenaSize)

/-- Checks that no two free spans are neighbours, where the first has number `index`. -/
def checkCoalescedFrom (index : Nat) : List Span → Except PartitionFault Unit
  | s :: t :: rest =>
    if s.used || t.used then checkCoalescedFrom (index + 1) (t :: rest)
    else .error (.adjacentFree index)
  | _ => .ok ()

def checkCoalesced (spans : List Span) : Except PartitionFault Unit :=
  checkCoalescedFrom 0 spans

end PolicyVault.Memory
