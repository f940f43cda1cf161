import PolicyVault.Policy.Error
import PolicyVault.Policy.Expr
import PolicyVault.Text.Utf8

/-!
# Reading policy expressions

The grammar, with `expr` as its start:

* `expr ::= concat | concat '|' expr`
* `concat ::= rep | rep concat`
* `rep ::= atom | atom '*' | atom '?'`
* `atom ::= symbol | '(' expr ')'`

Alternatives and juxtaposed parts group to the right; brackets leave no node. An expression is
read byte by byte. The reader keeps what it has finished of each open group, and a byte that
cannot continue any expression stops it there.
-/

namespace PolicyVault.Policy

/-! ## What has been read -/

/-- A group being read: its finished alternatives and the finished parts of the current one, both
newest first. -/
structure Group where
  alternatives : List Expr
  parts : List Expr
  deriving DecidableEq, Repr

def Group.start : Group := ⟨[], []⟩

def Group.alternative (g : Group) (last : Expr) : Expr :=
  g.parts.foldl (fun e part => .concat part e) last

def Group.close (g : Group) (last : Expr) : Expr :=
  g.alternatives.foldl (fun e alternative => .either alternative e) (g.alternative last)

/-- The place in the current group: an operand is due, or one has just been read, which a postfix
operator may still follow if it is `bare`. -/
inductive Place
  | due
  | read (last : Expr) (bare : Bool)
  deriving DecidableEq, Repr

/-- A reader between two bytes: the current group, the groups around it from the inside out, and
the place in the current one. -/
structure Reader where
  group : Group
  outer : List Group
  place : Place
  deriving DecidableEq, Repr

def Reader.start : Reader := ⟨.start, [], .due⟩

/-! ## Reading on -/

/-- Takes the first byte of an operand: a symbol, or the start of a group. -/
def Reader.operand (r : Reader) (b : UInt8) (position : Nat) : Except Error Reader :=
  if isSymbol b then .ok { r with place := .read (.symbol b) true }
  else if b = 0x28 then .ok ⟨.start, r.group :: r.outer, .due⟩
  else .error (.unexpectedByte (Text.latin1 b) position .operand)

/-- The error for a byte that no complete operand can precede. -/
def Reader.stuck (r : Reader) (b : UInt8) (position : Nat) : Error :=
  match r.outer with
  | [] => .trailingInput position
  | _ :: _ => .unexpectedByte (Text.latin1 b) position .closing

def Reader.step (r : Reader) (b : UInt8) (position : Nat) : Except Error Reader :=
  match r.place with
  | .due => r.operand b position
  | .read last bare =>
    if b = 0x2a then
      if bare then .ok { r with place := .read (.star last) false }
      else .error (r.stuck b position)
    else if b = 0x3f then
      if bare then .ok { r with place := .read (.optional last) false }
      else .error (r.stuck b position)
    else if b = 0x7c then
      .ok { r with
        group := ⟨r.group.alternative last :: r.group.alternatives, []⟩
        place := .due }
    else if b = 0x29 then
      match r.outer with
      | [] => .error (r.stuck b position)
      | around :: outer => .ok ⟨around, outer, .read (r.group.close last) true⟩
    else
      Reader.operand { r with group := ⟨r.group.alternatives, last :: r.group.parts⟩ } b position

def Reader.run (r : Reader) (position : Nat) : List UInt8 → Except Error Reader
  | [] => .ok r
  | b :: rest =>
    match r.step b position with
    | .error e => .error e
    | .ok r => r.run (position + 1) rest

def Reader.finish (r : Reader) : Except Error Expr :=
  match r.place, r.outer with
  | .due, _ => .error (.unexpectedEnd .operand)
  | .read _ _, _ :: _ => .error (.unexpectedEnd .closing)
  | .read last _, [] => .ok (r.group.close last)

def Expr.parse (source : List UInt8) : Except Error Expr :=
  if source.isEmpty then .error .empty
  else
    match Reader.start.run 0 source with
    | .error e => .error e
    | .ok r => r.finish

end PolicyVault.Policy
