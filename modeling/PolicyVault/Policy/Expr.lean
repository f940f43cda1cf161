/-!
# Policy expressions

A policy is a regular expression over access symbols, which are ASCII letters and digits. This
module holds its tree and the language the tree denotes.
-/

namespace PolicyVault.Policy

inductive Expr
  | symbol (byte : UInt8)
  | concat (left right : Expr)
  | either (left right : Expr)
  | star (body : Expr)
  | optional (body : Expr)
  deriving DecidableEq, Repr

/-- Whether a byte is an access symbol: an ASCII letter or digit. -/
def isSymbol (b : UInt8) : Bool :=
  (0x30 ≤ b && b ≤ 0x39) || (0x41 ≤ b && b ≤ 0x5a) || (0x61 ≤ b && b ≤ 0x7a)

/-- The words an expression denotes. -/
inductive Expr.Matches : Expr → List UInt8 → Prop
  | symbol {b} : Matches (.symbol b) [b]
  | concat {l r u v} : Matches l u → Matches r v → Matches (.concat l r) (u ++ v)
  | left {l r w} : Matches l w → Matches (.either l r) w
  | right {l r w} : Matches r w → Matches (.either l r) w
  | starNil {e} : Matches (.star e) []
  | starMore {e u v} : Matches e u → Matches (.star e) v → Matches (.star e) (u ++ v)
  | optionalNil {e} : Matches (.optional e) []
  | optionalSome {e w} : Matches e w → Matches (.optional e) w

/-- Words that begin a word of the language. -/
def Expr.Viable (e : Expr) (w : List UInt8) : Prop :=
  ∃ v, e.Matches (w ++ v)

def Expr.symbols : Expr → List UInt8
  | .symbol b => [b]
  | .concat l r | .either l r => l.symbols ++ r.symbols
  | .star e | .optional e => e.symbols

end PolicyVault.Policy
